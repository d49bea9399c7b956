import Workbench.Proofs.DomainModel.Drafts

/-!
**Drafts that are finished.**

A draft that has all that its type needs is made a node when its rule is left, when an action wraps it into
another object, and when the document ends. Each time the parts of the object become parts of the node, which
is whole, and the node is loose in their place.
-/

namespace Workbench.DomainModel

open Arena State Interpreter SourceTree

variable {plan : Plan} {outer l : Loose} {s t : State} {type : TypeId} {p : Properties} {o : Object}
  {pending present : List String}

theorem mem_parts_withDefaults (types : TypeHierarchy) (type : TypeId) {x : Part} (mem : x ∈ p.parts) :
    x ∈ (withDefaults types type p).parts := by
  unfold withDefaults
  generalize types.allProperties type = entries
  induction entries generalizing p with
  | nil => exact mem
  | cons entry rest ih =>
    obtain ⟨name, kind⟩ := entry
    refine ih ?_
    dsimp only
    split
    · exact mem
    · next absent =>
      have room : p.get? name = none := by
        rw [← Option.not_isSome_iff_eq_none, Properties.get?_isSome_iff]
        exact absent
      have kept : ∀ v, x ∈ (p.set name v).parts := fun v =>
        Properties.mem_parts_assigned (show p.Room name v .set from room) (.inl mem)
      cases kind with
      | value => exact mem
      | array => exact kept _
      | bool => exact kept _

/-- The node `id` has been made, and is loose next to `l`. -/
structure Made (plan : Plan) (l : Loose) (type : TypeId) (source : Option SourceTree) (s t : State)
    (id : NodeId) : Prop where
  sound : t.arena.Sound plan.grammar.types
  spare : t.arena.Spare plan.grammar.types ({ parts := [.node id] } ++ l)
  sturdy : Sturdy t.arena ({ parts := [.node id] } ++ l)
  grows : s.arena.Preserves t.arena
  node : ∃ m, t.nodes[id]? = some m ∧ m.type = type ∧ m.source = source.map (·.withOwner (some id))

/-- What it takes to make a node of an object: it holds what the features of its type allow, as the trees in
its source tell, and has what its type needs. -/
structure Complete (a : Arena) (type : TypeId) (p : Properties) (slot : Option NodeId)
    (source : Option SourceTree) : Prop where
  declared : type < 10
  filled : ∀ id, Filled a type p (treesOf (source.map (·.withOwner (some id))))
  needed : ∀ feature ∈ needs type, (p.get? feature).isSome = true
  slot : ∀ id ∈ slot, HasType a [type] id

theorem made_construct (fits : Fits plan) {slot : Option NodeId} (source : Option SourceTree)
    (sound : s.arena.Sound plan.grammar.types)
    (spare : s.arena.Spare plan.grammar.types ({ parts := p.parts, slots := slot.toList } ++ l))
    (sturdy : Sturdy s.arena ({ parts := p.parts, slots := slot.toList } ++ l))
    (owned : ∀ tree ∈ source, tree.OwnedBelow s.nodes.size)
    (complete : Complete s.arena type p slot source) :
    Made plan l type source s (s.construct plan type p slot source).1
      (s.construct plan type p slot source).2 := by
  have ready := Ready.of_spare sound spare fun _ => Nat.le_refl _
  obtain ⟨built, sound', spare'⟩ := construct_spec type sound spare owned
  have self : (s.construct plan type p slot source).2 = slot.getD s.nodes.size := rfl
  have typed : ∀ m, s.arena.nodes[(s.construct plan type p slot source).2]? = some m →
      m.type = type := by
    intro m found
    rw [self] at found
    cases slot with
    | none => exact absurd (Array.getElem?_eq_some_iff.1 found).1 (Nat.lt_irrefl _)
    | some id =>
      obtain ⟨k, found', mem⟩ := complete.slot id rfl
      obtain rfl : k = m := Option.some.inj (found'.symm.trans found)
      exact List.mem_singleton.1 mem
  have whole : Whole s.arena
      (builtNode plan.grammar.types type p (s.construct plan type p slot source).2 source) := by
    rw [fits.hierarchy]
    exact whole_builtNode (complete.filled _) complete.declared complete.needed fun _ => rfl
  refine ⟨sound', spare', ?_, built.preserves typed, ?_⟩
  · refine sturdy.built built self (fun x => mem_parts_withDefaults _ _) (fun mem => ?_) typed whole
    exact (ready.others _ (Loose.count_pos_of_slot mem)).2 rfl
  · obtain ⟨m, found, same⟩ := built.self
    exact ⟨m, found, AstNode.type_of_unplaced same, AstNode.source_of_unplaced same⟩

/-- The object of an intact state, without the trees of its invocation. -/
theorem sturdy_object (h : Intact plan outer s) (content : s.frame.content = .object o) :
    Sturdy s.arena (o.loose ++ outer) := by
  refine h.sturdy.mono (fun x some => ?_) fun id => ?_
  · rw [Frame.loose_of_object content] at some
    simpa [Loose.count] using some
  · rw [Frame.loose_of_object content]
    simp

/-- A draft is complete once its type needs nothing more. -/
theorem Sketch.complete (h : Sketch type pending present s o) (declared : type < 10)
    (needed : needs type ⊆ present) {source : Option SourceTree}
    (kept : ∀ id feature, treesOf (source.map (·.withOwner (some id))) feature = s.frame.assigned feature) :
    Complete s.arena type o.properties o.slot source :=
  ⟨declared, fun id => h.filled.congr (kept id), fun feature mem => h.present feature (needed mem), h.slot⟩

/-! ### Leaving rules -/

/-- What an invocation hands to its caller: nothing at all, or a node of one of the types, with its source. -/
structure Hands (plan : Plan) (outer : Loose) (types : List TypeId) (s : State) (feature : Option String)
    (out : Invoked) : Prop where
  intact : Intact plan (out.loose ++ outer) out.state
  grows : s.arena.Preserves out.state.arena
  frame : out.state.frame = s.frame
  result : out.value = none ∧ out.tree = none ∨
    ∃ n m rule offset children, out.value = some (.node n) ∧ out.state.nodes[n]? = some m ∧
      m.type ∈ types ∧ m.source = out.tree ∧
      out.tree = some ((close rule feature offset children).withOwner (some n))

/-- A rule is done when it has taken no token and holds nothing, or has a complete draft. -/
def Done (types : List TypeId) (s : State) : Prop :=
  s.frame.children = #[] ∧ (∃ o, s.frame.content = .object o ∧ o.properties.parts = [] ∧ o.slot = none) ∨
    ∃ type ∈ types, Draft type [] (needs type) s

theorem stream_leave (plan : Plan) (id : RuleId) (kind : RuleKind) (feature : Option String)
    (offset : Nat) (caller : Frame) (s : State) :
    (leave plan id kind feature offset caller s).state.stream = s.stream :=
  (leave_spec plan id kind feature offset caller s).1.stream

theorem leave_idle (id : RuleId) (kind : RuleKind) (feature : Option String) (offset : Nat)
    (caller : Frame) (none : s.frame.children = #[]) :
    leave plan id kind feature offset caller s = { state := { s with frame := caller } } := by
  unfold leave
  dsimp only
  rw [none]
  rfl

theorem leave_object (id : RuleId) (kind : RuleKind) (feature : Option String) (offset : Nat)
    (caller : Frame) (taken : s.frame.children ≠ #[]) (content : s.frame.content = .object o)
    (typed : o.type = some type) :
    leave plan id kind feature offset caller s =
      let tree := close id feature offset s.frame.children.toList
      let made := { s with frame := caller }.construct plan type o.properties o.slot (some tree)
      { state := made.1
        tree := some (tree.withOwner (some made.2))
        value := some (.node made.2) } := by
  unfold leave constructObject
  dsimp only
  rw [if_neg (by simpa using taken), content]
  simp only [typed]

/-- What is not loose in a frame that holds nothing. -/
theorem loose_idle {f : Frame} (content : f.content = .object o) (noParts : o.properties.parts = [])
    (noSlot : o.slot = none) : (∀ x, f.loose.count x = 0) ∧ f.loose.slots = [] := by
  simp [Frame.loose, content, noParts, noSlot, Loose.count]

/-- A rule that is done hands over nothing, or the node of its draft. -/
theorem hands_leave (fits : Fits plan) (caller : State) {ended : State} {types : List TypeId}
    (declared : ∀ type ∈ types, type < 10) (grows : caller.arena.Preserves ended.arena)
    (h : Intact plan (caller.frame.loose ++ outer) ended) (done : Done types ended) (id : RuleId)
    (kind : RuleKind) (feature : Option String) (offset : Nat) :
    Hands plan outer types caller feature (leave plan id kind feature offset caller.frame ended) := by
  have tidy := h.toTidy.leave id kind feature offset
  have frame := frame_leave plan id kind feature offset caller.frame ended
  have legible : ∀ t ∈ (leave plan id kind feature offset caller.frame ended).state.stream.tokens,
      Legible t := by
    rw [stream_leave]
    exact h.legible
  have idle : ended.frame.children = #[] →
      (∃ o, ended.frame.content = .object o ∧ o.properties.parts = [] ∧ o.slot = none) →
      Hands plan outer types caller feature (leave plan id kind feature offset caller.frame ended) := by
    rintro none ⟨o, content, noParts, noSlot⟩
    obtain ⟨count, slots⟩ := loose_idle content noParts noSlot
    rw [leave_idle _ _ _ _ _ none] at tidy legible ⊢
    refine ⟨⟨tidy, legible, h.sturdy.mono (fun x some => ?_) fun id => ?_⟩, grows, rfl, .inl ⟨rfl, rfl⟩⟩
    · rw [Loose.count_append, count x] at some
      simpa [Invoked.loose, Loose.count] using some
    · simp [slots, Invoked.loose]
  rcases done with ⟨none, nothing⟩ | ⟨type, mem, o, sketch, nothing⟩
  · exact idle none nothing
  by_cases none : ended.frame.children = #[]
  · exact idle none ⟨o, sketch.content, nothing none⟩
  have tree : (close id feature offset ended.frame.children.toList).OwnedBelow ended.nodes.size :=
    .close h.toTidy.children
  have sturdy := sturdy_object h sketch.content
  have made := made_construct (s := { ended with frame := caller.frame }) fits
    (some (close id feature offset ended.frame.children.toList)) h.sound
    (h.toTidy.object sketch.content) sturdy (by rintro _ ⟨⟩; exact tree)
    (sketch.complete (declared type mem) (List.Subset.refl _) fun id feature => by
      simp [treesOf, assignedTo, Frame.assigned])
  rw [leave_object _ _ _ _ _ none sketch.content sketch.typed] at tidy legible frame ⊢
  obtain ⟨m, found, isType, source⟩ := made.node
  refine ⟨⟨tidy, legible, made.sturdy.mono (fun x some => ?_) fun id => ?_⟩, grows.trans made.grows, frame,
    .inr ⟨_, m, id, offset, _, rfl, found, isType ▸ mem, source, rfl⟩⟩
  · dsimp only at frame ⊢
    rw [frame]
    simp only [Loose.count_append, Invoked.loose] at some ⊢
    simp only [Loose.count] at some ⊢
    omega
  · dsimp only at frame ⊢
    rw [frame]
    simp [Invoked.loose]

/-! ### Wrapping -/

theorem treesOf_wrapChildren (feature : String) (f : Frame) (id : NodeId) (other : String) :
    treesOf ((wrapChildren feature f).map (·.withOwner (some id))) other = f.assigned other := by
  unfold wrapChildren
  split
  · next empty => simp [treesOf, Frame.assigned, empty]
  · next first rest eq => simp [treesOf, assignedTo, Frame.assigned, eq]

/-- The branch of the trees that are wrapped belongs to no feature but the one of the action. -/
theorem withFeatureOf_wrappedTrees (f : Frame) {feature other : String} (differ : feature ≠ other)
    (id : NodeId) : withFeatureOf other (wrappedTrees f feature (some id)).toList = [] := by
  unfold wrappedTrees wrapChildren
  split
  · next none =>
    split at none
    · next empty => rw [empty, withFeatureOf_nil]
    · cases none
  · next tree wrapped =>
    split at wrapped
    · cases wrapped
    · cases wrapped
      simp [withFeature_owned (show some feature ≠ some other from fun same => differ (Option.some.inj same))]

namespace Made

variable {source : Option SourceTree} {id : NodeId}

theorem bound (h : Made plan l type source s t id) : id < t.nodes.size := by
  obtain ⟨m, found, -⟩ := h.node
  exact (Array.getElem?_eq_some_iff.1 found).1

theorem size_le (h : Made plan l type source s t id) : s.nodes.size ≤ t.nodes.size := by
  refine Nat.le_of_not_lt fun less => ?_
  obtain ⟨k, beyond, -⟩ := h.grows.node _ _ (Array.getElem?_eq_getElem less)
  exact Nat.lt_irrefl _ (Array.getElem?_eq_some_iff.1 beyond).1

/-- Only trees are loose in an object that starts anew. -/
theorem intact_restarted (h : Made plan l type source s t id) (new : TypeId) {trees : Array SourceTree}
    (owned : ∀ tree ∈ trees.toList, tree.OwnedBelow t.nodes.size)
    (legible : ∀ token ∈ t.stream.tokens, Legible token) :
    Intact plan ({ parts := [.node id] } ++ l) (t.restarted new trees) := by
  obtain ⟨count, slots⟩ := loose_idle (f := (t.restarted new trees).frame) rfl rfl rfl
  refine ⟨⟨h.sound, h.spare.trees owned⟩, legible, h.sturdy.mono (fun x some => ?_) fun id => ?_⟩
  · rw [Loose.count_append, count, Nat.zero_add]
    exact some
  · rw [Loose.slots_append, slots, List.nil_append]

end Made

/-- An operand that is complete becomes the first feature of a new draft. -/
theorem wrap_spec (fits : Fits plan) (new : TypeId) (feature : String) (pending : List String)
    {types : List TypeId} (h : Intact plan outer s) (sketch : Sketch type [] present s o) (declared : type < 10)
    (needed : needs type ⊆ present) (mem : type ∈ types)
    (listed : (features new).lookup feature = some (.node types)) (apart : feature ∉ pending) :
    Carries plan outer s (s.wrap plan new feature .set) ∧
      ∃ o', Sketch new pending [feature] (s.wrap plan new feature .set) o' := by
  have children := h.toTidy.children
  have made := made_construct fits (wrapChildren feature s.frame) h.sound
    (h.toTidy.object sketch.content) (sturdy_object h sketch.content)
    (Tidy.owned_wrapChildren children feature)
    (sketch.complete declared needed fun id f => treesOf_wrapChildren feature s.frame id f)
  have finishing := Finishing.constructObject plan s o (wrapChildren feature s.frame)
  rw [wrap_of_object sketch.content]
  simp only [constructObject, sketch.typed] at finishing ⊢
  generalize s.construct plan type o.properties o.slot (wrapChildren feature s.frame) = built
    at made finishing ⊢
  obtain ⟨t, n⟩ := built
  dsimp only at made finishing ⊢
  obtain ⟨m, found, isType, -⟩ := made.node
  have below : ∀ id ∈ some n, id < t.nodes.size := by
    rintro _ ⟨⟩
    exact made.bound
  have owned := Tidy.owned_wrappedTrees (fun tree mem => (children tree mem).mono made.size_le) feature below
  have legible : ∀ token ∈ t.stream.tokens, Legible token := by
    rw [finishing.stream]
    exact h.legible
  have restarted := made.intact_restarted new owned legible
  have drawn : Sketch new pending [] (t.restarted new (wrappedTrees s.frame feature (some n)))
      { type := some new, retagged := true } :=
    sketch_bare rfl fun f mem =>
      withFeatureOf_wrappedTrees s.frame (ne_of_mem_of_not_mem mem apart).symm n
  have room : ({ type := some new, retagged := true } : Object).properties.Room feature (.node n) .set :=
    rfl
  refine ⟨⟨restarted.assign drawn.content room, ?_⟩, _,
    drawn.assign (.refl _ _) apart listed (Properties.get?_set_self _ _ _) ⟨n, rfl, m, found, isType ▸ mem⟩
      fun _ same => by cases same⟩
  rw [arena_assign]
  exact made.grows

end Workbench.DomainModel
