import Workbench.Proofs.Parser.Building
import Workbench.Proofs.Parser.Ownership

/-!
**Every run keeps nodes and their trees together.**

Each kind of step keeps the nodes of an invocation linked with its trees. A rule that is called starts
without nodes, behind those that there are, and what it hands to its caller is linked in itself. One
thing would break this: a node that is taken over by an invocation that builds no object. It would be
noted, and in a checked grammar it does not happen.
-/

namespace Workbench

open SourceTree Arena

namespace SourceTree

theorem withOwner_owner {t : SourceTree} (unowned : t.owner = none) : t.withOwner none = t := by
  cases t with
  | leaf token feature => rfl
  | branch rule feature range owner children =>
    obtain rfl : owner = none := unowned
    rfl

theorem owner_withOwner {t : SourceTree} (branch : t.isBranch = true) (owner : Option NodeId) :
    (t.withOwner owner).owner = owner := by
  cases t with
  | leaf token feature => cases branch
  | branch => rfl

end SourceTree

namespace State

variable {plan : Plan} {outer : Loose} {s t : State} {base : Nat}

/-- The nodes before `base` are as they were, up to their places. -/
def KeptBelow (base : Nat) (s t : State) : Prop := ∀ j, j < base → SameAt s.nodes t.nodes j

theorem KeptBelow.trans {u : State} (h : KeptBelow base s t) (h' : KeptBelow base t u) : KeptBelow base s u :=
  fun j before => (h j before).trans (h' j before)

theorem KeptBelow.of_eq (h : t.nodes = s.nodes) : KeptBelow base s t := by
  intro j _
  rw [SameAt, h]

/-! ### Loose things of an invocation -/

theorem loose_attach (s : State) (trees : List SourceTree) :
    (s.attach trees).frame.loose = { s.frame.loose with trees := s.frame.loose.trees ++ trees } := by
  unfold attach Frame.loose
  cases s.frame.content <;> simp

/-- An assignment changes the loose parts only, and adds none but those of the value. -/
theorem loose_assign (s : State) (feature : String) (op : AssignOp) (value : Value) :
    (s.assign feature op value).frame.loose.trees = s.frame.loose.trees ∧
      (s.assign feature op value).frame.loose.slots = s.frame.loose.slots ∧
      (s.assign feature op value).frame.loose.parts ⊆ s.frame.loose.parts ++ value.parts := by
  cases content : s.frame.content with
  | text acc =>
    unfold assign
    rw [content]
    exact ⟨rfl, rfl, List.subset_append_left _ _⟩
  | object o =>
    have fewer := subset_of_count_le (o.properties.count_assigned_le feature op value)
    rw [assign_of_object content]
    refine ⟨?_, ?_, ?_⟩ <;> simp only [Frame.loose, content]
    exact fewer

/-- The invocation under way has its nodes and trees together. -/
def Linked (base : Nat) (s : State) : Prop := Arena.Linked base s.nodes s.frame.loose

namespace Linked

theorem of_loose (h : s.Linked base) (nodes : t.nodes = s.nodes) (loose : t.frame.loose = s.frame.loose) :
    t.Linked base := by
  unfold Linked
  rw [nodes, loose]
  exact h

theorem attach_leaves {trees : List SourceTree} (h : s.Linked base) (none : ownersOf trees = []) :
    (s.attach trees).Linked base := by
  unfold Linked
  rw [loose_attach]
  exact Arena.Linked.append h none

theorem consume (h : s.Linked base) (feature : Option String) : (s.consume feature).1.Linked base := by
  unfold State.consume
  split
  · exact h
  · next hidden token rest _ =>
    refine attach_leaves (s := { s with stream := rest }) h ?_
    simp [ownersOf, owners]

/-- A value is assigned whose parts are linked next to the object. -/
theorem assign {value : Value}
    (h : Arena.Linked base s.nodes (s.frame.loose ++ { parts := value.parts })) (feature : String)
    (op : AssignOp) : (s.assign feature op value).Linked base := by
  obtain ⟨trees, slots, parts⟩ := loose_assign s feature op value
  unfold Linked
  rw [nodes_assign]
  refine h.within ?_ (fun c mem => parts mem) ?_
  · rw [trees]
    simp
  · rw [slots]
    simp

theorem assign_plain {value : Value} (h : s.Linked base) (plain : value.parts = []) (feature : String)
    (op : AssignOp) : (s.assign feature op value).Linked base := by
  refine assign ?_ feature op
  rw [plain]
  exact h.within (by simp) (by simp) (by simp)

theorem refer (h : s.Linked base) (feature : String) (op : AssignOp) (target : TypeId) (text : String)
    (source : SourceTree) : (Interpreter.makeReference feature op target text source s).Linked base := by
  unfold Interpreter.makeReference
  refine assign (s := { s with references := s.references.push { text, target, source } }) ?_ feature op
  exact Arena.Linked.within h (by simp) (by simp [Value.parts, Value.part?]) (by simp)

/-! ### Finishing objects -/

/-- A finished object leaves a node that owns the tree of the invocation, if there is one. -/
theorem constructObject {o : Object} (source : Option SourceTree) {l : Loose}
    (sound : s.arena.Sound plan.grammar.types) (spare : s.arena.Spare plan.grammar.types (o.loose ++ outer))
    (h : Arena.Linked base s.nodes l) (parts : o.loose.parts ⊆ l.parts) (slots : o.loose.slots ⊆ l.slots)
    (closed : ∀ tree, source = some tree →
      tree.isBranch = true ∧ tree.owner = none ∧ tree.children = l.trees)
    (sourceless : source = none → l.trees = []) :
    Arena.Linked base (s.constructObject plan o source).1.nodes
        { parts := (s.constructObject plan o source).2.toList.map .node
          trees := source.toList.map (·.withOwner (s.constructObject plan o source).2) } ∧
      KeptBelow base s (s.constructObject plan o source).1 := by
  unfold State.constructObject
  cases o.type with
  | none =>
    refine ⟨?_, .of_eq rfl⟩
    dsimp only
    cases source with
    | none => exact h.within (sourceless rfl).symm nofun nofun
    | some tree =>
      obtain ⟨-, unowned, children⟩ := closed tree rfl
      rw [Option.toList_some, List.map_singleton, withOwner_owner unowned]
      exact (h.group unowned children).within rfl nofun nofun
  | some type =>
    have ready := Ready.of_spare (q := withDefaults plan.grammar.types type o.properties) sound spare
      (count_withDefaults_le _ type o.properties)
    have inRange : ∀ id ∈ o.slot, id < s.nodes.size := by
      intro id mem
      exact spare.has (.node id)
        (Loose.count_pos_of_slot (List.mem_append_left _ (Option.mem_toList.2 mem)))
    have gains := gains_construct plan type o.properties source inRange
    -- the node is new, or its slot has lost its tree
    have fresh : base ≤ o.slot.getD s.nodes.size ∧ sourceOf? s.nodes (o.slot.getD s.nodes.size) = none := by
      cases slot : o.slot with
      | none => exact ⟨h.start, by simp [sourceOf?]⟩
      | some id => exact h.slots id (slots (by simp [Object.loose, slot]))
    have fewer : (withDefaults plan.grammar.types type o.properties).parts ⊆ l.parts :=
      List.Subset.trans (subset_of_count_le (count_withDefaults_le _ type o.properties)) parts
    refine ⟨?_, fun j before => gains.other j (Nat.ne_of_lt (Nat.lt_of_lt_of_le before fresh.1))⟩
    have linked := h.construct gains.self gains.other fresh.1 fresh.2
      (fun j m found mem => ready.freeSelf ⟨j, m, found, mem⟩) ready.apart fewer ?_ ?_
    · cases source <;> exact linked
    · intro owned given
      obtain ⟨tree, took, rfl⟩ := Option.map_eq_some_iff.1 given
      obtain ⟨branch, -, children⟩ := closed tree took
      exact ⟨owner_withOwner branch _, (children_withOwner _ tree).trans children⟩
    · exact fun none => sourceless (Option.map_eq_none_iff.1 none)

theorem wrapChildren_eq_some {feature : String} {frame : Frame} {tree : SourceTree}
    (h : wrapChildren feature frame = some tree) :
    tree.isBranch = true ∧ tree.owner = none ∧ tree.children = frame.children.toList := by
  unfold wrapChildren at h
  split at h
  · cases h
  · next first rest eq =>
    cases h
    rw [eq]
    exact ⟨rfl, rfl, rfl⟩

theorem wrapChildren_eq_none {feature : String} {frame : Frame} (h : wrapChildren feature frame = none) :
    frame.children.toList = [] := by
  unfold wrapChildren at h
  split at h
  · next empty => exact empty
  · cases h

theorem toList_wrappedTrees (frame : Frame) (feature : String) (built : Option NodeId) :
    (wrappedTrees frame feature built).toList =
      (wrapChildren feature frame).toList.map (·.withOwner built) := by
  unfold wrappedTrees
  split
  · next none =>
    rw [none, wrapChildren_eq_none none]
    rfl
  · next tree wrapped =>
    rw [wrapped]
    cases built with
    | none => simp [withOwner_owner (wrapChildren_eq_some wrapped).2.1]
    | some id => rfl

theorem wrap (h : s.Linked base) (tidy : Tidy plan outer s) (type : TypeId) (feature : String)
    (op : AssignOp) :
    (s.wrap plan type feature op).Linked base ∧ KeptBelow base s (s.wrap plan type feature op) := by
  cases content : s.frame.content with
  | text acc =>
    unfold State.wrap
    rw [content]
    exact ⟨h.of_loose rfl rfl, .of_eq rfl⟩
  | object o =>
    have trees : s.frame.loose.trees = s.frame.children.toList := s.frame.trees_loose
    obtain ⟨parts, slots⟩ := Frame.subset_loose content
    obtain ⟨linked, kept⟩ := constructObject (wrapChildren feature s.frame) tidy.sound
      (tidy.object content) h parts slots (by rw [trees]; exact fun tree => wrapChildren_eq_some)
      (by rw [trees]; exact wrapChildren_eq_none)
    rw [wrap_of_object content]
    have wrapped := toList_wrappedTrees s.frame feature
    generalize s.constructObject plan o (wrapChildren feature s.frame) = out at linked kept
    obtain ⟨t, built⟩ := out
    rw [← wrapped] at linked
    cases built with
    | none => exact ⟨linked, kept⟩
    | some id =>
      refine ⟨assign ?_ feature op, fun j before => ?_⟩
      · refine linked.within ?_ ?_ ?_
        · simp [restarted, Frame.loose]
        · simp [restarted, Frame.loose, Value.parts, Value.part?, Properties.parts, Properties.empty]
        · simp [restarted, Frame.loose]
      · rw [SameAt, nodes_assign]
        exact kept j before

/-! ### Calls -/

theorem enter (s : State) (id : RuleId) (kind : RuleKind) :
    State.Linked s.nodes.size { s with frame := Frame.enter id kind } := by
  have empty : (Frame.enter id kind).loose = {} := by
    cases kind <;> simp [Frame.enter, Frame.loose, Properties.parts, Properties.empty]
  unfold State.Linked
  rw [empty]
  exact .empty s.nodes

/-- What a rule hands to its caller is linked in itself, and a node that it hands over owns the tree. -/
theorem leave {caller : Frame} (h : s.Linked base) (tidy : Tidy plan (caller.loose ++ outer) s) (id : RuleId)
    (kind : RuleKind) (feature : Option String) (offset : Nat) {out : Invoked}
    (left : out = Interpreter.leave plan id kind feature offset caller s) :
    Arena.Linked base out.state.nodes out.loose ∧ KeptBelow base s out.state ∧
      ∀ n, out.value = some (.node n) → ∃ tree, out.tree = some tree ∧ tree.owner = some n := by
  subst left
  have trees : s.frame.loose.trees = s.frame.children.toList := s.frame.trees_loose
  have closed : (close id feature offset s.frame.children.toList).children = s.frame.loose.trees := trees.symm
  unfold Interpreter.leave
  dsimp only
  split
  · next empty =>
    have none : s.frame.children.toList = [] := by simpa using empty
    exact ⟨Arena.Linked.within h (by rw [trees, none]; rfl) nofun nofun, .of_eq rfl, nofun⟩
  · split
    · next o content =>
      obtain ⟨parts, slots⟩ := Frame.subset_loose content
      obtain ⟨linked, kept⟩ := constructObject (s := { s with frame := caller })
        (some (close id feature offset s.frame.children.toList)) tidy.sound (tidy.object content) h
        parts slots (by rintro tree ⟨⟩; exact ⟨rfl, rfl, closed⟩) nofun
      split
      · next n built =>
        rw [built] at linked
        refine ⟨linked, kept, ?_⟩
        rintro _ ⟨⟩
        exact ⟨_, rfl, rfl⟩
      · next built =>
        rw [built] at linked
        exact ⟨linked, kept, nofun⟩
    · exact ⟨(Arena.Linked.group h rfl closed).within rfl nofun nofun, .of_eq rfl, nofun⟩
    · exact ⟨(Arena.Linked.group h rfl closed).within rfl nofun nofun, .of_eq rfl, nofun⟩

/-- The caller has what it had and what the rule hands to it. -/
theorem beside {out : Invoked} (h : s.Linked base) (tidy : Tidy plan outer s)
    (inner : Arena.Linked s.nodes.size out.state.nodes out.loose)
    (kept : KeptBelow s.nodes.size s out.state) :
    Arena.Linked base out.state.nodes (s.frame.loose ++ out.loose) := by
  refine Arena.Linked.join h inner kept ?_ ?_ ?_
  · intro id n found c mem
    exact tidy.sound.has_of_holds (x := .node c) ⟨id, n, found, mem⟩
  · intro c mem
    exact tidy.spare.has (.node c) (Loose.count_pos_of_mem (List.mem_append_left _ mem))
  · intro id mem
    exact tidy.spare.has (.node id) (Loose.count_pos_of_slot (List.mem_append_left _ mem))

/-- A node is taken over by an object, with the tree that it owns. -/
theorem adopt {n : NodeId} {tree : SourceTree} (object : s.frame.isObject = true)
    (h : Arena.Linked base s.nodes (s.frame.loose ++ { parts := [.node n], trees := [tree] }))
    (own : tree.owner = some n) : ((s.attach [tree.withOwner none]).adopt n).Linked base := by
  obtain ⟨o, content⟩ := Frame.isObject_iff.1 object
  have top : Occurs tree (s.frame.loose.trees ++ [tree]) :=
    occurs_append.2 (.inr (occurs_singleton.2 (.inl rfl)))
  obtain ⟨node, found, -⟩ := Option.bind_eq_some_iff.1 (h.owned tree top n own).2
  have fewer := subset_of_count_le (l := (node.properties.fillFrom o.properties).parts)
    (m := node.properties.parts ++ o.properties.parts) fun x => by
      rw [List.count_append]
      exact node.properties.count_fillFrom_le o.properties x
  have reopened := h.reopen own found (node.properties.fillFrom o.properties).parts (by
    simpa [Frame.loose, content] using fewer)
  unfold State.Linked
  rw [adopt_of_object (s := s.attach [tree.withOwner none]) content found]
  refine reopened.within ?_ ?_ ?_
  · simp [Frame.loose, content, attach]
  · simp [Frame.loose]
  · simp [Frame.loose]

end Linked

end State

namespace Interpreter

open State

variable {plan : Plan} {outer : Loose} {s t : State} {base : Nat}

/-- A node was handed to an invocation that builds no object. -/
def Astray (s : State) : Prop := Incident.adoptionOutsideObject ∈ s.incidents

/-- What the caller makes of a result keeps its nodes and trees together. -/
theorem Returns.linked {out : Invoked} (back : Returns out t) (straight : ¬ Astray t)
    (h : Arena.Linked base out.state.nodes (out.state.frame.loose ++ out.loose))
    (behind : ∀ n, out.value = some (.node n) → base ≤ n)
    (owns : ∀ n, out.value = some (.node n) → ∃ tree, out.tree = some tree ∧ tree.owner = some n) :
    t.Linked base ∧ KeptBelow base out.state t := by
  have attached : (out.state.attach out.tree.toList).Linked base := by
    unfold State.Linked
    rw [loose_attach]
    exact h.within rfl (fun c mem => List.mem_append_left _ mem) (List.subset_append_left _ _)
  cases back with
  | keep => exact ⟨attached, .of_eq rfl⟩
  | @assign n value feature op =>
    refine ⟨.assign ?_ feature op, .of_eq (nodes_assign _ _ _)⟩
    rw [loose_attach]
    refine h.within ?_ ?_ ?_
    · simp [Invoked.loose]
    · intro c mem
      simpa [Invoked.loose, value, Value.parts, Value.part?] using mem
    · simp [Invoked.loose]
  | @adopt n value =>
    obtain ⟨tree, took, own⟩ := owns n value
    have object : out.state.frame.isObject = true := by
      by_contra text
      refine straight ?_
      unfold State.adopt
      split
      · next o node content _ => exact absurd (Frame.isObject_iff.2 ⟨o, content⟩) text
      · exact List.mem_cons_self
    have loose : out.loose = { parts := [.node n], trees := [tree] } := by
      rw [Invoked.loose, value, took]
      rfl
    rw [loose] at h
    rw [took]
    refine ⟨State.Linked.adopt object h own, fun j before => ?_⟩
    have differ : n ≠ j := Nat.ne_of_gt (Nat.lt_of_lt_of_le before (behind n value))
    unfold SameAt State.adopt
    split
    · rw [Array.getElem?_setIfInBounds_ne differ]
      rfl
    · rfl
  | refer took feature op target text =>
    rw [took] at attached
    exact ⟨attached.refer feature op target text _, .of_eq (nodes_assign _ _ _)⟩

/-- **Every run keeps nodes and their trees together**, and leaves the nodes before its base alone. -/
theorem Reaches.linked (h : Reaches plan s t) (straight : ¬ Astray t) (tidy : Tidy plan outer s)
    (before : s.Linked base) : t.Linked base ∧ KeptBelow base s t := by
  induction h generalizing outer base with
  | refl => exact ⟨before, .of_eq rfl⟩
  | trans first next ih ih' =>
    have straightBefore := fun astray => straight (next.subset_incidents astray)
    obtain ⟨between, kept⟩ := ih straightBefore tidy before
    obtain ⟨after, kept'⟩ := ih' straight (first.tidy tidy) between
    exact ⟨after, kept.trans kept'⟩
  | note => exact ⟨before.of_loose rfl rfl, .of_eq rfl⟩
  | record => exact ⟨before.of_loose rfl rfl, .of_eq rfl⟩
  | @fail s problem =>
    have same := Takes.raise plan s problem
    exact ⟨before.of_loose same.nodes (congrArg Frame.loose (frame_raise problem)), .of_eq same.nodes⟩
  | settle => exact ⟨before.of_loose rfl rfl, .of_eq rfl⟩
  | @consume s feature => exact ⟨before.consume feature, .of_eq (Takes.consume s feature).nodes⟩
  | @collect s text =>
    unfold State.collect
    split
    · next content => exact ⟨before.of_loose rfl (by simp [Frame.loose, content]), .of_eq rfl⟩
    · exact ⟨before, .of_eq rfl⟩
  | assign plain feature op =>
    exact ⟨before.assign_plain (Value.parts_of_isPlain plain) feature op, .of_eq (nodes_assign _ _ _)⟩
  | refer feature op target text token =>
    exact ⟨before.refer feature op target text _, .of_eq (nodes_assign _ _ _)⟩
  | @retag s type =>
    unfold State.retag
    split
    · exact ⟨before.of_loose rfl rfl, .of_eq rfl⟩
    · next o content =>
      split
      · exact ⟨before, .of_eq rfl⟩
      · exact ⟨before.of_loose rfl (by simp [Frame.loose, content]), .of_eq rfl⟩
  | wrap type feature op => exact before.wrap tidy type feature op
  | @call s ended t id rule feature offset known inner back ih =>
    have straightInside : ¬ Astray ended := by
      intro astray
      refine straight (back.subset_incidents ?_)
      rw [incidents_leave]
      exact astray
    have tidyInside := tidy.enter id rule.kind
    obtain ⟨inside, kept⟩ := ih straightInside tidyInside (.enter s id rule.kind)
    obtain ⟨handed, keptEnd, owns⟩ := inside.leave (inner.tidy tidyInside) id rule.kind feature offset rfl
    have keptAll : KeptBelow s.nodes.size s (leave plan id rule.kind feature offset s.frame ended).state :=
      kept.trans keptEnd
    have both := before.beside tidy handed keptAll
    have frame := frame_leave plan id rule.kind feature offset s.frame ended
    have behind : ∀ n, (leave plan id rule.kind feature offset s.frame ended).value = some (.node n) →
        base ≤ n := by
      intro n value
      refine before.start.trans (handed.parts n ?_).1
      rw [Invoked.loose, value]
      exact List.mem_singleton_self _
    obtain ⟨linked, keptReturn⟩ := back.linked straight (by rw [frame]; exact both) behind owns
    exact ⟨linked, KeptBelow.trans (fun j less => keptAll j (less.trans_le before.start)) keptReturn⟩

end Interpreter

end Workbench
