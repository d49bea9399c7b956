import Workbench.Proofs.DomainModel.Shape
import Workbench.Proofs.DomainModel.Tokens
import Workbench.Proofs.Parser.Distinct

/-!
**Objects on the way to whole nodes.**

A state is `Intact` if its tokens are legible, nothing has got lost, and all nodes are whole but those that an
object takes over. The object under construction is a *draft* of a node of some type: what it holds is of the
right kind, some features are still pending, and some are known to be there. An assignment to a pending
feature overwrites nothing and settles it. A draft that has all that its type needs makes a whole node.
-/

namespace Workbench.DomainModel

open Arena State Interpreter

variable {plan : Plan} {outer : Loose} {s t u : State}

/-! ### Intact states -/

/-- The tokens that are left are legible, and with what is loose in the invocation under way and outside of it
nothing is lost and the nodes are whole. -/
structure Intact (plan : Plan) (outer : Loose) (s : State) : Prop extends Tidy plan outer s where
  legible : ∀ t ∈ s.stream.tokens, Legible t
  sturdy : Sturdy s.arena (s.frame.loose ++ outer)

/-- What is loose in an invocation, trees apart, is what its content has. -/
theorem count_loose_of_content {f g : Frame} (content : g.content = f.content) (x : Part) :
    g.loose.count x = f.loose.count x := by
  unfold Frame.loose
  rw [content]
  split <;> rfl

theorem slots_loose_of_content {f g : Frame} (content : g.content = f.content) :
    g.loose.slots = f.loose.slots := by
  unfold Frame.loose
  rw [content]
  split <;> rfl

namespace Intact

/-- A step that changes neither the arena nor the content of the frame. -/
theorem of_content (h : Intact plan outer s) (tidy : Tidy plan outer t) (arena : t.arena = s.arena)
    (content : t.frame.content = s.frame.content)
    (stream : ∀ u ∈ t.stream.tokens, u ∈ s.stream.tokens) : Intact plan outer t where
  toTidy := tidy
  legible u mem := h.legible u (stream u mem)
  sturdy := by
    rw [arena]
    refine h.sturdy.mono (fun x => ?_) fun id => ?_
    · rw [Loose.count_append, Loose.count_append, count_loose_of_content content]
      exact id
    · rw [Loose.slots_append, Loose.slots_append, slots_loose_of_content content]

/-- What is missed and whether the parser recovers does not matter. -/
theorem of_same (h : Intact plan outer s) (arena : t.arena = s.arena) (frame : t.frame = s.frame)
    (stream : t.stream = s.stream) : Intact plan outer t :=
  h.of_content (h.toTidy.of_loose arena (by rw [frame])) arena (by rw [frame])
    (by rw [stream]; exact fun _ => id)

theorem takes {assigned : Option String} {taken : Option Token} (h : Intact plan outer s)
    (tidy : Tidy plan outer t) (takes : Takes assigned s t taken) : Intact plan outer t :=
  h.of_content tidy (by rw [State.arena, takes.nodes, takes.references]; rfl) takes.content takes.stream

theorem report (h : Intact plan outer s) (expected : FirstSet) :
    Intact plan outer (s.report plan expected) := by
  have raised := h.takes (h.toTidy.raise _) (Takes.raise plan s (.noAlternative expected))
  exact raised.of_same rfl rfl rfl

theorem attach {trees : List SourceTree} (h : Intact plan outer s)
    (owned : ∀ tree ∈ trees, tree.OwnedBelow s.nodes.size) : Intact plan outer (s.attach trees) :=
  h.of_content (h.toTidy.attach owned) rfl rfl fun _ mem => mem

theorem collect (h : Intact plan outer s) (text : String) : Intact plan outer (s.collect text) where
  toTidy := h.toTidy.collect text
  legible := by
    unfold State.collect
    split <;> exact h.legible
  sturdy := by
    have sturdy := h.sturdy
    unfold State.collect
    split
    · next content =>
      simp only [Frame.loose, content] at sturdy ⊢
      exact sturdy
    · exact sturdy

theorem assign {value : Value} (h : Intact plan ({ parts := value.parts } ++ outer) s) {o : Object}
    (content : s.frame.content = .object o) {feature : String} {op : AssignOp}
    (room : o.properties.Room feature value op) : Intact plan outer (s.assign feature op value) where
  toTidy := h.toTidy.assign feature op
  legible := by
    rw [assign_of_object content]
    exact h.legible
  sturdy := by
    rw [assign_of_object content]
    refine h.sturdy.mono (fun x some => ?_) fun id => ?_
    · simp only [Frame.loose, content, Loose.count, Loose.parts_append, Loose.slots_append,
        List.map_append, List.count_append, List.nil_append] at some ⊢
      by_cases mem : x ∈ o.properties.parts ∨ x ∈ value.parts
      · have kept := List.count_pos_iff.2 (Properties.mem_parts_assigned room mem)
        omega
      · rw [not_or] at mem
        rw [List.count_eq_zero.2 mem.1, List.count_eq_zero.2 mem.2] at some
        omega
    · simp only [Frame.loose, content, Loose.slots_append, List.nil_append]

/-- A new reference is loose until it is assigned. -/
theorem refer {source : SourceTree} (h : Intact plan outer s) (owned : source.OwnedBelow s.nodes.size)
    (text : String) (target : TypeId) :
    Intact plan ({ parts := [.reference s.references.size] } ++ outer)
      { s with references := s.references.push { text, target, source } } := by
  have sound := h.sound.refer (r := { text, target, source }) rfl owned
  have spare := Spare.refer (r := { text, target, source }) h.sound h.spare
  refine ⟨⟨sound, spare.within (Loose.within_append_left_comm ..)⟩, h.legible, ?_⟩
  refine (h.sturdy.refer { text, target, source }).mono (fun x some => ?_) fun id => ?_
  · simp only [Loose.count_append] at some ⊢
    exact Nat.lt_of_lt_of_eq some (Nat.add_left_comm ..)
  · simp only [Loose.slots_append, List.nil_append]

/-- A rule is run with the object of its caller outside. -/
theorem enter (h : Intact plan outer s) (id : RuleId) (kind : RuleKind) :
    Intact plan (s.frame.loose ++ outer) { s with frame := Frame.enter id kind } := by
  have empty : (Frame.enter id kind).loose = {} := by
    cases kind <;> simp [Frame.enter, Frame.loose, Properties.parts, Properties.empty]
  refine ⟨h.toTidy.enter id kind, h.legible, ?_⟩
  dsimp only
  rw [empty]
  exact h.sturdy

/-- A node that has been returned is whole. -/
theorem whole_returned {n : NodeId} {m : AstNode} (h : Intact plan ({ parts := [.node n] } ++ outer) s)
    (found : s.nodes[n]? = some m) : Whole s.arena m := by
  refine h.sturdy.whole n m found fun mem => ?_
  have atMost := h.spare.once (.node n)
  have slot := Loose.count_pos_of_slot mem
  simp only [Loose.count_append, Loose.count_part_self, Loose.slots_append, List.nil_append,
    List.mem_append] at atMost mem
  rcases mem with inside | outside
  · have some := Loose.count_pos_of_slot inside
    omega
  · have some := Loose.count_pos_of_slot outside
    omega

end Intact

/-! ### Quiet steps -/

/-- From `s` to `t` the object stays as it is, and no trees are assigned but to `feature`. -/
structure Calm (feature : Option String) (s t : State) : Prop where
  content : t.frame.content = s.frame.content
  grows : s.arena.Preserves t.arena
  assigned : ∀ other, feature ≠ some other → t.frame.assigned other = s.frame.assigned other
  children : s.frame.children ≠ #[] → t.frame.children ≠ #[]

namespace Calm

variable {feature : Option String}

theorem refl (feature : Option String) (s : State) : Calm feature s s :=
  ⟨rfl, .refl _, fun _ _ => rfl, id⟩

theorem trans (h : Calm feature s t) (h' : Calm feature t u) : Calm feature s u :=
  ⟨h'.content.trans h.content, h.grows.trans h'.grows,
    fun other differ => (h'.assigned other differ).trans (h.assigned other differ),
    fun some => h'.children (h.children some)⟩

theorem of_frame (frame : t.frame = s.frame) (grows : s.arena.Preserves t.arena) : Calm feature s t :=
  ⟨by rw [frame], grows, fun _ _ => by rw [frame], by rw [frame]; exact id⟩

theorem of_takes {taken : Option Token} (h : Takes feature s t taken) : Calm feature s t where
  content := h.content
  grows := .of_eq (by rw [State.arena, h.nodes, h.references]; rfl)
  assigned other differ := (h.sameFor differ).assigned
  children some empty := by
    obtain ⟨passed, eq⟩ := h.children
    rw [empty] at eq
    refine some (Array.toList_eq_nil_iff.1 ?_)
    have none := List.append_eq_nil_iff.1 (List.append_eq_nil_iff.1 eq.symm).1
    exact none.1

theorem attach {trees : List SourceTree}
    (none : ∀ other, feature ≠ some other → SourceTree.withFeatureOf other trees = []) :
    Calm feature s (s.attach trees) where
  content := rfl
  grows := .refl _
  assigned other differ := by rw [assigned_attach, none other differ, List.append_nil]
  children some empty := by
    refine some (Array.toList_eq_nil_iff.1 ?_)
    have eq := congrArg Array.toList empty
    rw [State.attach, Array.toList_append] at eq
    exact (List.append_eq_nil_iff.1 eq).1

end Calm

theorem children_ne_of_takes {feature : Option String} {token : Token} (h : Takes feature s t (some token)) :
    t.frame.children ≠ #[] := by
  intro empty
  obtain ⟨passed, eq⟩ := h.children
  rw [empty] at eq
  simp at eq

theorem children_attach_ne {tree : SourceTree} : (s.attach [tree]).frame.children ≠ #[] := by
  intro empty
  have eq := congrArg Array.toList empty
  simp [State.attach] at eq

/-! ### Drafts -/

variable {type : TypeId} {pending present : List String} {o : Object} {feature : String}

/-- The object is one of a type: what it holds is of the right kind, the pending features have neither a value
nor a tree, and the present ones have a value. -/
structure Sketch (type : TypeId) (pending present : List String) (s : State) (o : Object) : Prop where
  content : s.frame.content = .object o
  typed : o.type = some type
  slot : ∀ id ∈ o.slot, HasType s.arena [type] id
  filled : Filled s.arena type o.properties s.frame.assigned
  pending : ∀ feature ∈ pending, o.properties.get? feature = none ∧ s.frame.assigned feature = []
  present : ∀ feature ∈ present, (o.properties.get? feature).isSome = true

/-- A sketch in which nothing is held before a token has been taken. -/
def Draft (type : TypeId) (pending present : List String) (s : State) : Prop :=
  ∃ o, Sketch type pending present s o ∧
    (s.frame.children = #[] → o.properties.parts = [] ∧ o.slot = none)

/-- An object to which nothing has happened yet. -/
structure Blank (type : Option TypeId) (s : State) : Prop where
  content : s.frame.content = .object { type }
  unassigned : ∀ feature, s.frame.assigned feature = []

/-- An object that has nothing but its type is a sketch. -/
theorem sketch_bare {retagged : Bool} (content : s.frame.content = .object { type := some type, retagged })
    (unassigned : ∀ f ∈ pending, s.frame.assigned f = []) :
    Sketch type pending [] s { type := some type, retagged } :=
  ⟨content, rfl, nofun, filled_empty _ _ _, fun f mem => ⟨rfl, unassigned f mem⟩, nofun⟩

theorem Blank.draft (h : Blank (some type) s) (pending : List String) : Draft type pending [] s :=
  ⟨_, sketch_bare h.content fun f _ => h.unassigned f, fun _ => ⟨rfl, rfl⟩⟩

theorem Blank.calm {type : Option TypeId} (h : Blank type s) (calm : Calm none s t) : Blank type t :=
  ⟨calm.content.trans h.content,
    fun feature => (calm.assigned feature nofun).trans (h.unassigned feature)⟩

namespace Sketch

/-- Trees that are assigned to a feature that is not pending, and has no reference, do not matter. -/
theorem calm {feature : Option String} (h : Sketch type pending present s o) (calm : Calm feature s t)
    (apart : ∀ f ∈ feature, f ∉ pending ∧ ∀ id, o.properties.get? f ≠ some (.reference id)) :
    Sketch type pending present t o where
  content := calm.content.trans h.content
  typed := h.typed
  slot id mem := (h.slot id mem).mono calm.grows
  filled := by
    have filled := h.filled.mono calm.grows
    refine ⟨filled.kinds, fun f id found => ?_⟩
    have other : feature ≠ some f := fun same => (apart f same).2 id found
    rw [calm.assigned f other]
    exact filled.sources f id found
  pending f mem := by
    have other : feature ≠ some f := fun same => (apart f same).1 mem
    rw [calm.assigned f other]
    exact h.pending f mem
  present := h.present

theorem forget (h : Sketch type (feature :: pending) present s o) : Sketch type pending present s o :=
  { h with pending := fun f mem => h.pending f (List.mem_cons_of_mem _ mem) }

/-- An assignment gives a feature a value of its kind. -/
theorem assign (h : Sketch type pending present s o) (calm : Calm (some feature) s t)
    (apart : feature ∉ pending) {kind : FeatureKind} (listed : (features type).lookup feature = some kind)
    {op : AssignOp} {value given : Value}
    (holds : (o.properties.assigned feature op value).get? feature = some given)
    (admits : kind.Admits t.arena given)
    (source : ∀ id, given = .reference id →
      ∃ r, t.references[id]? = some r ∧ (t.frame.assigned feature).head? = some r.source) :
    Sketch type pending (feature :: present) (t.assign feature op value)
      { o with properties := o.properties.assigned feature op value } := by
  have content := calm.content.trans h.content
  have filled := h.filled.mono calm.grows
  have other : ∀ f, f ≠ feature →
      (o.properties.assigned feature op value).get? f = o.properties.get? f ∧
        t.frame.assigned f = s.frame.assigned f := fun f differ =>
    ⟨o.properties.get?_assigned_ne differ op value,
      calm.assigned f fun same => differ (Option.some.inj same).symm⟩
  rw [assign_of_object content]
  refine ⟨rfl, h.typed, fun id mem => (h.slot id mem).mono calm.grows, ⟨fun f v found => ?_,
    fun f id found => ?_⟩, fun f mem => ?_, fun f mem => ?_⟩
  · by_cases same : f = feature
    · subst same
      obtain rfl := Option.some.inj (holds.symm.trans found)
      exact ⟨kind, listed, admits⟩
    · exact filled.kinds f v ((other f same).1.symm.trans found)
  · by_cases same : f = feature
    · subst same
      exact source id (Option.some.inj (holds.symm.trans found))
    · obtain ⟨r, found', head⟩ := filled.sources f id ((other f same).1.symm.trans found)
      refine ⟨r, found', ?_⟩
      exact (congrArg List.head? (other f same).2).trans head
  · have differ : f ≠ feature := fun same => apart (same ▸ mem)
    obtain ⟨none, unassigned⟩ := h.pending f mem
    exact ⟨(other f differ).1.trans none, (other f differ).2.trans unassigned⟩
  · by_cases same : f = feature
    · subst same
      exact Option.isSome_of_mem holds
    · change ((o.properties.assigned feature op value).get? f).isSome = true
      rw [(other f same).1]
      exact h.present f ((List.mem_cons.1 mem).resolve_left same)

end Sketch

namespace Draft

theorem calm {feature : Option String} (h : Draft type pending present s) (calm : Calm feature s t)
    (apart : ∀ f ∈ feature, f ∉ pending ∧
      ∀ target, (features type).lookup f ≠ some (.reference target)) :
    Draft type pending present t := by
  obtain ⟨o, sketch, idle⟩ := h
  refine ⟨o, sketch.calm calm fun f mem => ⟨(apart f mem).1, fun id found => ?_⟩, fun empty => ?_⟩
  · obtain ⟨kind, listed, admits⟩ := sketch.filled.kinds f _ found
    have own : Part.reference id ∈ (Value.reference id).parts := List.mem_singleton_self _
    rcases admits.parts_cases own with ⟨target, _, _, rfl, -⟩ | ⟨_, absurd, -⟩
    · exact (apart f mem).2 target listed
    · cases absurd
  · exact idle (Classical.not_not.1 fun some => calm.children some empty)

/-- A pending feature may be passed over. -/
theorem skip (h : Draft type (feature :: pending) present s) (calm : Calm (some feature) s t)
    (apart : feature ∉ pending) : Draft type pending present t := by
  obtain ⟨o, sketch, idle⟩ := h
  have absent := (sketch.pending feature List.mem_cons_self).1
  refine ⟨o, sketch.forget.calm calm ?_, fun empty => ?_⟩
  · rintro _ ⟨⟩
    exact ⟨apart, fun id found => by rw [absent] at found; cases found⟩
  · exact idle (Classical.not_not.1 fun some => calm.children some empty)

theorem forget (h : Draft type (feature :: pending) present s) : Draft type pending present s := by
  obtain ⟨o, sketch, idle⟩ := h
  exact ⟨o, sketch.forget, idle⟩

theorem weaken {fewer : List String} (h : Draft type pending present s) (sub : fewer ⊆ present) :
    Draft type pending fewer s := by
  obtain ⟨o, sketch, idle⟩ := h
  exact ⟨o, { sketch with present := fun f mem => sketch.present f (sub mem) }, idle⟩

end Draft

@[simp] theorem children_assign (s : State) (feature : String) (op : AssignOp) (value : Value) :
    (s.assign feature op value).frame.children = s.frame.children := by
  unfold State.assign
  split <;> rfl

/-- What a step from a state must keep. -/
structure Carries (plan : Plan) (outer : Loose) (s t : State) : Prop where
  intact : Intact plan outer t
  grows : s.arena.Preserves t.arena

/-- A pending feature is set, or flagged. -/
theorem settle (op : AssignOp) {value given : Value} {kind : FeatureKind}
    (sketch : Sketch type (feature :: pending) present s o) (apart : feature ∉ pending)
    (listed : (features type).lookup feature = some kind)
    (calm : Calm (some feature) s t) (intact : Intact plan ({ parts := value.parts } ++ outer) t)
    (taken : t.frame.children ≠ #[])
    (sets : op = .set ∧ given = value ∨ op = .flag ∧ value.parts = [] ∧ given = .bool true)
    (admits : kind.Admits t.arena given)
    (source : ∀ id, given = .reference id →
      ∃ r, t.references[id]? = some r ∧ (t.frame.assigned feature).head? = some r.source) :
    Carries plan outer s (t.assign feature op value) ∧
      Draft type pending (feature :: present) (t.assign feature op value) := by
  have absent := (sketch.pending feature List.mem_cons_self).1
  have content := calm.content.trans sketch.content
  have room : o.properties.Room feature value op := by
    rcases sets with ⟨rfl, -⟩ | ⟨rfl, plain, -⟩
    · exact absent
    · exact ⟨absent, plain⟩
  have holds : (o.properties.assigned feature op value).get? feature = some given := by
    rcases sets with ⟨rfl, rfl⟩ | ⟨rfl, -, rfl⟩ <;> exact o.properties.get?_set_self _ _
  refine ⟨⟨intact.assign content room, ?_⟩, _,
    sketch.forget.assign calm apart listed holds admits source, ?_⟩
  · rw [arena_assign]
    exact calm.grows
  · rw [children_assign]
    exact fun empty => absurd empty taken

/-- A node is appended to a list. -/
theorem settle_append {n : NodeId} {types : List TypeId} (sketch : Sketch type pending present s o)
    (apart : feature ∉ pending) (listed : (features type).lookup feature = some (.nodes types))
    (calm : Calm (some feature) s t) (intact : Intact plan ({ parts := [.node n] } ++ outer) t)
    (taken : t.frame.children ≠ #[]) (typed : HasType t.arena types n) :
    Carries plan outer s (t.assign feature .append (.node n)) ∧
      Draft type pending present (t.assign feature .append (.node n)) := by
  have content := calm.content.trans sketch.content
  -- so far there is nothing under the feature, or a list of nodes
  obtain ⟨items, held, each⟩ : ∃ items,
      (o.properties.get? feature).or (some (.list [])) = some (.list items) ∧
        ∀ item ∈ items, ∃ id, item = .node id ∧ HasType s.arena types id := by
    cases found : o.properties.get? feature with
    | none => exact ⟨[], rfl, nofun⟩
    | some v =>
      obtain ⟨kind, known, admits⟩ := sketch.filled.kinds feature v found
      obtain rfl := Option.some.inj (listed.symm.trans known)
      obtain ⟨items, rfl, each⟩ := admits
      exact ⟨items, rfl, each⟩
  have room : o.properties.Room feature (.node n) .append := by
    refine ⟨fun v found => ?_, nofun⟩
    rw [found] at held
    exact ⟨items, Option.some.inj held⟩
  have holds : (o.properties.assigned feature .append (.node n)).get? feature =
      some (.list (items ++ [.node n])) := get?_append_self held _
  have admits : (FeatureKind.nodes types).Admits t.arena (.list (items ++ [.node n])) := by
    refine ⟨_, rfl, fun item mem => ?_⟩
    rcases List.mem_append.1 mem with old | new
    · obtain ⟨id, rfl, typed⟩ := each item old
      exact ⟨id, rfl, typed.mono calm.grows⟩
    · exact ⟨n, List.mem_singleton.1 new, typed⟩
  have drawn := sketch.assign calm apart listed holds admits nofun
  refine ⟨⟨intact.assign content room, ?_⟩, _,
    { drawn with present := fun f mem => drawn.present f (List.mem_cons_of_mem _ mem) }, ?_⟩
  · rw [arena_assign]
    exact calm.grows
  · rw [children_assign]
    exact fun empty => absurd empty taken

/-! ### Nodes taken over -/

/-- A node that is taken over makes a complete draft. -/
theorem adopt_spec {type : Option TypeId} {n : NodeId} {m : AstNode}
    (h : Intact plan ({ parts := [.node n] } ++ outer) s) (content : s.frame.content = .object { type })
    (taken : s.frame.children ≠ #[]) (found : s.nodes[n]? = some m)
    (trees : ∀ feature, s.frame.assigned feature = treesOf m.source feature) :
    Carries plan outer s (s.adopt n) ∧ Draft m.type [] (needs m.type) (s.adopt n) := by
  have emptied := emptied_set (a := s.arena) found
  have whole := h.whole_returned found
  have tidy := h.toTidy.adopt
  have grows : s.arena.Preserves
      ⟨s.nodes.setIfInBounds n { m with properties := .empty, source := none }, s.references⟩ := by
    refine ⟨fun id k isNode => ?_, (Preserves.refl s.arena).reference⟩
    by_cases same : id = n
    · subst same
      obtain rfl : k = m := Option.some.inj (isNode.symm.trans found)
      have bound := (Array.getElem?_eq_some_iff.1 found).1
      exact ⟨{ k with properties := .empty, source := none }, by simp [bound], rfl⟩
    · exact ⟨k, (emptied.other id same).trans isNode, rfl⟩
  have sturdy := (h.sturdy.mono (m := { parts := [.node n] } ++ (s.frame.loose ++ outer))
    (fun x some => by simp only [Loose.count_append] at some ⊢; omega)
    fun id => by simp).emptied emptied grows
  rw [adopt_of_object content found] at tidy ⊢
  refine ⟨⟨⟨tidy, h.legible, ?_⟩, grows⟩, _, ⟨rfl, rfl, ?_, ?_, nofun, ?_⟩, fun empty => absurd empty taken⟩
  · -- the object had nothing before
    have blank : ∀ x, s.frame.loose.count x = 0 ∧ s.frame.loose.slots = [] := by
      intro x
      simp [Frame.loose, content, Loose.count, Properties.parts, Properties.empty]
    refine sturdy.mono (fun x some => ?_) fun id => ?_
    · rw [Loose.count_append, Loose.count_append, (blank x).1, Nat.zero_add] at some
      rw [Loose.count_append]
      exact some
    · rw [Loose.slots_append, Loose.slots_append, Loose.slots_append, (blank (.node n)).2]
      rfl
  · rintro _ ⟨⟩
    have bound := (Array.getElem?_eq_some_iff.1 found).1
    obtain ⟨k, found', same⟩ := grows.node n m found
    exact ⟨k, found', by simp [same]⟩
  · exact (whole.toFilled.mono grows).congr trees
  · exact whole.needed

end Workbench.DomainModel
