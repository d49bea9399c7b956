import Workbench.Proofs.Parser.Finishing
import Workbench.Proofs.Parser.Input
import Workbench.Proofs.Parser.Reopening

/-!
**Every run keeps the arena sound.**

A state is `Tidy` if its arena is sound and all that is loose is spare: the object of the invocation under
way with its trees, and what lies outside of the invocation, namely the objects of the callers and a node
that has just been returned. Each kind of step keeps a state tidy. A call moves the object of the caller to
the outside while the called rule runs in an empty frame, and back when it is left.
-/

namespace Workbench

open Arena

theorem Value.parts_of_isPlain {v : Value} (h : v.IsPlain) : v.parts = [] := by
  cases v <;> first | rfl | cases h

/-- The properties after an assignment. -/
def Properties.assigned (p : Properties) (feature : String) (op : AssignOp) (value : Value) :
    Properties :=
  match op with
  | .set => p.set feature value
  | .flag => p.set feature (.bool true)
  | .append => p.append feature value

/-- An assignment drops parts or adds those of the value. -/
theorem Properties.count_assigned_le (p : Properties) (feature : String) (op : AssignOp)
    (value : Value) (x : Part) :
    (p.assigned feature op value).parts.count x ≤ (p.parts ++ value.parts).count x := by
  rw [List.count_append]
  cases op with
  | set => exact p.count_set_le feature value x
  | flag =>
    have le := p.count_set_le feature (.bool true) x
    exact Nat.le_trans le (Nat.add_le_add_left (Nat.zero_le _) _)
  | append => exact p.count_append_le feature value x

/-- What is loose in an invocation: the parts and the slot of its object, and its trees. -/
def Frame.loose (f : Frame) : Loose :=
  match f.content with
  | .object o =>
    { parts := o.properties.parts, slots := o.slot.toList, trees := f.children.toList }
  | .text _ => { trees := f.children.toList }

theorem Frame.loose_of_object {f : Frame} {o : Object} (content : f.content = .object o) :
    f.loose = o.loose ++ { trees := f.children.toList } := by
  simp only [loose, content]
  change Loose.mk _ _ _ = Loose.mk (_ ++ []) (_ ++ []) _
  rw [List.append_nil, List.append_nil]
  rfl

theorem Frame.subset_loose {f : Frame} {o : Object} (content : f.content = .object o) :
    o.loose.parts ⊆ f.loose.parts ∧ o.loose.slots ⊆ f.loose.slots := by
  rw [loose_of_object content]
  exact ⟨List.subset_append_left _ _, List.subset_append_left _ _⟩

theorem Frame.trees_loose (f : Frame) : f.loose.trees = f.children.toList := by
  unfold loose
  split <;> rfl

/-- What an invocation hands to its caller. -/
def Invoked.loose (out : Invoked) : Loose where
  parts :=
    match out.value with
    | some (.node n) => [.node n]
    | _ => []
  trees := out.tree.toList

namespace State

variable {plan : Plan} {outer : Loose} {s t : State}

/-- The arena is sound, and what is loose in the invocation under way and outside of it is spare. -/
structure Tidy (plan : Plan) (outer : Loose) (s : State) : Prop where
  sound : s.arena.Sound plan.grammar.types
  spare : s.arena.Spare plan.grammar.types (s.frame.loose ++ outer)

theorem assign_of_object {o : Object} (content : s.frame.content = .object o) (feature : String)
    (op : AssignOp) (value : Value) :
    s.assign feature op value =
      { s with
        frame := {
          s.frame with
          content := .object { o with properties := o.properties.assigned feature op value } } } := by
  unfold assign
  rw [content]
  rfl

theorem adopt_of_object {o : Object} {id : NodeId} {n : AstNode} (content : s.frame.content = .object o)
    (found : s.nodes[id]? = some n) :
    s.adopt id =
      { s with
        frame := {
          s.frame with
          content := .object {
            o with
            type := some n.type
            properties := n.properties.fillFrom o.properties
            slot := some id } }
        nodes := s.nodes.setIfInBounds id { n with properties := .empty, source := none } } := by
  unfold adopt
  rw [content, found]

theorem subset_of_count_le {l m : List Part} (h : ∀ x, l.count x ≤ m.count x) : l ⊆ m := by
  intro x mem
  have some := List.count_pos_iff.2 mem
  have le := h x
  exact List.count_pos_iff.1 (by omega)

namespace Tidy

theorem within {inner : Loose} (h : Tidy plan outer s) (same : t.arena = s.arena)
    (le : (t.frame.loose ++ inner).Within (s.frame.loose ++ outer)) : Tidy plan inner t := by
  refine ⟨?_, ?_⟩
  · rw [same]
    exact h.sound
  · rw [same]
    exact h.spare.within le

/-- What lies outside may be dropped. -/
theorem drop {more : Loose} (h : Tidy plan (more ++ outer) s) : Tidy plan outer s :=
  h.within rfl ((Loose.within_append_right more outer).append_left s.frame.loose)

theorem of_loose (h : Tidy plan outer s) (same : t.arena = s.arena)
    (loose : t.frame.loose = s.frame.loose) : Tidy plan outer t := by
  refine h.within same ?_
  rw [loose]
  exact .refl _

/-- The object under construction is spare without the trees of its invocation. -/
theorem object {o : Object} (h : Tidy plan outer s) (content : s.frame.content = .object o) :
    s.arena.Spare plan.grammar.types (o.loose ++ outer) := by
  refine h.spare.within ?_
  rw [Frame.loose_of_object content]
  exact (Loose.within_append_left _ _).append_right outer

theorem children (h : Tidy plan outer s) :
    ∀ tree ∈ s.frame.children.toList, tree.OwnedBelow s.nodes.size := by
  intro tree mem
  refine h.spare.owned tree (List.mem_append_left _ ?_)
  rwa [Frame.trees_loose]

theorem note (h : Tidy plan outer s) (incident : Incident) : Tidy plan outer (s.note incident) :=
  ⟨h.sound, h.spare⟩

theorem raise (h : Tidy plan outer s) (problem : ParseProblem) :
    Tidy plan outer (s.raise plan problem) := by
  unfold State.raise
  split
  · exact h
  · exact ⟨h.sound, h.spare⟩

theorem collect (h : Tidy plan outer s) (text : String) : Tidy plan outer (s.collect text) := by
  unfold State.collect
  split
  · next acc content => exact h.of_loose rfl (by simp [Frame.loose, content])
  · exact h

theorem retag (h : Tidy plan outer s) (type : TypeId) : Tidy plan outer (s.retag type) := by
  unfold State.retag
  split
  · exact h.note _
  · next o content =>
    split
    · exact h
    · exact h.of_loose rfl (by simp [Frame.loose, content])

/-! ### Trees -/

theorem attach {trees : List SourceTree} (h : Tidy plan outer s)
    (owned : ∀ tree ∈ trees, tree.OwnedBelow s.nodes.size) : Tidy plan outer (s.attach trees) := by
  refine ⟨h.sound, (h.spare.trees owned).within ?_⟩
  cases content : s.frame.content with
  | _ =>
    refine ⟨fun x => ?_, ?_, ?_⟩
    · simp [State.attach, Frame.loose, content, Loose.count]
    · simp [State.attach, Frame.loose, content]
    · intro tree mem
      simp only [State.attach, Frame.loose, content, Loose.trees_append, Array.toList_append,
        List.mem_append] at mem ⊢
      tauto

theorem flushHidden (h : Tidy plan outer s) : Tidy plan outer s.flushHidden := by
  refine h.attach fun tree mem => ?_
  obtain ⟨token, -, rfl⟩ := List.mem_map.1 mem
  exact .leaf _ _ _

theorem consume (h : Tidy plan outer s) (feature : Option String) :
    Tidy plan outer (s.consume feature).1 := by
  unfold State.consume
  split
  · exact h
  · next hidden token rest _ =>
    have same : Tidy plan outer { s with stream := rest } := ⟨h.sound, h.spare⟩
    refine same.attach fun tree mem => ?_
    simp only [List.mem_append, List.mem_map, List.mem_singleton] at mem
    rcases mem with ⟨t, -, rfl⟩ | rfl
    · exact .leaf _ _ _
    · exact .leaf _ _ _

/-! ### Assignments -/

/-- A value that is assigned becomes loose in the object. -/
theorem assign {value : Value} (h : Tidy plan ({ parts := value.parts } ++ outer) s)
    (feature : String) (op : AssignOp) : Tidy plan outer (s.assign feature op value) := by
  cases content : s.frame.content with
  | text acc =>
    unfold State.assign
    rw [content]
    exact h.drop.note _
  | object o =>
    have fewer := o.properties.count_assigned_le feature op value
    rw [assign_of_object content]
    refine h.within rfl ⟨fun x => ?_, fun x mem => ?_, ?_⟩
    · have le := fewer x
      simp only [Frame.loose, content, Loose.count, Loose.parts_append, Loose.slots_append,
        List.map_append, List.count_append, List.nil_append] at le ⊢
      omega
    · have old := subset_of_count_le fewer
      simp only [Frame.loose, content, Loose.parts_append, List.mem_append] at mem ⊢
      rcases mem with given | outside
      · exact (List.mem_append.1 (old given)).imp_right .inl
      · exact .inr (.inr outside)
    · simp [Frame.loose, content]

theorem assign_plain {value : Value} (h : Tidy plan outer s) (plain : value.IsPlain)
    (feature : String) (op : AssignOp) : Tidy plan outer (s.assign feature op value) := by
  have loose : Tidy plan ({ parts := value.parts } ++ outer) s := by
    rw [Value.parts_of_isPlain plain]
    exact h
  exact loose.assign feature op

theorem refer {source : SourceTree} (h : Tidy plan outer s) (owned : source.OwnedBelow s.nodes.size)
    (feature : String) (op : AssignOp) (target : TypeId) (text : String) :
    Tidy plan outer (Interpreter.makeReference feature op target text source s) := by
  unfold Interpreter.makeReference
  have made : Tidy plan ({ parts := [.reference s.references.size] } ++ outer)
      { s with references := s.references.push { text, target, source } } := by
    have sound := h.sound.refer (r := { text, target, source }) rfl owned
    have spare := Spare.refer (r := { text, target, source }) h.sound h.spare
    exact ⟨sound, spare.within (Loose.within_append_left_comm ..)⟩
  exact made.assign feature op

/-! ### Adoptions -/

/-- A node that is adopted gives its parts to the object, and its slot. -/
theorem adopt {n : NodeId} (h : Tidy plan ({ parts := [.node n] } ++ outer) s) :
    Tidy plan outer (s.adopt n) := by
  unfold State.adopt
  split
  · next o node content found =>
    -- the node is reopened first, and then its parts and its slot go to the object
    have emptied := emptied_set (a := s.arena) found
    have free : ¬ s.arena.Holds (.node n) :=
      h.spare.free _ (Loose.count_pos_of_mem (by simp))
    have opened := emptied.spare h.sound (h.spare.within (Loose.within_append_left_comm ..))
    have fewer := node.properties.count_fillFrom_le o.properties
    refine ⟨emptied.sound h.sound free, opened.within ⟨fun x => ?_, fun x mem => ?_, ?_⟩⟩
    · have le := fewer x
      simp only [Frame.loose, content, Loose.count, Loose.parts_append, Loose.slots_append,
        List.map_append, List.count_append, Option.toList_some] at le ⊢
      omega
    · have old : (node.properties.fillFrom o.properties).parts ⊆
          node.properties.parts ++ o.properties.parts :=
        subset_of_count_le fun x => by
          rw [List.count_append]
          exact fewer x
      simp only [Frame.loose, content, Loose.parts_append, List.mem_append] at mem ⊢
      rcases mem with given | outside
      · exact (List.mem_append.1 (old given)).imp_right .inl
      · exact .inr (.inr outside)
    · simp [Frame.loose, content]
  · exact h.drop.note _

/-! ### Wrapping -/

theorem owned_wrapChildren {frame : Frame} {size : Nat}
    (children : ∀ tree ∈ frame.children.toList, tree.OwnedBelow size) (feature : String) :
    ∀ tree ∈ wrapChildren feature frame, tree.OwnedBelow size := by
  intro tree mem
  unfold wrapChildren at mem
  split at mem
  · cases mem
  · next first rest eq =>
    cases mem
    refine .close ?_
    rw [← eq]
    exact children

theorem owned_wrappedTrees {frame : Frame} {size : Nat} {built : Option NodeId}
    (children : ∀ tree ∈ frame.children.toList, tree.OwnedBelow size) (feature : String)
    (below : ∀ id ∈ built, id < size) :
    ∀ tree ∈ (wrappedTrees frame feature built).toList, tree.OwnedBelow size := by
  intro tree mem
  unfold wrappedTrees at mem
  split at mem
  · exact children tree mem
  · next inner eq =>
    have inside := owned_wrapChildren children feature inner eq
    cases built with
    | none =>
      obtain rfl : tree = inner := by simpa using mem
      exact inside
    | some id =>
      obtain rfl : tree = inner.withOwner (some id) := by simpa using mem
      exact inside.withOwner below

theorem wrap (h : Tidy plan outer s) (type : TypeId) (feature : String) (op : AssignOp) :
    Tidy plan outer (s.wrap plan type feature op) := by
  cases content : s.frame.content with
  | text acc =>
    unfold State.wrap
    rw [content]
    exact h.note _
  | object o =>
    obtain ⟨sound, spare, size⟩ := constructObject_spec (wrapChildren feature s.frame) h.sound
      (h.object content) (owned_wrapChildren h.children feature)
    rw [wrap_of_object content]
    generalize s.constructObject plan o (wrapChildren feature s.frame) = out at sound spare size
    obtain ⟨t, built⟩ := out
    have below : ∀ id ∈ built, id < t.nodes.size := by
      rintro id rfl
      exact spare.has (.node id) (Loose.count_pos_of_mem (by simp))
    have trees := owned_wrappedTrees (fun tree mem => (h.children tree mem).mono size) feature below
    -- the new object has no parts yet, so only its trees are loose in the invocation
    have restarted : Tidy plan ({ parts := built.toList.map .node } ++ outer)
        (t.restarted type (wrappedTrees s.frame feature built)) := ⟨sound, spare.trees trees⟩
    cases built with
    | none => exact restarted
    | some id => exact restarted.assign feature op

/-! ### Calls -/

/-- A rule is run with the object of its caller outside. -/
theorem enter (h : Tidy plan outer s) (id : RuleId) (kind : RuleKind) :
    Tidy plan (s.frame.loose ++ outer) { s with frame := Frame.enter id kind } := by
  have empty : (Frame.enter id kind).loose = {} := by
    cases kind <;> simp [Frame.enter, Frame.loose, Properties.parts, Properties.empty]
  refine ⟨h.sound, ?_⟩
  dsimp only
  rw [empty]
  exact h.spare

/-- What is spare next to the object of the caller can be handed over to the caller. -/
theorem of_returned {caller : Frame} {parts : List Part} {trees : List SourceTree}
    (frame : s.frame = caller) (sound : s.arena.Sound plan.grammar.types)
    (spare : s.arena.Spare plan.grammar.types ({ parts } ++ (caller.loose ++ outer)))
    (owned : ∀ tree ∈ trees, tree.OwnedBelow s.nodes.size) :
    Tidy plan ({ parts, trees } ++ outer) s := by
  subst frame
  have both : ({ trees } : Loose) ++ { parts } = { parts, trees } := by
    change Loose.mk _ _ _ = Loose.mk _ _ _
    simp
  have spare := spare.trees owned
  rw [← Loose.append_assoc, both] at spare
  exact ⟨sound, spare.within (Loose.within_append_left_comm ..)⟩

/-- When the rule is left, the object of the caller is back, and what the rule has built is outside. -/
theorem leave {caller : Frame} (h : Tidy plan (caller.loose ++ outer) s) (id : RuleId)
    (kind : RuleKind) (feature : Option String) (offset : Nat) :
    Tidy plan ((Interpreter.leave plan id kind feature offset caller s).loose ++ outer)
      (Interpreter.leave plan id kind feature offset caller s).state := by
  have rest := h.spare.within (Loose.within_append_right _ _)
  unfold Interpreter.leave
  dsimp only
  split
  · exact of_returned rfl h.sound rest (by simp)
  · have tree : (SourceTree.close id feature offset s.frame.children.toList).OwnedBelow
        s.nodes.size := .close h.children
    split
    · next o content =>
      have frame := (Finishing.constructObject plan { s with frame := caller } o
        (some (.close id feature offset s.frame.children.toList))).frame
      obtain ⟨sound, spare, size⟩ := constructObject_spec
        (s := { s with frame := caller }) (some (.close id feature offset s.frame.children.toList))
        h.sound (h.object content) (by rintro _ ⟨⟩; exact tree)
      split
      · next n built =>
        rw [built] at spare
        have below : n < (constructObject plan o
            (some (.close id feature offset s.frame.children.toList))
            { s with frame := caller }).1.nodes.size :=
          spare.has (.node n) (Loose.count_pos_of_mem (by simp))
        refine of_returned frame sound spare ?_
        simp only [Option.toList_some, List.mem_singleton, forall_eq]
        exact (tree.mono size).withOwner (by rintro _ ⟨⟩; exact below)
      · next built =>
        rw [built] at spare
        refine of_returned frame sound spare ?_
        simpa using tree.mono size
    · exact of_returned rfl h.sound rest (by simpa using tree)
    · exact of_returned rfl h.sound rest (by simpa using tree)

end Tidy

end State

namespace Interpreter

open State

variable {plan : Plan} {outer : Loose} {s t : State}

/-- What the caller makes of a result keeps the state tidy. -/
theorem Returns.tidy {out : Invoked} (back : Returns out t)
    (h : Tidy plan (out.loose ++ outer) out.state) : Tidy plan outer t := by
  have owned : ∀ tree ∈ out.tree.toList, tree.OwnedBelow out.state.nodes.size := by
    intro tree mem
    refine h.spare.owned tree ?_
    rw [Loose.trees_append, List.mem_append, Loose.trees_append, List.mem_append]
    exact .inr (.inl mem)
  have node : ∀ n, out.value = some (.node n) →
      Tidy plan (({ parts := [.node n] } : Loose) ++ outer) out.state := by
    intro n value
    refine h.within rfl ⟨fun x => ?_, ?_, ?_⟩
    · simp [Invoked.loose, value, Loose.count]
    · simp [Invoked.loose, value]
    · intro tree mem
      simp only [Loose.trees_append, List.mem_append, List.not_mem_nil] at mem ⊢
      tauto
  cases back with
  | keep => exact (h.attach owned).drop
  | assign value feature op => exact ((node _ value).attach owned).assign feature op
  | adopt value =>
    refine ((node _ value).attach ?_).adopt
    intro tree mem
    obtain ⟨inner, given, rfl⟩ := List.mem_map.1 mem
    exact (owned inner given).withOwner (by simp)
  | @refer tree took feature op target text =>
    rw [took] at owned
    have own := owned tree (List.mem_singleton_self tree)
    exact (h.attach owned).drop.refer own feature op target text

theorem Reaches.tidy (h : Reaches plan s t) (before : Tidy plan outer s) : Tidy plan outer t := by
  induction h generalizing outer with
  | refl => exact before
  | trans _ _ ih ih' => exact ih' (ih before)
  | note incident => exact before.note incident
  | record => exact ⟨before.sound, before.spare⟩
  | fail problem =>
    have raised := before.raise problem
    exact ⟨raised.sound, raised.spare⟩
  | settle => exact ⟨before.sound, before.spare⟩
  | consume feature => exact before.consume feature
  | collect text => exact before.collect text
  | assign plain feature op => exact before.assign_plain plain feature op
  | refer feature op target text token => exact before.refer (.leaf _ _ _) feature op target text
  | retag type => exact before.retag type
  | wrap type feature op => exact before.wrap type feature op
  | call _ _ back ih => exact back.tidy ((ih (before.enter _ _)).leave _ _ _ _)

end Interpreter

end Workbench
