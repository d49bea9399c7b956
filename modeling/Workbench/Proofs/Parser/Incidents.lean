import Workbench.Proofs.Parser.Input

/-!
**What a run notes.**

Most steps of a run note no incident. An assignment, an action or an adoption notes one if the invocation
builds no object, and an adoption also if there is no such node. An incident that was noted is never
forgotten.
-/

namespace Workbench

/-- Whether the invocation builds an object. -/
def Frame.isObject (f : Frame) : Bool :=
  match f.content with
  | .object _ => true
  | .text _ => false

@[simp] theorem Frame.isObject_enter (id : RuleId) (kind : RuleKind) :
    (Frame.enter id kind).isObject = kind.isParser := by
  cases kind <;> rfl

theorem Frame.isObject_iff {f : Frame} : f.isObject = true ↔ ∃ o, f.content = .object o := by
  unfold isObject
  cases f.content <;> simp

namespace State

variable {plan : Plan} {s : State}

/-! ### Steps that note nothing -/

@[simp] theorem incidents_attach (trees : List SourceTree) : (s.attach trees).incidents = s.incidents := rfl

@[simp] theorem incidents_raise (plan : Plan) (s : State) (problem : ParseProblem) :
    (s.raise plan problem).incidents = s.incidents := by
  unfold raise
  split <;> rfl

@[simp] theorem incidents_report (expected : FirstSet) : (s.report plan expected).incidents = s.incidents :=
  incidents_raise plan s (.noAlternative expected)

@[simp] theorem incidents_consume (feature : Option String) :
    (s.consume feature).1.incidents = s.incidents := by
  unfold consume
  split <;> rfl

@[simp] theorem incidents_expect (plan : Plan) (s : State) (accepts : Token → Bool) (problem : ParseProblem)
    (feature : Option String) : (s.expect plan accepts problem feature).1.incidents = s.incidents := by
  unfold expect
  dsimp only
  split
  · exact incidents_consume feature
  · split
    · rw [incidents_consume, incidents_consume, incidents_raise]
    · exact incidents_raise plan s problem

@[simp] theorem incidents_collect (text : String) : (s.collect text).incidents = s.incidents := by
  unfold collect
  split <;> rfl

theorem incidents_foldl {β : Type} {f : State → β → State} (step : ∀ s b, (f s b).incidents = s.incidents)
    (l : List β) (s : State) : (l.foldl f s).incidents = s.incidents := by
  induction l generalizing s with
  | nil => rfl
  | cons b l ih => rw [List.foldl_cons, ih, step]

theorem incidents_hold (place : Place) (value : Value) : (s.hold place value).incidents = s.incidents := by
  cases value <;> rfl

theorem incidents_holdEntry (holder : NodeId) (entry : String × Value) :
    (s.holdEntry holder entry).incidents = s.incidents := by
  unfold holdEntry
  split
  · exact incidents_foldl (fun s item => incidents_hold _ _) _ s
  · exact incidents_hold _ _

@[simp] theorem incidents_construct (type : TypeId) (properties : Properties) (slot : Option NodeId)
    (source : Option SourceTree) : (s.construct plan type properties slot source).1.incidents = s.incidents := by
  unfold construct
  exact incidents_foldl (fun s entry => incidents_holdEntry _ entry) _ _

@[simp] theorem incidents_constructObject (plan : Plan) (s : State) (o : Object) (source : Option SourceTree) :
    (s.constructObject plan o source).1.incidents = s.incidents := by
  unfold constructObject
  split
  · rfl
  · exact incidents_construct _ _ _ _

@[simp] theorem incidents_leave (id : RuleId) (kind : RuleKind) (feature : Option String) (offset : Nat)
    (caller : Frame) :
    (Interpreter.leave plan id kind feature offset caller s).state.incidents = s.incidents := by
  unfold Interpreter.leave
  dsimp only
  split
  · rfl
  · split
    · split <;> exact incidents_constructObject _ _ _ _
    · rfl
    · rfl

@[simp] theorem incidents_skip (fuel : Nat) (stalled : Bool) :
    (Interpreter.skip plan fuel stalled s).incidents = s.incidents := by
  induction fuel generalizing stalled s with
  | zero => rfl
  | succ fuel ih =>
    rw [Interpreter.skip]
    split
    · rfl
    · rw [ih, incidents_consume]

/-! ### Steps that need an object -/

theorem incidents_assign (object : s.frame.isObject = true) (feature : String) (op : AssignOp) (value : Value) :
    (s.assign feature op value).incidents = s.incidents := by
  obtain ⟨o, content⟩ := Frame.isObject_iff.1 object
  unfold assign
  rw [content]

theorem incidents_retag (object : s.frame.isObject = true) (type : TypeId) :
    (s.retag type).incidents = s.incidents := by
  obtain ⟨o, content⟩ := Frame.isObject_iff.1 object
  unfold retag
  rw [content]
  dsimp only
  split <;> rfl

theorem incidents_wrap (object : s.frame.isObject = true) (type : TypeId) (feature : String) (op : AssignOp) :
    (s.wrap plan type feature op).incidents = s.incidents := by
  obtain ⟨o, content⟩ := Frame.isObject_iff.1 object
  have built := incidents_constructObject plan s o (wrapChildren feature s.frame)
  rw [wrap_of_object content]
  split
  · next made =>
    rw [made] at built
    rw [incidents_assign rfl]
    exact built
  · next made =>
    rw [made] at built
    exact built

theorem incidents_adopt (object : s.frame.isObject = true) {id : NodeId} (has : id < s.nodes.size) :
    (s.adopt id).incidents = s.incidents := by
  obtain ⟨o, content⟩ := Frame.isObject_iff.1 object
  unfold adopt
  rw [content, Array.getElem?_eq_getElem has]

/-! ### Objects stay objects -/

theorem isObject_collect (text : String) : (s.collect text).frame.isObject = s.frame.isObject := by
  unfold collect
  split
  · next content => simp [Frame.isObject, content]
  · rfl

theorem isObject_assign (feature : String) (op : AssignOp) (value : Value) :
    (s.assign feature op value).frame.isObject = s.frame.isObject := by
  unfold assign
  split
  · rfl
  · next content => simp [Frame.isObject, content]

theorem isObject_retag (type : TypeId) : (s.retag type).frame.isObject = s.frame.isObject := by
  unfold retag
  split
  · rfl
  · next content =>
    split
    · rfl
    · simp [Frame.isObject, content]

theorem isObject_wrap (type : TypeId) (feature : String) (op : AssignOp) :
    (s.wrap plan type feature op).frame.isObject = s.frame.isObject := by
  cases content : s.frame.content with
  | text acc =>
    unfold wrap
    rw [content]
    rfl
  | object o =>
    rw [wrap_of_object content, Frame.isObject_iff.2 ⟨o, content⟩]
    split
    · rw [isObject_assign]
      rfl
    · rfl

theorem isObject_adopt (id : NodeId) : (s.adopt id).frame.isObject = s.frame.isObject := by
  unfold adopt
  split
  · next content _ => simp [Frame.isObject, content]
  · rfl

/-! ### Nothing is forgotten -/

theorem subset_incidents_note (incident : Incident) : s.incidents ⊆ (s.note incident).incidents :=
  List.subset_cons_self _ _

theorem subset_incidents_assign (feature : String) (op : AssignOp) (value : Value) :
    s.incidents ⊆ (s.assign feature op value).incidents := by
  unfold assign
  split
  · exact subset_incidents_note _
  · exact List.Subset.refl _

theorem subset_incidents_retag (type : TypeId) : s.incidents ⊆ (s.retag type).incidents := by
  unfold retag
  split
  · exact subset_incidents_note _
  · split <;> exact List.Subset.refl _

theorem subset_incidents_wrap (type : TypeId) (feature : String) (op : AssignOp) :
    s.incidents ⊆ (s.wrap plan type feature op).incidents := by
  by_cases object : s.frame.isObject = true
  · rw [incidents_wrap object]
    exact List.Subset.refl _
  · unfold wrap
    split
    · exact subset_incidents_note _
    · next o content => exact absurd (Frame.isObject_iff.2 ⟨o, content⟩) object

theorem subset_incidents_adopt (id : NodeId) : s.incidents ⊆ (s.adopt id).incidents := by
  unfold adopt
  split
  · exact List.Subset.refl _
  · exact subset_incidents_note _

end State

namespace Interpreter

open State

variable {plan : Plan} {s t : State}

theorem subset_incidents_makeReference (feature : String) (op : AssignOp) (target : TypeId) (text : String)
    (source : SourceTree) :
    s.incidents ⊆ (makeReference feature op target text source s).incidents :=
  subset_incidents_assign (s := { s with references := s.references.push { text, target, source } }) _ _ _

theorem Returns.subset_incidents {out : Invoked} (back : Returns out t) :
    out.state.incidents ⊆ t.incidents := by
  cases back with
  | keep => exact List.Subset.refl _
  | assign => exact subset_incidents_assign (s := out.state.attach _) _ _ _
  | adopt => exact subset_incidents_adopt (s := out.state.attach _) _
  | refer => exact subset_incidents_makeReference (s := out.state.attach _) _ _ _ _ _

theorem Reaches.subset_incidents (h : Reaches plan s t) : s.incidents ⊆ t.incidents := by
  induction h with
  | refl => exact List.Subset.refl _
  | trans _ _ ih ih' => exact List.Subset.trans ih ih'
  | note incident => exact subset_incidents_note incident
  | record => exact List.Subset.refl _
  | @fail s problem => exact (incidents_raise plan s problem).symm ▸ List.Subset.refl _
  | settle => exact List.Subset.refl _
  | consume => simp
  | collect => simp
  | assign => exact subset_incidents_assign _ _ _
  | refer => exact subset_incidents_makeReference _ _ _ _ _
  | retag => exact subset_incidents_retag _
  | wrap => exact subset_incidents_wrap _ _ _
  | call _ _ back ih =>
    refine List.Subset.trans ?_ back.subset_incidents
    rw [incidents_leave]
    exact ih

/-! ### Objects stay objects -/

theorem Returns.isObject {out : Invoked} (back : Returns out t) :
    t.frame.isObject = out.state.frame.isObject := by
  cases back with
  | keep => rfl
  | assign => exact isObject_assign (s := out.state.attach _) _ _ _
  | adopt => exact isObject_adopt (s := out.state.attach _) _
  | refer => exact isObject_assign (s := { out.state.attach _ with references := _ }) _ _ _

theorem Reaches.isObject (h : Reaches plan s t) : t.frame.isObject = s.frame.isObject := by
  induction h with
  | refl => rfl
  | trans _ _ ih ih' => exact ih'.trans ih
  | note => rfl
  | record => rfl
  | @fail s problem =>
    change (s.raise plan problem).frame.isObject = _
    unfold State.raise
    split <;> rfl
  | settle => rfl
  | consume =>
    unfold State.consume
    split <;> rfl
  | collect text => exact isObject_collect text
  | assign _ feature op => exact isObject_assign feature op _
  | refer feature op => exact isObject_assign feature op _
  | retag type => exact isObject_retag type
  | wrap type feature op => exact isObject_wrap type feature op
  | call _ _ back =>
    rw [back.isObject]
    exact congrArg Frame.isObject (leave_spec ..).1.frame

end Interpreter

end Workbench
