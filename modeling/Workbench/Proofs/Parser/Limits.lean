import Workbench.Proofs.Parser.Incidents

/-!
**Meeting the limit on the depth.**

Only an invocation that is refused notes that the limit on the depth was met. Every other step of a run
leaves the incidents alone or notes something else.
-/

namespace Workbench

namespace State

variable {s t u : State} {plan : Plan}

/-- The limit on the depth has not been met from `s` to `t`. -/
def Within (s t : State) : Prop :=
  Incident.depthLimit ∈ t.incidents → Incident.depthLimit ∈ s.incidents

namespace Within

theorem refl (s : State) : Within s s := id

theorem trans (h : Within s t) (h' : Within t u) : Within s u := h ∘ h'

theorem of_eq (h : t.incidents = s.incidents) : Within s t := by
  unfold Within
  rw [h]
  exact id

theorem note (s : State) {incident : Incident} (other : incident ≠ .depthLimit) :
    Within s (s.note incident) := by
  intro mem
  rcases List.mem_cons.1 mem with same | mem
  · exact absurd same.symm other
  · exact mem

theorem report (plan : Plan) (s : State) (expected : FirstSet) : Within s (s.report plan expected) :=
  of_eq (incidents_report expected)

theorem expect (plan : Plan) (s : State) (accepts : Token → Bool) (problem : ParseProblem)
    (feature : Option String) : Within s (s.expect plan accepts problem feature).1 :=
  of_eq (incidents_expect _ _ accepts problem feature)

theorem collect (s : State) (text : String) : Within s (s.collect text) :=
  of_eq (incidents_collect text)

theorem assign (s : State) (feature : String) (op : AssignOp) (value : Value) :
    Within s (s.assign feature op value) := by
  unfold State.assign
  split
  · exact note s (by decide)
  · exact of_eq rfl

theorem makeReference (feature : String) (op : AssignOp) (target : TypeId) (text : String)
    (source : SourceTree) (s : State) :
    Within s (Interpreter.makeReference feature op target text source s) := by
  unfold Interpreter.makeReference
  refine trans ?_ (assign _ feature op _)
  exact of_eq rfl

theorem retag (s : State) (type : TypeId) : Within s (s.retag type) := by
  unfold State.retag
  split
  · exact note s (by decide)
  · split <;> exact of_eq rfl

theorem adopt (s : State) (id : NodeId) : Within s (s.adopt id) := by
  unfold State.adopt
  split
  · exact of_eq rfl
  · exact note s (by decide)

theorem wrap (plan : Plan) (s : State) (type : TypeId) (feature : String) (op : AssignOp) :
    Within s (s.wrap plan type feature op) := by
  cases content : s.frame.content with
  | text acc =>
    unfold State.wrap
    rw [content]
    exact note s (by decide)
  | object o => exact of_eq (incidents_wrap (Frame.isObject_iff.2 ⟨o, content⟩) type feature op)

end Within

end State

namespace Interpreter

open State

theorem within_leave (plan : Plan) (id : RuleId) (kind : RuleKind) (feature : Option String)
    (offset : Nat) (caller : Frame) (s : State) :
    Within s (leave plan id kind feature offset caller s).state :=
  .of_eq (incidents_leave id kind feature offset caller)

theorem within_skip (plan : Plan) (fuel : Nat) (stalled : Bool) (s : State) :
    Within s (skip plan fuel stalled s) :=
  .of_eq (incidents_skip fuel stalled)

end Interpreter

namespace Parser

open State

theorem within_finish (plan : Plan) (s : State) : Within s (finish plan s).1 := by
  unfold finish
  exact .of_eq (incidents_construct (s := s.flushHidden) _ _ _ _)

end Parser

end Workbench
