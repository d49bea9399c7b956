import Workbench.DomainModel.Checks
import Workbench.Proofs.Cancellation

/-!
**Validation under a token.**

A validation that ends yields the same diagnostics under every token, even if a check makes the token
fire on the way. It does end where neither a check nor anything else makes the token fire.
-/

namespace Workbench

/-- No check makes the token fire. -/
def Registry.Quiet (r : Registry) : Prop :=
  ∀ x ∈ r.registrations, ∀ a uri id, (x.check.run a uri id).cancels = false

theorem Registry.Quiet.checksFor {r : Registry} (h : r.Quiet) {type : TypeId} {check : Check}
    (mem : check ∈ r.checksFor type) (a : Ast) (uri : DocumentUri) (id : NodeId) :
    (check.run a uri id).cancels = false := by
  obtain ⟨x, registered, rfl⟩ := List.mem_map.1 mem
  exact h x (List.mem_filter.1 registered).1 a uri id

namespace Validation

open Cancellable

theorem steady_checkNodes (r : Registry) (o : ValidationOptions) (a : Ast) (uri : DocumentUri)
    (room : Nat) (ids : List NodeId) : Steady (checkNodes r o a uri room ids) := by
  induction ids generalizing room with
  | nil => exact steady_pure _
  | cons id rest ih =>
    refine steady_checkpoint.bind fun _ => ?_
    dsimp only
    have go : ∀ found : Yield, Steady (do
        if found.exceeded then return found
        let more ← checkNodes r o a uri (room - found.diagnostics.length) rest
        return { more with diagnostics := found.diagnostics ++ more.diagnostics }) := by
      intro found
      by_cases h : found.exceeded
      · simp only [h, if_true]
        exact steady_pure _
      · simp only [h]
        exact (ih _).bind fun _ => steady_pure _
    split
    · exact steady_fire.bind fun _ => go _
    · exact go _

theorem steady_validate (r : Registry) (parsed : ParseResult) (uri : DocumentUri)
    (o : ValidationOptions) : Steady (validate r parsed uri o) := by
  unfold validate
  dsimp only
  split
  · exact steady_pure _
  · split
    · exact steady_pure _
    · exact (steady_checkNodes r o parsed.ast uri _ _).bind fun _ => steady_pure _

/-! ### Validation that is not stopped -/

theorem cancels_checkNode {o : ValidationOptions} {a : Ast} {uri : DocumentUri} {id : NodeId}
    {checks : List Check} (quiet : ∀ check ∈ checks, (check.run a uri id).cancels = false)
    (room : Nat) : (checkNode o a uri id room checks).2 = false := by
  induction checks generalizing room with
  | nil => rfl
  | cons check rest ih =>
    have first := quiet check List.mem_cons_self
    rw [checkNode]
    dsimp only
    split
    · exact first
    · rw [first, ih fun c mem => quiet c (List.mem_cons_of_mem _ mem)]
      rfl

theorem ends_checkNodes {r : Registry} (quiet : r.Quiet) (o : ValidationOptions) (a : Ast)
    (uri : DocumentUri) (room : Nat) (ids : List NodeId) : Ends (checkNodes r o a uri room ids) := by
  induction ids generalizing room with
  | nil => exact ends_pure _
  | cons id rest ih =>
    refine ends_checkpoint.bind fun _ => ?_
    dsimp only
    rw [cancels_checkNode fun check mem => quiet.checksFor (List.mem_filter.1 mem).1 a uri id,
      if_neg Bool.false_ne_true]
    split
    · exact ends_pure _
    · exact (ih _).bind fun _ => ends_pure _

/-- Where no check makes the token fire and nothing else does, a validation comes to its end. -/
theorem ends_validate {r : Registry} (quiet : r.Quiet) (parsed : ParseResult) (uri : DocumentUri)
    (o : ValidationOptions) : Ends (validate r parsed uri o) := by
  unfold validate
  dsimp only
  split
  · exact ends_pure _
  · split
    · exact ends_pure _
    · exact (ends_checkNodes quiet o parsed.ast uri _ _).bind fun _ => ends_pure _

end Validation

/-- No check on domain models makes a token fire. -/
theorem DomainModel.quiet_registry : DomainModel.registry.Quiet := by
  intro x mem a uri id
  simp only [DomainModel.registry, List.mem_cons, List.not_mem_nil, or_false] at mem
  rcases mem with rfl | rfl | rfl | rfl | rfl | rfl | rfl | rfl <;> rfl

end Workbench
