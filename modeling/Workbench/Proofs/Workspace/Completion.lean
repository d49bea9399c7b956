import Workbench.Proofs.Workspace.Site

/-!
**Builds that come to their end.**

A build that nothing has stopped, and whose agenda is done, has validated every document. Every task
that nothing stops takes one task off the agenda, so a build comes to its end after as many tasks as
there are on its agenda, provided that no check of the language makes the token fire.
-/

namespace Workbench

open Cancellable

/-- A build that nothing has stopped and that has nothing left to do has validated every document. -/
theorem Build.Paced.validated {b : Build} {w : Workspace} (h : b.Paced w)
    (alive : w.hasFired b.generation = false) (done : b.agenda = []) {uri : DocumentUri}
    {d : Document} (found : w.documents.get? uri = some d) : d.state = .validated := by
  -- a document in any other state would have its next phase on the agenda
  cases state : d.state with
  | validated => rfl
  | _ =>
    obtain ⟨phase, eq⟩ := Phase.exists_rank_eq (n := d.state.rank) (by rw [state]; decide)
    have mem := h.covers alive uri d found phase (Nat.le_of_eq eq.symm)
    rw [done] at mem
    cases mem

namespace Site

/-- Whether the build whose turn it is has nothing left to do, and nothing has stopped it. -/
def complete (s : Site) : Bool :=
  match s.running with
  | some b => b.agenda.isEmpty && !s.workspace.hasFired b.generation
  | none => false

/-- A complete build has validated every document. -/
theorem Paced.validated {s : Site} (h : s.Paced) (complete : s.complete = true) {uri : DocumentUri}
    {d : Document} (found : s.workspace.documents.get? uri = some d) : d.state = .validated := by
  unfold Site.complete at complete
  split at complete
  · next b running =>
    simp only [Bool.and_eq_true, List.isEmpty_iff, Bool.not_eq_true'] at complete
    exact (h.running b running).validated complete.2 complete.1 found
  · cases complete

end Site

/-! ### Tasks that nothing stops -/

namespace Workspace

variable {w : Workspace}

theorem advance_never (quiet : w.language.registry.Quiet) (options : ValidationOptions)
    (uri : DocumentUri) (text : String) (phase : Phase) (progress : Progress) :
    (w.advance options uri text phase progress .never).2 ≠ .cancelled := by
  unfold advance
  split
  · nofun
  · next result =>
    obtain ⟨exports, ok⟩ := w.language.scoping.ends_exports result.ast uri
    rw [show w.language.exports result.ast uri .never = .ok (exports, .never) from ok]
    nofun
  · next result exports =>
    obtain ⟨locals, ok⟩ := w.language.scoping.ends_localScopes result.ast uri
    rw [show w.language.localScopes result.ast uri .never = .ok (locals, .never) from ok]
    nofun
  · next result exports locals =>
    obtain ⟨v, ok⟩ := Linking.link_never { locals, exported := w.exported } result.ast.unlink
    dsimp only
    rw [ok]
    nofun
  · next result exports locals =>
    obtain ⟨diagnostics, ok⟩ := Validation.ends_validate quiet result uri options
    rw [show w.language.validate result uri options .never = .ok (diagnostics, .never) from ok]
    nofun
  · nofun

theorem visit_never (quiet : w.language.registry.Quiet) (options : ValidationOptions) (phase : Phase)
    (uri : DocumentUri) : (w.visit options phase uri .never).2 ≠ .cancelled := by
  unfold Workspace.visit
  split
  · nofun
  · next d found =>
    have goes := advance_never quiet options uri d.text phase d.progress
    split
    · nofun
    · next progress visit _ advanced =>
      rw [advanced] at goes
      dsimp only
      split <;> exact goes

/-- A visit changes nothing but documents and the index. -/
theorem frame_visit {options : ValidationOptions} {phase : Phase} {uri : DocumentUri}
    {token : Cancellation} {w' : Workspace} {visit : Visit}
    (visited : w.visit options phase uri token = (w', visit)) :
    w'.language = w.language ∧ w'.generation = w.generation ∧ w'.fired = w.fired := by
  rcases w.visit_cases visited with ⟨rfl, -⟩ | ⟨d, progress, -, -, rfl⟩
  · exact ⟨rfl, rfl, rfl⟩
  · exact ⟨rfl, rfl, rfl⟩

end Workspace

namespace Site

variable {s : Site}

/-- A build under way that nothing has stopped, with an agenda. -/
structure Going (s : Site) (agenda : List Task) : Prop where
  quiet : s.workspace.language.registry.Quiet
  running : ∃ b, s.running = some b ∧ b.agenda = agenda ∧ s.workspace.hasFired b.generation = false

/-- A task that nothing stops is taken off the agenda. -/
theorem Going.step {task : Task} {agenda : List Task} (h : s.Going (task :: agenda)) :
    (s.act (.step .never)).Going agenda := by
  obtain ⟨b, running, head, alive⟩ := h.running
  rw [act, running]
  dsimp only
  cases stepped : b.step s.workspace .never with
  | mk w outcome =>
    rcases Build.step_cases stepped with ⟨rfl, ended⟩ | ⟨phase, rest, eq, rfl, rfl⟩ |
      ⟨phase, uri, rest, visit, eq, -, visited, ended⟩
    · rcases ended with ⟨-, done⟩ | ⟨-, fired⟩
      · rw [head] at done
        cases done
      · rw [alive] at fired
        cases fired
    · rw [head] at eq
      cases eq
      exact ⟨h.quiet, _, rfl, rfl, alive⟩
    · rw [head] at eq
      cases eq
      obtain ⟨language, generation, fired⟩ := Workspace.frame_visit visited
      have goes := s.workspace.visit_never h.quiet b.options phase uri
      rcases ended with ⟨rfl, rfl⟩ | ⟨-, advanced, rfl⟩
      · rw [visited] at goes
        exact absurd rfl goes
      · refine ⟨by rw [language]; exact h.quiet, _, rfl, rfl, ?_⟩
        unfold Workspace.hasFired at alive ⊢
        rw [generation, fired]
        exact alive

/-- A build that nothing stops comes to its end. -/
theorem Going.complete {agenda : List Task} (h : s.Going agenda) :
    (s.run (List.replicate agenda.length (.step .never))).complete = true := by
  induction agenda generalizing s with
  | nil =>
    obtain ⟨b, running, done, alive⟩ := h.running
    show s.complete = true
    rw [Site.complete, running]
    dsimp only
    rw [done, alive]
    rfl
  | cons task agenda ih => exact ih h.step

end Site

end Workbench
