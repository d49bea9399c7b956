import Workbench.Proofs.Workspace.Steps
import Workbench.Workspace.Reports

/-!
**Workspaces at work.**

A `Site` is a workspace together with all that may be going on around it at one time: builds that
have begun and wait for their turn, the build whose turn it is, and the reports that were handed out.
Whatever happens is an `Action`. A build may be stopped before every task of its agenda, by a change
of a text, by a later build, by the end of the workspace, because whoever asked for it went away, and
while it works on a document. A scheduled build is one that begins with nothing changed and nothing
deleted, at some later time. Every order of actions is a run.

The last part is about the pace of builds: as long as nothing has stopped a build, its agenda holds all
that is still to be done, phase after phase. So a build that comes to link a document has every document
of the workspace indexed.
-/

namespace Workbench

/-- An answer to a request for a report. -/
structure Answered where
  uri : DocumentUri
  /-- Whether the report was made for this request. -/
  fresh : Bool
  answer : ReportAnswer
deriving DecidableEq, Repr

structure Site where
  workspace : Workspace
  /-- The generations of the builds that wait for their turn. -/
  waiting : List Nat := []
  /-- The build whose turn it is. -/
  running : Option Build := none
  reports : Reports := {}
  /-- The answers given so far, the oldest first. -/
  answered : List Answered := []

/-- Something that happens at a site. -/
inductive Action where
  | apply (uri : DocumentUri) (change : Change)
  /-- A build begins, and waits for its turn. -/
  | begin (changed deleted : List DocumentUri)
  /-- A build gets its turn. -/
  | start (generation : Nat)
  /-- The build whose turn it is carries out a task, in which it reads `token`. -/
  | step (token : Cancellation)
  /-- The build whose turn it is gives up. -/
  | abandon
  | shutdown
  /-- A request finds the last report of a document still kept. -/
  | reuse (uri : DocumentUri) (previous : Option String)
  /-- A request that has waited finds a document validated. -/
  | report (uri : DocumentUri)
deriving DecidableEq, Repr

/-- The build that goes on after a step. -/
def BuildStep.next? : BuildStep → Option Build
  | .continues next => some next
  | .ended _ _ next => some next
  | .cancelled => none
  | .complete => none

namespace Site

/-- The site of a workspace in which nothing has happened. -/
def opened (l : Language) (o : ValidationOptions) : Site where
  workspace := { language := l, options := o }

/-- Takes over a workspace in which something was invalidated. -/
def takeOver (s : Site) (w : Workspace) (what : Invalidation) : Site :=
  { s with workspace := w, reports := s.reports.evict what.touched }

/-- Adds an answer. -/
def answer (s : Site) (a : Answered) : Site := { s with answered := s.answered ++ [a] }

/-- What an action does. One that is not possible does nothing. -/
def act (s : Site) : Action → Site
  | .apply uri change =>
    match s.workspace.apply uri change with
    | .ok (w, what) => s.takeOver w what
    | .error _ => s
  | .begin changed deleted =>
    match s.workspace.begin changed deleted with
    | .ok (w, what) => { s.takeOver w what with waiting := s.waiting ++ [w.generation] }
    | .error _ => s
  | .start generation =>
    if s.running.isNone && s.waiting.contains generation then
      { s with
        waiting := s.waiting.erase generation
        running := some (Build.start s.workspace generation) }
    else s
  | .step token =>
    match s.running with
    | none => s
    | some b =>
      let (w, outcome) := b.step s.workspace token
      { s with workspace := w, running := outcome.next? }
  | .abandon => { s with running := none }
  | .shutdown => { s with workspace := s.workspace.shutdown }
  | .reuse uri previous =>
    match s.reports.cached.get? uri with
    | some report => s.answer { uri, fresh := false, answer := .of previous report }
    | none => s
  | .report uri =>
    match s.workspace.documents.get? uri with
    | some d =>
      if DocumentState.validated ≤ d.state then
        let (reports, report) := s.reports.make uri (d.editorDiagnostics uri)
        { s with reports }.answer { uri, fresh := true, answer := .full report }
      else s
    | none => s

/-- Carries out actions one after the other. -/
def run (s : Site) (actions : List Action) : Site := actions.foldl act s

theorem run_append (s : Site) (first rest : List Action) :
    s.run (first ++ rest) = (s.run first).run rest := List.foldl_append

/-- A build that begins while no other has its turn may get it at once. -/
theorem run_begin_start {s : Site} (idle : s.running = none) {changed deleted : List DocumentUri}
    {w : Workspace} {what : Invalidation}
    (begun : s.workspace.begin changed deleted = .ok (w, what)) :
    s.run [.begin changed deleted, .start w.generation] =
      { s.takeOver w what with
        waiting := (s.waiting ++ [w.generation]).erase w.generation
        running := some (Build.start w w.generation) } := by
  have waits : s.act (.begin changed deleted) =
      { s.takeOver w what with waiting := s.waiting ++ [w.generation] } := by
    rw [act, begun]
  have idle : (s.takeOver w what).running = none := idle
  rw [run, List.foldl_cons, waits, List.foldl_cons, List.foldl_nil, act, if_pos (by simp [idle])]
  rfl

/-- What holds at the start and is kept by every action holds after every run. -/
theorem run_induction {P : Site → Prop} {s : Site} (start : P s)
    (keep : ∀ s action, P s → P (s.act action)) (actions : List Action) : P (s.run actions) := by
  induction actions generalizing s with
  | nil => exact start
  | cons action rest ih => exact ih (keep s action start)

end Site

/-! ### The pace of builds -/

/-- The phase to which a task belongs. -/
def Task.phase : Task → Phase
  | .visit phase _ => phase
  | .finish phase => phase

/-- The place of a phase in the order in which they run. -/
def Phase.rank (phase : Phase) : Nat := phase.source.rank

theorem Phase.rank_target (phase : Phase) : phase.target.rank = phase.rank + 1 := by
  cases phase <;> rfl

theorem Phase.rank_lt (phase : Phase) : phase.rank < 5 := by
  cases phase <;> decide

theorem Phase.exists_rank_eq {n : Nat} (h : n < 5) : ∃ phase : Phase, phase.rank = n :=
  match n with
  | 0 => ⟨.parse, rfl⟩
  | 1 => ⟨.index, rfl⟩
  | 2 => ⟨.scope, rfl⟩
  | 3 => ⟨.link, rfl⟩
  | 4 => ⟨.validate, rfl⟩

theorem DocumentState.eq_of_rank {a b : DocumentState} (h : a.rank = b.rank) : a = b := by
  cases a <;> cases b <;> first | rfl | cases h

/-- What holds of a build from the moment it gets its turn. -/
structure Build.Paced (b : Build) (w : Workspace) : Prop where
  options : b.options = w.options
  generation : b.generation ≤ w.generation
  /-- No task of a phase stands behind one of a later phase. -/
  ordered : b.agenda.Pairwise fun t u => t.phase.rank ≤ u.phase.rank
  /-- As long as nothing has stopped the build, all that is left to do is on its agenda. -/
  covers : w.hasFired b.generation = false → ∀ uri d, w.documents.get? uri = some d →
    ∀ phase, phase.rank ≥ d.state.rank → .visit phase uri ∈ b.agenda

namespace Build.Paced

variable {b : Build} {w : Workspace}

theorem mem_agendaOf (uris : List DocumentUri) (phase : Phase) (uri : DocumentUri) :
    .visit phase uri ∈ agendaOf uris ↔ uri ∈ uris := by
  unfold agendaOf
  simp only [List.mem_flatMap, List.mem_append, List.mem_map, List.mem_singleton]
  constructor
  · rintro ⟨_, -, ⟨_, mem, eq⟩ | eq⟩
    · cases eq
      exact mem
    · cases eq
  · intro mem
    refine ⟨phase, ?_, .inl ⟨uri, mem, rfl⟩⟩
    cases phase <;> decide

theorem ordered_agendaOf (uris : List DocumentUri) :
    (agendaOf uris).Pairwise fun t u => t.phase.rank ≤ u.phase.rank := by
  have phase_of_mem : ∀ phase : Phase, ∀ t ∈ uris.map (Task.visit phase) ++ [.finish phase],
      t.phase = phase := by
    intro phase t mem
    simp only [List.mem_append, List.mem_map, List.mem_singleton] at mem
    rcases mem with ⟨_, -, rfl⟩ | rfl
    · rfl
    · rfl
  unfold agendaOf
  rw [List.pairwise_flatMap]
  constructor
  · intro phase _
    refine List.pairwise_of_forall_mem_list ?_
    intro t memt u memu
    exact Nat.le_of_eq (by rw [phase_of_mem phase t memt, phase_of_mem phase u memu])
  · have phases : Phase.all.Pairwise fun p q => p.rank ≤ q.rank := by decide
    refine phases.imp ?_
    intro p q le t memt u memu
    rw [phase_of_mem p t memt, phase_of_mem q u memu]
    exact le

theorem start {generation : Nat} (h : generation ≤ w.generation) :
    (Build.start w generation).Paced w where
  options := rfl
  generation := h
  ordered := ordered_agendaOf _
  covers _ uri d found phase _ := by
    rw [Build.start, mem_agendaOf, UriMap.mem_keys_iff]
    exact ⟨d, found⟩

/-- When a build comes to a phase, every document has been through the phases before. -/
theorem rank_le_state (h : b.Paced w) (alive : w.hasFired b.generation = false) {task : Task}
    {agenda : List Task} (head : b.agenda = task :: agenda) {uri : DocumentUri} {d : Document}
    (found : w.documents.get? uri = some d) : task.phase.rank ≤ d.state.rank := by
  have ordered := h.ordered
  rw [head, List.pairwise_cons] at ordered
  -- otherwise the agenda still holds the phase for which the document is ready
  refine Nat.le_of_not_lt fun lt => ?_
  obtain ⟨phase, eq⟩ := Phase.exists_rank_eq (Nat.lt_trans lt task.phase.rank_lt)
  have mem := h.covers alive uri d found phase (Nat.le_of_eq eq.symm)
  rw [head] at mem
  rcases List.mem_cons.1 mem with same | later
  · rw [← same] at lt
    exact Nat.lt_irrefl _ (eq ▸ lt)
  · exact absurd (ordered.1 _ later) (Nat.not_le.2 (eq ▸ lt))

/-- No document is linked before all are indexed. -/
theorem indexed_before_link (h : b.Paced w) (alive : w.hasFired b.generation = false) {phase : Phase}
    {uri : DocumentUri} {agenda : List Task} (head : b.agenda = .visit phase uri :: agenda)
    (link : phase = .link) (k : DocumentUri) (d : Document) (found : w.documents.get? k = some d) :
    .indexed ≤ d.state := by
  have reached := h.rank_le_state alive head found
  rw [Task.phase, link] at reached
  exact Nat.le_trans (by decide) reached

/-- A task that leaves the documents alone can be taken off the agenda, unless it is a visit. -/
theorem finish (h : b.Paced w) {phase : Phase} {agenda : List Task}
    (head : b.agenda = .finish phase :: agenda) (advanced : List DocumentUri) :
    Build.Paced { b with agenda, advanced } w where
  options := h.options
  generation := h.generation
  ordered := by
    have ordered := h.ordered
    rw [head, List.pairwise_cons] at ordered
    exact ordered.2
  covers alive uri d found phase' le := by
    have mem := h.covers alive uri d found phase' le
    rw [head] at mem
    exact (List.mem_cons.1 mem).resolve_left nofun

/-- A visit that was not stopped can be taken off the agenda. -/
theorem visit (h : b.Paced w) {phase : Phase} {uri : DocumentUri} {agenda : List Task}
    (head : b.agenda = .visit phase uri :: agenda) (alive : w.hasFired b.generation = false)
    {token : Cancellation} {w' : Workspace} {visit : Workspace.Visit}
    (visited : w.visit b.options phase uri token = (w', visit)) (notStopped : visit ≠ .cancelled)
    (advanced : List DocumentUri) : Build.Paced { b with agenda, advanced } w' := by
  have ordered := h.ordered
  rw [head, List.pairwise_cons] at ordered
  have rest : ∀ uri' d, w.documents.get? uri' = some d → ∀ phase' : Phase, phase'.rank ≥ d.state.rank →
      (uri' = uri → phase' ≠ phase) → .visit phase' uri' ∈ agenda := by
    intro uri' d found phase' le differ
    have mem := h.covers alive uri' d found phase' le
    rw [head] at mem
    refine (List.mem_cons.1 mem).resolve_left fun eq => ?_
    cases eq
    exact differ rfl rfl
  rcases w.visit_cases visited with ⟨rfl, -, unready⟩ | ⟨d, progress, found, moves, rfl⟩
  · refine ⟨h.options, h.generation, ordered.2, fun _ uri' d found phase' le => ?_⟩
    refine rest uri' d found phase' le fun eq same => ?_
    subst eq same
    -- the document has been through the phases before, and is not ready for this one
    have reached := h.rank_le_state alive head found
    have differ : d.state.rank ≠ phase'.rank := fun eq => unready d found (DocumentState.eq_of_rank eq)
    simp only [Task.phase] at reached
    omega
  · refine ⟨h.options, h.generation, ordered.2, fun _ uri' e found' phase' le => ?_⟩
    rw [UriMap.get?_insert] at found'
    split at found'
    · next same =>
      subst same
      cases found'
      cases visit with
      | cancelled => exact absurd rfl notStopped
      | passed => exact absurd rfl moves.ne_passed
      | advanced =>
        obtain ⟨before, after⟩ := moves.states
        have after' : progress.state.rank = phase.rank + 1 := by rw [after, phase.rank_target]
        have before' : d.progress.state.rank = phase.rank := by rw [before]; rfl
        have le' : phase'.rank ≥ phase.rank + 1 := after' ▸ le
        refine rest uri' d found phase' ?_ fun _ same => ?_
        · show phase'.rank ≥ d.progress.state.rank
          omega
        · subst same
          omega
    · next differ => exact rest uri' e found' phase' le fun same => absurd same differ

end Build.Paced

/-- What holds of all builds at a site. -/
structure Site.Paced (s : Site) : Prop where
  waiting : ∀ generation ∈ s.waiting, generation ≤ s.workspace.generation
  running : ∀ b, s.running = some b → b.Paced s.workspace

namespace Site.Paced

variable {s : Site}

/-- What stops all builds keeps the pace. -/
theorem stopped (h : s.Paced) {t : Site} (newer : s.workspace.generation ≤ t.workspace.generation)
    (options : t.workspace.options = s.workspace.options)
    (fired : ∀ g, g ≤ s.workspace.generation → t.workspace.hasFired g = true)
    (running : t.running = s.running)
    (waiting : ∀ g ∈ t.waiting, g ∈ s.waiting ∨ g ≤ t.workspace.generation) : t.Paced := by
  constructor
  · intro g mem
    rcases waiting g mem with old | le
    · exact Nat.le_trans (h.waiting g old) newer
    · exact le
  · intro b eq
    have paced := h.running b (running ▸ eq)
    refine ⟨paced.options.trans options.symm, Nat.le_trans paced.generation newer, paced.ordered, ?_⟩
    intro alive
    rw [fired b.generation paced.generation] at alive
    cases alive

theorem step (h : s.Paced) {b : Build} (running : s.running = some b) {token : Cancellation}
    {w : Workspace} {outcome : BuildStep} (stepped : b.step s.workspace token = (w, outcome)) :
    Site.Paced { s with workspace := w, running := outcome.next? } := by
  have paced := h.running b running
  rcases Build.step_cases stepped with ⟨rfl, ended⟩ | ⟨phase, agenda, head, rfl, rfl⟩ |
    ⟨phase, uri, agenda, visit, head, alive, visited, ended⟩
  · refine ⟨h.waiting, fun c eq => ?_⟩
    rcases ended with ⟨rfl, -⟩ | ⟨rfl, -⟩ <;> cases eq
  · refine ⟨h.waiting, fun c eq => ?_⟩
    cases eq
    exact paced.finish head []
  · have same : w.generation = s.workspace.generation := by
      rcases s.workspace.visit_cases visited with ⟨rfl, -⟩ | ⟨d, progress, -, -, rfl⟩
      · rfl
      · rfl
    refine ⟨same ▸ h.waiting, fun c eq => ?_⟩
    rcases ended with ⟨rfl, rfl⟩ | ⟨notStopped, advanced, rfl⟩
    · cases eq
    · cases eq
      exact paced.visit head alive visited notStopped advanced

theorem act (h : s.Paced) (action : Action) : (s.act action).Paced := by
  cases action with
  | apply uri change =>
    rw [Site.act]
    split
    · next w what applied =>
      obtain ⟨d, v, -, rfl, rfl, rfl⟩ := s.workspace.apply_cases applied
      exact h.stopped (Nat.le_refl _) rfl (fun g _ => rfl) rfl fun g mem => .inl mem
    · exact h
  | begin changed deleted =>
    rw [Site.act]
    split
    · next w what begun =>
      obtain ⟨v, rfl, rfl, rfl⟩ := s.workspace.begin_cases changed deleted begun
      refine h.stopped (Nat.le_succ _) rfl (fun g le => ?_) rfl fun g mem => ?_
      · have outdated : g ≠ s.workspace.generation + 1 := by omega
        show (false || g != s.workspace.generation + 1) = true
        simp [outdated]
      · rcases List.mem_append.1 mem with old | new
        · exact .inl old
        · exact .inr (Nat.le_of_eq (List.mem_singleton.1 new))
    · exact h
  | start generation =>
    rw [Site.act]
    split
    · next ready =>
      simp only [Bool.and_eq_true, List.contains_eq_mem, decide_eq_true_eq] at ready
      refine ⟨fun g mem => h.waiting g (List.mem_of_mem_erase mem), fun b eq => ?_⟩
      cases eq
      exact .start (h.waiting generation ready.2)
    · exact h
  | step token =>
    rw [Site.act]
    split
    · exact h
    · next b running => exact h.step running rfl
  | abandon => exact ⟨h.waiting, nofun⟩
  | shutdown =>
    exact h.stopped (Nat.le_refl _) rfl (fun g _ => rfl) rfl fun g mem => .inl mem
  | reuse uri previous =>
    rw [Site.act]
    split
    · exact ⟨h.waiting, h.running⟩
    · exact h
  | report uri =>
    rw [Site.act]
    split
    · split
      · exact ⟨h.waiting, h.running⟩
      · exact h
    · exact h

end Site.Paced

end Workbench
