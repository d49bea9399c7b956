import Mathlib.Data.List.Nodup
import Workbench.Proofs.Workspace.Turns
import Workbench.Proofs.Workspace.Documents
import Workbench.Proofs.Workspace.Reports

/-!
**Updates that nothing interrupts.**

An update begins a build, which waits for its turn and then comes to every document once in every phase.
The agenda of a build is compared here with what there is to do: a document is below a phase if the
phase has still to be run for it. A build that nothing interrupts runs each phase for the documents that
were below it when the update began, in the order of the agenda, and for no others. A second update then
finds nothing to do.

Builds of earlier updates may still have their turn or wait for it. Their tokens have fired, so all that
they do is leave. However the turns are taken, there is only so much that can happen before nothing is
left to do, and by then the update has come to its end.
-/

namespace Workbench

/-! ### What there is to do -/

theorem Phase.eq_of_rank {p q : Phase} (h : p.rank = q.rank) : p = q := by
  cases p <;> cases q <;> first | rfl | cases h

namespace Workspace

/-- Whether a document is there and a phase has still to be run for it. -/
def isBelow (w : Workspace) (phase : Phase) (uri : DocumentUri) : Bool :=
  (w.state? uri).any (· < phase.target)

/-- The documents below each phase, in the order in which a build comes to them. -/
def below (w : Workspace) : List (Phase × DocumentUri) :=
  Phase.all.flatMap fun phase => (w.documents.keys.filter (w.isBelow phase)).map (phase, ·)

/-- What a task has to do. -/
def due? (w : Workspace) : Task → Option (Phase × DocumentUri)
  | .visit phase uri => if w.isBelow phase uri then some (phase, uri) else none
  | .finish _ => none

theorem isBelow_of_get? {w : Workspace} {uri : DocumentUri} {d : Document}
    (found : w.documents.get? uri = some d) (phase : Phase) :
    w.isBelow phase uri = decide (d.state.rank ≤ phase.rank) := by
  have target := phase.rank_target
  unfold isBelow state?
  rw [found]
  apply decide_eq_decide.2
  show d.state.rank < phase.target.rank ↔ _
  omega

theorem isBelow_congr {w w' : Workspace} {uri : DocumentUri}
    (same : w'.documents.get? uri = w.documents.get? uri) (phase : Phase) :
    w'.isBelow phase uri = w.isBelow phase uri := by
  unfold isBelow state?
  rw [same]

/-- A document that has been through a phase has still to go through the later ones. -/
theorem isBelow_insert {w : Workspace} {uri k : DocumentUri} {d e : Document} {phase p : Phase}
    (found : w.documents.get? uri = some d) (before : d.state.rank = phase.rank)
    (after : e.state.rank = phase.rank + 1) (later : k = uri → phase.rank < p.rank) :
    { w with documents := w.documents.insert uri e }.isBelow p k = w.isBelow p k := by
  by_cases same : k = uri
  · subst same
    have less := later rfl
    have stored : (w.documents.insert k e).get? k = some e := by
      rw [UriMap.get?_insert, if_pos rfl]
    rw [isBelow_of_get? stored, isBelow_of_get? found]
    apply decide_eq_decide.2
    omega
  · exact isBelow_congr (by rw [UriMap.get?_insert, if_neg same]) p

theorem below_congr {w w' : Workspace} (same : w'.documents = w.documents) :
    w'.below = w.below := by
  unfold below isBelow state?
  rw [same]

/-- The agenda of a build holds what there is to do. -/
theorem filterMap_agendaOf (w : Workspace) :
    (Build.agendaOf w.documents.keys).filterMap w.due? = w.below := by
  have visits : ∀ phase (uris : List DocumentUri),
      (uris.map (Task.visit phase) ++ [Task.finish phase]).filterMap w.due? =
        (uris.filter (w.isBelow phase)).map (phase, ·) := by
    intro phase uris
    induction uris with
    | nil => rfl
    | cons uri rest ih =>
      rw [List.map_cons, List.cons_append, List.filterMap_cons, ih, List.filter_cons]
      by_cases below : w.isBelow phase uri
      · simp [due?, below]
      · simp [due?, below]
  unfold Build.agendaOf below
  rw [List.filterMap_flatMap]
  exact congrArg (Phase.all.flatMap ·) (funext fun phase => visits phase _)

end Workspace

theorem Build.nodup_agendaOf {uris : List DocumentUri} (distinct : uris.Nodup) :
    (agendaOf uris).Nodup := by
  unfold agendaOf
  rw [List.nodup_flatMap]
  constructor
  · intro phase _
    rw [List.nodup_append]
    refine ⟨distinct.map fun uri uri' same => by cases same; rfl, by simp, ?_⟩
    simp
  · have phases : Phase.all.Pairwise (· ≠ ·) := by decide
    refine phases.imp ?_
    intro p q differ t memp memq
    have of_mem : ∀ phase, t ∈ uris.map (Task.visit phase) ++ [.finish phase] → t.phase = phase := by
      intro phase mem
      simp only [List.mem_append, List.mem_map, List.mem_singleton] at mem
      rcases mem with ⟨_, -, rfl⟩ | rfl <;> rfl
    exact differ ((of_mem p memp).symm.trans (of_mem q memq))

namespace Build.Paced

variable {b : Build} {w : Workspace}

/-- A document that a phase passes over has been through it. -/
theorem not_isBelow (h : b.Paced w) (alive : w.hasFired b.generation = false) {phase : Phase}
    {uri : DocumentUri} {agenda : List Task} (head : b.agenda = .visit phase uri :: agenda)
    (unready : ∀ d, w.documents.get? uri = some d → d.state ≠ phase.source) :
    w.isBelow phase uri = false := by
  cases found : w.documents.get? uri with
  | none => simp [Workspace.isBelow, Workspace.state?, found]
  | some d =>
    -- it has been through the phases before
    have reached : phase.rank ≤ d.state.rank := h.rank_le_state alive head found
    have differ : d.state.rank ≠ phase.rank := fun eq =>
      unready d found (DocumentState.eq_of_rank eq)
    rw [Workspace.isBelow_of_get? found]
    exact decide_eq_false (by omega)

/-- A visit that was not stopped does what its task had to do, and leaves what the others have to. -/
theorem due_visit (h : b.Paced w) (alive : w.hasFired b.generation = false) {phase : Phase}
    {uri : DocumentUri} {agenda : List Task} (head : b.agenda = .visit phase uri :: agenda)
    (once : b.agenda.Nodup) {token : Cancellation} {w' : Workspace} {visit : Workspace.Visit}
    (visited : w.visit b.options phase uri token = (w', visit)) (notStopped : visit ≠ .cancelled) :
    b.agenda.filterMap w.due? =
      (if visit = .advanced then [(phase, uri)] else []) ++ agenda.filterMap w'.due? := by
  have ordered := h.ordered
  rw [head, List.pairwise_cons] at ordered
  rw [head, List.nodup_cons] at once
  rcases w.visit_cases visited with ⟨rfl, rfl, unready⟩ | ⟨d, progress, found, moves, rfl⟩
  · rw [head, List.filterMap_cons]
    simp [Workspace.due?, h.not_isBelow alive head unready]
  · cases visit with
    | cancelled => exact absurd rfl notStopped
    | passed => exact absurd rfl moves.ne_passed
    | advanced =>
      obtain ⟨before, after⟩ := moves.states
      have before : d.state.rank = phase.rank := congrArg DocumentState.rank before
      have after : progress.state.rank = phase.rank + 1 := by rw [after, phase.rank_target]
      have now : w.isBelow phase uri = true := by
        rw [Workspace.isBelow_of_get? found]
        exact decide_eq_true (Nat.le_of_eq before)
      rw [head, List.filterMap_cons, Workspace.due?, if_pos now, if_pos rfl]
      refine congrArg ((phase, uri) :: ·) (List.filterMap_congr fun task mem => ?_)
      cases task with
      | finish => rfl
      | visit p k =>
        have later : k = uri → phase.rank < p.rank := by
          rintro rfl
          refine Nat.lt_of_le_of_ne (ordered.1 _ mem) fun eq => ?_
          rw [Phase.eq_of_rank eq] at once
          exact once.1 mem
        have same := Workspace.isBelow_insert (e := { d with progress }) found before after later
        exact congrArg (fun c : Bool => if c then some (p, k) else none) same.symm

end Build.Paced

/-! ### What a run has done -/

/-- The document that the next task of a build takes through a phase. -/
def Build.advances? (b : Build) (w : Workspace) (token : Cancellation) :
    Option (Phase × DocumentUri) :=
  match b.agenda with
  | .visit phase uri :: _ =>
    if !w.hasFired b.generation && (w.visit b.options phase uri token).2 = .advanced then
      some (phase, uri)
    else none
  | _ => none

namespace Build

variable {b : Build} {w w' : Workspace} {token : Cancellation}

theorem advances?_of_visit {phase : Phase} {uri : DocumentUri} {agenda : List Task}
    {visit : Workspace.Visit} (head : b.agenda = .visit phase uri :: agenda)
    (alive : w.hasFired b.generation = false)
    (visited : w.visit b.options phase uri token = (w', visit)) :
    (b.advances? w token).toList = if visit = .advanced then [(phase, uri)] else [] := by
  unfold advances?
  rw [head]
  by_cases advanced : visit = .advanced
  · simp [alive, visited, advanced]
  · simp [visited, advanced]

theorem advances?_of_hasFired (fired : w.hasFired b.generation = true) :
    b.advances? w token = none := by
  unfold advances?
  split
  · simp [fired]
  · rfl

end Build

namespace Site

/-- The document that an action takes through a phase. -/
def advances? (s : Site) : Action → Option (Phase × DocumentUri)
  | .step token => s.running.bind (·.advances? s.workspace token)
  | _ => none

theorem advances?_eq_none {s : Site} {a : Action}
    (idle : ∀ token, a = .step token → s.running = none) : s.advances? a = none := by
  cases a with
  | step token => rw [advances?, idle token rfl, Option.bind_none]
  | _ => rfl

/-- The documents that a run takes through phases, in turn. -/
def advances (s : Site) : List Action → List (Phase × DocumentUri)
  | [] => []
  | a :: rest => (s.advances? a).toList ++ (s.act a).advances rest

/-! ### An update under way -/

/-- How far the update of a generation is that began with the workspace `w₀`, if nothing has stopped it:
its build waits for its turn, has it, or is over. In its turn, what it has done and what its agenda has
still to do make up what there was to do. -/
inductive Stage (g : Nat) (w₀ : Workspace) (log : List (Phase × DocumentUri)) (w : Workspace)
    (waiting : List Nat) : Option Build → Prop where
  | waits {running : Option Build} (mem : g ∈ waiting) (once : g ∉ waiting.erase g)
      (others : ∀ b, running = some b → b.generation ≠ g) (nothing : log = [])
      (same : w.documents = w₀.documents) : Stage g w₀ log w waiting running
  | runs {b : Build} (gone : g ∉ waiting) (generation : b.generation = g) (paced : b.Paced w)
      (once : b.agenda.Nodup) (due : log ++ b.agenda.filterMap w.due? = w₀.below) :
      Stage g w₀ log w waiting (some b)
  | ended {running : Option Build} (gone : g ∉ waiting)
      (others : ∀ b, running = some b → b.generation ≠ g) : Stage g w₀ log w waiting running

/-- What holds of an update from the moment at which it begins. -/
structure Underway (g : Nat) (w₀ : Workspace) (log : List (Phase × DocumentUri)) (s : Site) :
    Prop where
  begun : g ≤ s.workspace.generation
  texts : s.workspace.hasFired g = false → ∀ uri,
    (s.workspace.documents.get? uri).map (·.text) = (w₀.documents.get? uri).map (·.text)
  stage : s.workspace.hasFired g = false → Stage g w₀ log s.workspace s.waiting s.running

end Site

namespace Workspace

/-- A visit changes no text. -/
theorem text_visit {w w' : Workspace} {options : ValidationOptions} {phase : Phase}
    {uri : DocumentUri} {token : Cancellation} {visit : Visit}
    (visited : w.visit options phase uri token = (w', visit)) (k : DocumentUri) :
    (w'.documents.get? k).map (·.text) = (w.documents.get? k).map (·.text) := by
  rcases w.visit_cases visited with ⟨rfl, -⟩ | ⟨d, progress, found, -, rfl⟩
  · rfl
  · dsimp only
    rw [UriMap.get?_insert]
    split
    · next same =>
      subst same
      rw [found]
      rfl
    · rfl

end Workspace

namespace Site

variable {g : Nat} {w₀ : Workspace} {log : List (Phase × DocumentUri)} {s t : Site}

/-- A build whose token has fired does not matter to the update. -/
theorem Stage.outdated {w : Workspace} {waiting : List Nat} {running running' : Option Build}
    (h : Stage g w₀ log w waiting running) (others : ∀ b, running = some b → b.generation ≠ g)
    (others' : ∀ b, running' = some b → b.generation ≠ g) : Stage g w₀ log w waiting running' := by
  cases h with
  | waits mem once _ nothing same => exact .waits mem once others' nothing same
  | runs _ generation => exact absurd generation (others _ rfl)
  | ended gone => exact .ended gone others'

/-- The build whose turn it is carries out a task. -/
theorem Stage.step {w w' : Workspace} {waiting : List Nat} {b : Build} {token : Cancellation}
    {outcome : BuildStep} (h : Stage g w₀ log w waiting (some b)) (alive : w.hasFired g = false)
    (stepped : b.step w token = (w', outcome)) :
    Stage g w₀ (log ++ (b.advances? w token).toList) w' waiting outcome.next? := by
  by_cases own : b.generation = g
  · cases h with
    | waits _ _ others => exact absurd own (others b rfl)
    | ended _ others => exact absurd own (others b rfl)
    | runs gone _ paced once due =>
      rw [← own] at alive
      rcases Build.step_cases stepped with ⟨-, ⟨rfl, -⟩ | ⟨rfl, -⟩⟩ | ⟨phase, agenda, head, rfl, rfl⟩ |
        ⟨phase, uri, agenda, visit, head, -, visited, ⟨-, rfl⟩ | ⟨notStopped, advanced, rfl⟩⟩
      · exact .ended gone nofun
      · exact .ended gone nofun
      · have quiet : b.advances? w' token = none := by rw [Build.advances?, head]
        refine .runs gone own (paced.finish head []) ?_ ?_
        · rw [head] at once
          exact once.of_cons
        · rw [head, List.filterMap_cons_none rfl] at due
          rw [quiet, Option.toList_none, List.append_nil]
          exact due
      · exact .ended gone nofun
      · refine .runs gone own (paced.visit head alive visited notStopped advanced) ?_ ?_
        · rw [head] at once
          exact once.of_cons
        · rw [Build.advances?_of_visit head alive visited, List.append_assoc,
            ← paced.due_visit alive head once visited notStopped, due]
  · have fired : w.hasFired b.generation = true := by
      have current := Workspace.eq_of_hasFired alive
      unfold Workspace.hasFired
      rw [← current]
      simp [own]
    have same := Build.step_of_hasFired stepped fired
    subst same
    rw [Build.advances?_of_hasFired fired, Option.toList_none, List.append_nil]
    refine h.outdated (fun c eq => ?_) fun c eq => ?_
    · cases eq
      exact own
    · rw [Build.generation_step stepped eq]
      exact own

theorem Stage.start {w : Workspace} {waiting : List Nat} {g' : Nat}
    (h : Stage g w₀ log w waiting none) (waits : g' ∈ waiting) (begun : g' ≤ w.generation) :
    Stage g w₀ log w (waiting.erase g') (some (Build.start w g')) := by
  by_cases own : g' = g
  · subst own
    cases h with
    | waits _ once _ nothing same =>
      refine .runs once rfl (.start begun) (Build.nodup_agendaOf w.documents.nodup_keys) ?_
      rw [nothing, List.nil_append, ← Workspace.below_congr same]
      exact w.filterMap_agendaOf
    | ended gone => exact absurd waits gone
  · have others : ∀ b, some (Build.start w g') = some b → b.generation ≠ g := by
      rintro b ⟨⟩
      exact own
    cases h with
    | waits mem once _ nothing same =>
      refine .waits ((List.mem_erase_of_ne (Ne.symm own)).2 mem) ?_ others nothing same
      rw [List.erase_comm]
      exact fun later => once (List.mem_of_mem_erase later)
    | ended gone => exact .ended (fun later => gone (List.mem_of_mem_erase later)) others

theorem Stage.abandon {w : Workspace} {waiting : List Nat} {running : Option Build}
    (h : Stage g w₀ log w waiting running) : Stage g w₀ log w waiting none := by
  cases h with
  | waits mem once _ nothing same => exact .waits mem once nofun nothing same
  | runs gone => exact .ended gone nofun
  | ended gone => exact .ended gone nofun

theorem Underway.effect (h : Underway g w₀ log s) (begun : s.Begun) {a : Action}
    (effect : Effect s t a) : Underway g w₀ (log ++ (s.advances? a).toList) t := by
  have newer := Nat.le_trans h.begun effect.frame.2.1
  have before : t.workspace.hasFired g = false → s.workspace.hasFired g = false := by
    intro alive
    cases fired : s.workspace.hasFired g with
    | false => rfl
    | true =>
      rw [effect.hasFired h.begun fired] at alive
      cases alive
  refine ⟨newer, fun alive uri => ?_, fun alive => ?_⟩
  · rw [← h.texts (before alive) uri]
    cases effect with
    | nothing _ workspace => rw [workspace]
    | stops _ _ _ fired =>
      rw [fired g h.begun] at alive
      cases alive
    | starts _ _ workspace => rw [workspace]
    | abandons workspace => rw [workspace]
    | steps _ stepped =>
      rcases Build.step_cases stepped with
        ⟨same, -⟩ | ⟨_, _, -, same, -⟩ | ⟨_, _, _, _, -, -, visited, -⟩
      · rw [same]
      · rw [same]
      · exact Workspace.text_visit visited uri
  · have stage := h.stage (before alive)
    cases effect with
    | nothing idle workspace waiting running =>
      rw [advances?_eq_none idle, workspace, waiting, running, Option.toList_none, List.append_nil]
      exact stage
    | stops _ _ _ fired =>
      rw [fired g h.begun] at alive
      cases alive
    | starts idle waits workspace waiting running =>
      rw [idle] at stage
      rw [workspace, waiting, running]
      show Stage g w₀ (log ++ []) _ _ _
      rw [List.append_nil]
      exact stage.start waits (begun.waiting _ waits)
    | steps turn stepped waiting running =>
      rw [turn] at stage
      rw [advances?, turn, waiting, running]
      exact stage.step (before alive) stepped
    | abandons workspace waiting running =>
      rw [workspace, waiting, running]
      show Stage g w₀ (log ++ []) _ _ _
      rw [List.append_nil]
      exact stage.abandon

theorem Underway.run (h : Underway g w₀ log s) (begun : s.Begun) (actions : List Action) :
    Underway g w₀ (log ++ s.advances actions) (s.run actions) := by
  induction actions generalizing s log with
  | nil =>
    rw [advances, List.append_nil]
    exact h
  | cons a rest ih =>
    have effect := s.effect_act a
    rw [advances, ← List.append_assoc]
    exact ih (h.effect begun effect) (effect.begun begun)

/-! ### An update that comes to its end -/

/-- The update of a generation has come to its end, and nothing has stopped it. -/
def Completes (s : Site) (g : Nat) : Prop :=
  s.complete = true ∧ s.workspace.generation = g

theorem Completes.build (h : t.Completes g) :
    ∃ b, t.running = some b ∧ b.agenda = [] ∧ b.generation = g ∧
      t.workspace.hasFired b.generation = false := by
  obtain ⟨complete, generation⟩ := h
  unfold Site.complete at complete
  split at complete
  · next b turn =>
    simp only [Bool.and_eq_true, List.isEmpty_iff, Bool.not_eq_true'] at complete
    obtain ⟨done, alive⟩ := complete
    exact ⟨b, turn, done, (Workspace.eq_of_hasFired alive).trans generation, alive⟩
  · cases complete

/-- An update that has come to its end has done all there was to do. -/
theorem Underway.completes (h : Underway g w₀ log t) (completes : t.Completes g) :
    log = w₀.below ∧
      ∀ uri d, t.workspace.documents.get? uri = some d → d.state = .validated := by
  obtain ⟨b, turn, done, own, alive⟩ := completes.build
  have stage := h.stage (own ▸ alive)
  rw [turn] at stage
  cases stage with
  | waits _ _ others => exact absurd own (others b rfl)
  | ended _ others => exact absurd own (others b rfl)
  | runs _ _ paced _ due =>
    rw [done, List.filterMap_nil, List.append_nil] at due
    exact ⟨due, fun uri d found => paced.validated alive done found⟩

/-- An update links a document only when the scopes of all documents are computed. -/
theorem Underway.scoped_before_link (h : Underway g w₀ log t) (current : t.workspace.generation = g)
    {token : Cancellation} {uri : DocumentUri}
    (links : t.advances? (.step token) = some (.link, uri)) {k : DocumentUri} {d : Document}
    (found : t.workspace.documents.get? k = some d) : .scoped ≤ d.state := by
  obtain ⟨b, turn, advances⟩ := Option.bind_eq_some_iff.1 links
  unfold Build.advances? at advances
  split at advances
  · next phase uri' agenda head =>
    split at advances
    · next goes =>
      cases advances
      simp only [Bool.and_eq_true, Bool.not_eq_true'] at goes
      have own : b.generation = g := (Workspace.eq_of_hasFired goes.1).trans current
      have stage := h.stage (own ▸ goes.1)
      rw [turn] at stage
      cases stage with
      | waits _ _ others => exact absurd own (others b rfl)
      | ended _ others => exact absurd own (others b rfl)
      | runs _ _ paced => exact paced.rank_le_state goes.1 head found
    · cases advances
  · cases advances

/-! ### The beginning of an update -/

/-- What begins waits for its turn, and nothing is done yet. -/
theorem Begun.underway (h : s.Begun) (up : s.workspace.shutDown = false)
    (changed deleted : List DocumentUri) :
    let begun := s.act (.begin changed deleted)
    Underway (s.workspace.generation + 1) begun.workspace [] begun ∧
      begun.Awaits (s.workspace.generation + 1) ∧
      begun.workspace.hasFired (s.workspace.generation + 1) = false := by
  obtain ⟨-, awaits, alive⟩ := s.awaits_begin up changed deleted
  refine ⟨?_, awaits, alive⟩
  rw [act_begin up]
  have fresh : s.workspace.generation + 1 ∉ s.waiting := fun mem =>
    Nat.not_succ_le_self _ (h.waiting _ mem)
  have last : s.workspace.generation + 1 ∈ s.waiting ++ [s.workspace.generation + 1] := by simp
  refine ⟨Nat.le_refl _, fun _ _ => rfl, fun _ => .waits last ?_ ?_ rfl rfl⟩
  · rw [List.erase_append_right _ fresh]
    simpa using fresh
  · intro b turn own
    have le := h.running b turn
    omega

end Site

namespace Workspace

/-- Where a text is left, an invalidation does not change it. -/
theorem text_invalidate (w : Workspace) (changed deleted : List DocumentUri) (uri : DocumentUri) :
    (((w.invalidate changed deleted).1.documents.get? uri).map (·.text)) =
      if uri ∈ deleted then none else (w.documents.get? uri).map (·.text) := by
  rw [documents_invalidate, UriMap.get?_map, get?_pruned]
  by_cases gone : uri ∈ deleted
  · simp [gone]
  · cases found : w.documents.get? uri with
    | none => simp [gone]
    | some d =>
      simp only [gone, if_false, Option.map_some]
      split <;> split <;> rfl

end Workspace

/-! ### An update with nothing to do -/

section

variable {w w' : Workspace}
  (validated : ∀ uri d, w.documents.get? uri = some d → d.state = .validated)

include validated

namespace Workspace

theorem visit_of_validated {options : ValidationOptions} {phase : Phase} {uri : DocumentUri}
    {token : Cancellation} {visit : Visit}
    (visited : w.visit options phase uri token = (w', visit)) :
    w'.documents = w.documents ∧ w'.index = w.index ∧ visit ≠ .advanced := by
  rcases w.visit_cases visited with ⟨rfl, rfl, -⟩ | ⟨d, progress, found, moves, rfl⟩
  · exact ⟨rfl, rfl, by decide⟩
  · have state := validated uri d found
    have notAdvanced : visit ≠ .advanced := by
      rintro rfl
      have source := moves.states.1
      rw [show d.progress.state = .validated from state] at source
      cases phase <;> cases source
    have same := moves.of_validated state
    subst same
    exact ⟨UriMap.insert_of_get? found, if_neg fun both => notAdvanced both.2, notAdvanced⟩

end Workspace

theorem Build.step_of_validated {b : Build} {token : Cancellation} {outcome : BuildStep}
    (stepped : b.step w token = (w', outcome)) :
    w'.documents = w.documents ∧ w'.index = w.index := by
  rcases Build.step_cases stepped with
    ⟨rfl, -⟩ | ⟨_, _, -, rfl, -⟩ | ⟨_, _, _, _, -, -, visited, -⟩
  · exact ⟨rfl, rfl⟩
  · exact ⟨rfl, rfl⟩
  · obtain ⟨documents, index, -⟩ := Workspace.visit_of_validated validated visited
    exact ⟨documents, index⟩

theorem Build.advances?_of_validated (b : Build) (token : Cancellation) :
    b.advances? w token = none := by
  unfold advances?
  split
  · next phase uri _ _ =>
    have stays : (w.visit b.options phase uri token).2 ≠ .advanced := by
      cases visited : w.visit b.options phase uri token with
      | mk w' visit => exact (Workspace.visit_of_validated validated visited).2.2
    simp [stays]
  · rfl

end

namespace Site

variable {s t : Site}

/-- Two sites at which the documents, the index and the reports are the same. -/
structure Same (s t : Site) : Prop where
  documents : t.workspace.documents = s.workspace.documents
  index : t.workspace.index = s.workspace.index
  reports : t.reports = s.reports

/-- An update with nothing changed and nothing deleted invalidates nothing. -/
theorem same_begin (s : Site) : s.Same (s.act (.begin [] [])) := by
  cases up : s.workspace.shutDown with
  | true =>
    have refused : s.act (.begin [] []) = s := by
      rw [act, Workspace.begin, if_pos up]
    rw [refused]
    exact ⟨rfl, rfl, rfl⟩
  | false =>
    rw [act_begin up, Workspace.invalidate_nil]
    exact ⟨rfl, rfl, rfl⟩

/-- Where every document is validated, builds that carry on change nothing. -/
theorem same_act (validated : ∀ uri d, s.workspace.documents.get? uri = some d → d.state = .validated)
    {a : Action} (work : a.isWork = true) : s.Same (s.act a) ∧ s.advances? a = none := by
  cases a with
  | start g =>
    rw [act]
    split <;> exact ⟨⟨rfl, rfl, rfl⟩, rfl⟩
  | step token =>
    rw [act]
    split
    · next idle => exact ⟨⟨rfl, rfl, rfl⟩, by rw [advances?, idle]; rfl⟩
    · next b turn =>
      obtain ⟨documents, index⟩ := b.step_of_validated validated (rfl : b.step s.workspace token = _)
      refine ⟨⟨documents, index, rfl⟩, ?_⟩
      rw [advances?, turn]
      exact b.advances?_of_validated validated token
  | _ => cases work

theorem same_run (validated : ∀ uri d, s.workspace.documents.get? uri = some d → d.state = .validated)
    {actions : List Action} (work : ∀ a ∈ actions, a.isWork = true) :
    s.Same (s.run actions) ∧ s.advances actions = [] := by
  induction actions generalizing s with
  | nil => exact ⟨⟨rfl, rfl, rfl⟩, rfl⟩
  | cons a rest ih =>
    obtain ⟨first, idle⟩ := same_act validated (work a List.mem_cons_self)
    obtain ⟨later, idle'⟩ := ih (s := s.act a) (by rw [first.documents]; exact validated)
      fun c mem => work c (List.mem_cons_of_mem _ mem)
    refine ⟨⟨later.documents.trans first.documents, later.index.trans first.index,
      later.reports.trans first.reports⟩, ?_⟩
    rw [advances, idle, idle']
    rfl

/-! ### Updates of reachable workspaces -/

/-- The sites that actions lead to, while options may be set at any time. -/
inductive Reachable (l : Language) : Site → Prop where
  | opened (o : ValidationOptions) : Reachable l (opened l o)
  | act {s : Site} (action : Action) (h : Reachable l s) : Reachable l (s.act action)
  | setOptions {s : Site} (o : ValidationOptions) (h : Reachable l s) :
      Reachable l { s with workspace := { s.workspace with options := o } }

theorem Reachable.begun {l : Language} (h : Reachable l s) :
    s.Begun ∧ s.workspace.language = l := by
  induction h with
  | opened o => exact ⟨⟨nofun, nofun⟩, rfl⟩
  | @act s action _ ih =>
    have effect := s.effect_act action
    exact ⟨effect.begun ih.1, effect.frame.1.trans ih.2⟩
  | setOptions o _ ih => exact ⟨⟨ih.1.waiting, ih.1.running⟩, ih.2⟩

/-- An update of a workspace that is not shut down. However turns are taken, as long as nothing makes a
token fire, only so many actions do anything, and when nothing is left to do the update has come to its
end. When it comes to its end, whatever else has happened, the documents that were not deleted are
there with their texts and validated, and the update has run each phase for exactly the documents that
were below it when it began, in this order; and another update with nothing changed and nothing deleted
advances no document and leaves the documents, the index and the reports as they are. At no time does
the update link a document while the scopes of another are not computed. -/
theorem update_converges {l : Language} {s : Site} (reachable : Reachable l s)
    (up : s.workspace.shutDown = false) (changed deleted : List DocumentUri) :
    let g := s.workspace.generation + 1
    let begun := s.act (.begin changed deleted)
    (l.registry.Quiet → ∀ actions : List Action, (∀ a ∈ actions, a.isCalm = true) →
      (begun.Busy actions → actions.length ≤ begun.workLeft) ∧
      ((begun.run actions).Rests → ∃ front, front <+: actions ∧ (begun.run front).Completes g)) ∧
    (∀ actions : List Action, (begun.run actions).Completes g →
      let t := begun.run actions
      (∀ uri, (t.workspace.documents.get? uri).map (·.text) =
        if uri ∈ deleted then none else (s.workspace.documents.get? uri).map (·.text)) ∧
      (∀ uri d, t.workspace.documents.get? uri = some d → d.state = .validated) ∧
      begun.advances actions = begun.workspace.below ∧
      ∀ again : List Action, (∀ a ∈ again, a.isWork = true) →
        (t.act (.begin [] [])).advances again = [] ∧ t.Same ((t.act (.begin [] [])).run again)) ∧
    ∀ (actions : List Action) (token : Cancellation) (uri : DocumentUri),
      (begun.run actions).workspace.generation = g →
      (begun.run actions).advances? (.step token) = some (.link, uri) →
      ∀ k d, (begun.run actions).workspace.documents.get? k = some d → .scoped ≤ d.state := by
  intro g begun
  obtain ⟨numbered, language⟩ := reachable.begun
  obtain ⟨underway, awaits, alive⟩ := numbered.underway up changed deleted
  have effect := s.effect_act (.begin changed deleted)
  have later := fun actions => underway.run (effect.begun numbered) actions
  refine ⟨fun quiet actions calm => ⟨fun busy => ?_, fun rests => ?_⟩, fun actions completes => ?_,
    fun actions token uri current links k d found => ?_⟩
  · exact length_le_workLeft (fun a mem => Action.isWork_of_isCalm (calm a mem)) busy
  · have quiet : begun.workspace.language.registry.Quiet := by
      rw [effect.frame.1, language]
      exact quiet
    exact (awaits.run quiet alive calm).resolve_left rests.not_awaits
  · intro t
    obtain ⟨log, validated⟩ := (later actions).completes completes
    obtain ⟨b, -, -, own, goes⟩ := completes.build
    rw [own] at goes
    refine ⟨fun uri => ?_, validated, log, fun again work => ?_⟩
    · rw [(later actions).texts goes uri, act_begin up]
      exact Workspace.text_invalidate _ changed deleted uri
    · have first := t.same_begin
      obtain ⟨rest, idle⟩ := same_run (s := t.act (.begin [] []))
        (by rw [first.documents]; exact validated) work
      exact ⟨idle, rest.documents.trans first.documents, rest.index.trans first.index,
        rest.reports.trans first.reports⟩
  · exact (later actions).scoped_before_link current links found

theorem reachable_run (l : Language) (o : ValidationOptions) (actions : List Action) :
    Reachable l ((opened l o).run actions) :=
  run_induction (.opened o) (fun _ action h => h.act action) actions

/-- Two documents are built. A third one is parsed when the text of a fourth stops the build. -/
def interrupted : Site :=
  (opened plain {}).run
    (([.apply "a" (.set 1 "class A {}"), .apply "b" (.set 1 "class X {}"), .begin [] [], .start 1] :
        List Action) ++
      List.replicate 16 (.step .never) ++
      ([.apply "c" (.set 1 "class C extends X {}"), .begin [] [], .start 2] : List Action) ++
      List.replicate 3 (.step .never) ++ [.apply "d" (.set 1 "class D {}")])

/-- The next update takes one document away. -/
def resumed : Site := interrupted.act (.begin [] ["a"])

/-- The stopped build leaves, and the next one carries out its agenda for three documents. -/
def resumption : List Action :=
  [.step .never, .step .never, .start 3] ++ List.replicate 20 (.step .never)

theorem update_converges_interrupted :
    (interrupted.workspace.shutDown = false ∧ interrupted.workspace.generation + 1 = 3 ∧
      interrupted.workspace.documents.keys.map interrupted.workspace.state? =
        [some .validated, some .validated, some .parsed, some .changed]) ∧
    plain.registry.Quiet ∧
    (∃ front, front <+: resumption ++ [.step .never] ∧ (resumed.run front).Completes 3) ∧
    (resumed.run resumption).Completes 3 ∧
    (resumed.run resumption).workspace.documents.keys = ["b", "c", "d"] ∧
    (∀ uri d, (resumed.run resumption).workspace.documents.get? uri = some d →
      d.state = .validated) ∧
    resumed.advances resumption = [(.parse, "d"), (.index, "c"), (.index, "d"), (.scope, "c"),
      (.scope, "d"), (.link, "c"), (.link, "d"), (.validate, "c"), (.validate, "d")] := by
  have before : interrupted.workspace.shutDown = false ∧ interrupted.workspace.generation + 1 = 3 ∧
      interrupted.workspace.documents.keys.map interrupted.workspace.state? =
        [some .validated, some .validated, some .parsed, some .changed] := by decide +kernel
  have after : (resumed.run resumption).complete = true ∧
      (resumed.run resumption).workspace.generation = 3 ∧
      (resumed.run resumption).workspace.documents.keys = ["b", "c", "d"] ∧
      (resumed.run (resumption ++ [.step .never])).running.isNone = true ∧
      (resumed.run (resumption ++ [.step .never])).waiting = [] := by decide +kernel
  obtain ⟨complete, current, keys, idle, waiting⟩ := after
  have quiet : plain.registry.Quiet := nofun
  have completes : (resumed.run resumption).Completes 3 := ⟨complete, current⟩
  have rests : (resumed.run (resumption ++ [.step .never])).Rests :=
    rests_of_idle (Option.isNone_iff_eq_none.1 idle) waiting
  have reachable : Reachable plain interrupted := reachable_run plain {} _
  obtain ⟨ends, done, -⟩ := update_converges reachable before.1 [] ["a"]
  rw [before.2.1, ← resumed] at ends done
  obtain ⟨-, validated, log, -⟩ := done resumption completes
  refine ⟨before, quiet, (ends quiet _ (by decide)).2 rests, completes, keys, validated, ?_⟩
  exact log.trans (by decide +kernel)

end Site

end Workbench
