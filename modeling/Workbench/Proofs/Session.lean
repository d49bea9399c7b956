import Workbench.Proofs.Workspace.Reports
import Workbench.Proofs.Workspace.Sound
import Workbench.Session

/-!
**Sessions are runs.**

Whatever is asked of a session, its workspace and its reports are those of a site after some run: the
clock, the timers and the requests that wait only decide which actions are taken, and in which order. So
what holds after every run holds of every session.
-/

namespace Workbench

namespace Session

/-- A session and a site are at the same point. -/
structure At (s : Session) (x : Site) : Prop where
  workspace : s.workspace = x.workspace
  reports : s.reports = x.reports

/-- Every site that is at `s`, with the build `b` at its turn, has a run to where it is at `t`, with the
build `c` at its turn. -/
def Leads (b c : Option Build) (s t : Session) : Prop :=
  ∀ x : Site, s.At x → x.running = b →
    ∃ actions, t.At (x.run actions) ∧ (x.run actions).running = c

namespace Leads

variable {a b c : Option Build} {s t u : Session}

theorem trans (h : Leads a b s t) (h' : Leads b c t u) : Leads a c s u := by
  intro x at_s running
  obtain ⟨first, at_t, running⟩ := h x at_s running
  obtain ⟨rest, at_u, running⟩ := h' _ at_t running
  refine ⟨first ++ rest, ?_⟩
  rw [Site.run_append]
  exact ⟨at_u, running⟩

/-- What changes neither the workspace nor the reports takes no action. -/
theorem of_same (workspace : t.workspace = s.workspace) (reports : t.reports = s.reports) :
    Leads b b s t := by
  intro x at_s running
  exact ⟨[], ⟨workspace.trans at_s.workspace, reports.trans at_s.reports⟩, running⟩

theorem refl (s : Session) : Leads b b s s := of_same rfl rfl

theorem after (h : Leads b c t u) (workspace : t.workspace = s.workspace)
    (reports : t.reports = s.reports) : Leads b c s u :=
  (of_same workspace reports).trans h

/-- One action. -/
theorem of_act (action : Action)
    (acts : ∀ x : Site, s.At x → x.running = b → t.At (x.act action) ∧ (x.act action).running = c) :
    Leads b c s t := by
  intro x at_s running
  exact ⟨[action], acts x at_s running⟩

end Leads

variable {b : Option Build}

/-! ### Requests and changes -/

theorem leads_look (s : Session) (x : Waiter) : Leads b b s (s.look x).1 := by
  unfold look
  split
  · exact .refl s
  · split
    · exact .refl s
    · next d found =>
      split
      · next reached =>
        split
        · exact .refl s
        · next aim =>
          refine .of_act (.report x.uri) fun y at_s running => ?_
          rw [aim] at reached
          rw [at_s.workspace] at found
          rw [Site.act, found]
          have validated : DocumentState.validated ≤ d.state := reached
          dsimp only
          rw [if_pos validated, ← at_s.reports]
          exact ⟨⟨at_s.workspace, rfl⟩, running⟩
      · split <;> exact .refl s

theorem leads_lookAll (waiters : List Waiter) (s : Session) :
    Leads b b s (lookAll waiters s).1 := by
  induction waiters generalizing s with
  | nil => exact .refl s
  | cons x rest ih =>
    rw [lookAll]
    split
    · exact (leads_look s x).trans (ih _)
    · exact ih s

theorem leads_poll (s : Session) : Leads b b s s.poll :=
  (leads_lookAll s.waiters s).trans (.of_same rfl rfl)

theorem leads_applyChange (s : Session) (uri : DocumentUri) (change : Change) :
    Leads b b s (s.applyChange uri change).1 := by
  unfold applyChange
  split
  · exact .refl s
  · next w what applied =>
    refine .of_act (.apply uri change) fun x at_s running => ?_
    rw [at_s.workspace] at applied
    rw [Site.act, applied]
    refine ⟨⟨rfl, ?_⟩, running⟩
    show s.reports.evict what.touched = x.reports.evict what.touched
    rw [at_s.reports]

theorem leads_stop (s : Session) : Leads b b s s.stop := by
  refine .of_act .shutdown fun x at_s running => ⟨⟨?_, at_s.reports⟩, running⟩
  show s.workspace.shutdown = x.workspace.shutdown
  rw [at_s.workspace]

theorem leads_runHook (s : Session) (phase : Phase) : Leads b b s (s.runHook phase) := by
  unfold runHook
  split
  · exact .refl s
  · dsimp only
    split
    · exact (leads_stop _).after rfl rfl
    · exact (leads_applyChange _ _ _).after rfl rfl

/-! ### Builds -/

/-- The build at its turn carries out a task. -/
theorem leads_step {build : Build} {s : Session} {w : Workspace} {outcome : BuildStep}
    (stepped : build.step s.workspace .never = (w, outcome)) :
    Leads (some build) outcome.next? s { s with workspace := w } := by
  refine .of_act (.step .never) fun x at_s running => ?_
  rw [Site.act, running]
  dsimp only
  rw [← at_s.workspace, stepped]
  exact ⟨⟨rfl, at_s.reports⟩, rfl⟩

/-- A build carries out its tasks until it ends, is stopped or is given up. -/
theorem leads_runSteps (fuel : Nat) (build : Build) (s : Session) :
    Leads (some build) none s (runSteps fuel build s).1 := by
  induction fuel generalizing build s with
  | zero => exact .of_act .abandon fun x at_s _ => ⟨⟨at_s.workspace, at_s.reports⟩, rfl⟩
  | succ fuel ih =>
    rw [runSteps]
    cases stepped : build.step s.workspace .never with
    | mk w outcome =>
      have first := leads_step stepped
      cases outcome with
      | continues next => exact first.trans ((leads_poll _).trans (ih next _))
      | ended phase uris next =>
        exact first.trans (((leads_runHook _ phase).trans (ih next _)).after rfl rfl)
      | cancelled => exact first
      | complete => exact first

theorem leads_rebuild (s : Session) (changed deleted : List DocumentUri) :
    Leads none none s (s.rebuild changed deleted).1 := by
  unfold rebuild
  split
  · exact .refl s
  · next w what begun =>
    refine Leads.trans ?_ (leads_runSteps _ (Build.start w w.generation) _)
    intro x at_s running
    -- the build waits for its turn, and gets it at once
    refine ⟨[.begin changed deleted, .start w.generation], ?_⟩
    rw [at_s.workspace] at begun
    rw [Site.run_begin_start running begun]
    refine ⟨⟨rfl, ?_⟩, rfl⟩
    show s.reports.evict what.touched = x.reports.evict what.touched
    rw [at_s.reports]

/-! ### Time -/

theorem leads_settlePending (s : Session) : Leads b b s s.settlePending := .of_same rfl rfl

theorem leads_fire (s : Session) (t : Timer) : Leads none none s (s.fire t) := by
  unfold fire
  split
  · exact (leads_rebuild s [] []).trans (leads_settlePending _)
  · exact leads_settlePending s

theorem leads_fires (timers : List Timer) (s : Session) :
    Leads none none s (timers.foldl fire s) := by
  induction timers generalizing s with
  | nil => exact .refl s
  | cons t rest ih => exact (leads_fire s t).trans (ih _)

theorem leads_advanceTo (s : Session) (instant : Nat) : Leads none none s (s.advanceTo instant) :=
  ((leads_fires _ _).trans (leads_poll _)).after rfl rfl

theorem leads_settle (s : Session) : Leads none none s s.settle := leads_advanceTo s s.clock

theorem leads_advanceWhile (goOn : Session → Nat → Bool) (fuel : Nat) (s : Session) :
    Leads none none s (advanceWhile goOn fuel s) := by
  induction fuel generalizing s with
  | zero => exact .refl s
  | succ fuel ih =>
    rw [advanceWhile]
    split
    · exact .refl s
    · split
      · exact (leads_advanceTo s _).trans (ih _)
      · exact .refl s

theorem leads_advance (s : Session) (goOn : Session → Nat → Bool) :
    Leads none none s (s.advance goOn) := leads_advanceWhile goOn _ s

/-! ### What may be asked of a session -/

theorem leads_apply (s : Session) (uri : DocumentUri) (change : Change) :
    Leads none none s (s.apply uri change).1 := by
  have changes := leads_applyChange (b := none) s uri change
  unfold Session.apply
  split
  · next s' e eq =>
    rw [eq] at changes
    exact changes.trans (leads_settle s')
  · next s' eq =>
    rw [eq] at changes
    exact changes.trans (leads_settle s')

theorem leads_update (s : Session) (changed deleted : List DocumentUri) :
    Leads none none s (s.update changed deleted).1 :=
  ((leads_rebuild _ changed deleted).trans
    ((leads_settlePending _).trans (leads_settle _))).after rfl rfl

theorem leads_schedule (s : Session) (ms : Nat) : Leads none none s (s.schedule ms) :=
  (leads_settle _).after rfl rfl

theorem leads_sleep (s : Session) (ms : Nat) : Leads none none s (s.sleep ms) :=
  (leads_advance s _).trans (leads_advanceTo _ _)

theorem leads_shutdown (s : Session) : Leads none none s s.shutdown :=
  (leads_stop s).trans (leads_settle _)

theorem leads_enlist (s : Session) (x : Waiter) : Leads b b s (s.enlist x) :=
  (leads_poll _).after rfl rfl

theorem leads_conclude (s : Session) (name : Option String) :
    Leads none none s (s.conclude name).1 :=
  (leads_advance s _).trans ((leads_settle _).after rfl rfl)

theorem leads_wait (s : Session) (uri : DocumentUri) (aim : Aim) (cancelAfter : Option Nat) :
    Leads none none s (s.wait uri aim cancelAfter).1 :=
  (leads_enlist s _).trans (leads_conclude _ none)

theorem leads_spawnWait (s : Session) (name : String) (uri : DocumentUri) (target : DocumentState)
    (cancelAfter : Option Nat) : Leads none none s (s.spawnWait name uri target cancelAfter) :=
  (leads_enlist s _).trans (leads_settle _)

theorem leads_join (s : Session) (name : String) : Leads none none s (s.join name).1 := by
  unfold join
  split
  · exact leads_conclude s _
  · exact leads_settle s

theorem leads_pull (s : Session) (uri : DocumentUri) (previous : Option String)
    (cancelAfter : Option Nat) : Leads none none s (s.pull uri previous cancelAfter).1 := by
  have waits := leads_wait s uri .report cancelAfter
  unfold pull
  split
  · exact leads_settle s
  · split <;> next eq =>
      rw [eq] at waits
      exact waits

/-- The sessions that come out of requests to a new one, under fixed options. -/
inductive Reachable (l : Language) (o : ValidationOptions) : Session → Prop where
  | opened : Reachable l o { workspace := { language := l, options := o } }
  | apply {s : Session} (uri : DocumentUri) (change : Change) (h : Reachable l o s) :
      Reachable l o (s.apply uri change).1
  | update {s : Session} (changed deleted : List DocumentUri) (h : Reachable l o s) :
      Reachable l o (s.update changed deleted).1
  | schedule {s : Session} (ms : Nat) (h : Reachable l o s) : Reachable l o (s.schedule ms)
  | sleep {s : Session} (ms : Nat) (h : Reachable l o s) : Reachable l o (s.sleep ms)
  | shutdown {s : Session} (h : Reachable l o s) : Reachable l o s.shutdown
  | addHook {s : Session} (hook : Hook) (h : Reachable l o s) : Reachable l o (s.addHook hook)
  | wait {s : Session} (uri : DocumentUri) (aim : Aim) (cancelAfter : Option Nat)
      (h : Reachable l o s) : Reachable l o (s.wait uri aim cancelAfter).1
  | spawnWait {s : Session} (name : String) (uri : DocumentUri) (target : DocumentState)
      (cancelAfter : Option Nat) (h : Reachable l o s) :
      Reachable l o (s.spawnWait name uri target cancelAfter)
  | join {s : Session} (name : String) (h : Reachable l o s) : Reachable l o (s.join name).1
  | pull {s : Session} (uri : DocumentUri) (previous : Option String) (cancelAfter : Option Nat)
      (h : Reachable l o s) : Reachable l o (s.pull uri previous cancelAfter).1
  | takeEvents {s : Session} (h : Reachable l o s) : Reachable l o s.takeEvents.1

namespace Reachable

variable {l : Language} {o : ValidationOptions} {s : Session}

theorem leads (h : Reachable l o s) :
    Leads none none { workspace := { language := l, options := o } } s := by
  induction h with
  | opened => exact .refl _
  | apply uri change _ ih => exact ih.trans (leads_apply _ uri change)
  | update changed deleted _ ih => exact ih.trans (leads_update _ changed deleted)
  | schedule ms _ ih => exact ih.trans (leads_schedule _ ms)
  | sleep ms _ ih => exact ih.trans (leads_sleep _ ms)
  | shutdown _ ih => exact ih.trans (leads_shutdown _)
  | addHook hook _ ih => exact ih.trans (.of_same rfl rfl)
  | wait uri aim cancelAfter _ ih => exact ih.trans (leads_wait _ uri aim cancelAfter)
  | spawnWait name uri target cancelAfter _ ih =>
    exact ih.trans (leads_spawnWait _ name uri target cancelAfter)
  | join name _ ih => exact ih.trans (leads_join _ name)
  | pull uri previous cancelAfter _ ih => exact ih.trans (leads_pull _ uri previous cancelAfter)
  | takeEvents _ ih => exact ih.trans (.of_same rfl rfl)

/-- Every session is at a site that some run leads to. -/
theorem exists_run (h : Reachable l o s) : ∃ actions, s.At ((Site.opened l o).run actions) := by
  obtain ⟨actions, at_s, -⟩ := h.leads (Site.opened l o) ⟨rfl, rfl⟩ rfl
  exact ⟨actions, at_s⟩

/-- The workspace of every session is sound. -/
theorem sound (h : Reachable l o s) : s.workspace.Sound l o := by
  obtain ⟨actions, at_s⟩ := h.exists_run
  rw [at_s.workspace]
  exact (Site.sound_run l o actions).workspace

/-- A request that is told that nothing has changed has named the kept report of a validated document,
which tells what the document has now. -/
theorem unchanged (h : Reachable l o s) {uri : DocumentUri} {previous : Option String}
    {cancelAfter : Option Nat} {id : String}
    (pulled : (s.pull uri previous cancelAfter).2 = .ok (.unchanged id)) :
    previous = some id ∧ ∃ d report, s.workspace.documents.get? uri = some d ∧
      d.state = .validated ∧ s.reports.cached.get? uri = some report ∧ report.id = id ∧
      report.items = d.editorDiagnostics uri := by
  obtain ⟨actions, at_s⟩ := h.exists_run
  have current := (Site.reported_run l o actions).current uri
  rw [← at_s.workspace, ← at_s.reports] at current
  unfold Session.pull at pulled
  split at pulled
  · next report cached =>
    obtain ⟨d, found, validated, items⟩ := current report cached
    simp only [ReportAnswer.of, Except.ok.injEq] at pulled
    split at pulled
    · next named =>
      cases pulled
      exact ⟨named, d, report, found, validated, cached, rfl, items⟩
    · cases pulled
  · split at pulled <;> cases pulled

end Reachable

end Session

end Workbench
