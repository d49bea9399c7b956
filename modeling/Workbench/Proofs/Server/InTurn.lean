import Workbench.Proofs.Server.Desk

/-!
**Servers that do one thing after another.**

A server carries out what is asked of it at one go: a handler ends before the next one starts, and a
build before anything else happens. That is one order of moves among those possible at a desk, so what
holds after every run of a desk holds of a server: once no build is pending, every document is
validated. And no build is pending when the editor has been quiet for as long as a change waits for
others to follow.
-/

namespace Workbench

namespace Session

/-- Sessions that differ at most in their requests, their reports and what listeners have heard. -/
structure Alike (s t : Session) : Prop where
  workspace : t.workspace = s.workspace
  clock : t.clock = s.clock
  timers : t.timers = s.timers
  ticket : t.ticket = s.ticket
  pending : t.pending = s.pending
  hooks : t.hooks = s.hooks

/-- What a build leaves as it is. -/
structure Spared (s t : Session) : Prop where
  clock : t.clock = s.clock
  timers : t.timers = s.timers
  hooks : t.hooks = s.hooks

/-- Every scheduled build is due later, but within `ms`. -/
def Timed (ms : Nat) (s : Session) : Prop :=
  ∀ t ∈ s.timers, s.clock < t.due ∧ t.due ≤ s.clock + ms

variable {s t u : Session}

namespace Alike

theorem refl (s : Session) : Alike s s := ⟨rfl, rfl, rfl, rfl, rfl, rfl⟩

theorem trans (h : Alike s t) (h' : Alike t u) : Alike s u where
  workspace := h'.workspace.trans h.workspace
  clock := h'.clock.trans h.clock
  timers := h'.timers.trans h.timers
  ticket := h'.ticket.trans h.ticket
  pending := h'.pending.trans h.pending
  hooks := h'.hooks.trans h.hooks

theorem spared (h : Alike s t) : Spared s t := ⟨h.clock, h.timers, h.hooks⟩

theorem withWorkspace {w : Workspace} (h : Alike { s with workspace := w } t) (w' : Workspace) :
    Alike { s with workspace := w' } { t with workspace := w' } :=
  ⟨rfl, h.clock, h.timers, h.ticket, h.pending, h.hooks⟩

end Alike

namespace Spared

theorem trans (h : Spared s t) (h' : Spared t u) : Spared s u :=
  ⟨h'.clock.trans h.clock, h'.timers.trans h.timers, h'.hooks.trans h.hooks⟩

theorem timed {ms : Nat} (h : Spared s t) (timed : s.Timed ms) : t.Timed ms := by
  unfold Timed
  rw [h.clock, h.timers]
  exact timed

end Spared

theorem alike_look (s : Session) (x : Waiter) : Alike s (s.look x).1 := by
  unfold Session.look
  split
  · exact .refl s
  · split
    · exact .refl s
    · split
      · split
        · exact .refl s
        · exact ⟨rfl, rfl, rfl, rfl, rfl, rfl⟩
      · split <;> exact .refl s

theorem alike_lookAll (waiters : List Waiter) (s : Session) : Alike s (lookAll waiters s).1 := by
  induction waiters generalizing s with
  | nil => exact .refl s
  | cons x rest ih =>
    unfold lookAll
    split
    · exact (alike_look s x).trans (ih _)
    · exact ih s

theorem alike_poll (s : Session) : Alike s s.poll := by
  obtain ⟨workspace, clock, timers, ticket, pending, hooks⟩ := alike_lookAll s.waiters s
  exact ⟨workspace, clock, timers, ticket, pending, hooks⟩

theorem alike_takeEvents (s : Session) : Alike s s.takeEvents.1 := ⟨rfl, rfl, rfl, rfl, rfl, rfl⟩

theorem alike_runHook (unhooked : s.hooks = []) (phase : Phase) : Alike s (s.runHook phase) := by
  unfold Session.runHook
  rw [unhooked]
  exact .refl s

/-- Where every scheduled build is due later, settling only answers requests. -/
theorem alike_settle {ms : Nat} (timed : s.Timed ms) : Alike s s.settle := by
  have none : s.timers.filter (·.due ≤ s.clock) = [] := by
    rw [List.filter_eq_nil_iff]
    intro t mem
    have later := (timed t mem).1
    simp only [decide_eq_true_eq]
    omega
  have all : s.timers.filter (s.clock < ·.due) = s.timers := by
    rw [List.filter_eq_self]
    intro t mem
    exact decide_eq_true (timed t mem).1
  unfold Session.settle advanceTo dueTimers
  dsimp only
  rw [none, all, List.mergeSort_nil]
  refine .trans ?_ (alike_poll _)
  exact ⟨rfl, rfl, rfl, rfl, rfl, rfl⟩

theorem spared_applyChange (s : Session) (uri : DocumentUri) (change : Change) :
    Spared s (s.applyChange uri change).1 := by
  unfold applyChange
  split
  · exact (Alike.refl s).spared
  · exact ⟨rfl, rfl, rfl⟩

end Session

namespace Desk

/-- A desk is where a session is, between two requests: nothing but timers is under way. The tickets
`due` are those of timers that the session has taken out already. -/
structure At (settings : Settings) (due : List Nat) (d : Desk) (s : Session) : Prop where
  settings : d.settings = settings
  workspace : d.site.workspace = s.workspace
  waiting : d.site.waiting = []
  running : d.site.running = none
  ticket : d.ticket = s.ticket
  pending : d.pending = s.pending
  timers : d.timers.Perm (due ++ s.timers.map (·.ticket))
  builds : d.builds = []
  watching : d.watching = []
  telling : d.telling = 0

theorem run_append (d : Desk) (first rest : List Move) :
    d.run (first ++ rest) = (d.run first).run rest := List.foldl_append

variable {settings : Settings} {due : List Nat} {d : Desk} {s t : Session}

theorem At.alike (h : d.At settings due s) (alike : s.Alike t) : d.At settings due t :=
  { h with
    workspace := h.workspace.trans alike.workspace.symm
    ticket := h.ticket.trans alike.ticket.symm
    pending := h.pending.trans alike.pending.symm
    timers := by rw [alike.timers]; exact h.timers }

/-! ### Builds -/

/-- A build that has its turn and has carried out a task goes on. -/
theorem move_step_continues {b next : Build} {w : Workspace} {outcome : BuildStep}
    (turn : d.site.running = some b) (stepped : b.step d.site.workspace .never = (w, outcome))
    (continues : outcome.next? = some next) :
    d.move .step = { d with site := { d.site with workspace := w, running := some next } } := by
  simp [move, turn, Site.act, stepped, continues]

/-- The only build on its way is over. -/
theorem move_step_ends {b : Build} {w : Workspace} {outcome : BuildStep} {caller : Caller}
    (turn : d.site.running = some b) (builds : d.builds = [(b.generation, caller)])
    (stepped : b.step d.site.workspace .never = (w, outcome)) (ends : outcome.next? = none) :
    d.move .step = Desk.finish { d with
      site := { d.site with workspace := w, running := none }, builds := [] } caller := by
  simp [move, turn, Site.act, stepped, ends, builds]

/-- A build that has its turn is carried out as in a session, task after task until it is over. -/
theorem run_build (fuel : Nat) {b : Build} (caller : Caller) (unhooked : s.hooks = [])
    (enough : b.agenda.length = fuel) (workspace : d.site.workspace = s.workspace)
    (turn : d.site.running = some b) (builds : d.builds = [(b.generation, caller)]) :
    ∃ w, Session.Alike { s with workspace := w } (Session.runSteps fuel b s).1 ∧
      ∃ moves, d.run moves = Desk.finish { d with
        site := { d.site with workspace := w, running := none }, builds := [] } caller := by
  induction fuel generalizing b d s with
  | zero =>
    have done := List.length_eq_zero_iff.1 enough
    have stepped : b.step d.site.workspace .never = (s.workspace, .complete) := by
      rw [Build.step, done, workspace]
    exact ⟨s.workspace, .refl s, [.step], move_step_ends turn builds stepped rfl⟩
  | succ fuel ih =>
    cases stepped : b.step s.workspace .never with
    | mk w outcome =>
      have stepped' : b.step d.site.workspace .never = (w, outcome) := by rw [workspace, stepped]
      -- a build that goes on has one task less
      have goes : ∀ {next : Build} {t : Session}, outcome.next? = some next →
          Session.Alike { s with workspace := w } t →
          ∃ w, Session.Alike { s with workspace := w } (Session.runSteps fuel next t).1 ∧
            ∃ moves, d.run moves = Desk.finish { d with
              site := { d.site with workspace := w, running := none }, builds := [] } caller := by
        intro next t continues alike
        have length := Build.length_agenda_step stepped continues
        have moved := move_step_continues turn stepped' continues
        obtain ⟨w', alike', moves, ran⟩ := ih (b := next) (s := t)
          (d := { d with site := { d.site with workspace := w, running := some next } })
          (alike.hooks.trans unhooked) (by omega) alike.workspace.symm rfl
          (by rw [Build.generation_step stepped continues]; exact builds)
        refine ⟨w', (alike.withWorkspace w').trans alike', .step :: moves, ?_⟩
        show (d.move .step).run moves = _
        rw [moved, ran]
      rw [Session.runSteps, stepped]
      cases outcome with
      | continues next => exact goes rfl (Session.alike_poll _)
      | ended phase uris next =>
        refine goes rfl (.trans ?_ (Session.alike_runHook ?_ phase))
        · exact ⟨rfl, rfl, rfl, rfl, rfl, rfl⟩
        · exact unhooked
      | cancelled => exact ⟨w, .refl _, [.step], move_step_ends turn builds stepped' rfl⟩
      | complete => exact ⟨w, .refl _, [.step], move_step_ends turn builds stepped' rfl⟩

/-- A build that is over is counted no more. What its handler tells is taken. -/
theorem At.finish (h : d.At settings due s) (caller : Caller) :
    ∃ moves, ((d.finish caller).run moves).At settings due s.settlePending := by
  have pending : d.pending - 1 = s.pending - 1 := by rw [h.pending]
  by_cases closing : caller = .closing
  · refine ⟨[.told], ?_⟩
    subst closing
    exact { h with pending, telling := congrArg (· + 1 - 1) h.telling }
  · refine ⟨[], ?_⟩
    show At settings due (d.finish caller) _
    rw [Desk.finish, if_neg closing]
    exact { h with pending }

/-- A build that begins gets its turn, where no other build is on its way. -/
theorem At.begin_start (h : d.At settings due s) {deleted : List DocumentUri} {w : Workspace}
    {what : Invalidation} (up : s.workspace.shutDown = false)
    (begun : s.workspace.begin [] deleted = .ok (w, what)) (caller : Caller) :
    (d.begin deleted caller).run [.start w.generation] =
      { d with
        site := { d.site.takeOver w what with running := some (Build.start w w.generation) }
        builds := [(w.generation, caller)] } := by
  rw [← h.workspace] at up begun
  have generation : d.site.workspace.generation + 1 = w.generation := by
    obtain ⟨v, rfl, rfl, -⟩ := d.site.workspace.begin_cases [] deleted begun
    rfl
  have started := Site.run_begin_start h.running begun
  rw [h.waiting, List.nil_append, List.erase_cons_head, ← h.waiting] at started
  rw [Desk.begin, if_neg (by rw [up]; exact Bool.false_ne_true), h.builds, generation]
  exact congrArg (fun site => { d with site, builds := [(w.generation, caller)] }) started

/-- A build that begins gets its turn and is carried out. -/
theorem At.begin (h : d.At settings due s) (unhooked : s.hooks = []) (deleted : List DocumentUri)
    (caller : Caller) :
    (∃ moves, ((d.begin deleted caller).run moves).At settings due
      (s.rebuild [] deleted).1.settlePending) ∧
      Session.Spared s (s.rebuild [] deleted).1.settlePending := by
  cases up : s.workspace.shutDown with
  | true =>
    have refused : s.workspace.begin [] deleted = .error .cancelled := by
      rw [Workspace.begin, if_pos up]
    rw [Session.rebuild, refused, Desk.begin, if_pos (by rw [h.workspace, up])]
    exact ⟨h.finish caller, rfl, rfl, rfl⟩
  | false =>
    obtain ⟨w, what, begun⟩ : ∃ w what, s.workspace.begin [] deleted = .ok (w, what) := by
      rw [Workspace.begin, if_neg (by rw [up]; exact Bool.false_ne_true)]
      exact ⟨_, _, rfl⟩
    let e : Desk := { d with
      site := { d.site.takeOver w what with running := some (Build.start w w.generation) }
      builds := [(w.generation, caller)] }
    have started : (d.begin deleted caller).run [.start w.generation] = e :=
      h.begin_start up begun caller
    obtain ⟨w', alike, moves, ran⟩ := run_build (s := s.takeOver w what) (d := e) _ caller unhooked
      rfl rfl rfl rfl
    have there : At settings due
        { e with site := { e.site with workspace := w', running := none }, builds := [] }
        { s.takeOver w what with workspace := w' } :=
      { h with workspace := rfl, running := rfl, builds := rfl }
    obtain ⟨rest, last⟩ := (there.alike alike).finish caller
    rw [Session.rebuild, begun]
    refine ⟨⟨[.start w.generation] ++ (moves ++ rest), ?_⟩, alike.clock, alike.timers, alike.hooks⟩
    rw [run_append, started, run_append, ran]
    exact last

/-! ### Time -/

/-- A timer fires that the session has taken out. -/
theorem At.fire {t : Timer} (h : d.At settings (t.ticket :: due) s) (unhooked : s.hooks = []) :
    (∃ moves, (d.run moves).At settings due (s.fire t)) ∧ Session.Spared s (s.fire t) := by
  have sleeps : d.timers.contains t.ticket = true := by
    rw [List.contains_eq_mem, decide_eq_true_eq, h.timers.mem_iff]
    exact List.mem_cons_self
  have timers : (d.timers.erase t.ticket).Perm (due ++ s.timers.map (·.ticket)) := by
    have erased := h.timers.erase t.ticket
    rwa [List.cons_append, List.erase_cons_head] at erased
  have left : At settings due { d with timers := d.timers.erase t.ticket } s := { h with timers }
  have fires : d.move (.fires t.ticket) =
      if t.ticket = s.ticket then Desk.begin { d with timers := d.timers.erase t.ticket } [] .timer
      else Desk.finish { d with timers := d.timers.erase t.ticket } .timer := by
    rw [move, if_pos sleeps, ← h.ticket]
  unfold Session.fire
  split
  · next last =>
    obtain ⟨⟨moves, there⟩, spared⟩ := left.begin unhooked [] .timer
    rw [if_pos last] at fires
    rw [← fires] at there
    exact ⟨⟨.fires t.ticket :: moves, there⟩, spared⟩
  · next late =>
    obtain ⟨moves, there⟩ := left.finish .timer
    rw [if_neg late] at fires
    rw [← fires] at there
    exact ⟨⟨.fires t.ticket :: moves, there⟩, rfl, rfl, rfl⟩

theorem At.fires {timers : List Timer} (h : d.At settings (timers.map (·.ticket)) s)
    (unhooked : s.hooks = []) :
    (∃ moves, (d.run moves).At settings [] (timers.foldl Session.fire s)) ∧
      Session.Spared s (timers.foldl Session.fire s) := by
  induction timers generalizing d s with
  | nil => exact ⟨⟨[], h⟩, rfl, rfl, rfl⟩
  | cons t rest ih =>
    obtain ⟨⟨first, there⟩, spared⟩ := At.fire h unhooked
    obtain ⟨⟨moves, last⟩, spared'⟩ := ih there (spared.hooks.trans unhooked)
    exact ⟨⟨first ++ moves, by rw [run_append]; exact last⟩, spared.trans spared'⟩

/-- Moves lead a desk to where a session is, in which nothing is due. -/
structure Reaches (settings : Settings) (d : Desk) (s : Session) : Prop where
  moves : ∃ moves, (d.run moves).At settings [] s
  hooks : s.hooks = []
  timed : s.Timed settings.debounceMs

namespace Reaches

theorem after {first : List Move} (h : Reaches settings (d.run first) s) : Reaches settings d s := by
  obtain ⟨rest, there⟩ := h.moves
  exact ⟨⟨first ++ rest, by rw [run_append]; exact there⟩, h.hooks, h.timed⟩

theorem after_move {m : Move} (h : Reaches settings (d.move m) s) : Reaches settings d s := by
  obtain ⟨rest, there⟩ := h.moves
  exact ⟨⟨m :: rest, there⟩, h.hooks, h.timed⟩

theorem alike (h : Reaches settings d s) (alike : s.Alike t) : Reaches settings d t := by
  obtain ⟨moves, there⟩ := h.moves
  exact ⟨⟨moves, there.alike alike⟩, alike.hooks.trans h.hooks, alike.spared.timed h.timed⟩

end Reaches

/-- The clock moves to an instant, and all that is due then is done. -/
theorem At.advanceTo (h : d.At settings [] s) (unhooked : s.hooks = [])
    (soon : ∀ t ∈ s.timers, t.due ≤ s.clock + settings.debounceMs) {instant : Nat}
    (later : s.clock ≤ instant) :
    Reaches settings d (s.advanceTo instant) ∧ (s.advanceTo instant).clock = instant ∧
      (s.advanceTo instant).timers ⊆ s.timers := by
  unfold Session.advanceTo Session.dueTimers
  dsimp only
  generalize s.waiters.map _ = waiters
  generalize same : (s.timers.filter (·.due ≤ instant)).mergeSort (fun a b => a.due ≤ b.due) = taken
  have timers : (s.timers.map (·.ticket)).Perm
      (taken.map (·.ticket) ++ (s.timers.filter (instant < ·.due)).map (·.ticket)) := by
    have parts := (List.filter_append_perm (fun t : Timer => decide (t.due ≤ instant)) s.timers).symm
    have late : (s.timers.filter fun t => !decide (t.due ≤ instant)) =
        s.timers.filter (instant < ·.due) := by
      refine List.filter_congr fun t _ => ?_
      rw [← decide_not]
      exact decide_eq_decide.2 Nat.not_le
    rw [late] at parts
    rw [← List.map_append, ← same]
    exact (parts.trans ((List.mergeSort_perm _ _).symm.append_right _)).map _
  have there : d.At settings (taken.map (·.ticket)) { s with
      clock := instant, waiters, timers := s.timers.filter (instant < ·.due) } :=
    { h with timers := h.timers.trans timers }
  obtain ⟨moves, spared⟩ := there.fires unhooked
  have polled := Session.alike_poll (taken.foldl Session.fire { s with
    clock := instant, waiters, timers := s.timers.filter (instant < ·.due) })
  refine ⟨.alike ⟨moves, spared.hooks.trans unhooked, spared.timed fun t mem => ?_⟩ polled,
    polled.clock.trans spared.clock, ?_⟩
  · obtain ⟨mem, late⟩ := List.mem_filter.1 mem
    have bound := soon t mem
    exact ⟨of_decide_eq_true late, by dsimp only; omega⟩
  · rw [polled.timers, spared.timers]
    exact List.filter_subset_self _

namespace Reaches

theorem advanceTo (h : Reaches settings d s) {instant : Nat} (later : s.clock ≤ instant) :
    Reaches settings d (s.advanceTo instant) ∧ (s.advanceTo instant).clock = instant ∧
      (s.advanceTo instant).timers ⊆ s.timers := by
  obtain ⟨⟨moves, there⟩, unhooked, timed⟩ := h
  obtain ⟨reaches, after⟩ := there.advanceTo unhooked (fun t mem => (timed t mem).2) later
  exact ⟨reaches.after, after⟩

theorem settle (h : Reaches settings d s) : Reaches settings d s.settle :=
  h.alike (Session.alike_settle h.timed)

/-- The clock goes no further than it may. -/
theorem advanceWhile (h : Reaches settings d s) (goOn : Session → Nat → Bool) (fuel : Nat) :
    Reaches settings d (Session.advanceWhile goOn fuel s) ∧
      (Session.advanceWhile goOn fuel s).timers ⊆ s.timers ∧
      ∀ last, s.clock ≤ last → (∀ t instant, goOn t instant = true → instant ≤ last) →
        (Session.advanceWhile goOn fuel s).clock ≤ last := by
  induction fuel generalizing s with
  | zero => exact ⟨h, List.Subset.refl _, fun last early _ => early⟩
  | succ fuel ih =>
    rw [Session.advanceWhile]
    split
    · exact ⟨h, List.Subset.refl _, fun last early _ => early⟩
    · next instant _ =>
      split
      · next goes =>
        obtain ⟨reaches, clock, timers⟩ := h.advanceTo (Nat.le_max_left s.clock instant)
        obtain ⟨reaches', timers', bound⟩ := ih reaches
        refine ⟨reaches', List.Subset.trans timers' timers, fun last early limit => bound last ?_ limit⟩
        rw [clock]
        exact Nat.max_le.2 ⟨early, limit _ _ goes⟩
      · exact ⟨h, List.Subset.refl _, fun last early _ => early⟩

theorem sleep (h : Reaches settings d s) (ms : Nat) :
    Reaches settings d (s.sleep ms) ∧ (s.sleep ms).clock = s.clock + ms ∧
      (s.sleep ms).timers ⊆ s.timers := by
  obtain ⟨reaches, timers, bound⟩ := h.advanceWhile (fun _ instant => instant ≤ s.clock + ms)
    (s.instants.length + 1)
  have early := bound _ (Nat.le_add_right _ ms) fun _ instant early => of_decide_eq_true early
  obtain ⟨reaches', clock, timers'⟩ := reaches.advanceTo early
  exact ⟨reaches', clock, List.Subset.trans timers' timers⟩

theorem conclude (h : Reaches settings d s) (name : Option String) :
    Reaches settings d (s.conclude name).1 := by
  obtain ⟨reaches, -⟩ := h.advanceWhile (fun s _ => (s.answerOf name).isNone)
    (s.instants.length + 1)
  refine settle (reaches.alike ?_)
  exact ⟨rfl, rfl, rfl, rfl, rfl, rfl⟩

theorem enlist (h : Reaches settings d s) (x : Waiter) : Reaches settings d (s.enlist x) := by
  refine h.alike (.trans ?_ (Session.alike_poll _))
  exact ⟨rfl, rfl, rfl, rfl, rfl, rfl⟩

theorem pull (h : Reaches settings d s) (uri : DocumentUri) (previous : Option String)
    (cancelAfter : Option Nat) : Reaches settings d (s.pull uri previous cancelAfter).1 := by
  have waited : Reaches settings d (s.wait uri .report cancelAfter).1 := (h.enlist _).conclude none
  unfold Session.pull
  split
  · exact h.settle
  · split <;> next eq => rw [eq] at waited; exact waited

end Reaches

theorem At.schedule (h : d.At settings [] s) (unhooked : s.hooks = [])
    (timed : s.Timed settings.debounceMs) :
    Reaches settings d.schedule (s.schedule settings.debounceMs) := by
  have there : d.schedule.At settings [] { s with
      ticket := s.ticket + 1
      pending := s.pending + 1
      timers := s.timers ++ [{ due := s.clock + settings.debounceMs, ticket := s.ticket + 1 }] } := by
    refine { h with
      ticket := congrArg (· + 1) h.ticket, pending := congrArg (· + 1) h.pending, timers := ?_ }
    show (d.timers ++ [d.ticket + 1]).Perm ((s.timers ++ _).map (·.ticket))
    rw [List.map_append, h.ticket]
    exact h.timers.append_right _
  refine (there.advanceTo unhooked (fun t mem => ?_) (Nat.le_refl _)).1
  rcases List.mem_append.1 mem with mem | mem
  · exact (timed t mem).2
  · exact Nat.le_of_eq (congrArg Timer.due (List.mem_singleton.1 mem))

/-! ### Changes and updates -/

/-- Where nothing is due, all that a request to change a text does is to change it. -/
theorem At.apply (h : d.At settings [] s) {ms : Nat} (timed : s.Timed ms) (uri : DocumentUri)
    (change : Change) :
    (d.apply uri change).At settings [] (s.apply uri change).1 ∧
      Session.Spared s (s.apply uri change).1 := by
  have alike : Session.Alike (s.applyChange uri change).1 (s.apply uri change).1 := by
    have timed' := (Session.spared_applyChange s uri change).timed timed
    unfold Session.apply
    split <;> next eq => rw [eq] at timed' ⊢; exact Session.alike_settle timed'
  refine ⟨.alike ?_ alike, (Session.spared_applyChange s uri change).trans alike.spared⟩
  unfold Desk.apply Session.applyChange
  rw [Site.act, h.workspace]
  split
  · next w what applied =>
    rw [applied]
    exact { h with workspace := rfl }
  · next e refused =>
    rw [refused]
    exact { h with }

theorem At.update (h : d.At settings [] s) (unhooked : s.hooks = [])
    (timed : s.Timed settings.debounceMs) (deleted : List DocumentUri) (caller : Caller) :
    Reaches settings (d.rebuild deleted caller) (s.update [] deleted).1 := by
  have counted : At settings [] { d with pending := d.pending + 1 }
      { s with pending := s.pending + 1 } := { h with pending := congrArg (· + 1) h.pending }
  obtain ⟨moves, spared⟩ := counted.begin unhooked deleted caller
  exact Reaches.settle ⟨moves, spared.hooks.trans unhooked, spared.timed timed⟩

/-- A change is made where a desk accepts it, and refused otherwise. -/
theorem At.apply_cases (h : d.At settings [] s) {ms : Nat} (timed : s.Timed ms) (uri : DocumentUri)
    (change : Change) :
    (d.accepts uri change = true ∧ ∃ n, (s.apply uri change).2 = .ok n) ∨
      d.accepts uri change = false ∧ (∃ e, (s.apply uri change).2 = .error e) ∧
        s.Alike (s.apply uri change).1 := by
  unfold accepts
  rw [h.workspace]
  cases changed : Workspace.changed? (s.workspace.documents.get? uri) change with
  | none =>
    have refused : s.applyChange uri change = (s, .error .documentNotFound) := by
      unfold Session.applyChange Workspace.apply
      rw [changed]
    unfold Session.apply
    rw [refused]
    exact .inr ⟨rfl, ⟨_, rfl⟩, Session.alike_settle timed⟩
  | some doc =>
    refine .inl ⟨rfl, ?_⟩
    unfold Session.apply Session.applyChange Workspace.apply
    rw [changed]
    exact ⟨_, rfl⟩

/-! ### Files -/

variable {r : Server.Reloading}

/-- What a server has made of the files at which it has looked is what a handler at a desk has made of
them. -/
structure Looks (settings : Settings) (d : Desk) (r : Server.Reloading) : Prop where
  same : r.server.settings = settings
  there : d.At settings [] r.server.session
  hooks : r.server.session.hooks = []
  timed : r.server.session.Timed settings.debounceMs

/-- The text of a document is changed by a server. -/
theorem At.change {v : Server} (h : d.At v.settings [] v.session) {ms : Nat} (timed : v.session.Timed ms)
    (uri : DocumentUri) (change : Change) :
    (d.apply uri change).At v.settings [] (v.apply uri change).1.session ∧
      Session.Spared v.session (v.apply uri change).1.session := by
  obtain ⟨there, spared⟩ := h.apply timed uri change
  exact ⟨there.alike (Session.alike_takeEvents _),
    spared.trans (Session.alike_takeEvents _).spared⟩

theorem At.isTooLarge_eq {v : Server} (h : d.At v.settings due v.session) (text : String) :
    d.isTooLarge text = v.isTooLarge text := by
  unfold Desk.isTooLarge Server.isTooLarge
  rw [h.settings]

theorem At.versionOf_eq {v : Server} (h : d.At settings due v.session) (uri : DocumentUri) :
    d.versionOf uri = v.versionOf uri := by
  unfold Desk.versionOf Server.versionOf
  rw [h.workspace]

/-- The handler with the turn looks at the file of its next event. -/
theorem Looks.step (h : Looks settings d r) (url : Url) (event : FileEvent)
    (events : List (Url × FileEvent)) :
    let r' := Server.reload r url event
    ∃ e, Looks settings e r' ∧
      Desk.move { d with watching := [⟨(url, event) :: events, r.reloaded, r.deleted⟩] }
        (.look 0 (r.server.read? url)) =
          { e with watching := [⟨events, r'.reloaded, r'.deleted⟩] } := by
  obtain ⟨rfl, there, hooks, timed⟩ := h
  cases event with
  | deleted =>
    refine ⟨d, ?_⟩
    simp only [Server.reload, move, Desk.look, List.getElem?_cons_zero]
    rw [there.workspace]
    split
    · exact ⟨⟨rfl, there, hooks, timed⟩, rfl⟩
    · exact ⟨⟨rfl, there, hooks, timed⟩, rfl⟩
  | written =>
    simp only [Server.reload, move, Desk.look, List.getElem?_cons_zero]
    rw [there.workspace]
    split
    · cases r.server.read? url with
      | none => exact ⟨d, ⟨rfl, there, hooks, timed⟩, rfl⟩
      | some text =>
        dsimp only
        have large : Desk.isTooLarge { d with
            watching := [⟨(url, .written) :: events, r.reloaded, r.deleted⟩] } text =
              r.server.isTooLarge text := there.isTooLarge_eq text
        rw [large]
        split
        · exact ⟨d, ⟨rfl, there, hooks, timed⟩, rfl⟩
        · obtain ⟨there', spared⟩ := there.change timed url.uri
            (.set (r.server.versionOf url.uri) text)
          refine ⟨_, ⟨rfl, there', spared.hooks.trans hooks, spared.timed timed⟩, ?_⟩
          rw [← there.versionOf_eq]
          rfl
    · exact ⟨d, ⟨rfl, there, hooks, timed⟩, rfl⟩

theorem Looks.run (h : Looks settings d r) (events : List (Url × FileEvent)) :
    let r' := events.foldl (fun r (url, e) => Server.reload r url e) r
    ∃ e moves, Looks settings e r' ∧
      Desk.run { d with watching := [⟨events, r.reloaded, r.deleted⟩] } moves =
        { e with watching := [⟨[], r'.reloaded, r'.deleted⟩] } := by
  induction events generalizing d r with
  | nil => exact ⟨d, [], h, rfl⟩
  | cons x rest ih =>
    obtain ⟨url, event⟩ := x
    obtain ⟨e, looks, moved⟩ := h.step url event rest
    obtain ⟨e', moves, looks', ran⟩ := ih looks
    refine ⟨e', .look 0 (r.server.read? url) :: moves, looks', ?_⟩
    show Desk.run (Desk.move _ _) moves = _
    rw [moved]
    exact ran

end Desk

/-! ### Servers -/

namespace Server

open Desk

/-- The desk of a server before anything has happened. -/
def desk (s : Server) : Desk := .opened DomainModel.language s.settings

/-- Some moves at its desk lead to where a server is. -/
def InTurn (s : Server) : Prop := Reaches s.settings s.desk s.session

theorem inTurn_start (options : Option OptionValue) : (start options).InTurn :=
  ⟨⟨[], rfl, rfl, rfl, rfl, rfl, rfl, .nil, rfl, rfl, rfl⟩, rfl, nofun⟩

namespace InTurn

variable {s : Server}

/-- A server rebuilds its workspace in a move of a handler. -/
theorem rebuild {moves : List Move} (there : (s.desk.run moves).At s.settings [] s.session)
    (unhooked : s.session.hooks = []) (timed : s.session.Timed s.settings.debounceMs) (m : Move)
    (deleted : List DocumentUri) (caller : Caller)
    (does : (s.desk.run moves).move m = (s.desk.run moves).rebuild deleted caller) :
    (s.rebuild deleted).InTurn := by
  have rebuilt := there.update unhooked timed deleted caller
  rw [← does] at rebuilt
  exact rebuilt.after_move.after.alike (Session.alike_takeEvents _)

/-- A server changes a text and rebuilds its workspace in a move of a handler. -/
theorem replace {moves : List Move} (there : (s.desk.run moves).At s.settings [] s.session)
    (unhooked : s.session.hooks = []) (timed : s.session.Timed s.settings.debounceMs) (m : Move)
    (uri : DocumentUri) (change : Change)
    (does : (s.desk.run moves).move m = ((s.desk.run moves).apply uri change).rebuild [] .handler) :
    ((s.apply uri change).1.rebuild []).InTurn := by
  obtain ⟨changed, spared⟩ := there.change timed uri change
  have rebuilt := changed.update (spared.hooks.trans unhooked) (spared.timed timed) [] .handler
  rw [← does] at rebuilt
  exact rebuilt.after_move.after.alike (Session.alike_takeEvents _)

theorem opened (h : s.InTurn) (url : Url) (version : Int) (text : String) :
    (s.opened url version text).InTurn := by
  obtain ⟨⟨moves, there⟩, unhooked, timed⟩ := h
  have large := there.isTooLarge_eq text
  unfold Server.opened
  split
  · exact ⟨⟨moves, there⟩, unhooked, timed⟩
  · next fits =>
    refine replace there unhooked timed (.opened url version text) url.uri _ ?_
    rw [Desk.move, large, if_neg fits]

theorem changed (h : s.InTurn) (url : Url) (version : Int) (edits : List Text.Edit) :
    (s.changed url version edits).InTurn := by
  obtain ⟨⟨moves, there⟩, unhooked, timed⟩ := h
  have applied : ∀ {outcome}, (s.session.apply url.uri (.edit version edits)).2 = outcome →
      s.apply url.uri (.edit version edits) = ((s.apply url.uri (.edit version edits)).1, outcome) :=
    fun outcome => Prod.ext rfl outcome
  rcases there.apply_cases timed url.uri (.edit version edits) with
    ⟨accepted, n, outcome⟩ | ⟨-, ⟨e, outcome⟩, alike⟩
  · obtain ⟨there', spared⟩ := there.change timed url.uri (.edit version edits)
    have scheduled := there'.schedule (spared.hooks.trans unhooked) (spared.timed timed)
    have does : (s.desk.run moves).move (.changed url version edits) =
        ((s.desk.run moves).apply url.uri (.edit version edits)).schedule := by
      rw [Desk.move, if_pos accepted]
    rw [← does] at scheduled
    rw [Server.changed, applied outcome]
    exact scheduled.after_move.after.alike (Session.alike_takeEvents _)
  · rw [Server.changed, applied outcome]
    exact Reaches.alike ⟨⟨moves, there⟩, unhooked, timed⟩
      (alike.trans (Session.alike_takeEvents _))

theorem saved (h : s.InTurn) (url : Url) (text : Option String) : (s.saved url text).InTurn := by
  obtain ⟨⟨moves, there⟩, unhooked, timed⟩ := h
  cases text with
  | none => exact rebuild there unhooked timed (.saved url none) [] .handler rfl
  | some text =>
    have large := there.isTooLarge_eq text
    rw [Server.saved]
    split
    · exact ⟨⟨moves, there⟩, unhooked, timed⟩
    · next fits =>
      refine replace there unhooked timed (.saved url (some text)) url.uri _ ?_
      rw [Desk.move, large, if_neg fits, there.versionOf_eq]

theorem closed (h : s.InTurn) (url : Url) : (s.closed url).InTurn := by
  obtain ⟨⟨moves, there⟩, unhooked, timed⟩ := h
  exact rebuild there unhooked timed (.closed url) [url.uri] .closing rfl

theorem watched (h : s.InTurn) (events : List (Url × FileEvent)) : (s.watched events).InTurn := by
  obtain ⟨⟨first, there⟩, unhooked, timed⟩ := h
  have here : Looks s.settings (s.desk.run first) { server := s } := ⟨rfl, there, unhooked, timed⟩
  have enters : (s.desk.run first).move (.watched events) =
      { s.desk.run first with watching := [⟨events, false, []⟩] } := by
    rw [Desk.move, there.watching]
    rfl
  obtain ⟨e, moves, ⟨same, there', unhooked', timed'⟩, looked⟩ := here.run events
  dsimp only at looked
  rw [← enters] at looked
  rw [Server.watched]
  dsimp only
  generalize events.foldl (fun r (url, e) => Server.reload r url e)
    ({ server := s } : Server.Reloading) = r at same there' unhooked' timed' looked ⊢
  have desk : r.server.desk = s.desk := congrArg (Desk.opened DomainModel.language) same
  -- the handler has seen all files, and leaves
  have leaves : Desk.move { e with watching := [⟨[], r.reloaded, r.deleted⟩] } (.look 0 none) =
      if r.reloaded || !r.deleted.isEmpty then e.rebuild r.deleted .handler else e := by
    have free : { e with watching := [] } = e := by rw [← there'.watching]
    rw [Desk.move]
    simp only [List.getElem?_cons_zero, List.eraseIdx_cons_zero]
    rw [free]
  rw [← looked] at leaves
  split
  · next reason =>
    rw [if_pos reason] at leaves
    have rebuilt := there'.update unhooked' timed' r.deleted .handler
    rw [← leaves, ← desk, ← same] at rebuilt
    exact rebuilt.after_move.after.after_move.after.alike (Session.alike_takeEvents _)
  · next noReason =>
    rw [if_neg noReason] at leaves
    have still : Reaches s.settings e r.server.session := ⟨⟨[], there'⟩, unhooked', timed'⟩
    rw [← leaves, ← desk, ← same] at still
    exact still.after_move.after.after_move.after

theorem sleep (h : s.InTurn) (ms : Nat) : (s.sleep ms).InTurn :=
  (Reaches.sleep h ms).1.alike (Session.alike_takeEvents _)

theorem diagnostics (h : s.InTurn) (url : Url) (previous : Option String) :
    (s.diagnostics url previous).1.InTurn :=
  (Reaches.pull h url.uri previous none).alike (Session.alike_takeEvents _)

/-- The pending builds are those that are scheduled. -/
theorem pending_eq (h : s.InTurn) : s.session.pending = s.session.timers.length := by
  obtain ⟨⟨moves, there⟩, -, -⟩ := h
  have kept := (kept_opened DomainModel.language s.settings).run DomainModel.quiet_registry moves
  have timers := there.timers.length_eq
  rw [List.nil_append, List.length_map] at timers
  calc s.session.pending
    _ = (s.desk.run moves).timers.length + (s.desk.run moves).builds.length + 0 := by
      rw [← there.pending]
      exact kept.counted.pending
    _ = s.session.timers.length := by rw [there.builds, timers]; rfl

/-- Where no build is pending, every document is validated. -/
theorem validated (h : s.InTurn) (none : s.session.pending = 0) {uri : DocumentUri} {doc : Document}
    (found : s.session.workspace.documents.get? uri = some doc) : doc.state = .validated := by
  obtain ⟨⟨moves, there⟩, -, -⟩ := h
  have kept := (kept_opened DomainModel.language s.settings).run DomainModel.quiet_registry moves
  refine kept.validated ?_ (there.pending.trans none) (there.workspace ▸ found)
  show (s.desk.run moves).handlers = 0
  rw [handlers, there.builds, there.watching, there.telling]
  rfl

end InTurn

/-- A server of which anything was asked but to shut down. -/
inductive Reachable : Server → Prop where
  | start (options : Option OptionValue) : Reachable (start options)
  | opened {s : Server} (url : Url) (version : Int) (text : String) (h : Reachable s) :
      Reachable (s.opened url version text)
  | changed {s : Server} (url : Url) (version : Int) (edits : List Text.Edit) (h : Reachable s) :
      Reachable (s.changed url version edits)
  | saved {s : Server} (url : Url) (text : Option String) (h : Reachable s) :
      Reachable (s.saved url text)
  | closed {s : Server} (url : Url) (h : Reachable s) : Reachable (s.closed url)
  | writeFile {s : Server} (path text : String) (h : Reachable s) : Reachable (s.writeFile path text)
  | deleteFile {s : Server} (path : String) (h : Reachable s) : Reachable (s.deleteFile path)
  | watched {s : Server} (events : List (Url × FileEvent)) (h : Reachable s) :
      Reachable (s.watched events)
  | sleep {s : Server} (ms : Nat) (h : Reachable s) : Reachable (s.sleep ms)
  | diagnostics {s : Server} (url : Url) (previous : Option String) (h : Reachable s) :
      Reachable (s.diagnostics url previous).1
  | takeMessages {s : Server} (h : Reachable s) : Reachable s.takeMessages.1

namespace Reachable

variable {s : Server}

theorem inTurn (h : Reachable s) : s.InTurn := by
  induction h with
  | start options => exact inTurn_start options
  | opened url version text _ ih => exact ih.opened url version text
  | changed url version edits _ ih => exact ih.changed url version edits
  | saved url text _ ih => exact ih.saved url text
  | closed url _ ih => exact ih.closed url
  | writeFile path text _ ih => exact ih
  | deleteFile path _ ih => exact ih
  | watched events _ ih => exact ih.watched events
  | sleep ms _ ih => exact ih.sleep ms
  | diagnostics url previous _ ih => exact ih.diagnostics url previous
  | takeMessages _ ih => exact ih

/-- Some moves of handlers, builds and timers lead to where a server is. -/
theorem exists_run (h : Reachable s) :
    ∃ moves, ((Desk.opened DomainModel.language s.settings).run moves).At s.settings [] s.session :=
  h.inTurn.moves

/-- Once no build is pending, every document of a server is validated. -/
theorem validated (h : Reachable s) (none : s.session.pending = 0) {uri : DocumentUri} {doc : Document}
    (found : s.session.workspace.documents.get? uri = some doc) : doc.state = .validated :=
  h.inTurn.validated none found

/-- When the editor has been quiet for as long as a change waits for others to follow, every document is
validated. -/
theorem validated_sleep (h : Reachable s) {ms : Nat} (long : s.settings.debounceMs ≤ ms)
    {uri : DocumentUri} {doc : Document}
    (found : (s.sleep ms).session.workspace.documents.get? uri = some doc) :
    doc.state = .validated := by
  have later := h.sleep ms
  refine later.validated ?_ found
  rw [later.inTurn.pending_eq, List.length_eq_zero_iff, List.eq_nil_iff_forall_not_mem]
  -- what is scheduled still was scheduled before, and is due
  intro t mem
  obtain ⟨-, clock, timers⟩ := Desk.Reaches.sleep h.inTurn ms
  have before := (h.inTurn.timed t (timers mem)).2
  have after : s.session.clock + ms < t.due := by
    rw [← clock]
    exact (later.inTurn.timed t mem).1
  omega

end Reachable

end Server

end Workbench
