import Workbench.Proofs.Workspace.Completion

/-!
**Turns.**

Builds take turns. What an action does to the builds of a site is said here once: it stops all of them,
gives one its turn, lets the one whose turn it is carry out a task or give up, or leaves them alone. A
build whose token has fired changes nothing any more and only has to leave, so a build whose token has
not fired is waited for until it comes to its end: there is only so much that can happen before nothing
is left to do.
-/

namespace Workbench

/-- Whether an action carries on with the builds that there are. -/
def Action.isWork : Action → Bool
  | .start _ => true
  | .step _ => true
  | _ => false

/-- Whether an action carries on with the builds that there are, and nothing makes a token fire. -/
def Action.isCalm : Action → Bool
  | .start _ => true
  | .step token => token = .never
  | _ => false

theorem Action.isWork_of_isCalm {a : Action} (h : a.isCalm = true) : a.isWork = true := by
  cases a <;> first | rfl | cases h

namespace Workspace

theorem eq_of_hasFired {w : Workspace} {g : Nat} (alive : w.hasFired g = false) :
    g = w.generation := by
  simpa [hasFired] using (Bool.or_eq_false_iff.1 alive).2

end Workspace

namespace Build

variable {b : Build} {w w' : Workspace} {token : Cancellation}

theorem generation_step {outcome : BuildStep} (stepped : b.step w token = (w', outcome)) {next : Build}
    (goes : outcome.next? = some next) : next.generation = b.generation := by
  rcases Build.step_cases stepped with ⟨-, ⟨rfl, -⟩ | ⟨rfl, -⟩⟩ | ⟨_, _, -, -, rfl⟩ |
    ⟨_, _, _, _, -, -, -, ⟨-, rfl⟩ | ⟨-, _, rfl⟩⟩ <;> cases goes <;> rfl

/-- A build that goes on has done one task of its agenda. -/
theorem length_agenda_step {outcome : BuildStep} (stepped : b.step w token = (w', outcome))
    {next : Build} (goes : outcome.next? = some next) :
    b.agenda.length = next.agenda.length + 1 := by
  rcases Build.step_cases stepped with ⟨-, ⟨rfl, -⟩ | ⟨rfl, -⟩⟩ | ⟨_, _, head, -, rfl⟩ |
    ⟨_, _, _, _, head, -, -, ⟨-, rfl⟩ | ⟨-, _, rfl⟩⟩ <;> cases goes <;> rw [head] <;> rfl

/-- A build whose token has fired leaves the workspace alone. -/
theorem step_of_hasFired {outcome : BuildStep} (stepped : b.step w token = (w', outcome))
    (fired : w.hasFired b.generation = true) : w' = w := by
  rcases Build.step_cases stepped with ⟨rfl, -⟩ | ⟨_, _, -, rfl, -⟩ | ⟨_, _, _, _, -, alive, -⟩
  · rfl
  · rfl
  · rw [fired] at alive
    cases alive

end Build

namespace Site

/-- What an action may do to the builds of a site. -/
inductive Effect (s t : Site) : Action → Prop where
  | nothing {a : Action} (idle : ∀ token, a = .step token → s.running = none)
      (workspace : t.workspace = s.workspace) (waiting : t.waiting = s.waiting)
      (running : t.running = s.running) : Effect s t a
  /-- All builds so far are stopped. -/
  | stops {a : Action} (interrupts : a.isWork = false)
      (language : t.workspace.language = s.workspace.language)
      (newer : s.workspace.generation ≤ t.workspace.generation)
      (fired : ∀ g ≤ s.workspace.generation, t.workspace.hasFired g = true)
      (waiting : ∀ g ∈ t.waiting, g ∈ s.waiting ∨ g ≤ t.workspace.generation)
      (running : t.running = s.running) : Effect s t a
  | starts {g : Nat} (idle : s.running = none) (waits : g ∈ s.waiting)
      (workspace : t.workspace = s.workspace) (waiting : t.waiting = s.waiting.erase g)
      (running : t.running = some (Build.start s.workspace g)) : Effect s t (.start g)
  | steps {token : Cancellation} {b : Build} {outcome : BuildStep} (turn : s.running = some b)
      (stepped : b.step s.workspace token = (t.workspace, outcome)) (waiting : t.waiting = s.waiting)
      (running : t.running = outcome.next?) : Effect s t (.step token)
  | abandons (workspace : t.workspace = s.workspace) (waiting : t.waiting = s.waiting)
      (running : t.running = none) : Effect s t .abandon

theorem effect_act (s : Site) (a : Action) : Effect s (s.act a) a := by
  cases a with
  | apply uri change =>
    rw [act]
    split
    · next w what applied =>
      obtain ⟨d, v, -, rfl, rfl, rfl⟩ := s.workspace.apply_cases applied
      exact .stops rfl rfl (Nat.le_refl _) (fun _ _ => rfl) (fun _ mem => .inl mem) rfl
    · exact .nothing (by simp) rfl rfl rfl
  | begin changed deleted =>
    rw [act]
    split
    · next w what begun =>
      obtain ⟨v, rfl, rfl, rfl⟩ := s.workspace.begin_cases changed deleted begun
      refine .stops rfl rfl (Nat.le_succ _) (fun g le => ?_) (fun g mem => ?_) rfl
      · have outdated : g ≠ s.workspace.generation + 1 := by omega
        show (false || g != s.workspace.generation + 1) = true
        simp [outdated]
      · rcases List.mem_append.1 mem with old | new
        · exact .inl old
        · exact .inr (Nat.le_of_eq (List.mem_singleton.1 new))
    · exact .nothing (by simp) rfl rfl rfl
  | start generation =>
    rw [act]
    split
    · next ready =>
      simp only [Bool.and_eq_true, Option.isNone_iff_eq_none, List.contains_eq_mem,
        decide_eq_true_eq] at ready
      exact .starts ready.1 ready.2 rfl rfl rfl
    · exact .nothing (by simp) rfl rfl rfl
  | step token =>
    rw [act]
    split
    · next idle => exact .nothing (fun _ _ => idle) rfl rfl rfl
    · next b turn => exact .steps turn rfl rfl rfl
  | abandon => exact .abandons rfl rfl rfl
  | shutdown => exact .stops rfl rfl (Nat.le_refl _) (fun _ _ => rfl) (fun _ mem => .inl mem) rfl
  | reuse uri previous =>
    rw [act]
    split <;> exact .nothing (by simp) rfl rfl rfl
  | report uri =>
    rw [act]
    split
    · split <;> exact .nothing (by simp) rfl rfl rfl
    · exact .nothing (by simp) rfl rfl rfl

/-- The workspace with a new generation. -/
def renewed (s : Site) : Workspace :=
  { s.workspace with generation := s.workspace.generation + 1, fired := false }

theorem act_begin {s : Site} (up : s.workspace.shutDown = false) (changed deleted : List DocumentUri) :
    s.act (.begin changed deleted) =
      { s.takeOver (s.renewed.invalidate changed deleted).1 (s.renewed.invalidate changed deleted).2
          with waiting := s.waiting ++ [s.workspace.generation + 1] } := by
  rw [act, Workspace.begin, if_neg (by rw [up]; exact Bool.false_ne_true)]
  rfl

/-- The builds at a site have begun. -/
structure Begun (s : Site) : Prop where
  waiting : ∀ g ∈ s.waiting, g ≤ s.workspace.generation
  running : ∀ b, s.running = some b → b.generation ≤ s.workspace.generation

namespace Effect

variable {s t : Site} {a : Action}

/-- An action stops all builds so far, or keeps what tells the tokens that have fired. -/
theorem frame (h : Effect s t a) : t.workspace.language = s.workspace.language ∧
    s.workspace.generation ≤ t.workspace.generation ∧
      ((a.isWork = false ∧ ∀ g ≤ s.workspace.generation, t.workspace.hasFired g = true) ∨
        ∀ g, t.workspace.hasFired g = s.workspace.hasFired g) := by
  have unchanged : t.workspace = s.workspace → t.workspace.language = s.workspace.language ∧
      s.workspace.generation ≤ t.workspace.generation ∧
        ((a.isWork = false ∧ ∀ g ≤ s.workspace.generation, t.workspace.hasFired g = true) ∨
          ∀ g, t.workspace.hasFired g = s.workspace.hasFired g) := by
    intro same
    rw [same]
    exact ⟨rfl, Nat.le_refl _, .inr fun _ => rfl⟩
  cases h with
  | nothing _ workspace => exact unchanged workspace
  | stops interrupts language newer fired => exact ⟨language, newer, .inl ⟨interrupts, fired⟩⟩
  | starts _ _ workspace => exact unchanged workspace
  | abandons workspace => exact unchanged workspace
  | steps _ stepped =>
    rcases Build.step_cases stepped with
      ⟨same, -⟩ | ⟨_, _, -, same, -⟩ | ⟨_, _, _, _, -, -, visited, -⟩
    · exact unchanged same
    · exact unchanged same
    · obtain ⟨language, generation, fired⟩ := Workspace.frame_visit visited
      refine ⟨language, Nat.le_of_eq generation.symm, .inr fun g => ?_⟩
      unfold Workspace.hasFired
      rw [generation, fired]

/-- What has fired stays so. -/
theorem hasFired (h : Effect s t a) {g : Nat} (le : g ≤ s.workspace.generation)
    (fired : s.workspace.hasFired g = true) : t.workspace.hasFired g = true := by
  obtain ⟨-, -, ⟨-, all⟩ | same⟩ := h.frame
  · exact all g le
  · rw [same, fired]

theorem begun (h : Effect s t a) (begun : s.Begun) : t.Begun := by
  have newer := h.frame.2.1
  have waiting : ∀ g ∈ t.waiting, g ∈ s.waiting ∨ g ≤ t.workspace.generation := by
    intro g mem
    cases h with
    | nothing _ _ waiting => exact .inl (waiting ▸ mem)
    | stops _ _ _ _ waiting => exact waiting g mem
    | starts _ _ _ waiting => exact .inl (List.mem_of_mem_erase (waiting ▸ mem))
    | steps _ _ waiting => exact .inl (waiting ▸ mem)
    | abandons _ waiting => exact .inl (waiting ▸ mem)
  refine ⟨fun g mem => ?_, fun b turn => ?_⟩
  · rcases waiting g mem with old | le
    · exact Nat.le_trans (begun.waiting g old) newer
    · exact le
  · cases h with
    | nothing _ _ _ running => exact Nat.le_trans (begun.running b (running ▸ turn)) newer
    | stops _ _ _ _ _ running => exact Nat.le_trans (begun.running b (running ▸ turn)) newer
    | starts _ waits _ _ running =>
      rw [running] at turn
      cases turn
      exact Nat.le_trans (begun.waiting _ waits) newer
    | steps turn' stepped _ running =>
      rw [running] at turn
      rw [Build.generation_step stepped turn]
      exact Nat.le_trans (begun.running _ turn') newer
    | abandons _ _ running =>
      rw [running] at turn
      cases turn

end Effect

/-! ### Work that is left -/

variable {s : Site} {g : Nat}

/-- A build of a generation waits for its turn or has it. -/
def Awaits (s : Site) (g : Nat) : Prop :=
  g ∈ s.waiting ∨ ∃ b, s.running = some b ∧ b.generation = g

/-- How many actions may do something before nothing is left to do: each build that waits leaves its
place, carries out its agenda, and ends. -/
def workLeft (s : Site) : Nat :=
  (s.running.elim 0 fun b => b.agenda.length + 1) +
    s.waiting.length * ((Build.agendaOf s.workspace.documents.keys).length + 2)

/-- Nothing is left to do. -/
def Rests (s : Site) : Prop := ∀ a : Action, a.isCalm = true → s.act a = s

/-- Every one of some actions does something when its turn comes. -/
def Busy (s : Site) : List Action → Prop
  | [] => True
  | a :: rest => s.act a ≠ s ∧ (s.act a).Busy rest

theorem keys_step {b : Build} {w w' : Workspace} {token : Cancellation} {outcome : BuildStep}
    (stepped : b.step w token = (w', outcome)) : w'.documents.keys = w.documents.keys := by
  rcases Build.step_cases stepped with
    ⟨rfl, -⟩ | ⟨_, _, -, rfl, -⟩ | ⟨_, _, _, _, -, -, visited, -⟩
  · rfl
  · rfl
  · rcases w.visit_cases visited with ⟨rfl, -⟩ | ⟨d, progress, found, -, rfl⟩
    · rfl
    · exact UriMap.keys_insert found _

theorem workLeft_start (idle : s.running = none) (waits : g ∈ s.waiting) :
    (s.act (.start g)).workLeft < s.workLeft := by
  have ready : (s.running.isNone && s.waiting.contains g) = true := by simp [idle, waits]
  have shorter := List.length_erase_of_mem waits
  have positive := List.length_pos_of_mem waits
  rw [act, if_pos ready]
  simp only [workLeft, idle, Build.start, Option.elim_some, Option.elim_none, shorter]
  obtain ⟨n, eq⟩ := Nat.exists_eq_add_of_lt positive
  rw [eq]
  simp only [Nat.zero_add, Nat.add_sub_cancel, Nat.succ_mul]
  omega

theorem workLeft_step {b : Build} (turn : s.running = some b) (token : Cancellation) :
    (s.act (.step token)).workLeft < s.workLeft := by
  rw [act, turn]
  dsimp only
  cases stepped : b.step s.workspace token with
  | mk w outcome =>
    have less : outcome.next?.elim 0 (fun c => c.agenda.length + 1) < b.agenda.length + 1 := by
      cases goes : outcome.next? with
      | none => exact Nat.succ_pos _
      | some c =>
        rw [Build.length_agenda_step stepped goes]
        exact Nat.lt_succ_self _
    simp only [workLeft, turn, keys_step stepped, Option.elim_some]
    exact Nat.add_lt_add_right less _

/-- An action that carries on with the builds does nothing, or leaves less to do. -/
theorem workLeft_act {a : Action} (work : a.isWork = true) :
    s.act a = s ∨ (s.act a).workLeft < s.workLeft := by
  cases a with
  | start g =>
    by_cases ready : (s.running.isNone && s.waiting.contains g) = true
    · simp only [Bool.and_eq_true, Option.isNone_iff_eq_none, List.contains_eq_mem,
        decide_eq_true_eq] at ready
      exact .inr (workLeft_start ready.1 ready.2)
    · exact .inl (if_neg ready)
  | step token =>
    cases turn : s.running with
    | none => exact .inl (by rw [act, turn])
    | some b => exact .inr (workLeft_step turn token)
  | _ => cases work

/-- Only so many actions that carry on with the builds do anything. -/
theorem length_le_workLeft {actions : List Action} (work : ∀ a ∈ actions, a.isWork = true)
    (busy : s.Busy actions) : actions.length ≤ s.workLeft := by
  induction actions generalizing s with
  | nil => exact Nat.zero_le _
  | cons a rest ih =>
    have less := (workLeft_act (work a List.mem_cons_self)).resolve_left busy.1
    have tail := ih (fun c mem => work c (List.mem_cons_of_mem _ mem)) busy.2
    exact Nat.lt_of_le_of_lt tail less

/-- Where nothing is left to do, no build is waited for. -/
theorem Rests.not_awaits (h : s.Rests) : ¬ s.Awaits g := by
  cases turn : s.running with
  | some b =>
    intro _
    have less := workLeft_step turn .never
    rw [h (.step .never) rfl] at less
    exact Nat.lt_irrefl _ less
  | none =>
    rintro (waits | ⟨b, eq, -⟩)
    · have less := workLeft_start turn waits
      rw [h (.start g) rfl] at less
      exact Nat.lt_irrefl _ less
    · rw [turn] at eq
      cases eq

theorem rests_of_idle (idle : s.running = none) (waiting : s.waiting = []) : s.Rests := by
  intro a calm
  cases a with
  | start g => rw [act, idle, waiting]; rfl
  | step token => rw [act, idle]
  | _ => cases calm

/-! ### Builds that are waited for -/

/-- What has begun is waited for. -/
theorem awaits_begin (s : Site) (up : s.workspace.shutDown = false)
    (changed deleted : List DocumentUri) :
    let begun := s.act (.begin changed deleted)
    begun.workspace.generation = s.workspace.generation + 1 ∧
      begun.Awaits (s.workspace.generation + 1) ∧
      begun.workspace.hasFired (s.workspace.generation + 1) = false := by
  dsimp only
  rw [act_begin up]
  refine ⟨rfl, .inl ?_, ?_⟩
  · simp
  · simp [Workspace.hasFired, Workspace.invalidate, takeOver, renewed]

/-- A build whose token has not fired is waited for until it comes to its end. -/
theorem Awaits.act (h : s.Awaits g) (quiet : s.workspace.language.registry.Quiet)
    (alive : s.workspace.hasFired g = false) {a : Action} (calm : a.isCalm = true) :
    s.complete = true ∨ (s.act a).Awaits g ∧ (s.act a).workspace.hasFired g = false := by
  have effect := s.effect_act a
  have alive' : (s.act a).workspace.hasFired g = false := by
    obtain ⟨-, -, ⟨interrupts, -⟩ | same⟩ := effect.frame
    · rw [Action.isWork_of_isCalm calm] at interrupts
      cases interrupts
    · rw [same, alive]
  cases effect with
  | nothing _ _ waiting running =>
    refine .inr ⟨?_, alive'⟩
    unfold Awaits
    rw [waiting, running]
    exact h
  | stops interrupts =>
    rw [Action.isWork_of_isCalm calm] at interrupts
    cases interrupts
  | @starts g' idle _ _ waiting running =>
    refine .inr ⟨?_, alive'⟩
    rcases h with waits | ⟨b, eq, -⟩
    · by_cases own : g' = g
      · exact .inr ⟨_, running, own⟩
      · exact .inl (waiting ▸ (List.mem_erase_of_ne (Ne.symm own)).2 waits)
    · rw [idle] at eq
      cases eq
  | steps turn stepped waiting running =>
    rcases h with waits | ⟨b, eq, own⟩
    · exact .inr ⟨.inl (waiting ▸ waits), alive'⟩
    · cases agenda_eq : b.agenda with
      | nil =>
        left
        rw [← own] at alive
        simp [complete, eq, agenda_eq, alive]
      | cons task agenda =>
        right
        rw [← own] at alive
        have going : s.Going (task :: agenda) := ⟨quiet, b, eq, agenda_eq, alive⟩
        simp only [Action.isCalm, decide_eq_true_eq] at calm
        subst calm
        obtain ⟨c, turn', -, goes⟩ := going.step.running
        refine ⟨.inr ⟨c, turn', ?_⟩, alive'⟩
        exact (Workspace.eq_of_hasFired goes).trans (Workspace.eq_of_hasFired alive').symm
  | abandons => cases calm

/-- As long as nothing is interrupted, a build that was waited for still is, or has come to its end. -/
theorem Awaits.run (h : s.Awaits g) (quiet : s.workspace.language.registry.Quiet)
    (alive : s.workspace.hasFired g = false) {actions : List Action}
    (calm : ∀ a ∈ actions, a.isCalm = true) :
    (s.run actions).Awaits g ∨
      ∃ front, front <+: actions ∧ (s.run front).complete = true ∧
        (s.run front).workspace.generation = g := by
  induction actions generalizing s with
  | nil => exact .inl h
  | cons a rest ih =>
    rcases h.act quiet alive (calm a List.mem_cons_self) with complete | ⟨awaits, alive'⟩
    · exact .inr ⟨[], List.nil_prefix, complete, (Workspace.eq_of_hasFired alive).symm⟩
    · have quiet' : (s.act a).workspace.language.registry.Quiet := by
        rw [(s.effect_act a).frame.1]
        exact quiet
      rcases ih awaits quiet' alive' fun c mem => calm c (List.mem_cons_of_mem _ mem) with
        still | ⟨front, within, complete⟩
      · exact .inl still
      · exact .inr ⟨a :: front, List.cons_prefix_cons.2 ⟨rfl, within⟩, complete⟩

end Site

end Workbench
