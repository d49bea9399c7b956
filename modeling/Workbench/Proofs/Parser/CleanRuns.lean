import Workbench.Proofs.Parser.Nesting

/-!
**Limits do not show in a clean result.**

A parser meets a limit in two ways: tokens are cut off, or a rule is refused because the nesting is too deep.
The first is an error from the start. The second is an error too, except while the parser is recovering, and
then it has an error to recover from. Errors are never taken back. So a parse without errors has met no limit,
and under wider limits every step of it is the same.
-/

namespace Workbench

namespace Interpreter

open State

variable {plan : Plan} {invoke deeper : Invocation} {s t : State}

/-- One invocation does what another one does, wherever that ends without an error. -/
def Agrees (invoke deeper : Invocation) : Prop :=
  ∀ id feature s, s.Candid → (invoke id feature s).state.errors = #[] →
    deeper id feature s = invoke id feature s

/-- A run without errors has had none on its way. -/
theorem Reaches.errors_eq (h : Reaches plan s t) (clean : t.errors = #[]) : s.errors = #[] := by
  by_contra some
  exact h.onward.errors some clean

/-! ### Calls -/

theorem call_under (limits : Limits) (id : RuleId) (target : Option (String × AssignOp)) :
    call (under plan limits) invoke id target s = call plan invoke id target s := rfl

theorem agree_call (agrees : Agrees invoke deeper) {id : RuleId} {target : Option (String × AssignOp)}
    (candid : s.Candid) (clean : (call plan invoke id target s).errors = #[]) :
    call plan deeper id target s = call plan invoke id target s := by
  unfold call at clean ⊢
  cases known : plan.grammar.rules[id]? with
  | none => rfl
  | some rule =>
    rw [known] at clean
    dsimp only at clean ⊢
    split at clean
    · rfl
    · have inside : (invoke id (target.map (·.1)) s).state.errors = #[] := by
        split at clean
        · exact clean
        · rwa [(Silent.assign _ _ _ _).errors] at clean
        · rwa [(Silent.assign _ _ _ _).errors] at clean
        · rwa [(Silent.adopt _ _).errors] at clean
        · rwa [(Silent.collect _ _).errors] at clean
      rw [agrees _ _ _ candid inside]

theorem agree_crossReference (agrees : Agrees invoke deeper) {feature : String} {op : AssignOp}
    {target : TypeId} {id : RuleId} (candid : s.Candid)
    (clean : (crossReference plan invoke feature op target id s).errors = #[]) :
    crossReference plan deeper feature op target id s =
      crossReference plan invoke feature op target id s := by
  unfold crossReference at clean ⊢
  cases known : plan.grammar.rules[id]? with
  | none => rfl
  | some rule =>
    rw [known] at clean
    dsimp only at clean ⊢
    split at clean
    · rfl
    · have inside : (invoke id (some feature) s).state.errors = #[] := by
        split at clean
        · rwa [(Silent.makeReference _ _ _ _ _ _).errors] at clean
        · exact clean
        · exact clean
      rw [agrees _ _ _ candid inside]

theorem crossReference_under (limits : Limits) (feature : String) (op : AssignOp) (target : TypeId)
    (id : RuleId) : crossReference (under plan limits) invoke feature op target id s =
      crossReference plan invoke feature op target id s := rfl

/-! ### Repetitions -/

section Repetitions

variable {item : Element} {run deep : State → Outcome}

/-- The first turn of a repetition is on its way. -/
theorem reaches_of_turn (reaches : ∀ s, Reaches plan s (run s).state) (fuel : Nat)
    (isReady : ready plan item s = true) :
    Reaches plan (run s).state (turns plan (ready plan item) run (fuel + 1) s).state := by
  rw [turns, if_pos isReady]
  dsimp only
  split
  · split
    · exact (reaches_report _).trans (reaches_turns reaches fuel _)
    · exact .refl
  · split
    · exact reaches_turns reaches fuel _
    · exact .refl

theorem reaches_of_first (reaches : ∀ s, Reaches plan s (run s).state) (s : State) :
    Reaches plan (run s).state (repeated plan .oneOrMore (ready plan item) run s).state := by
  unfold repeated
  dsimp only
  split
  · exact .refl
  · split
    · exact reaches_turns reaches _ _
    · exact .refl

theorem agree_turns (limits : Limits) (reaches : ∀ s, Reaches plan s (run s).state)
    (agree : ∀ s : State, s.Candid → (run s).state.errors = #[] → deep s = run s) (fuel : Nat)
    (candid : s.Candid) (clean : (turns plan (ready plan item) run fuel s).state.errors = #[]) :
    turns (under plan limits) (ready plan item) deep fuel s = turns plan (ready plan item) run fuel s := by
  induction fuel generalizing s with
  | zero => rfl
  | succ fuel ih =>
    by_cases isReady : ready plan item s = true
    · have turn := agree s candid ((reaches_of_turn reaches fuel isReady).errors_eq clean)
      have after := (reaches s).onward.candid candid
      rw [turns, if_pos isReady] at clean
      rw [turns, turns, if_pos isReady, if_pos isReady, turn]
      generalize run s = out at clean after
      dsimp only at clean ⊢
      by_cases progress : out.state.stream.count < s.stream.count
      · simp only [progress, decide_true, if_true] at clean ⊢
        cases stuck : out.stuck with
        | some expected =>
          rw [stuck] at clean
          have reported : (out.state.report plan expected).Candid :=
            (reaches_report expected).onward.candid after
          exact ih reported clean
        | none =>
          rw [stuck] at clean
          exact ih after clean
      · simp only [progress, decide_false, Bool.false_eq_true, if_false]
    · rw [turns, turns, if_neg isReady, if_neg isReady]

theorem agree_repeated (limits : Limits) (reaches : ∀ s, Reaches plan s (run s).state)
    (agree : ∀ s : State, s.Candid → (run s).state.errors = #[] → deep s = run s)
    (cardinality : Cardinality) (candid : s.Candid)
    (clean : (repeated plan cardinality (ready plan item) run s).state.errors = #[]) :
    repeated (under plan limits) cardinality (ready plan item) deep s =
      repeated plan cardinality (ready plan item) run s := by
  cases cardinality with
  | optional =>
    unfold repeated at clean ⊢
    dsimp only at clean ⊢
    by_cases isReady : ready plan item s = true
    · rw [if_pos isReady] at clean
      rw [if_pos isReady, if_pos isReady, agree s candid clean]
    · rw [if_neg isReady, if_neg isReady]
  | zeroOrMore => exact agree_turns limits reaches agree _ candid clean
  | oneOrMore =>
    have first := (reaches_of_first reaches s).errors_eq clean
    have after := (reaches s).onward.candid candid
    unfold repeated at clean ⊢
    dsimp only at clean ⊢
    rw [agree s candid first]
    by_cases stuck : (run s).stuck.isSome = true
    · rw [if_pos stuck, if_pos stuck]
    · rw [if_neg stuck] at clean ⊢
      rw [if_neg stuck]
      by_cases progress : (run s).state.stream.count < s.stream.count
      · rw [if_pos progress] at clean ⊢
        rw [if_pos progress]
        exact agree_turns limits reaches agree _ after clean
      · rw [if_neg progress, if_neg progress]

end Repetitions

/-! ### Elements -/

mutual

theorem agree_run (proper : Proper plan invoke) (agrees : Agrees invoke deeper) (limits : Limits) :
    ∀ (e : Element) (s : State), s.Candid → (run plan invoke e s).state.errors = #[] →
      run (under plan limits) deeper e s = run plan invoke e s
  | .keyword text, s, _, _ => by
    rw [run, run]
    rfl
  | .call id, s, candid, clean => by
    rw [run] at clean
    rw [run, run, call_under, agree_call agrees candid clean]
  | .assign feature op value, s, candid, clean => by
    rw [run] at clean
    rw [run, run]
    exact agree_runAssigned proper agrees limits feature op value s candid clean
  | .crossRef _ _, s, _, _ => by
    rw [run, run]
  | .action type none, s, _, _ => by
    rw [run, run]
  | .action type (some (feature, op)), s, _, _ => by
    rw [run, run]
    rfl
  | .group items, s, candid, clean => by
    rw [run] at clean
    rw [run, run]
    exact agree_runAll proper agrees limits items s candid clean
  | .alternatives items, s, candid, clean => by
    rw [run] at clean
    rw [run, run, show choose (under plan limits) items s = choose plan items s from rfl]
    cases chosen : choose plan items s with
    | some i =>
      rw [chosen] at clean
      exact agree_runNth proper agrees limits items i s candid clean
    | none => rfl
  | .repetition cardinality item, s, candid, clean => by
    rw [run] at clean
    rw [run, run]
    exact agree_repeated limits (reaches_run proper item) (agree_run proper agrees limits item) cardinality
      candid clean

theorem agree_runAll (proper : Proper plan invoke) (agrees : Agrees invoke deeper) (limits : Limits) :
    ∀ (items : List Element) (s : State), s.Candid → (runAll plan invoke items s).state.errors = #[] →
      runAll (under plan limits) deeper items s = runAll plan invoke items s
  | [], s, _, _ => by
    rw [runAll, runAll]
  | item :: rest, s, candid, clean => by
    rw [runAll] at clean
    rw [runAll, runAll]
    have onward := (reaches_run proper item s).onward
    by_cases stuck : (run plan invoke item s).stuck.isSome = true
    · rw [if_pos stuck] at clean
      rw [agree_run proper agrees limits item s candid clean, if_pos stuck, if_pos stuck]
    · rw [if_neg stuck] at clean
      have first := (reaches_runAll proper rest _).errors_eq clean
      rw [agree_run proper agrees limits item s candid first, if_neg stuck, if_neg stuck]
      exact agree_runAll proper agrees limits rest _ (onward.candid candid) clean

theorem agree_runNth (proper : Proper plan invoke) (agrees : Agrees invoke deeper) (limits : Limits) :
    ∀ (items : List Element) (i : Nat) (s : State), s.Candid →
      (runNth plan invoke items i s).state.errors = #[] →
      runNth (under plan limits) deeper items i s = runNth plan invoke items i s
  | [], _, s, _, _ => by
    rw [runNth, runNth]
  | item :: _, 0, s, candid, clean => by
    rw [runNth] at clean
    rw [runNth, runNth]
    exact agree_run proper agrees limits item s candid clean
  | _ :: rest, i + 1, s, candid, clean => by
    rw [runNth] at clean
    rw [runNth, runNth]
    exact agree_runNth proper agrees limits rest i s candid clean

theorem agree_runAssigned (proper : Proper plan invoke) (agrees : Agrees invoke deeper) (limits : Limits)
    (feature : String) (op : AssignOp) :
    ∀ (e : Element) (s : State), s.Candid → (runAssigned plan invoke feature op e s).state.errors = #[] →
      runAssigned (under plan limits) deeper feature op e s = runAssigned plan invoke feature op e s
  | .keyword text, s, _, _ => by
    rw [runAssigned, runAssigned]
    rfl
  | .call id, s, candid, clean => by
    rw [runAssigned] at clean
    rw [runAssigned, runAssigned, call_under, agree_call agrees candid clean]
  | .crossRef target id, s, candid, clean => by
    rw [runAssigned] at clean
    rw [runAssigned, runAssigned, crossReference_under, agree_crossReference agrees candid clean]
  | .alternatives items, s, candid, clean => by
    rw [runAssigned] at clean
    rw [runAssigned, runAssigned, show choose (under plan limits) items s = choose plan items s from rfl]
    cases chosen : choose plan items s with
    | some i =>
      rw [chosen] at clean
      exact agree_runAssignedNth proper agrees limits feature op items i s candid clean
    | none => rfl
  | .assign .., s, _, _ => by
    simp only [runAssigned]
  | .action .., s, _, _ => by
    simp only [runAssigned]
  | .group _, s, _, _ => by
    simp only [runAssigned]
  | .repetition .., s, _, _ => by
    simp only [runAssigned]

theorem agree_runAssignedNth (proper : Proper plan invoke) (agrees : Agrees invoke deeper) (limits : Limits)
    (feature : String) (op : AssignOp) :
    ∀ (items : List Element) (i : Nat) (s : State), s.Candid →
      (runAssignedNth plan invoke feature op items i s).state.errors = #[] →
      runAssignedNth (under plan limits) deeper feature op items i s =
        runAssignedNth plan invoke feature op items i s
  | [], _, s, _, _ => by
    rw [runAssignedNth, runAssignedNth]
  | item :: _, 0, s, candid, clean => by
    rw [runAssignedNth] at clean
    rw [runAssignedNth, runAssignedNth]
    exact agree_runAssigned proper agrees limits feature op item s candid clean
  | _ :: rest, i + 1, s, candid, clean => by
    rw [runAssignedNth] at clean
    rw [runAssignedNth, runAssignedNth]
    exact agree_runAssignedNth proper agrees limits feature op rest i s candid clean

end

/-! ### Rules and documents -/

theorem agree_runReported (proper : Proper plan invoke) (agrees : Agrees invoke deeper) (limits : Limits)
    (e : Element) (candid : s.Candid) (clean : (runReported plan invoke e s).errors = #[]) :
    runReported (under plan limits) deeper e s = runReported plan invoke e s := by
  unfold runReported at clean ⊢
  dsimp only at clean ⊢
  cases stuck : (run plan invoke e s).stuck with
  | some expected =>
    rw [stuck] at clean
    have ran : (run plan invoke e s).state.errors = #[] := (reaches_report expected).errors_eq clean
    rw [agree_run proper agrees limits e s candid ran, stuck]
    rfl
  | none =>
    rw [stuck] at clean
    rw [agree_run proper agrees limits e s candid clean, stuck]

/-- A rule that is refused because it is nested too deep has an error. -/
theorem agrees_invoke (limits : Limits) {depth more : Nat} (le : depth ≤ more) :
    Agrees (Interpreter.invoke plan depth) (Interpreter.invoke (under plan limits) more) := by
  induction depth generalizing more with
  | zero =>
    intro id feature s candid clean
    exact absurd clean (candid.errors_raise_ne _)
  | succ depth ih =>
    obtain ⟨more, rfl⟩ : ∃ less, more = less + 1 := ⟨more - 1, by omega⟩
    intro id feature s candid clean
    rw [Interpreter.invoke] at clean
    rw [Interpreter.invoke, Interpreter.invoke,
      show (under plan limits).grammar.rules[id]? = plan.grammar.rules[id]? from rfl]
    cases known : plan.grammar.rules[id]? with
    | none => rfl
    | some rule =>
      rw [known] at clean
      dsimp only at clean ⊢
      rw [(leave_spec ..).1.errors] at clean
      rw [agree_runReported (proper_invoke depth) (ih (Nat.le_of_succ_le_succ le)) limits rule.body
        (s := { s with frame := Frame.enter id rule.kind }) candid clean]
      rfl

/-- Input that is left at the end is an error. -/
theorem count_eq_zero_of_clean (proper : Proper plan invoke) {fuel : Nat}
    (clean : (runEntry plan invoke (fuel + 1) s).errors = #[]) :
    (runReported plan invoke plan.grammar.entryRule.body s).stream.count = 0 := by
  by_contra left
  rw [runEntry_succ] at clean
  dsimp only at clean
  rw [if_neg left] at clean
  generalize runReported plan invoke plan.grammar.entryRule.body s = t at clean
  have again : Reaches plan (t.record plan .trailingInput) (resumed plan s t) :=
    (reaches_skip plan _ _ _).trans .settle
  have failed : (t.record plan .trailingInput).errors ≠ #[] := errors_record_ne .trailingInput
  refine failed ?_
  split at clean
  · exact again.errors_eq clean
  · exact (again.trans (reaches_runEntry proper fuel _)).errors_eq clean

theorem agree_runEntry (proper : Proper plan invoke) (agrees : Agrees invoke deeper) (limits : Limits)
    {fuel : Nat} (candid : s.Candid) (clean : (runEntry plan invoke (fuel + 1) s).errors = #[]) :
    runEntry (under plan limits) deeper (fuel + 1) s = runEntry plan invoke (fuel + 1) s := by
  have ended := count_eq_zero_of_clean proper clean
  rw [runEntry_succ] at clean
  dsimp only at clean
  rw [if_pos ended] at clean
  have same : runReported (under plan limits) deeper (under plan limits).grammar.entryRule.body s =
      runReported plan invoke plan.grammar.entryRule.body s :=
    agree_runReported proper agrees limits plan.grammar.entryRule.body candid clean
  rw [runEntry_succ, runEntry_succ]
  dsimp only
  rw [same, if_pos ended, if_pos ended]

end Interpreter

namespace Parser

open Interpreter

/-- The parser under other limits. -/
def withLimits (p : Parser) (limits : Limits) : Parser := { p with limits }

/-- A parse without errors has cut off no token. -/
theorem clean_ended {p : Parser} {lexed : LexResult} (clean : (p.parse lexed).parseErrors = []) :
    (p.ended lexed).errors = #[] ∧ visibleCount lexed.tokens ≤ p.limits.maxTokens := by
  have noErrors : (p.ended lexed).errors = #[] := by
    rw [parse_eq] at clean
    dsimp only at clean
    rw [errors_finish] at clean
    exact Array.toList_eq_nil_iff.1 clean
  refine ⟨noErrors, ?_⟩
  by_contra beyond
  exact errors_opened_ne (Nat.lt_of_not_le beyond) ((p.reaches_ended lexed).errors_eq noErrors)

/-- **Limits only cut off.** A parse that reports no error has the same result under all wider limits: the
tree with its references, the source tree and the errors. -/
theorem parse_withLimits (p : Parser) (lexed : LexResult) (clean : (p.parse lexed).parseErrors = [])
    {limits : Limits} (deeper : p.limits.maxRuleDepth ≤ limits.maxRuleDepth)
    (longer : p.limits.maxTokens ≤ limits.maxTokens) :
    (p.withLimits limits).parse lexed = p.parse lexed := by
  obtain ⟨noErrors, within⟩ := clean_ended clean
  have opened : (p.withLimits limits).opened lexed = p.opened lexed := by
    have within' : visibleCount lexed.tokens ≤ (p.withLimits limits).limits.maxTokens := within.trans longer
    rw [Parser.opened, Parser.opened, cutAfter_of_le within, cutAfter_of_le within']
    rfl
  have candid : (p.opened lexed).Candid := fun recovering => by cases recovering
  have ended : (p.withLimits limits).ended lexed = p.ended lexed := by
    rw [Parser.ended, opened]
    exact agree_runEntry (proper_invoke _) (agrees_invoke limits (Nat.sub_le_sub_right deeper 1)) limits
      candid noErrors
  rw [parse_eq, parse_eq, ended]
  rfl

/-- Six levels and ten tokens are what a small class takes. Neither limit may be any lower, and higher ones
make no difference. -/
theorem parse_withLimits_smallClass :
    ((DomainModel.parser ⟨6, 10⟩).parse smallClass).parseErrors = [] ∧
    (DomainModel.parser ⟨6, 10⟩).limits.maxRuleDepth ≤ ({} : Limits).maxRuleDepth ∧
    (DomainModel.parser ⟨6, 10⟩).limits.maxTokens ≤ ({} : Limits).maxTokens ∧
    ((DomainModel.parser ⟨6, 10⟩).withLimits {}).parse smallClass =
      (DomainModel.parser ⟨6, 10⟩).parse smallClass ∧
    ((DomainModel.parser ⟨5, 10⟩).parse smallClass).parseErrors ≠ [] ∧
    ((DomainModel.parser ⟨6, 9⟩).parse smallClass).parseErrors ≠ [] := by
  have clean : ((DomainModel.parser ⟨6, 10⟩).parse smallClass).parseErrors = [] := by decide +kernel
  have deeper : (DomainModel.parser ⟨6, 10⟩).limits.maxRuleDepth ≤ ({} : Limits).maxRuleDepth := by
    decide +kernel
  have longer : (DomainModel.parser ⟨6, 10⟩).limits.maxTokens ≤ ({} : Limits).maxTokens := by
    decide +kernel
  exact ⟨clean, deeper, longer, parse_withLimits _ smallClass clean deeper longer, by decide +kernel,
    by decide +kernel⟩

end Parser

end Workbench
