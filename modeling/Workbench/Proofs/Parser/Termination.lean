import Workbench.Proofs.Grammar.Derivation
import Workbench.Proofs.Parser.Lossless

/-!
**Every parse ends.**

The interpreter bounds each of its loops by the number of tokens that are left, and it hands down how deep
rules may still be nested. Here is the same parser with nothing of this. A repetition goes on as long as it
can start and makes progress, tokens are skipped and the entry rule is run again as long as there are any,
and the nesting is compared with the limit wherever a rule is invoked. Only a clock, which every call and
every turn of a loop sets back, makes these functions. A run for which the time is too short has no value, so
one that never ends has none at any clock. Nevertheless every run has one as soon as the clock is set high
enough, and it is that of the interpreter: the no-progress tests and the token that is skipped after an idle
run of the entry rule are enough to end all loops.

The parser under the clock also counts how often the body of the entry rule is run.
-/

namespace Workbench

namespace Clocked

open Interpreter (choose ready)

/-! ### Elements and rules -/

mutual

def run (plan : Plan) : Nat → Nat → Element → State → Option Outcome
  | 0, _, _, _ => none
  | clock + 1, height, e, s =>
    match e with
    | .keyword text =>
      let (s, taken) := s.expectKeyword plan text none
      some { state := if taken.isSome then s.collect text else s }
    | .call id => do
      let s ← call plan clock height id none s
      some { state := s }
    | .assign feature op value => runAssigned plan clock height feature op value s
    | .crossRef _ _ => some { state := s.note .strayCrossRef }
    | .action type none => some { state := s.retag type }
    | .action type (some (feature, op)) => some { state := s.wrap plan type feature op }
    | .group items => runAll plan clock height items s
    | .alternatives items =>
      match choose plan items s with
      | some i => runNth plan clock height items i s
      | none => some { state := s, stuck := some (plan.lookahead.first (.alternatives items)) }
    | .repetition .optional item =>
      if ready plan item s then run plan clock height item s else some { state := s }
    | .repetition .zeroOrMore item => turns plan clock height item s
    | .repetition .oneOrMore item => do
      let out ← run plan clock height item s
      if out.stuck.isSome then some out
      else if out.state.stream.count < s.stream.count then turns plan clock height item out.state
      else some out

/-- Repeats an element as long as it can start and makes progress (`repeat`). -/
def turns (plan : Plan) : Nat → Nat → Element → State → Option Outcome
  | 0, _, _, _ => none
  | clock + 1, height, item, s =>
    if ready plan item s then do
      let out ← run plan clock height item s
      match out.stuck with
      | some expected =>
        if out.state.stream.count < s.stream.count then
          turns plan clock height item (out.state.report plan expected)
        else some out
      | none =>
        if out.state.stream.count < s.stream.count then turns plan clock height item out.state
        else some out
    else some { state := s }

def runAll (plan : Plan) : Nat → Nat → List Element → State → Option Outcome
  | 0, _, _, _ => none
  | _ + 1, _, [], s => some { state := s }
  | clock + 1, height, item :: rest, s => do
    let out ← run plan clock height item s
    if out.stuck.isSome then some out else runAll plan clock height rest out.state

def runNth (plan : Plan) : Nat → Nat → List Element → Nat → State → Option Outcome
  | 0, _, _, _, _ => none
  | _ + 1, _, [], _, s => some { state := s }
  | clock + 1, height, item :: _, 0, s => run plan clock height item s
  | clock + 1, height, _ :: rest, i + 1, s => runNth plan clock height rest i s

def runAssigned (plan : Plan) : Nat → Nat → String → AssignOp → Element → State → Option Outcome
  | 0, _, _, _, _, _ => none
  | clock + 1, height, feature, op, e, s =>
    match e with
    | .keyword text =>
      let (s, taken) := s.expectKeyword plan text (some feature)
      some { state := if taken.isSome then s.assign feature op (.text text) else s }
    | .call id => do
      let s ← call plan clock height id (some (feature, op)) s
      some { state := s }
    | .crossRef target id => do
      let s ← crossReference plan clock height feature op target id s
      some { state := s }
    | .alternatives items =>
      match choose plan items s with
      | some i => runAssignedNth plan clock height feature op items i s
      | none => some { state := s, stuck := some (plan.lookahead.first (.alternatives items)) }
    | _ => some { state := s.note .unassignable }

def runAssignedNth (plan : Plan) :
    Nat → Nat → String → AssignOp → List Element → Nat → State → Option Outcome
  | 0, _, _, _, _, _, _ => none
  | _ + 1, _, _, _, [], _, s => some { state := s }
  | clock + 1, height, feature, op, item :: _, 0, s => runAssigned plan clock height feature op item s
  | clock + 1, height, feature, op, _ :: rest, i + 1, s =>
    runAssignedNth plan clock height feature op rest i s

/-- Calls a rule (`call`). What the caller does with the answer of an invocation has no loop in it. -/
def call (plan : Plan) : Nat → Nat → RuleId → Option (String × AssignOp) → State → Option State
  | 0, _, _, _, _ => none
  | clock + 1, height, id, target, s =>
    match plan.grammar.body? id with
    | none => some (Interpreter.call plan (Interpreter.invoke plan 0) id target s)
    | some _ => do
      let out ← invoke plan clock height id (target.map (·.1)) s
      some (Interpreter.call plan (fun _ _ _ => out) id target s)

def crossReference (plan : Plan) :
    Nat → Nat → String → AssignOp → TypeId → RuleId → State → Option State
  | 0, _, _, _, _, _, _ => none
  | clock + 1, height, feature, op, target, id, s =>
    match plan.grammar.body? id with
    | none =>
      some (Interpreter.crossReference plan (Interpreter.invoke plan 0) feature op target id s)
    | some _ => do
      let out ← invoke plan clock height id (some feature) s
      some (Interpreter.crossReference plan (fun _ _ _ => out) feature op target id s)

/-- Invokes a rule while `height` rules are under way (`invoke_rule`). -/
def invoke (plan : Plan) : Nat → Nat → RuleId → Option String → State → Option Invoked
  | 0, _, _, _, _ => none
  | clock + 1, height, id, feature, s =>
    if plan.limits.maxRuleDepth ≤ height then some (Interpreter.invoke plan 0 id feature s)
    else
      match plan.grammar.rules[id]? with
      | none => some { state := s.note .unknownRule }
      | some rule => do
        let ended ← runReported plan clock (height + 1) rule.body
          { s with frame := Frame.enter id rule.kind }
        some (Interpreter.leave plan id rule.kind feature (s.nextOffset plan) s.frame ended)

def runReported (plan : Plan) : Nat → Nat → Element → State → Option State
  | 0, _, _, _ => none
  | clock + 1, height, e, s => do
    let out ← run plan clock height e s
    some (match out.stuck with
      | some expected => out.state.report plan expected
      | none => out.state)

end

/-! ### Documents -/

/-- Skips tokens up to one with which the entry rule can start. -/
def skip (plan : Plan) : Nat → Bool → State → Option State
  | 0, _, _ => none
  | clock + 1, stalled, s =>
    if s.stream.count = 0 || (!stalled && ready plan plan.grammar.entryRule.body s) then some s
    else skip plan clock false (s.consume none).1

/-- Runs the body of the entry rule until the input is used up, and counts how often (`parse_entry`). -/
def runEntry (plan : Plan) : Nat → State → Option (State × Nat)
  | 0, _ => none
  | clock + 1, s => do
    let ran ← runReported plan clock 1 plan.grammar.entryRule.body s
    if ran.stream.count = 0 then some (ran, 1)
    else
      let skipped ← skip plan clock (ran.stream.count == s.stream.count) (ran.record plan .trailingInput)
      if skipped.stream.count = 0 then some ({ skipped with recovering := false }, 1)
      else
        let (last, runs) ← runEntry plan clock { skipped with recovering := false }
        some (last, runs + 1)

/-- Parses tokens, and counts how often the body of the entry rule is run (`parse`). -/
def parse (p : Parser) (clock : Nat) (lexed : LexResult) : Option (ParseResult × Nat) := do
  let (ended, runs) ← runEntry (p.planFor lexed) clock (p.opened lexed)
  let (ended, ast) := Parser.finish (p.planFor lexed) ended
  some ({
    ast
    lexErrors := lexed.errors
    parseErrors := ended.errors.toList
    incidents := ended.incidents }, runs)

/-! ### Coming to an end -/

/-- A run has the value `a` as soon as the clock is set high enough. -/
def ComesTo {α : Type} (run : Nat → Option α) (a : α) : Prop :=
  ∃ enough, ∀ clock, enough ≤ clock → run clock = some a

namespace ComesTo

variable {α β : Type} {f g : Nat → Option α} {a : α} {b : β}

theorem now (a : α) : ComesTo (fun _ => some a) a := ⟨0, fun _ _ => rfl⟩

theorem tick (step : ∀ clock, f (clock + 1) = g clock) (ends : ComesTo g a) : ComesTo f a := by
  obtain ⟨enough, ends⟩ := ends
  refine ⟨enough + 1, fun clock le => ?_⟩
  obtain ⟨clock, rfl⟩ : ∃ less, clock = less + 1 := ⟨clock - 1, by omega⟩
  rw [step]
  exact ends clock (Nat.le_of_succ_le_succ le)

/-- What needs no time is done in one step. -/
theorem once (step : ∀ clock, f (clock + 1) = some a) : ComesTo f a := tick step (now a)

theorem bind {rest : Nat → α → Option β} (first : ComesTo f a) (second : ComesTo (rest · a) b) :
    ComesTo (fun clock => (f clock).bind (rest clock)) b := by
  obtain ⟨enough, ends⟩ := first
  obtain ⟨enough', ends'⟩ := second
  refine ⟨max enough enough', fun clock le => ?_⟩
  dsimp only
  rw [ends clock (Nat.le_trans (Nat.le_max_left _ _) le)]
  exact ends' clock (Nat.le_trans (Nat.le_max_right _ _) le)

end ComesTo

/-! ### Loops end -/

variable {plan : Plan} {height : Nat} {invocation : Invocation}

/-- While `height` rules are under way, every invocation ends as this one does. -/
def Meets (plan : Plan) (height : Nat) (invocation : Invocation) : Prop :=
  ∀ id feature s, ComesTo (invoke plan · height id feature s) (invocation id feature s)

theorem count_ne_zero_of_ready {e : Element} {s : State} (isReady : ready plan e s = true) :
    s.stream.count ≠ 0 := by
  intro none
  rw [ready, TokenStream.peek?_eq_head?, TokenStream.count_eq_zero_iff.1 none] at isReady
  cases isReady

/-- A repetition ends: each turn but the last one takes a token. -/
theorem turns_comesTo {item : Element}
    (body : ∀ s, ComesTo (run plan · height item s) (Interpreter.run plan invocation item s)) (fuel : Nat)
    {s : State} (enough : s.stream.count ≤ fuel) :
    ComesTo (turns plan · height item s)
      (Interpreter.turns plan (ready plan item) (Interpreter.run plan invocation item) fuel s) := by
  induction fuel generalizing s with
  | zero =>
    have notReady : ¬ ready plan item s = true := fun isReady =>
      count_ne_zero_of_ready isReady (Nat.le_zero.1 enough)
    exact .once fun clock => by rw [turns, if_neg notReady]; rfl
  | succ fuel ih =>
    by_cases isReady : ready plan item s = true
    · have ran := body s
      refine .tick (fun clock => by rw [turns, if_pos isReady]; rfl) (ran.bind ?_)
      rw [Interpreter.turns, if_pos isReady]
      generalize Interpreter.run plan invocation item s = out
      dsimp only
      cases stuck : out.stuck with
      | some expected =>
        by_cases progress : out.state.stream.count < s.stream.count
        · have same : (out.state.report plan expected).stream = out.state.stream :=
            State.stream_raise (.noAlternative expected)
          simp only [progress, if_true, decide_true]
          exact ih (by rw [same]; omega)
        · simp only [progress, if_false, decide_false, Bool.false_eq_true]
          exact .now out
      | none =>
        by_cases progress : out.state.stream.count < s.stream.count
        · simp only [progress, if_true, decide_true]
          exact ih (by omega)
        · simp only [progress, if_false, decide_false, Bool.false_eq_true]
          exact .now out
    · rw [Interpreter.turns, if_neg isReady]
      exact .once fun clock => by rw [turns, if_neg isReady]

/-- A call of a terminal rule invokes nothing. -/
theorem call_of_terminal {id : RuleId} (terminal : plan.grammar.body? id = none)
    (invoke invoke' : Invocation) (target : Option (String × AssignOp)) (s : State) :
    Interpreter.call plan invoke id target s = Interpreter.call plan invoke' id target s := by
  unfold Interpreter.call
  cases known : plan.grammar.rules[id]? with
  | none => rfl
  | some rule =>
    dsimp only
    split
    · rfl
    · next other =>
      rw [Grammar.body?_of_rule known (RuleKind.terminal?_eq_none other)] at terminal
      cases terminal

theorem crossReference_of_terminal {id : RuleId} (terminal : plan.grammar.body? id = none)
    (invoke invoke' : Invocation) (feature : String) (op : AssignOp) (target : TypeId) (s : State) :
    Interpreter.crossReference plan invoke feature op target id s =
      Interpreter.crossReference plan invoke' feature op target id s := by
  unfold Interpreter.crossReference
  cases known : plan.grammar.rules[id]? with
  | none => rfl
  | some rule =>
    dsimp only
    split
    · rfl
    · next other =>
      rw [Grammar.body?_of_rule known (RuleKind.terminal?_eq_none other)] at terminal
      cases terminal

theorem call_comesTo (meets : Meets plan height invocation) (id : RuleId)
    (target : Option (String × AssignOp)) (s : State) :
    ComesTo (call plan · height id target s) (Interpreter.call plan invocation id target s) := by
  cases known : plan.grammar.body? id with
  | none =>
    rw [call_of_terminal known invocation (Interpreter.invoke plan 0)]
    exact .once fun clock => by rw [call, known]
  | some body =>
    exact .tick (fun clock => by rw [call, known]; rfl) ((meets id _ s).bind (.now _))

theorem crossReference_comesTo (meets : Meets plan height invocation) (feature : String) (op : AssignOp)
    (target : TypeId) (id : RuleId) (s : State) :
    ComesTo (crossReference plan · height feature op target id s)
      (Interpreter.crossReference plan invocation feature op target id s) := by
  cases known : plan.grammar.body? id with
  | none =>
    rw [crossReference_of_terminal known invocation (Interpreter.invoke plan 0)]
    exact .once fun clock => by rw [crossReference, known]
  | some body =>
    exact .tick (fun clock => by rw [crossReference, known]; rfl) ((meets id _ s).bind (.now _))

/-! ### Elements end -/

mutual

theorem run_comesTo (meets : Meets plan height invocation) : ∀ (e : Element) (s : State),
    ComesTo (run plan · height e s) (Interpreter.run plan invocation e s)
  | .keyword text, s => by
    rw [Interpreter.run]
    exact .once fun clock => by rw [run]
  | .call id, s => by
    rw [Interpreter.run]
    exact .tick (fun clock => by rw [run]; rfl) ((call_comesTo meets id none s).bind (.now _))
  | .assign feature op value, s => by
    rw [Interpreter.run]
    exact .tick (fun clock => by rw [run]) (runAssigned_comesTo meets feature op value s)
  | .crossRef _ _, s => by
    rw [Interpreter.run]
    exact .once fun clock => by rw [run]
  | .action type none, s => by
    rw [Interpreter.run]
    exact .once fun clock => by rw [run]
  | .action type (some (feature, op)), s => by
    rw [Interpreter.run]
    exact .once fun clock => by rw [run]
  | .group items, s => by
    rw [Interpreter.run]
    exact .tick (fun clock => by rw [run]) (runAll_comesTo meets items s)
  | .alternatives items, s => by
    rw [Interpreter.run]
    cases chosen : choose plan items s with
    | some i => exact .tick (fun clock => by rw [run]; rw [chosen]) (runNth_comesTo meets items i s)
    | none => exact .once fun clock => by rw [run]; rw [chosen]
  | .repetition cardinality item, s => by
    have body := run_comesTo meets item
    rw [Interpreter.run]
    cases cardinality with
    | optional =>
      dsimp only [Interpreter.repeated]
      by_cases isReady : ready plan item s = true
      · rw [if_pos isReady]
        exact .tick (fun clock => by rw [run, if_pos isReady]) (body s)
      · rw [if_neg isReady]
        exact .once fun clock => by rw [run, if_neg isReady]
    | zeroOrMore => exact .tick (fun clock => by rw [run]) (turns_comesTo body _ (Nat.le_refl _))
    | oneOrMore =>
      refine .tick (fun clock => by rw [run]; rfl) ((body s).bind ?_)
      dsimp only [Interpreter.repeated]
      split
      · exact .now _
      · split
        · exact turns_comesTo body _ (Nat.le_refl _)
        · exact .now _

theorem runAll_comesTo (meets : Meets plan height invocation) : ∀ (items : List Element) (s : State),
    ComesTo (runAll plan · height items s) (Interpreter.runAll plan invocation items s)
  | [], s => by
    rw [Interpreter.runAll]
    exact .once fun clock => by rw [runAll]
  | item :: rest, s => by
    rw [Interpreter.runAll]
    refine .tick (fun clock => by rw [runAll]; rfl) ((run_comesTo meets item s).bind ?_)
    split
    · exact .now _
    · exact runAll_comesTo meets rest _

theorem runNth_comesTo (meets : Meets plan height invocation) :
    ∀ (items : List Element) (i : Nat) (s : State),
      ComesTo (runNth plan · height items i s) (Interpreter.runNth plan invocation items i s)
  | [], _, s => by
    rw [Interpreter.runNth]
    exact .once fun clock => by rw [runNth]
  | item :: _, 0, s => by
    rw [Interpreter.runNth]
    exact .tick (fun clock => by rw [runNth]) (run_comesTo meets item s)
  | _ :: rest, i + 1, s => by
    rw [Interpreter.runNth]
    exact .tick (fun clock => by rw [runNth]) (runNth_comesTo meets rest i s)

theorem runAssigned_comesTo (meets : Meets plan height invocation) (feature : String) (op : AssignOp) :
    ∀ (e : Element) (s : State), ComesTo (runAssigned plan · height feature op e s)
      (Interpreter.runAssigned plan invocation feature op e s)
  | .keyword text, s => by
    rw [Interpreter.runAssigned]
    exact .once fun clock => by rw [runAssigned]
  | .call id, s => by
    rw [Interpreter.runAssigned]
    exact .tick (fun clock => by rw [runAssigned]; rfl) ((call_comesTo meets id _ s).bind (.now _))
  | .crossRef target id, s => by
    rw [Interpreter.runAssigned]
    exact .tick (fun clock => by rw [runAssigned]; rfl)
      ((crossReference_comesTo meets feature op target id s).bind (.now _))
  | .alternatives items, s => by
    rw [Interpreter.runAssigned]
    cases chosen : choose plan items s with
    | some i =>
      exact .tick (fun clock => by rw [runAssigned]; rw [chosen])
        (runAssignedNth_comesTo meets feature op items i s)
    | none => exact .once fun clock => by rw [runAssigned]; rw [chosen]
  | .assign .., s => by
    simp only [Interpreter.runAssigned]
    exact .once fun clock => by simp only [runAssigned]
  | .action .., s => by
    simp only [Interpreter.runAssigned]
    exact .once fun clock => by simp only [runAssigned]
  | .group _, s => by
    simp only [Interpreter.runAssigned]
    exact .once fun clock => by simp only [runAssigned]
  | .repetition .., s => by
    simp only [Interpreter.runAssigned]
    exact .once fun clock => by simp only [runAssigned]

theorem runAssignedNth_comesTo (meets : Meets plan height invocation) (feature : String) (op : AssignOp) :
    ∀ (items : List Element) (i : Nat) (s : State),
      ComesTo (runAssignedNth plan · height feature op items i s)
        (Interpreter.runAssignedNth plan invocation feature op items i s)
  | [], _, s => by
    rw [Interpreter.runAssignedNth]
    exact .once fun clock => by rw [runAssignedNth]
  | item :: _, 0, s => by
    rw [Interpreter.runAssignedNth]
    exact .tick (fun clock => by rw [runAssignedNth]) (runAssigned_comesTo meets feature op item s)
  | _ :: rest, i + 1, s => by
    rw [Interpreter.runAssignedNth]
    exact .tick (fun clock => by rw [runAssignedNth]) (runAssignedNth_comesTo meets feature op rest i s)

end

/-! ### Rules and documents end -/

theorem runReported_comesTo (meets : Meets plan height invocation) (e : Element) (s : State) :
    ComesTo (runReported plan · height e s) (Interpreter.runReported plan invocation e s) :=
  .tick (fun clock => by rw [runReported]; rfl) ((run_comesTo meets e s).bind (.now _))

/-- The nesting ends at the limit. -/
theorem meets_invoke (plan : Plan) (height : Nat) :
    Meets plan height (Interpreter.invoke plan (plan.limits.maxRuleDepth - height)) := by
  induction depth : plan.limits.maxRuleDepth - height generalizing height with
  | zero =>
    intro id feature s
    exact .once fun clock => by rw [invoke, if_pos (Nat.le_of_sub_eq_zero depth)]
  | succ depth' ih =>
    intro id feature s
    have room : ¬ plan.limits.maxRuleDepth ≤ height := by omega
    rw [Interpreter.invoke]
    cases known : plan.grammar.rules[id]? with
    | none => exact .once fun clock => by rw [invoke, if_neg room, known]
    | some rule =>
      have inside := runReported_comesTo (ih (height + 1) (by omega)) rule.body
        { s with frame := Frame.enter id rule.kind }
      exact .tick (fun clock => by rw [invoke, if_neg room, known]; rfl) (inside.bind (.now _))

/-- Skipping ends when there are no tokens left. -/
theorem skip_comesTo (plan : Plan) (fuel : Nat) (stalled : Bool) {s : State}
    (enough : s.stream.count ≤ fuel) :
    ComesTo (skip plan · stalled s) (Interpreter.skip plan fuel stalled s) := by
  induction fuel generalizing stalled s with
  | zero =>
    have none : s.stream.count = 0 := Nat.le_zero.1 enough
    exact .once fun clock => by rw [skip, if_pos (by simp [none])]; rfl
  | succ fuel ih =>
    rw [Interpreter.skip]
    split
    · next done => exact .once fun clock => by rw [skip, if_pos done]
    · next further =>
      refine .tick (fun clock => by rw [skip, if_neg further]) (ih false ?_)
      rw [Interpreter.count_consume]
      omega

/-- The entry rule is run again only after a token was taken or skipped. -/
theorem runEntry_comesTo (meets : Meets plan 1 invocation) (proper : Interpreter.Proper plan invocation)
    (fuel : Nat) {s : State} (enough : s.stream.count < fuel) :
    ∃ runs, ComesTo (runEntry plan · s) (Interpreter.runEntry plan invocation fuel s, runs) ∧
      runs ≤ s.stream.count + 1 := by
  induction fuel generalizing s with
  | zero => omega
  | succ fuel ih =>
    have reached := Interpreter.reaches_runReported proper plan.grammar.entryRule.body s
    have ran := runReported_comesTo meets plan.grammar.entryRule.body s
    rw [Interpreter.runEntry_succ]
    dsimp only
    generalize Interpreter.runReported plan invocation plan.grammar.entryRule.body s = t at reached ran
    by_cases ended : t.stream.count = 0
    · rw [if_pos ended]
      refine ⟨1, .tick (fun clock => by rw [runEntry]; rfl) (ran.bind ?_), by omega⟩
      simp only [if_pos ended]
      exact .now _
    · rw [if_neg ended]
      have less := Interpreter.count_resumed_lt reached ended
      have skipped : ComesTo
          (skip plan · (t.stream.count == s.stream.count) (t.record plan .trailingInput)) _ :=
        skip_comesTo plan t.stream.count _ (Nat.le_refl _)
      rw [Interpreter.resumed] at less ⊢
      generalize Interpreter.skip plan t.stream.count _ (t.record plan .trailingInput) = u at less skipped
      dsimp only at less ⊢
      by_cases exhausted : u.stream.count = 0
      · rw [if_pos exhausted]
        refine ⟨1, .tick (fun clock => by rw [runEntry]; rfl) (ran.bind ?_), by omega⟩
        simp only [if_neg ended]
        refine skipped.bind ?_
        simp only [if_pos exhausted]
        exact .now _
      · rw [if_neg exhausted]
        obtain ⟨runs, again, few⟩ := ih (s := { u with recovering := false })
          (Nat.lt_of_lt_of_le less (Nat.le_of_lt_succ enough))
        dsimp only at few
        refine ⟨runs + 1, .tick (fun clock => by rw [runEntry]; rfl) (ran.bind ?_), by omega⟩
        simp only [if_neg ended]
        refine skipped.bind ?_
        simp only [if_neg exhausted]
        exact again.bind (.now _)

/-- The parser under a clock comes to an end, and to what the parser comes to. The body of the entry rule is
run at most once for each token and once more. -/
theorem parse_comesTo (p : Parser) (lexed : LexResult) :
    ∃ runs, ComesTo (parse p · lexed) (p.parse lexed, runs) ∧
      runs ≤ (p.opened lexed).stream.count + 1 := by
  obtain ⟨runs, ends, few⟩ := runEntry_comesTo (meets_invoke (p.planFor lexed) 1)
    (Interpreter.proper_invoke _) _ (Nat.lt_succ_self (p.opened lexed).stream.count)
  exact ⟨runs, ends.bind (.now _), few⟩

end Clocked

end Workbench
