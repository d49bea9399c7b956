import Workbench.Proofs.Parser.Ranges
import Workbench.Proofs.Parser.Termination

/-!
**Errors are few and in order.**

A parser that is recovering reports nothing, and it recovers only by taking a token. So let a state be worth
the visible tokens that are left, and one more if the state would report an error. Every error that a rule
reports is paid for: it makes the parser recover, or the token in front of it is skipped. Only an error about
input left at the end is not. With it the parser starts over as if nothing had happened, which is worth
another error; but every such start is behind an earlier one, so there is at most one for each token.

Errors are found at the next visible token or at the end of the text, and a run never goes back. The errors
reported so far and the places where errors can still be found are therefore one ascending list of offsets.
-/

namespace Workbench

/-- How many errors are about input left at the end. -/
def trailingCount (errors : List ParseError) : Nat := errors.countP (·.problem == .trailingInput)

namespace State

/-- Whether an error would be reported, as a number. -/
def alert (s : State) : Nat := if s.recovering then 0 else 1

/-- The offsets at which errors can still be found. -/
def offsets (plan : Plan) (s : State) : List Nat := s.stream.visible.map Token.offset ++ [plan.textEnd]

end State

namespace Interpreter

open State

variable {plan : Plan} {invoke : Invocation} {s t : State}

/-! ### Tokens and errors along a run -/

/-- What the steps of a run do to the input and the errors. -/
inductive Advances (plan : Plan) : State → State → Prop where
  | quiet {s t : State} (stream : t.stream = s.stream) (errors : t.errors = s.errors)
    (recovering : t.recovering = s.recovering) : Advances plan s t
  | trans {s t u : State} : Advances plan s t → Advances plan t u → Advances plan s u
  /-- An error is reported, and what was expected is taken as present or given up. -/
  | fail {s : State} {problem : ParseProblem} (within : problem ≠ .trailingInput) :
    Advances plan s { s.raise plan problem with recovering := true }
  /-- An error is reported and the token found is skipped. -/
  | delete {s : State} {problem : ParseProblem} (within : problem ≠ .trailingInput)
    (left : s.stream.visible ≠ []) : Advances plan s ((s.raise plan problem).consume none).1
  | take {s : State} (feature : Option String) (left : s.stream.visible ≠ []) :
    Advances plan s (({ s with recovering := false }).consume feature).1

namespace Advances

theorem of_silent (h : Silent s t) : Advances plan s t := .quiet h.stream h.errors h.recovering

theorem expect (s : State) (accepts : Token → Bool) {problem : ParseProblem}
    (within : problem ≠ .trailingInput) (feature : Option String) :
    Advances plan s (s.expect plan accepts problem feature).1 := by
  unfold State.expect
  dsimp only
  split
  · next accepted =>
    refine .take feature ?_
    rintro nothing
    rw [TokenStream.peek?_eq_head?, nothing] at accepted
    cases accepted
  · split
    · next accepted =>
      rw [stream_raise, TokenStream.second?_eq_head?] at accepted
      have more : s.stream.visible.tail ≠ [] := by
        rintro nothing
        rw [nothing] at accepted
        cases accepted
      refine .trans (.delete within ?_) (.take feature ?_)
      · rintro nothing
        exact more (by rw [nothing]; rfl)
      · rw [visible_consume, stream_raise]
        exact more
    · exact .fail within

end Advances

theorem respects_advances (hinvoke : ∀ id feature s, Advances plan s (invoke id feature s).state)
    (proper : Proper plan invoke) : Respects plan invoke (Advances plan) where
  refl _ := .quiet rfl rfl rfl
  trans := .trans
  note s i := .of_silent (.note s i)
  report _ _ := .fail (by simp)
  keyword s _ := .expect s _ (by simp)
  terminal s _ _ := .expect s _ (by simp)
  collect s text := .of_silent (.collect s text)
  assign s _ _ feature op := .of_silent (.assign s feature op _)
  refer s _ _ _ _ _ := .of_silent (.makeReference _ _ _ _ _ s)
  retag s type := .of_silent (.retag s type)
  wrap s type feature op := .of_silent (.wrap plan s type feature op)
  returned id feature s _ back := by
    obtain ⟨stream, errors, recovering, -⟩ := back.spec
    exact (hinvoke id feature s).trans (.quiet stream errors recovering)
  plain id feature s _ := (proper id feature s).isPlain

theorem advances_invoke (depth : Nat) (id : RuleId) (feature : Option String) (s : State) :
    Advances plan s (Interpreter.invoke plan depth id feature s).state := by
  induction depth generalizing id feature s with
  | zero =>
    rw [Interpreter.invoke]
    have failed : Advances plan s
        { s.raise plan (.tooDeep plan.limits.maxRuleDepth) with recovering := true } := .fail (by simp)
    exact failed.trans (.of_silent (.note _ _))
  | succ depth ih =>
    rw [Interpreter.invoke]
    split
    · exact .of_silent (.note s _)
    · next rule known =>
      have ran := (respects_advances ih (proper_invoke depth)).runReported rule.body
        { s with frame := Frame.enter id rule.kind }
      obtain ⟨left, -⟩ := leave_spec plan id rule.kind feature (s.nextOffset plan) s.frame
        (runReported plan (Interpreter.invoke plan depth) rule.body
          { s with frame := Frame.enter id rule.kind })
      have entered : Advances plan s { s with frame := Frame.enter id rule.kind } := .quiet rfl rfl rfl
      exact (entered.trans ran).trans (.quiet left.stream left.errors left.recovering)

/-! ### Places of errors -/

theorem recovering_raise (problem : ParseProblem) (s : State) :
    (s.raise plan problem).recovering = s.recovering := by
  unfold State.raise
  split <;> rfl

theorem exists_error (plan : Plan) (problem : ParseProblem) (s : State) :
    ∃ e, (s.record plan problem).errors = s.errors.push e ∧ e.problem = problem ∧
      (s.offsets plan).head? = some e.range.start := by
  refine ⟨_, rfl, rfl, ?_⟩
  rw [offsets, currentRange, TokenStream.peek?_eq_head?]
  cases s.stream.visible <;> rfl

theorem pairwise_found {found ahead : List Nat} {n : Nat} (sorted : (found ++ ahead).Pairwise (· ≤ ·))
    (next : ahead.head? = some n) : ((found ++ [n]) ++ ahead).Pairwise (· ≤ ·) := by
  obtain ⟨rest, rfl⟩ := List.head?_eq_some_iff.1 next
  obtain ⟨before, behind, apart⟩ := List.pairwise_append.1 sorted
  rw [List.append_assoc]
  refine List.pairwise_append.2 ⟨before, ?_, ?_⟩
  · refine List.pairwise_cons.2 ⟨fun m mem => ?_, behind⟩
    rcases List.mem_cons.1 mem with rfl | later
    · exact Nat.le_refl _
    · exact (List.pairwise_cons.1 behind).1 m later
  · intro m earlier k mem
    refine apart m earlier k ?_
    simpa using mem

/-- Taking tokens takes away the places in front of them. -/
theorem pairwise_further {found : List Nat} (sorted : (found ++ s.offsets plan).Pairwise (· ≤ ·))
    (visible : t.stream.visible <:+ s.stream.visible) : (found ++ t.offsets plan).Pairwise (· ≤ ·) :=
  sorted.sublist (((visible.sublist.map _).append_right _).append_left _)

/-! ### Accounts -/

/-- The errors `new` have been reported on the way to a state, since there were `n` visible tokens left and
no errors but the given ones. -/
structure Account (plan : Plan) (before : List ParseError) (n : Nat) (s : State) (new : List ParseError) :
    Prop where
  errors : s.errors.toList = before ++ new
  paid : new.length + s.alert + s.stream.count ≤ 2 * trailingCount new + n + 1
  few : trailingCount new + s.stream.count ≤ n
  ordered : (new.map (·.range.start) ++ s.offsets plan).Pairwise (· ≤ ·)

namespace Account

variable {before new : List ParseError} {n : Nat} {problem : ParseProblem}

theorem quiet (h : Account plan before n s new) (stream : t.stream = s.stream) (errors : t.errors = s.errors)
    (recovering : t.recovering = s.recovering) : Account plan before n t new where
  errors := by rw [errors, h.errors]
  paid := by rw [alert, recovering, stream]; exact h.paid
  few := by rw [stream]; exact h.few
  ordered := by rw [offsets, stream]; exact h.ordered

theorem record (h : Account plan before n s new) (problem : ParseProblem) :
    ∃ e : ParseError, (s.record plan problem).errors.toList = before ++ (new ++ [e]) ∧
      e.problem = problem ∧ ((new ++ [e]).map (·.range.start) ++ s.offsets plan).Pairwise (· ≤ ·) := by
  obtain ⟨e, pushed, rfl, place⟩ := exists_error plan problem s
  refine ⟨e, ?_, rfl, ?_⟩
  · rw [pushed, Array.toList_push, h.errors, List.append_assoc]
  · rw [List.map_append]
    exact pairwise_found h.ordered place

/-- An error is reported by a state that is alert, and by no other. -/
theorem raise (h : Account plan before n s new) (within : problem ≠ .trailingInput) :
    ∃ new', (s.raise plan problem).errors.toList = before ++ new' ∧
      new'.length = new.length + s.alert ∧ trailingCount new' = trailingCount new ∧
      (new'.map (·.range.start) ++ s.offsets plan).Pairwise (· ≤ ·) := by
  unfold State.raise
  cases recovering : s.recovering with
  | true => exact ⟨new, h.errors, by simp [alert, recovering], rfl, h.ordered⟩
  | false =>
    obtain ⟨e, errors, rfl, ordered⟩ := h.record problem
    refine ⟨new ++ [e], errors, by simp [alert, recovering], ?_, ordered⟩
    simp [trailingCount, List.countP_append, within]

/-- The error makes the parser recover. -/
theorem fail (h : Account plan before n s new) (within : problem ≠ .trailingInput) :
    ∃ new', Account plan before n { s.raise plan problem with recovering := true } new' ∧
      trailingCount new' = trailingCount new := by
  obtain ⟨new', errors, length, same, ordered⟩ := h.raise within
  have paid := h.paid
  have few := h.few
  have count : (s.raise plan problem).stream.count = s.stream.count := by rw [stream_raise]
  refine ⟨new', ⟨errors, ?_, ?_, ?_⟩, same⟩
  · change new'.length + 0 + (s.raise plan problem).stream.count ≤ _
    omega
  · change _ + (s.raise plan problem).stream.count ≤ _
    omega
  · exact pairwise_further ordered ⟨[], congrArg TokenStream.visible (stream_raise problem)⟩

theorem count_pos_of_visible (left : s.stream.visible ≠ []) : 0 < s.stream.count :=
  Nat.pos_of_ne_zero fun none => left (TokenStream.count_eq_zero_iff.1 none)

/-- The error is paid for by the token that is skipped. -/
theorem delete (h : Account plan before n s new) (within : problem ≠ .trailingInput)
    (left : s.stream.visible ≠ []) :
    ∃ new', Account plan before n ((s.raise plan problem).consume none).1 new' ∧
      trailingCount new' = trailingCount new := by
  obtain ⟨new', errors, length, same, ordered⟩ := h.raise within
  have paid := h.paid
  have few := h.few
  have some := count_pos_of_visible left
  have alert_le : s.alert ≤ 1 := by unfold alert; split <;> omega
  have count : ((s.raise plan problem).consume none).1.stream.count = s.stream.count - 1 := by
    rw [count_consume, stream_raise]
  have alert : ((s.raise plan problem).consume none).1.alert = s.alert := by
    rw [alert, recovering_consume, recovering_raise, alert]
  refine ⟨new', ⟨?errors, ?paid, ?few, ?ordered⟩, same⟩
  case errors =>
    rw [errors_consume, errors]
  case paid => omega
  case few => omega
  case ordered =>
    refine pairwise_further ordered ?_
    rw [visible_consume, stream_raise]
    exact List.tail_suffix _

/-- The token taken pays for being alert again. -/
theorem take (h : Account plan before n s new) (feature : Option String) (left : s.stream.visible ≠ []) :
    Account plan before n (({ s with recovering := false }).consume feature).1 new := by
  have paid := h.paid
  have few := h.few
  have some := count_pos_of_visible left
  have count : (({ s with recovering := false }).consume feature).1.stream.count = s.stream.count - 1 :=
    count_consume _ _
  have alert : (({ s with recovering := false }).consume feature).1.alert = 1 := by
    rw [alert, recovering_consume]
    rfl
  refine ⟨?errors, ?paid, ?few, ?ordered⟩
  case errors =>
    rw [errors_consume]
    exact h.errors
  case paid => omega
  case few => omega
  case ordered =>
    refine pairwise_further h.ordered ?_
    rw [visible_consume]
    exact List.tail_suffix _

/-- The account is kept along every run of an element. No error of it is about input left at the end. -/
theorem advances (h : Advances plan s t) : ∀ {new}, Account plan before n s new →
    ∃ new', Account plan before n t new' ∧ trailingCount new' = trailingCount new := by
  induction h with
  | quiet stream errors recovering =>
    intro new account
    exact ⟨new, account.quiet stream errors recovering, rfl⟩
  | trans _ _ ih ih' =>
    intro new account
    obtain ⟨new₁, account₁, same₁⟩ := ih account
    obtain ⟨new₂, account₂, same₂⟩ := ih' account₁
    exact ⟨new₂, account₂, same₂.trans same₁⟩
  | fail within =>
    intro new account
    exact account.fail within
  | delete within left =>
    intro new account
    exact account.delete within left
  | take feature left =>
    intro new account
    exact ⟨new, account.take feature left, rfl⟩

/-! ### Starting over -/

theorem errors_skip (plan : Plan) (fuel : Nat) (stalled : Bool) (s : State) :
    (skip plan fuel stalled s).errors = s.errors := by
  induction fuel generalizing stalled s with
  | zero => rfl
  | succ fuel ih =>
    rw [skip]
    split
    · rfl
    · rw [ih, errors_consume]

/-- Each time the entry rule is run again, a token is left behind. It allows for the error about the input
that is left and for one more. -/
theorem resumed (h : Account plan before n s new) (advanced : Advances plan s t) (reached : Reaches plan s t)
    (left : t.stream.count ≠ 0) : ∃ new', Account plan before n (resumed plan s t) new' := by
  obtain ⟨new₁, account, same⟩ := advances advanced h
  obtain ⟨e, errors, trailing, ordered⟩ := account.record .trailingInput
  have less := count_resumed_lt reached left
  have skipped := reaches_skip plan t.stream.count (t.stream.count == s.stream.count)
    (t.record plan .trailingInput)
  have further : (Interpreter.resumed plan s t).stream.count ≤ t.stream.count := skipped.count_le
  have more : trailingCount (new₁ ++ [e]) = trailingCount new₁ + 1 := by
    simp [trailingCount, List.countP_append, trailing]
  have paid := account.paid
  have few := h.few
  refine ⟨new₁ ++ [e], ?errors, ?paid, ?few, ?ordered⟩
  case errors =>
    change (skip plan _ _ _).errors.toList = _
    rw [errors_skip, errors]
  case paid =>
    rw [List.length_append, more]
    change new₁.length + 1 + 1 + _ ≤ _
    omega
  case few => omega
  case ordered => exact pairwise_further ordered skipped.onward.visible

theorem runEntry (advances : ∀ e s, Advances plan s (runReported plan invoke e s))
    (proper : Proper plan invoke) (fuel : Nat) {s : State} {new : List ParseError}
    (h : Account plan before n s new) :
    ∃ new', Account plan before n (Interpreter.runEntry plan invoke fuel s) new' := by
  induction fuel generalizing s new with
  | zero => exact ⟨new, h⟩
  | succ fuel ih =>
    have reached := reaches_runReported proper plan.grammar.entryRule.body s
    have advanced := advances plan.grammar.entryRule.body s
    rw [runEntry_succ]
    dsimp only
    generalize runReported plan invoke plan.grammar.entryRule.body s = t at reached advanced
    split
    · obtain ⟨new', account, -⟩ := Account.advances advanced h
      exact ⟨new', account⟩
    · next left =>
      obtain ⟨new', account⟩ := h.resumed advanced reached left
      split
      · exact ⟨new', account⟩
      · exact ih account

end Account

end Interpreter

/-! ### Documents -/

namespace Parser

open Interpreter

/-- The tokens of a document are ahead in the order of the text, and behind them is its end. -/
theorem pairwise_offsets_opened (p : Parser) {lexed : LexResult} (ordered : Token.InOrder lexed.tokens) :
    ((p.opened lexed).offsets (p.planFor lexed)).Pairwise (· ≤ ·) := by
  have kept : (p.opened lexed).stream.visible.Sublist lexed.tokens :=
    List.filter_sublist.trans (sublist_cutAfter _ _)
  refine List.pairwise_append.2 ⟨List.pairwise_map.2 ?_, List.pairwise_singleton _ _, ?_⟩
  · refine (ordered.sublist kept).apart.imp_of_mem fun {t u} memT _ behind => ?_
    have solid := (ordered.sublist kept).solid t memT
    omega
  · intro offset starts stop isEnd
    obtain ⟨t, isKept, rfl⟩ := List.mem_map.1 starts
    have mem := kept.subset isKept
    obtain ⟨last, isLast⟩ : ∃ last, lexed.tokens.getLast? = some last :=
      ⟨_, List.getLast?_eq_some_getLast (List.ne_nil_of_mem mem)⟩
    have textEnd : stop = last.stop := by
      rw [List.mem_singleton.1 isEnd, planFor, isLast]
      rfl
    have solid := ordered.solid t mem
    have within := ordered.stop_le isLast mem
    omega

theorem account_opened (p : Parser) {lexed : LexResult} (ordered : Token.InOrder lexed.tokens) :
    Account (p.planFor lexed)
      ((cutAfter p.limits.maxTokens lexed.tokens).2.toList.map (cutError p.limits.maxTokens))
      (visibleCount (cutAfter p.limits.maxTokens lexed.tokens).1) (p.opened lexed) [] := by
  have alert : (p.opened lexed).alert = 1 := rfl
  have count : (p.opened lexed).stream.count =
      visibleCount (cutAfter p.limits.maxTokens lexed.tokens).1 := rfl
  refine ⟨(List.append_nil _).symm, ?_, ?_, pairwise_offsets_opened p ordered⟩
  · rw [alert, count, List.length_nil]
    omega
  · rw [count]
    exact Nat.le_of_eq (Nat.zero_add _)

/-- **Error cascades are bounded and ordered**, whatever the grammar, the limits and the text are. The parser
comes to an end even if nothing but a clock bounds its loops. If `kept` are the tokens that the limit leaves,
the body of the entry rule is run at most once for each visible one and once more. Behind the error about
tokens that were cut off, if there is one, the errors are in the order of the text; there are at most three
for each visible token and one more, and at most one for each visible token is about input left at the end. -/
theorem errors_parse (p : Parser) (keywords : List String) (text : String) :
    let lexed := Lexer.tokenize keywords text
    let kept := cutAfter p.limits.maxTokens lexed.tokens
    ∃ runs errors,
      Clocked.ComesTo (Clocked.parse p · lexed) (p.parse lexed, runs) ∧
      runs ≤ visibleCount kept.1 + 1 ∧
      (p.parse lexed).parseErrors = kept.2.toList.map (cutError p.limits.maxTokens) ++ errors ∧
      (errors.map (·.range.start)).Pairwise (· ≤ ·) ∧
      errors.length ≤ 3 * visibleCount kept.1 + 1 ∧ trailingCount errors ≤ visibleCount kept.1 := by
  intro lexed kept
  obtain ⟨runs, ends, few⟩ := Clocked.parse_comesTo p lexed
  have opened := account_opened p (Lexer.inOrder_tokenize keywords text)
  have respects : Respects (p.planFor lexed) _ (Advances (p.planFor lexed)) :=
    respects_advances (advances_invoke (p.limits.maxRuleDepth - 1)) (proper_invoke _)
  obtain ⟨errors, account⟩ := opened.runEntry respects.runReported (proper_invoke _)
    ((p.opened lexed).stream.count + 1)
  have paid : errors.length + _ + _ ≤ 2 * trailingCount errors + visibleCount kept.1 + 1 := account.paid
  have trailing : trailingCount errors + _ ≤ visibleCount kept.1 := account.few
  refine ⟨runs, errors, ends, few, ?_, (List.pairwise_append.1 account.ordered).1, ?_, ?_⟩
  · rw [parse_eq]
    dsimp only
    rw [finish, (State.Finishing.construct _ _ _ _ _ _).errors]
    exact account.errors
  · omega
  · omega

end Parser

end Workbench
