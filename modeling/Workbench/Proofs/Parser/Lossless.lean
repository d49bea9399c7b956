import Workbench.DomainModel.Grammar
import Workbench.Proofs.Lexer
import Workbench.Proofs.Parser.Input

/-!
**Source trees are lossless.**

Whatever the grammar is and however the input is broken, the leaves of the source tree are the tokens
of the input, each once and in order. A limit on the visible tokens cuts the list before the first one
that is too many, and nothing else is ever left out. Where the tokens come from a text that has no
stray characters, the source tree spells that text.

A run keeps the tokens it has taken and the tokens that are left together (`Onward.tokens`), so all that
remains to be shown is that no visible token is left in the end.
-/

namespace Workbench

namespace Interpreter

open State

variable {plan : Plan} {invoke : Invocation}

/-! ### The end of the input -/

theorem count_consume (s : State) (feature : Option String) :
    (s.consume feature).1.stream.count = s.stream.count - 1 := by
  rw [TokenStream.count_eq_length, visible_consume, List.length_tail, ← TokenStream.count_eq_length]

/-- Where nothing was taken before, at least one token is skipped. -/
theorem count_skip_lt (plan : Plan) {s : State} (left : s.stream.count ≠ 0) :
    (skip plan s.stream.count true s).stream.count < s.stream.count := by
  obtain ⟨fuel, eq⟩ := Nat.exists_eq_succ_of_ne_zero left
  have skipped := (reaches_skip plan fuel false (s.consume none).1).count_le
  rw [count_consume] at skipped
  rw [eq, skip, if_neg (by simp [left]), ← eq]
  omega

/-- The state in which the entry rule is run again, after a run from `s` to `t` that has left tokens. -/
def resumed (plan : Plan) (s t : State) : State :=
  { skip plan t.stream.count (t.stream.count == s.stream.count) (t.record plan .trailingInput) with
    recovering := false }

theorem runEntry_succ (plan : Plan) (invoke : Invocation) (fuel : Nat) (s : State) :
    runEntry plan invoke (fuel + 1) s =
      let t := runReported plan invoke plan.grammar.entryRule.body s
      if t.stream.count = 0 then t
      else
        let u := resumed plan s t
        if u.stream.count = 0 then u else runEntry plan invoke fuel u := rfl

/-- Every run of the entry rule takes a token, or one is skipped after it. -/
theorem count_resumed_lt {s t : State} (reached : Reaches plan s t) (left : t.stream.count ≠ 0) :
    (resumed plan s t).stream.count < s.stream.count := by
  have le := reached.count_le
  change (skip plan t.stream.count _ (t.record plan .trailingInput)).stream.count < s.stream.count
  by_cases stalled : t.stream.count = s.stream.count
  · -- the run has taken nothing: the first token is skipped whatever it is
    have less := count_skip_lt plan (s := t.record plan .trailingInput) left
    rw [beq_iff_eq.2 stalled]
    exact Nat.lt_of_lt_of_le less le
  · have further := (reaches_skip plan t.stream.count (t.stream.count == s.stream.count)
      (t.record plan .trailingInput)).count_le
    exact Nat.lt_of_le_of_lt further (Nat.lt_of_le_of_ne le stalled)

/-- The entry rule is run until no visible token is left. -/
theorem count_runEntry (hinvoke : Proper plan invoke) (fuel : Nat) (s : State)
    (enough : s.stream.count < fuel) : (runEntry plan invoke fuel s).stream.count = 0 := by
  induction fuel generalizing s with
  | zero => omega
  | succ fuel ih =>
    have reached := reaches_runReported hinvoke plan.grammar.entryRule.body s
    rw [runEntry_succ]
    dsimp only
    generalize runReported plan invoke plan.grammar.entryRule.body s = t at reached
    split
    · assumption
    · next left =>
      have less := count_resumed_lt reached left
      split
      · assumption
      · exact ih _ (Nat.lt_of_lt_of_le less (Nat.le_of_lt_succ enough))

end Interpreter

namespace Parser

open Interpreter SourceTree

/-! ### Limits -/

/-- The number of tokens that the grammar sees. -/
def visibleCount (tokens : List Token) : Nat := (tokens.filter Token.isVisible).length

theorem cutAfter_of_le {limit : Nat} {tokens : List Token} (h : visibleCount tokens ≤ limit) :
    cutAfter limit tokens = (tokens, none) := by
  fun_induction cutAfter limit tokens with
  | case1 => rfl
  | case2 limit t rest hidden kept cut eq ih =>
    have invisible : t.isVisible = false := by simpa using hidden
    rw [visibleCount, List.filter_cons_of_neg (by simp [invisible])] at h
    have all := ih h
    simp_all
  | case3 t rest shown =>
    have visible : t.isVisible = true := by simpa using shown
    rw [visibleCount, List.filter_cons_of_pos visible, List.length_cons] at h
    omega
  | case4 t rest shown limit kept cut eq ih =>
    have visible : t.isVisible = true := by simpa using shown
    rw [visibleCount, List.filter_cons_of_pos visible, List.length_cons] at h
    have all := ih (by rw [visibleCount]; omega)
    simp_all

theorem cutAfter_of_lt {limit : Nat} {tokens : List Token} (h : limit < visibleCount tokens) :
    ∃ t rest, cutAfter limit tokens = ((cutAfter limit tokens).1, some t) ∧
      tokens = (cutAfter limit tokens).1 ++ t :: rest ∧ t.isVisible = true ∧
      visibleCount (cutAfter limit tokens).1 = limit := by
  fun_induction cutAfter limit tokens with
  | case1 => simp [visibleCount] at h
  | case2 limit t rest hidden kept cut eq ih =>
    have invisible : t.isVisible = false := by simpa using hidden
    rw [visibleCount, List.filter_cons_of_neg (by simp [invisible])] at h
    obtain ⟨u, tail, cutAt, tokens, visible, full⟩ := ih h
    rw [eq] at cutAt tokens full
    cases cutAt
    refine ⟨u, tail, rfl, by simp [tokens], visible, ?_⟩
    rw [visibleCount, List.filter_cons_of_neg (by simp [invisible])]
    exact full
  | case3 t rest shown => exact ⟨t, rest, rfl, rfl, by simpa using shown, rfl⟩
  | case4 t rest shown limit kept cut eq ih =>
    have visible : t.isVisible = true := by simpa using shown
    rw [visibleCount, List.filter_cons_of_pos visible, List.length_cons] at h
    obtain ⟨u, tail, cutAt, tokens, isVisible, full⟩ := ih (by rw [visibleCount]; omega)
    rw [eq] at cutAt tokens full
    cases cutAt
    refine ⟨u, tail, rfl, by simp [tokens], isVisible, ?_⟩
    rw [visibleCount, List.filter_cons_of_pos visible, List.length_cons]
    exact congrArg (· + 1) full

theorem sublist_cutAfter (limit : Nat) (tokens : List Token) :
    (cutAfter limit tokens).1.Sublist tokens := by
  rcases Nat.lt_or_ge limit (visibleCount tokens) with beyond | within
  · obtain ⟨extra, rest, -, split, -⟩ := cutAfter_of_lt beyond
    exact List.IsPrefix.sublist ⟨extra :: rest, split.symm⟩
  · simp [cutAfter_of_le within]

/-! ### Documents -/

/-- The tree of a finished document holds the tokens taken and the hidden ones at the end. -/
theorem leaves_finish (plan : Plan) (s : State) :
    (finish plan s).2.source.leaves = s.taken ++ s.stream.hiddenFront := by
  simp [finish, leaves, State.flushHidden, State.attach, State.taken]

/-- In the end no visible token is left. -/
theorem count_ended (p : Parser) (lexed : LexResult) : (p.ended lexed).stream.count = 0 :=
  count_runEntry (proper_invoke _) _ _ (Nat.lt_succ_self _)

/-- The leaves of a parsed document are the tokens that the limit leaves. -/
theorem leaves_source_parse (p : Parser) (lexed : LexResult) :
    (p.parse lexed).ast.source.leaves = (cutAfter p.limits.maxTokens lexed.tokens).1 := by
  have tokens := (p.reaches_ended lexed).onward.tokens
  rw [parse_eq]
  dsimp only
  rw [leaves_finish, TokenStream.hiddenFront_eq_tokens (p.count_ended lexed), tokens]
  simp [opened, State.taken, leavesOf, TokenStream.of]

/-- **No token gets lost.** The leaves of the source tree are the tokens of the input in order; past the
limit they are the tokens before the first visible one that is too many. A text without stray
characters that stays below the limit is spelled by its source tree, whether it is a sentence of the
grammar or not. -/
theorem leaves_parse (p : Parser) (lexed : LexResult) :
    (visibleCount lexed.tokens ≤ p.limits.maxTokens →
      (p.parse lexed).ast.source.leaves = lexed.tokens) ∧
    (p.limits.maxTokens < visibleCount lexed.tokens →
      ∃ extra rest, lexed.tokens = (p.parse lexed).ast.source.leaves ++ extra :: rest ∧
        extra.isVisible = true ∧
        visibleCount (p.parse lexed).ast.source.leaves = p.limits.maxTokens) ∧
    ∀ keywords text, lexed = Lexer.tokenize keywords text → lexed.errors = [] →
      visibleCount lexed.tokens ≤ p.limits.maxTokens → (p.parse lexed).ast.source.text = text := by
  rw [leaves_source_parse]
  refine ⟨?_, ?_, ?_⟩
  · intro within
    rw [cutAfter_of_le within]
  · intro beyond
    obtain ⟨extra, rest, -, tokens, visible, full⟩ := cutAfter_of_lt beyond
    exact ⟨extra, rest, tokens, visible, full⟩
  · rintro keywords text rfl faultless within
    rw [SourceTree.text, leaves_source_parse, cutAfter_of_le within]
    exact Lexer.join_images_tokenize faultless

/-- A class whose braces are missing, with a comment in front. -/
def openClass : LexResult := Lexer.tokenize ["class", "\x7b", "\x7d"] "// no braces\n class A ^B"

/-- Neither the errors of a broken class nor a limit lose a token of it. -/
theorem leaves_parse_openClass :
    ((DomainModel.parser {}).parse openClass).parseErrors ≠ [] ∧
    ((DomainModel.parser {}).parse openClass).ast.source.leaves = openClass.tokens ∧
    ((DomainModel.parser {}).parse openClass).ast.source.text = "// no braces\n class A ^B" ∧
    ∃ extra rest,
      openClass.tokens =
        ((DomainModel.parser ⟨512, 2⟩).parse openClass).ast.source.leaves ++ extra :: rest ∧
      extra.isVisible = true ∧
      visibleCount ((DomainModel.parser ⟨512, 2⟩).parse openClass).ast.source.leaves = 2 := by
  have faultless : openClass.errors = [] := by decide +kernel
  have within : visibleCount openClass.tokens ≤ (DomainModel.parser {}).limits.maxTokens := by
    decide +kernel
  have beyond : (DomainModel.parser ⟨512, 2⟩).limits.maxTokens < visibleCount openClass.tokens := by
    decide +kernel
  obtain ⟨all, -, spelled⟩ := leaves_parse (DomainModel.parser {}) openClass
  obtain ⟨-, cut, -⟩ := leaves_parse (DomainModel.parser ⟨512, 2⟩) openClass
  exact ⟨by decide +kernel, all within, spelled _ _ rfl faultless within, cut beyond⟩

end Parser

end Workbench
