import Mathlib.Data.List.TakeWhile
import Workbench.Parser.Stream

/-!
**Taking tokens from a stream.**

A stream that still has a visible token is a run of hidden tokens, that token, and the rest. Everything
else about a stream is read off this: what comes next, how many visible tokens there are, and that a
stream without a visible token holds hidden ones only.
-/

namespace Workbench

namespace Token

@[simp] theorem isHidden_eq_not_isVisible (t : Token) : t.isHidden = !t.isVisible := by
  simp [isHidden, isVisible]

end Token

namespace TokenStream

/-- The visible tokens still to be taken. -/
def visible (s : TokenStream) : List Token := s.tokens.filter Token.isVisible

variable {s rest : TokenStream} {t : Token} {hidden : List Token}

theorem count_eq_length (s : TokenStream) : s.count = s.visible.length := s.count_eq

theorem peek?_eq_head? (s : TokenStream) : s.peek? = s.visible.head? := by
  simp [peek?, visible, List.head?_filter]

theorem second?_eq_head? (s : TokenStream) : s.second? = s.visible.tail.head? := by
  unfold second? visible
  cases split : s.tokens.dropWhile Token.isHidden with
  | nil =>
    have allHidden := List.dropWhile_eq_nil_iff.1 split
    have noneVisible : s.tokens.filter Token.isVisible = [] := by
      simpa [List.filter_eq_nil_iff] using allHidden
    rw [noneVisible]
    rfl
  | cons t rest => rw [filter_visible_of_dropWhile split, List.tail_cons, List.tail_cons, List.head?_filter]

theorem count_eq_zero_iff : s.count = 0 ↔ s.visible = [] := by
  rw [count_eq_length, List.length_eq_zero_iff]

theorem next?_eq_some (h : s.next? = some (hidden, t, rest)) :
    s.tokens = hidden ++ t :: rest.tokens ∧ (∀ u ∈ hidden, u.isVisible = false) ∧
      t.isVisible = true := by
  unfold next? at h
  split at h
  · cases h
  · next u tail split =>
    simp only [Option.some.injEq, Prod.mk.injEq] at h
    obtain ⟨rfl, rfl, rfl⟩ := h
    refine ⟨?_, ?_, ?_⟩
    · change s.tokens = s.hiddenFront ++ u :: tail
      rw [hiddenFront, ← split, List.takeWhile_append_dropWhile]
    · intro v mem
      have isHidden := List.mem_takeWhile_imp mem
      simpa using isHidden
    · have head := List.head?_dropWhile_not Token.isHidden s.tokens
      rw [split] at head
      simpa using head

theorem hidden_of_next? (h : s.next? = some (hidden, t, rest)) : hidden = s.hiddenFront := by
  unfold next? at h
  split at h <;> cases h
  rfl

theorem next?_eq_none (h : s.next? = none) : ∀ u ∈ s.tokens, u.isVisible = false := by
  unfold next? at h
  split at h
  · next split =>
    intro u mem
    simpa using List.dropWhile_eq_nil_iff.1 split u mem
  · cases h

/-- Taking a token takes the first visible one. -/
theorem visible_of_next? (h : s.next? = some (hidden, t, rest)) : s.visible = t :: rest.visible := by
  obtain ⟨tokens, isHidden, isVisible⟩ := next?_eq_some h
  have noneOfHidden : hidden.filter Token.isVisible = [] := by
    simpa [List.filter_eq_nil_iff] using isHidden
  rw [visible, tokens, List.filter_append, noneOfHidden, List.filter_cons_of_pos isVisible]
  rfl

theorem next?_eq_none_iff : s.next? = none ↔ s.visible = [] := by
  constructor
  · intro h
    simpa [visible, List.filter_eq_nil_iff] using next?_eq_none h
  · intro empty
    cases found : s.next? with
    | none => rfl
    | some taken =>
      obtain ⟨hidden, t, rest⟩ := taken
      rw [visible_of_next? found] at empty
      cases empty

/-- With no visible token left, all that is left is in front of the next one. -/
theorem hiddenFront_eq_tokens (h : s.count = 0) : s.hiddenFront = s.tokens := by
  rw [hiddenFront, List.takeWhile_eq_self_iff]
  intro u mem
  have noneVisible := count_eq_zero_iff.1 h
  rw [visible, List.filter_eq_nil_iff] at noneVisible
  simpa using noneVisible u mem

end TokenStream

end Workbench
