import Workbench.Token

/-!
**Token streams.**

The tokens that a parser has not taken yet. The grammar sees only the visible ones, but the hidden tokens in
between stay in the stream, so that taking a visible token also yields the hidden tokens in front of it. The
stream knows how many visible tokens it has. It is looked at by `peek` and `peek_at`, and moved on by
`consume` alone.
-/

namespace Workbench

/-- Tokens still to be taken. -/
structure TokenStream where
  tokens : List Token
  /-- The number of visible tokens. -/
  count : Nat
  count_eq : count = (tokens.filter Token.isVisible).length

namespace TokenStream

def of (tokens : List Token) : TokenStream := ⟨tokens, _, rfl⟩

/-- The next visible token (`peek`). -/
def peek? (s : TokenStream) : Option Token := s.tokens.find? Token.isVisible

/-- The visible token after the next one (`peek_at`). -/
def second? (s : TokenStream) : Option Token :=
  (s.tokens.dropWhile Token.isHidden).tail.find? Token.isVisible

/-- The hidden tokens in front of the next visible token. -/
def hiddenFront (s : TokenStream) : List Token := s.tokens.takeWhile Token.isHidden

theorem filter_visible_of_dropWhile {tokens rest : List Token} {t : Token}
    (h : tokens.dropWhile Token.isHidden = t :: rest) :
    tokens.filter Token.isVisible = t :: rest.filter Token.isVisible := by
  induction tokens with
  | nil => simp at h
  | cons a tail ih =>
    cases ha : a.isHidden with
    | true =>
      have hv : a.isVisible = false := by simp [Token.isVisible, Token.isHidden] at ha ⊢; exact ha
      rw [List.dropWhile_cons_of_pos ha] at h
      rw [List.filter_cons_of_neg (by simp [hv]), ih h]
    | false =>
      have hv : a.isVisible = true := by simp [Token.isVisible, Token.isHidden] at ha ⊢; exact ha
      rw [List.dropWhile_cons_of_neg (by simp [ha])] at h
      cases h
      rw [List.filter_cons_of_pos hv]

/-- Takes the next visible token: the hidden tokens in front of it, the token, and what is left. -/
def next? (s : TokenStream) : Option (List Token × Token × TokenStream) :=
  match h : s.tokens.dropWhile Token.isHidden with
  | [] => none
  | t :: rest =>
    some (s.hiddenFront, t, {
      tokens := rest
      count := s.count - 1
      count_eq := by rw [s.count_eq, filter_visible_of_dropWhile h]; rfl })

end TokenStream

end Workbench
