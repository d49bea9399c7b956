import Workbench.Proofs.Lexer.Spacing
import Workbench.Value.Conversion

/-!
**String literals.**

The body of a literal is a series of characters that stand for themselves and of pairs, a backslash and
the character that it protects. Scanning and reading both go through these pairs: the lexer stops at the
first quote that is not half of a pair, and a body is never left with half a pair at its end. So whatever
follows a literal, the lexer takes the literal and no more; and since a quote, a backslash and the three
control characters can be written as pairs, every text is what some literal stands for.
-/

namespace Workbench

namespace Text

/-! ### Bodies -/

/-- What may stand between two quotes: no line break, no quote or backslash but in a pair. -/
inductive LiteralBody (quote : Char) : List Char → Prop
  | nil : LiteralBody quote []
  | plain {c : Char} {rest : List Char} (line : c ≠ '\n') (backslash : c ≠ '\\') (other : c ≠ quote)
    (body : LiteralBody quote rest) : LiteralBody quote (c :: rest)
  | pair {c : Char} {rest : List Char} (line : c ≠ '\n') (body : LiteralBody quote rest) :
    LiteralBody quote ('\\' :: c :: rest)

/-- Resolves the escapes, where `last` stands for a backslash at the very end. -/
def unescapeWith (last : List Char) : List Char → List Char
  | [] => []
  | ['\\'] => last
  | '\\' :: c :: rest => escaped c :: unescapeWith last rest
  | c :: rest => c :: unescapeWith last rest

theorem unescapeWith_backslash (cs : List Char) : unescapeWith ['\\'] cs = unescape cs := by
  fun_induction unescape cs with
  | case1 => rfl
  | case2 => rfl
  | case3 c rest ih => rw [unescapeWith, ih]
  | case4 c rest alone pair ih => rw [unescapeWith, ih]; all_goals assumption

theorem unescapeWith_cons {c : Char} (plain : c ≠ '\\') (last rest : List Char) :
    unescapeWith last (c :: rest) = c :: unescapeWith last rest := by
  rw [unescapeWith]
  · rintro rfl
    exact absurd rfl plain
  · rintro d rest' rfl
    exact absurd rfl plain

theorem unescape_cons {c : Char} (plain : c ≠ '\\') (rest : List Char) :
    unescape (c :: rest) = c :: unescape rest := by
  simp only [← unescapeWith_backslash, unescapeWith_cons plain]

/-- No body ends with half a pair, so what would stand for it does not matter. -/
theorem LiteralBody.unescapeWith_eq {quote : Char} {body : List Char} (h : LiteralBody quote body)
    (last : List Char) : unescapeWith last body = unescape body := by
  induction h with
  | nil => rfl
  | plain _ backslash _ _ ih => rw [unescapeWith_cons backslash, unescape_cons backslash, ih]
  | pair _ _ ih => rw [unescapeWith, unescape, ih]

/-! ### Writing a literal -/

/-- How a character is written between two quotes. -/
def spell (quote c : Char) : List Char :=
  if c = '\n' then ['\\', 'n']
  else if c = '\t' then ['\\', 't']
  else if c = '\r' then ['\\', 'r']
  else if c = '\\' ∨ c = quote then ['\\', c]
  else [c]

/-- The literal that stands for a text. -/
def literal (quote : Char) (text : String) : String :=
  String.ofList (quote :: (text.toList.flatMap (spell quote) ++ [quote]))

/-- A character is written as a pair that reads as the character, or it stands for itself. -/
theorem spell_cases (quote c : Char) :
    (∃ d, spell quote c = ['\\', d] ∧ d ≠ '\n' ∧ (escaped quote = quote → escaped d = c)) ∨
      (spell quote c = [c] ∧ c ≠ '\n' ∧ c ≠ '\\' ∧ c ≠ quote) := by
  by_cases line : c = '\n'
  · exact .inl ⟨'n', by simp [spell, line], by decide, fun _ => line ▸ rfl⟩
  by_cases tab : c = '\t'
  · exact .inl ⟨'t', by simp [spell, tab], by decide, fun _ => tab ▸ rfl⟩
  by_cases ret : c = '\r'
  · exact .inl ⟨'r', by simp [spell, ret], by decide, fun _ => ret ▸ rfl⟩
  by_cases special : c = '\\' ∨ c = quote
  · refine .inl ⟨c, by simp [spell, line, tab, ret, special], line, ?_⟩
    intro itself
    rcases special with rfl | rfl
    · rfl
    · exact itself
  · have written : spell quote c = [c] := by simp [spell, line, tab, ret, special]
    rw [not_or] at special
    exact .inr ⟨written, line, special⟩

theorem literalBody_spell (quote : Char) (cs : List Char) :
    LiteralBody quote (cs.flatMap (spell quote)) := by
  induction cs with
  | nil => exact .nil
  | cons c cs ih =>
    rw [List.flatMap_cons]
    rcases spell_cases quote c with ⟨d, written, line, -⟩ | ⟨written, line, backslash, other⟩
    · rw [written]
      exact .pair line ih
    · rw [written]
      exact .plain line backslash other ih

theorem unescape_spell {quote : Char} (itself : escaped quote = quote) (cs : List Char) :
    unescape (cs.flatMap (spell quote)) = cs := by
  induction cs with
  | nil => rfl
  | cons c cs ih =>
    rw [List.flatMap_cons]
    rcases spell_cases quote c with ⟨d, written, -, reads⟩ | ⟨written, -, backslash, -⟩
    · simp [written, unescape, ih, reads itself]
    · rw [written, List.singleton_append, unescape_cons backslash, ih]

theorem stripQuotes_quoted {quote : Char} (h : (quote == '"' || quote == '\'') = true) (body : List Char) :
    stripQuotes (quote :: (body ++ [quote])) = body := by
  simp [stripQuotes, h]

end Text

namespace Lexer

/-! ### Scanning a literal -/

theorem quote_of_isQuote {q : Char} (h : isQuote q = true) : q = '"' ∨ q = '\'' := by
  simpa [isQuote] using h

/-- What the lexer finds up to the closing quote is a body; behind a backslash, with that backslash. -/
theorem body_of_closeString {q : Char} {escaped : Bool} {cs : List Char} {n : Nat}
    (h : closeString q escaped cs = some n) :
    ∃ body rest, cs = body ++ q :: rest ∧ n = body.length + 1 ∧
      Text.LiteralBody q (if escaped then '\\' :: body else body) := by
  induction cs generalizing escaped n with
  | nil => cases h
  | cons c cs ih =>
    rw [closeString] at h
    split at h
    · cases h
    · next line =>
      have line : c ≠ '\n' := by simpa using line
      split at h
      · next backslash =>
        obtain ⟨rfl, rfl⟩ : c = '\\' ∧ escaped = false := by simpa using backslash
        obtain ⟨m, closed, rfl⟩ := Option.map_eq_some_iff.1 h
        obtain ⟨body, rest, rfl, rfl, isBody⟩ := ih closed
        exact ⟨'\\' :: body, rest, rfl, rfl, isBody⟩
      · next backslash =>
        split at h
        · next quote =>
          obtain ⟨rfl, rfl⟩ : c = q ∧ escaped = false := by simpa using quote
          cases h
          exact ⟨[], cs, rfl, rfl, .nil⟩
        · next quote =>
          obtain ⟨m, closed, rfl⟩ := Option.map_eq_some_iff.1 h
          obtain ⟨body, rest, rfl, rfl, isBody⟩ := ih closed
          refine ⟨c :: body, rest, rfl, rfl, ?_⟩
          cases escaped with
          | true => exact .pair line isBody
          | false => exact .plain line (by simpa using backslash) (by simpa using quote) isBody

/-- The lexer takes a body and the quote behind it, whatever follows. -/
theorem closeString_of_body {q : Char} (quote : isQuote q = true) {body : List Char}
    (h : Text.LiteralBody q body) (rest : List Char) :
    closeString q false (body ++ q :: rest) = some (body.length + 1) := by
  have different : q ≠ '\n' ∧ q ≠ '\\' := by
    rcases quote_of_isQuote quote with rfl | rfl <;> decide
  induction h with
  | nil => simp [closeString, different]
  | plain line backslash other _ ih => simp [closeString, line, backslash, other, ih]
  | pair line _ ih => simp [closeString, line, ih]

theorem classify_of_isQuote (keywords : List String) {q : Char} (quote : isQuote q = true)
    {body : List Char} (h : Text.LiteralBody q body) (rest : List Char) :
    classify keywords q (body ++ q :: rest) = (.token .string, body.length + 1) := by
  have closed := closeString_of_body quote h rest
  rcases quote_of_isQuote quote with rfl | rfl
  · rw [classify, closed]
    simp [show Text.isBlank '"' = false by decide, show isNameStart '"' = false by decide, isQuote,
      show Char.isDigit '"' = false by decide]
  · rw [classify, closed]
    simp [show Text.isBlank '\'' = false by decide, show isNameStart '\'' = false by decide, isQuote,
      show Char.isDigit '\'' = false by decide]

/-! ### Literals in a text -/

variable {keywords : List String}

theorem tokenize_literal {quote : Char} (isQuote : isQuote quote = true) (text rest : String) :
    tokenize keywords (Text.literal quote text ++ rest) =
      (tokenize keywords rest).behind .string (Text.literal quote text) := by
  have scanned := classify_of_isQuote keywords isQuote
    (Text.literalBody_spell quote text.toList) rest.toList
  apply tokenize_append
  simpa using scanned

theorem convert_literal {quote : Char} (isQuote : isQuote quote = true) (text : String) :
    ValueKind.string.convert (Text.literal quote text) = .text text := by
  have itself : Text.escaped quote = quote := by
    rcases quote_of_isQuote isQuote with rfl | rfl <;> rfl
  have stripped : Text.stripQuotes (Text.literal quote text).toList =
      text.toList.flatMap (Text.spell quote) := by
    rw [Text.literal, String.toList_ofList, Text.stripQuotes_quoted isQuote]
  rw [ValueKind.convert, Text.unquote, stripped, Text.unescape_spell itself, String.ofList_toList]

/-- A string token is a body between two equal quotes. -/
theorem exists_body_of_mem_tokenize {text : String} {t : Token} (h : t ∈ (tokenize keywords text).tokens)
    (string : t.kind = .string) : ∃ quote body, isQuote quote = true ∧ Text.LiteralBody quote body ∧
      t.image.toList = quote :: (body ++ [quote]) := by
  obtain ⟨quote, rest, n, classified, image⟩ := exists_classify h
  rw [string] at classified
  cases begins_of_classify classified rfl with
  | string isQuote closed =>
    obtain ⟨body, behind, rfl, rfl, isBody⟩ := body_of_closeString closed
    refine ⟨quote, body, isQuote, isBody, ?_⟩
    rw [image, String.toList_ofList, List.take_length_add_append]
    rfl

/-- **Every text has literals, and scanning and reading agree on them.** Between either quote, with the
quote, backslashes and control characters escaped, a text is a literal: the lexer takes it for one string
token and begins anew behind it, whatever follows, and the value of that token is the text. And of any
string token that the lexer finds, reading strips the first character and the last one, and what is left
does not end with a backslash that escapes nothing: its value is the same whatever such a backslash would
stand for. -/
theorem literals_agree (keywords : List String) :
    (∀ quote, isQuote quote = true → ∀ text rest : String,
      tokenize keywords (Text.literal quote text ++ rest) =
          (tokenize keywords rest).behind .string (Text.literal quote text) ∧
        ValueKind.string.convert (Text.literal quote text) = .text text) ∧
      ∀ (text : String), ∀ t ∈ (tokenize keywords text).tokens, t.kind = .string →
        ∃ quote body, isQuote quote = true ∧ t.image.toList = quote :: (body ++ [quote]) ∧
          Text.stripQuotes t.image.toList = body ∧
          ∀ last, Text.unquote t.image = String.ofList (Text.unescapeWith last body) := by
  constructor
  · intro quote isQuote text rest
    exact ⟨tokenize_literal isQuote text rest, convert_literal isQuote text⟩
  · intro text t mem string
    obtain ⟨quote, body, isQuote, isBody, image⟩ := exists_body_of_mem_tokenize mem string
    have stripped : Text.stripQuotes t.image.toList = body := by
      rw [image, Text.stripQuotes_quoted isQuote]
    refine ⟨quote, body, isQuote, image, stripped, ?_⟩
    intro last
    rw [Text.unquote, stripped, isBody.unescapeWith_eq]

theorem literals_agree_apostrophe :
    isQuote '\'' = true ∧
      tokenize ["="] (Text.literal '\'' "it's \\\n" ++ "='\\\\'") =
        (tokenize ["="] "='\\\\'").behind .string "'it\\'s \\\\\\n'" ∧
      (⟨.string, "'\\\\'", 1⟩ : Token) ∈ (tokenize ["="] "='\\\\'").tokens ∧
      ∀ last, Text.unquote "'\\\\'" = String.ofList (Text.unescapeWith last ['\\', '\\']) := by
  have mem : (⟨.string, "'\\\\'", 1⟩ : Token) ∈ (tokenize ["="] "='\\\\'").tokens := by decide
  obtain ⟨quote, body, -, image, -, unquoted⟩ := (literals_agree ["="]).2 _ _ mem rfl
  obtain ⟨rfl, tail⟩ : '\'' = quote ∧ ['\\', '\\'] ++ ['\''] = body ++ [quote] := List.cons.inj image
  obtain rfl := List.append_cancel_right tail
  exact ⟨rfl, ((literals_agree ["="]).1 '\'' rfl _ _).1, mem, unquoted⟩

end Lexer

end Workbench
