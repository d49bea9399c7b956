import Workbench.Proofs.Lexer
import Workbench.Proofs.Parser.Alike

/-!
**Words between white space.**

A word that is followed by white space or by nothing reaches just to its end, whatever comes after that.
So if white space stands between any two words of a text, the lexer finds these words and no fault. Names,
names with a caret, numbers and keywords of one symbol are such words.
-/

namespace Workbench

/-! ### Results for a text with more in front -/

/-- The range in a text that has `n` bytes more in front. -/
def TextRange.shift (n : Nat) (r : TextRange) : TextRange :=
  ⟨n + r.start, n + r.stop, Nat.add_le_add_left r.start_le_stop n⟩

/-- The token in a text that has `n` bytes more in front. -/
def Token.shift (n : Nat) (t : Token) : Token := { t with offset := n + t.offset }

/-- The error in a text that has `n` bytes more in front. -/
def LexError.shift (n : Nat) (e : LexError) : LexError := { e with range := e.range.shift n }

/-- What becomes of a result if a token is put in front of the text. -/
def LexResult.behind (kind : TokenKind) (image : String) (result : LexResult) : LexResult where
  tokens := ⟨kind, image, 0⟩ :: result.tokens.map (Token.shift image.utf8ByteSize)
  errors := result.errors.map (LexError.shift image.utf8ByteSize)

namespace Lexer

/-! ### Segments -/

theorem segmentsFrom_eq_segments (keywords : List String) (taken : Nat) (cs : List Char) :
    segmentsFrom keywords taken cs = segments keywords (cs.drop taken) := by
  induction cs generalizing taken with
  | nil => simp [segments, segmentsFrom]
  | cons c cs ih =>
    cases taken with
    | zero => rfl
    | succ taken =>
      rw [segmentsFrom, ih, List.drop_succ_cons]

theorem segments_append {keywords : List String} {c : Char} {cs rest : List Char} {verdict : Verdict}
    (h : classify keywords c (cs ++ rest) = (verdict, cs.length)) :
    segments keywords (c :: cs ++ rest) = ⟨verdict, c :: cs⟩ :: segments keywords rest := by
  rw [segments, List.cons_append, segmentsFrom, h]
  simp [segmentsFrom_eq_segments]

/-! ### A token in front of a text -/

theorem range_add (n start stop : Nat) :
    TextRange.of (n + start) (n + stop) = (TextRange.of start stop).shift n := by
  simp [TextRange.of, TextRange.shift, Nat.add_max_add_left]

theorem place_add (n offset : Nat) (segments : List Segment) :
    place (n + offset) segments =
      ⟨(place offset segments).tokens.map (Token.shift n),
        (place offset segments).errors.map (LexError.shift n)⟩ := by
  induction segments generalizing offset with
  | nil => rfl
  | cons s rest ih =>
    have stop : n + offset + (String.ofList s.text).utf8ByteSize =
        n + (offset + (String.ofList s.text).utf8ByteSize) := Nat.add_assoc _ _ _
    rw [place, place, stop, ih]
    cases verdict : s.verdict with
    | token kind => simp [Token.shift]
    | _ => simp [LexError.shift, range_add]

theorem joinStrays_cons {s : Segment} (token : s.verdict ≠ .stray) (rest : List Segment) :
    joinStrays (s :: rest) = s :: joinStrays rest := by
  rw [joinStrays]
  split <;> simp [*]

/-- Where a token ends, the lexer begins anew. -/
theorem tokenize_append {keywords : List String} {kind : TokenKind} {c : Char} {cs : List Char}
    {rest : String} (h : classify keywords c (cs ++ rest.toList) = (.token kind, cs.length)) :
    tokenize keywords (String.ofList (c :: cs) ++ rest) =
      (tokenize keywords rest).behind kind (String.ofList (c :: cs)) := by
  have split : segments keywords (String.ofList (c :: cs) ++ rest).toList =
      ⟨.token kind, c :: cs⟩ :: segments keywords rest.toList := by
    rw [String.toList_append, String.toList_ofList]
    exact segments_append h
  have placed := place_add (String.ofList (c :: cs)).utf8ByteSize 0
    (joinStrays (segments keywords rest.toList))
  rw [Nat.add_comm] at placed
  rw [tokenize, split, joinStrays_cons (by simp), place]
  dsimp only
  rw [placed]
  rfl

/-! ### Runs of characters -/

/-- Nothing follows, or white space does. -/
def EndsWord (rest : List Char) : Prop := ∀ c ∈ rest.head?, Text.isBlank c = true

theorem runLength_append {p : Char → Bool} {cs rest : List Char} (all : ∀ c ∈ cs, p c = true)
    (stops : ∀ c ∈ rest.head?, p c = false) : runLength p (cs ++ rest) = cs.length := by
  have nothing : rest.takeWhile p = [] := by
    cases rest with
    | nil => rfl
    | cons c rest => rw [List.takeWhile_cons_of_neg (by simpa using stops c rfl)]
  rw [runLength, List.takeWhile_append_of_pos all, nothing, List.append_nil]

theorem isNamePart_of_isNameStart {c : Char} (h : isNameStart c = true) : isNamePart c = true := by
  rw [isNameStart, Bool.or_eq_true] at h
  rw [isNamePart, Char.isAlphanum, Bool.or_eq_true, Bool.or_eq_true]
  tauto

theorem code_of_isBlank {c : Char} (h : Text.isBlank c = true) :
    c.toNat ≤ 0x20 ∨ 0x85 ≤ c.toNat := by
  simp only [Text.isBlank, Text.blankRanges, List.any_cons, List.any_nil, Bool.or_eq_true,
    Bool.and_eq_true, decide_eq_true_eq, Bool.or_false] at h
  omega

theorem code_of_isDigit {c : Char} (h : c.isDigit = true) : 0x30 ≤ c.toNat ∧ c.toNat ≤ 0x39 := by
  rw [Char.isDigit, Bool.and_eq_true, decide_eq_true_eq, decide_eq_true_eq] at h
  exact ⟨h.1, h.2⟩

theorem code_of_isNameStart {c : Char} (h : isNameStart c = true) :
    0x41 ≤ c.toNat ∧ c.toNat ≤ 0x7A := by
  rw [isNameStart, Bool.or_eq_true, beq_iff_eq] at h
  rcases h with letter | rfl
  · have range : (0x41 ≤ c.toNat ∧ c.toNat ≤ 0x5A) ∨ (0x61 ≤ c.toNat ∧ c.toNat ≤ 0x7A) := by
      rcases Bool.or_eq_true _ _ ▸ letter with upper | lower
      · exact .inl (of_decide_eq_true upper)
      · obtain ⟨low, high⟩ := Bool.and_eq_true _ _ ▸ lower
        exact .inr ⟨of_decide_eq_true low, of_decide_eq_true high⟩
    omega
  · decide

theorem code_of_isNamePart {c : Char} (h : isNamePart c = true) :
    0x30 ≤ c.toNat ∧ c.toNat ≤ 0x7A := by
  rw [isNamePart, Char.isAlphanum, Bool.or_eq_true, Bool.or_eq_true] at h
  rcases h with (letter | digit) | underscore
  · have := code_of_isNameStart (c := c) (by rw [isNameStart, letter, Bool.true_or])
    omega
  · have := code_of_isDigit digit
    omega
  · have := code_of_isNameStart (c := c) (by rw [isNameStart, underscore, Bool.or_true])
    omega

theorem isBlank_of_isNamePart {c : Char} (h : isNamePart c = true) : Text.isBlank c = false := by
  rw [Bool.eq_false_iff]
  intro blank
  have inside := code_of_isNamePart h
  have outside := code_of_isBlank blank
  omega

theorem isNamePart_of_isDigit {c : Char} (h : c.isDigit = true) : isNamePart c = true := by
  rw [isNamePart, Char.isAlphanum, h]
  simp

theorem isNameStart_of_isDigit {c : Char} (h : c.isDigit = true) : isNameStart c = false := by
  rw [Bool.eq_false_iff]
  intro start
  have low := code_of_isNameStart start
  have high := code_of_isDigit h
  omega

theorem EndsWord.not_namePart {rest : List Char} (h : EndsWord rest) :
    ∀ c ∈ rest.head?, isNamePart c = false := by
  intro c mem
  rw [Bool.eq_false_iff]
  intro part
  have blank := h c mem
  rw [isBlank_of_isNamePart part] at blank
  cases blank

theorem EndsWord.not_digit {rest : List Char} (h : EndsWord rest) :
    ∀ c ∈ rest.head?, c.isDigit = false := by
  intro c mem
  rw [Bool.eq_false_iff]
  intro digit
  have part := h.not_namePart c mem
  rw [isNamePart_of_isDigit digit] at part
  cases part

/-! ### Words -/

/-- A visible token that the lexer finds wherever white space follows or nothing. -/
structure Lexes (keywords : List String) (word : TokenKind × String) : Prop where
  visible : word.1.isHidden = false
  found : ∃ c cs, word.2 = String.ofList (c :: cs) ∧ Text.isBlank c = false ∧
    ∀ rest, EndsWord rest → classify keywords c (cs ++ rest) = (.token word.1, cs.length)

variable {keywords : List String} {c : Char} {cs : List Char}

/-- With nothing behind it, the word is all that there is. -/
theorem Lexes.classify {kind : TokenKind} (h : Lexes keywords (kind, String.ofList (c :: cs))) :
    classify keywords c cs = (.token kind, cs.length) := by
  obtain ⟨-, d, ds, image, -, found⟩ := h
  obtain ⟨rfl, rfl⟩ : c = d ∧ cs = ds := by simpa using congrArg String.toList image
  have none : EndsWord [] := nofun
  simpa using found [] none

theorem beq_false_of_isNamePart (h : isNamePart c = true) {d : Char} (other : isNamePart d = false) :
    (c == d) = false := by
  rw [beq_eq_false_iff_ne]
  rintro rfl
  rw [h] at other
  cases other

theorem lexes_name (start : isNameStart c = true) (parts : ∀ d ∈ cs, isNamePart d = true) :
    Lexes keywords (if keywords.contains (String.ofList (c :: cs)) then .keyword else .identifier,
      String.ofList (c :: cs)) := by
  have part := isNamePart_of_isNameStart start
  refine ⟨by dsimp only; split <;> rfl, c, cs, rfl, isBlank_of_isNamePart part, fun rest ends => ?_⟩
  have slash := beq_false_of_isNamePart part (d := '/') (by decide)
  rw [classify, isBlank_of_isNamePart part, slash, start, runLength_append parts ends.not_namePart]
  simp

theorem lexes_word (start : isNameStart c = true) (parts : ∀ d ∈ cs, isNamePart d = true)
    (known : String.ofList (c :: cs) ∈ keywords) :
    Lexes keywords (.keyword, String.ofList (c :: cs)) := by
  have found : Lexes keywords _ := lexes_name start parts
  rwa [List.contains_iff_mem.2 known, if_pos rfl] at found

theorem lexes_caret (start : isNameStart c = true) (parts : ∀ d ∈ cs, isNamePart d = true) :
    Lexes keywords (.identifier, String.ofList ('^' :: c :: cs)) := by
  refine ⟨rfl, '^', c :: cs, rfl, by decide, fun rest ends => ?_⟩
  have all : ∀ d ∈ c :: cs, isNamePart d = true :=
    List.forall_mem_cons.2 ⟨isNamePart_of_isNameStart start, parts⟩
  rw [classify, runLength_append all ends.not_namePart]
  simp [show Text.isBlank '^' = false by decide, show isNameStart '^' = false by decide, start]

theorem classify_of_isDigit (start : c.isDigit = true) (rest : List Char) :
    classify keywords c rest = (.token .number, numberExtent rest) := by
  have part := isNamePart_of_isDigit start
  have slash := beq_false_of_isNamePart part (d := '/') (by decide)
  have caret := beq_false_of_isNamePart part (d := '^') (by decide)
  rw [classify, isBlank_of_isNamePart part, slash, isNameStart_of_isDigit start, caret, start]
  simp

theorem lexes_whole (start : c.isDigit = true) (digits : ∀ d ∈ cs, d.isDigit = true) :
    Lexes keywords (.number, String.ofList (c :: cs)) := by
  refine ⟨rfl, c, cs, rfl, isBlank_of_isNamePart (isNamePart_of_isDigit start), fun rest ends => ?_⟩
  have extent : numberExtent (cs ++ rest) = cs.length := by
    rw [numberExtent, runLength_append digits ends.not_digit, List.drop_left]
    split
    · exact absurd (ends '.' rfl) (by decide)
    · rfl
  rw [classify_of_isDigit start, extent]

theorem lexes_fraction {d : Char} {ds : List Char} (start : c.isDigit = true)
    (digits : ∀ d ∈ cs, d.isDigit = true) (point : d.isDigit = true)
    (digits' : ∀ d ∈ ds, d.isDigit = true) :
    Lexes keywords (.number, String.ofList (c :: (cs ++ '.' :: d :: ds))) := by
  refine ⟨rfl, c, _, rfl, isBlank_of_isNamePart (isNamePart_of_isDigit start), fun rest ends => ?_⟩
  have stops : ∀ e ∈ ('.' :: d :: ds ++ rest).head?, e.isDigit = false := by
    rintro _ ⟨⟩
    decide
  have extent : numberExtent (cs ++ '.' :: d :: ds ++ rest) = (cs ++ '.' :: d :: ds).length := by
    rw [numberExtent, List.append_assoc, runLength_append digits stops, List.drop_left]
    simp only [List.cons_append, point, if_true, runLength_append digits' ends.not_digit,
      List.length_append, List.length_cons]
    omega
  rw [classify_of_isDigit start, extent]

/-- Digits, and maybe a point with digits behind it. -/
inductive Fractional : List Char → Prop
  | whole {cs : List Char} (digits : ∀ d ∈ cs, d.isDigit = true) : Fractional cs
  | point {cs : List Char} {d : Char} {ds : List Char} (digits : ∀ d ∈ cs, d.isDigit = true)
    (point : d.isDigit = true) (digits' : ∀ d ∈ ds, d.isDigit = true) : Fractional (cs ++ '.' :: d :: ds)

/-- How a number goes on. -/
theorem exists_numberExtent (cs : List Char) : ∃ taken behind : List Char,
    cs = taken ++ behind ∧ taken.length = numberExtent cs ∧ Fractional taken := by
  have digits : ∀ cs : List Char, ∀ d ∈ cs.takeWhile Char.isDigit, d.isDigit = true :=
    fun cs d mem => List.mem_takeWhile_imp mem
  have split : ∀ cs : List Char, cs = cs.takeWhile Char.isDigit ++ cs.drop (runLength Char.isDigit cs) := by
    intro cs
    rw [drop_runLength, List.takeWhile_append_dropWhile]
  unfold numberExtent
  dsimp only
  split
  · next d tail behind =>
    by_cases digit : d.isDigit = true
    · refine ⟨cs.takeWhile Char.isDigit ++ '.' :: d :: tail.takeWhile Char.isDigit,
        tail.drop (runLength Char.isDigit tail), ?_, ?_, .point (digits cs) digit (digits tail)⟩
      · rw [List.append_assoc, List.cons_append, List.cons_append, ← split tail, ← behind, ← split cs]
      · rw [if_pos digit, List.length_append]
        simp only [List.length_cons, runLength]
        omega
    · rw [if_neg digit]
      exact ⟨_, _, split cs, rfl, .whole (digits cs)⟩
  · exact ⟨_, _, split cs, rfl, .whole (digits cs)⟩

/-! ### Symbols -/

theorem longestKeyword_le {keywords : List String} {cs : List Char} {bound : Nat}
    (h : ∀ k ∈ keywords, k.toList.isPrefixOf cs = true → k.toList.length ≤ bound) :
    longestKeyword keywords cs ≤ bound := by
  have fold : ∀ (l : List String) (best : Nat), (∀ k ∈ l, k ∈ keywords) → best ≤ bound →
      l.foldl (fun best k =>
        if k.toList.isPrefixOf cs then max best k.toList.length else best) best ≤ bound := by
    intro l
    induction l with
    | nil => exact fun _ _ le => le
    | cons k l ih =>
      intro best all le
      refine ih _ (fun k mem => all k (List.mem_cons_of_mem _ mem)) ?_
      dsimp only
      split
      · next isPrefix => exact Nat.max_le.2 ⟨le, h k (all k List.mem_cons_self) isPrefix⟩
      · exact le
  exact fold keywords 0 (fun _ mem => mem) (Nat.zero_le _)

theorem le_longestKeyword {keywords : List String} {cs : List Char} {k : String} (mem : k ∈ keywords)
    (isPrefix : k.toList.isPrefixOf cs = true) : k.toList.length ≤ longestKeyword keywords cs := by
  have grows : ∀ (l : List String) (best : Nat), best ≤ l.foldl (fun best k =>
      if k.toList.isPrefixOf cs then max best k.toList.length else best) best := by
    intro l
    induction l with
    | nil => exact fun _ => Nat.le_refl _
    | cons k l ih =>
      intro best
      refine Nat.le_trans ?_ (ih _)
      dsimp only
      split
      · exact Nat.le_max_left _ _
      · exact Nat.le_refl _
  have fold : ∀ (l : List String) (best : Nat), k ∈ l → k.toList.length ≤ l.foldl (fun best k =>
      if k.toList.isPrefixOf cs then max best k.toList.length else best) best := by
    intro l
    induction l with
    | nil => intro _ mem; cases mem
    | cons k' l ih =>
      intro best mem
      rcases List.mem_cons.1 mem with rfl | mem
      · rw [List.foldl_cons, if_pos isPrefix]
        exact Nat.le_trans (Nat.le_max_right _ _) (grows l _)
      · exact ih _ mem
  exact fold keywords 0 mem

/-- A character with which no word starts but keywords of one character. -/
structure IsSymbol (keywords : List String) (c : Char) : Prop where
  blank : Text.isBlank c = false
  name : isNameStart c = false
  caret : (c == '^') = false
  digit : c.isDigit = false
  quote : isQuote c = false
  alone : ∀ k ∈ keywords, k.toList.head? = some c → k.toList.length = 1

theorem longestKeyword_of_isSymbol (h : IsSymbol keywords c) (mem : String.singleton c ∈ keywords)
    (rest : List Char) : longestKeyword keywords (c :: rest) = 1 := by
  apply Nat.le_antisymm
  · refine longestKeyword_le fun k mem isPrefix => ?_
    cases chars : k.toList with
    | nil => exact Nat.zero_le _
    | cons d ds =>
      rw [chars, List.isPrefixOf_cons_cons, Bool.and_eq_true, beq_iff_eq] at isPrefix
      have alone := h.alone k mem (by rw [chars, List.head?_cons, isPrefix.1])
      rw [chars] at alone
      exact Nat.le_of_eq alone
  · have isPrefix : (String.singleton c).toList.isPrefixOf (c :: rest) = true := by simp
    simpa using le_longestKeyword mem isPrefix

theorem lexes_symbol (h : IsSymbol keywords c) (mem : String.singleton c ∈ keywords) :
    Lexes keywords (.keyword, String.singleton c) := by
  refine ⟨rfl, c, [], by simp, h.blank, fun rest ends => ?_⟩
  have noComment : ∀ d, Text.isBlank d = false → (rest.head? == some d) = false := by
    intro d visible
    rw [beq_eq_false_iff_ne]
    intro head
    rw [ends d head] at visible
    cases visible
  rw [List.nil_append, classify, h.blank, noComment '/' (by decide), noComment '*' (by decide), h.name,
    h.caret, h.digit, h.quote, longestKeyword_of_isSymbol h mem]
  simp

/-- Whether a keyword is a name, or one character with which no longer keyword starts. -/
def isPlain (keywords : List String) (k : String) : Bool :=
  match k.toList with
  | [] => false
  | c :: cs =>
    isNameStart c && cs.all isNamePart ||
      (cs.isEmpty && !Text.isBlank c && !isNameStart c && c != '^' && !c.isDigit && !isQuote c &&
        keywords.all fun k => k.toList.head? != some c || k.toList.length == 1)

theorem lexes_keyword {k : String} (mem : k ∈ keywords) (plain : isPlain keywords k = true) :
    Lexes keywords (.keyword, k) := by
  rw [isPlain] at plain
  split at plain
  · cases plain
  · next c cs chars =>
    obtain rfl : k = String.ofList (c :: cs) := by rw [← chars, String.ofList_toList]
    -- a keyword that looks like a name is found as one, and then known to be a keyword
    rcases Bool.or_eq_true_iff.1 plain with name | symbol
    · rw [Bool.and_eq_true, List.all_eq_true] at name
      exact lexes_word name.1 name.2 mem
    · simp only [Bool.and_eq_true, Bool.not_eq_true', bne_iff_ne, List.all_eq_true, Bool.or_eq_true,
        beq_iff_eq, List.isEmpty_iff] at symbol
      obtain ⟨⟨⟨⟨⟨⟨rfl, blank⟩, start⟩, caret⟩, digit⟩, quote⟩, alone⟩ := symbol
      have single : String.ofList [c] = String.singleton c := by simp
      rw [single] at mem ⊢
      refine lexes_symbol ⟨blank, start, by simpa using caret, digit, quote, fun k mem head => ?_⟩ mem
      exact (alone k mem).resolve_left (not_not.2 head)

/-! ### Texts -/

/-- A text of words with white space between any two of them, and maybe at both ends. -/
inductive Spaced : List (TokenKind × String) → List Char → Prop where
  | done {gap : List Char} (blank : ∀ c ∈ gap, Text.isBlank c = true) : Spaced [] gap
  | word {word : TokenKind × String} {words : List (TokenKind × String)} {gap rest : List Char}
    (blank : ∀ c ∈ gap, Text.isBlank c = true) (ends : EndsWord rest) (others : Spaced words rest) :
    Spaced (word :: words) (gap ++ word.2.toList ++ rest)

theorem Spaced.space {words : List (TokenKind × String)} {text : List Char} (h : Spaced words text) :
    Spaced words (' ' :: text) := by
  have space : Text.isBlank ' ' = true := by decide
  cases h with
  | done blank => exact .done (List.forall_mem_cons.2 ⟨space, blank⟩)
  | @word word words gap rest blank ends others =>
    have blank' : ∀ c ∈ ' ' :: gap, Text.isBlank c = true := List.forall_mem_cons.2 ⟨space, blank⟩
    exact .word blank' ends others

/-- The words with one space behind each of them. -/
def spread (words : List (TokenKind × String)) : List Char :=
  words.flatMap fun word => word.2.toList ++ [' ']

theorem spaced_spread (words : List (TokenKind × String)) : Spaced words (spread words) := by
  induction words with
  | nil => exact .done nofun
  | cons word words ih =>
    have ends : EndsWord (' ' :: spread words) := by
      rintro _ ⟨⟩
      decide
    have split : spread (word :: words) = [] ++ word.2.toList ++ ' ' :: spread words := by
      simp [spread]
    rw [split]
    exact .word nofun ends ih.space

/-- The visible token that a segment is. -/
def Segment.word? (s : Segment) : Option (TokenKind × String) :=
  match s.verdict with
  | .token kind => if kind.isHidden then none else some (kind, String.ofList s.text)
  | _ => none

/-- White space in front makes at most one segment, which is hidden. -/
theorem segments_gap {gap rest : List Char} (blank : ∀ c ∈ gap, Text.isBlank c = true)
    (stops : ∀ c ∈ rest.head?, Text.isBlank c = false) :
    ∃ front, segments keywords (gap ++ rest) = front ++ segments keywords rest ∧
      (∀ s ∈ front, ∃ kind, s.verdict = .token kind) ∧ front.filterMap Segment.word? = [] := by
  cases gap with
  | nil => exact ⟨[], rfl, nofun, rfl⟩
  | cons c cs =>
    obtain ⟨first, others⟩ := List.forall_mem_cons.1 blank
    have classified : classify keywords c (cs ++ rest) = (.token .blank, cs.length) := by
      rw [classify, if_pos first, runLength_append others stops]
    refine ⟨[⟨.token .blank, c :: cs⟩], segments_append classified, ?_, rfl⟩
    intro s mem
    rw [List.mem_singleton.1 mem]
    exact ⟨.blank, rfl⟩

/-- The segments of such a text are its words and white space. -/
theorem segments_of_spaced {words : List (TokenKind × String)} {text : List Char}
    (h : Spaced words text) (lexes : ∀ word ∈ words, Lexes keywords word) :
    (∀ s ∈ segments keywords text, ∃ kind, s.verdict = .token kind) ∧
      (segments keywords text).filterMap Segment.word? = words := by
  induction h with
  | @done gap blank =>
    have stops : ∀ c ∈ ([] : List Char).head?, Text.isBlank c = false := nofun
    obtain ⟨front, split, tokens, hidden⟩ := segments_gap blank stops
    rw [List.append_nil] at split
    rw [split, segments, segmentsFrom, List.append_nil]
    exact ⟨tokens, hidden⟩
  | @word word words gap rest blank ends others ih =>
    obtain ⟨visible, c, cs, image, notBlank, found⟩ := lexes word List.mem_cons_self
    obtain ⟨tokens, spelled⟩ := ih fun w mem => lexes w (List.mem_cons_of_mem _ mem)
    have chars : word.2.toList = c :: cs := by rw [image, String.toList_ofList]
    have stops : ∀ d ∈ (c :: cs ++ rest).head?, Text.isBlank d = false := by
      rintro _ ⟨⟩
      exact notBlank
    obtain ⟨front, split, tokens', hidden⟩ := segments_gap blank stops
    have here : Segment.word? ⟨.token word.1, c :: cs⟩ = some word := by
      rw [Segment.word?]
      simp [visible, ← image]
    rw [chars, List.append_assoc, split, segments_append (found rest ends)]
    constructor
    · intro s mem
      rcases List.mem_append.1 mem with mem | mem
      · exact tokens' s mem
      · rcases List.mem_cons.1 mem with rfl | mem
        · exact ⟨word.1, rfl⟩
        · exact tokens s mem
    · rw [List.filterMap_append, hidden, List.nil_append, List.filterMap_cons_some here, spelled]

/-! ### Tokens of segments -/

theorem joinStrays_of_tokens {segments : List Segment}
    (tokens : ∀ s ∈ segments, ∃ kind, s.verdict = .token kind) : joinStrays segments = segments := by
  induction segments with
  | nil => rfl
  | cons s rest ih =>
    obtain ⟨⟨kind, verdict⟩, others⟩ := List.forall_mem_cons.1 tokens
    rw [joinStrays, ih others]
    cases rest with
    | nil => rfl
    | cons t ts => simp [verdict]

theorem place_of_tokens {segments : List Segment}
    (tokens : ∀ s ∈ segments, ∃ kind, s.verdict = .token kind) (offset : Nat) :
    (place offset segments).errors = [] ∧
      (place offset segments).reading = segments.filterMap Segment.word? := by
  induction segments generalizing offset with
  | nil => exact ⟨rfl, rfl⟩
  | cons s rest ih =>
    obtain ⟨⟨kind, verdict⟩, others⟩ := List.forall_mem_cons.1 tokens
    obtain ⟨noErrors, words⟩ := ih others (offset + (String.ofList s.text).utf8ByteSize)
    rw [place]
    simp only [verdict]
    refine ⟨noErrors, ?_⟩
    rw [LexResult.reading] at words ⊢
    rw [List.filterMap_cons, ← words, Segment.word?, verdict]
    cases hidden : kind.isHidden with
    | true => simp [Token.isVisible, hidden]
    | false => simp [Token.isVisible, hidden, Token.reading]

/-- **Words with white space between them are found as they are.** -/
theorem tokenize_of_spaced {words : List (TokenKind × String)} {text : String}
    (h : Spaced words text.toList) (lexes : ∀ word ∈ words, Lexes keywords word) :
    (tokenize keywords text).errors = [] ∧ (tokenize keywords text).reading = words := by
  obtain ⟨tokens, spelled⟩ := segments_of_spaced h lexes
  obtain ⟨noErrors, words⟩ := place_of_tokens tokens 0
  rw [tokenize, joinStrays_of_tokens tokens]
  exact ⟨noErrors, words.trans spelled⟩

end Lexer

end Workbench
