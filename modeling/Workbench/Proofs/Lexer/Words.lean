import Workbench.Proofs.Lexer.Literals

/-!
**Words on their own.**

A text is one visible token if the token that begins with its first character takes all the others. Two
things follow. A keyword can be found in a text if it is a word, or if it has some other character and no
white space, comment, word, name, number or string begins where it does; a grammar may use other keywords,
but the lexer never makes tokens of them. And a text that is one visible token stays one with white space
behind it: no kind of visible token goes on with a blank, if there is none in any keyword. So words with
single spaces between them are found one by one.
-/

namespace Workbench

namespace Lexer

variable {keywords : List String} {c : Char} {cs rest : List Char} {kind : TokenKind} {n : Nat}

/-! ### How far a visible token reaches -/

theorem runLength_le (p : Char → Bool) (cs : List Char) : runLength p cs ≤ cs.length :=
  (List.takeWhile_sublist p).length_le

theorem longestKeyword_le_length (keywords : List String) (cs : List Char) :
    longestKeyword keywords cs ≤ cs.length := by
  apply longestKeyword_le
  intro k _ isPrefix
  exact (List.isPrefixOf_iff_prefix.1 isPrefix).length_le

theorem Begins.le_length (h : Begins keywords c rest kind n) : n ≤ rest.length := by
  cases h with
  | word | name | caret => exact runLength_le _ _
  | number =>
    obtain ⟨taken, behind, eq, size, -⟩ := exists_numberExtent rest
    rw [← size, eq, List.length_append]
    exact Nat.le_add_right _ _
  | string quote closed =>
    obtain ⟨body, behind, rfl, rfl, -⟩ := body_of_closeString closed
    rw [List.length_append, List.length_cons]
    omega
  | sign leads longest =>
    have bound := longestKeyword_le_length keywords (c :: rest)
    rw [longest, List.length_cons] at bound
    omega

/-! ### Texts of one token -/

theorem joinStrays_eq_nil {segments : List Segment} (h : joinStrays segments = []) : segments = [] := by
  cases segments with
  | nil => rfl
  | cons s rest =>
    rw [joinStrays] at h
    split at h
    · split at h <;> cases h
    · cases h

theorem eq_singleton_of_joinStrays {segments : List Segment} {s : Segment}
    (h : joinStrays segments = [s]) (token : s.verdict ≠ .stray) : segments = [s] := by
  cases segments with
  | nil => cases h
  | cons u rest =>
    rw [joinStrays] at h
    split at h
    · split at h
      · cases h
        exact absurd rfl token
      · cases h
    · next joined => rw [joinStrays_eq_nil joined, h]

/-- A single token comes from a single segment. -/
theorem segments_of_single {text : String} {t : Token} (h : tokenize keywords text = ⟨[t], []⟩) :
    ∃ s, segments keywords text.toList = [s] ∧ s.verdict = .token t.kind := by
  have placed : place 0 (joinStrays (segments keywords text.toList)) = ⟨[t], []⟩ := h
  have images := images_place (congrArg LexResult.errors placed)
  rw [placed, List.map_singleton] at images
  obtain ⟨s, joined, -⟩ := List.map_eq_singleton_iff.1 images.symm
  rw [joined, place] at placed
  cases verdict : s.verdict with
  | token kind =>
    simp only [verdict] at placed
    have isToken : s.verdict ≠ .stray := by simp [verdict]
    refine ⟨s, eq_singleton_of_joinStrays joined isToken, ?_⟩
    obtain ⟨rfl, -⟩ := List.cons.inj (congrArg LexResult.tokens placed)
    rw [verdict]
  | _ => simp [verdict] at placed

/-- A text is one visible token if the token that begins with its first character takes all others. -/
theorem tokenize_eq_single_iff (visible : kind.isHidden = false) (text : String) :
    tokenize keywords text = ⟨[⟨kind, text, 0⟩], []⟩ ↔
      ∃ c cs, text.toList = c :: cs ∧ classify keywords c cs = (.token kind, cs.length) := by
  constructor
  · intro single
    obtain ⟨s, segmented, verdict⟩ := segments_of_single single
    cases chars : text.toList with
    | nil =>
      rw [chars] at segmented
      cases segmented
    | cons c cs =>
      refine ⟨c, cs, rfl, ?_⟩
      rw [chars, segments, segmentsFrom] at segmented
      cases classified : classify keywords c cs with
      | mk first n =>
        simp only [classified, segmentsFrom_eq_segments] at segmented
        obtain ⟨rfl, behind⟩ := List.cons.inj segmented
        obtain rfl : first = .token kind := verdict
        -- nothing is left behind the one segment
        have all : cs.drop n = [] := by
          cases left : cs.drop n with
          | nil => rfl
          | cons d ds =>
            rw [left] at behind
            cases behind
        have bound := (begins_of_classify classified visible).le_length
        rw [List.drop_eq_nil_iff] at all
        rw [Nat.le_antisymm bound all]
  · rintro ⟨c, cs, chars, classified⟩
    have alone : tokenize keywords (String.ofList (c :: cs) ++ "") = _ :=
      tokenize_append (by simpa using classified)
    rw [← chars, String.ofList_toList, String.append_empty] at alone
    rw [alone]
    rfl

/-! ### Keywords that can be found -/

/-- A letter or an underscore, and then letters, digits and underscores. -/
def IsWord (cs : List Char) : Prop :=
  ∃ c rest, cs = c :: rest ∧ isNameStart c = true ∧ ∀ d ∈ rest, isNamePart d = true

/-- Some character is no letter, digit or underscore, and nothing else begins where these characters do. -/
def IsSign (cs : List Char) : Prop :=
  (∃ d ∈ cs, isNamePart d = false) ∧ ∃ c rest, cs = c :: rest ∧ Leads c rest

theorem parts_of_runLength (h : runLength isNamePart cs = cs.length) : ∀ d ∈ cs, isNamePart d = true := by
  have all : cs.takeWhile isNamePart = cs := by
    rw [← take_runLength, h, List.take_length]
  exact List.takeWhile_eq_self_iff.1 all

theorem Leads.notStart (h : Leads c rest) : isNameStart c = false := by
  rw [Bool.eq_false_iff]
  intro start
  have part := h.part
  rw [isNamePart_of_isNameStart start] at part
  cases part

theorem Leads.notDigit (h : Leads c rest) : c.isDigit = false := by
  rw [Bool.eq_false_iff]
  intro digit
  have part := h.part
  rw [isNamePart_of_isDigit digit] at part
  cases part

/-- Where only a sign can begin, the lexer finds the longest one. -/
theorem classify_of_leads (h : Leads c rest) (longest : longestKeyword keywords (c :: rest) = n + 1) :
    classify keywords c rest = (.token .keyword, n) := by
  have line : ¬(c == '/' && rest.head? == some '/') = true := by
    simpa using fun slash => (h.comment slash).1
  have block : ¬(c == '/' && rest.head? == some '*') = true := by
    simpa using fun slash => (h.comment slash).2
  have caret : ¬(c == '^' && rest.head?.any isNameStart) = true := by
    simpa [Option.any_eq_false] using h.caret
  rw [classify, h.blank, if_neg Bool.false_ne_true, if_neg line, if_neg block, h.notStart,
    if_neg Bool.false_ne_true, if_neg caret, h.notDigit, if_neg Bool.false_ne_true, h.quote,
    if_neg Bool.false_ne_true, longest]

/-- **Which keywords the lexer can find.** Whatever the other keywords are, the text of a keyword is read as
that keyword and nothing else if it is a word, or if it is a sign: if it has a character that is no letter,
digit or underscore, and begins with no white space, letter, digit, underscore or quote, with no comment,
and with no caret that makes a name of what follows. -/
theorem tokenize_keyword_iff {k : String} (mem : k ∈ keywords) :
    tokenize keywords k = ⟨[⟨.keyword, k, 0⟩], []⟩ ↔ IsWord k.toList ∨ IsSign k.toList := by
  rw [tokenize_eq_single_iff rfl]
  constructor
  · rintro ⟨c, cs, chars, classified⟩
    rw [chars]
    generalize size : cs.length = n at classified
    cases begins_of_classify classified rfl with
    | word start => exact .inl ⟨c, cs, rfl, start, parts_of_runLength size.symm⟩
    | sign leads => exact .inr ⟨⟨c, List.mem_cons_self, leads.part⟩, c, cs, rfl, leads⟩
  · rintro (⟨c, cs, chars, start, parts⟩ | ⟨-, c, cs, chars, leads⟩)
    · refine ⟨c, cs, chars, (lexes_word start parts ?_).classify⟩
      rwa [← chars, String.ofList_toList]
    · refine ⟨c, cs, chars, classify_of_leads leads ?_⟩
      apply Nat.le_antisymm
      · exact longestKeyword_le_length keywords (c :: cs)
      · have itself : k.toList.isPrefixOf (c :: cs) = true := by
          rw [chars]
          exact List.isPrefixOf_iff_prefix.2 List.prefix_rfl
        have le := le_longestKeyword mem itself
        rwa [chars] at le

/-- A caret and a letter: as a keyword, this is never found. -/
theorem tokenize_keyword_iff_caret :
    "^a" ∈ ["^", "^a"] ∧ (tokenize ["^", "^a"] "^a" = ⟨[⟨.keyword, "^a", 0⟩], []⟩ ↔
      IsWord "^a".toList ∨ IsSign "^a".toList) := by
  have mem : "^a" ∈ ["^", "^a"] := by decide
  exact ⟨mem, tokenize_keyword_iff mem⟩

/-! ### Words with white space behind them -/

/-- No keyword has a blank in it. -/
def Blankless (keywords : List String) : Prop := ∀ k ∈ keywords, ∀ d ∈ k.toList, Text.isBlank d = false

theorem Leads.append (h : Leads c cs) (ends : EndsWord rest) : Leads c (cs ++ rest) := by
  cases cs with
  | nil =>
    have other : ∀ d, Text.isBlank d = false → rest.head? ≠ some d := by
      intro d visible head
      rw [ends d head] at visible
      cases visible
    refine ⟨h.blank, h.part, h.quote, fun _ => ⟨other '/' (by decide), other '*' (by decide)⟩, ?_⟩
    intro _ d head
    rw [Bool.eq_false_iff]
    intro start
    exact other d (isBlank_of_isNamePart (isNamePart_of_isNameStart start)) head
  | cons d ds => exact ⟨h.blank, h.part, h.quote, h.comment, h.caret⟩

/-- A keyword without blanks does not reach into white space. -/
theorem isPrefixOf_of_append {k : List Char} (visible : ∀ d ∈ k, Text.isBlank d = false)
    (ends : EndsWord rest) (h : k.isPrefixOf (cs ++ rest) = true) : k.isPrefixOf cs = true := by
  rw [List.isPrefixOf_iff_prefix] at h ⊢
  rcases List.prefix_or_prefix_of_prefix h (List.prefix_append cs rest) with inside | ⟨tail, rfl⟩
  · exact inside
  · cases tail with
    | nil => simp
    | cons d ds =>
      obtain ⟨more, eq⟩ := h
      have head : rest.head? = some d := by
        rw [List.append_assoc, List.append_cancel_left_eq] at eq
        rw [← eq]
        rfl
      have blank := ends d head
      rw [visible d (by simp)] at blank
      cases blank

theorem longestKeyword_append (blankless : Blankless keywords) (ends : EndsWord rest) :
    longestKeyword keywords (cs ++ rest) = longestKeyword keywords cs := by
  apply Nat.le_antisymm
  · apply longestKeyword_le
    intro k mem isPrefix
    exact le_longestKeyword mem (isPrefixOf_of_append (blankless k mem) ends isPrefix)
  · apply longestKeyword_le
    intro k mem isPrefix
    rw [List.isPrefixOf_iff_prefix] at isPrefix
    exact le_longestKeyword mem (List.isPrefixOf_iff_prefix.2 (isPrefix.trans (List.prefix_append cs rest)))

theorem lexes_sign (blankless : Blankless keywords) (leads : Leads c cs)
    (longest : longestKeyword keywords (c :: cs) = cs.length + 1) :
    Lexes keywords (.keyword, String.ofList (c :: cs)) := by
  refine ⟨rfl, c, cs, rfl, leads.blank, fun rest ends => classify_of_leads (leads.append ends) ?_⟩
  rw [← List.cons_append, longestKeyword_append blankless ends, longest]

theorem lexes_literal {quote : Char} {body : List Char} (isQuote : isQuote quote = true)
    (isBody : Text.LiteralBody quote body) :
    Lexes keywords (.string, String.ofList (quote :: (body ++ [quote]))) := by
  have visible : Text.isBlank quote = false := by
    rcases quote_of_isQuote isQuote with rfl | rfl <;> decide
  refine ⟨rfl, quote, body ++ [quote], rfl, visible, fun rest _ => ?_⟩
  have scanned := classify_of_isQuote keywords isQuote isBody rest
  simpa using scanned

/-- What is one visible token on its own is one with white space behind it. -/
theorem Begins.lexes (blankless : Blankless keywords) (h : Begins keywords c cs kind n)
    (all : n = cs.length) : Lexes keywords (kind, String.ofList (c :: cs)) := by
  cases h with
  | word start known =>
    rw [all, List.take_length] at known
    exact lexes_word start (parts_of_runLength all) known
  | name start unknown =>
    rw [all, List.take_length] at unknown
    have found : Lexes keywords _ := lexes_name start (parts_of_runLength all)
    rwa [List.contains_eq_mem, decide_eq_false unknown] at found
  | caret escape start =>
    obtain ⟨d, head, start⟩ := start
    obtain ⟨ds, rfl⟩ := List.head?_eq_some_iff.1 head
    obtain ⟨-, parts⟩ := List.forall_mem_cons.1 (parts_of_runLength all)
    rw [escape]
    exact lexes_caret start parts
  | number digit =>
    obtain ⟨taken, behind, rfl, size, fractional⟩ := exists_numberExtent cs
    obtain rfl : behind = [] := by
      rw [all, List.length_append] at size
      exact List.length_eq_zero_iff.1 (by omega)
    rw [List.append_nil]
    cases fractional with
    | whole digits => exact lexes_whole digit digits
    | point digits point digits' => exact lexes_fraction digit digits point digits'
  | string isQuote closed =>
    obtain ⟨body, behind, rfl, size, isBody⟩ := body_of_closeString closed
    obtain rfl : behind = [] := by
      rw [all, List.length_append, List.length_cons] at size
      exact List.length_eq_zero_iff.1 (by omega)
    exact lexes_literal isQuote isBody
  | sign leads longest =>
    rw [all] at longest
    exact lexes_sign blankless leads longest

/-! ### Words with single spaces between them -/

/-- The tokens of words that stand one behind the other from an offset on, with one space between any two
neighbours. -/
def lineUp : Nat → List (TokenKind × String) → List Token
  | _, [] => []
  | offset, [word] => [⟨word.1, word.2, offset⟩]
  | offset, word :: next :: words =>
    ⟨word.1, word.2, offset⟩ :: ⟨.blank, " ", offset + word.2.utf8ByteSize⟩ ::
      lineUp (offset + word.2.utf8ByteSize + 1) (next :: words)

/-- The lexer finds a word on its own: one visible token, and no fault. -/
structure FoundAlone (keywords : List String) (word : TokenKind × String) : Prop where
  faultless : (tokenize keywords word.2).errors = []
  reading : (tokenize keywords word.2).reading = [word]

theorem map_shift_lineUp (n offset : Nat) (words : List (TokenKind × String)) :
    (lineUp offset words).map (Token.shift n) = lineUp (n + offset) words := by
  fun_induction lineUp offset words with
  | case1 => rfl
  | case2 offset word => rfl
  | case3 offset word next words ih =>
    have further : n + offset + word.2.utf8ByteSize + 1 = n + (offset + word.2.utf8ByteSize + 1) := by
      omega
    rw [lineUp, further, ← ih]
    simp [Token.shift, Nat.add_assoc]

theorem Lexes.tokenize {word : TokenKind × String} (h : Lexes keywords word) {rest : String}
    (ends : EndsWord rest.toList) :
    tokenize keywords (word.2 ++ rest) = (tokenize keywords rest).behind word.1 word.2 := by
  obtain ⟨-, c, cs, image, -, found⟩ := h
  rw [image]
  exact tokenize_append (found _ ends)

/-- A token that spells the whole text is the only one. -/
theorem tokens_of_whole {t : Token} (mem : t ∈ (Lexer.tokenize keywords t.image).tokens) :
    (Lexer.tokenize keywords t.image).tokens = [t] ∧ t.offset = 0 := by
  have ordered := inOrder_tokenize keywords t.image
  have within : ∀ u ∈ (Lexer.tokenize keywords t.image).tokens, u.stop ≤ t.image.utf8ByteSize := by
    intro u mem
    obtain ⟨before, after, spelled, offset⟩ := mem_tokenize mem
    rw [utf8ByteSize_eq t.image, spelled, byteLength_append, byteLength_append, ← utf8ByteSize_eq,
      Token.stop, offset]
    omega
  have start : t.offset = 0 := by
    have bound := within t mem
    rw [Token.stop] at bound
    omega
  obtain ⟨front, back, split⟩ := List.append_of_mem mem
  have apart := ordered.apart
  rw [split, List.pairwise_append, List.pairwise_cons] at apart
  obtain ⟨-, ⟨behind, -⟩, before⟩ := apart
  -- another token would end where the text starts, or start where the text ends
  obtain rfl : front = [] := by
    apply List.eq_nil_iff_forall_not_mem.2
    intro u here
    have ends := before u here t List.mem_cons_self
    have solid := ordered.solid u (by simp [split, here])
    omega
  obtain rfl : back = [] := by
    apply List.eq_nil_iff_forall_not_mem.2
    intro u here
    have starts := behind u here
    have mem : u ∈ (Lexer.tokenize keywords t.image).tokens := by simp [split, here]
    have solid := ordered.solid u mem
    have bound := within u mem
    rw [Token.stop] at starts
    omega
  exact ⟨split, start⟩

theorem FoundAlone.single {word : TokenKind × String} (h : FoundAlone keywords word) :
    word.1.isHidden = false ∧ Lexer.tokenize keywords word.2 = ⟨[⟨word.1, word.2, 0⟩], []⟩ := by
  obtain ⟨faultless, reading⟩ := h
  obtain ⟨t, filtered, rfl⟩ := List.map_eq_singleton_iff.1 reading
  have shown : t ∈ (Lexer.tokenize keywords t.image).tokens.filter Token.isVisible := by
    exact filtered ▸ List.mem_singleton_self t
  obtain ⟨mem, visible⟩ := List.mem_filter.1 shown
  obtain ⟨tokens, start⟩ := tokens_of_whole mem
  constructor
  · simpa [Token.isVisible, Token.reading] using visible
  · show Lexer.tokenize keywords t.image = ⟨[⟨t.kind, t.image, 0⟩], []⟩
    rw [← start, ← tokens, ← show (Lexer.tokenize keywords t.image).errors = [] from faultless]

theorem FoundAlone.lexes (blankless : Blankless keywords) {word : TokenKind × String}
    (h : FoundAlone keywords word) : Lexes keywords word := by
  obtain ⟨visible, single⟩ := h.single
  obtain ⟨c, cs, chars, classified⟩ := (tokenize_eq_single_iff visible word.2).1 single
  have lexes := (begins_of_classify classified visible).lexes blankless rfl
  rwa [← chars, String.ofList_toList] at lexes

/-- One space in front of a word is a token of its own. -/
theorem tokenize_space {word : TokenKind × String} (h : Lexes keywords word) (rest : String) :
    tokenize keywords (" " ++ (word.2 ++ rest)) = (tokenize keywords (word.2 ++ rest)).behind .blank " " := by
  obtain ⟨-, c, cs, image, visible, -⟩ := h
  have alone : runLength Text.isBlank (word.2 ++ rest).toList = 0 := by
    rw [image, String.toList_append, String.toList_ofList, runLength, List.cons_append,
      List.takeWhile_cons_of_neg (by simpa using visible)]
    rfl
  have space : classify keywords ' ' (word.2 ++ rest).toList = (.token .blank, 0) := by
    rw [classify, if_pos (by decide), alone]
  exact tokenize_append (show classify keywords ' ' ([] ++ (word.2 ++ rest).toList) = _ from space)

theorem exists_intercalate (gap first : String) (others : List String) :
    ∃ rest, gap.intercalate (first :: others) = first ++ rest := by
  cases others with
  | nil => exact ⟨"", by simp⟩
  | cons next others =>
    exact ⟨gap ++ gap.intercalate (next :: others), by rw [String.intercalate_cons_cons, String.append_assoc]⟩

/-- **Words between single spaces are found one by one.** If no keyword has a blank in it, then whatever
words the lexer finds on their own, it finds them in their text with single spaces between them: the same
tokens, each where it stands, one white space token between any two of them, and no fault. -/
theorem tokenize_intercalate (blankless : Blankless keywords) {words : List (TokenKind × String)}
    (alone : ∀ word ∈ words, FoundAlone keywords word) :
    tokenize keywords (" ".intercalate (words.map Prod.snd)) = ⟨lineUp 0 words, []⟩ := by
  induction words with
  | nil => rfl
  | cons word words ih =>
    obtain ⟨first, others⟩ := List.forall_mem_cons.1 alone
    have lexes := first.lexes blankless
    cases words with
    | nil => simpa [lineUp] using first.single.2
    | cons next words =>
      have lexes' := (others next List.mem_cons_self).lexes blankless
      obtain ⟨rest, starts⟩ := exists_intercalate " " next.2 (words.map Prod.snd)
      have ends : EndsWord (" " ++ (next.2 ++ rest)).toList := by
        intro d head
        obtain rfl : ' ' = d := by simpa using head
        decide
      have split : " ".intercalate ((word :: next :: words).map Prod.snd) =
          word.2 ++ (" " ++ (next.2 ++ rest)) := by
        rw [← starts, List.map_cons, List.map_cons, String.intercalate_cons_cons, String.append_assoc]
      have one : " ".utf8ByteSize = 1 := rfl
      rw [split, lexes.tokenize ends, tokenize_space lexes', ← starts, ← List.map_cons, ih others]
      simp [LexResult.behind, lineUp, map_shift_lineUp, Token.shift, one]

theorem tokenize_intercalate_literal :
    Blankless ["-", "->"] ∧
      (∀ word ∈ [(.keyword, "->"), (.string, "'- >'"), (.number, "4.5")], FoundAlone ["-", "->"] word) ∧
      tokenize ["-", "->"] (" ".intercalate ["->", "'- >'", "4.5"]) =
        ⟨lineUp 0 [(.keyword, "->"), (.string, "'- >'"), (.number, "4.5")], []⟩ := by
  have blankless : Blankless ["-", "->"] := by
    have visible : Text.isBlank '-' = false ∧ Text.isBlank '>' = false := by decide
    simp [Blankless, visible]
  have alone : ∀ word ∈ [(.keyword, "->"), (.string, "'- >'"), (.number, "4.5")],
      FoundAlone ["-", "->"] word := by
    simp only [List.forall_mem_cons]
    exact ⟨⟨by decide, by decide⟩, ⟨by decide, by decide⟩, ⟨by decide, by decide⟩, nofun⟩
  exact ⟨blankless, alone, tokenize_intercalate blankless alone⟩

end Lexer

end Workbench
