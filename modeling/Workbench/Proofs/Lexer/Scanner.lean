import Workbench.Proofs.Lexer.Words
import Workbench.Proofs.Loops

/-!
**The scanner.**

The text is scanned by byte positions, in one loop (`tokenize`). Each turn looks at what stands at a
position, and goes on behind it. Where nothing known stands, the position where that began is kept, and all
stray characters up to the next thing known are one error. Every piece is taken out of the text by
positions, which is refused if one of them stands inside of a character. That never comes about, the loop
ends, and it ends with the segments of the text at their places: how many bytes a branch takes is how many
bytes the characters of its segment have.
-/

namespace Workbench.Lexer

open Text (byteLength)

/-! ### Pieces of a text -/

/-- A position stands inside of a character, or behind the text. -/
inductive Misplaced where
  | misplaced
deriving DecidableEq, Repr

/-- What stands behind some bytes. -/
def dropBytes : Nat → List Char → Except Misplaced (List Char)
  | 0, cs => .ok cs
  | _ + 1, [] => .error .misplaced
  | n + 1, c :: cs => if c.utf8Size ≤ n + 1 then dropBytes (n + 1 - c.utf8Size) cs else .error .misplaced

/-- The first bytes. -/
def takeBytes : Nat → List Char → Except Misplaced (List Char)
  | 0, _ => .ok []
  | _ + 1, [] => .error .misplaced
  | n + 1, c :: cs =>
    if c.utf8Size ≤ n + 1 then (takeBytes (n + 1 - c.utf8Size) cs).map (c :: ·) else .error .misplaced

/-- What stands between two positions. -/
def slice (start stop : Nat) (cs : List Char) : Except Misplaced (List Char) :=
  if start ≤ stop then do takeBytes (stop - start) (← dropBytes start cs) else .error .misplaced

/-- The position of the first character that satisfies `p`. -/
def find (p : Char → Bool) : List Char → Option Nat
  | [] => none
  | c :: cs => if p c then some 0 else (find p cs).map (· + c.utf8Size)

/-- The position of the first place where `piece` stands. -/
def findText (piece : List Char) : List Char → Option Nat
  | [] => if piece.isEmpty then some 0 else none
  | c :: cs => if piece.isPrefixOf (c :: cs) then some 0 else (findText piece cs).map (· + c.utf8Size)

/-- How far characters that satisfy `p` reach. -/
def reach (p : Char → Bool) (cs : List Char) : Nat := (find (!p ·) cs).getD (byteLength cs)

/-! ### What stands at a position -/

/-- The keywords, sorted out: those that are words, and all others, the longest first. -/
structure Scanner where
  words : List String
  signs : List String

def Scanner.isWord (keyword : String) : Bool := keyword.toList.all isNamePart

/-- Sorts the keywords (`new`). An empty one is left out. -/
def Scanner.new (keywords : List String) : Scanner where
  words := keywords.filter fun k => k != "" && isWord k
  signs := (keywords.filter fun k => k != "" && !isWord k).eraseDups.mergeSort fun a b =>
    decide (b.utf8ByteSize < a.utf8ByteSize) || (a.utf8ByteSize == b.utf8ByteSize && decide (a ≤ b))

/-- The length of the first sign that the text goes on with (`match_symbol`). -/
def Scanner.matchSign (l : Scanner) (rest : List Char) : Option Nat :=
  (l.signs.find? fun k => k.toList.isPrefixOf rest).map String.utf8ByteSize

/-- The length of a string, both quotes included, where its quote has `length` bytes (`scan_string`). -/
def scanString (quote : Char) (length : Nat) (escaped : Bool) : List Char → Option Nat
  | [] => none
  | c :: cs =>
    if c == '\n' then none
    else if c == '\\' && !escaped then scanString quote (length + c.utf8Size) true cs
    else if c == quote && !escaped then some (length + c.utf8Size)
    else scanString quote (length + c.utf8Size) false cs

/-- What stands at a position, and how many bytes it has. -/
inductive Found where
  | token (kind : TokenKind) (length : Nat)
  | unclosed (fault : LexFault) (length : Nat)
  | nothing
deriving DecidableEq, Repr

/-- A comment between `/*` and `*/`. -/
def lookComment (rest : List Char) : Except Misplaced Found := do
  match findText ['*', '/'] (← dropBytes 2 rest) with
  | some stop => return .token .comment (stop + 4)
  | none => return .unclosed .unterminatedComment (byteLength rest)

/-- Whether a name or a word begins here. -/
def startsName (c : Char) (rest : List Char) : Except Misplaced Bool :=
  if isNameStart c then .ok true
  else if c == '^' then do return (← dropBytes 1 rest).head?.any isNameStart
  else .ok false

def Scanner.lookName (l : Scanner) (c : Char) (rest : List Char) : Except Misplaced Found := do
  let skip := if c == '^' then 1 else 0
  let tail ← dropBytes skip rest
  let length := ((find (!isNamePart ·) tail).map (· + skip)).getD (byteLength rest)
  let word ← takeBytes length rest
  if skip == 0 && l.words.contains (String.ofList word) then return .token .keyword length
  else return .token .identifier length

def lookNumber (rest : List Char) : Except Misplaced Found := do
  let whole := reach Char.isDigit rest
  let tail ← dropBytes whole rest
  if tail.head? == some '.' then
    let behind ← dropBytes 1 tail
    if behind.head?.any Char.isDigit then
      return .token .number (whole + (1 + (find (!·.isDigit) behind).getD (byteLength tail - 1)))
    else return .token .number whole
  else return .token .number whole

/-- What stands at the position of `c`. -/
def Scanner.look (l : Scanner) (c : Char) (cs : List Char) : Except Misplaced Found := do
  let rest := c :: cs
  if Text.isBlank c then return .token .blank (reach Text.isBlank rest)
  else if ['/', '/'].isPrefixOf rest then return .token .comment (reach (· != '\n') rest)
  else if ['/', '*'].isPrefixOf rest then lookComment rest
  else if ← startsName c rest then l.lookName c rest
  else if c.isDigit then lookNumber rest
  else if isQuote c then
    match scanString c c.utf8Size false cs with
    | some length => return .token .string length
    | none => return .unclosed .unterminatedString (reach (· != '\n') rest)
  else
    match l.matchSign rest with
    | some length => return .token .keyword length
    | none => return .nothing

/-! ### The loop -/

/-- Where the scanner is, and what it has found so far. -/
structure Scan where
  pos : Nat := 0
  /-- Where the stray characters begin that no error has been made of yet. -/
  garbage : Option Nat := none
  tokens : List Token := []
  errors : List LexError := []

/-- Makes an error of the stray characters that end at `stop` (`flush_garbage`). -/
def Scan.flush (text : List Char) (stop : Nat) (s : Scan) : Except Misplaced Scan :=
  match s.garbage with
  | none => .ok s
  | some start => do
    let piece ← slice start stop text
    let error : LexError := ⟨(LexFault.unexpected (String.ofList piece)).message, TextRange.of start stop⟩
    return { s with garbage := none, errors := s.errors ++ [error] }

/-- A turn of the loop. -/
def Scanner.turn (l : Scanner) (text : List Char) (s : Scan) : Except Misplaced (Option Scan) :=
  if s.pos < byteLength text then do
    match ← dropBytes s.pos text with
    | [] => return none
    | c :: cs =>
      match ← l.look c cs with
      | .token kind length =>
        let s ← s.flush text s.pos
        let image ← takeBytes length (c :: cs)
        return some { s with
          pos := s.pos + length
          tokens := s.tokens ++ [⟨kind, String.ofList image, s.pos⟩] }
      | .unclosed fault length =>
        let s ← s.flush text s.pos
        return some { s with
          pos := s.pos + length
          errors := s.errors ++ [⟨fault.message, TextRange.of s.pos (s.pos + length)⟩] }
      | .nothing =>
        return some { s with pos := s.pos + c.utf8Size, garbage := some (s.garbage.getD s.pos) }
  else .ok none

variable {keywords : List String} {p : Char → Bool} {c : Char} {cs rest : List Char} {n : Nat}

/-! ### Pieces and the characters they have -/

theorem dropBytes_byteLength (taken rest : List Char) :
    dropBytes (byteLength taken) (taken ++ rest) = .ok rest := by
  induction taken with
  | nil => cases rest <;> rfl
  | cons c taken ih =>
    have size := c.utf8Size_pos
    obtain ⟨n, eq⟩ : ∃ n, byteLength (c :: taken) = n + 1 := ⟨c.utf8Size + byteLength taken - 1, by
      rw [byteLength]; omega⟩
    have left : n + 1 - c.utf8Size = byteLength taken := by rw [← eq, byteLength]; omega
    rw [eq, List.cons_append, dropBytes, if_pos (by rw [← eq, byteLength]; omega), left, ih]

theorem takeBytes_byteLength (taken rest : List Char) :
    takeBytes (byteLength taken) (taken ++ rest) = .ok taken := by
  induction taken with
  | nil => cases rest <;> rfl
  | cons c taken ih =>
    have size := c.utf8Size_pos
    obtain ⟨n, eq⟩ : ∃ n, byteLength (c :: taken) = n + 1 := ⟨c.utf8Size + byteLength taken - 1, by
      rw [byteLength]; omega⟩
    have left : n + 1 - c.utf8Size = byteLength taken := by rw [← eq, byteLength]; omega
    rw [eq, List.cons_append, takeBytes, if_pos (by rw [← eq, byteLength]; omega), left, ih]
    rfl

theorem takeBytes_cons (n : Nat) (c : Char) (cs : List Char) :
    takeBytes (byteLength (c :: cs.take n)) (c :: cs) = .ok (c :: cs.take n) := by
  have split : c :: cs = (c :: cs.take n) ++ cs.drop n := by rw [List.cons_append, List.take_append_drop]
  conv_lhs => rw [split]
  exact takeBytes_byteLength _ _

theorem slice_byteLength (before taken rest : List Char) :
    slice (byteLength before) (byteLength (before ++ taken)) (before ++ taken ++ rest) = .ok taken := by
  have size : byteLength (before ++ taken) - byteLength before = byteLength taken := by
    rw [byteLength_append]; omega
  have le : byteLength before ≤ byteLength (before ++ taken) := by
    rw [byteLength_append]; omega
  rw [slice, if_pos le, size, List.append_assoc, dropBytes_byteLength]
  exact takeBytes_byteLength taken rest

/-- How far characters reach is how many bytes they have. -/
theorem reach_eq (p : Char → Bool) (cs : List Char) : reach p cs = byteLength (cs.takeWhile p) := by
  unfold reach
  induction cs with
  | nil => rfl
  | cons c cs ih =>
    rw [find, List.takeWhile_cons]
    cases satisfied : p c with
    | false => rfl
    | true =>
      simp only [Bool.not_true, Bool.false_eq_true, if_false, if_true, byteLength, ← ih]
      cases find (!p ·) cs with
      | none => rfl
      | some n => exact Nat.add_comm _ _

theorem reach_cons (satisfied : p c = true) :
    reach p (c :: cs) = byteLength (c :: cs.take (runLength p cs)) := by
  rw [reach_eq, List.takeWhile_cons_of_pos satisfied, take_runLength]

/-- A comment ends where `*/` is found, two bytes further on. -/
theorem findText_eq (cs : List Char) :
    (findText ['*', '/'] cs).map (· + 2) = (closeComment cs).map fun n => byteLength (cs.take n) := by
  fun_induction closeComment cs with
  | case1 rest => rfl
  | case2 c rest other ih =>
    have here : ['*', '/'].isPrefixOf (c :: rest) = false := by
      rw [Bool.eq_false_iff]
      intro here
      obtain ⟨tail, eq⟩ := List.isPrefixOf_iff_prefix.1 here
      cases eq
      exact other tail rfl rfl
    rw [findText, here, if_neg Bool.false_ne_true]
    calc ((findText ['*', '/'] rest).map (· + c.utf8Size)).map (· + 2)
      _ = ((findText ['*', '/'] rest).map (· + 2)).map (· + c.utf8Size) := by
        rw [Option.map_map, Option.map_map]
        exact congrArg (Option.map · _) (funext fun n => Nat.add_right_comm _ _ _)
      _ = ((closeComment rest).map (· + 1)).map fun n => byteLength ((c :: rest).take n) := by
        rw [ih, Option.map_map, Option.map_map]
        exact congrArg (Option.map · _) (funext fun n => Nat.add_comm _ _)
  | case3 => rfl

theorem scanString_eq (quote : Char) (length : Nat) (escaped : Bool) (cs : List Char) :
    scanString quote length escaped cs =
      (closeString quote escaped cs).map fun n => length + byteLength (cs.take n) := by
  induction cs generalizing length escaped with
  | nil => rfl
  | cons c cs ih =>
    have further : ∀ e, ((closeString quote e cs).map fun n => length + c.utf8Size + byteLength (cs.take n)) =
        ((closeString quote e cs).map (· + 1)).map fun n => length + byteLength ((c :: cs).take n) := by
      intro e
      rw [Option.map_map]
      refine congrArg (Option.map · _) (funext fun n => ?_)
      rw [Function.comp_apply, List.take_succ_cons, byteLength, Nat.add_assoc]
    rw [scanString, closeString, ih, ih, further, further]
    split
    · rfl
    split
    · rfl
    split
    · rfl
    · rfl

/-! ### Signs, the longest first -/

theorem mem_signs (k : String) :
    k ∈ (Scanner.new keywords).signs ↔ k ∈ keywords ∧ k ≠ "" ∧ Scanner.isWord k = false := by
  simp [Scanner.new, List.mem_mergeSort, List.mem_eraseDups]

theorem sorted_signs (keywords : List String) :
    (Scanner.new keywords).signs.Pairwise fun a b => b.utf8ByteSize ≤ a.utf8ByteSize := by
  unfold Scanner.new
  refine (List.pairwise_mergeSort ?_ ?_ _).imp ?_
  · intro a b c hab hbc
    simp only [Bool.or_eq_true, Bool.and_eq_true, decide_eq_true_eq, beq_iff_eq] at hab hbc ⊢
    rcases hab with hab | ⟨hab, le⟩
    · rcases hbc with hbc | ⟨hbc, -⟩
      · exact .inl (Nat.lt_trans hbc hab)
      · exact .inl (hbc ▸ hab)
    · rcases hbc with hbc | ⟨hbc, le'⟩
      · exact .inl (hab ▸ hbc)
      · exact .inr ⟨hab.trans hbc, String.le_trans le le'⟩
  · intro a b
    simp only [Bool.or_eq_true, Bool.and_eq_true, decide_eq_true_eq, beq_iff_eq]
    rcases Nat.lt_trichotomy a.utf8ByteSize b.utf8ByteSize with lt | eq | lt
    · exact .inr (.inl lt)
    · rcases String.le_total a b with le | le
      · exact .inl (.inr ⟨eq, le⟩)
      · exact .inr (.inr ⟨eq.symm, le⟩)
    · exact .inl (.inl lt)
  · intro a b ordered
    simp only [Bool.or_eq_true, Bool.and_eq_true, decide_eq_true_eq, beq_iff_eq] at ordered
    omega

/-- Of two pieces that a text goes on with, the one with more bytes has more characters. -/
theorem length_le_of_prefix {xs ys : List Char} (hx : xs <+: cs) (hy : ys <+: cs)
    (le : byteLength xs ≤ byteLength ys) : xs.length ≤ ys.length := by
  rcases List.prefix_or_prefix_of_prefix hx hy with before | ⟨more, rfl⟩
  · exact before.length_le
  · cases more with
    | nil => simp
    | cons c more =>
      have size := c.utf8Size_pos
      rw [byteLength_append, byteLength] at le
      omega

theorem prefix_iff_take {k : String} (h : k.toList <+: cs) : cs.take k.toList.length = k.toList := by
  obtain ⟨behind, rfl⟩ := h
  exact List.take_left

/-- Where no word can stand, the first sign that the text goes on with is the longest keyword. -/
theorem matchSign_eq (part : isNamePart c = false) :
    (Scanner.new keywords).matchSign (c :: cs) =
      match longestKeyword keywords (c :: cs) with
      | 0 => none
      | n + 1 => some (byteLength (c :: cs.take n)) := by
  have sign : ∀ k ∈ keywords, k.toList.isPrefixOf (c :: cs) = true → k ≠ "" →
      k ∈ (Scanner.new keywords).signs := by
    intro k mem isPrefix some
    refine (mem_signs k).2 ⟨mem, some, ?_⟩
    have chars : k.toList ≠ [] := fun empty => some (String.toList_eq_nil_iff.1 empty)
    obtain ⟨d, ds, eq⟩ := List.exists_cons_of_ne_nil chars
    rw [eq, List.isPrefixOf_cons_cons, Bool.and_eq_true, beq_iff_eq] at isPrefix
    rw [Scanner.isWord, eq, List.all_cons, isPrefix.1, part, Bool.false_and]
  unfold Scanner.matchSign
  cases found : (Scanner.new keywords).signs.find? fun k => k.toList.isPrefixOf (c :: cs) with
  | none =>
    have none : longestKeyword keywords (c :: cs) = 0 := by
      refine Nat.le_zero.1 (longestKeyword_le fun k mem isPrefix => ?_)
      by_cases empty : k = ""
      · rw [empty]
        exact Nat.le_refl 0
      · exact absurd isPrefix (List.find?_eq_none.1 found k (sign k mem isPrefix empty))
    rw [none]
    rfl
  | some k =>
    obtain ⟨isPrefix, before, after, split, others⟩ := List.find?_eq_some_iff_append.1 found
    obtain ⟨mem, some, -⟩ := (mem_signs k).1 (List.mem_of_find?_eq_some found)
    have sorted := sorted_signs keywords
    rw [split] at sorted
    have first : ∀ k' ∈ keywords, k'.toList.isPrefixOf (c :: cs) = true →
        k'.toList.length ≤ k.toList.length := by
      intro k' mem' isPrefix'
      by_cases empty : k' = ""
      · rw [empty]
        exact Nat.zero_le _
      refine length_le_of_prefix (List.isPrefixOf_iff_prefix.1 isPrefix')
        (List.isPrefixOf_iff_prefix.1 isPrefix) ?_
      rw [← utf8ByteSize_eq, ← utf8ByteSize_eq]
      have listed := sign k' mem' isPrefix' empty
      rw [split] at listed
      rcases List.mem_append.1 listed with earlier | later
      · have other := others k' earlier
        rw [isPrefix'] at other
        cases other
      · rcases List.mem_cons.1 later with rfl | later
        · exact Nat.le_refl _
        · exact List.rel_of_pairwise_cons (List.pairwise_append.1 sorted).2.1 later
    have longest : longestKeyword keywords (c :: cs) = k.toList.length :=
      Nat.le_antisymm (longestKeyword_le first) (le_longestKeyword mem isPrefix)
    obtain ⟨n, size⟩ : ∃ n, k.toList.length = n + 1 := by
      refine Nat.exists_eq_succ_of_ne_zero fun empty => some ?_
      exact String.toList_eq_nil_iff.1 (List.length_eq_zero_iff.1 empty)
    rw [longest, size, Option.map_some, utf8ByteSize_eq,
      ← prefix_iff_take (List.isPrefixOf_iff_prefix.1 isPrefix), size]
    rfl

/-! ### What stands at a position is its segment -/

/-- What a verdict is to the scanner, if the segment has `length` bytes. -/
def Found.of (length : Nat) : Verdict → Found
  | .token kind => .token kind length
  | .unterminatedComment => .unclosed .unterminatedComment length
  | .unterminatedString => .unclosed .unterminatedString length
  | .stray => .nothing

theorem isPrefixOf_pair (a b : Char) :
    [a, b].isPrefixOf (c :: cs) = (c == a && cs.head? == some b) := by
  cases cs with
  | nil => simp [List.isPrefixOf]
  | cons d cs =>
    rw [List.isPrefixOf_cons_cons, List.isPrefixOf_cons_cons, List.isPrefixOf_nil_left, Bool.and_true]
    rw [Bool.beq_comm, Bool.beq_comm (a := b)]
    rfl

theorem lookComment_eq (cs : List Char) :
    lookComment ('/' :: '*' :: cs) = .ok (match closeComment cs with
      | some n => .token .comment (byteLength ('/' :: ('*' :: cs).take (n + 1)))
      | none => .unclosed .unterminatedComment (byteLength ('/' :: '*' :: cs))) := by
  have inner : dropBytes 2 ('/' :: '*' :: cs) = .ok cs := dropBytes_byteLength ['/', '*'] cs
  have closes := findText_eq cs
  unfold lookComment
  rw [inner]
  cases found : closeComment cs with
  | none =>
    rw [found, Option.map_none, Option.map_eq_none_iff] at closes
    simp only [bind, Except.bind, closes]
    rfl
  | some n =>
    rw [found, Option.map_some, Option.map_eq_some_iff] at closes
    obtain ⟨stop, finds, size⟩ := closes
    have length : stop + 4 = byteLength ('/' :: ('*' :: cs).take (n + 1)) := by
      rw [List.take_succ_cons, byteLength, byteLength, ← size]
      have one : '/'.utf8Size = 1 := rfl
      have one' : '*'.utf8Size = 1 := rfl
      omega
    simp only [bind, Except.bind, finds, length]
    rfl

theorem contains_words (start : isNameStart c = true) :
    (Scanner.new keywords).words.contains (String.ofList (c :: cs.take (runLength isNamePart cs))) =
      keywords.contains (String.ofList (c :: cs.take (runLength isNamePart cs))) := by
  have parts : Scanner.isWord (String.ofList (c :: cs.take (runLength isNamePart cs))) = true := by
    rw [Scanner.isWord, String.toList_ofList, List.all_cons, isNamePart_of_isNameStart start, take_runLength]
    exact List.all_takeWhile
  have some : String.ofList (c :: cs.take (runLength isNamePart cs)) ≠ "" := by
    intro empty
    simpa using congrArg String.toList empty
  generalize String.ofList (c :: cs.take (runLength isNamePart cs)) = word at parts some ⊢
  rw [Bool.eq_iff_iff]
  simp [Scanner.new, parts, some]

theorem lookName_eq (start : isNameStart c = true) :
    (Scanner.new keywords).lookName c (c :: cs) = .ok (.token
      (if keywords.contains (String.ofList (c :: cs.take (runLength isNamePart cs))) then .keyword else .identifier)
      (byteLength (c :: cs.take (runLength isNamePart cs)))) := by
  have notCaret : (c == '^') = false := by
    rw [beq_eq_false_iff_ne]
    rintro rfl
    cases start
  have whole : dropBytes 0 (c :: cs) = .ok (c :: cs) := rfl
  have length : ((find (!isNamePart ·) (c :: cs)).map (· + 0)).getD (byteLength (c :: cs)) =
      byteLength (c :: cs.take (runLength isNamePart cs)) := by
    rw [← reach_cons (isNamePart_of_isNameStart start), reach]
    simp
  unfold Scanner.lookName
  simp only [notCaret, Bool.false_eq_true, if_false, whole, bind, Except.bind, length, takeBytes_cons,
    beq_self_eq_true, Bool.true_and, contains_words start]
  split <;> rfl

/-- A caret is one byte, and the name goes on behind it. -/
theorem lookName_caret (cs : List Char) :
    (Scanner.new keywords).lookName '^' ('^' :: cs) =
      .ok (.token .identifier (byteLength ('^' :: cs.take (runLength isNamePart cs)))) := by
  have tail : dropBytes 1 ('^' :: cs) = .ok cs := dropBytes_byteLength ['^'] cs
  have length : ((find (!isNamePart ·) cs).map (· + 1)).getD (byteLength ('^' :: cs)) =
      byteLength ('^' :: cs.take (runLength isNamePart cs)) := by
    have reaches := reach_eq isNamePart cs
    have one : '^'.utf8Size = 1 := rfl
    rw [take_runLength, byteLength, byteLength, one, ← reaches, reach]
    cases find (!isNamePart ·) cs with
    | none => rfl
    | some n => exact Nat.add_comm _ _
  unfold Scanner.lookName
  simp only [beq_self_eq_true, if_true, tail, bind, Except.bind, length, takeBytes_cons]
  rfl

theorem lookNumber_eq (digit : c.isDigit = true) :
    lookNumber (c :: cs) = .ok (.token .number (byteLength (c :: cs.take (numberExtent cs)))) := by
  obtain ⟨digits, rest, split, size⟩ :
      ∃ digits rest, cs = digits ++ rest ∧ digits.length = runLength Char.isDigit cs :=
    ⟨cs.takeWhile Char.isDigit, cs.dropWhile Char.isDigit, List.takeWhile_append_dropWhile.symm, rfl⟩
  have taken : cs.take (runLength Char.isDigit cs) = digits := by rw [← size, split, List.take_left]
  have left : cs.drop (runLength Char.isDigit cs) = rest := by rw [← size, split, List.drop_left]
  have whole : reach Char.isDigit (c :: cs) = byteLength (c :: digits) := by rw [reach_cons digit, taken]
  have tail : dropBytes (byteLength (c :: digits)) (c :: cs) = .ok rest := by
    rw [split]
    exact dropBytes_byteLength (c :: digits) rest
  unfold lookNumber numberExtent
  simp only [whole, tail, left, bind, Except.bind]
  match rest with
  | [] => simp [pure, Except.pure, taken]
  | e :: rest =>
    by_cases point : e = '.'
    · subst point
      have behind : dropBytes 1 ('.' :: rest) = .ok rest := dropBytes_byteLength ['.'] rest
      simp only [List.head?_cons, beq_self_eq_true, if_true, behind]
      match rest with
      | [] => simp [pure, Except.pure, taken]
      | d :: rest =>
        cases fraction : d.isDigit with
        | false => simp [pure, Except.pure, taken, fraction]
        | true =>
          have more : (find (!·.isDigit) (d :: rest)).getD (byteLength ('.' :: d :: rest) - 1) =
              byteLength (d :: rest.take (runLength Char.isDigit rest)) := by
            have one : '.'.utf8Size = 1 := rfl
            have bytes : byteLength ('.' :: d :: rest) - 1 = byteLength (d :: rest) := by
              rw [byteLength, one]
              omega
            rw [bytes, ← reach_cons fraction, reach]
          have all : cs.take (runLength Char.isDigit cs + 2 + runLength Char.isDigit rest) =
              digits ++ '.' :: d :: rest.take (runLength Char.isDigit rest) := by
            rw [← size, split, Nat.add_assoc, List.take_length_add_append, Nat.add_comm 2]
            rfl
          have bytes : byteLength (c :: (digits ++ '.' :: d :: rest.take (runLength Char.isDigit rest))) =
              byteLength (c :: digits) + (1 + byteLength (d :: rest.take (runLength Char.isDigit rest))) := by
            rw [← List.cons_append, byteLength_append]
            rfl
          simp only [List.head?_cons, Option.any_some, fraction, if_true, more, all, bytes]
          rfl
    · have other : (some e == some '.') = false := by simpa using point
      simp [pure, Except.pure, taken, other, point]

theorem startsName_eq (c : Char) (cs : List Char) :
    startsName c (c :: cs) = .ok (isNameStart c || (c == '^' && cs.head?.any isNameStart)) := by
  unfold startsName
  cases isNameStart c with
  | true => rfl
  | false =>
    by_cases caret : c = '^'
    · subst caret
      have tail : dropBytes 1 ('^' :: cs) = .ok cs := dropBytes_byteLength ['^'] cs
      simp only [tail]
      rfl
    · simp [caret]

/-- **What the scanner finds at a position is the segment that begins there**, and it has as many bytes as the
characters of the segment. -/
theorem look_eq (keywords : List String) (c : Char) (cs : List Char) :
    (Scanner.new keywords).look c cs =
      .ok (.of (byteLength (c :: cs.take (classify keywords c cs).2)) (classify keywords c cs).1) := by
  unfold Scanner.look classify
  cases blank : Text.isBlank c with
  | true =>
    simp only [if_true, reach_cons blank]
    rfl
  | false =>
  simp only [Bool.false_eq_true, if_false, isPrefixOf_pair]
  cases line : c == '/' && cs.head? == some '/' with
  | true =>
    rw [Bool.and_eq_true, beq_iff_eq] at line
    have slash : (c != '\n') = true := by rw [line.1]; rfl
    simp only [if_true, reach_cons (p := (· != '\n')) slash]
    rfl
  | false =>
  simp only [Bool.false_eq_true, if_false]
  cases block : c == '/' && cs.head? == some '*' with
  | true =>
    rw [Bool.and_eq_true, beq_iff_eq, beq_iff_eq] at block
    obtain ⟨rfl, head⟩ := block
    obtain ⟨inner, rfl⟩ := List.head?_eq_some_iff.1 head
    simp only [if_true, lookComment_eq, List.tail_cons]
    cases closeComment inner with
    | none =>
      rw [List.take_length]
      rfl
    | some n => rfl
  | false =>
  simp only [Bool.false_eq_true, if_false, startsName_eq, bind, Except.bind]
  cases start : isNameStart c with
  | true =>
    simp only [Bool.true_or, if_true, lookName_eq start]
    rfl
  | false =>
  cases caret : c == '^' && cs.head?.any isNameStart with
  | true =>
    obtain rfl : c = '^' := by
      rw [Bool.and_eq_true, beq_iff_eq] at caret
      exact caret.1
    simp only [Bool.false_or, if_true, lookName_caret]
    rfl
  | false =>
  simp only [Bool.or_false, Bool.false_eq_true, if_false]
  cases digit : c.isDigit with
  | true =>
    simp only [if_true, lookNumber_eq digit]
    rfl
  | false =>
  simp only [Bool.false_eq_true, if_false]
  cases quote : isQuote c with
  | true =>
    have inside : (c != '\n') = true := by
      rw [bne_iff_ne]
      rintro rfl
      cases quote
    simp only [if_true, scanString_eq]
    cases closeString c false cs with
    | none =>
      simp only [Option.map_none, reach_cons (p := (· != '\n')) inside]
      rfl
    | some n => rfl
  | false =>
  have part : isNamePart c = false := by
    rw [isNameStart, Bool.or_eq_false_iff] at start
    rw [isNamePart, Char.isAlphanum, start.1, start.2, digit]
    rfl
  simp only [Bool.false_eq_true, if_false, matchSign_eq part]
  cases longestKeyword keywords (c :: cs) <;> rfl

/-! ### The loop comes to the segments -/

theorem place_append (offset : Nat) (xs ys : List Segment) :
    place offset (xs ++ ys) =
      ⟨(place offset xs).tokens ++ (place (offset + byteLength (xs.flatMap Segment.text)) ys).tokens,
        (place offset xs).errors ++ (place (offset + byteLength (xs.flatMap Segment.text)) ys).errors⟩ := by
  induction xs generalizing offset with
  | nil => rfl
  | cons s xs ih =>
    have stop : offset + (String.ofList s.text).utf8ByteSize + byteLength (xs.flatMap Segment.text) =
        offset + byteLength ((s :: xs).flatMap Segment.text) := by
      rw [utf8ByteSize_ofList, List.flatMap_cons, byteLength_append, Nat.add_assoc]
    rw [List.cons_append, place, place, ih, stop]
    cases s.verdict <;> rfl

/-- The segment of the stray characters `pending`, if there are any. -/
def straySegments (pending : List Char) : List Segment :=
  if pending = [] then [] else [⟨.stray, pending⟩]

theorem flatMap_straySegments (pending : List Char) : (straySegments pending).flatMap Segment.text = pending := by
  unfold straySegments
  split
  · next none => rw [none]; rfl
  · simp

theorem tokens_straySegments (offset : Nat) (pending : List Char) :
    (place offset (straySegments pending)).tokens = [] := by
  unfold straySegments
  split <;> rfl

theorem joinStrays_behind {s : Segment} (token : s.verdict ≠ .stray) (pending : List Char) (rest : List Segment) :
    joinStrays (straySegments pending ++ s :: rest) = straySegments pending ++ s :: joinStrays rest := by
  unfold straySegments
  split
  · exact joinStrays_cons token rest
  · rw [List.singleton_append, joinStrays, joinStrays_cons token]
    simp [token]

theorem joinStrays_more (pending : List Char) (c : Char) (rest : List Segment) :
    joinStrays (straySegments pending ++ ⟨.stray, [c]⟩ :: rest) =
      joinStrays (straySegments (pending ++ [c]) ++ rest) := by
  have some : straySegments (pending ++ [c]) = [⟨.stray, pending ++ [c]⟩] := by simp [straySegments]
  rw [some]
  unfold straySegments
  split
  · next none => rw [none]; rfl
  · simp only [List.singleton_append, joinStrays]
    cases joinStrays rest with
    | nil => simp
    | cons t ts =>
      by_cases stray : t.verdict = .stray
      · simp [stray]
      · simp [stray]

/-- The scanner is behind `front` and the stray characters `pending`, of which no error has been made. -/
structure Scan.Stands (text front pending rest : List Char) (s : Scan) : Prop where
  split : text = front ++ pending ++ rest
  pos : s.pos = byteLength (front ++ pending)
  garbage : s.garbage = if pending = [] then none else some (byteLength front)

/-- What a scan has found, and what is placed behind it. -/
def Scan.followedBy (s : Scan) (result : LexResult) : LexResult :=
  ⟨s.tokens ++ result.tokens, s.errors ++ result.errors⟩

variable {text front pending : List Char} {s : Scan}

theorem Scan.Stands.here (h : s.Stands text front pending (c :: cs)) :
    s.pos < byteLength text ∧ dropBytes s.pos text = .ok (c :: cs) := by
  rw [h.pos, h.split]
  constructor
  · have size := c.utf8Size_pos
    rw [byteLength_append _ (c :: cs), byteLength]
    omega
  · exact dropBytes_byteLength _ _

theorem Scan.Stands.flush (h : s.Stands text front pending rest) :
    s.flush text s.pos = .ok { s with
      garbage := none
      errors := s.errors ++ (place (byteLength front) (straySegments pending)).errors } := by
  have garbage := h.garbage
  unfold Scan.flush straySegments
  by_cases nothing : pending = []
  · rw [if_pos nothing] at garbage ⊢
    rw [garbage]
    simp [place, ← garbage]
  · rw [if_neg nothing] at garbage ⊢
    have piece : slice (byteLength front) s.pos text = .ok pending := by
      rw [h.split, h.pos]
      exact slice_byteLength front pending rest
    have stop : s.pos = byteLength front + (String.ofList pending).utf8ByteSize := by
      rw [h.pos, byteLength_append, utf8ByteSize_ofList]
    rw [garbage]
    simp only [piece, bind, Except.bind, place, ← stop]
    rfl

theorem segments_cons {verdict : Verdict} (classified : classify keywords c cs = (verdict, n)) :
    segments keywords (c :: cs) = ⟨verdict, c :: cs.take n⟩ :: segments keywords (cs.drop n) := by
  rw [segments, segmentsFrom, classified]
  exact congrArg (_ :: ·) (segmentsFrom_eq_segments _ _ _)

/-- A stray character is a segment of its own. -/
theorem eq_zero_of_stray (h : classify keywords c cs = (.stray, n)) : n = 0 := by
  unfold classify at h
  split at h
  · cases h
  split at h
  · cases h
  split at h
  · split at h <;> cases h
  split at h
  · cases h
  split at h
  · cases h
  split at h
  · cases h
  split at h
  · split at h <;> cases h
  split at h
  · cases h
    rfl
  · cases h

/-- A turn puts the segment that begins at a position to what has been found, behind the stray characters in
front of it. -/
theorem Scan.Stands.turn_segment (h : s.Stands text front pending (c :: cs)) {verdict : Verdict}
    (classified : classify keywords c cs = (verdict, n)) (known : verdict ≠ .stray) :
    ∃ t, (Scanner.new keywords).turn text s = .ok (some t) ∧
      t.Stands text (front ++ pending ++ c :: cs.take n) [] (cs.drop n) ∧
      (⟨t.tokens, t.errors⟩ : LexResult) =
        s.followedBy (place (byteLength front) (straySegments pending ++ [⟨verdict, c :: cs.take n⟩])) := by
  obtain ⟨inside, here⟩ := h.here
  have looked := look_eq keywords c cs
  have flushed := h.flush
  rw [classified] at looked
  rw [place_append, flatMap_straySegments]
  have split : text = front ++ pending ++ (c :: cs.take n) ++ [] ++ cs.drop n := by
    rw [h.split]
    simp
  have tokens := tokens_straySegments (byteLength front) pending
  unfold Scanner.turn
  rw [if_pos inside]
  simp only [here, looked, bind, Except.bind]
  cases verdict with
  | token kind =>
    simp only [Found.of, flushed, takeBytes_cons]
    refine ⟨_, rfl, ⟨split, ?_, rfl⟩, ?_⟩
    · rw [List.append_nil, byteLength_append _ (c :: _), h.pos]
    · simp [followedBy, place, tokens, h.pos, byteLength_append]
  | unterminatedComment =>
    simp only [Found.of, flushed]
    refine ⟨_, rfl, ⟨split, ?_, rfl⟩, ?_⟩
    · rw [List.append_nil, byteLength_append _ (c :: _), h.pos]
    · simp [followedBy, place, tokens, h.pos, byteLength_append, byteLength, utf8ByteSize_ofList, Segment.fault]
  | unterminatedString =>
    simp only [Found.of, flushed]
    refine ⟨_, rfl, ⟨split, ?_, rfl⟩, ?_⟩
    · rw [List.append_nil, byteLength_append _ (c :: _), h.pos]
    · simp [followedBy, place, tokens, h.pos, byteLength_append, byteLength, utf8ByteSize_ofList, Segment.fault]
  | stray => exact absurd rfl known

/-- A turn leaves a stray character for later. -/
theorem Scan.Stands.turn_stray (h : s.Stands text front pending (c :: cs))
    (stray : classify keywords c cs = (.stray, 0)) :
    ∃ t, (Scanner.new keywords).turn text s = .ok (some t) ∧ t.Stands text front (pending ++ [c]) cs ∧
      t.tokens = s.tokens ∧ t.errors = s.errors := by
  obtain ⟨inside, here⟩ := h.here
  have looked : (Scanner.new keywords).look c cs = .ok .nothing := by rw [look_eq, stray]; rfl
  unfold Scanner.turn
  rw [if_pos inside]
  simp only [here, looked, bind, Except.bind]
  refine ⟨_, rfl, ⟨by rw [h.split]; simp, ?_, ?_⟩, rfl, rfl⟩
  · rw [← List.append_assoc, byteLength_append _ [c], h.pos]
    rfl
  · rw [if_neg (by simp), h.garbage]
    by_cases nothing : pending = []
    · rw [if_pos nothing, h.pos, nothing, List.append_nil]
      rfl
    · rw [if_neg nothing]
      rfl

/-- The loop ends wherever it stands, with all segments of the rest behind what has been found. -/
theorem Scan.Stands.ends (keywords : List String) (h : s.Stands text front pending rest) :
    ∃ t, Loop.Ends ((Scanner.new keywords).turn text) s (.ok t) ∧ ∃ t', t.flush text t.pos = .ok t' ∧
      (⟨t'.tokens, t'.errors⟩ : LexResult) = s.followedBy
        (place (byteLength front) (joinStrays (straySegments pending ++ segments keywords rest))) := by
  induction size : rest.length using Nat.strong_induction_on generalizing front pending rest s with
  | _ size ih =>
    cases rest with
    | nil =>
      have idle : (Scanner.new keywords).turn text s = .ok none := by
        have behind : ¬ s.pos < byteLength text := by
          rw [h.pos, h.split, List.append_nil]
          exact Nat.lt_irrefl _
        rw [Scanner.turn, if_neg behind]
      refine ⟨s, .stop idle, _, h.flush, ?_⟩
      have joined : joinStrays (straySegments pending ++ segments keywords []) = straySegments pending := by
        unfold straySegments
        split <;> rfl
      rw [joined, followedBy, tokens_straySegments, List.append_nil]
    | cons c cs =>
      cases classified : classify keywords c cs with
      | mk verdict n =>
        by_cases known : verdict = .stray
        · subst known
          cases eq_zero_of_stray classified
          obtain ⟨t, turned, stands, tokens, errors⟩ := h.turn_stray classified
          obtain ⟨u, ends, u', flushed, found⟩ := ih _ (by rw [← size]; exact Nat.lt_succ_self _) stands rfl
          refine ⟨u, .next turned ends, u', flushed, ?_⟩
          rw [found, followedBy, tokens, errors, segments_cons classified]
          exact congrArg (fun segments => s.followedBy (place (byteLength front) segments))
            (joinStrays_more pending c _).symm
        · obtain ⟨t, turned, stands, before⟩ := h.turn_segment classified known
          obtain ⟨u, ends, u', flushed, found⟩ := ih _ (by rw [← size, List.length_drop, List.length_cons]; omega)
            stands rfl
          refine ⟨u, .next turned ends, u', flushed, ?_⟩
          obtain ⟨tokens, errors⟩ := LexResult.mk.inj before
          have spelled :
              (straySegments pending ++ [(⟨verdict, c :: cs.take n⟩ : Segment)]).flatMap Segment.text =
              pending ++ c :: cs.take n := by
            rw [List.flatMap_append, flatMap_straySegments, List.flatMap_singleton]
          rw [found, segments_cons classified, joinStrays_behind known,
            List.append_cons (straySegments pending), place_append, spelled, ← byteLength_append,
            ← List.append_assoc]
          simp only [followedBy, tokens, errors, List.append_assoc]
          rfl

/-- **The scanner's loop ends, takes no piece out of the text that it could not take, and finds the tokens and
errors of the text.** -/
theorem ends_tokenize (keywords : List String) (text : String) :
    ∃ s, Loop.Ends ((Scanner.new keywords).turn text.toList) {} (.ok s) ∧
      ∃ t, s.flush text.toList s.pos = .ok t ∧ tokenize keywords text = ⟨t.tokens, t.errors⟩ := by
  have stands : ({} : Scan).Stands text.toList [] [] text.toList := ⟨rfl, rfl, rfl⟩
  obtain ⟨s, ends, t, flushed, found⟩ := stands.ends keywords
  exact ⟨s, ends, t, flushed, found.symm⟩

end Workbench.Lexer
