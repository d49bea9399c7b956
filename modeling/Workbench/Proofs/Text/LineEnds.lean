import Workbench.Proofs.Lexer
import Workbench.Proofs.Text.Positions

/-!
**Where the lines of a text end.**

A text falls into lines, each with a content and, but for the last one, with what ends it: a line feed, a
carriage return with the line feed behind it, or one of the other breaks alone. A column past the content
stands for the end of the content if nothing but a line feed ends the line, with or without a carriage
return in front. Where another break ends it, such a column stands for the place behind the break, and
that is the start of the next line. So a position is found again on its own line just if it does not pass
a lone break.
-/

namespace Workbench.Text

/-! ### Lines -/

/-- A line of a text. -/
structure Line where
  content : List Char
  /-- The break at its end, nothing for the last line. -/
  ending : List Char
deriving DecidableEq, Repr

/-- The characters that break lines. -/
def breakChars : List Char :=
  ['\n', '\r', Char.ofNat 0x0B, Char.ofNat 0x0C, Char.ofNat 0x85, Char.ofNat 0x2028, Char.ofNat 0x2029]

/-- Puts a character in front of the first line. -/
def inFront (c : Char) : List Line → List Line
  | [] => []
  | first :: others => { first with content := c :: first.content } :: others

/-- The lines of a text. A carriage return and its line feed are one break. -/
def linesOf : List Char → List Line
  | [] => [⟨[], []⟩]
  | '\r' :: '\n' :: rest => ⟨[], ['\r', '\n']⟩ :: linesOf rest
  | c :: rest => if c ∈ breakChars then ⟨[], [c]⟩ :: linesOf rest else inFront c (linesOf rest)

namespace Line

/-- All characters of a line. -/
def chars (l : Line) : List Char := l.content ++ l.ending

/-- The line is ended by a break other than a line feed. -/
def EndsAlone (l : Line) : Prop := l.ending ≠ [] ∧ '\n' ∉ l.ending

instance (l : Line) : Decidable l.EndsAlone := inferInstanceAs (Decidable (_ ∧ _))

end Line

/-- A break, and what follows it. -/
inductive Breaks : List Char → List Char → Prop
  | pair (rest : List Char) : Breaks ['\r', '\n'] rest
  | one {c : Char} {rest : List Char} (breaks : c ∈ breakChars)
    (whole : c = '\r' → rest.head? ≠ some '\n') : Breaks [c] rest

/-- No character of these breaks a line. -/
def Clear (cs : List Char) : Prop := ∀ c ∈ cs, c ∉ breakChars

/-- How a text falls into its first line and the rest. -/
inductive Splits : List Char → List Line → Prop
  | last {content : List Char} (clear : Clear content) : Splits content [⟨content, []⟩]
  | line {content ending rest : List Char} (clear : Clear content) (breaks : Breaks ending rest) :
    Splits (content ++ (ending ++ rest)) (⟨content, ending⟩ :: linesOf rest)

variable {cs content ending rest front after : List Char} {c : Char} {line column : Nat}

theorem clear_nil : Clear [] := fun _ mem => absurd mem List.not_mem_nil

theorem Splits.inFront {lines : List Line} (h : Splits cs lines) (clear : c ∉ breakChars) :
    Splits (c :: cs) (inFront c lines) := by
  cases h with
  | last all => exact .last (List.forall_mem_cons.2 ⟨clear, all⟩)
  | line all breaks => exact .line (List.forall_mem_cons.2 ⟨clear, all⟩) breaks

theorem whole_of_notPair (notPair : ∀ tail, c = '\r' → rest = '\n' :: tail → False) :
    c = '\r' → rest.head? ≠ some '\n' := by
  intro ret feed
  obtain ⟨tail, rfl⟩ := List.head?_eq_some_iff.1 feed
  exact notPair tail ret rfl

theorem splits_linesOf (cs : List Char) : Splits cs (linesOf cs) := by
  fun_induction linesOf cs with
  | case1 => exact .last clear_nil
  | case2 rest ih => exact .line clear_nil (.pair rest)
  | case3 c rest notPair breaks ih =>
    exact .line clear_nil (.one breaks (whole_of_notPair notPair))
  | case4 c rest notPair clear ih => exact ih.inFront clear

/-! ### Breaks as the positions see them -/

theorem endsLine_eq_false (clear : c ∉ breakChars) (after : List Char) : endsLine c after = false := by
  simp only [breakChars, List.mem_cons, List.not_mem_nil, or_false, not_or] at clear
  obtain ⟨feed, ret, tab, form, next, line, paragraph⟩ := clear
  simp [endsLine, feed, ret, tab, form, next, line, paragraph]

theorem endsLine_of_mem (breaks : c ∈ breakChars) (whole : c = '\r' → rest.head? ≠ some '\n') :
    endsLine c rest = true := by
  simp only [breakChars, List.mem_cons, List.not_mem_nil, or_false] at breaks
  rcases breaks with rfl | rfl | rfl | rfl | rfl | rfl | rfl
  case inr.inl => simp [endsLine, whole rfl]
  all_goals rfl

theorem units_of_mem (breaks : c ∈ breakChars) : units c = 1 := by
  simp only [breakChars, List.mem_cons, List.not_mem_nil, or_false] at breaks
  rcases breaks with rfl | rfl | rfl | rfl | rfl | rfl | rfl <;> rfl

theorem Clear.unbroken (clear : Clear content) (after : List Char) : Unbroken after content := by
  induction content with
  | nil => trivial
  | cons c content ih =>
    obtain ⟨here, clear⟩ := List.forall_mem_cons.1 clear
    exact ⟨endsLine_eq_false here _, ih clear⟩

theorem Breaks.ne_nil (breaks : Breaks ending rest) : ending ≠ [] := by
  cases breaks <;> exact List.cons_ne_nil _ _

/-- A break ends the line with its last character. -/
theorem Breaks.exists_last (breaks : Breaks ending rest) (clear : Clear content) :
    ∃ front c, content ++ ending = front ++ [c] ∧ endsLine c rest = true ∧ Unbroken (c :: rest) front := by
  cases breaks with
  | pair =>
    have returns : endsLine '\r' ('\n' :: rest) = false := rfl
    exact ⟨content ++ ['\r'], '\n', by simp, rfl, (clear.unbroken _).snoc returns⟩
  | one breaks whole => exact ⟨content, _, rfl, endsLine_of_mem breaks whole, clear.unbroken _⟩

/-! ### From line to line -/

theorem positionFrom_unbroken (unbroken : Unbroken after front) (here : Position) (offset : Nat) :
    positionFrom here (byteLength front + offset) (front ++ after) =
      positionFrom ⟨here.line, here.character + unitLength front⟩ offset after := by
  induction front generalizing here with
  | nil => simp [byteLength, unitLength]
  | cons c front ih =>
    obtain ⟨ends, unbroken⟩ := unbroken
    rw [byteLength, List.cons_append, Nat.add_assoc, positionFrom_cons, ends, if_neg Bool.false_ne_true,
      ih unbroken, unitLength, Nat.add_assoc]

theorem positionOf_next (clear : Clear content) (breaks : Breaks ending rest) (offset : Nat) :
    positionOf (content ++ (ending ++ rest)) (byteLength (content ++ ending) + offset) =
      ⟨(positionOf rest offset).line + 1, (positionOf rest offset).character⟩ := by
  obtain ⟨front, c, split, ends, unbroken⟩ := breaks.exists_last clear
  rw [← List.append_assoc, split, Lexer.byteLength_append, List.append_assoc, List.singleton_append,
    positionOf, Nat.add_assoc, positionFrom_unbroken unbroken, byteLength, byteLength, Nat.add_zero,
    positionFrom_cons, if_pos ends, positionFrom_below]
  rfl

theorem indexOf_next (clear : Clear content) (breaks : Breaks ending rest) (line column : Nat) :
    indexOf (content ++ (ending ++ rest)) ⟨line + 1, column⟩ =
      (content ++ ending).length + indexOf rest ⟨line, column⟩ := by
  obtain ⟨front, c, split, ends, unbroken⟩ := breaks.exists_last clear
  rw [← List.append_assoc, split, List.append_assoc, List.singleton_append, indexOf_below unbroken ends,
    List.length_append, List.length_singleton]

theorem offsetOf_next (clear : Clear content) (breaks : Breaks ending rest) (line column : Nat) :
    offsetOf (content ++ (ending ++ rest)) ⟨line + 1, column⟩ =
      byteLength (content ++ ending) + offsetOf rest ⟨line, column⟩ := by
  rw [offsetOf, indexOf_next clear breaks, ← List.append_assoc, List.take_length_add_append,
    Lexer.byteLength_append]
  rfl

theorem length_inFront (c : Char) (lines : List Line) : (inFront c lines).length = lines.length := by
  cases lines <;> rfl

/-- There are as many lines as the editor counts. -/
theorem length_linesOf (cs : List Char) : (linesOf cs).length = lineCount cs := by
  fun_induction linesOf cs with
  | case1 => rfl
  | case2 rest ih => simp [lineCount, endsLine, ih, Nat.add_comm]
  | case3 c rest notPair breaks ih =>
    rw [List.length_cons, ih, lineCount, if_pos (endsLine_of_mem breaks (whole_of_notPair notPair)),
      Nat.add_comm]
  | case4 c rest notPair clear ih =>
    rw [length_inFront, ih, lineCount, endsLine_eq_false clear, if_neg Bool.false_ne_true, Nat.zero_add]

/-! ### Columns -/

theorem columnIndex_zero (after : List Char) : columnIndex 0 after = 0 := by
  cases after with
  | nil => rfl
  | cons c rest => simp [columnIndex, units_pos]

theorem columnIndex_cons (clear : c ∉ breakChars) (column : Nat) (after : List Char) :
    columnIndex column (c :: after) =
      if column < units c then 0 else columnIndex (column - units c) after + 1 := by
  have notFeed : c ≠ '\n' := by
    rintro rfl
    exact clear (by decide)
  have notReturn : c ≠ '\r' := by
    rintro rfl
    exact clear (by decide)
  simp [columnIndex, notFeed, notReturn, endsLine_eq_false clear]

/-- A column in the content stands for a place in the content that is no further behind. -/
theorem columnIndex_within (clear : Clear content) (within : column ≤ unitLength content)
    (after : List Char) : ∃ front back, content = front ++ back ∧
      columnIndex column (content ++ after) = front.length ∧ unitLength front ≤ column := by
  induction content generalizing column with
  | nil =>
    obtain rfl : column = 0 := Nat.le_zero.1 within
    exact ⟨[], [], rfl, columnIndex_zero after, Nat.le_refl 0⟩
  | cons c content ih =>
    obtain ⟨here, clear⟩ := List.forall_mem_cons.1 clear
    rw [List.cons_append, columnIndex_cons here]
    by_cases inside : column < units c
    · exact ⟨[], c :: content, rfl, by rw [if_pos inside]; rfl, Nat.zero_le _⟩
    · rw [unitLength] at within
      have less : column - units c ≤ unitLength content := by omega
      obtain ⟨front, back, split, index, le⟩ := ih clear less
      refine ⟨c :: front, back, by rw [split]; rfl, by rw [if_neg inside, index]; rfl, ?_⟩
      rw [unitLength]
      omega

theorem columnIndex_past (clear : Clear content) (past : unitLength content ≤ column) (after : List Char) :
    columnIndex column (content ++ after) =
      content.length + columnIndex (column - unitLength content) after := by
  induction content generalizing column with
  | nil => simp [unitLength]
  | cons c content ih =>
    obtain ⟨here, clear⟩ := List.forall_mem_cons.1 clear
    rw [unitLength] at past
    rw [List.cons_append, columnIndex_cons here, if_neg (by omega), ih clear (by omega), unitLength,
      List.length_cons, Nat.sub_sub]
    omega

/-- In front of a break with a line feed, every column stands for the end of the content. -/
theorem columnIndex_feed (breaks : Breaks ending rest) (feed : '\n' ∈ ending) (column : Nat) :
    columnIndex column (ending ++ rest) = 0 := by
  cases breaks with
  | pair => rfl
  | one =>
    obtain rfl := List.mem_singleton.1 feed
    rfl

/-- A column that passes a lone break stands for the place behind it. -/
theorem columnIndex_alone (breaks : Breaks ending rest) (alone : '\n' ∉ ending) (past : 0 < column) :
    columnIndex column (ending ++ rest) = ending.length := by
  cases breaks with
  | pair => exact absurd (by decide) alone
  | @one c _ breaks whole =>
    have notFeed : c ≠ '\n' := by
      rintro rfl
      exact alone List.mem_cons_self
    have notPair : ¬(c = '\r' ∧ rest.head? = some '\n') := fun ⟨ret, feed⟩ => whole ret feed
    rw [List.singleton_append, columnIndex, if_neg (by simpa [notFeed] using notPair), units_of_mem breaks,
      if_neg (by omega), if_pos (endsLine_of_mem breaks whole), List.length_singleton]

/-- A column stands for a place in the content, unless it goes on behind it. -/
theorem columnIndex_content (clear : Clear content) {after : List Char}
    (stops : unitLength content < column → ∀ column', columnIndex column' after = 0) :
    ∃ front back, content = front ++ back ∧ columnIndex column (content ++ after) = front.length ∧
      unitLength front ≤ column := by
  rcases Nat.lt_or_ge (unitLength content) column with past | within
  · have past' := Nat.le_of_lt past
    refine ⟨content, [], (List.append_nil content).symm, ?_, past'⟩
    rw [columnIndex_past clear past', stops past, Nat.add_zero]
  · exact columnIndex_within clear within after

/-! ### Positions on their lines -/

/-- Where a line starts. -/
def offsetOfLine (cs : List Char) (line : Nat) : Nat :=
  byteLength (((linesOf cs).take line).flatMap Line.chars)

/-- A position stands for a place on its line `l`, in front of the break, and this place has a position
on the same line that is no further behind. -/
structure Kept (cs : List Char) (p : Position) (l : Line) : Prop where
  start_le : offsetOfLine cs p.line ≤ offsetOf cs p
  le_stop : offsetOf cs p ≤ offsetOfLine cs p.line + byteLength l.content
  line : (positionOf cs (offsetOf cs p)).line = p.line
  character : (positionOf cs (offsetOf cs p)).character ≤ p.character

/-- A position stands for the place behind its line `l`, which is the start of the next one. -/
structure Passed (cs : List Char) (p : Position) (l : Line) : Prop where
  offset : offsetOf cs p = offsetOfLine cs p.line + byteLength l.chars
  position : positionOf cs (offsetOf cs p) = ⟨p.line + 1, 0⟩

theorem offsetOf_first (cs : List Char) (column : Nat) :
    offsetOf cs ⟨0, column⟩ = byteLength (cs.take (columnIndex column cs)) := by
  simp [offsetOf, indexOf, lineStart]

theorem kept_first (clear : Clear content) {after : List Char} (ending : List Char)
    (stops : unitLength content < column → ∀ column', columnIndex column' after = 0) :
    Kept (content ++ after) ⟨0, column⟩ ⟨content, ending⟩ := by
  obtain ⟨front, back, rfl, index, le⟩ := columnIndex_content clear stops
  have unbroken : Unbroken (back ++ after) front :=
    Clear.unbroken (fun c mem => clear c (List.mem_append_left _ mem)) _
  have offset : offsetOf (front ++ back ++ after) ⟨0, column⟩ = byteLength front := by
    rw [offsetOf_first, index, List.append_assoc, List.take_left]
  have position : positionOf (front ++ back ++ after) (byteLength front) = ⟨0, unitLength front⟩ := by
    rw [positionOf, List.append_assoc]
    simpa [positionFrom_zero] using positionFrom_unbroken unbroken ⟨0, 0⟩ 0
  refine ⟨Nat.zero_le _, ?_, ?_, ?_⟩
  · rw [offset, Lexer.byteLength_append, offsetOfLine]
    omega
  · rw [offset, position]
  · rw [offset, position]
    exact le

theorem passed_first (clear : Clear content) (breaks : Breaks ending rest) (alone : '\n' ∉ ending)
    (past : unitLength content < column) :
    Passed (content ++ (ending ++ rest)) ⟨0, column⟩ ⟨content, ending⟩ := by
  have offset : offsetOf (content ++ (ending ++ rest)) ⟨0, column⟩ = byteLength (content ++ ending) := by
    rw [offsetOf_first, columnIndex_past clear (Nat.le_of_lt past),
      columnIndex_alone breaks alone (Nat.sub_pos_of_lt past),
      ← List.length_append, ← List.append_assoc, List.take_left]
  refine ⟨?_, ?_⟩
  · rw [offset]
    exact (Nat.zero_add _).symm
  · have next := positionOf_next clear breaks 0
    rw [Nat.add_zero] at next
    rw [offset, next, positionOf, positionFrom_zero]

theorem offsetOfLine_next (lines : linesOf cs = ⟨content, ending⟩ :: linesOf rest) (line : Nat) :
    offsetOfLine cs (line + 1) = byteLength (content ++ ending) + offsetOfLine rest line := by
  rw [offsetOfLine, lines, List.take_succ_cons, List.flatMap_cons, Lexer.byteLength_append]
  rfl

section Next

variable {l : Line} (clear : Clear content) (breaks : Breaks ending rest)
  (lines : linesOf (content ++ (ending ++ rest)) = ⟨content, ending⟩ :: linesOf rest)
include clear breaks lines

theorem Kept.next (h : Kept rest ⟨line, column⟩ l) :
    Kept (content ++ (ending ++ rest)) ⟨line + 1, column⟩ l := by
  obtain ⟨start, stop, same, le⟩ := h
  refine ⟨?start_le, ?le_stop, ?line, ?character⟩
  case start_le =>
    rw [offsetOfLine_next lines, offsetOf_next clear breaks]
    exact Nat.add_le_add_left start _
  case le_stop =>
    rw [offsetOfLine_next lines, offsetOf_next clear breaks, Nat.add_assoc]
    exact Nat.add_le_add_left stop _
  case line =>
    rw [offsetOf_next clear breaks, positionOf_next clear breaks, same]
  case character =>
    rw [offsetOf_next clear breaks, positionOf_next clear breaks]
    exact le

theorem Passed.next (h : Passed rest ⟨line, column⟩ l) :
    Passed (content ++ (ending ++ rest)) ⟨line + 1, column⟩ l := by
  refine ⟨?_, ?_⟩
  · rw [offsetOfLine_next lines, offsetOf_next clear breaks, h.offset, Nat.add_assoc]
  · rw [offsetOf_next clear breaks, positionOf_next clear breaks, h.position]

end Next

/-- A position passes the end of its line just if a lone break ends it and the column is behind the
content. -/
theorem kept_or_passed {l : Line} (found : (linesOf cs)[line]? = some l) (column : Nat) :
    (¬(l.EndsAlone ∧ unitLength l.content < column) → Kept cs ⟨line, column⟩ l) ∧
      (l.EndsAlone ∧ unitLength l.content < column → Passed cs ⟨line, column⟩ l) := by
  have splits := splits_linesOf cs
  induction line generalizing cs with
  | zero =>
    generalize linesOf cs = lines at splits found
    cases splits with
    | last clear =>
      obtain rfl : ⟨cs, []⟩ = l := Option.some.inj found
      have kept : Kept (cs ++ []) ⟨0, column⟩ ⟨cs, []⟩ := kept_first clear [] fun _ _ => rfl
      rw [List.append_nil] at kept
      exact ⟨fun _ => kept, fun passes => absurd rfl passes.1.1⟩
    | @line content ending rest clear breaks =>
      obtain rfl : ⟨content, ending⟩ = l := Option.some.inj found
      refine ⟨fun keeps => ?_, fun passes => passed_first clear breaks passes.1.2 passes.2⟩
      refine kept_first clear ending fun past column' => columnIndex_feed breaks ?_ column'
      exact Classical.byContradiction fun alone => keeps ⟨⟨breaks.ne_nil, alone⟩, past⟩
  | succ line ih =>
    generalize lines : linesOf cs = all at splits found
    cases splits with
    | last => cases found
    | @line content ending rest clear breaks =>
      obtain ⟨kept, passed⟩ := ih found (splits_linesOf rest)
      exact ⟨fun keeps => (kept keeps).next clear breaks lines,
        fun passes => (passed passes).next clear breaks lines⟩

/-- **A position leaves its line only past a lone break.** Let a position be on one of the lines of a text,
with any column. It stands for a place on this line, in front of the line break, and this place has a
position on the line that is no further behind: if and only if it is not the case that a break other than
a line feed ends the line and the column is behind the content. In that case the position stands for the
place behind the break, and that is the start of the next line. -/
theorem kept_iff (text : String) (p : Position) (below : p.line < lineCount text.toList) :
    ∃ l, (linesOf text.toList)[p.line]? = some l ∧
      (Kept text.toList p l ↔ ¬(l.EndsAlone ∧ unitLength l.content < p.character)) ∧
      (l.EndsAlone ∧ unitLength l.content < p.character → Passed text.toList p l) := by
  rw [← length_linesOf] at below
  have found := List.getElem?_eq_getElem below
  obtain ⟨kept, passed⟩ := kept_or_passed found p.character
  refine ⟨_, found, ⟨fun keeps passes => ?_, kept⟩, passed⟩
  have same := keeps.line
  rw [(passed passes).position] at same
  exact absurd same (Nat.succ_ne_self p.line)

/-- Behind `ab` a carriage return stands alone, and a column far behind passes it. The pair behind `cd` is
not passed. -/
theorem kept_iff_loneReturn :
    0 < lineCount "ab\rcd\r\nef".toList ∧ 1 < lineCount "ab\rcd\r\nef".toList ∧
      Passed "ab\rcd\r\nef".toList ⟨0, 50⟩ ⟨['a', 'b'], ['\r']⟩ ∧
      offsetOf "ab\rcd\r\nef".toList ⟨0, 50⟩ = 3 ∧
      Kept "ab\rcd\r\nef".toList ⟨1, 50⟩ ⟨['c', 'd'], ['\r', '\n']⟩ ∧
      offsetOf "ab\rcd\r\nef".toList ⟨1, 50⟩ = 5 := by
  have first : 0 < lineCount "ab\rcd\r\nef".toList := by decide
  have second : 1 < lineCount "ab\rcd\r\nef".toList := by decide
  obtain ⟨l, found, -, passed⟩ := kept_iff "ab\rcd\r\nef" ⟨0, 50⟩ first
  obtain rfl : ⟨['a', 'b'], ['\r']⟩ = l := Option.some.inj found
  obtain ⟨m, found', kept, -⟩ := kept_iff "ab\rcd\r\nef" ⟨1, 50⟩ second
  obtain rfl : ⟨['c', 'd'], ['\r', '\n']⟩ = m := Option.some.inj found'
  exact ⟨first, second, passed (by decide), by decide, kept.2 (by decide), by decide⟩

end Workbench.Text
