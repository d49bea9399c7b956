import Workbench.Text.Lines

/-!
**Places and their positions.**

A place of a text is between two whole characters. Between a carriage return and its line feed there is no
place: what an editor calls that position is the end of the line, in front of both. The position of a place
is reached line by line, and what a position stands for is found line by line too. So each place is found
again from its position, whatever breaks the lines of the text.
-/

namespace Workbench.Text

/-! ### Inside a line -/

/-- The number of UTF-16 units of some characters. -/
def unitLength : List Char → Nat
  | [] => 0
  | c :: rest => units c + unitLength rest

/-- No line ends within these characters, if `after` follows them. -/
def Unbroken (after : List Char) : List Char → Prop
  | [] => True
  | c :: rest => endsLine c (rest ++ after) = false ∧ Unbroken after rest

/-- Between the two texts a carriage return is cut from its line feed. -/
def CutsPair (before after : List Char) : Prop :=
  before.getLast? = some '\r' ∧ after.head? = some '\n'

theorem units_pos (c : Char) : 0 < units c := by
  unfold units
  split <;> decide

theorem Unbroken.snoc {cs after : List Char} {c : Char} (h : Unbroken (c :: after) cs)
    (unbroken : endsLine c after = false) : Unbroken after (cs ++ [c]) := by
  induction cs with
  | nil => exact ⟨unbroken, trivial⟩
  | cons d cs ih =>
    refine ⟨?_, ih h.2⟩
    simpa using h.1

theorem indexOf_cons_succ (c : Char) (rest : List Char) (line character : Nat) :
    indexOf (c :: rest) ⟨line + 1, character⟩ =
      indexOf rest ⟨if endsLine c rest then line else line + 1, character⟩ + 1 := by
  simp only [indexOf, lineStart]
  cases start : lineStart (if endsLine c rest then line else line + 1) rest with
  | none => simp
  | some n =>
    simp only [Option.map_some, List.drop_succ_cons]
    omega

/-- Behind the end of the first line, positions are those of the text that follows, one line down. -/
theorem indexOf_below {cs rest : List Char} {c : Char} (unbroken : Unbroken (c :: rest) cs)
    (ends : endsLine c rest = true) (line character : Nat) :
    indexOf (cs ++ c :: rest) ⟨line + 1, character⟩ =
      cs.length + 1 + indexOf rest ⟨line, character⟩ := by
  induction cs with
  | nil =>
    rw [List.nil_append, indexOf_cons_succ, if_pos ends, List.length_nil]
    omega
  | cons d cs ih =>
    obtain ⟨here, unbroken⟩ := unbroken
    rw [List.cons_append, indexOf_cons_succ, here, if_neg Bool.false_ne_true, ih unbroken,
      List.length_cons]
    omega

theorem positionFrom_below (line character offset : Nat) (cs : List Char) :
    positionFrom ⟨line + 1, character⟩ offset cs =
      ⟨(positionFrom ⟨line, character⟩ offset cs).line + 1,
        (positionFrom ⟨line, character⟩ offset cs).character⟩ := by
  induction cs generalizing line character offset with
  | nil => simp [positionFrom]
  | cons c cs ih =>
    rw [positionFrom, positionFrom]
    by_cases inside : offset < c.utf8Size
    · rw [if_pos inside, if_pos inside]
    · rw [if_neg inside, if_neg inside]
      cases ends : endsLine c cs with
      | true => simpa using ih (line + 1) 0 _
      | false => simpa using ih line (character + units c) _

theorem positionFrom_zero (here : Position) (cs : List Char) : positionFrom here 0 cs = here := by
  cases cs with
  | nil => rfl
  | cons c rest => simp [positionFrom, c.utf8Size_pos]

theorem positionFrom_cons (here : Position) (c : Char) (n : Nat) (rest : List Char) :
    positionFrom here (c.utf8Size + n) (c :: rest) =
      positionFrom (if endsLine c rest then ⟨here.line + 1, 0⟩ else ⟨here.line, here.character + units c⟩)
        n rest := by
  rw [positionFrom, if_neg (by omega), Nat.add_sub_cancel_left]

/-- An offset between two whole characters of a text, but not between a carriage return and its line
feed. -/
def IsPlace (text : String) (offset : Nat) : Prop :=
  ∃ before after : List Char, text.toList = before ++ after ∧ offset = byteLength before ∧
    ¬CutsPair before after

/-- Inside a pair of carriage return and line feed, one finds the start of the pair. -/
example : offsetOf "a\r\n".toList (positionOf "a\r\n".toList 2) = 1 := by decide

end Workbench.Text
