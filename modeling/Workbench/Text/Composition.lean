import Workbench.Text.CombiningMark
import Workbench.Text.Composites

/-!
**Composed normal form.**

Two texts that look the same are one text in normal form: every character is taken apart, the marks
of each letter are brought into the order of their classes, and letters and marks are put together
again wherever a composite stands for them.
-/

namespace Workbench.Text

/-! ### Syllables of Hangul

A syllable has a leading consonant, a vowel and maybe a trailing consonant. The syllables are
numbered in the order of these letters: 21 vowels to a consonant, 28 endings to a vowel, of which the
first is no ending. -/

/-- The letters of a syllable. -/
def syllableParts? (n : Nat) : Option (List Nat) :=
  if 0xAC00 ≤ n ∧ n ≤ 0xD7A3 then
    let index := n - 0xAC00
    let start := [0x1100 + index / 588, 0x1161 + index % 588 / 28]
    some (if index % 28 = 0 then start else start ++ [0x11A7 + index % 28])
  else none

/-- The syllable of two letters, or of a syllable without an ending and the ending. -/
def syllableOf? (a b : Nat) : Option Nat :=
  if 0x1100 ≤ a ∧ a ≤ 0x1112 ∧ 0x1161 ≤ b ∧ b ≤ 0x1175 then
    some (0xAC00 + ((a - 0x1100) * 21 + (b - 0x1161)) * 28)
  else if 0xAC00 ≤ a ∧ a ≤ 0xD7A3 ∧ (a - 0xAC00) % 28 = 0 ∧ 0x11A8 ≤ b ∧ b ≤ 0x11C2 then
    some (a + (b - 0x11A7))
  else none

/-! ### Taking apart and putting together -/

/-- What a character consists of: itself, unless it is a composite. No composite stands before
`À`. -/
def parts (n : Nat) : List Nat :=
  if n < 0xC0 then [n]
  else
    match syllableParts? n with
    | some letters => letters
    | none => (composites.image? n).getD ((obsoleteComposites.image? n).getD [n])

/-- Takes composites apart. The first of two parts may be a composite again, twice at most. -/
def decompose (ns : List Nat) : List Nat := Nat.repeat (·.flatMap parts) 3 ns

/-- The composite of two characters. -/
def composite? (a b : Nat) : Option Nat :=
  match syllableOf? a b with
  | some n => some n
  | none =>
    composites.runs.findSome? fun (run, image) =>
      match image with
      | [x, y] =>
        let n := run.first + (a - x)
        if y = b ∧ x ≤ a ∧ run.contains n then some n else none
      | _ => none

/-- Puts a character behind others, which are given from the last to the first: a mark goes before
the marks of greater classes. -/
def place (n : Nat) : List Nat → List Nat
  | [] => [n]
  | m :: rest =>
    if combiningClass n ≠ 0 ∧ combiningClass n < combiningClass m then m :: place n rest
    else n :: m :: rest

/-- Sorts the marks between two other characters by their classes. -/
def sortMarks (ns : List Nat) : List Nat := (ns.foldl (fun done n => place n done) []).reverse

/-- A text on the way to its composed form. Lists run from the last character to the first. -/
structure Composing where
  /-- What stands before the letter. -/
  done : List Nat := []
  /-- The last character that is no mark. -/
  letter : Option Nat := none
  /-- The marks that were not put together with the letter. -/
  loose : List Nat := []

namespace Composing

/-- Adds a character. It joins the letter unless a mark of its own class or a greater one, or any
mark at all if it is none itself, stands between them. -/
def add (s : Composing) (n : Nat) : Composing :=
  match s.letter with
  | none => if combiningClass n = 0 then { s with letter := some n } else { s with done := n :: s.done }
  | some a =>
    let reaches : Bool := s.loose.head?.all fun m => decide (combiningClass m < combiningClass n)
    match if reaches then composite? a n else none with
    | some c => { s with letter := some c }
    | none =>
      if combiningClass n = 0 then { done := s.loose ++ a :: s.done, letter := some n }
      else { s with loose := n :: s.loose }

def toList (s : Composing) : List Nat := (s.loose ++ s.letter.toList ++ s.done).reverse

end Composing

def compose (ns : List Nat) : List Nat :=
  (ns.foldl Composing.add ({} : Composing)).toList

/-- The composed normal form of a text. -/
def composedForm (cs : List Char) : List Char :=
  (compose (sortMarks (decompose (cs.map Char.toNat)))).map Char.ofNat

end Workbench.Text
