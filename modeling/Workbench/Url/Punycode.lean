/-!
**Labels of domain names in ASCII.**

A label with characters beyond ASCII is written with letters, digits and hyphens alone: first its
ASCII characters, then, after a hyphen, one number for every other character, which tells how many
steps lie between the insertion of that character and the one before it. A step goes to the next
place in the label, and from its end to the start and the next code point. The numbers are written
with a base of 36, least digit first, and end at the first digit below a threshold that follows the
size of the numbers so far.
-/

namespace Workbench.Url.Punycode

/-! ### Digits -/

/-- The digit of a value below 36: a letter, or from 26 on a decimal digit. -/
def digit (n : Nat) : Char := if n < 26 then Char.ofNat (97 + n) else Char.ofNat (22 + n)

def digitValue? (c : Char) : Option Nat :=
  if 'a' ≤ c ∧ c ≤ 'z' then some (c.toNat - 97)
  else if 'A' ≤ c ∧ c ≤ 'Z' then some (c.toNat - 65)
  else if '0' ≤ c ∧ c ≤ '9' then some (c.toNat - 22)
  else none

/-- The threshold at a position, which counts up from 36 in steps of 36. -/
def threshold (position bias : Nat) : Nat :=
  if position ≤ bias then 1 else if bias + 26 ≤ position then 26 else position - bias

/-- Divides a number by 35 until it is small, and counts 36 for each time. -/
def scale (n count : Nat) : Nat × Nat :=
  if 455 < n then scale (n / 35) (count + 36) else (n, count)
termination_by n
decreasing_by omega

/-- The bias after a number, when the label has `length` characters with the new one. -/
def adapt (number length : Nat) (isFirst : Bool) : Nat :=
  let damped := number / (if isFirst then 700 else 2)
  let (n, count) := scale (damped + damped / length) 0
  count + 36 * n / (n + 38)

/-! ### Writing -/

/-- The digits of a number from a position on. -/
def writeNumber (bias position number : Nat) : List Char :=
  let t := threshold position bias
  if number < t then [digit number]
  else
    digit (t + (number - t) % (36 - t)) ::
      writeNumber bias (position + 36) ((number - t) / (36 - t))
termination_by number
decreasing_by
  have h1 : 1 ≤ threshold position bias := by unfold threshold; split <;> (try split) <;> omega
  have h2 : (number - threshold position bias) / (36 - threshold position bias) ≤
      number - threshold position bias := Nat.div_le_self _ _
  omega

/-- A label on the way to its ASCII form. -/
structure Writing where
  /-- The numbers so far. -/
  written : List Char := []
  /-- The steps since the last insertion. -/
  steps : Nat := 0
  bias : Nat := 72
  /-- How many characters of the label are written. -/
  length : Nat

/-- Passes a character of the label while the code point `n` is inserted; `basic` counts the ASCII
characters. -/
def Writing.pass (basic n : Nat) (w : Writing) (c : Char) : Writing :=
  if c.toNat < n then { w with steps := w.steps + 1 }
  else if c.toNat = n then
    { written := w.written ++ writeNumber w.bias 36 w.steps
      steps := 0
      bias := adapt w.steps (w.length + 1) (w.length == basic)
      length := w.length + 1 }
  else w

/-- Inserts all characters of the code points `ns`, which ascend, after those below `next`. -/
def Writing.insertAll (label : List Char) (basic : Nat) : List Nat → Nat → Writing → Writing
  | [], _, w => w
  | n :: ns, next, w =>
    let w := { w with steps := w.steps + (n - next) * (w.length + 1) }
    let w := label.foldl (Writing.pass basic n) w
    insertAll label basic ns (n + 1) { w with steps := w.steps + 1 }

def isAscii (c : Char) : Bool := c.toNat < 0x80

/-- The ASCII form of a label. -/
def encode (label : List Char) : List Char :=
  let basic := label.filter isAscii
  let others := ((label.filter (!isAscii ·)).map Char.toNat).mergeSort.eraseDups
  let w : Writing := { length := basic.length }
  basic ++ (if basic.isEmpty then [] else ['-']) ++
    (w.insertAll label basic.length others 0x80).written

/-! ### Reading -/

/-- Numbers stay below this bound. -/
def numberBound : Nat := 0x100000000

/-- Reads the digits of a number from a position on and adds it, `weight` times, to `sum`. -/
def readNumber? (bias : Nat) : List Char → Nat → Nat → Nat → Option (Nat × List Char)
  | [], _, _, _ => none
  | c :: rest, position, weight, sum =>
    match digitValue? c with
    | none => none
    | some d =>
      let t := threshold position bias
      let sum := sum + d * weight
      if sum ≥ numberBound then none
      else if d < t then some (sum, rest)
      else if weight * (36 - t) ≥ numberBound then none
      else readNumber? bias rest (position + 36) (weight * (36 - t)) sum

theorem length_of_readNumber? {bias : Nat} {cs rest : List Char} {position weight sum n : Nat}
    (h : readNumber? bias cs position weight sum = some (n, rest)) : rest.length < cs.length := by
  induction cs generalizing position weight sum with
  | nil => simp [readNumber?] at h
  | cons c cs ih =>
    simp only [readNumber?] at h
    split at h
    · cases h
    · split at h
      · cases h
      · split at h
        · cases h; simp
        · split at h
          · cases h
          · have := ih h
            simp only [List.length_cons]
            omega

/-- Reads numbers and inserts a character for each; `n` is the code point and `place` the place at
which the steps of the next number start. -/
def insertNumbers? (bias n place : Nat) (label : List Char) (cs : List Char) : Option (List Char) :=
  match cs with
  | [] => some label
  | c :: more =>
    match _h : readNumber? bias (c :: more) 36 1 place with
    | none => none
    | some (sum, rest) =>
      let length := label.length + 1
      let n := n + sum / length
      if n.isValidChar then
        insertNumbers? (adapt (sum - place) length (place == 0)) n (sum % length + 1)
          (label.insertIdx (sum % length) (Char.ofNat n)) rest
      else none
termination_by cs.length
decreasing_by exact length_of_readNumber? _h

/-- The label of an ASCII form. -/
def decode? (cs : List Char) : Option (List Char) :=
  match cs.reverse.span (· != '-') with
  | (_, []) => insertNumbers? 72 0x80 0 [] cs
  | (numbers, _ :: basic) =>
    if basic.all isAscii then insertNumbers? 72 0x80 0 basic.reverse numbers.reverse else none

end Workbench.Url.Punycode
