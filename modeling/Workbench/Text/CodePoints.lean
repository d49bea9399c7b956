/-!
**Tables of code points.**

Standards list the properties of characters code point by code point. Here such a list is a short
text of hexadecimal numbers: `61-7a` is a run, `100-12e/2` is every second code point of a run, and
`41-5a>61` maps the first code point of a run to `61`, the next to `62`, and so on. A set of code
points is a text of runs, a map a text of runs with their images, and blanks or line breaks stand
between them.
-/

namespace Workbench.Text

/-- The words of a text, with empty ones where blanks and line breaks meet. -/
def words (s : String) : List String := (s.splitOn "\n").flatMap (·.splitOn " ")

/-- The value of a hexadecimal digit of either case. -/
def hexValue? (c : Char) : Option Nat :=
  if '0' ≤ c ∧ c ≤ '9' then some (c.toNat - 48)
  else if 'A' ≤ c ∧ c ≤ 'F' then some (c.toNat - 55)
  else if 'a' ≤ c ∧ c ≤ 'f' then some (c.toNat - 87)
  else none

/-- Reads a number without sign in hexadecimal notation. -/
def hexNumber? (s : String) : Option Nat :=
  if s.isEmpty then none
  else s.toList.foldlM (fun n c => (hexValue? c).map (16 * n + ·)) 0

/-- The code points `first`, `first + step`, and so on, up to `last`. -/
structure Run where
  first : Nat
  last : Nat
  step : Nat
deriving DecidableEq, Repr

namespace Run

def contains (r : Run) (n : Nat) : Bool :=
  decide (r.first ≤ n) && decide (n ≤ r.last) && (n - r.first) % r.step == 0

/-- Reads a run of code points; a run of one code point is written as that code point. -/
def ofText? (s : String) : Option Run :=
  let (ends, step) :=
    match s.splitOn "/" with
    | [ends, step] => (ends, hexNumber? step)
    | _ => (s, some 1)
  match ends.splitOn "-" with
  | [one] => do
    let n ← hexNumber? one
    return { first := n, last := n, step := ← step }
  | [low, high] => do
    return { first := ← hexNumber? low, last := ← hexNumber? high, step := ← step }
  | _ => none

end Run

/-- A set of code points. -/
structure CodePointSet where
  runs : List Run
deriving DecidableEq, Repr

namespace CodePointSet

def ofText (s : String) : CodePointSet := { runs := (words s).filterMap Run.ofText? }

def contains (set : CodePointSet) (n : Nat) : Bool := set.runs.any (·.contains n)

end CodePointSet

/-- A map from code points to texts, given by runs and the image of the first code point of each. -/
structure CodePointMap where
  runs : List (Run × List Nat)
deriving DecidableEq, Repr

namespace CodePointMap

/-- Reads a run with the image of its first code point. -/
def entry? (s : String) : Option (Run × List Nat) :=
  match s.splitOn ">" with
  | [source, image] => do return (← Run.ofText? source, ← (image.splitOn ",").mapM hexNumber?)
  | _ => none

def ofText (s : String) : CodePointMap := { runs := (words s).filterMap entry? }

/-- The image of a code point: that of the first code point of its run, with the distance from there
added to the first code point of the image. -/
def image? (map : CodePointMap) (n : Nat) : Option (List Nat) :=
  (map.runs.find? fun (run, _) => run.contains n).map fun (run, image) =>
    match image with
    | [] => []
    | first :: rest => (first + (n - run.first)) :: rest

end CodePointMap

end Workbench.Text
