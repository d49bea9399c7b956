/-!
**Ranges of a text.**

Positions inside the pipeline are byte offsets into the UTF-8 form of a text. A `TextRange` is a
pair of offsets whose end is never before its start; the invariant is part of the type, so every
function below has to re-establish it.
-/

namespace Workbench

/-- A stretch of text between two byte offsets. -/
structure TextRange where
  start : Nat
  stop : Nat
  start_le_stop : start ≤ stop
deriving DecidableEq, Repr

namespace TextRange

/-- The range from `start` to `stop`; an end before the start is moved to the start. -/
def of (start stop : Nat) : TextRange :=
  ⟨start, max start stop, Nat.le_max_left start stop⟩

/-- The empty range at `offset`. -/
def empty (offset : Nat) : TextRange :=
  ⟨offset, offset, Nat.le_refl offset⟩

instance : Inhabited TextRange := ⟨empty 0⟩

/-- The number of bytes covered. -/
def length (r : TextRange) : Nat := r.stop - r.start

def isEmpty (r : TextRange) : Bool := r.start == r.stop

/-- An offset is in a range if it is between its ends, both of them included. -/
def contains (r : TextRange) (offset : Nat) : Bool :=
  decide (r.start ≤ offset) && decide (offset ≤ r.stop)

/-- The smallest range that holds both (`cover`). -/
def cover (r s : TextRange) : TextRange where
  start := min r.start s.start
  stop := max r.stop s.stop
  start_le_stop := by
    have := r.start_le_stop
    omega

/-- Ranges are ordered by their start, then by their end. -/
def order (r s : TextRange) : Ordering :=
  (compare r.start s.start).then (compare r.stop s.stop)

def render (r : TextRange) : String :=
  toString r.start ++ ".." ++ toString r.stop

@[simp]
theorem of_start (a b : Nat) : (of a b).start = a := rfl

@[simp]
theorem of_stop (a b : Nat) : (of a b).stop = max a b := rfl

@[simp]
theorem empty_start (a : Nat) : (empty a).start = a := rfl

@[simp]
theorem empty_stop (a : Nat) : (empty a).stop = a := rfl

end TextRange

end Workbench
