/-!
**Cancellation.**

Long computations read a token at fixed points and stop if it has fired. A token fires once and for all, so
all that matters to a reader is how many of its readings the token still spares. Nothing else of a
`CancellationToken` matters to what is computed under it.
-/

namespace Workbench

/-- The computation was stopped by its token. -/
inductive Cancelled where
  | cancelled
deriving DecidableEq, Repr

def Cancelled.message : Cancelled → String
  | .cancelled => "operation cancelled"

/-- A token as its reader meets it: the number of readings before it fires, if it ever does
(`CancellationToken`). -/
structure Cancellation where
  spared : Option Nat
deriving DecidableEq, Repr

namespace Cancellation

/-- A token that never fires. -/
def never : Cancellation := ⟨none⟩

/-- A token that has fired. -/
def fired : Cancellation := ⟨some 0⟩

end Cancellation

/-- A computation that reads a token. -/
abbrev Cancellable := StateT Cancellation (Except Cancelled)

namespace Cancellable

/-- Reads the token: stops if it has fired (`check`). -/
def checkpoint : Cancellable Unit := fun token =>
  match token.spared with
  | none => .ok ((), token)
  | some 0 => .error .cancelled
  | some (n + 1) => .ok ((), ⟨some n⟩)

/-- Makes the token fire (`cancel`). -/
def fire : Cancellable Unit := fun _ => .ok ((), .fired)

end Cancellable

end Workbench
