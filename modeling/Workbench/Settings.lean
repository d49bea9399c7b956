import Workbench.Validation

/-!
**Settings.**

An editor may send options when it starts a server. Options that cannot be read as a whole count as not
given: then every setting has its default. Options come as a record, in which unknown fields are ignored and
absent ones have their default, or as a list of the fields in their order, of which the last ones may be
absent. They are read by `from_initialization_options`.
-/

namespace Workbench

/-- An option value as far as settings care. -/
inductive OptionValue where
  | bool (b : Bool)
  | natural (n : Nat)
  | list (items : List OptionValue)
  | record (fields : List (String × OptionValue))
  /-- A value that no setting takes. -/
  | other
deriving Inhabited

structure Settings where
  /-- Publish diagnostics after every build, besides answering requests for them. -/
  pushDiagnostics : Bool := false
  /-- How long after an edit the build waits for another one. -/
  debounceMs : Nat := 200
  /-- Documents with more bytes are not opened. -/
  maxDocumentSize : Nat := 64 * 1024 * 1024
  includeSlowChecks : Bool := false
deriving DecidableEq, Repr

namespace Settings

/-- Numbers are read up to this bound, itself excluded. -/
def numberBound : Nat := Nat.pow 2 64

def readBool : OptionValue → Option Bool
  | .bool b => some b
  | _ => none

def readNatural : OptionValue → Option Nat
  | .natural n => if n < numberBound then some n else none
  | _ => none

/-- Reads an optional field: absent is fine, of another kind is not. -/
def readField {α : Type} (read : OptionValue → Option α) (fallback : α) :
    Option OptionValue → Option α
  | none => some fallback
  | some v => read v

/-- Reads the four settings from their optional values. -/
def ofFields? (push debounce size slow : Option OptionValue) : Option Settings := do
  let d : Settings := {}
  return {
    pushDiagnostics := ← readField readBool d.pushDiagnostics push
    debounceMs := ← readField readNatural d.debounceMs debounce
    maxDocumentSize := ← readField readNatural d.maxDocumentSize size
    includeSlowChecks := ← readField readBool d.includeSlowChecks slow }

/-- Reads settings from option values. -/
def read? : OptionValue → Option Settings
  | .record fields =>
    ofFields? (fields.lookup "pushDiagnostics") (fields.lookup "debounceMs")
      (fields.lookup "maxDocumentSize") (fields.lookup "includeSlowChecks")
  | .list items =>
    if items.length ≤ 4 then ofFields? items[0]? items[1]? items[2]? items[3]? else none
  | _ => none

/-- The settings that options ask for; the defaults if they cannot be read or are not given
(`from_initialization_options`). -/
def ofOptions (options : Option OptionValue) : Settings := (options.bind read?).getD {}

/-- How documents are validated under the settings (`validation_options`). -/
def validationOptions (s : Settings) : ValidationOptions :=
  if s.includeSlowChecks then ValidationOptions.allCategories else {}

end Settings

end Workbench
