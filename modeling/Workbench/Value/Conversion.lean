import Workbench.Decimal.Shortest
import Workbench.Text.Quoted
import Workbench.Value

/-!
**From token text to values.**

A terminal or data-type rule says what its text stands for: a name, a string, a number, or just the
text. A number that cannot be read stays text.
-/

namespace Workbench

/-- What the text of a rule stands for. -/
inductive ValueKind where
  | id
  | string
  | number
  | text
deriving DecidableEq, Repr

namespace ValueKind

def all : List ValueKind := [id, string, number, text]

def label : ValueKind → String
  | id => "id"
  | string => "string"
  | number => "number"
  | text => "text"

/-- The number that a text spells, or the text itself (`number_or_text`). -/
def numberOrText (s : String) : Value :=
  match Decimal.toFloat? s with
  | some x => .number x
  | none => .text s

/-- The value of a single token (`convert`). -/
def convert (kind : ValueKind) (image : String) : Value :=
  match kind with
  | id => .text (Text.stripCaret image)
  | string => .text (Text.unquote image)
  | number => numberOrText image
  | text => .text image

/-- The text that a token adds to the rule around it (`convert_text`). -/
def convertText (kind : ValueKind) (image : String) : String :=
  match kind with
  | id => Text.stripCaret image
  | string => Text.unquote image
  | number | text => image

/-- The value of the text collected by a data-type rule (`data_type_value`). -/
def ofCollected (kind : ValueKind) (collected : String) : Value :=
  match kind with
  | number => numberOrText collected
  | _ => .text collected

end ValueKind

/-- The text that a value adds to a rule around it (`value_text`). Nodes, references and lists have none. -/
def Value.asText : Value → String
  | text s => s
  | number x => Decimal.render x
  | bool b => if b then "true" else "false"
  | _ => ""

end Workbench
