import Workbench.Text.Range

/-!
**Lines and editor positions.**

An editor addresses a text by line and column, columns counted in UTF-16 units, while the pipeline uses byte
offsets. Positions go to an editor in 32 bits each, so what is said of them here is about texts of less than
4 GiB, which have no larger ones (`narrow_positionOf`). Lines end after a line feed, a carriage return (the
pair of both counts once), a vertical tab, a form feed, and after U+0085, U+2028 and U+2029.

The content of a line leaves out a closing line feed and the carriage return before it, and nothing
else: a line that another break ends keeps that break as its last character. A column past the
content stands for the end of the content, a line past the last one for the end of the text, and an
offset or column inside a character for the start of that character.
-/

namespace Workbench.Text

/-- A place in a text as an editor names it. -/
structure Position where
  line : Nat
  character : Nat
deriving DecidableEq, Repr, Inhabited

/-- Positions are ordered by line, then by column. -/
def Position.le (p q : Position) : Bool :=
  decide (p.line < q.line) || (p.line == q.line && decide (p.character ≤ q.character))

/-- A stretch of text as an editor names it. -/
structure PositionRange where
  start : Position
  stop : Position
deriving DecidableEq, Repr, Inhabited

/-- A replacement of a stretch of text, or of the whole text if no stretch is given. -/
structure Edit where
  range : Option PositionRange
  text : String
deriving DecidableEq, Repr

/-- The number of UTF-16 units of a character. -/
def units (c : Char) : Nat :=
  if c.toNat < 0x10000 then 1 else 2

/-- The number of bytes of some characters. -/
def byteLength : List Char → Nat
  | [] => 0
  | c :: rest => c.utf8Size + byteLength rest

/-- Whether a line ends after `c`, when `rest` follows it. -/
def endsLine (c : Char) (rest : List Char) : Bool :=
  c == '\n' || (c == '\r' && rest.head? != some '\n') ||
    c == Char.ofNat 0x0B || c == Char.ofNat 0x0C || c == Char.ofNat 0x85 ||
    c == Char.ofNat 0x2028 || c == Char.ofNat 0x2029

/-- The number of lines: one more than the number of line breaks. -/
def lineCount : List Char → Nat
  | [] => 1
  | c :: rest => (if endsLine c rest then 1 else 0) + lineCount rest

/-! ### From offsets to positions -/

/-- The position reached from `here` after at most `offset` bytes of the characters that follow. -/
def positionFrom (here : Position) : Nat → List Char → Position
  | _, [] => here
  | offset, c :: rest =>
    if offset < c.utf8Size then here
    else
      let next : Position :=
        if endsLine c rest then ⟨here.line + 1, 0⟩ else ⟨here.line, here.character + units c⟩
      positionFrom next (offset - c.utf8Size) rest

/-- A position as it goes to an editor, line and column cut down to 32 bits. -/
def Position.narrow (p : Position) : Position :=
  ⟨(UInt32.ofNat p.line).toNat, (UInt32.ofNat p.character).toNat⟩

/-- The position of a byte offset (`offset_to_position`). -/
def positionOf (cs : List Char) (offset : Nat) : Position :=
  positionFrom ⟨0, 0⟩ offset cs

/-- The position range of a byte range (`range_to_lsp`). -/
def positionRangeOf (cs : List Char) (r : TextRange) : PositionRange :=
  ⟨positionOf cs r.start, positionOf cs r.stop⟩

/-! ### From positions to offsets -/

/-- How many characters precede the line `line` of a text, if it has that many lines. -/
def lineStart : Nat → List Char → Option Nat
  | 0, _ => some 0
  | _ + 1, [] => none
  | line + 1, c :: rest =>
    (lineStart (if endsLine c rest then line else line + 1) rest).map (· + 1)

/-- How many characters of a line precede the column `column` (`line_content_chars`). -/
def columnIndex : Nat → List Char → Nat
  | _, [] => 0
  | column, c :: rest =>
    if c == '\n' || (c == '\r' && rest.head? == some '\n') then 0
    else if column < units c then 0
    else if endsLine c rest then 1
    else columnIndex (column - units c) rest + 1

/-- How many characters precede a position (`position_to_char`). -/
def indexOf (cs : List Char) (p : Position) : Nat :=
  match lineStart p.line cs with
  | none => cs.length
  | some start => start + columnIndex p.character (cs.drop start)

/-- The byte offset of a position (`position_to_offset`). -/
def offsetOf (cs : List Char) (p : Position) : Nat :=
  byteLength (cs.take (indexOf cs p))

/-! ### Edits -/

/-- Applies an edit (`apply_change`). An end before the start is moved to the start. -/
def Edit.apply (e : Edit) (text : String) : String :=
  match e.range with
  | none => e.text
  | some r =>
    let cs := text.toList
    let start := indexOf cs r.start
    let stop := max start (indexOf cs r.stop)
    String.ofList (cs.take start ++ e.text.toList ++ cs.drop stop)

end Workbench.Text
