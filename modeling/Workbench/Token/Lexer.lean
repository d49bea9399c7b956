import Workbench.Text.Blank
import Workbench.Token

/-!
**From text to tokens.**

The lexer knows a list of keywords. It cuts a text into segments, one after the other: at each point
the first rule below that applies to the next character says how far the segment reaches.

* a run of white space;
* a comment, from `//` to the end of the line, or from `/*` to the next `*/`;
* a word of letters, digits and underscores that starts with no digit: a keyword if it is one, else a
  name; with a caret in front it is always a name;
* a number: digits, and a point if digits follow it;
* a string between two equal quotes on one line, where a backslash protects the next character;
* the longest keyword that the rest of the text starts with;
* a stray character, if nothing else applies.

A comment or string that is not closed is a fault: the comment takes the rest of the text, the string the
rest of the line. Neighbouring stray characters are reported together. Since each rule only says how many
characters a segment takes, the segments put together are the text. The tokens are those of a `SimpleLexer`;
that its loop over byte positions comes to the segments is `ends_tokenize`.
-/

namespace Workbench.Lexer

/-! ### Character classes -/

/-- The characters that start a name (`is_ident_start`). Names are made of ASCII letters, digits and
underscores. -/
def isNameStart (c : Char) : Bool := c.isAlpha || c == '_'

/-- The characters that continue a name (`is_ident_continue`). -/
def isNamePart (c : Char) : Bool := c.isAlphanum || c == '_'

/-- The double and the single quote. -/
def isQuote (c : Char) : Bool := c == '"' || c == '\''

/-- How many characters at the front satisfy `p`. -/
def runLength (p : Char → Bool) (cs : List Char) : Nat :=
  (cs.takeWhile p).length

/-! ### Extents -/

/-- What a segment is. -/
inductive Verdict where
  | token (kind : TokenKind)
  | unterminatedComment
  | unterminatedString
  | stray
deriving DecidableEq, Repr

/-- How many characters lead up to and include the first `*/`. -/
def closeComment : List Char → Option Nat
  | '*' :: '/' :: _ => some 2
  | _ :: rest => (closeComment rest).map (· + 1)
  | [] => none

/-- How many characters lead up to and include the closing quote, if it stands on this line (`scan_string`).
-/
def closeString (quote : Char) (escaped : Bool) : List Char → Option Nat
  | [] => none
  | c :: rest =>
    if c == '\n' then none
    else if c == '\\' && !escaped then (closeString quote true rest).map (· + 1)
    else if c == quote && !escaped then some 1
    else (closeString quote false rest).map (· + 1)

/-- How many more characters belong to a number that starts with a digit before `rest`. -/
def numberExtent (rest : List Char) : Nat :=
  let whole := runLength Char.isDigit rest
  match rest.drop whole with
  | '.' :: d :: tail => if d.isDigit then whole + 2 + runLength Char.isDigit tail else whole
  | _ => whole

/-- The length of the longest keyword that `cs` starts with, zero if there is none (`match_symbol`). -/
def longestKeyword (keywords : List String) (cs : List Char) : Nat :=
  keywords.foldl
    (fun best k => if k.toList.isPrefixOf cs then max best k.toList.length else best) 0

/-- What the segment that starts with `c` is, and how many of the characters after `c` it takes. -/
def classify (keywords : List String) (c : Char) (rest : List Char) : Verdict × Nat :=
  if Text.isBlank c then (.token .blank, runLength Text.isBlank rest)
  else if c == '/' && rest.head? == some '/' then
    (.token .comment, runLength (· != '\n') rest)
  else if c == '/' && rest.head? == some '*' then
    match closeComment rest.tail with
    | some n => (.token .comment, n + 1)
    | none => (.unterminatedComment, rest.length)
  else if isNameStart c then
    let n := runLength isNamePart rest
    let word := String.ofList (c :: rest.take n)
    (.token (if keywords.contains word then .keyword else .identifier), n)
  else if c == '^' && rest.head?.any isNameStart then
    (.token .identifier, runLength isNamePart rest)
  else if c.isDigit then (.token .number, numberExtent rest)
  else if isQuote c then
    match closeString c false rest with
    | some n => (.token .string, n)
    | none => (.unterminatedString, runLength (· != '\n') rest)
  else
    match longestKeyword keywords (c :: rest) with
    | 0 => (.stray, 0)
    | n + 1 => (.token .keyword, n)

/-! ### Segments -/

/-- A stretch of text and what it is. -/
structure Segment where
  verdict : Verdict
  text : List Char
deriving DecidableEq, Repr

/-- The segments of a text of which the first `taken` characters belong to the segment before. -/
def segmentsFrom (keywords : List String) : Nat → List Char → List Segment
  | _, [] => []
  | taken + 1, _ :: rest => segmentsFrom keywords taken rest
  | 0, c :: rest =>
    let (verdict, n) := classify keywords c rest
    ⟨verdict, c :: rest.take n⟩ :: segmentsFrom keywords n rest

/-- The segments of a text. -/
def segments (keywords : List String) (cs : List Char) : List Segment :=
  segmentsFrom keywords 0 cs

/-- Joins neighbouring stray characters (`flush_garbage`). -/
def joinStrays : List Segment → List Segment
  | [] => []
  | s :: rest =>
    match joinStrays rest with
    | t :: ts =>
      if s.verdict = .stray ∧ t.verdict = .stray then ⟨.stray, s.text ++ t.text⟩ :: ts
      else s :: t :: ts
    | [] => [s]

/-! ### Tokens -/

/-- The fault that a segment is, if it is no token. -/
def Segment.fault (s : Segment) : LexFault :=
  match s.verdict with
  | .unterminatedComment => .unterminatedComment
  | .unterminatedString => .unterminatedString
  | _ => .unexpected (String.ofList s.text)

/-- The tokens and errors of segments that start at `offset`. -/
def place : Nat → List Segment → LexResult
  | _, [] => ⟨[], []⟩
  | offset, s :: rest =>
    let image := String.ofList s.text
    let stop := offset + image.utf8ByteSize
    let after := place stop rest
    match s.verdict with
    | .token kind => ⟨⟨kind, image, offset⟩ :: after.tokens, after.errors⟩
    | _ => ⟨after.tokens, ⟨s.fault.message, TextRange.of offset stop⟩ :: after.errors⟩

/-- Cuts a text into tokens (`tokenize`). -/
def tokenize (keywords : List String) (text : String) : LexResult :=
  place 0 (joinStrays (segments keywords text.toList))

end Workbench.Lexer
