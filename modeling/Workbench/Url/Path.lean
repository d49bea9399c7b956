import Workbench.Url.Domain
import Workbench.Url.Percent

/-!
**Paths.**

A path is a row of segments, each after a slash. A dot segment stays where it is, and a double dot
goes back over the segment before it. In the path of a file the first segment may be the letter of a
drive, which no double dot goes back over.
-/

namespace Workbench.Url

/-- Tabs and line breaks, which do not count anywhere in a URL. -/
def isBreak (c : Char) : Bool := c == '\t' || c == '\n' || c == '\r'

def dropBreaks (cs : List Char) : List Char := cs.filter (!isBreak ·)

def isSlash (special : Bool) (c : Char) : Bool := c == '/' || (special && c == '\\')

/-! ### Segments -/

/-- A segment with its percent-encoded dots read. -/
def plainDots : List Char → List Char
  | '%' :: '2' :: e :: rest =>
    if e == 'e' || e == 'E' then '.' :: plainDots rest else '%' :: '2' :: e :: plainDots rest
  | c :: rest => c :: plainDots rest
  | [] => []

def isDot (segment : List Char) : Bool := plainDots segment == ['.']

def isDoubleDot (segment : List Char) : Bool := plainDots segment == ['.', '.']

/-- The letter of a drive with its colon, for which a bar may stand, and what follows. -/
def drive? : List Char → Option (Char × List Char)
  | letter :: mark :: rest =>
    if letter.isAlpha && (mark == ':' || mark == '|') then some (letter, rest) else none
  | _ => none

/-- Whether a segment is the letter of a drive and nothing else. -/
def isDrive (segment : List Char) : Bool := (drive? segment).any (·.2.isEmpty)

/-- Whether a double dot stops at a segment: at the letter of a drive, with nothing or a backslash
after it. -/
def stopsDoubleDot (segment : List Char) : Bool :=
  (drive? segment).any fun (_, rest) => rest.head?.all (· == '\\')

/-- Splits a segment in which breaks stand right after the letter of a drive and its colon. -/
def splitAfterDrive? (raw : List Char) : Option (List Char × List Char) :=
  match raw.span (· != ':') with
  | (letter, _ :: rest) =>
    match dropBreaks letter, dropBreaks rest with
    | [l], more@(_ :: _) => if l.isAlpha && rest.head?.any isBreak then some ([l, ':'], more) else none
    | _, _ => none
  | _ => none

/-! ### Walks along a path -/

/-- A path that has been read up to some segment. -/
structure Walk where
  /-- The segments so far, the last first. -/
  done : List (List Char) := []
  /-- Whether the path led to a drive, which has no host. -/
  onDrive : Bool := false

/-- Goes along one segment. -/
def Walk.step (isFile : Bool) (w : Walk) (raw : List Char) : Walk :=
  let segment := dropBreaks raw
  if isDoubleDot segment then
    if w.done.head?.any stopsDoubleDot then w else { w with done := w.done.drop 1 }
  else if isDot segment then w
  else if isFile && w.done.isEmpty then
    if isDrive segment then { done := [segment.take 1 ++ [':']], onDrive := true }
    else
      match splitAfterDrive? raw with
      | some (drive, rest) => { w with done := [rest, drive] }
      | none => { w with done := [segment] }
  else { w with done := segment :: w.done }

/-- Goes along all segments. A dot segment at the end leaves an empty segment. -/
def Walk.along (isFile : Bool) (segments : List (List Char)) : Walk :=
  let w := segments.foldl (Walk.step isFile) {}
  let endsInDots := (segments.getLast?.map dropBreaks).any fun s => isDot s || isDoubleDot s
  if endsInDots then { w with done := [] :: w.done } else w

/-- Writes segments. -/
def renderSegments (segments : List (List Char)) : String :=
  String.ofList (segments.flatMap fun s => '/' :: percentEncode inPathSet s)

/-- The normal form of the path that follows a slash. -/
def normalPath (special : Bool) (cs : List Char) : String :=
  renderSegments (Walk.along false (splitAt (isSlash special) cs)).done.reverse

/-- Segments without the empty ones before the others; one segment is always left. -/
def dropEmpty : List (List Char) → List (List Char)
  | [] :: segment :: rest => dropEmpty (segment :: rest)
  | segments => segments

/-- The normal form of the path of a file, and whether the path leads to a drive. -/
def filePath (cs : List Char) : String × Bool :=
  let w := Walk.along true (splitAt (isSlash true) cs)
  (renderSegments (dropEmpty w.done.reverse), w.onDrive)

end Workbench.Url
