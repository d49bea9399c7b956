import Workbench.Url.Domain

/-!
**Addresses of eight pieces.**

An address in brackets has eight pieces of up to four hexadecimal digits, with colons between them.
Two colons in a row stand for zeros, as many as are missing, and the last two pieces may be written as
four decimal bytes. The normal form shortens the longest row of zeros.
-/

namespace Workbench.Url

/-- An address of eight pieces of 16 bits. -/
structure Ipv6 where
  pieces : List UInt16
  length_pieces : pieces.length = 8
deriving DecidableEq, Repr

namespace Ipv6

/-! ### Reading -/

def piece? (s : List Char) : Option UInt16 :=
  if s.isEmpty || s.length > 4 then none
  else (Text.hexNumber? (String.ofList s)).map UInt16.ofNat

/-- A byte in decimal notation, without zeros before it. -/
def byte? (s : List Char) : Option Nat :=
  if s.isEmpty || !s.all Char.isDigit || (s.head? == some '0' && s.length > 1) then none
  else
    let n := s.foldl (fun n c => 10 * n + (c.toNat - 48)) 0
    if n ≤ 255 then some n else none

/-- The pieces of the last group of an address: one piece, or two as four bytes. -/
def lastGroup? (s : List Char) : Option (List UInt16) :=
  if s.contains '.' then do
    match ← (splitAt (· == '.') s).mapM byte? with
    | [a, b, c, d] => return [UInt16.ofNat (256 * a + b), UInt16.ofNat (256 * c + d)]
    | _ => none
  else (piece? s).map ([·])

/-- The pieces of a row of groups; `isEnd` tells whether the address ends with them. -/
def pieces? (isEnd : Bool) (s : List Char) : Option (List UInt16) := do
  if s.isEmpty then return []
  let groups := splitAt (· == ':') s
  let first ← groups.dropLast.mapM piece?
  let last ← groups.getLast?
  return first ++ (← if isEnd then lastGroup? last else (piece? last).map ([·]))

/-- Splits a text at its first two colons in a row. -/
def splitAtGap : List Char → Option (List Char × List Char)
  | ':' :: ':' :: rest => some ([], rest)
  | c :: rest => (splitAtGap rest).map fun (before, after) => (c :: before, after)
  | [] => none

/-- Eight pieces are an address. -/
def ofPieces? (pieces : List UInt16) : Option Ipv6 :=
  if h : pieces.length = 8 then some ⟨pieces, h⟩ else none

/-- Reads an address without its brackets. A gap stands for one zero at least. -/
def ofText? (s : List Char) : Option Ipv6 := do
  match splitAtGap s with
  | none => ofPieces? (← pieces? true s)
  | some (before, after) =>
    let before ← pieces? false before
    let after ← pieces? true after
    if before.length + after.length ≤ 7 then
      ofPieces? (before ++ List.replicate (8 - before.length - after.length) 0 ++ after)
    else none

/-! ### Writing -/

/-- How many zeros stand at the start of a row of pieces. -/
def zerosAt (pieces : List UInt16) : Nat := (pieces.takeWhile (· == 0)).length

/-- The start of the first longest row of zeros. -/
def longestZeros (pieces : List UInt16) : Nat :=
  (List.range pieces.length).foldl
    (fun best i => if zerosAt (pieces.drop best) < zerosAt (pieces.drop i) then i else best) 0

def hexText (pieces : List UInt16) : String :=
  ":".intercalate (pieces.map fun p => String.ofList (Nat.toDigits 16 p.toNat))

/-- The normal form of an address, without brackets. A single zero is written out. -/
def render (a : Ipv6) : String :=
  let start := longestZeros a.pieces
  let zeros := zerosAt (a.pieces.drop start)
  if zeros < 2 then hexText a.pieces
  else hexText (a.pieces.take start) ++ "::" ++ hexText (a.pieces.drop (start + zeros))

end Ipv6

end Workbench.Url
