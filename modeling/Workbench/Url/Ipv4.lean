import Workbench.Url.Domain

/-!
**Addresses of four bytes.**

A host whose last label is a number is an address of four bytes. Its parts are decimal, octal after
`0`, or hexadecimal after `0x`; each part but the last is one byte, and the last part holds all bytes
that are left.
-/

namespace Workbench.Url

/-- An address of four bytes, as one number. -/
structure Ipv4 where
  number : UInt32
deriving DecidableEq, Repr

namespace Ipv4

/-- The base and the digits of a part. -/
def digitsOf : List Char → Nat × List Char
  | '0' :: 'x' :: ds => (16, ds)
  | '0' :: 'X' :: ds => (16, ds)
  | '0' :: d :: ds => (8, d :: ds)
  | ds => (10, ds)

/-- The number that a part stands for; no digits after `0x` are zero. -/
def part? (s : List Char) : Option Nat :=
  let (base, ds) := digitsOf s
  if s.isEmpty then none
  else ds.foldlM (fun n c => (Text.hexValue? c).bind fun d =>
    if d < base then some (base * n + d) else none) 0

/-- The parts of a host; a dot at the end ends the last part. -/
def partsOf (host : List Char) : List (List Char) :=
  match (splitAt (· == '.') host).reverse with
  | [] :: part :: parts => (part :: parts).reverse
  | parts => parts.reverse

/-- Whether the last part of a host is a number, so that the host can only be an address. -/
def isNumeric (host : List Char) : Bool :=
  (partsOf host).getLast?.any fun s => !s.isEmpty && (s.all Char.isDigit || (part? s).isSome)

/-- Reads an address. -/
def ofHost? (host : List Char) : Option Ipv4 := do
  let parts ← (partsOf host).mapM part?
  let last ← parts.getLast?
  let bytes := parts.dropLast
  if bytes.length ≤ 3 ∧ bytes.all (· ≤ 255) ∧ last < Nat.pow 256 (4 - bytes.length) then
    let high := (bytes ++ List.replicate (4 - bytes.length) 0).foldl (256 * · + ·) 0
    return { number := UInt32.ofNat (high + last) }
  else none

/-- The four bytes in decimal notation, with dots between them. -/
def render (a : Ipv4) : String :=
  let n := a.number.toNat
  ".".intercalate ([n / 16777216, n / 65536 % 256, n / 256 % 256, n % 256].map Nat.repr)

end Ipv4

end Workbench.Url
