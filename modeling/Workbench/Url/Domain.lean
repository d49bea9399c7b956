import Workbench.Text.Composition
import Workbench.Text.Direction
import Workbench.Text.Joining
import Workbench.Url.DomainMapping
import Workbench.Url.Punycode

/-!
**Domain names.**

A domain name is a row of labels with dots between them. Names that differ in case, in the variant of
a character or in its composition are one name, whose normal form has ASCII characters alone: a label
with other characters is written behind the mark `xn--`. `toAscii?` brings a name into this form. It
refuses a name with a character that no name may have, with a label that begins with a mark, with an
invisible joiner that joins nothing, or with letters of both writing directions in disorder.
-/

namespace Workbench.Url

open Text

/-! ### Labels -/

/-- Splits a text at every character of a set. -/
def splitAt (p : Char → Bool) : List Char → List (List Char)
  | [] => [[]]
  | c :: rest =>
    if p c then [] :: splitAt p rest
    else
      match splitAt p rest with
      | [] => [[c]]
      | segment :: segments => (c :: segment) :: segments

/-- ASCII characters that stand in no domain name: control characters, the blank, and those that
separate the parts of a URL. -/
def deniedInDomain (c : Char) : Bool :=
  c.toNat ≤ 0x20 || c.toNat == 0x7F || "%#/:<>?@[\\]^|".toList.contains c

/-- What a character of a domain name is written as; `none` if it may not stand there. -/
def domainChar? (c : Char) : Option (List Char) :=
  if validInDomain.contains c.toNat then some [c]
  else if ignoredInDomain.contains c.toNat then some []
  else (mappedInDomain.image? c.toNat).map (·.map Char.ofNat)

/-- The labels of a domain name, with every character as it is written there. -/
def labels? (name : List Char) : Option (List (List Char)) := do
  let mapped ← name.mapM domainChar?
  let normal := composedForm mapped.flatten
  if normal.any deniedInDomain then none
  return splitAt (· == '.') normal

/-- The mark of a label in ASCII form. -/
def asciiMark : List Char := "xn--".toList

/-- The longest ASCII form that is read, without its mark. -/
def longestEncoded : Nat := 2000

/-- The longest label that is written in ASCII form. -/
def longestLabel : Nat := 1000

/-- The label that an ASCII form stands for. It has to be in normal form and to need the ASCII
form. -/
def decodeLabel? (encoded : List Char) : Option (List Char) := do
  if encoded.isEmpty || encoded.getLast? == some '-' then none
  if encoded.length > longestEncoded then none
  let label ← Punycode.decode? encoded
  if label.all (fun c => validInDomain.contains c.toNat) && composedForm label == label &&
      !asciiMark.isPrefixOf label then
    return label
  else none

/-- The characters that a label stands for. -/
def plainLabel? (label : List Char) : Option (List Char) :=
  if asciiMark.isPrefixOf label then decodeLabel? (label.drop asciiMark.length)
  else if label.all Punycode.isAscii || label.length ≤ longestLabel then some label
  else none

/-- The ASCII form of a label. -/
def asciiLabel (label : List Char) : List Char :=
  if label.all Punycode.isAscii then label else asciiMark ++ Punycode.encode label

/-! ### Joiners -/

def nonJoiner : Char := Char.ofNat 0x200C

def joiner : Char := Char.ofNat 0x200D

def isVirama (c : Char) : Bool := combiningClass c.toNat == viramaClass

/-- Whether the joiners among the characters `cs` have something to join: after a virama any of them
has, and a non-joiner also between letters that would join without it. The characters before `cs` are
given from the last to the first. -/
def joinersFit (before : List Char) : List Char → Bool
  | [] => true
  | c :: rest =>
    let meets (p : Char → Bool) (cs : List Char) : Bool := (cs.find? (!isTransparent ·)).any p
    let fits : Bool :=
      if c = joiner then before.head?.any isVirama
      else if c = nonJoiner then
        before.head?.any isVirama || (meets joinsNext before && meets joinsPrevious rest)
      else true
    fits && joinersFit (c :: before) rest

/-! ### Writing direction -/

/-- Whether a label makes the whole name subject to the rule of direction. -/
def isMixed (label : List Char) : Bool :=
  label.any fun c =>
    match direction c with
    | .rightToLeft | .arabicLetter | .arabicNumber => true
    | _ => false

def isNeutral : Direction → Bool
  | .europeanSeparator | .europeanTerminator | .commonSeparator | .nonspacingMark
  | .boundaryNeutral | .otherNeutral => true
  | _ => false

/-- The rule of direction: a label runs in the direction of its first letter, holds no letter of the
other direction, ends in a letter or a digit, and mixes no digits. -/
def runsOneWay (label : List Char) : Bool :=
  let ds := label.map direction
  let last := (ds.reverse.dropWhile (· == .nonspacingMark)).head?
  match ds.head? with
  | none => true
  | some .leftToRight =>
    ds.all (fun d => d == .leftToRight || d == .europeanNumber || isNeutral d) &&
      last.all fun d => d == .leftToRight || d == .europeanNumber
  | some .rightToLeft | some .arabicLetter =>
    let isStrong (d : Direction) : Bool :=
      d == .rightToLeft || d == .arabicLetter || d == .europeanNumber || d == .arabicNumber
    ds.all (fun d => isStrong d || isNeutral d) && last.all isStrong &&
      !(ds.contains .europeanNumber && ds.contains .arabicNumber)
  | some _ => false

/-! ### Names -/

/-- Whether a label, read by its characters, may stand in a domain name. -/
def isLabel (label : List Char) : Bool :=
  !label.head?.any isMark && joinersFit [] label

/-- The ASCII form of a domain name. -/
def toAscii? (name : List Char) : Option (List Char) := do
  let labels ← labels? name
  let plain ← labels.mapM plainLabel?
  if plain.all isLabel && (!plain.any isMixed || plain.all runsOneWay) then
    return List.intercalate ['.'] (labels.map asciiLabel)
  else none

end Workbench.Url
