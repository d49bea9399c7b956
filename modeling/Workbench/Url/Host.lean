import Workbench.Url.Ipv4
import Workbench.Url.Ipv6
import Workbench.Url.Percent

/-!
**Hosts.**

The host of a URL is an address in brackets, an address of four bytes, or a domain name. Only the
schemes that are special to the web know addresses of four bytes and the normal form of domain names;
for the others a host without brackets is a text like any other.
-/

namespace Workbench.Url

/-- The host of a URL; the empty name is no host. -/
inductive Host where
  | domain (name : String)
  | ipv4 (address : Ipv4)
  | ipv6 (address : Ipv6)
deriving DecidableEq, Repr

namespace Host

def isEmpty (h : Host) : Bool := h == .domain ""

def render : Host → String
  | .domain name => name
  | .ipv4 address => address.render
  | .ipv6 address => "[" ++ address.render ++ "]"

/-- Reads an address in brackets. -/
def ofBrackets? (cs : List Char) : Option Host :=
  if cs.length ≥ 2 && cs.getLast? == some ']' then
    (Ipv6.ofText? (cs.drop 1).dropLast).map .ipv6
  else none

/-- Reads a host of a special scheme. It is never empty. -/
def ofSpecial? (cs : List Char) : Option Host :=
  if cs.head? == some '[' then ofBrackets? cs
  else do
    let decoded ← String.fromUTF8? ⟨(percentDecode cs).toArray⟩
    let name ← toAscii? decoded.toList
    if name.isEmpty then none
    else if Ipv4.isNumeric name then (Ipv4.ofHost? name).map .ipv4
    else return .domain (String.ofList name)

/-- Characters that separate the parts of a URL and so stand in no host. -/
def isForbidden (c : Char) : Bool := c.toNat == 0 || " \t\n\r#/:<>?@[\\]^|".toList.contains c

/-- Reads a host of a scheme that is not special. -/
def ofOther? (cs : List Char) : Option Host :=
  if cs.head? == some '[' then ofBrackets? cs
  else if cs.any isForbidden then none
  else some (.domain (String.ofList (percentEncode isControl cs)))

end Host

end Workbench.Url
