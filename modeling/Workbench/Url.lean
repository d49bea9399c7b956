import Workbench.Description
import Workbench.Url.Host
import Workbench.Url.Path

/-!
**Absolute addresses.**

Editors name documents by URLs, and two spellings of one URL have to lead to one document. `Url.parse?`
reads an absolute URL and brings it into its normal form: the scheme in lower case, the host in the
form of its kind, dot segments resolved, a default TCP number left out, and every character that may
not stand in its place written as percent-encoded bytes. A text without a scheme is no absolute URL.
-/

namespace Workbench

/-- An absolute URL in normal form. Each part but the host is kept as it is written. -/
structure Url where
  scheme : String
  /-- User information with its `@`, if there is any. -/
  userInfo : String := ""
  /-- The host, unless the URL has no authority; an empty name if the authority is empty. -/
  host : Option Url.Host
  /-- The TCP number after the host, unless it is the default of the scheme. -/
  tcpNumber : Option Nat := none
  path : String
  query : Option String
  fragment : Option String
deriving DecidableEq, Repr

namespace Url

/-! ### Schemes -/

/-- The schemes whose URLs always have an authority, with their default TCP numbers. -/
def specialSchemes : List (String × Option Nat) :=
  [("http", some 80), ("https", some 443), ("ws", some 80), ("wss", some 443), ("ftp", some 21),
    ("file", none)]

def isSpecial (scheme : String) : Bool := specialSchemes.any (·.1 == scheme)

def defaultTcpNumber? (scheme : String) : Option Nat :=
  (specialSchemes.find? (·.1 == scheme)).bind (·.2)

def inScheme (c : Char) : Bool := c.isAlphanum || c == '+' || c == '-' || c == '.'

/-- Splits off the scheme, which ends at the first colon. Breaks inside it do not count. -/
def scheme? (cs : List Char) : Option (String × List Char) :=
  match cs.span (· != ':') with
  | (name, _ :: rest) =>
    match dropBreaks name with
    | first :: more =>
      if first.isAlpha && more.all inScheme then
        some (String.ofList ((first :: more).map Char.toLower), rest)
      else none
    | [] => none
  | _ => none

/-! ### Parts after the path -/

/-- Splits off the fragment and the query. -/
def splitTail (special : Bool) (cs : List Char) : List Char × Option String × Option String :=
  let (front, fragment) := cs.span (· != '#')
  let (path, query) := front.span (· != '?')
  let encoded (escaped : Char → Bool) : List Char → Option String
    | [] => none
    | _ :: rest => some (String.ofList (percentEncode escaped (dropBreaks rest)))
  (path, encoded (inQuerySet special) query, encoded inFragmentSet fragment)

/-! ### Authorities -/

/-- Splits user information off an authority, at its last `@`. -/
def splitUserInfo (authority : List Char) : String × List Char :=
  match (splitAt (· == '@') authority).reverse with
  | host :: info@(_ :: _) =>
    let (name, password) := (List.intercalate ['@'] info.reverse).span (· != ':')
    let encode := percentEncode inUserInfoSet
    let text := encode name ++ (if password.length > 1 then ':' :: encode (password.drop 1) else [])
    (if text.isEmpty then "" else String.ofList (text ++ ['@']), host)
  | _ => ("", authority)

/-- Splits a host from what follows it, at the first colon outside brackets. -/
def splitHost (inBrackets : Bool) : List Char → List Char × List Char
  | [] => ([], [])
  | c :: rest =>
    if c == ':' && !inBrackets then ([], c :: rest)
    else
      let inside := c == '[' || (inBrackets && c != ']')
      let (host, after) := splitHost inside rest
      (c :: host, after)

/-- The TCP number after a colon, unless it is the default one, and what follows it. -/
def tcpNumber? (scheme : String) (cs : List Char) : Option (Option Nat × List Char) :=
  let (digits, rest) := cs.span Char.isDigit
  let n := digits.foldl (fun n c => 10 * n + (c.toNat - 48)) 0
  if n > 65535 || rest.head?.any (· != '\\') then none
  else some (if digits.isEmpty || defaultTcpNumber? scheme == some n then none else some n, rest)

/-- Reads what follows the two slashes before an authority. A backslash after the TCP number begins
the path also where it is no slash. -/
def afterSlashes (scheme : String) (cs : List Char) : Option Url := do
  let special := isSpecial scheme
  let (front, query, fragment) := splitTail special cs
  let (authority, rest) := front.span (! isSlash special ·)
  if authority == ['@'] && !(rest.isEmpty && query.isNone && fragment.isNone) then none
  let (userInfo, place) := splitUserInfo authority
  let (name, numbered) := splitHost false place
  let host ← if special then Host.ofSpecial? name else Host.ofOther? name
  if host.isEmpty && (!numbered.isEmpty || !userInfo.isEmpty) then none
  let (tcpNumber, more) ← tcpNumber? scheme (numbered.drop 1)
  let path :=
    if more.isEmpty && rest.isEmpty then (if special then "/" else "")
    else normalPath special (if more.isEmpty then rest.drop 1 else more ++ rest)
  return { scheme, userInfo, host := some host, tcpNumber, path, query, fragment }

/-- Reads what follows the scheme of a file, from which breaks are not yet dropped. The host of this
machine is left out, and a drive has no host. -/
def ofFile? (cs : List Char) : Option Url := do
  let (front, query, fragment) := splitTail true cs
  let (start, rest) := front.span fun c => isSlash true c || isBreak c
  let slashes := dropBreaks start
  let (name, place) := if slashes.length = 2 then rest.span (! isSlash true ·) else ([], rest)
  let hostText := dropBreaks name
  let host ←
    if hostText.isEmpty || isDrive hostText then some (.domain "") else Host.ofSpecial? hostText
  let pathText :=
    if isDrive hostText then rest
    else if slashes.length = 2 then place.drop 1
    else slashes.drop 3 ++ place
  let (path, onDrive) := filePath pathText
  let isHere : Bool := onDrive || host == .domain "localhost"
  return { scheme := "file", host := some (if isHere then .domain "" else host), path, query, fragment }

/-! ### Reading and writing -/

/-- The text of a URL without what surrounds it. -/
def trim (s : String) : List Char :=
  let outer (c : Char) : Bool := c.toNat ≤ 0x20
  ((s.toList.dropWhile outer).reverse.dropWhile outer).reverse

/-- Reads an absolute URL (`parse`). -/
def parse? (s : String) : Option Url :=
  match scheme? (trim s) with
  | none => none
  | some (scheme, rest) =>
    if scheme == "file" then ofFile? rest
    else
      let rest := dropBreaks rest
      if isSpecial scheme then afterSlashes scheme (rest.dropWhile (isSlash true))
      else
        match rest with
        | '/' :: '/' :: rest => afterSlashes scheme rest
        | '/' :: rest =>
          let (path, query, fragment) := splitTail false rest
          some { scheme, host := none, path := normalPath false path, query, fragment }
        | _ =>
          let (path, query, fragment) := splitTail false rest
          some {
            scheme, host := none, path := String.ofList (percentEncode isControl path), query
            fragment }

/-- The text of a URL. Without an authority a path may not begin with two slashes, so a dot stands
before such a path. -/
def render (u : Url) : String :=
  let authority :=
    match u.host with
    | some host =>
      "//" ++ u.userInfo ++ host.render ++
        (match u.tcpNumber with
        | some n => ":" ++ n.repr
        | none => "")
    | none => if "//".isPrefixOf u.path then "/." else ""
  u.scheme ++ ":" ++ authority ++ u.path ++ (u.query.map ("?" ++ ·)).getD "" ++
    (u.fragment.map ("#" ++ ·)).getD ""

/-- The address of the document that a URL names. -/
def uri (u : Url) : DocumentUri := u.render

/-- The path of the local file that a URL names: of a URL with a path below the root and no host but this
machine (`to_file_path`). A path that ends with the letter of a drive leads into the drive. -/
def localPath? (u : Url) : Option String :=
  let isHere : Bool := u.host.all fun h => h.isEmpty || h == .domain "localhost"
  if u.path.toList.head? == some '/' && isHere then
    (String.fromUTF8? ⟨(percentDecode u.path.toList).toArray⟩).map fun path =>
      if isDrive (path.toList.drop (path.length - 2)) then path ++ "/" else path
  else none

end Url

end Workbench
