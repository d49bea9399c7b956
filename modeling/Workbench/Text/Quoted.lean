/-!
**Quoted literals and escaped names.**

A string literal stands between two equal quotes; inside, a backslash takes the next character as it
is, except that `n`, `t` and `r` stand for line feed, tab and carriage return. A name may be written
with a caret in front, which keeps it from being read as a keyword.
-/

namespace Workbench.Text

/-- The characters a backslash escape stands for. -/
def escaped : Char → Char
  | 'n' => '\n'
  | 't' => '\t'
  | 'r' => '\r'
  | c => c

/-- Resolves the escapes. A backslash at the very end stands for itself. -/
def unescape : List Char → List Char
  | [] => []
  | ['\\'] => ['\\']
  | '\\' :: c :: rest => escaped c :: unescape rest
  | c :: rest => c :: unescape rest

/-- Strips the two equal quotes around a literal, if it has them. -/
def stripQuotes (cs : List Char) : List Char :=
  match cs with
  | q :: rest =>
    if (q == '"' || q == '\'') && rest.getLast? == some q then rest.dropLast else cs
  | [] => []

/-- The text that a literal stands for (`unquote`). -/
def unquote (image : String) : String :=
  String.ofList (unescape (stripQuotes image.toList))

/-- The name without the caret in front (`strip_escape`). -/
def stripCaret (image : String) : String :=
  match image.toList with
  | '^' :: rest => String.ofList rest
  | _ => image

end Workbench.Text
