import Workbench.Text.Range

/-!
**Tokens.**

A token is a piece of text with a kind and the byte offset where it starts. White space and comments
are tokens too, so that the text can be put together again from them; they are hidden from the
grammar.
-/

namespace Workbench

/-- The kinds of tokens, in the order in which they are listed to a reader. -/
inductive TokenKind where
  | keyword
  | identifier
  | string
  | number
  | blank
  | comment
deriving DecidableEq, Repr, Inhabited

namespace TokenKind

/-- Hidden tokens are skipped by the grammar. -/
def isHidden : TokenKind → Bool
  | blank | comment => true
  | _ => false

def label : TokenKind → String
  | keyword => "keyword"
  | identifier => "ID"
  | string => "STRING"
  | number => "NUMBER"
  | blank => "WS"
  | comment => "COMMENT"

/-- All kinds in listing order. -/
def all : List TokenKind :=
  [keyword, identifier, string, number, blank, comment]

end TokenKind

/-- A piece of text with a kind and a place. -/
structure Token where
  kind : TokenKind
  image : String
  offset : Nat
deriving DecidableEq, Repr, Inhabited

namespace Token

/-- The offset just after the token (`end`). -/
def stop (t : Token) : Nat := t.offset + t.image.utf8ByteSize

def range (t : Token) : TextRange := TextRange.of t.offset t.stop

def isHidden (t : Token) : Bool := t.kind.isHidden

/-- Visible tokens are those that the grammar sees. -/
def isVisible (t : Token) : Bool := !t.kind.isHidden

/-- Whether the token is the keyword `text` (`is_keyword`). -/
def isKeyword (t : Token) (text : String) : Bool :=
  t.kind == .keyword && t.image == text

end Token

/-- Why a stretch of text is no token. -/
inductive LexFault where
  | unterminatedComment
  | unterminatedString
  | unexpected (text : String)
deriving DecidableEq, Repr

namespace LexFault

def message : LexFault → String
  | unterminatedComment => "unterminated block comment"
  | unterminatedString => "unterminated string literal"
  | unexpected text => "unexpected character sequence '" ++ text ++ "'"

end LexFault

/-- A stretch of text that is no token. -/
structure LexError where
  message : String
  range : TextRange
deriving DecidableEq, Repr

/-- The text shown for an error. -/
def LexError.render (e : LexError) : String :=
  e.message ++ " at " ++ e.range.render

/-- The tokens of a text and the stretches that are none, both in source order. -/
structure LexResult where
  tokens : List Token
  errors : List LexError
deriving DecidableEq, Repr, Inhabited

end Workbench
