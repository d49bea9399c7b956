import Workbench.Grammar

/-!
**Sets of starting tokens.**

The tokens that can start a stretch of input are given by keyword texts and by token kinds. Both are
kept without repetitions, keywords sorted and kinds in their listing order, so equal sets are equal
as values and are described in the same words.
-/

namespace Workbench

/-- A set of keywords and token kinds. -/
structure FirstSet where
  keywords : List String
  kinds : List TokenKind
deriving DecidableEq, Repr, Inhabited

namespace FirstSet

def empty : FirstSet := ⟨[], []⟩

def isEmpty (s : FirstSet) : Bool := s.keywords.isEmpty && s.kinds.isEmpty

def ofKeyword (text : String) : FirstSet := ⟨[text], []⟩

def ofKind (kind : TokenKind) : FirstSet := ⟨[], [kind]⟩

/-- A keyword token is looked up by its text, any other token by its kind (`contains`). -/
def contains (s : FirstSet) (t : Token) : Bool :=
  if t.kind = .keyword then s.keywords.contains t.image else s.kinds.contains t.kind

def union (s t : FirstSet) : FirstSet where
  keywords := t.keywords.foldl (fun acc k => insertSorted k acc) s.keywords
  kinds := TokenKind.all.filter fun k => s.kinds.contains k || t.kinds.contains k

/-- The members in words: quoted keywords, then kinds (`describe`). -/
def describe (s : FirstSet) : List String :=
  s.keywords.map (fun k => "'" ++ k ++ "'") ++ s.kinds.map TokenKind.label

def render (s : FirstSet) : String := ", ".intercalate s.describe

end FirstSet

end Workbench
