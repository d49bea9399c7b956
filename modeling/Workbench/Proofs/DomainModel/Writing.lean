import Workbench.Proofs.DomainModel.Model
import Workbench.Proofs.Lexer.Spacing

/-!
**Writing a domain model.**

A model is written by writing its names and default values. A name may have a caret in front, and has one
if it is a keyword. A default value is written with parentheses: they stand at least where the precedence
of the operators and their left associativity require it, and may stand anywhere else. So a model whose
names are spelled and whose default values have their parentheses determines the words of its text and how
deep rules are nested in reading them. Every model can be written in this way.
-/

namespace Workbench.DomainModel

/-! ### Names -/

/-- A name: a letter or an underscore, and then letters, digits and underscores. -/
structure Identifier where
  start : Char
  rest : List Char
  isStart : Lexer.isNameStart start = true
  areParts : rest.all Lexer.isNamePart = true

def Identifier.text (i : Identifier) : String := String.ofList (i.start :: i.rest)

/-- A name as it is spelled in a text. A keyword is a name only behind a caret. -/
structure Spelling where
  name : Identifier
  caret : Bool
  keyword : name.text ∈ grammar.keywords → caret = true

def Spelling.image (s : Spelling) : String :=
  if s.caret then String.ofList ('^' :: s.name.start :: s.name.rest) else s.name.text

/-- Names with points between them, at least one. -/
structure Dotted (ι : Type) where
  first : ι
  others : List ι

namespace Dotted

def map {ι κ : Type} (f : ι → κ) (d : Dotted ι) : Dotted κ := ⟨f d.first, d.others.map f⟩

def text (d : Dotted Identifier) : String :=
  d.others.foldl (fun text i => text ++ "." ++ i.text) d.first.text

end Dotted

/-! ### Numbers -/

/-- A number: digits, and maybe a point and more digits. -/
structure Numeral where
  start : Char
  whole : List Char
  fraction : List Char
  isDigit : start.isDigit = true
  areDigits : (whole ++ fraction).all Char.isDigit = true

namespace Numeral

def point : List Char → List Char
  | [] => []
  | c :: cs => '.' :: c :: cs

def image (n : Numeral) : String := String.ofList (n.start :: (n.whole ++ point n.fraction))

theorem readSign_of_isDigit {c : Char} (digit : c.isDigit = true) (cs : List Char) :
    Decimal.readSign (c :: cs) = (false, c :: cs) := by
  unfold Decimal.readSign
  split
  · next eq => cases eq; cases digit
  · next eq => cases eq; cases digit
  · rfl

theorem isSome_readUnsigned {c : Char} {cs fraction : List Char} (digit : c.isDigit = true)
    (digits : ∀ d ∈ cs ++ fraction, d.isDigit = true) :
    (Decimal.readUnsigned false (c :: (cs ++ point fraction))).isSome = true := by
  obtain ⟨wholes, fractions⟩ := List.forall_mem_append.1 digits
  have all : ∀ d ∈ c :: cs, d.isDigit = true := List.forall_mem_cons.2 ⟨digit, wholes⟩
  have point : (point fraction).takeWhile Char.isDigit = [] ∧
      (point fraction).dropWhile Char.isDigit = point fraction := by
    cases fraction <;> exact ⟨rfl, rfl⟩
  have whole : (c :: (cs ++ Numeral.point fraction)).takeWhile Char.isDigit = c :: cs := by
    rw [← List.cons_append, List.takeWhile_append_of_pos all, point.1, List.append_nil]
  have rest : (c :: (cs ++ Numeral.point fraction)).dropWhile Char.isDigit = Numeral.point fraction := by
    rw [← List.cons_append, List.dropWhile_append_of_pos all, point.2]
  unfold Decimal.readUnsigned
  dsimp only
  rw [whole, rest]
  split
  · rfl
  · split
    · rfl
    · cases fraction with
      | nil => rfl
      | cons d ds =>
        have nothing : (d :: ds).dropWhile Char.isDigit = [] := List.dropWhile_eq_nil_iff.2 fractions
        simp only [Numeral.point, nothing, List.isEmpty_cons, Bool.false_and]
        rfl

theorem isSome_toFloat? (n : Numeral) : (Decimal.toFloat? n.image).isSome = true := by
  rw [Decimal.toFloat?, Option.isSome_map, Decimal.read?, image, String.toList_ofList,
    readSign_of_isDigit n.isDigit]
  exact isSome_readUnsigned n.isDigit (List.all_eq_true.1 n.areDigits)

/-- The value of a number. -/
def value (n : Numeral) : Float := (Decimal.toFloat? n.image).get n.isSome_toFloat?

theorem convert_image (n : Numeral) : ValueKind.number.convert n.image = .number n.value := by
  have read : Decimal.toFloat? n.image = some n.value := (Option.some_get _).symm
  rw [ValueKind.convert, ValueKind.numberOrText, read]

end Numeral

/-! ### Default values -/

/-- A default value as it is written. -/
inductive Term where
  | number (n : Numeral)
  | binary (op : Operator) (left right : Term)
  | parens (inner : Term)

namespace Term

/-- What a term says. -/
def expression : Term → Expression Numeral
  | number n => .number n
  | binary op left right => .binary op left.expression right.expression
  | parens inner => inner.expression

/-- How strong a term is held together. -/
def precedence : Term → Nat
  | binary op _ _ => op.precedence
  | number _ | parens _ => 3

/-- Parentheses stand where they are required: an operand is held together at least as strong as its
operator, and a right operand stronger, since operators of one precedence associate to the left. -/
def Bracketed : Term → Prop
  | number _ => True
  | binary op left right =>
    op.precedence ≤ left.precedence ∧ op.precedence < right.precedence ∧ left.Bracketed ∧
      right.Bracketed
  | parens inner => inner.Bracketed

instance decidableBracketed : (t : Term) → Decidable t.Bracketed
  | number _ => inferInstanceAs (Decidable True)
  | binary op left right =>
    have := decidableBracketed left
    have := decidableBracketed right
    inferInstanceAs (Decidable (op.precedence ≤ left.precedence ∧ op.precedence < right.precedence ∧
      left.Bracketed ∧ right.Bracketed))
  | parens inner => decidableBracketed inner

/-- Parentheses around each operand that is no number. -/
def operand : Term → Term
  | number n => number n
  | t => parens t

/-- An expression with parentheses around all operands. -/
def ofExpression : Expression Numeral → Term
  | .number n => number n
  | .binary op left right => binary op (ofExpression left).operand (ofExpression right).operand

theorem precedence_operand (t : Term) : t.operand.precedence = 3 := by
  cases t <;> rfl

theorem expression_operand (t : Term) : t.operand.expression = t.expression := by
  cases t <;> rfl

theorem Bracketed.operand {t : Term} (h : t.Bracketed) : t.operand.Bracketed := by
  cases t <;> exact h

theorem bracketed_ofExpression (e : Expression Numeral) : (ofExpression e).Bracketed := by
  induction e with
  | number n => trivial
  | binary op left right ihLeft ihRight =>
    refine ⟨?_, ?_, ihLeft.operand, ihRight.operand⟩
    · rw [precedence_operand]
      cases op <;> decide
    · rw [precedence_operand]
      cases op <;> decide

theorem expression_ofExpression (e : Expression Numeral) : (ofExpression e).expression = e := by
  induction e with
  | number n => rfl
  | binary op left right ihLeft ihRight =>
    rw [ofExpression, expression, expression_operand, expression_operand, ihLeft, ihRight]

end Term

/-- A default value with its parentheses. -/
structure Formula where
  term : Term
  bracketed : term.Bracketed

/-! ### Words -/

/-- A model with its names spelled and its default values bracketed. -/
abbrev WrittenModel := Model Spelling (Dotted Spelling) Formula

abbrev WrittenElement := ModelElement Spelling (Dotted Spelling) Formula

abbrev WrittenProperty := Property Spelling (Dotted Spelling) Formula

abbrev Word := TokenKind × String

abbrev keyword (text : String) : Word := (.keyword, text)

def Spelling.word (s : Spelling) : Word := (.identifier, s.image)

def Dotted.words (d : Dotted Spelling) : List Word :=
  d.first.word :: d.others.flatMap fun s => [keyword ".", s.word]

def Term.words : Term → List Word
  | number n => [(.number, n.image)]
  | binary op left right => left.words ++ keyword op.symbol :: right.words
  | parens inner => keyword "(" :: inner.words ++ [keyword ")"]

def defaultWords : Option Formula → List Word
  | some e => keyword "=" :: e.term.words
  | none => []

def superClassWords : Option (Dotted Spelling) → List Word
  | some d => keyword "extends" :: d.words
  | none => []

def Property.words (p : WrittenProperty) : List Word :=
  (if p.many then [keyword "many"] else []) ++ p.name.word :: keyword ":" :: p.type.words ++
    defaultWords p.default

namespace ModelElement

mutual

def words : WrittenElement → List Word
  | packageDecl name elements =>
    keyword "package" :: name.words ++ keyword "\x7b" :: wordsOf elements ++ [keyword "\x7d"]
  | dataTypeDecl name => [keyword "datatype", name.word]
  | classDecl name superClass members =>
    keyword "class" :: name.word :: superClassWords superClass ++
      keyword "\x7b" :: members.flatMap Property.words ++ [keyword "\x7d"]

def wordsOf : WrittenModel → List Word
  | [] => []
  | e :: rest => words e ++ wordsOf rest

end

theorem wordsOf_eq_flatMap (m : WrittenModel) : wordsOf m = m.flatMap words := by
  induction m with
  | nil => rfl
  | cons e rest ih => rw [wordsOf, ih, List.flatMap_cons]

end ModelElement

/-- The words of a written model. -/
def WrittenModel.words (m : WrittenModel) : List Word := ModelElement.wordsOf m

/-! ### Nesting -/

/-- The largest of some numbers. -/
def deepest {α : Type} (f : α → Nat) (xs : List α) : Nat := xs.foldr (fun x d => max (f x) d) 0

theorem le_deepest {α : Type} {f : α → Nat} {xs : List α} {x : α} (mem : x ∈ xs) :
    f x ≤ deepest f xs := by
  induction xs with
  | nil => cases mem
  | cons y ys ih =>
    rw [deepest, List.foldr_cons]
    rcases List.mem_cons.1 mem with rfl | mem
    · exact Nat.le_max_left _ _
    · exact Nat.le_trans (ih mem) (Nat.le_max_right _ _)

/-- A number is read by three rules, a sum, a product and a primary, and so is what stands in
parentheses. -/
def Term.nesting : Term → Nat
  | number _ => 3
  | binary _ left right => max left.nesting right.nesting
  | parens inner => inner.nesting + 3

/-- A property is read by one rule, with a rule for its type and the rules of its default value. -/
def Property.nesting (p : WrittenProperty) : Nat :=
  max 1 (p.default.elim 0 (·.term.nesting)) + 1

namespace ModelElement

mutual

/-- A package is read by two rules, a datatype or class by three, with the rules of what is in them. -/
def nesting : WrittenElement → Nat
  | packageDecl _ elements => max 1 (nestingOf elements) + 2
  | dataTypeDecl _ => 3
  | classDecl _ superClass members =>
    max (if superClass.isSome then 1 else 0) (deepest Property.nesting members) + 3

def nestingOf : WrittenModel → Nat
  | [] => 0
  | e :: rest => max (nesting e) (nestingOf rest)

end

end ModelElement

/-- How deep rules are nested in reading a written model, below the rule for the whole. -/
def WrittenModel.nesting (m : WrittenModel) : Nat := ModelElement.nestingOf m

/-! ### All words are found by the lexer -/

/-- The words that the lexer of domain models finds. -/
abbrev Found (word : Word) : Prop := Lexer.Lexes grammar.keywords word

def keywords : List String :=
  ["(", ")", "*", "+", "-", ".", "/", ":", "=", "class", "datatype", "extends", "many", "package", "\x7b",
    "\x7d"]

theorem keywords_eq : grammar.keywords = keywords := by
  decide +kernel

/-- The keywords are names and single characters. -/
theorem found_keyword {text : String} (mem : text ∈ keywords) : Found (keyword text) := by
  have plain : ∀ k ∈ keywords, Lexer.isPlain keywords k = true := by decide +kernel
  rw [Found, keywords_eq]
  exact Lexer.lexes_keyword mem (plain text mem)

theorem found_spelling (s : Spelling) : Found s.word := by
  have parts := List.all_eq_true.1 s.name.areParts
  rw [Spelling.word, Spelling.image]
  cases caret : s.caret with
  | true => exact Lexer.lexes_caret s.name.isStart parts
  | false =>
    have plain : s.name.text ∉ grammar.keywords := by
      intro mem
      rw [s.keyword mem] at caret
      cases caret
    have found : Found (if grammar.keywords.contains s.name.text then .keyword else .identifier,
        s.name.text) := Lexer.lexes_name s.name.isStart parts
    rwa [if_neg (fun known => plain (List.contains_iff_mem.1 known))] at found

theorem found_number (n : Numeral) : Found (.number, n.image) := by
  obtain ⟨wholes, fractions⟩ := List.forall_mem_append.1 (List.all_eq_true.1 n.areDigits)
  rw [Numeral.image]
  cases fraction : n.fraction with
  | nil =>
    rw [Numeral.point, List.append_nil]
    exact Lexer.lexes_whole n.isDigit wholes
  | cons d ds =>
    rw [fraction] at fractions
    obtain ⟨first, others⟩ := List.forall_mem_cons.1 fractions
    exact Lexer.lexes_fraction n.isDigit wholes first others

theorem Dotted.found (d : Dotted Spelling) : ∀ word ∈ d.words, Found word := by
  refine List.forall_mem_cons.2 ⟨found_spelling d.first, ?_⟩
  intro word mem
  obtain ⟨s, -, mem⟩ := List.mem_flatMap.1 mem
  rcases List.mem_pair.1 mem with rfl | rfl
  · exact found_keyword (by decide)
  · exact found_spelling s

theorem Operator.found (op : Operator) : Found (keyword op.symbol) := by
  cases op <;> exact found_keyword (by decide)

theorem Term.found (t : Term) : ∀ word ∈ t.words, Found word := by
  induction t with
  | number n => exact List.forall_mem_singleton.2 (found_number n)
  | binary op left right ihLeft ihRight =>
    exact List.forall_mem_append.2 ⟨ihLeft, List.forall_mem_cons.2 ⟨op.found, ihRight⟩⟩
  | parens inner ih =>
    refine List.forall_mem_append.2 ⟨List.forall_mem_cons.2 ⟨?_, ih⟩, List.forall_mem_singleton.2 ?_⟩
    · exact found_keyword (by decide)
    · exact found_keyword (by decide)

theorem Property.found (p : WrittenProperty) :
    ∀ word ∈ p.words, Found word := by
  have colon : Found (keyword ":") := found_keyword (by decide)
  rw [Property.words, List.append_assoc, List.forall_mem_append, List.cons_append,
    List.forall_mem_cons, List.cons_append, List.forall_mem_cons, List.forall_mem_append]
  refine ⟨?_, found_spelling p.name, colon, p.type.found, ?_⟩
  · cases p.many with
    | true => exact List.forall_mem_singleton.2 (found_keyword (by decide))
    | false => exact nofun
  · cases p.default with
    | none => exact nofun
    | some e => exact List.forall_mem_cons.2 ⟨found_keyword (by decide), e.term.found⟩

namespace ModelElement

mutual

theorem found : ∀ e : WrittenElement, ∀ word ∈ e.words, Found word
  | packageDecl name elements => by
    have package : Found (keyword "package") := found_keyword (by decide)
    have opening : Found (keyword "\x7b") := found_keyword (by decide)
    have closing : Found (keyword "\x7d") := found_keyword (by decide)
    simp only [words, List.cons_append, List.forall_mem_cons, List.forall_mem_append]
    exact ⟨package, ⟨name.found, opening, foundAll elements⟩, closing, nofun⟩
  | dataTypeDecl name => by
    have dataType : Found (keyword "datatype") := found_keyword (by decide)
    simp only [words, List.forall_mem_cons]
    exact ⟨dataType, found_spelling name, nofun⟩
  | classDecl name superClass members => by
    have cls : Found (keyword "class") := found_keyword (by decide)
    have opening : Found (keyword "\x7b") := found_keyword (by decide)
    have closing : Found (keyword "\x7d") := found_keyword (by decide)
    simp only [words, List.cons_append, List.forall_mem_cons, List.forall_mem_append]
    refine ⟨cls, found_spelling name, ⟨?_, opening, ?_⟩, closing, nofun⟩
    · cases superClass with
      | none => exact nofun
      | some super => exact List.forall_mem_cons.2 ⟨found_keyword (by decide), super.found⟩
    · intro word mem
      obtain ⟨p, -, mem⟩ := List.mem_flatMap.1 mem
      exact p.found word mem

theorem foundAll : ∀ m : WrittenModel, ∀ word ∈ wordsOf m, Found word
  | [] => nofun
  | e :: rest => by
    rw [wordsOf, List.forall_mem_append]
    exact ⟨found e, foundAll rest⟩

end

end ModelElement

/-! ### Every model can be written -/

/-- A model as it is meant: names without carets, and default values without parentheses. -/
abbrev PlainModel := Model Identifier (Dotted Identifier) (Expression Numeral)

/-- The model that is written. -/
def WrittenModel.plain (w : WrittenModel) : PlainModel :=
  Model.map Spelling.name (Dotted.map Spelling.name) (·.term.expression) w

/-- The name with a caret if it is a keyword. -/
def Identifier.spelled (i : Identifier) : Spelling where
  name := i
  caret := decide (i.text ∈ grammar.keywords)
  keyword := fun mem => decide_eq_true mem

/-- The default value with parentheses around all operands. -/
def Formula.ofExpression (e : Expression Numeral) : Formula :=
  ⟨Term.ofExpression e, Term.bracketed_ofExpression e⟩

/-- One way to write a model. -/
def PlainModel.written (m : PlainModel) : WrittenModel :=
  Model.map Identifier.spelled (Dotted.map Identifier.spelled) Formula.ofExpression m

theorem PlainModel.plain_written (m : PlainModel) : m.written.plain = m := by
  have dotted : Dotted.map Spelling.name ∘ Dotted.map Identifier.spelled = id := by
    funext d
    simp [Dotted.map, Function.comp_def, Identifier.spelled]
  have formula : (fun f : Formula => f.term.expression) ∘ Formula.ofExpression = id := by
    funext e
    exact Term.expression_ofExpression e
  rw [WrittenModel.plain, PlainModel.written, Model.map, Model.map, ModelElement.mapAll_mapAll, dotted,
    formula]
  exact ModelElement.mapAll_id m

/-- The contents of a model: the texts of its names and the values of its numbers. -/
def PlainModel.content (m : PlainModel) : Model String String (Expression Float) :=
  Model.map Identifier.text Dotted.text (Expression.map Numeral.value) m

end Workbench.DomainModel
