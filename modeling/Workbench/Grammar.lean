import Workbench.Token
import Workbench.TypeHierarchy
import Workbench.Value.Conversion

/-!
**Grammars.**

A grammar is a list of rules over a type hierarchy. A *parser rule* builds a node, a *terminal rule*
matches one token of a kind, and a *data-type rule* combines tokens into one text or number. Bodies
are built from keywords, rule calls, assignments to features, actions, groups, alternatives and
repetitions; a cross-reference may stand only as the value of an assignment.

Rules are declared in a `Draft` first and defined afterwards, so that bodies can call each other.
`Draft.build` checks the draft and yields a `Grammar`; a grammar carries the fact that the check has passed,
so what the check rules out cannot occur in any grammar. The drafts are those of a `GrammarBuilder`, and a
body is checked as by `BodyCheck`, element by element.
-/

namespace Workbench

/-- A rule, by its place in the grammar's list of rules. -/
abbrev RuleId := Nat

/-- How an assignment changes its feature: overwrite it, set it to true, or append to it. -/
inductive AssignOp where
  | set
  | flag
  | append
deriving DecidableEq, Repr

namespace AssignOp

def all : List AssignOp := [set, flag, append]

/-- How the assignment is written in a grammar. -/
def symbol : AssignOp → String
  | set => "="
  | flag => "?="
  | append => "+="

end AssignOp

/-- How often an element may occur. -/
inductive Cardinality where
  | optional
  | zeroOrMore
  | oneOrMore
deriving DecidableEq, Repr

namespace Cardinality

def all : List Cardinality := [optional, zeroOrMore, oneOrMore]

/-- How the repetition is written in a grammar. -/
def symbol : Cardinality → String
  | optional => "?"
  | zeroOrMore => "*"
  | oneOrMore => "+"

end Cardinality

/-- The building blocks of rule bodies. -/
inductive Element where
  | keyword (text : String)
  | call (rule : RuleId)
  | assign (feature : String) (op : AssignOp) (value : Element)
  /-- The text of `rule` names a node of type `target`. -/
  | crossRef (target : TypeId) (rule : RuleId)
  /-- Gives the current node a type; with a feature, wraps the current node in a new one. -/
  | action (type : TypeId) (into : Option (String × AssignOp))
  | group (items : List Element)
  | alternatives (items : List Element)
  | repetition (cardinality : Cardinality) (item : Element)
deriving Repr, Inhabited

/-- The kinds of rules. -/
inductive RuleKind where
  | parser (returns : Option TypeId)
  | terminal (token : TokenKind) (value : ValueKind)
  | dataType (value : ValueKind)
deriving DecidableEq, Repr

namespace RuleKind

def isParser : RuleKind → Bool
  | parser _ => true
  | _ => false

def isDataType : RuleKind → Bool
  | dataType _ => true
  | _ => false

/-- The token kind of a terminal rule. -/
def terminal? : RuleKind → Option TokenKind
  | terminal token _ => some token
  | _ => none

theorem terminal?_eq_none {kind : RuleKind}
    (h : ∀ token value, kind = .terminal token value → False) : kind.terminal? = none := by
  cases kind with
  | terminal token value => exact (h token value rfl).elim
  | _ => rfl

end RuleKind

/-- A rule with its body. The body of a terminal rule is the empty group. -/
structure Rule where
  name : String
  kind : RuleKind
  body : Element
deriving Repr

/-! ### Faults -/

/-- What may be wrong with a rule body. -/
inductive BodyFault where
  | emptyKeyword
  | unknownRule (id : RuleId)
  | unknownType (id : TypeId)
  | emptyAlternatives
  | strayCrossRef
  | unassignable
  | parserCallInData (rule : String)
  | assignmentInData
  | actionInData
  | parserAsReferenceText (rule : String)
deriving DecidableEq, Repr

def BodyFault.message : BodyFault → String
  | .emptyKeyword => "empty keyword"
  | .unknownRule id => "call to unknown rule " ++ toString id
  | .unknownType id => "unknown type #" ++ toString id
  | .emptyAlternatives => "empty alternatives"
  | .strayCrossRef => "cross-references are only valid inside assignments"
  | .unassignable =>
    "an assignment value must be a keyword, rule call, cross-reference or alternatives of those"
  | .parserCallInData rule => "data-type rule cannot call parser rule '" ++ rule ++ "'"
  | .assignmentInData => "data-type rules cannot contain assignments"
  | .actionInData => "data-type rules cannot contain actions"
  | .parserAsReferenceText rule =>
    "cross-reference text rule '" ++ rule ++ "' must be a terminal or data-type rule"

/-- Why a draft is no grammar, or a grammar cannot be parsed with. -/
inductive GrammarFault where
  | unknownType (name : String)
  | entryMissing
  | entryUntyped (rule : String)
  | undefinedRule (rule : String)
  | inRule (rule : String) (fault : BodyFault)
  | leftRecursive (rule : String)
deriving DecidableEq, Repr

def GrammarFault.toFailure : GrammarFault → Failure
  | .unknownType name => { kind := .grammar, message := "unknown type '" ++ name ++ "'" }
  | .entryMissing => { kind := .grammar, message := "entry rule is not part of this grammar" }
  | .entryUntyped rule =>
    { kind := .grammar
      message := "entry rule '" ++ rule ++ "' must be a parser rule with a declared type" }
  | .undefinedRule rule =>
    { kind := .grammar, message := "rule '" ++ rule ++ "' is declared but never defined" }
  | .inRule rule fault =>
    { kind := .grammar, message := fault.message, context := some ("in rule " ++ rule) }
  | .leftRecursive rule =>
    { kind := .grammar, message := "rule '" ++ rule ++ "' is left-recursive" }

/-! ### Checking bodies -/

namespace Element

/-- The fault of a call to a rule that does not exist (`known_rule`). -/
def callFault (rules : Array Rule) (id : RuleId) : Option BodyFault :=
  if id < rules.size then none else some (.unknownRule id)

/-- The fault of a type that does not exist (`known_type`). -/
def typeFault (types : TypeHierarchy) (id : TypeId) : Option BodyFault :=
  if id < types.size then none else some (.unknownType id)

/-- The name of a parser rule. -/
def parserName? (rules : Array Rule) (id : RuleId) : Option String :=
  match rules[id]? with
  | some rule => if rule.kind.isParser then some rule.name else none
  | none => none

mutual

/-- The first fault of an element of a rule body; `inData` tells a data-type rule (`element`). -/
def fault? (rules : Array Rule) (types : TypeHierarchy) (inData : Bool) :
    Element → Option BodyFault
  | keyword text => if text.isEmpty then some .emptyKeyword else none
  | call id =>
    (callFault rules id).or <|
      if inData then (parserName? rules id).map .parserCallInData else none
  | assign _ _ value =>
    if inData then some .assignmentInData else assignedFault? rules types value
  | crossRef _ _ => some .strayCrossRef
  | action type _ => if inData then some .actionInData else typeFault types type
  | group items => listFault? rules types inData items
  | alternatives items =>
    if items.isEmpty then some .emptyAlternatives else listFault? rules types inData items
  | repetition _ item => fault? rules types inData item

/-- The first fault of the elements of a list. -/
def listFault? (rules : Array Rule) (types : TypeHierarchy) (inData : Bool) :
    List Element → Option BodyFault
  | [] => none
  | item :: rest =>
    (fault? rules types inData item).or (listFault? rules types inData rest)

/-- The first fault of the value of an assignment (`assignable`). -/
def assignedFault? (rules : Array Rule) (types : TypeHierarchy) : Element → Option BodyFault
  | keyword text => if text.isEmpty then some .emptyKeyword else none
  | call id => callFault rules id
  | crossRef target id =>
    (typeFault types target).or <| (callFault rules id).or <|
      (parserName? rules id).map .parserAsReferenceText
  | alternatives items =>
    if items.isEmpty then some .unassignable else assignedListFault? rules types items
  | _ => some .unassignable

/-- The first fault of the alternatives of an assignment. -/
def assignedListFault? (rules : Array Rule) (types : TypeHierarchy) :
    List Element → Option BodyFault
  | [] => none
  | item :: rest =>
    (assignedFault? rules types item).or (assignedListFault? rules types rest)

end

mutual

/-- The keywords of an element, in order (`keywords`). -/
def keywords : Element → List String
  | keyword text => [text]
  | assign _ _ value => keywords value
  | group items => keywordsOf items
  | alternatives items => keywordsOf items
  | repetition _ item => keywords item
  | call _ | crossRef _ _ | action _ _ => []

/-- The keywords of the elements of a list, in order. -/
def keywordsOf : List Element → List String
  | [] => []
  | item :: rest => keywords item ++ keywordsOf rest

end

end Element

/-- The fault of one rule, if it has one. -/
def Rule.fault? (rules : Array Rule) (types : TypeHierarchy) (rule : Rule) : Option GrammarFault :=
  (rule.body.fault? rules types rule.kind.isDataType).map (.inRule rule.name)

/-- Inserts into a sorted list without repetitions. -/
def insertSorted (s : String) : List String → List String
  | [] => [s]
  | t :: rest =>
    if s = t then t :: rest
    else if s < t then s :: t :: rest
    else t :: insertSorted s rest

/-- The keywords of some rules, sorted, without repetitions. -/
def sortedKeywords (rules : Array Rule) : List String :=
  (rules.toList.flatMap (·.body.keywords)).foldl (fun acc k => insertSorted k acc) []

/-! ### Grammars -/

/-- A checked grammar. -/
structure Grammar where
  name : String
  types : TypeHierarchy
  rules : Array Rule
  entry : RuleId
  entryRule : Rule
  entryType : TypeId
  entry_eq : rules[entry]? = some entryRule
  entry_kind : entryRule.kind = .parser (some entryType)
  faultless : ∀ rule ∈ rules, rule.fault? rules types = none

namespace Grammar

/-- The keywords of the grammar, sorted. -/
def keywords (g : Grammar) : List String := sortedKeywords g.rules

/-- The first rule of a name (`rule_by_name`). -/
def ruleId? (g : Grammar) (name : String) : Option RuleId :=
  g.rules.findIdx? (·.name == name)

/-- The token kind of a rule, if it is a terminal rule. -/
def terminal? (g : Grammar) (id : RuleId) : Option TokenKind :=
  g.rules[id]?.bind (·.kind.terminal?)

end Grammar

/-! ### Drafts -/

/-- A rule under construction. Until it is defined, its body is the empty group. -/
structure DraftRule where
  rule : Rule
  defined : Bool

/-- A grammar under construction (`GrammarBuilder`). -/
structure Draft where
  name : String
  types : TypeHierarchy
  drafted : Array DraftRule

namespace Draft

def new (name : String) (types : TypeHierarchy) : Draft := ⟨name, types, #[]⟩

/-- The type of a given name (`type_id`). -/
def typeId (d : Draft) (name : String) : Except GrammarFault TypeId :=
  match d.types.id? name with
  | some id => .ok id
  | none => .error (.unknownType name)

/-- Adds a rule without a body (`push`). -/
def declare (d : Draft) (name : String) (kind : RuleKind) (defined : Bool) : Draft × RuleId :=
  ({ d with drafted := d.drafted.push ⟨⟨name, kind, .group []⟩, defined⟩ }, d.drafted.size)

/-- Declares a parser rule (`declare_parser`). -/
def declareParser (d : Draft) (name : String) (returns : Option String) :
    Except GrammarFault (Draft × RuleId) := do
  let type ← returns.mapM d.typeId
  return d.declare name (.parser type) false

/-- Declares a terminal rule (`declare_terminal`). It needs no body. -/
def declareTerminal (d : Draft) (name : String) (token : TokenKind) (value : ValueKind) :
    Draft × RuleId :=
  d.declare name (.terminal token value) true

/-- Declares a data-type rule (`declare_data_type`). -/
def declareData (d : Draft) (name : String) (value : ValueKind) : Draft × RuleId :=
  d.declare name (.dataType value) false

/-- Gives a rule its body (`define`). For a rule that does not exist, nothing happens. -/
def define (d : Draft) (id : RuleId) (body : Element) : Draft :=
  { d with drafted := d.drafted.modify id fun r => ⟨{ r.rule with body }, true⟩ }

/-- The rules drafted so far. -/
def rules (d : Draft) : Array Rule := d.drafted.map (·.rule)

/-- The fault of a drafted rule: it has no body, or its body has a fault. -/
def ruleFault? (d : Draft) (r : DraftRule) : Option GrammarFault :=
  if r.defined then r.rule.fault? d.rules d.types else some (.undefinedRule r.rule.name)

/-- The first fault of the rules in order. -/
def firstFault? (d : Draft) : Option GrammarFault :=
  d.drafted.toList.findSome? d.ruleFault?

theorem faultless_of_firstFault? {d : Draft} (h : d.firstFault? = none) :
    ∀ rule ∈ d.rules, rule.fault? d.rules d.types = none := by
  intro rule hrule
  obtain ⟨r, hr, rfl⟩ := Array.mem_map.1 hrule
  have hnone := List.findSome?_eq_none_iff.1 h r (Array.mem_toList_iff.2 hr)
  unfold ruleFault? at hnone
  split at hnone
  · exact hnone
  · cases hnone

/-- Checks the draft (`build`). -/
def build (d : Draft) (entry : RuleId) : Except GrammarFault Grammar :=
  match entry_eq : d.rules[entry]? with
  | none => .error .entryMissing
  | some entryRule =>
    match entry_kind : entryRule.kind with
    | .parser (some entryType) =>
      match hfault : d.firstFault? with
      | some fault => .error fault
      | none =>
        .ok {
          name := d.name
          types := d.types
          rules := d.rules
          entry, entryRule, entryType, entry_eq, entry_kind
          faultless := faultless_of_firstFault? hfault }
    | _ => .error (.entryUntyped entryRule.name)

end Draft

end Workbench
