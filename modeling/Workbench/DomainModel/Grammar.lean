import Workbench.Parser

/-!
**The grammar of domain models.**

A domain model declares packages, datatypes and classes. A class has properties, each with a type and
an optional default: an arithmetic expression over numbers.

```text
Domainmodel:        elements+=AbstractElement*
AbstractElement:    PackageDeclaration | Type
PackageDeclaration: 'package' name=QualifiedName '{' elements+=AbstractElement* '}'
Type:               DataType | Class
DataType:           'datatype' name=ID
Class:              'class' name=ID ('extends' superClass=[Class:QualifiedName])?
                    '{' members+=Property* '}'
Property:           many?='many'? name=ID ':' type=[Type:QualifiedName] ('=' default=Addition)?
Addition:           Multiplication ({Binary.left=current} op=('+'|'-') right=Multiplication)*
Multiplication:     Primary ({Binary.left=current} op=('*'|'/') right=Primary)*
Primary:            '(' Addition ')' | {NumberLiteral} value=NUMBER
QualifiedName:      ID ('.' ID)*
```
-/

namespace Workbench.DomainModel

/-- The node types of a domain model (`types`). -/
def typeDecls : List TypeDecl :=
  [⟨"Domainmodel", [], [("elements", .array)]⟩,
    ⟨"AbstractElement", [], [("name", .value)]⟩,
    ⟨"PackageDeclaration", ["AbstractElement"], [("elements", .array)]⟩,
    ⟨"Type", ["AbstractElement"], []⟩,
    ⟨"DataType", ["Type"], []⟩,
    ⟨"Class", ["Type"], [("superClass", .value), ("members", .array)]⟩,
    ⟨"Property", [],
      [("many", .bool), ("name", .value), ("type", .value), ("default", .value)]⟩,
    ⟨"Expression", [], []⟩,
    ⟨"Binary", ["Expression"], [("left", .value), ("op", .value), ("right", .value)]⟩,
    ⟨"NumberLiteral", ["Expression"], [("value", .value)]⟩]

/-! ### Types and rules by number -/

abbrev modelType : TypeId := 0
abbrev packageType : TypeId := 2
abbrev typeType : TypeId := 3
abbrev dataTypeType : TypeId := 4
abbrev classType : TypeId := 5
abbrev propertyType : TypeId := 6
abbrev expressionType : TypeId := 7
abbrev binaryType : TypeId := 8
abbrev numberLiteralType : TypeId := 9

abbrev modelRule : RuleId := 0
abbrev elementRule : RuleId := 1
abbrev packageRule : RuleId := 2
abbrev typeRule : RuleId := 3
abbrev dataTypeRule : RuleId := 4
abbrev classRule : RuleId := 5
abbrev propertyRule : RuleId := 6
abbrev additionRule : RuleId := 7
abbrev multiplicationRule : RuleId := 8
abbrev primaryRule : RuleId := 9
abbrev qualifiedNameRule : RuleId := 10
abbrev nameRule : RuleId := 11
abbrev numberRule : RuleId := 12

/-! ### Rules -/

/-- A left-associative chain of operands with operators between them. -/
def chain (operand : RuleId) (operators : List String) : Element :=
  .group [.call operand,
    .repetition .zeroOrMore (.group [
      .action binaryType (some ("left", .set)),
      .assign "op" .set (.alternatives (operators.map .keyword)),
      .assign "right" .set (.call operand)])]

/-- The rules of a domain model (`grammar`). -/
def rules : Array Rule := #[
  ⟨"Domainmodel", .parser (some modelType),
    .repetition .zeroOrMore (.assign "elements" .append (.call elementRule))⟩,
  ⟨"AbstractElement", .parser none, .alternatives [.call packageRule, .call typeRule]⟩,
  ⟨"PackageDeclaration", .parser (some packageType), .group [
    .keyword "package",
    .assign "name" .set (.call qualifiedNameRule),
    .keyword "\x7b",
    .repetition .zeroOrMore (.assign "elements" .append (.call elementRule)),
    .keyword "\x7d"]⟩,
  ⟨"Type", .parser none, .alternatives [.call dataTypeRule, .call classRule]⟩,
  ⟨"DataType", .parser (some dataTypeType), .group [
    .keyword "datatype",
    .assign "name" .set (.call nameRule)]⟩,
  ⟨"Class", .parser (some classType), .group [
    .keyword "class",
    .assign "name" .set (.call nameRule),
    .repetition .optional (.group [
      .keyword "extends",
      .assign "superClass" .set (.crossRef classType qualifiedNameRule)]),
    .keyword "\x7b",
    .repetition .zeroOrMore (.assign "members" .append (.call propertyRule)),
    .keyword "\x7d"]⟩,
  ⟨"Property", .parser (some propertyType), .group [
    .repetition .optional (.assign "many" .flag (.keyword "many")),
    .assign "name" .set (.call nameRule),
    .keyword ":",
    .assign "type" .set (.crossRef typeType qualifiedNameRule),
    .repetition .optional (.group [
      .keyword "=",
      .assign "default" .set (.call additionRule)])]⟩,
  ⟨"Addition", .parser (some expressionType), chain multiplicationRule ["+", "-"]⟩,
  ⟨"Multiplication", .parser (some expressionType), chain primaryRule ["*", "/"]⟩,
  ⟨"Primary", .parser (some expressionType), .alternatives [
    .group [.keyword "(", .call additionRule, .keyword ")"],
    .group [.action numberLiteralType none, .assign "value" .set (.call numberRule)]]⟩,
  ⟨"QualifiedName", .dataType .text, .group [
    .call nameRule,
    .repetition .zeroOrMore (.group [.keyword ".", .call nameRule])]⟩,
  ⟨"ID", .terminal .identifier .id, .group []⟩,
  ⟨"NUMBER", .terminal .number .number, .group []⟩]

/-! ### The checked grammar

The declarations and rules pass all checks; evaluating the checks shows it. -/

theorem typeDecls_build : (TypeHierarchy.build typeDecls).toOption.isSome = true := by
  decide +kernel

/-- The type hierarchy of a domain model. -/
def types : TypeHierarchy := (TypeHierarchy.build typeDecls).toOption.get typeDecls_build

theorem rules_faultless : ∀ rule ∈ rules, rule.fault? rules types = none := by
  decide +kernel

/-- The grammar of domain models. -/
def grammar : Grammar where
  name := "Domainmodel"
  types := types
  rules := rules
  entry := modelRule
  entryRule :=
    ⟨"Domainmodel", .parser (some modelType),
      .repetition .zeroOrMore (.assign "elements" .append (.call elementRule))⟩
  entryType := modelType
  entry_eq := rfl
  entry_kind := rfl
  faultless := rules_faultless

theorem grammar_not_leftRecursive : (Lookahead.of grammar).leftRecursive? grammar = none := by
  have h : ((Lookahead.of grammar).leftRecursive? grammar).isNone = true := by decide +kernel
  exact Option.isNone_iff_eq_none.1 h

/-- The parser of domain models under the given limits. -/
def parser (limits : Limits) : Parser :=
  ⟨grammar, limits, Lookahead.of grammar, rfl, grammar_not_leftRecursive⟩

end Workbench.DomainModel
