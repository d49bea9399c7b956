import Workbench.Proofs.Parser.Assigned
import Workbench.Proofs.Parser.Correspondence
import Workbench.Proofs.Parser.Meaning

/-!
**The items of a list and their trees.**

A feature that is only appended to holds a list, whose items were added one by one, in several invocations
perhaps, and joined. The trees that are found for the feature were marked one by one, too. That the items
and the trees correspond, each item to the tree that it was built from, is a law: an assignment adds one of
each, and an unassigned call joins both in the same order. So the text of the item of a number is found
under that number, whatever errors the text has.
-/

namespace Workbench

open SourceTree State

/-! ### Trees below trees -/

namespace SourceTree

variable {feature : String} {u : SourceTree}

mutual

theorem exists_at?_of_mem_withFeature :
    ∀ t : SourceTree, u ∈ withFeature feature t → ∃ p, t.at? p = some u
  | leaf token assigned, mem => by
    rw [withFeature] at mem
    split at mem
    · exact ⟨[], congrArg some (List.mem_singleton.1 mem).symm⟩
    · cases mem
  | branch rule assigned range owner children, mem => by
    rw [withFeature] at mem
    split at mem
    · exact ⟨[], congrArg some (List.mem_singleton.1 mem).symm⟩
    · split at mem
      · cases mem
      · obtain ⟨i, p, below⟩ := (occurs_children (t := branch rule assigned range owner children)).1
          (occurs_of_mem_withFeatureOf children mem)
        exact ⟨i :: p, below⟩

theorem occurs_of_mem_withFeatureOf :
    ∀ trees : List SourceTree, u ∈ withFeatureOf feature trees → Occurs u trees
  | [], mem => by simp at mem
  | t :: rest, mem => by
    rw [withFeatureOf_cons, List.mem_append] at mem
    rcases mem with here | later
    · obtain ⟨p, below⟩ := exists_at?_of_mem_withFeature t here
      exact ⟨t, List.mem_cons_self, p, below⟩
    · obtain ⟨v, mem, p, below⟩ := occurs_of_mem_withFeatureOf rest later
      exact ⟨v, List.mem_cons_of_mem _ mem, p, below⟩

end

/-- What is assigned to a feature stands below. -/
theorem exists_at?_of_mem_assignedTo {t : SourceTree} (mem : u ∈ t.assignedTo feature) :
    ∃ p, t.at? p = some u := by
  obtain ⟨i, p, below⟩ := occurs_children.1 (occurs_of_mem_withFeatureOf t.children mem)
  exact ⟨i :: p, below⟩

end SourceTree

/-! ### Defaults of a list -/

/-- A feature that is not declared as a truth value gets no default but the empty list. -/
theorem State.get?_withDefaults_of_unflagged {types : TypeHierarchy} {type : TypeId} {name : String}
    (unflagged : (name, .bool) ∉ types.allProperties type) (p : Properties) :
    (withDefaults types type p).get? name = p.get? name ∨
      p.get? name = none ∧ (withDefaults types type p).get? name = some (.list []) := by
  unfold withDefaults
  generalize types.allProperties type = entries at unflagged
  induction entries generalizing p with
  | nil => exact .inl rfl
  | cons entry rest ih =>
    obtain ⟨other, kind⟩ := entry
    rw [List.mem_cons, not_or] at unflagged
    have later := fun p => ih p unflagged.2
    rw [List.foldl_cons]
    dsimp only
    split
    · exact later p
    · next absent =>
      cases kind with
      | value => exact later p
      | bool =>
        have differ : name ≠ other := fun same => unflagged.1 (by rw [same])
        have given := later (p.set other (.bool false))
        rwa [p.get?_set_ne differ] at given
      | array =>
        have given := later (p.set other (.list []))
        by_cases same : name = other
        · subst same
          rw [← Properties.get?_isSome_iff, Option.not_isSome_iff_eq_none] at absent
          rw [p.get?_set_self] at given
          exact .inr ⟨absent, given.elim id And.right⟩
        · rwa [p.get?_set_ne same] at given

/-! ### The law of lists -/

/-- The tree is what the item was built from by an element that is assigned to the feature. -/
def Itemized (g : Grammar) (feature : String) (references : Array Reference) (item : Value)
    (tree : SourceTree) : Prop :=
  ∃ e, g.Assigns feature .append e ∧ StandsFor g references feature e tree item

/-- The feature holds one item for each tree, built from it. -/
def Listed (g : Grammar) (feature : String) (references : Array Reference) (value : Option Value)
    (trees : List SourceTree) : Prop :=
  ∃ items, (value = some (.list items) ∨ value = none ∧ items = []) ∧
    List.Forall₂ (Itemized g feature references) items trees

/-- The feature is written by appending only, never by an action, and declared as a truth value nowhere. -/
structure Grammar.Appends (g : Grammar) (feature : String) : Prop where
  appended : ∀ op value, g.Contains (.assign feature op value) → op = .append
  unwrapped : ∀ type op, ¬ g.Contains (.action type (some (feature, op)))
  unflagged : ∀ type, (feature, .bool) ∉ g.types.allProperties type

/-- Whether an element writes the feature by appending only. -/
def Element.onlyAppends (feature : String) : Element → Bool
  | .assign other op _ => other != feature || op == .append
  | .action _ (some (other, _)) => other != feature
  | _ => true

/-- That a feature is only appended to can be checked. -/
theorem Grammar.appends_of_check {g : Grammar} {feature : String}
    (places : (g.rules.all fun rule =>
      (rule.body.places []).all fun place => place.1.onlyAppends feature) = true)
    (declared : (g.types.properties.all fun entries => !entries.contains (feature, .bool)) = true) :
    g.Appends feature where
  appended op value stands := by simpa [Element.onlyAppends] using stands.checked places
  unwrapped type op stands := by simpa [Element.onlyAppends] using stands.checked places
  unflagged type mem := by
    unfold TypeHierarchy.allProperties at mem
    cases found : g.types.properties[type]? with
    | none =>
      rw [found] at mem
      cases mem
    | some entries =>
      rw [found, Option.getD_some] at mem
      have lacks := Array.all_eq_true'.1 declared entries (Array.mem_of_getElem? found)
      simp [mem] at lacks

theorem law_listed {g : Grammar} {feature : String} (typed : g.Typed) (appends : g.Appends feature) :
    Law g feature (Listed g feature) where
  grows kept := by
    rintro ⟨items, value, built⟩
    exact ⟨items, value, built.imp fun _ _ ⟨e, assigns, yields⟩ => ⟨e, assigns, yields.mono kept⟩⟩
  nothing := ⟨[], .inr ⟨rfl, rfl⟩, .nil⟩
  writes {references v trees op e tree x} assigns yields := by
    rintro ⟨items, value, built⟩
    obtain ⟨whole, stands⟩ := assigns.exists_assign
    obtain rfl := appends.appended op whole stands
    have grown : List.Forall₂ (Itemized g feature references) (items ++ [x]) (trees ++ [tree]) :=
      List.rel_append built (.cons ⟨e, assigns, yields⟩ .nil)
    rcases value with rfl | ⟨rfl, rfl⟩
    · exact ⟨_, .inl rfl, grown⟩
    · exact ⟨_, .inl rfl, grown⟩
  joins := by
    rintro references v w trees more ⟨items, value, built⟩ ⟨others, value', built'⟩
    refine ⟨items ++ others, ?_, List.rel_append built built'⟩
    rcases value with rfl | ⟨rfl, rfl⟩ <;> rcases value' with rfl | ⟨rfl, rfl⟩ <;>
      simp [Properties.merged]
  defaults {references p trees} type := by
    rintro ⟨items, value, built⟩
    rcases get?_withDefaults_of_unflagged (appends.unflagged type) p with same | ⟨absent, default⟩
    · exact ⟨items, by rwa [same], built⟩
    · rw [absent] at value
      obtain rfl : items = [] := by simpa using value
      exact ⟨[], .inl default, built⟩
  drops untyped := absurd typed untyped
  fulfils untyped := absurd typed untyped
  unwrapped := appends.unwrapped

/-! ### Parses -/

/-- The tree is the one that the item was built from: a node has it for its source tree, a reference was
made from it, and a text or a number is what it stands for. -/
structure Ast.Traces (g : Grammar) (feature : String) (a : Ast) (item : Value) (tree : SourceTree) :
    Prop where
  itemized : Itemized g feature a.references item tree
  node : ∀ id, item = .node id → ∃ n, a.node? id = some n ∧ n.source = some tree
  reference : ∀ id, item = .reference id → ∃ r, a.reference? id = some r ∧ r.source = tree

namespace Parser

/-- **The items of a list have their trees in order.** If every parser rule declares a type and a feature is
only appended to, then in every parse the feature of a node with a source tree has one item for each tree
found for it, the tree of the same number is the one that the item was built from, and its range is the one
reported for the item. -/
theorem traces_parse (p : Parser) {feature : String} (typed : p.grammar.Typed)
    (appends : p.grammar.Appends feature) (keywords : List String) (text : String) {id : NodeId}
    {n : AstNode} {source : SourceTree}
    (found : (p.parse (Lexer.tokenize keywords text)).ast.node? id = some n)
    (has : n.source = some source) :
    ∃ items, (n.get? feature = some (.list items) ∨ n.get? feature = none ∧ items = []) ∧
      (source.assignedTo feature).length = items.length ∧
      ∀ i item, items[i]? = some item → ∃ tree, (source.assignedTo feature)[i]? = some tree ∧
        (p.parse (Lexer.tokenize keywords text)).ast.Traces p.grammar feature item tree ∧
        (p.parse (Lexer.tokenize keywords text)).ast.propertyRange? id feature (some i) =
          some tree.range := by
  obtain ⟨items, value, built⟩ := p.abides_parse (law_listed typed appends) _ id n found
  have trees : n.assigned feature = source.assignedTo feature := by
    rw [AstNode.assigned, has]
    rfl
  rw [trees] at built
  refine ⟨items, value, built.length_eq.symm, fun i item here => ?_⟩
  obtain ⟨bound, rfl⟩ := List.getElem?_eq_some_iff.1 here
  have bound' : i < (source.assignedTo feature).length := built.length_eq ▸ bound
  have itemized : Itemized p.grammar feature (p.parse (Lexer.tokenize keywords text)).ast.references
      items[i] (source.assignedTo feature)[i] := List.Forall₂.get built bound bound'
  obtain ⟨e, assigns, stands⟩ := itemized
  refine ⟨_, List.getElem?_eq_getElem bound',
    ⟨⟨e, assigns, stands⟩, fun child isNode => ?_, fun r isReference => ?_⟩, ?_⟩
  · -- the tree of the child stands in the source tree of the document
    have corresponds := p.corresponds_parse keywords text
    obtain ⟨q, below⟩ := exists_at?_of_mem_assignedTo (List.getElem_mem bound')
    obtain ⟨around, above, -⟩ := (corresponds.source_iff id source).1 ⟨n, found, has⟩
    refine (corresponds.source_iff child _).2 ⟨around ++ q, ?_, stands.owner_of_node isNode⟩
    rw [at?_append, above, Option.bind_some, below]
  · exact stands.exists_reference isReference
  · rw [Ast.propertyRange?, found]
    simp [AstNode.propertyRange?, has, List.getElem?_eq_getElem bound']

/-- Items on a shelf may be renamed, and more of them may come in groups. -/
def cratesBody : Element :=
  .repetition .zeroOrMore (.alternatives [.assign "items" .append (.call 2), .call 1])

/-- A grammar whose rule for more items is called without an assignment. -/
def cratesGrammar : Grammar where
  name := "Crates"
  types := (TypeHierarchy.build [⟨"Crates", [], [("items", .array)]⟩,
    ⟨"Item", [], [("name", .value)]⟩]).toOption.get (by decide +kernel)
  rules := #[
    ⟨"Crates", .parser (some 0), cratesBody⟩,
    ⟨"More", .parser (some 0), .group [.keyword "more",
      .repetition .oneOrMore (.assign "items" .append (.call 2))]⟩,
    ⟨"Item", .parser (some 1), .group [.keyword "item", .assign "name" .set (.call 3),
      .repetition .optional (.group [.keyword "as", .assign "name" .set (.call 3)])]⟩,
    ⟨"ID", .terminal .identifier .id, .group []⟩]
  entry := 0
  entryRule := ⟨"Crates", .parser (some 0), cratesBody⟩
  entryType := 0
  entry_eq := rfl
  entry_kind := rfl
  faultless := by decide +kernel

def crates : Parser where
  grammar := cratesGrammar
  limits := {}
  lookahead := .of cratesGrammar
  lookahead_eq := rfl
  not_leftRecursive := by decide +kernel

/-- Three items, two of them from a rule called without an assignment, and a stray word. -/
def threeItems : LexResult := Lexer.tokenize ["as", "item", "more"] "item a more item b oops item c"

/-- They have their trees in order. -/
theorem traces_parse_threeItems :
    ∃ n source items, (crates.parse threeItems).ast.node? 2 = some n ∧ n.source = some source ∧
      n.get? "items" = some (.list items) ∧ items.length = 3 ∧
      (source.assignedTo "items").length = items.length ∧
      ∀ i item, items[i]? = some item → ∃ tree, (source.assignedTo "items")[i]? = some tree ∧
        (crates.parse threeItems).ast.Traces cratesGrammar "items" item tree ∧
        (crates.parse threeItems).ast.propertyRange? 2 "items" (some i) = some tree.range := by
  have count : ((crates.parse threeItems).ast.node? 2).map (fun n =>
      (n.source.isSome, ((n.get? "items").bind Value.list?).map List.length)) = some (true, some 3) := by
    decide +kernel
  obtain ⟨n, found, shape⟩ := Option.map_eq_some_iff.1 count
  obtain ⟨sourced, three⟩ := Prod.mk.inj shape
  obtain ⟨source, has⟩ := Option.isSome_iff_exists.1 sourced
  have appends : crates.grammar.Appends "items" :=
    Grammar.appends_of_check (by decide +kernel) (by decide +kernel)
  obtain ⟨items, value, length, traced⟩ := traces_parse crates (by decide +kernel) appends
    ["as", "item", "more"] "item a more item b oops item c" found has
  rcases value with value | ⟨absent, -⟩
  · refine ⟨n, source, items, found, has, value, ?_, length, traced⟩
    simpa [value, Value.list?] using three
  · rw [absent] at three
    cases three

end Parser

end Workbench
