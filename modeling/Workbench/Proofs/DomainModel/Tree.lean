import Workbench.Proofs.DomainModel.Rules
import Workbench.Proofs.Parser.WellFormed

/-!
**The trees of domain models.**

At the end of a document its draft is made the root, and then nothing but the root is loose. So all nodes are
whole and hang in the tree, and all references are held by a node, whatever tokens were skipped or missed.
-/

namespace Workbench

/-! ### Trees from which nothing is lost -/

namespace Ast

variable {a : Ast} {types : TypeHierarchy}

theorem holds_of_kept (kept : a.arena.Kept { parts := [.node a.root] }) {x : Part} (has : a.arena.Has x)
    (other : x ≠ .node a.root) : a.arena.Holds x := by
  refine (kept.parts x has).resolve_right fun some => ?_
  rw [Arena.Loose.count_part_ne other.symm] at some
  exact Nat.lt_irrefl _ some

/-- If nothing but the root is loose, every node hangs in the tree. -/
theorem reachable_of_kept (sound : a.arena.Sound types) (kept : a.arena.Kept { parts := [.node a.root] })
    {id : NodeId} (bound : id < a.nodes.size) : a.Reachable id := by
  induction sound.grounded id with
  | @intro id above ih =>
    by_cases top : id = a.root
    · exact top ▸ .root
    · obtain ⟨holder, n, found, mem⟩ := holds_of_kept kept (x := .node id) bound (by simpa using top)
      obtain ⟨place, isPlace, rfl⟩ := place?_of_mem_parts sound found mem
      refine .child (ih place isPlace (Array.getElem?_eq_some_iff.1 found).1) ?_
      rw [contents, node?, show a.nodes[place.holder]? = some n from found]
      exact AstNode.mem_contents_iff.2 mem

end Ast

namespace DomainModel

open Arena State Interpreter

/-! ### The end of a document -/

/-- What holds of the tree of a domain model: nothing is lost but for the root, all nodes are whole, and no
feature comes up twice. -/
structure Standing (a : Ast) : Prop where
  domain : a.types = types
  wellFormed : a.WellFormed
  rooted : a.Rooted
  sound : a.arena.Sound types
  sturdy : Sturdy a.arena { parts := [.node a.root] }
  root : HasType a.arena [modelType] a.root
  distinct : ∀ (id : NodeId) n, a.nodes[id]? = some n → n.properties.Distinct

variable {plan : Plan} {s : State}

/-- A draft of a model is finished into a tree. -/
theorem standing_finish (fits : Fits plan) (intact : Intact plan {} s) (model : Modelling s) (sane : s.Sane) :
    Standing (Parser.finish plan s).2 := by
  have owned : ∀ tree ∈ s.stream.hiddenFront.map (SourceTree.leaf · none), tree.OwnedBelow s.nodes.size := by
    simpa using fun token _ => SourceTree.OwnedBelow.leaf _ token none
  have wellFormed := Parser.wellFormed_finish intact.toTidy
  have rooted := Parser.rooted_finish intact.toTidy
  have flushed : Intact plan {} s.flushHidden := intact.attach owned
  have calm : Calm none s s.flushHidden := .attach fun feature _ => by simp
  obtain ⟨o, sketch, -⟩ := lasting_draft.calm calm model
  have sane : s.flushHidden.Sane := sane.of_same rfl rfl
  have whole : ∀ tree ∈ some (Parser.wholeTree plan s.flushHidden),
      tree.OwnedBelow s.flushHidden.nodes.size := by
    rintro _ ⟨⟩
    exact .branch nofun flushed.toTidy.children
  have made := made_construct fits (some (Parser.wholeTree plan s.flushHidden)) flushed.sound
    (flushed.toTidy.object sketch.content) (sturdy_object flushed sketch.content) whole
    (sketch.complete (by decide) nofun fun id feature => by
      simp only [treesOf, SourceTree.assignedTo, Option.map_some, Option.getD_some,
        SourceTree.children_withOwner]
      rfl)
  have distinct : ∀ j : NodeId, ∀ n ∈ (s.flushHidden.construct plan modelType o.properties o.slot
      (some (Parser.wholeTree plan s.flushHidden))).1.nodes[j]?, n.properties.Distinct :=
    Sane.nodes_construct sane.nodes modelType (sane.object o sketch.content) (sane.slot o sketch.content) _
  have root : Parser.constructRoot plan s.flushHidden =
      s.flushHidden.construct plan modelType o.properties o.slot
        (some (Parser.wholeTree plan s.flushHidden)) := by
    unfold Parser.constructRoot Parser.currentObject
    rw [sketch.content]
    dsimp only
    rw [sketch.typed]
    rfl
  rw [Parser.finish_eq] at wellFormed rooted ⊢
  rw [← root] at made distinct
  obtain ⟨m, found, isType, -⟩ := made.node
  have sound := made.sound
  rw [fits.hierarchy] at sound
  exact ⟨fits.hierarchy, wellFormed, rooted, sound, made.sturdy,
    ⟨m, found, List.mem_singleton.2 isType⟩, distinct⟩

/-- **Whatever the text, its tree stands**: no node and no reference gets lost, and all nodes are whole. -/
theorem standing_parse (limits : Limits) (text : String) :
    Standing ((parser limits).parseText text).ast := by
  unfold Parser.parseText
  generalize lexedEq : (parser limits).tokenize text = lexed
  rw [Parser.parse_eq]
  have fits : Fits ((parser limits).planFor lexed) := ⟨rfl, lookahead_eq⟩
  have intact : Intact ((parser limits).planFor lexed) {} ((parser limits).opened lexed) := by
    refine ⟨(parser limits).tidy_opened lexed, fun t mem => ?_, ?_⟩
    · have lexedToken := mem_of_mem_cutAfter mem
      rw [← lexedEq] at lexedToken
      exact legible_of_mem_tokenize lexedToken
    · have nothing : ∀ x, ¬Arena.Has ⟨#[], #[]⟩ x := by
        intro x has
        cases x <;> exact Nat.not_lt_zero _ has
      exact ⟨⟨fun x has => absurd has (nothing x), nofun⟩, nofun⟩
  have blank : Blank (some modelType) ((parser limits).opened lexed) := ⟨rfl, fun _ => rfl⟩
  obtain ⟨carries, model⟩ := runEntry_spec fits (supply_invoke fits (limits.maxRuleDepth - 1))
    (((parser limits).opened lexed).stream.count + 1) intact (blank.draft [])
  exact standing_finish fits carries.intact model
    (((parser limits).reaches_ended lexed).sane ((parser limits).sane_opened lexed))

/-! ### Features of whole nodes -/

/-- The types of the nodes right below a node. -/
def childTypes (type : TypeId) : List TypeId := (features type).flatMap (·.2.nodeTypes)

/-- The types of which nodes are made. -/
def concreteTypes : List TypeId :=
  [modelType, packageType, dataTypeType, classType, propertyType, expressionType, binaryType,
    numberLiteralType]

theorem childTypes_subset (type : TypeId) : childTypes type ⊆ concreteTypes := by
  by_cases declared : type < 10
  · have all : ∀ type < 10, childTypes type ⊆ concreteTypes := by decide
    exact all type declared
  · obtain ⟨k, rfl⟩ := Nat.exists_eq_add_of_le' (Nat.le_of_not_lt declared)
    exact List.nil_subset _

/-! ### The shape of a tree -/

namespace Standing

variable {a : Ast} {id : NodeId} {n : AstNode}

theorem whole (h : Standing a) (found : a.node? id = some n) : Whole a.arena n :=
  h.sturdy.whole id n found (by simp)

theorem reachable (h : Standing a) (found : a.node? id = some n) : a.Reachable id :=
  Ast.reachable_of_kept h.sound h.sturdy.toKept (Array.getElem?_eq_some_iff.1 found).1

/-- What is held under a feature of a type is of the kind of that feature. -/
theorem admits (h : Standing a) (kind : FeatureKind) (found : a.node? id = some n) {type : TypeId}
    (isType : n.type = type) {feature : String} (listed : (features type).lookup feature = some kind)
    {v : Value} (held : n.get? feature = some v) : kind.Admits a.arena v := by
  subst isType
  obtain ⟨kind', listed', admits⟩ := (h.whole found).kinds feature v held
  obtain rfl := Option.some.inj (listed.symm.trans listed')
  exact admits

/-- A feature that its type needs is held. -/
theorem admits_needed (h : Standing a) (feature : String) (found : a.node? id = some n) {type : TypeId}
    (isType : n.type = type) {kind : FeatureKind} (listed : (features type).lookup feature = some kind)
    (needed : feature ∈ needs type) : ∃ v, n.get? feature = some v ∧ kind.Admits a.arena v := by
  subst isType
  obtain ⟨v, held⟩ := Option.isSome_iff_exists.1 ((h.whole found).needed feature needed)
  exact ⟨v, held, h.admits _ found rfl listed held⟩

/-- A list or truth value is held. -/
theorem admits_default (h : Standing a) (feature : String) (found : a.node? id = some n) {type : TypeId}
    (isType : n.type = type) {kind : FeatureKind} (listed : (features type).lookup feature = some kind)
    (declared : (feature, PropertyKind.array) ∈ propertyTable[type]?.getD [] ∨
      (feature, PropertyKind.bool) ∈ propertyTable[type]?.getD []) :
    ∃ v, n.get? feature = some v ∧ kind.Admits a.arena v := by
  subst isType
  obtain ⟨m, found', defaults⟩ := h.wellFormed.defaults id (h.reachable found)
  obtain rfl : m = n := Option.some.inj (found'.symm.trans found)
  rw [h.domain, TypeHierarchy.allProperties, properties_eq] at defaults
  have isHeld : (m.get? feature).isSome = true := by
    rcases declared with array | bool
    · exact defaults _ array (.inl rfl)
    · exact defaults _ bool (.inr rfl)
  obtain ⟨v, held⟩ := Option.isSome_iff_exists.1 isHeld
  exact ⟨v, held, h.admits _ found rfl listed held⟩

/-- Every name of a domain model is a text, and it is not empty. -/
theorem text_of_name (h : Standing a) (found : a.node? id = some n) {v : Value}
    (held : n.get? "name" = some v) : ∃ s, v = .text s ∧ s ≠ "" := by
  obtain ⟨kind, listed, admits⟩ := (h.whole found).kinds "name" v held
  have named : kind = .name ∨ kind = .path := by
    generalize n.type = type at listed
    unfold features at listed
    split at listed <;> simp_all [List.lookup_cons]
  rcases named with rfl | rfl
  · obtain ⟨s, rfl, some, -⟩ := admits
    exact ⟨s, rfl, some⟩
  · exact admits

/-- A part of a node is held under one of its features. -/
theorem exists_feature (h : Standing a) (found : a.node? id = some n) {x : Part}
    (mem : x ∈ n.properties.parts) : ∃ feature v kind, n.get? feature = some v ∧ x ∈ v.parts ∧
      (features n.type).lookup feature = some kind ∧ kind.Admits a.arena v := by
  obtain ⟨⟨feature, v⟩, entry, mem⟩ := List.mem_flatMap.1 mem
  have held : n.get? feature = some v := (h.distinct id n found).get?_of_mem entry
  obtain ⟨kind, listed, admits⟩ := (h.whole found).kinds feature v held
  exact ⟨feature, v, kind, held, mem, listed, admits⟩

theorem hasType_child (h : Standing a) (found : a.node? id = some n) {c : NodeId} (mem : c ∈ n.contents) :
    HasType a.arena (childTypes n.type) c := by
  obtain ⟨feature, v, kind, -, mem, listed, admits⟩ :=
    h.exists_feature found (AstNode.mem_contents_iff.1 mem)
  obtain ⟨m, found', typed⟩ : HasType a.arena kind.nodeTypes c := by
    rcases admits.parts_cases mem with ⟨_, _, _, -, -, absurd, -⟩ | ⟨_, same, typed⟩
    · cases absurd
    · cases same
      exact typed
  obtain ⟨front, back, eq, -⟩ := List.lookup_eq_some_iff.1 listed
  refine ⟨m, found', List.mem_flatMap.2 ⟨(feature, kind), ?_, typed⟩⟩
  rw [eq]
  simp

/-- No node is of an abstract type. -/
theorem type_mem_concreteTypes (h : Standing a) (found : a.node? id = some n) : n.type ∈ concreteTypes := by
  have typed : ∀ {types}, HasType a.arena types id → n.type ∈ types := by
    rintro types ⟨m, found', mem⟩
    exact Option.some.inj (found'.symm.trans found) ▸ mem
  cases h.reachable found with
  | root =>
    rw [List.mem_singleton.1 (typed h.root)]
    decide
  | @child holder _ above mem =>
    obtain ⟨m, holding, mem⟩ := Ast.exists_node_of_mem_contents mem
    exact childTypes_subset _ (typed (h.hasType_child holding mem))

end Standing

/-- A tree as the types of domain models describe it. -/
structure Shapely (a : Ast) : Prop where
  root : HasType a.arena [modelType] a.root
  concrete : ∀ id n, a.node? id = some n → n.type ∈ concreteTypes
  elements : ∀ id n, a.node? id = some n → n.type = modelType ∨ n.type = packageType →
    ∃ items, n.get? "elements" = some (.list items) ∧
      ∀ item ∈ items, ∃ c, item = .node c ∧ HasType a.arena [packageType, dataTypeType, classType] c
  members : ∀ id n, a.node? id = some n → n.type = classType →
    ∃ items, n.get? "members" = some (.list items) ∧
      ∀ item ∈ items, ∃ c, item = .node c ∧ HasType a.arena [propertyType] c
  superClass : ∀ id n, a.node? id = some n → n.type = classType → ∀ v, n.get? "superClass" = some v →
    ∃ r q, v = .reference r ∧ a.reference? r = some q ∧ q.target = classType
  many : ∀ id n, a.node? id = some n → n.type = propertyType → ∃ b, n.get? "many" = some (.bool b)
  type : ∀ id n, a.node? id = some n → n.type = propertyType → ∀ v, n.get? "type" = some v →
    ∃ r q, v = .reference r ∧ a.reference? r = some q ∧ q.target = typeType
  default : ∀ id n, a.node? id = some n → n.type = propertyType → ∀ v, n.get? "default" = some v →
    ∃ c, v = .node c ∧ HasType a.arena expressionTypes c
  /-- An expression that is not there yet has no properties. -/
  hole : ∀ id n, a.node? id = some n → n.type = expressionType → n.properties.entries = []
  number : ∀ id n, a.node? id = some n → n.type = numberLiteralType → ∃ x, n.get? "value" = some (.number x)
  operator : ∀ id n, a.node? id = some n → n.type = binaryType →
    ∃ op ∈ ["+", "-", "*", "/"], n.get? "op" = some (.text op)
  left : ∀ id n, a.node? id = some n → n.type = binaryType →
    ∃ c, n.get? "left" = some (.node c) ∧ HasType a.arena expressionTypes c
  right : ∀ id n, a.node? id = some n → n.type = binaryType → ∀ v, n.get? "right" = some v →
    ∃ c, v = .node c ∧ HasType a.arena expressionTypes c
  name : ∀ id n, a.node? id = some n → ∀ v, n.get? "name" = some v → ∃ s, v = .text s

theorem Standing.shapely {a : Ast} (h : Standing a) : Shapely a where
  root := h.root
  concrete _ _ found := h.type_mem_concreteTypes found
  elements id n found isType := by
    obtain ⟨v, held, items, rfl, each⟩ : ∃ v, n.get? "elements" = some v ∧
        (FeatureKind.nodes elementTypes).Admits a.arena v := by
      rcases isType with model | package
      · exact h.admits_default "elements" found model rfl (.inl (by decide))
      · exact h.admits_default "elements" found package rfl (.inl (by decide))
    exact ⟨items, held, each⟩
  members id n found isType := by
    obtain ⟨v, held, items, rfl, each⟩ :=
      h.admits_default "members" found isType rfl (.inl (by decide))
    exact ⟨items, held, each⟩
  superClass id n found isType v held :=
    h.admits (.reference classType) found isType rfl held
  many id n found isType := by
    obtain ⟨v, held, b, rfl⟩ :=
      h.admits_default "many" found isType rfl (.inr (by decide))
    exact ⟨b, held⟩
  type id n found isType v held :=
    h.admits (.reference typeType) found isType rfl held
  default id n found isType v held :=
    h.admits (.node expressionTypes) found isType rfl held
  hole id n found isType := by
    refine List.eq_nil_iff_forall_not_mem.2 fun ⟨feature, v⟩ mem => ?_
    obtain ⟨kind, listed, -⟩ := (h.whole found).kinds feature v ((h.distinct id n found).get?_of_mem mem)
    rw [isType] at listed
    cases listed
  number id n found isType := by
    obtain ⟨v, held, x, rfl⟩ := h.admits_needed "value" found isType rfl (by decide)
    exact ⟨x, held⟩
  operator id n found isType := by
    obtain ⟨v, held, op, mem, rfl⟩ := h.admits_needed "op" found isType rfl (by decide)
    exact ⟨op, mem, held⟩
  left id n found isType := by
    obtain ⟨v, held, c, rfl, typed⟩ := h.admits_needed "left" found isType rfl (by decide)
    exact ⟨c, held, typed⟩
  right id n found isType v held :=
    h.admits (.node expressionTypes) found isType rfl held
  name id n found v held := by
    obtain ⟨s, rfl, -⟩ := h.text_of_name found held
    exact ⟨s, rfl⟩

/-- **Every text gives a domain model of the right shape**, however malformed it is and whatever the limits
are. -/
theorem shapely_parse (limits : Limits) (text : String) :
    Shapely ((parser limits).parseText text).ast :=
  (standing_parse limits text).shapely

end DomainModel

end Workbench
