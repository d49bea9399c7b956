import Workbench.Proofs.DomainModel.Expressions
import Workbench.Proofs.Parser.Growth

/-!
**The shape of domain models.**

Each type of node has its features, and each feature holds values of one kind. A node is *whole* if all that
it holds is of the right kind, what it cannot do without is there, and the first tree that was assigned to a
reference in its source is the source of that reference. Whole nodes stay whole while other nodes are built.
-/

namespace Workbench.DomainModel

open Arena State

/-! ### Features -/

/-- What a feature holds. -/
inductive FeatureKind where
  | name
  | path
  | operator
  | number
  | flag
  | reference (target : TypeId)
  | node (types : List TypeId)
  | nodes (types : List TypeId)
deriving DecidableEq

/-- What packages hold. -/
def elementTypes : List TypeId := [packageType, dataTypeType, classType]

def expressionTypes : List TypeId := [expressionType, binaryType, numberLiteralType]

/-- The features of the nodes of a type. -/
def features : TypeId → List (String × FeatureKind)
  | 0 => [("elements", .nodes elementTypes)]
  | 2 => [("name", .path), ("elements", .nodes elementTypes)]
  | 4 => [("name", .name)]
  | 5 => [("name", .name), ("superClass", .reference classType), ("members", .nodes [propertyType])]
  | 6 => [("many", .flag), ("name", .name), ("type", .reference typeType),
      ("default", .node expressionTypes)]
  | 8 => [("left", .node expressionTypes), ("op", .operator), ("right", .node expressionTypes)]
  | 9 => [("value", .number)]
  | _ => []

/-- The features without which no node of a type is built. Lists and flags are added where they are
missing. -/
def needs : TypeId → List String
  | 8 => ["left", "op"]
  | 9 => ["value"]
  | _ => []

/-- The kind of property that a feature is declared as. -/
def FeatureKind.declared : FeatureKind → PropertyKind
  | flag => .bool
  | nodes _ => .array
  | _ => .value

/-- The node is there, and has one of the types. -/
def HasType (a : Arena) (types : List TypeId) (id : NodeId) : Prop :=
  ∃ n, a.nodes[id]? = some n ∧ n.type ∈ types

/-- A value of the kind. -/
def FeatureKind.Admits (a : Arena) : FeatureKind → Value → Prop
  | name, v => ∃ s, v = .text s ∧ s ≠ "" ∧ '.' ∉ s.toList
  | path, v => ∃ s, v = .text s ∧ s ≠ ""
  | operator, v => ∃ s ∈ ["+", "-", "*", "/"], v = .text s
  | number, v => ∃ x, v = .number x
  | flag, v => ∃ b, v = .bool b
  | reference target, v => ∃ id r, v = .reference id ∧ a.references[id]? = some r ∧ r.target = target
  | node types, v => ∃ id, v = .node id ∧ HasType a types id
  | nodes types, v => ∃ items, v = .list items ∧ ∀ item ∈ items, ∃ id, item = .node id ∧ HasType a types id

/-- The types of the nodes that a feature holds. -/
def FeatureKind.nodeTypes : FeatureKind → List TypeId
  | node types => types
  | nodes types => types
  | _ => []

/-- What an admitted value has for parts: itself if it is a reference, or nodes of the types of its feature. -/
theorem FeatureKind.Admits.parts_cases {a : Arena} {kind : FeatureKind} {v : Value} (h : kind.Admits a v)
    {x : Part} (mem : x ∈ v.parts) :
    (∃ target id r, kind = .reference target ∧ v = .reference id ∧ x = .reference id ∧
      a.references[id]? = some r ∧ r.target = target) ∨
    ∃ id, x = .node id ∧ HasType a kind.nodeTypes id := by
  cases kind with
  | name => obtain ⟨s, rfl, -⟩ := h; cases mem
  | path => obtain ⟨s, rfl, -⟩ := h; cases mem
  | operator => obtain ⟨s, -, rfl⟩ := h; cases mem
  | number => obtain ⟨y, rfl⟩ := h; cases mem
  | flag => obtain ⟨b, rfl⟩ := h; cases mem
  | reference target =>
    obtain ⟨id, r, rfl, found, asked⟩ := h
    exact .inl ⟨target, id, r, rfl, rfl, List.mem_singleton.1 mem, found, asked⟩
  | node types =>
    obtain ⟨id, rfl, typed⟩ := h
    exact .inr ⟨id, List.mem_singleton.1 mem, typed⟩
  | nodes types =>
    obtain ⟨items, rfl, each⟩ := h
    obtain ⟨item, inside, isPart⟩ := List.mem_filterMap.1 mem
    obtain ⟨id, rfl, typed⟩ := each item inside
    cases isPart
    exact .inr ⟨id, rfl, typed⟩

/-- What a type adds to a node is of the right kind. -/
theorem admits_initial (a : Arena) {type : TypeId} (declared : type < 10) {feature : String} {v : Value}
    (initial : (types.propertyKind type feature).bind PropertyKind.initial? = some v) :
    ∃ kind, (features type).lookup feature = some kind ∧ kind.Admits a v := by
  have agree : ∀ type < 10, ∀ entry ∈ propertyTable[type]?.getD [], entry.2 = .value ∨
      ((features type).lookup entry.1).map FeatureKind.declared = some entry.2 := by decide
  obtain ⟨kind, known, added⟩ := Option.bind_eq_some_iff.1 initial
  rw [propertyKind_eq] at known
  obtain ⟨front, back, listed, -⟩ := List.lookup_eq_some_iff.1 known
  have mem : (feature, kind) ∈ propertyTable[type]?.getD [] := by
    rw [listed]
    simp
  rcases agree type declared _ mem with plain | same
  · dsimp only at plain
    rw [plain] at added
    cases added
  · obtain ⟨found, isFound, same⟩ := Option.map_eq_some_iff.1 same
    refine ⟨found, isFound, ?_⟩
    subst same
    cases found <;> cases added
    · exact ⟨_, rfl⟩
    · exact ⟨[], rfl, nofun⟩

/-! ### Whole nodes -/

section

variable {a b : Arena} {type : TypeId} {p : Properties} {trees : String → List SourceTree}

/-- All that is held under a feature is of its kind, and what was assigned to a reference leads back to it. -/
structure Filled (a : Arena) (type : TypeId) (p : Properties) (trees : String → List SourceTree) : Prop where
  kinds : ∀ feature v, p.get? feature = some v →
    ∃ kind, (features type).lookup feature = some kind ∧ kind.Admits a v
  sources : ∀ feature id, p.get? feature = some (.reference id) →
    ∃ r, a.references[id]? = some r ∧ (trees feature).head? = some r.source

/-- The trees assigned to a feature of a node. -/
def treesOf (source : Option SourceTree) (feature : String) : List SourceTree :=
  (source.map (·.assignedTo feature)).getD []

/-- A node with all that its type asks for. -/
structure Whole (a : Arena) (n : AstNode) : Prop extends Filled a n.type n.properties (treesOf n.source) where
  needed : ∀ feature ∈ needs n.type, (n.get? feature).isSome = true

theorem HasType.mono {types : List TypeId} {id : NodeId} (h : HasType a types id) (grows : a.Preserves b) :
    HasType b types id := by
  obtain ⟨n, found, mem⟩ := h
  obtain ⟨m, found', same⟩ := grows.node id n found
  exact ⟨m, found', same ▸ mem⟩

theorem FeatureKind.Admits.mono {kind : FeatureKind} {v : Value} (h : kind.Admits a v)
    (grows : a.Preserves b) : kind.Admits b v := by
  cases kind with
  | reference target =>
    obtain ⟨id, r, rfl, found, asked⟩ := h
    obtain ⟨q, found', same⟩ := grows.reference id r found
    have target : q.unplaced.target = r.unplaced.target := by rw [same]
    exact ⟨id, q, rfl, found', Eq.trans target asked⟩
  | node types =>
    obtain ⟨id, rfl, typed⟩ := h
    exact ⟨id, rfl, typed.mono grows⟩
  | nodes types =>
    obtain ⟨items, rfl, each⟩ := h
    refine ⟨items, rfl, fun item mem => ?_⟩
    obtain ⟨id, rfl, typed⟩ := each item mem
    exact ⟨id, rfl, typed.mono grows⟩
  | _ => exact h

theorem Filled.mono (h : Filled a type p trees) (grows : a.Preserves b) : Filled b type p trees where
  kinds feature v found := by
    obtain ⟨kind, listed, admits⟩ := h.kinds feature v found
    exact ⟨kind, listed, admits.mono grows⟩
  sources feature id found := by
    obtain ⟨r, found', head⟩ := h.sources feature id found
    obtain ⟨q, found'', same⟩ := grows.reference id r found'
    exact ⟨q, found'', head.trans (congrArg some (Reference.source_of_unplaced same).symm)⟩

theorem Filled.congr {trees' : String → List SourceTree} (h : Filled a type p trees)
    (same : ∀ feature, trees' feature = trees feature) : Filled a type p trees' := by
  obtain rfl : trees' = trees := funext same
  exact h

theorem filled_empty (a : Arena) (type : TypeId) (trees : String → List SourceTree) :
    Filled a type .empty trees :=
  ⟨nofun, nofun⟩

theorem Whole.mono {n : AstNode} (h : Whole a n) (grows : a.Preserves b) : Whole b n :=
  ⟨h.toFilled.mono grows, h.needed⟩

theorem Whole.of_unplaced {m n : AstNode} (h : Whole a n) (same : m.unplaced = n.unplaced) : Whole a m := by
  obtain ⟨filled, needed⟩ := h
  have type := AstNode.type_of_unplaced same
  have properties := AstNode.properties_of_unplaced same
  refine ⟨?_, ?_⟩
  · rwa [type, properties, AstNode.source_of_unplaced same]
  · unfold AstNode.get?
    rwa [type, properties]

/-- A node that is built of filled properties is whole. -/
theorem whole_builtNode (filled : Filled a type p trees) (declared : type < 10)
    (needed : ∀ feature ∈ needs type, (p.get? feature).isSome = true) {id : NodeId}
    {source : Option SourceTree} (same : ∀ feature, treesOf (source.map (·.withOwner (some id))) feature =
      trees feature) : Whole a (builtNode types type p id source) := by
  refine ⟨⟨fun feature v found => ?_, fun feature r found => ?_⟩, fun feature mem => ?_⟩
  · change (withDefaults types type p).get? feature = some v at found
    rw [get?_completed declared, Option.or_eq_some_iff] at found
    rcases found with own | ⟨-, added⟩
    · exact filled.kinds feature v own
    · exact admits_initial a declared added
  · change (withDefaults types type p).get? feature = some (.reference r) at found
    change ∃ q, _ ∧ (treesOf (source.map (·.withOwner (some id))) feature).head? = _
    rw [get?_completed declared, Option.or_eq_some_iff] at found
    rw [same]
    rcases found with own | ⟨-, added⟩
    · exact filled.sources feature r own
    · obtain ⟨kind, -, initial⟩ := Option.bind_eq_some_iff.1 added
      cases kind <;> cases initial
  · change ((withDefaults types type p).get? feature).isSome = true
    rw [get?_completed declared, Option.isSome_or, needed feature mem]
    rfl

end

/-! ### Sturdy arenas -/

/-- Nothing gets lost, and all nodes are whole but those that have given their parts to an object. -/
structure Sturdy (a : Arena) (l : Loose) : Prop extends Kept a l where
  whole : ∀ (id : NodeId) n, a.nodes[id]? = some n → id ∉ l.slots → Whole a n

namespace Sturdy

variable {a b : Arena} {l m : Loose} {id : NodeId} {n : AstNode}

theorem mono (h : Sturdy a l) (parts : ∀ x, 0 < l.count x → 0 < m.count x)
    (slots : ∀ id, id ∈ m.slots ↔ id ∈ l.slots) : Sturdy a m where
  toKept := h.toKept.mono parts fun id => (slots id).1
  whole id n found free := h.whole id n found fun mem => free ((slots id).2 mem)

theorem refer (h : Sturdy a l) (r : Reference) :
    Sturdy (a.refer r) ({ parts := [.reference a.references.size] } ++ l) where
  toKept := h.toKept.refer r
  whole id n found free := (h.whole id n found free).mono (preserves_refer a r)

theorem emptied (h : Sturdy a ({ parts := [.node id] } ++ l)) (emptied : Emptied a b id n)
    (grows : a.Preserves b) : Sturdy b ({ parts := n.properties.parts, slots := [id] } ++ l) where
  toKept := h.toKept.emptied emptied
  whole j m found free := by
    have apart : j ≠ id ∧ j ∉ l.slots := by simpa using free
    have whole := h.whole j m ((emptied.other j apart.1).symm.trans found) apart.2
    exact whole.mono grows

theorem built {p : Properties} {slot : Option NodeId}
    (h : Sturdy a ({ parts := p.parts, slots := slot.toList } ++ l)) (built : Built a b id n)
    (self : id = slot.getD a.nodes.size) (parts : ∀ x ∈ p.parts, x ∈ n.properties.parts)
    (apart : id ∉ l.slots) (type : ∀ m, a.nodes[id]? = some m → m.type = n.type) (whole : Whole a n) :
    Sturdy b ({ parts := [.node id] } ++ l) where
  toKept := h.toKept.built built self parts apart
  whole j m found free := by
    have grows := built.preserves type
    by_cases same : j = id
    · subst same
      obtain ⟨m', found', eq⟩ := built.self
      obtain rfl : m' = m := Option.some.inj (found'.symm.trans found)
      exact (whole.of_unplaced eq).mono grows
    · obtain ⟨m', found', eq⟩ := built.node same found
      have slotted : j ∉ slot.toList := by
        intro mem
        rw [Option.mem_toList] at mem
        exact same (by rw [self, mem]; rfl)
      refine ((h.whole j m' found' ?_).of_unplaced eq).mono grows
      rw [Loose.slots_append, List.mem_append]
      exact fun mem => mem.elim slotted free

end Sturdy

end Workbench.DomainModel
