import Workbench.Proofs.DomainModel.Tree
import Workbench.Proofs.Linking.Precedence
import Workbench.Proofs.Workspace.Definitions

/-!
**Scopes of domain models.**

A class or a datatype is exported under its qualified name: the names of the packages around it, from the
outside in, and its own, with points between them. If one of the packages has no name it is not exported. A
reference without a point in its text names a type that stands right below one of the nodes around it, the
nearest one that has such a type. With a point it names an exported type of the document, wherever it stands.
What is exported without a point stands right below the root, and the containers of every reference lead
there, so no reference is led past the exports of its own document.
-/

namespace Workbench

/-! ### Computations over lists -/

namespace Cancellable

variable {α β : Type}

theorem ensures_mapM_eq {f : α → Cancellable β} {g : α → β} {l : List α}
    (h : ∀ a ∈ l, Ensures (f a) (· = g a)) : Ensures (l.mapM f) (· = l.map g) := by
  induction l with
  | nil =>
    rw [List.mapM_nil]
    exact ensures_pure rfl
  | cons a l ih =>
    rw [List.mapM_cons]
    refine (h a List.mem_cons_self).bind fun b eq => ?_
    refine (ih fun a mem => h a (List.mem_cons_of_mem _ mem)).bind fun bs eqs => ensures_pure ?_
    rw [eq, eqs, List.map_cons]

end Cancellable

theorem find?_filter_of_imp {α : Type} {p q : α → Bool} {l : List α}
    (h : ∀ x ∈ l, q x = true → p x = true) : (l.filter p).find? q = l.find? q := by
  rw [← List.head?_filter, ← List.head?_filter, List.filter_filter]
  refine congrArg List.head? (List.filter_congr fun x mem => ?_)
  cases fits : q x with
  | false => rfl
  | true => rw [h x mem fits]; rfl

theorem mapM_eq_some_nil {α β : Type} {f : α → Option β} {l : List α} (h : l.mapM f = some []) : l = [] := by
  cases l with
  | nil => rfl
  | cons x rest => simp [List.mapM_cons, Option.bind_eq_some_iff] at h

namespace DomainModel

open Cancellable Scope

/-! ### What is exported -/

/-- The packages around a node, from the outside in. -/
def packagesAround (a : Ast) (id : NodeId) : List NodeId :=
  ((a.ancestors id).tail.filter (a.isA · "PackageDeclaration")).reverse

/-- The name of a node after the names of the packages around it, if all of them have one. -/
def qualifiedName? (a : Ast) (id : NodeId) : Option String := do
  let packages ← (packagesAround a id).mapM a.nameOf?
  let name ← a.nameOf? id
  return ".".intercalate (packages ++ [name])

/-- A class or datatype under its qualified name. -/
def declared? (a : Ast) (uri : DocumentUri) (id : NodeId) : Option Description :=
  if a.isA id "Class" || a.isA id "DataType" then
    (qualifiedName? a id).bind (a.describeAs uri · id)
  else none

/-- The classes and datatypes of a document under their qualified names, in document order. -/
def declarations (a : Ast) (uri : DocumentUri) : List Description :=
  a.preorder.filterMap (declared? a uri)

/-- The scopes of a document. At the root, nested types have their qualified names besides. -/
def scopes (a : Ast) (uri : DocumentUri) : LocalScopes :=
  ⟨a.preorder.filterMap (localEntry a uri) ++
    ((declarations a uri).filter (·.name.toList.contains '.')).map (a.root, ·)⟩

variable {a : Ast} {id c x : NodeId} {n : AstNode} {uri : DocumentUri} {name : String} {names : List String}
  {fuel : Nat}

theorem qualify_intercalate (filled : ∀ s ∈ names, s ≠ "") (name : String) :
    qualify (".".intercalate names) name = ".".intercalate (names ++ [name]) := by
  cases names with
  | nil => simp [qualify]
  | cons first rest =>
    have some : ".".intercalate (first :: rest) ≠ "" := by
      cases rest with
      | nil => simpa using filled first List.mem_cons_self
      | cons => simp [String.intercalate_cons_cons]
    rw [qualify, if_neg (by simpa using some), String.intercalate_append_of_ne_nil (by simp) (by simp),
      String.intercalate_singleton]

/-! ### Packages around a node -/

theorem ancestors_eq_cons (rooted : a.Rooted) (id : NodeId) : a.ancestors id = id :: (a.ancestors id).tail := by
  obtain ⟨k, eq⟩ := Nat.exists_eq_add_of_lt rooted.root_lt
  rw [Ast.ancestors, eq, Ast.ancestorsFrom]
  rfl

theorem packagesAround_root (rooted : a.Rooted) : packagesAround a a.root = [] := by
  rw [packagesAround, rooted.ancestors_root]
  rfl

/-- A child of a package has one package more around it. -/
theorem packagesAround_child (rooted : a.Rooted) (reachable : a.Reachable id) (mem : c ∈ a.contents id) :
    packagesAround a c =
      packagesAround a id ++ if a.isA id "PackageDeclaration" then [id] else [] := by
  rw [packagesAround, rooted.ancestors_child reachable mem, List.tail_cons, ancestors_eq_cons rooted,
    List.filter_cons]
  split
  · rw [List.reverse_cons]
    rfl
  · rw [List.append_nil]
    rfl

/-- The node is an unnamed package, or stands in one. -/
def Nameless (a : Ast) (id : NodeId) : Prop :=
  (packagesAround a id).mapM a.nameOf? = none ∨
    a.isA id "PackageDeclaration" = true ∧ a.nameOf? id = none

namespace Standing

variable (h : Standing a)

include h

/-! ### Types of nodes -/

theorem isA_eq (typeName : String) (type : TypeId) (known : types.id? typeName = some type)
    (found : a.node? id = some n) : a.isA id typeName = types.isSubtype n.type type := by
  unfold Ast.isA Ast.isInstance
  rw [h.domain, known]
  dsimp only
  rw [found]

theorem isA_package_iff (found : a.node? id = some n) :
    a.isA id "PackageDeclaration" = true ↔ n.type = packageType := by
  rw [h.isA_eq "PackageDeclaration" packageType (by decide +kernel) found]
  have all : ∀ type ∈ concreteTypes, types.isSubtype type packageType = true ↔ type = packageType := by
    decide +kernel
  exact all _ (h.type_mem_concreteTypes found)

theorem isA_type_iff (found : a.node? id = some n) :
    a.isA id "Type" = true ↔ n.type = classType ∨ n.type = dataTypeType := by
  rw [h.isA_eq "Type" typeType (by decide +kernel) found]
  have all : ∀ type ∈ concreteTypes,
      types.isSubtype type typeType = true ↔ type = classType ∨ type = dataTypeType := by decide +kernel
  exact all _ (h.type_mem_concreteTypes found)

theorem isA_declaration_iff (found : a.node? id = some n) :
    (a.isA id "Class" || a.isA id "DataType") = true ↔ n.type = classType ∨ n.type = dataTypeType := by
  rw [h.isA_eq "Class" classType (by decide +kernel) found,
    h.isA_eq "DataType" dataTypeType (by decide +kernel) found]
  have all : ∀ type ∈ concreteTypes,
      (types.isSubtype type classType || types.isSubtype type dataTypeType) = true ↔
        type = classType ∨ type = dataTypeType := by decide +kernel
  exact all _ (h.type_mem_concreteTypes found)

theorem exists_node (reachable : a.Reachable id) : ∃ n, a.node? id = some n := by
  obtain ⟨n, found, -⟩ := h.wellFormed.defaults id reachable
  exact ⟨n, found⟩

theorem child_hasType (found : a.node? id = some n) (mem : c ∈ a.contents id) :
    HasType a.arena (childTypes n.type) c := by
  refine h.hasType_child found ?_
  unfold Ast.contents at mem
  rwa [found] at mem

theorem contents_eq_children (found : a.node? id = some n) (holds : n.type = modelType ∨ n.type = packageType) :
    a.contents id = a.children id "elements" := by
  have only : ∀ entry ∈ n.properties.entries, entry.1 ≠ "elements" → entry.2.nodes = [] := by
    rintro ⟨feature, v⟩ mem other
    obtain ⟨kind, listed, admits⟩ := (h.whole found).kinds feature v ((h.distinct id n found).get?_of_mem mem)
    have childless : ∀ type ∈ [modelType, packageType], ∀ entry ∈ features type,
        entry.1 ≠ "elements" → entry.2.nodeTypes = [] := by decide
    obtain ⟨front, back, eq, -⟩ := List.lookup_eq_some_iff.1 listed
    have none : kind.nodeTypes = [] :=
      childless n.type (by simpa using holds) (feature, kind) (by rw [eq]; simp) other
    refine List.eq_nil_iff_forall_not_mem.2 fun c child => ?_
    rw [Value.nodes_eq, List.mem_filterMap] at child
    obtain ⟨x, part, isNode⟩ := child
    cases x <;> cases isNode
    rcases admits.parts_cases part with ⟨_, _, _, -, -, absurd, -⟩ | ⟨_, -, m, -, typed⟩
    · cases absurd
    · rw [none] at typed
      cases typed
  unfold Ast.contents Ast.children
  rw [found]
  exact (h.distinct id n found).nodes_eq only

/-! ### Names -/

theorem nameOf?_ne_empty (found : a.nameOf? id = some name) : name ≠ "" := by
  obtain ⟨n, isNode, named⟩ := Option.bind_eq_some_iff.1 found
  obtain ⟨v, held, isText⟩ := Option.bind_eq_some_iff.1 named
  obtain ⟨s, rfl, some⟩ := h.text_of_name isNode held
  obtain rfl := Option.some.inj isText
  exact some

/-- Nothing in a nameless package is exported. -/
theorem nameless_child (reachable : a.Reachable id) (nameless : Nameless a id) (mem : c ∈ a.contents id) :
    (packagesAround a c).mapM a.nameOf? = none := by
  rw [packagesAround_child h.rooted reachable mem, List.mapM_append]
  rcases nameless with around | ⟨package, unnamed⟩
  · rw [around]
    rfl
  · rw [if_pos package]
    cases (packagesAround a id).mapM a.nameOf? with
    | none => rfl
    | some names => simp [unnamed]

theorem filterMap_of_nameless (uri : DocumentUri) (fuel : Nat) (reachable : a.Reachable id)
    (nameless : Nameless a id) : (a.preorderFrom fuel id).filterMap (declared? a uri) = [] := by
  induction fuel generalizing id with
  | zero => rfl
  | succ fuel ih =>
    have here : declared? a uri id = none := by
      unfold declared? qualifiedName?
      rcases nameless with around | ⟨-, unnamed⟩
      · simp [around]
      · simp [unnamed]
    rw [Ast.preorderFrom, List.filterMap_cons_none here, List.filterMap_flatMap, List.flatMap_eq_nil_iff]
    exact fun c mem => ih (.child reachable mem) (.inl (h.nameless_child reachable nameless mem))

theorem not_isA_package (found : a.node? id = some n) (other : n.type ≠ packageType) :
    ¬a.isA id "PackageDeclaration" = true := fun isA => other ((h.isA_package_iff found).1 isA)

/-- A node of another type declares nothing. -/
theorem declared?_of_other (uri : DocumentUri) (found : a.node? id = some n) {type : TypeId}
    (typed : n.type = type) (other : ¬(type = classType ∨ type = dataTypeType)) :
    declared? a uri id = none :=
  if_neg fun isA => other (typed ▸ (h.isA_declaration_iff found).1 isA)

/-- There are no types inside of properties and expressions. -/
theorem filterMap_of_inner (uri : DocumentUri) (fuel : Nat) (reachable : a.Reachable id)
    (inner : HasType a.arena [propertyType, expressionType, binaryType, numberLiteralType] id) :
    (a.preorderFrom fuel id).filterMap (declared? a uri) = [] := by
  induction fuel generalizing id with
  | zero => rfl
  | succ fuel ih =>
    obtain ⟨n, found, mem⟩ := inner
    have apart : ∀ type ∈ [propertyType, expressionType, binaryType, numberLiteralType],
        ¬(type = classType ∨ type = dataTypeType) ∧
        childTypes type ⊆ [propertyType, expressionType, binaryType, numberLiteralType] := by decide
    obtain ⟨other, below⟩ := apart _ mem
    have here : declared? a uri id = none := if_neg fun isA => other ((h.isA_declaration_iff found).1 isA)
    rw [Ast.preorderFrom, List.filterMap_cons_none here, List.filterMap_flatMap, List.flatMap_eq_nil_iff]
    intro c mem
    obtain ⟨m, isNode, typed⟩ := h.child_hasType found mem
    exact ih (.child reachable mem) ⟨m, isNode, below typed⟩

/-- There are no types inside of a type. -/
theorem filterMap_of_declaration (uri : DocumentUri) (fuel : Nat) (reachable : a.Reachable id)
    (found : a.node? id = some n) (declared : n.type = classType ∨ n.type = dataTypeType) :
    (a.preorderFrom (fuel + 1) id).filterMap (declared? a uri) = (declared? a uri id).toList := by
  have inside : (a.contents id).flatMap (fun c => (a.preorderFrom fuel c).filterMap (declared? a uri)) =
      [] := by
    rw [List.flatMap_eq_nil_iff]
    intro c mem
    obtain ⟨m, isNode, typed⟩ := h.child_hasType found mem
    have below : childTypes n.type ⊆ [propertyType, expressionType, binaryType, numberLiteralType] := by
      rcases declared with type | type <;> rw [type] <;> decide
    exact h.filterMap_of_inner uri fuel (.child reachable mem) ⟨m, isNode, below typed⟩
  rw [Ast.preorderFrom, List.filterMap_cons, List.filterMap_flatMap, inside]
  cases declared? a uri id <;> rfl

/-- At and below an element without a name there is nothing to export. -/
theorem filterMap_of_unnamed (uri : DocumentUri) (fuel : Nat) (reachable : a.Reachable id)
    (found : a.node? id = some n)
    (type : n.type = packageType ∨ n.type = classType ∨ n.type = dataTypeType)
    (unnamed : a.nameOf? id = none) :
    (a.preorderFrom (fuel + 1) id).filterMap (declared? a uri) = [] := by
  rcases type with package | declared
  · exact h.filterMap_of_nameless uri _ reachable (.inr ⟨(h.isA_package_iff found).2 package, unnamed⟩)
  · have here : declared? a uri id = none := by
      unfold declared? qualifiedName?
      simp [unnamed]
    rw [h.filterMap_of_declaration uri fuel reachable found declared, here]
    rfl

/-- A type in packages with names is described under its qualified name. -/
theorem declared?_of_named (uri : DocumentUri) (found : a.node? id = some n)
    (declared : n.type = classType ∨ n.type = dataTypeType)
    (around : (packagesAround a id).mapM a.nameOf? = some names) (named : a.nameOf? id = some name) :
    declared? a uri id = a.describeAs uri (".".intercalate (names ++ [name])) id := by
  unfold declared? qualifiedName?
  rw [if_pos ((h.isA_declaration_iff found).2 declared), around, named]
  rfl

/-- A named package extends the names around what stands in it. -/
theorem around_child (reachable : a.Reachable id) (found : a.node? id = some n) (package : n.type = packageType)
    (around : (packagesAround a id).mapM a.nameOf? = some names) (named : a.nameOf? id = some name)
    (mem : c ∈ a.contents id) : (packagesAround a c).mapM a.nameOf? = some (names ++ [name]) := by
  rw [packagesAround_child h.rooted reachable mem, if_pos ((h.isA_package_iff found).2 package),
    List.mapM_append, around]
  simp [named]

/-! ### Exports -/

/-- The exports at and below an element whose packages have names. -/
theorem ensures_packageExports_eq (uri : DocumentUri) (fuel : Nat) (reachable : a.Reachable id)
    (element : HasType a.arena elementTypes id)
    (around : (packagesAround a id).mapM a.nameOf? = some names) (filled : ∀ s ∈ names, s ≠ "") :
    Ensures (packageExports a uri fuel (".".intercalate names) id)
      (· = (a.preorderFrom fuel id).filterMap (declared? a uri)) := by
  induction fuel generalizing id names with
  | zero => exact ensures_pure rfl
  | succ fuel ih =>
    obtain ⟨n, found, mem⟩ := element
    have type : n.type = packageType ∨ n.type = classType ∨ n.type = dataTypeType := by
      simp only [elementTypes, List.mem_cons, List.not_mem_nil, or_false] at mem
      tauto
    refine Ensures.bind (p := fun _ => True) (fun _ _ _ _ => trivial) fun _ _ => ?_
    cases named : a.nameOf? id with
    | none => exact ensures_pure (h.filterMap_of_unnamed uri fuel reachable found type named).symm
    | some name =>
      dsimp only
      rw [qualify_intercalate filled]
      have filled' : ∀ s ∈ names ++ [name], s ≠ "" := by
        intro s mem
        rcases List.mem_append.1 mem with old | new
        · exact filled s old
        · rw [List.mem_singleton.1 new]
          exact h.nameOf?_ne_empty named
      rcases type with package | declared
      · have here : declared? a uri id = none := h.declared?_of_other uri found package (by decide)
        rw [if_pos ((h.isA_package_iff found).2 package), Ast.preorderFrom, List.filterMap_cons_none here,
          List.filterMap_flatMap, ← h.contents_eq_children found (.inr package)]
        refine (ensures_mapM_eq (g := fun c => (a.preorderFrom fuel c).filterMap (declared? a uri))
          fun c mem => ?_).bind fun nested eq => ensures_pure ?_
        · obtain ⟨m, isNode, typed⟩ := h.child_hasType found mem
          rw [package] at typed
          exact ih (.child reachable mem) ⟨m, isNode, typed⟩
            (h.around_child reachable found package around named mem) filled'
        · rw [eq, ← List.flatMap_def]
      · have other : n.type ≠ packageType := by
          rcases declared with type | type <;> rw [type] <;> decide
        rw [if_neg (h.not_isA_package found other), if_pos ((h.isA_type_iff found).2 declared),
          h.filterMap_of_declaration uri fuel reachable found declared,
          h.declared?_of_named uri found declared around named]
        exact ensures_pure rfl

/-- A document exports its declarations. -/
theorem ensures_qualifiedExports_eq (uri : DocumentUri) :
    Ensures (qualifiedExports a uri) (· = declarations a uri) := by
  obtain ⟨n, found, mem⟩ := h.root
  have model : n.type = modelType := List.mem_singleton.1 mem
  have isPackage : ¬a.isA a.root "PackageDeclaration" = true :=
    h.not_isA_package found (by rw [model]; decide)
  have here : declared? a uri a.root = none := h.declared?_of_other uri found model (by decide)
  unfold qualifiedExports
  rw [← h.contents_eq_children found (.inl model)]
  refine (ensures_mapM_eq (g := fun c => (a.preorderFrom a.nodes.size c).filterMap (declared? a uri))
    fun c mem => ?_).bind fun nested eq => ensures_pure ?_
  · obtain ⟨m, isNode, typed⟩ := h.child_hasType found mem
    rw [model] at typed
    have around : (packagesAround a c).mapM a.nameOf? = some [] := by
      rw [packagesAround_child h.rooted .root mem, packagesAround_root h.rooted, if_neg isPackage]
      rfl
    exact h.ensures_packageExports_eq uri _ (.child .root mem) ⟨m, isNode, typed⟩ around nofun
  · obtain ⟨k, size⟩ := Nat.exists_eq_succ_of_ne_zero (Nat.ne_zero_of_lt h.rooted.root_lt)
    have deep : ∀ c ∈ a.contents a.root, a.preorderFrom a.nodes.size c = a.preorderFrom k c := by
      intro c mem
      rw [size]
      refine h.rooted.preorderFrom_succ (k := 1) ?_ (by omega)
      rw [Ast.climb, h.rooted.container _ c mem]
      rfl
    rw [eq, declarations, Ast.preorder, size, Ast.preorderFrom, List.filterMap_cons_none here,
      List.filterMap_flatMap, ← List.flatMap_def, ← size]
    exact List.flatMap_congr fun c mem => by rw [deep c mem]

theorem ensures_qualifiedLocal_eq (uri : DocumentUri) :
    Ensures (qualifiedLocal a uri) (· = scopes a uri) := by
  refine (ensures_directLocal_eq a uri).bind fun scopes eq => ?_
  refine (h.ensures_qualifiedExports_eq uri).bind fun exports eq' => ensures_pure ?_
  rw [eq, eq']
  rfl

end Standing

/-! ### Local scopes -/

theorem get_scopes (rooted : a.Rooted) (uri : DocumentUri) (reachable : a.Reachable id) :
    (scopes a uri).get id = below a uri id ++
      if id = a.root then (declarations a uri).filter (·.name.toList.contains '.') else [] := by
  rw [← get_localEntries a uri rooted reachable]
  unfold scopes LocalScopes.get
  rw [List.filterMap_append, List.filterMap_map]
  congr 1
  split
  · next isRoot =>
    simp only [Function.comp_def, isRoot, if_true]
    exact List.filterMap_some
  · next other =>
    simp only [Function.comp_def, if_neg (Ne.symm other)]
    simp

/-! ### What references mean -/

/-- The type that the references under a feature ask for. -/
def FeatureKind.target? : FeatureKind → Option TypeId
  | reference target => some target
  | _ => none

/-- Nothing in a document is what a reference means. -/
def Missed (a : Ast) (uri : DocumentUri) (r : Reference) : Prop :=
  ('.' ∉ r.text.toList → ∀ k c, Linking.around a r k = some c →
    ∀ e ∈ below a uri c, ¬Linking.fits a.types r.text r.target e) ∧
  ('.' ∈ r.text.toList → ∀ e ∈ declarations a uri, ¬Linking.fits a.types r.text r.target e)

/-- What a reference means, where other documents export some descriptions of its text. -/
inductive Means (a : Ast) (uri : DocumentUri) (exported : List Description) (r : Reference) :
    Resolution → Prop
  | near {k : Nat} {c : NodeId} {d : Description} (simple : '.' ∉ r.text.toList)
    (container : Linking.around a r k = some c)
    (first : (below a uri c).find? (Linking.fits a.types r.text r.target) = some d)
    (nearest : ∀ j < k, ∀ b, Linking.around a r j = some b →
      ∀ e ∈ below a uri b, ¬Linking.fits a.types r.text r.target e) :
    Means a uri exported r (.resolved d)
  | qualified {d : Description} (dotted : '.' ∈ r.text.toList)
    (first : (declarations a uri).find? (Linking.fits a.types r.text r.target) = some d) :
    Means a uri exported r (.resolved d)
  | elsewhere {d : Description} (missed : Missed a uri r)
    (smallest : Linking.FirstSmallest (exported.filter (Linking.fits a.types r.text r.target)) d) :
    Means a uri exported r (.resolved d)
  | nowhere (missed : Missed a uri r)
    (none : ∀ e ∈ exported, ¬Linking.fits a.types r.text r.target e) :
    Means a uri exported r (.unresolved (Linking.unresolvedMessage a.types r))

namespace Standing

variable (h : Standing a)

include h

/-- A reference knows the feature under which a node holds it. -/
theorem place_of_held {i : RefId} (isNode : a.node? id = some n) {feature : String}
    (held : n.get? feature = some (.reference i)) :
    ∃ r, a.reference? i = some r ∧ r.place = some ⟨id, feature, none⟩ := by
  have link : (.reference i, ⟨id, feature, none⟩) ∈ n.properties.links id :=
    List.mem_flatMap.2 ⟨_, Properties.mem_entries_of_get? held, Value.mem_links_iff.2 (.inl ⟨rfl, rfl⟩)⟩
  exact Option.bind_eq_some_iff.1 ((h.sound.nodes id n isNode).linked _ link)

/-- A reference is held by a node of the tree, alone under a feature for references. -/
theorem exists_holder {i : RefId} {r : Reference} (found : a.reference? i = some r) :
    ∃ holder n feature, a.node? holder = some n ∧ n.get? feature = some (.reference i) ∧
      (features n.type).lookup feature = some (.reference r.target) ∧
      r.place = some ⟨holder, feature, none⟩ := by
  have bound : i < a.references.size := (Array.getElem?_eq_some_iff.1 found).1
  obtain ⟨holder, n, isNode, mem⟩ := Ast.holds_of_kept h.sturdy.toKept (x := .reference i) bound nofun
  obtain ⟨feature, v, kind, held, mem, listed, admits⟩ := h.exists_feature isNode mem
  rcases admits.parts_cases mem with ⟨target, j, q, rfl, rfl, same, found', asked⟩ | ⟨_, absurd, -⟩
  · cases same
    obtain rfl : q = r := Option.some.inj (found'.symm.trans found)
    obtain ⟨q', found', placed⟩ := h.place_of_held isNode held
    obtain rfl : q = q' := Option.some.inj (found.symm.trans found')
    exact ⟨holder, n, feature, isNode, held, asked ▸ listed, placed⟩
  · cases absurd

/-- References ask for types. -/
theorem asks_type {i : RefId} {r : Reference} (found : a.reference? i = some r) :
    types.isSubtype r.target typeType = true := by
  obtain ⟨holder, n, feature, isNode, -, listed, -⟩ := h.exists_holder found
  have all : ∀ type ∈ concreteTypes, ∀ entry ∈ features type, ∀ target ∈ entry.2.target?,
      types.isSubtype target typeType = true := by decide +kernel
  obtain ⟨front, back, eq, -⟩ := List.lookup_eq_some_iff.1 listed
  exact all _ (h.type_mem_concreteTypes isNode) (feature, .reference r.target) (by rw [eq]; simp) _ rfl

/-- The name of a class or datatype is a simple one. -/
theorem simple_of_fits {i : RefId} {r : Reference} (found : a.reference? i = some r) {d : Description}
    (mem : d ∈ below a uri c) (fits : Linking.fits a.types r.text r.target d = true) :
    '.' ∉ r.text.toList := by
  obtain ⟨x, -, described⟩ := List.mem_filterMap.1 mem
  obtain ⟨name, named, described⟩ := Option.bind_eq_some_iff.1 described
  obtain ⟨n, isNode, rfl⟩ := Option.map_eq_some_iff.1 described
  obtain ⟨same, typed⟩ := Bool.and_eq_true_iff.1 fits
  obtain rfl : name = r.text := by simpa using same
  rw [h.domain] at typed
  have declared := isDeclaration_of_isSubtype typed (h.asks_type found)
  have kinds : ∀ type ∈ concreteTypes, isDeclaration type = true →
      (features type).lookup "name" = some .name := by decide +kernel
  obtain ⟨m, isNode', named⟩ := Option.bind_eq_some_iff.1 named
  obtain rfl : n = m := Option.some.inj (isNode.symm.trans isNode')
  obtain ⟨v, held, isText⟩ := Option.bind_eq_some_iff.1 named
  obtain ⟨s, rfl, -, simple⟩ := h.admits .name isNode rfl
    (kinds _ (h.type_mem_concreteTypes isNode) declared) held
  obtain rfl := Option.some.inj isText
  exact simple

/-- The containers of a reference lead to the root. -/
theorem exists_around_root {i : RefId} {r : Reference} (found : a.reference? i = some r) :
    ∃ k, Linking.around a r k = some a.root := by
  obtain ⟨holder, n, feature, isNode, -, -, placed⟩ := h.exists_holder found
  obtain ⟨k, toRoot⟩ := h.rooted.climb_of_reachable (h.reachable isNode)
  exact ⟨k, by rw [Linking.around_of_place placed]; exact toRoot⟩

/-- A reference is resolved to what it means. -/
theorem means_resolve {i : RefId} {r : Reference} (found : a.reference? i = some r) (uri : DocumentUri)
    (exported : String → List Description) :
    Means a uri (exported r.text) r (Linking.resolve a r ⟨scopes a uri, exported⟩) := by
  have enclosed := Linking.enclosed_of_wellFormed h.wellFormed (Array.mem_of_getElem? found)
  have inScope : ∀ {k c}, Linking.around a r k = some c → (scopes a uri).get c = below a uri c ++
      if c = a.root then (declarations a uri).filter (·.name.toList.contains '.') else [] := by
    intro k c isAround
    exact get_scopes h.rooted uri (h.reachable (Array.getElem?_eq_getElem (enclosed.within k c isAround)))
  -- the types with a point in their name fit only texts with a point
  have pointed : ∀ e ∈ declarations a uri, Linking.fits a.types r.text r.target e = true →
      (e.name.toList.contains '.' = true ↔ '.' ∈ r.text.toList) := by
    intro e _ fits
    obtain ⟨same, -⟩ := Bool.and_eq_true_iff.1 fits
    rw [show e.name = r.text by simpa using same]
    simp
  unfold Linking.resolve
  cases near : Linking.nearest? a r (scopes a uri) with
  | some d =>
    obtain ⟨k, c, isAround, first, nearest⟩ := Linking.nearest?_eq_some enclosed near
    rw [inScope isAround, List.find?_append, Option.or_eq_some_iff] at first
    by_cases dotted : '.' ∈ r.text.toList
    · rcases first with inside | ⟨-, nested⟩
      · exact absurd dotted (h.simple_of_fits found (List.mem_of_find?_eq_some inside)
          (List.find?_some inside))
      · refine .qualified dotted ?_
        split at nested
        · rwa [find?_filter_of_imp fun e mem fits => (pointed e mem fits).2 dotted] at nested
        · cases nested
    · refine .near dotted isAround ?_ fun j less b isAround' e mem => ?_
      · rcases first with inside | ⟨-, nested⟩
        · exact inside
        · split at nested
          · obtain ⟨mem, pointed'⟩ := List.mem_filter.1 (List.mem_of_find?_eq_some nested)
            exact absurd ((pointed d mem (List.find?_some nested)).1 pointed') dotted
          · cases nested
      · refine nearest j less b isAround' e ?_
        rw [inScope isAround']
        exact List.mem_append_left _ mem
  | none =>
    have notNear := Linking.nearest?_eq_none enclosed near
    have missed : Missed a uri r := by
      refine ⟨fun _ k c isAround e mem => notNear k c isAround e ?_, fun dotted e mem fits => ?_⟩
      · rw [inScope isAround]
        exact List.mem_append_left _ mem
      · obtain ⟨k, isAround⟩ := h.exists_around_root found
        refine notNear k a.root isAround e ?_ fits
        rw [inScope isAround, if_pos rfl]
        exact List.mem_append_right _ (List.mem_filter.2 ⟨mem, (pointed e mem fits).2 dotted⟩)
    dsimp only
    cases far : Linking.smallest ((exported r.text).filter (Linking.fits a.types r.text r.target)) with
    | some d => exact .elsewhere missed (Linking.smallest_eq_some_iff.1 far)
    | none =>
      refine .nowhere missed fun e mem fits => ?_
      have mem : e ∈ (exported r.text).filter (Linking.fits a.types r.text r.target) :=
        List.mem_filter.2 ⟨mem, fits⟩
      cases listed : (exported r.text).filter (Linking.fits a.types r.text r.target) with
      | nil => rw [listed] at mem; cases mem
      | cons d rest => rw [listed] at far; cases far

end Standing

/-! ### Documents -/

/-- **What scopes of domain models do**, for every text: the declarations are exported, and linking against
the local scopes resolves every reference to what it means, whatever other documents export. -/
theorem scopes_parse (limits : Limits) (text : String) (uri : DocumentUri) :
    (Ends ((languageWith limits).exports ((languageWith limits).parse text).ast uri) ∧
      Ensures ((languageWith limits).exports ((languageWith limits).parse text).ast uri)
        (· = declarations ((languageWith limits).parse text).ast uri)) ∧
    Ends ((languageWith limits).localScopes ((languageWith limits).parse text).ast uri) ∧
    Ensures ((languageWith limits).localScopes ((languageWith limits).parse text).ast uri) fun locals =>
      ∀ exported : String → List Description,
        Ends (Language.link ⟨locals, exported⟩ ((languageWith limits).parse text)) ∧
        Ensures (Language.link ⟨locals, exported⟩ ((languageWith limits).parse text)) fun linked =>
          ∀ i r, ((languageWith limits).parse text).ast.reference? i = some r →
            ∃ x, Means ((languageWith limits).parse text).ast uri (exported r.text) r x ∧
              linked.ast.reference? i = some { r with resolution := some x } := by
  have standing : Standing ((languageWith limits).parse text).ast := standing_parse limits text
  refine ⟨⟨(languageWith limits).scoping.ends_exports _ uri, standing.ensures_qualifiedExports_eq uri⟩,
    (languageWith limits).scoping.ends_localScopes _ uri, ?_⟩
  intro token locals rest ok exported
  obtain rfl : locals = scopes _ uri := standing.ensures_qualifiedLocal_eq uri token locals rest ok
  refine ⟨⟨_, Language.link_never (l := languageWith limits) _ text⟩, fun token linked rest ok i r found => ?_⟩
  refine ⟨_, standing.means_resolve found uri exported, ?_⟩
  obtain ⟨holder, n, feature, -, -, -, placed⟩ := standing.exists_holder found
  rw [Language.ensures_link (l := languageWith limits) _ text token linked rest ok]
  exact Linking.reference?_resolveAll _ found (by rw [placed]; rfl)

/-! ### Own exports -/

theorem pointed_intercalate (some : names ≠ []) (name : String) :
    '.' ∈ (".".intercalate (names ++ [name])).toList := by
  rw [String.intercalate_append_of_ne_nil some (by simp)]
  simp

namespace Standing

variable (h : Standing a)

include h

/-- Classes and datatypes stand right below the root or a package. -/
theorem holder_of_declaration (mem : x ∈ a.contents id) (isA : (a.isA x "Class" || a.isA x "DataType") = true)
    (reachable : a.Reachable id) : a.isA id "PackageDeclaration" = true ∨ id = a.root := by
  obtain ⟨n, found⟩ := h.exists_node reachable
  obtain ⟨m, isNode, typed⟩ := h.child_hasType found mem
  have declared := (h.isA_declaration_iff isNode).1 isA
  have holders : ∀ type ∈ concreteTypes, (∃ inner ∈ childTypes type, inner = classType ∨ inner = dataTypeType) →
      type = packageType ∨ type = modelType := by decide
  rcases holders _ (h.type_mem_concreteTypes found) ⟨_, typed, declared⟩ with package | model
  · exact .inl ((h.isA_package_iff found).2 package)
  · refine .inr ?_
    cases reachable with
    | root => rfl
    | @child holder _ above mem =>
      obtain ⟨o, holding⟩ := h.exists_node above
      obtain ⟨n', found', typed⟩ := h.child_hasType holding mem
      obtain rfl : n = n' := Option.some.inj (found.symm.trans found')
      have inside : ∀ type ∈ concreteTypes, modelType ∉ childTypes type := by decide
      rw [model] at typed
      exact absurd typed (inside _ (h.type_mem_concreteTypes holding))

/-- An exported type without a point in its name stands right below the root. -/
theorem mem_below_root {d : Description} (mem : d ∈ declarations a uri) (simple : '.' ∉ d.name.toList) :
    d ∈ below a uri a.root := by
  obtain ⟨id, inside, declared⟩ := List.mem_filterMap.1 mem
  have reachable : a.Reachable id := (h.rooted.preorder_spec.2 id).1 inside
  unfold declared? at declared
  split at declared
  · next isA =>
    obtain ⟨_, qualified, described⟩ := Option.bind_eq_some_iff.1 declared
    obtain ⟨names, around, qualified⟩ := Option.bind_eq_some_iff.1 qualified
    obtain ⟨name, named, same⟩ := Option.bind_eq_some_iff.1 qualified
    obtain rfl := Option.some.inj same
    have isName : d.name = ".".intercalate (names ++ [name]) := by
      obtain ⟨n, -, rfl⟩ := Option.map_eq_some_iff.1 described
      rfl
    obtain rfl : names = [] := not_not.1 fun some => simple (isName ▸ pointed_intercalate some name)
    have unpackaged : packagesAround a id = [] := mapM_eq_some_nil around
    cases reachable with
    | root =>
      obtain ⟨n, found, model⟩ := h.root
      have declared := (h.isA_declaration_iff found).1 isA
      rw [List.mem_singleton.1 model] at declared
      exact absurd declared (by decide)
    | @child holder _ above mem =>
      rcases h.holder_of_declaration mem isA above with package | rfl
      · rw [packagesAround_child h.rooted above mem, if_pos package] at unpackaged
        simp at unpackaged
      · refine List.mem_filterMap.2 ⟨id, mem, ?_⟩
        rw [List.nil_append, String.intercalate_singleton] at described
        rw [Ast.describe, named]
        exact described
  · cases declared

/-- No reference is led past the own exports. -/
theorem not_preempted {i : RefId} {r : Reference} (found : a.reference? i = some r) (uri : DocumentUri)
    (others : List Description) :
    ¬Linking.Preempted (declarations a uri) others a (scopes a uri) r uri := by
  intro preempted
  obtain ⟨d, mem, fits⟩ := preempted.own
  obtain ⟨k, isAround⟩ := h.exists_around_root found
  refine preempted.notNear k a.root isAround d ?_ fits
  rw [get_scopes h.rooted uri .root, if_pos rfl]
  by_cases dotted : '.' ∈ d.name.toList
  · exact List.mem_append_right _ (List.mem_filter.2 ⟨mem, by simpa using dotted⟩)
  · exact List.mem_append_left _ (h.mem_below_root mem dotted)

end Standing

/-- In domain models references are resolved in the documented order, whatever others export. -/
theorem documented_analyze (limits : Limits) (uri : DocumentUri) (text : String)
    (exported : String → List Description) (o : ValidationOptions) :
    Ensures ((languageWith limits).analyze uri text exported o) fun x =>
      ∀ i r, ((languageWith limits).parse text).ast.reference? i = some r →
        ∃ y, x.parsed.ast.reference? i = some { r with resolution := some y } ∧
          Linking.Documented x.exports (exported r.text) ((languageWith limits).parse text).ast x.locals r
            y := by
  intro token x rest ok i r found
  have standing : Standing ((languageWith limits).parse text).ast := standing_parse limits text
  have outcome := (languageWith limits).ensures_analyze uri text exported o token x rest ok
  obtain ⟨holder, n, feature, -, -, -, placed⟩ := standing.exists_holder found
  have mem : (i, r) ∈ ((languageWith limits).parse text).ast.placed :=
    (Ast.mem_placed_iff _ i r).2 ⟨found, by rw [placed]; rfl⟩
  obtain ⟨y, linked, documented, -⟩ := Linking.documented_outcome outcome mem
  refine ⟨y, linked, documented.2 ?_⟩
  have isOwn : Ensures ((languageWith limits).exports ((languageWith limits).parse text).ast uri)
      (· = declarations ((languageWith limits).parse text).ast uri) := standing.ensures_qualifiedExports_eq uri
  have inScope : Ensures ((languageWith limits).localScopes ((languageWith limits).parse text).ast uri)
      (· = scopes ((languageWith limits).parse text).ast uri) := standing.ensures_qualifiedLocal_eq uri
  rw [outcome.exports, isOwn _ _ _ ((languageWith limits).exports_never uri text),
    outcome.locals.of_ensures inScope]
  exact standing.not_preempted found uri _

end DomainModel

end Workbench
