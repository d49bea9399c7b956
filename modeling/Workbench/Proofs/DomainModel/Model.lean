import Workbench.DomainModel.Grammar
import Workbench.Proofs.Parser.Meaning
import Workbench.Proofs.Parser.WellFormed

/-!
**Domain models as data.**

A domain model is a list of packages, datatypes and classes, without a text and without a tree. How names
and default values are given is left open: a model may be about names as they are written, about names as
they are meant, or about plain texts, and a map leads from one to the other.

A model is read back from a tree by `model?`, which looks at nothing but types, properties and reference
texts, and fails where one of them is not as it should be. Each part of a model has its meaning as a node,
and a tree whose root has the meaning of a model is read back as that model.
-/

namespace Workbench.DomainModel

/-! ### Models -/

/-- The operators of default values. -/
inductive Operator where
  | add
  | sub
  | mul
  | div
deriving DecidableEq, Repr

namespace Operator

def symbol : Operator → String
  | add => "+"
  | sub => "-"
  | mul => "*"
  | div => "/"

def ofSymbol? : String → Option Operator
  | "+" => some add
  | "-" => some sub
  | "*" => some mul
  | "/" => some div
  | _ => none

/-- Operators of a higher precedence bind stronger. -/
def precedence : Operator → Nat
  | add | sub => 1
  | mul | div => 2

@[simp] theorem ofSymbol?_symbol (op : Operator) : ofSymbol? op.symbol = some op := by
  cases op <;> rfl

end Operator

/-- A default value. -/
inductive Expression (ν : Type) where
  | number (x : ν)
  | binary (op : Operator) (left right : Expression ν)
deriving DecidableEq, Repr

/-- A property of a class, with names in `ι`, names of types in `κ` and default values in `ε`. -/
structure Property (ι κ ε : Type) where
  many : Bool
  name : ι
  type : κ
  default : Option ε
deriving DecidableEq, Repr

/-- A package, datatype or class. -/
inductive ModelElement (ι κ ε : Type) where
  | packageDecl (name : κ) (elements : List (ModelElement ι κ ε))
  | dataTypeDecl (name : ι)
  | classDecl (name : ι) (superClass : Option κ) (members : List (Property ι κ ε))

/-- A domain model. -/
abbrev Model (ι κ ε : Type) := List (ModelElement ι κ ε)

section Map

variable {ν ν' ν'' ι ι' ι'' κ κ' κ'' ε ε' ε'' : Type}

def Expression.map (f : ν → ν') : Expression ν → Expression ν'
  | number x => number (f x)
  | binary op left right => binary op (left.map f) (right.map f)

def Property.map (f : ι → ι') (g : κ → κ') (h : ε → ε') (p : Property ι κ ε) : Property ι' κ' ε' where
  many := p.many
  name := f p.name
  type := g p.type
  default := p.default.map h

namespace ModelElement

mutual

def map (f : ι → ι') (g : κ → κ') (h : ε → ε') : ModelElement ι κ ε → ModelElement ι' κ' ε'
  | packageDecl name elements => packageDecl (g name) (mapAll f g h elements)
  | dataTypeDecl name => dataTypeDecl (f name)
  | classDecl name superClass members =>
    classDecl (f name) (superClass.map g) (members.map (Property.map f g h))

def mapAll (f : ι → ι') (g : κ → κ') (h : ε → ε') : Model ι κ ε → Model ι' κ' ε'
  | [] => []
  | e :: rest => map f g h e :: mapAll f g h rest

end

theorem mapAll_eq_map (f : ι → ι') (g : κ → κ') (h : ε → ε') (m : Model ι κ ε) :
    mapAll f g h m = m.map (map f g h) := by
  induction m with
  | nil => rfl
  | cons e rest ih => rw [mapAll, ih, List.map_cons]

mutual

theorem map_map (f : ι → ι') (g : κ → κ') (h : ε → ε') (f' : ι' → ι'') (g' : κ' → κ'')
    (h' : ε' → ε'') : ∀ e : ModelElement ι κ ε,
      (e.map f g h).map f' g' h' = e.map (f' ∘ f) (g' ∘ g) (h' ∘ h)
  | packageDecl name elements => by
    rw [map, map, map, mapAll_mapAll f g h f' g' h' elements]
    rfl
  | dataTypeDecl name => rfl
  | classDecl name superClass members => by
    simp [map, Property.map, Function.comp_def]

theorem mapAll_mapAll (f : ι → ι') (g : κ → κ') (h : ε → ε') (f' : ι' → ι'') (g' : κ' → κ'')
    (h' : ε' → ε'') : ∀ m : Model ι κ ε,
      mapAll f' g' h' (mapAll f g h m) = mapAll (f' ∘ f) (g' ∘ g) (h' ∘ h) m
  | [] => rfl
  | e :: rest => by
    rw [mapAll, mapAll, mapAll, map_map f g h f' g' h' e, mapAll_mapAll f g h f' g' h' rest]

end

mutual

theorem map_id : ∀ e : ModelElement ι κ ε, map id id id e = e
  | packageDecl name elements => by rw [map, mapAll_id elements]; rfl
  | dataTypeDecl name => rfl
  | classDecl name superClass members => by
    have same : (Property.map id id id : Property ι κ ε → Property ι κ ε) = id := by
      funext p
      simp [Property.map]
    simp [map, same]

theorem mapAll_id : ∀ m : Model ι κ ε, mapAll id id id m = m
  | [] => rfl
  | e :: rest => by rw [mapAll, map_id e, mapAll_id rest]

end

end ModelElement

end Map

/-- The model with all names and default values replaced. -/
def Model.map {ι ι' κ κ' ε ε' : Type} (f : ι → ι') (g : κ → κ') (h : ε → ε') (m : Model ι κ ε) :
    Model ι' κ' ε' :=
  ModelElement.mapAll f g h m

/-! ### Reading a tree -/

/-- The nodes in a list property that holds nothing else. -/
def nodes? (n : AstNode) (feature : String) : Option (List NodeId) :=
  ((n.get? feature).bind Value.list?).bind (·.mapM Value.node?)

/-- The text of a reference in a property. -/
def referenceText? (a : Ast) (n : AstNode) (feature : String) : Option String :=
  ((n.reference? feature).bind a.reference?).map (·.text)

/-- A property that may be absent, but is to be read if it is there. -/
def optional? {α : Type} (n : AstNode) (feature : String) (read : Option α) : Option (Option α) :=
  if (n.get? feature).isSome then read.map some else some none

/-- The default value at a node, which is at most `fuel` levels deep. -/
def expression? (a : Ast) : Nat → NodeId → Option (Expression Float)
  | 0, _ => none
  | fuel + 1, id => do
    let n ← a.node? id
    if n.type = numberLiteralType then
      let x ← n.number? "value"
      return .number x
    else if n.type = binaryType then
      let op ← (n.text? "op").bind Operator.ofSymbol?
      let left ← (n.child? "left").bind (expression? a fuel)
      let right ← (n.child? "right").bind (expression? a fuel)
      return .binary op left right
    else none

/-- The property at a node. -/
def property? (a : Ast) (id : NodeId) : Option (Property String String (Expression Float)) := do
  let n ← a.node? id
  if n.type = propertyType then
    let many ← (n.get? "many").bind Value.bool?
    let name ← n.text? "name"
    let type ← referenceText? a n "type"
    let default ← optional? n "default" ((n.child? "default").bind (expression? a a.nodes.size))
    return { many, name, type, default }
  else none

/-- The element at a node, which is at most `fuel` levels deep. -/
def element? (a : Ast) : Nat → NodeId → Option (ModelElement String String (Expression Float))
  | 0, _ => none
  | fuel + 1, id => do
    let n ← a.node? id
    let name ← n.text? "name"
    if n.type = packageType then
      let elements ← (nodes? n "elements").bind (·.mapM (element? a fuel))
      return .packageDecl name elements
    else if n.type = dataTypeType then return .dataTypeDecl name
    else if n.type = classType then
      let superClass ← optional? n "superClass" (referenceText? a n "superClass")
      let members ← (nodes? n "members").bind (·.mapM (property? a))
      return .classDecl name superClass members
    else none

/-- The model that a tree holds, if it holds one. -/
def model? (a : Ast) : Option (Model String String (Expression Float)) := do
  let n ← a.node? a.root
  if n.type = modelType then (nodes? n "elements").bind (·.mapM (element? a a.nodes.size)) else none

/-! ### Meanings -/

/-- A default value as a node. -/
def Expression.meaning : Expression Float → Meaning
  | .number x => fun _ type look _ => type = numberLiteralType ∧ look "value" = some (.number x)
  | .binary op left right => fun a type look id =>
    type = binaryType ∧ look "op" = some (.text op.symbol) ∧ left.meaning.Held a id (look "left") ∧
      right.meaning.Held a id (look "right")

/-- A property as a node. -/
def Property.meaning (p : Property String String (Expression Float)) : Meaning :=
  fun a type look id =>
    type = propertyType ∧ look "many" = some (.bool p.many) ∧ look "name" = some (.text p.name) ∧
      Refers a (look "type") p.type ∧
      Meaning.MayHold Expression.meaning a id (look "default") p.default

namespace ModelElement

mutual

/-- A package, datatype or class as a node. -/
def meaning : ModelElement String String (Expression Float) → Meaning
  | packageDecl name elements => fun a type look id =>
    type = packageType ∧ look "name" = some (.text name) ∧
      ∃ ids, look "elements" = some (.list (ids.map .node)) ∧ AllAt a id elements ids
  | dataTypeDecl name => fun _ type look _ => type = dataTypeType ∧ look "name" = some (.text name)
  | classDecl name superClass members => fun a type look id =>
    type = classType ∧ look "name" = some (.text name) ∧
      MayRefer a (look "superClass") superClass ∧
      Meaning.HeldAll Property.meaning a id (look "members") members

/-- Elements as nodes that were finished before the node `id`. -/
def AllAt (a : Arena) (id : NodeId) : Model String String (Expression Float) → List NodeId → Prop
  | [], ids => ids = []
  | e :: rest, ids => ∃ c others, ids = c :: others ∧ c < id ∧ (meaning e).At a c ∧ AllAt a id rest others

end

variable {a b : Arena} {id : NodeId}

theorem allAt_iff {m : Model String String (Expression Float)} {ids : List NodeId} :
    AllAt a id m ids ↔ List.Forall₂ (fun e c => c < id ∧ (meaning e).At a c) m ids := by
  induction m generalizing ids with
  | nil => simp [AllAt]
  | cons e rest ih => simp only [AllAt, List.forall₂_cons_left_iff, ih, and_assoc]; tauto

/-- A package holds its elements in a list. -/
theorem meaning_packageDecl {name : String} {elements : Model String String (Expression Float)}
    {type : TypeId} {look : String → Option Value} :
    (packageDecl name elements).meaning a type look id ↔
      type = packageType ∧ look "name" = some (.text name) ∧
        Meaning.HeldAll meaning a id (look "elements") elements := by
  simp only [meaning, Meaning.HeldAll, allAt_iff]

end ModelElement

/-! ### Meanings last -/

theorem Expression.stable_meaning (e : Expression Float) : e.meaning.Stable := by
  induction e with
  | number x => exact fun _ _ _ _ _ _ h => h
  | binary op left right ihLeft ihRight =>
    intro a b type look id same h
    obtain ⟨typed, symbol, first, second⟩ := h
    exact ⟨typed, symbol, first.agrees ihLeft same, second.agrees ihRight same⟩

theorem Property.stable_meaning (p : Property String String (Expression Float)) : p.meaning.Stable := by
  intro a b type look id same h
  obtain ⟨typed, many, name, refers, default⟩ := h
  exact ⟨typed, many, name, refers.agrees same, default.agrees Expression.stable_meaning same⟩

namespace ModelElement

mutual

theorem stable_meaning : ∀ e : ModelElement String String (Expression Float), e.meaning.Stable
  | packageDecl name elements => by
    intro a b type look id same h
    rw [meaning_packageDecl] at h ⊢
    obtain ⟨typed, named, held⟩ := h
    exact ⟨typed, named, held.agrees (stable_all elements) same⟩
  | dataTypeDecl name => fun _ _ _ _ _ _ h => h
  | classDecl name superClass members => by
    intro a b type look id same h
    obtain ⟨typed, named, above, held⟩ := h
    exact ⟨typed, named, above.agrees same, held.agrees (fun p _ => p.stable_meaning) same⟩

theorem stable_all : ∀ m : Model String String (Expression Float), ∀ e ∈ m, e.meaning.Stable
  | [], e, mem => by cases mem
  | first :: rest, e, mem => by
    rcases List.mem_cons.1 mem with same | mem
    · rw [same]
      exact stable_meaning first
    · exact stable_all rest e mem

end

end ModelElement

/-! ### Meanings are read back -/

theorem mapM_of_forall₂ {α β : Type} {f : β → Option α} {xs : List α} {ys : List β}
    (h : List.Forall₂ (fun x y => f y = some x) xs ys) : ys.mapM f = some xs := by
  induction h with
  | nil => rfl
  | cons first _ ih => simp [List.mapM_cons, first, ih]

theorem nodes?_of_list {n : AstNode} {feature : String} {ids : List NodeId}
    (h : n.properties.get? feature = some (.list (ids.map .node))) : nodes? n feature = some ids := by
  have all : (ids.map Value.node).mapM Value.node? = some ids := by
    refine mapM_of_forall₂ ?_
    rw [List.forall₂_map_right_iff]
    exact List.forall₂_same.2 fun _ _ => rfl
  rw [nodes?, AstNode.get?, h]
  exact all

section Reading

variable {a : Ast} {id : NodeId} {fuel : Nat}

theorem referenceText?_of_refers {n : AstNode} {feature text : String}
    (h : Refers a.arena (n.properties.get? feature) text) : referenceText? a n feature = some text := by
  obtain ⟨r, ref, held, found, rfl⟩ := h
  rw [referenceText?, AstNode.reference?, AstNode.get?, held]
  simp only [Option.bind_some, Value.reference?, Ast.reference?]
  rw [show a.references[r]? = some ref from found]
  rfl

theorem child?_of_held {M : Meaning} {n : AstNode} {feature : String}
    (h : M.Held a.arena id (n.properties.get? feature)) :
    ∃ c, c < id ∧ n.child? feature = some c ∧ M.At a.arena c := by
  obtain ⟨c, below, held, holds⟩ := h
  refine ⟨c, below, ?_, holds⟩
  rw [AstNode.child?, AstNode.get?, held]
  rfl

theorem expression?_of_at {e : Expression Float} (h : e.meaning.At a.arena id) (below : id < fuel) :
    expression? a fuel id = some e := by
  induction e generalizing id fuel with
  | number x =>
    cases fuel with
    | zero => exact absurd below (Nat.not_lt_zero id)
    | succ fuel =>
      obtain ⟨n, found, type, value⟩ := h
      rw [expression?, Ast.node?, show a.nodes[id]? = some n from found]
      simp [type, AstNode.number?, AstNode.get?, value, Value.number?]
  | binary op left right ihLeft ihRight =>
    cases fuel with
    | zero => exact absurd below (Nat.not_lt_zero id)
    | succ fuel =>
      obtain ⟨n, found, type, symbol, first, second⟩ := h
      obtain ⟨i, lessLeft, isLeft, atLeft⟩ := child?_of_held first
      obtain ⟨j, lessRight, isRight, atRight⟩ := child?_of_held second
      have readLeft := ihLeft atLeft (Nat.lt_of_lt_of_le lessLeft (Nat.le_of_lt_succ below))
      have readRight := ihRight atRight (Nat.lt_of_lt_of_le lessRight (Nat.le_of_lt_succ below))
      rw [expression?, Ast.node?, show a.nodes[id]? = some n from found]
      simp [type, binaryType, numberLiteralType, AstNode.text?, AstNode.get?, symbol, Value.text?,
        isLeft, isRight, readLeft, readRight]

theorem property?_of_at {p : Property String String (Expression Float)} (h : p.meaning.At a.arena id) :
    property? a id = some p := by
  have bound : id < a.nodes.size := h.lt_size
  obtain ⟨n, found, type, many, name, refers, rest⟩ := h
  have default : optional? n "default" ((n.child? "default").bind (expression? a a.nodes.size)) =
      some p.default := by
    cases default : p.default with
    | none =>
      rw [default] at rest
      rw [optional?, AstNode.get?, show n.properties.get? "default" = none from rest]
      rfl
    | some e =>
      rw [default] at rest
      obtain ⟨c, below, isChild, holds⟩ := child?_of_held rest
      have present : (n.get? "default").isSome = true := by
        obtain ⟨c, -, held, -⟩ := rest
        rw [AstNode.get?, held]
        rfl
      rw [optional?, if_pos present, isChild, Option.bind_some,
        expression?_of_at holds (Nat.lt_trans below bound)]
      rfl
  rw [property?, Ast.node?, show a.nodes[id]? = some n from found]
  simp [type, AstNode.get?, many, AstNode.text?, name, Value.bool?, Value.text?,
    referenceText?_of_refers refers, default]

theorem mapM_of_heldAll {α : Type} {meaning : α → Meaning} {n : AstNode} {feature : String}
    {xs : List α} {read : NodeId → Option α}
    (h : Meaning.HeldAll meaning a.arena id (n.properties.get? feature) xs)
    (each : ∀ x ∈ xs, ∀ c, c < id → (meaning x).At a.arena c → read c = some x) :
    (nodes? n feature).bind (·.mapM read) = some xs := by
  obtain ⟨ids, list, holds⟩ := h
  rw [nodes?_of_list list, Option.bind_some]
  refine mapM_of_forall₂ ?_
  clear list
  induction holds with
  | nil => exact .nil
  | cons first _ ih =>
    refine .cons (each _ List.mem_cons_self _ first.1 first.2) (ih ?_)
    exact fun x mem => each x (List.mem_cons_of_mem _ mem)

mutual

theorem element?_of_at : ∀ (e : ModelElement String String (Expression Float)) (fuel : Nat) (id : NodeId),
    e.meaning.At a.arena id → id < fuel → element? a fuel id = some e
  | _, 0, id, _, below => absurd below (Nat.not_lt_zero id)
  | .packageDecl name elements, fuel + 1, id, h, below => by
    obtain ⟨n, found, h⟩ := h
    obtain ⟨type, named, held⟩ := ModelElement.meaning_packageDecl.1 h
    have read := mapM_of_heldAll held fun e mem c less holds =>
      elements_of_at elements e mem fuel c holds (Nat.lt_of_lt_of_le less (Nat.le_of_lt_succ below))
    rw [element?, Ast.node?, show a.nodes[id]? = some n from found]
    simp [type, AstNode.text?, AstNode.get?, named, Value.text?, read]
  | .dataTypeDecl name, fuel + 1, id, h, _ => by
    obtain ⟨n, found, type, named⟩ := h
    rw [element?, Ast.node?, show a.nodes[id]? = some n from found]
    simp [type, dataTypeType, packageType, AstNode.text?, AstNode.get?, named, Value.text?]
  | .classDecl name superClass members, fuel + 1, id, h, _ => by
    obtain ⟨n, found, type, named, above, held⟩ := h
    have read := mapM_of_heldAll held fun p _ c _ holds => property?_of_at holds
    have refers : optional? n "superClass" (referenceText? a n "superClass") = some superClass := by
      cases superClass with
      | none =>
        rw [optional?, AstNode.get?, show n.properties.get? "superClass" = none from above]
        rfl
      | some text =>
        have present : (n.get? "superClass").isSome = true := by
          obtain ⟨r, ref, held, -⟩ : Refers _ _ _ := above
          rw [AstNode.get?, held]
          rfl
        rw [optional?, if_pos present, referenceText?_of_refers above]
        rfl
    rw [element?, Ast.node?, show a.nodes[id]? = some n from found]
    simp [type, classType, dataTypeType, packageType, AstNode.text?, AstNode.get?, named, Value.text?,
      read, refers]

theorem elements_of_at : ∀ (m : Model String String (Expression Float)), ∀ e ∈ m, ∀ fuel id,
    e.meaning.At a.arena id → id < fuel → element? a fuel id = some e
  | [], e, mem, _, _, _, _ => by cases mem
  | first :: rest, e, mem, fuel, id, holds, below => by
    rcases List.mem_cons.1 mem with same | mem
    · rw [same] at holds ⊢
      exact element?_of_at first fuel id holds below
    · exact elements_of_at rest e mem fuel id holds below

end

/-- The root of a tree as a whole model. -/
def Model.meaning (m : Model String String (Expression Float)) : Meaning := fun a type look id =>
  type = modelType ∧ Meaning.HeldAll ModelElement.meaning a id (look "elements") m

theorem Model.stable_meaning (m : Model String String (Expression Float)) :
    (Model.meaning m).Stable := by
  intro a b type look id same h
  exact ⟨h.1, h.2.agrees (ModelElement.stable_all m) same⟩

/-- **A tree whose root has the meaning of a model holds that model.** -/
theorem model?_of_at {m : Model String String (Expression Float)}
    (h : (Model.meaning m).At a.arena a.root) : model? a = some m := by
  have bound : a.root < a.nodes.size := h.lt_size
  obtain ⟨n, found, type, held⟩ := h
  rw [model?, Ast.node?, show a.nodes[a.root]? = some n from found]
  have read := mapM_of_heldAll held fun e _ c less holds =>
    element?_of_at e a.nodes.size c holds (Nat.lt_trans less bound)
  simp [type, read]

end Reading

end Workbench.DomainModel
