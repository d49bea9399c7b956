import Workbench.Failure

/-!
**Type hierarchies.**

The node types of a language with their properties and supertypes. A list of declarations is turned
into a hierarchy if the names are distinct, every supertype is declared and no type is above itself.
A type is known by its place in the list of declarations.

Supertypes are visited before their subtypes, so the tables of ancestors and of inherited properties are
filled in one pass. A type has its own properties first, then those of each supertype that it does not have
yet. The declarations are those that a `TypeHierarchyBuilder` collects.
-/

namespace Workbench

/-- A type, by its place in the list of declarations. -/
abbrev TypeId := Nat

/-- What a property holds, as far as an absent value matters. -/
inductive PropertyKind where
  | array
  | bool
  | value
deriving DecidableEq, Repr

namespace PropertyKind

def all : List PropertyKind := [array, bool, value]

def label : PropertyKind → String
  | array => "array"
  | bool => "bool"
  | value => "value"

end PropertyKind

/-- A declaration of a type. -/
structure TypeDecl where
  name : String
  supertypes : List String
  properties : List (String × PropertyKind)
deriving DecidableEq, Repr

/-- A type whose supertypes have been looked up. -/
structure TypeInfo where
  name : String
  supertypes : List TypeId
  properties : List (String × PropertyKind)
deriving DecidableEq, Repr, Inhabited

/-- Why a list of declarations is no hierarchy. -/
inductive TypeFault where
  | declaredTwice (name : String)
  | unknownSupertype (supertype : String) (declaring : String)
  | cycle (name : String)
deriving DecidableEq, Repr

def TypeFault.toFailure : TypeFault → Failure
  | .declaredTwice name =>
    { kind := .types, message := "type '" ++ name ++ "' is declared twice" }
  | .unknownSupertype supertype declaring =>
    { kind := .types
      message := "unknown supertype '" ++ supertype ++ "'"
      context := some ("in type " ++ declaring) }
  | .cycle name =>
    { kind := .types, message := "inheritance cycle through type '" ++ name ++ "'" }

/-- A checked hierarchy with its tables. -/
structure TypeHierarchy where
  types : Array TypeInfo
  /-- For every type its ancestors, itself included. -/
  ancestors : Array (List TypeId)
  /-- For every type its properties, inherited ones included. -/
  properties : Array (List (String × PropertyKind))
deriving Repr, Inhabited

namespace TypeHierarchy

/-! ### Look-up -/

def size (h : TypeHierarchy) : Nat := h.types.size

/-- The type of a given name. -/
def id? (h : TypeHierarchy) (name : String) : Option TypeId :=
  h.types.findIdx? (·.name == name)

def name (h : TypeHierarchy) (id : TypeId) : String :=
  match h.types[id]? with
  | some info => info.name
  | none => "<unknown>"

/-- All types, in the order of their declarations. -/
def ids (h : TypeHierarchy) : List TypeId := List.range h.size

/-- The direct supertypes. -/
def supertypes (h : TypeHierarchy) (id : TypeId) : List TypeId :=
  match h.types[id]? with
  | some info => info.supertypes
  | none => []

/-- Whether `sub` is `sup` or lies below it (`is_subtype`). -/
def isSubtype (h : TypeHierarchy) (sub sup : TypeId) : Bool :=
  match h.ancestors[sub]? with
  | some above => above.contains sup
  | none => false

/-- The types at and below `id`, in the order of their declarations (`subtypes_of`). -/
def subtypesOf (h : TypeHierarchy) (id : TypeId) : List TypeId :=
  h.ids.filter (h.isSubtype · id)

/-- The properties of a type: its own, then those it inherits (`all_properties`). -/
def allProperties (h : TypeHierarchy) (id : TypeId) : List (String × PropertyKind) :=
  h.properties[id]?.getD []

def propertyKind (h : TypeHierarchy) (id : TypeId) (property : String) : Option PropertyKind :=
  (h.allProperties id).lookup property

/-! ### Checking declarations -/

/-- The first name that has been declared before. -/
def firstDuplicate (before : List String) : List TypeDecl → Option String
  | [] => none
  | d :: rest =>
    if before.contains d.name then some d.name else firstDuplicate (d.name :: before) rest

/-- Looks up the supertypes of one declaration. -/
def resolveDecl (decls : List TypeDecl) (d : TypeDecl) : Except TypeFault TypeInfo := do
  let supertypes ← d.supertypes.mapM fun s =>
    match decls.findIdx? (·.name == s) with
    | some id => .ok id
    | none => .error (.unknownSupertype s d.name)
  return { name := d.name, supertypes, properties := d.properties }

/-! ### Order -/

/-- Visits a type after its supertypes. `path` holds the types whose visit is under way, `done` those
that are finished, in the order in which they were. The result is a type found above itself, or the
finished types. `fuel` bounds the length of the path. -/
def visit (types : Array TypeInfo) :
    Nat → List TypeId → List TypeId → TypeId → Except TypeId (List TypeId)
  | 0, _, done, _ => .ok done
  | fuel + 1, path, done, id =>
    if done.contains id then .ok done
    else if path.contains id then .error id
    else do
      let supertypes := (types[id]?.map TypeInfo.supertypes).getD []
      let done ← supertypes.foldlM (visit types fuel (id :: path)) done
      return done ++ [id]

/-- All types, supertypes first; or a type that is above itself (`topological_order`). A path without a
repetition is no longer than the number of types. -/
def order (types : Array TypeInfo) : Except TypeId (List TypeId) :=
  (List.range types.size).foldlM (visit types (types.size + 1) []) []

/-! ### Tables -/

/-- The entries of `more` whose name is not yet among `props`, added one by one. -/
def addMissing (props more : List (String × PropertyKind)) : List (String × PropertyKind) :=
  more.foldl (fun acc p => if acc.any (·.1 == p.1) then acc else acc ++ [p]) props

/-- The types of `more` that are not yet among `ids`, added one by one. -/
def addNew (ids more : List TypeId) : List TypeId :=
  more.foldl (fun acc id => if acc.contains id then acc else acc ++ [id]) ids

/-- Fills in the properties of one type, given those of its supertypes. -/
def inheritProperties (types : Array TypeInfo) (table : Array (List (String × PropertyKind)))
    (id : TypeId) : Array (List (String × PropertyKind)) :=
  let info := types[id]?.getD default
  table.setIfInBounds id <|
    info.supertypes.foldl (fun acc s => addMissing acc (table[s]?.getD [])) info.properties

/-- Fills in the ancestors of one type, given those of its supertypes. -/
def inheritAncestors (types : Array TypeInfo) (table : Array (List TypeId)) (id : TypeId) :
    Array (List TypeId) :=
  let info := types[id]?.getD default
  table.setIfInBounds id <|
    info.supertypes.foldl (fun acc s => addNew acc (table[s]?.getD [])) [id]

/-- Checks a list of declarations and builds the hierarchy (`build`). -/
def build (decls : List TypeDecl) : Except TypeFault TypeHierarchy := do
  if let some name := firstDuplicate [] decls then
    throw (.declaredTwice name)
  let infos ← decls.mapM (resolveDecl decls)
  let types := infos.toArray
  match order types with
  | .error id => throw (.cycle (types[id]?.getD default).name)
  | .ok sorted =>
    let blank := Array.replicate types.size []
    return {
      types
      ancestors := sorted.foldl (inheritAncestors types) blank
      properties := sorted.foldl (inheritProperties types) (Array.replicate types.size []) }

end TypeHierarchy

end Workbench
