import Workbench.Parser.State
import Workbench.Proofs.Value

/-!
**The nodes and references of a parse.**

The nodes and references made so far form an *arena*. It is `Sound` if everything that a node holds knows
the place where it is held, no path of containers goes on for ever, and all numbers are in range. What no
node holds yet is *loose*: the parts of objects under construction, the slots that these objects take
over, the trees that wait for an owner. Loose parts that are `Spare` are held by no node and are not loose
twice, so they can be given to a node.
-/

namespace Workbench

/-! ### Owners -/

namespace SourceTree

mutual

/-- The owners of a tree and of the trees below it. -/
def owners : SourceTree → List NodeId
  | leaf _ _ => []
  | branch _ _ _ owner children => owner.toList ++ ownersOf children

/-- The owners of some trees and of the trees below them. -/
def ownersOf : List SourceTree → List NodeId
  | [] => []
  | t :: rest => owners t ++ ownersOf rest

end

/-- All owners are below a number. -/
def OwnedBelow (n : Nat) (t : SourceTree) : Prop := ∀ id ∈ t.owners, id < n

theorem mem_ownersOf_iff {id : NodeId} {trees : List SourceTree} :
    id ∈ ownersOf trees ↔ ∃ t ∈ trees, id ∈ t.owners := by
  induction trees with
  | nil => simp [ownersOf]
  | cons t rest ih => simp [ownersOf, ih]

namespace OwnedBelow

variable {n m : Nat} {t : SourceTree}

theorem mono (h : t.OwnedBelow n) (le : n ≤ m) : t.OwnedBelow m := by
  intro id mem
  exact Nat.lt_of_lt_of_le (h id mem) le

theorem leaf (n : Nat) (token : Token) (feature : Option String) :
    (SourceTree.leaf token feature).OwnedBelow n := by
  intro id mem
  simp [owners] at mem

theorem branch {rule : RuleId} {feature : Option String} {range : TextRange} {owner : Option NodeId}
    {children : List SourceTree} (below : ∀ id ∈ owner, id < n)
    (h : ∀ t ∈ children, t.OwnedBelow n) :
    (SourceTree.branch rule feature range owner children).OwnedBelow n := by
  intro id mem
  simp only [owners, List.mem_append, Option.mem_toList, mem_ownersOf_iff] at mem
  rcases mem with own | ⟨t, mem, inside⟩
  · exact below id own
  · exact h t mem id inside

theorem close {rule : RuleId} {feature : Option String} {offset : Nat} {children : List SourceTree}
    (h : ∀ t ∈ children, t.OwnedBelow n) :
    (SourceTree.close rule feature offset children).OwnedBelow n := by
  refine branch ?_ h
  simp

theorem withOwner {owner : Option NodeId} (h : t.OwnedBelow n) (below : ∀ id ∈ owner, id < n) :
    (t.withOwner owner).OwnedBelow n := by
  cases t with
  | leaf token feature => exact h
  | branch rule feature range previous children =>
    refine branch below fun t mem id inside => h id ?_
    simp only [owners, List.mem_append, mem_ownersOf_iff]
    exact .inr ⟨t, mem, inside⟩

end OwnedBelow

end SourceTree

/-! ### Arenas -/

/-- All nodes and references made so far. -/
structure Arena where
  nodes : Array AstNode
  references : Array Reference

def State.arena (s : State) : Arena := ⟨s.nodes, s.references⟩

def AstNode.unplaced (n : AstNode) : AstNode := { n with place := none }

def Reference.unplaced (r : Reference) : Reference := { r with place := none }

theorem AstNode.properties_of_unplaced {m n : AstNode} (h : m.unplaced = n.unplaced) :
    m.properties = n.properties := by
  have same : m.unplaced.properties = n.unplaced.properties := by rw [h]
  exact same

theorem AstNode.type_of_unplaced {m n : AstNode} (h : m.unplaced = n.unplaced) : m.type = n.type := by
  have same : m.unplaced.type = n.unplaced.type := by rw [h]
  exact same

theorem AstNode.source_of_unplaced {m n : AstNode} (h : m.unplaced = n.unplaced) :
    m.source = n.source := by
  have same : m.unplaced.source = n.unplaced.source := by rw [h]
  exact same

theorem Reference.source_of_unplaced {r q : Reference} (h : r.unplaced = q.unplaced) :
    r.source = q.source := by
  have same : r.unplaced.source = q.unplaced.source := by rw [h]
  exact same

namespace Arena

/-- Where a part is held, as far as it knows. -/
def place? (a : Arena) : Part → Option Place
  | .node id => a.nodes[id]?.bind (·.place)
  | .reference id => a.references[id]?.bind (·.place)

/-- The part is in the arena. -/
def Has (a : Arena) : Part → Prop
  | .node id => id < a.nodes.size
  | .reference id => id < a.references.size

/-- Some node of the arena holds the part. -/
def Holds (a : Arena) (x : Part) : Prop :=
  ∃ (id : NodeId) (n : AstNode), a.nodes[id]? = some n ∧ x ∈ n.properties.parts

/-- Tells a part where it is held. -/
def put (a : Arena) (link : Part × Place) : Arena :=
  match link.1 with
  | .node id => { a with nodes := a.nodes.modify id fun n => { n with place := some link.2 } }
  | .reference id =>
    { a with references := a.references.modify id fun r => { r with place := some link.2 } }

def putAll (a : Arena) (links : List (Part × Place)) : Arena := links.foldl put a

/-- The arena with a node at a slot, or behind all others. -/
def insert (a : Arena) (slot : Option NodeId) (n : AstNode) : Arena :=
  match slot with
  | some id => { a with nodes := a.nodes.setIfInBounds id n }
  | none => { a with nodes := a.nodes.push n }

variable {a b c : Arena} {x y : Part} {place : Place} {link : Part × Place}
  {links : List (Part × Place)} {id : NodeId} {n : AstNode}

theorem has_of_place? (h : a.place? x = some place) : a.Has x := by
  cases x with
  | node id =>
    obtain ⟨n, found, -⟩ := Option.bind_eq_some_iff.1 h
    exact (Array.getElem?_eq_some_iff.1 found).1
  | reference id =>
    obtain ⟨r, found, -⟩ := Option.bind_eq_some_iff.1 h
    exact (Array.getElem?_eq_some_iff.1 found).1

/-- `b` is `a` up to places. -/
structure Alike (a b : Arena) : Prop where
  nodes : ∀ id : NodeId, b.nodes[id]?.map AstNode.unplaced = a.nodes[id]?.map AstNode.unplaced
  references : ∀ id : RefId,
    b.references[id]?.map Reference.unplaced = a.references[id]?.map Reference.unplaced

namespace Alike

theorem refl (a : Arena) : Alike a a := ⟨fun _ => rfl, fun _ => rfl⟩

theorem trans (h : Alike a b) (h' : Alike b c) : Alike a c :=
  ⟨fun id => (h'.nodes id).trans (h.nodes id), fun id => (h'.references id).trans (h.references id)⟩

theorem node (h : Alike a b) (found : a.nodes[id]? = some n) :
    ∃ m, b.nodes[id]? = some m ∧ m.unplaced = n.unplaced := by
  have same := h.nodes id
  rw [found, Option.map_some, Option.map_eq_some_iff] at same
  exact same

theorem reference (h : Alike a b) {id : RefId} {r : Reference} (found : a.references[id]? = some r) :
    ∃ r', b.references[id]? = some r' ∧ r'.unplaced = r.unplaced := by
  have same := h.references id
  rw [found, Option.map_some, Option.map_eq_some_iff] at same
  exact same

theorem has (h : Alike a b) (has : a.Has x) : b.Has x := by
  cases x with
  | node id =>
    obtain ⟨m, found, -⟩ := h.node (Array.getElem?_eq_getElem has)
    exact (Array.getElem?_eq_some_iff.1 found).1
  | reference id =>
    obtain ⟨m, found, -⟩ := h.reference (Array.getElem?_eq_getElem has)
    exact (Array.getElem?_eq_some_iff.1 found).1

end Alike

theorem alike_put (a : Arena) (link : Part × Place) : Alike a (a.put link) := by
  obtain ⟨x, place⟩ := link
  cases x with
  | node id =>
    refine ⟨fun j => ?_, fun _ => rfl⟩
    simp only [put, Array.getElem?_modify]
    split
    · rw [Option.map_map]
      rfl
    · rfl
  | reference id =>
    refine ⟨fun _ => rfl, fun j => ?_⟩
    simp only [put, Array.getElem?_modify]
    split
    · rw [Option.map_map]
      rfl
    · rfl

theorem place?_put_self (h : a.Has link.1) : (a.put link).place? link.1 = some link.2 := by
  obtain ⟨x, place⟩ := link
  cases x with
  | node id =>
    have found := Array.getElem?_eq_getElem (show id < a.nodes.size from h)
    simp [put, place?, Array.getElem?_modify, found]
  | reference id =>
    have found := Array.getElem?_eq_getElem (show id < a.references.size from h)
    simp [put, place?, Array.getElem?_modify, found]

theorem place?_put_ne (a : Arena) (h : link.1 ≠ x) : (a.put link).place? x = a.place? x := by
  obtain ⟨y, place⟩ := link
  cases x <;> cases y <;> simp_all [put, place?, Array.getElem?_modify]

theorem alike_putAll (a : Arena) (links : List (Part × Place)) : Alike a (a.putAll links) := by
  induction links generalizing a with
  | nil => exact .refl a
  | cons link rest ih => exact (alike_put a link).trans (ih _)

theorem place?_putAll_of_not_mem (a : Arena) (h : x ∉ links.map Prod.fst) :
    (a.putAll links).place? x = a.place? x := by
  induction links generalizing a with
  | nil => rfl
  | cons link rest ih =>
    simp only [List.map_cons, List.mem_cons, not_or] at h
    exact (ih _ h.2).trans (place?_put_ne a (Ne.symm h.1))

/-- Parts that are told once where they are held know it. -/
theorem place?_putAll_of_mem (once : (links.map Prod.fst).Nodup) (mem : link ∈ links)
    (has : a.Has link.1) : (a.putAll links).place? link.1 = some link.2 := by
  induction links generalizing a with
  | nil => cases mem
  | cons first rest ih =>
    obtain ⟨notAgain, once⟩ := List.nodup_cons.1 once
    rcases List.mem_cons.1 mem with rfl | mem
    · exact (place?_putAll_of_not_mem _ notAgain).trans (place?_put_self has)
    · exact ih once mem ((alike_put a first).has has)

/-! ### Sound arenas -/

/-- A node has what its type declares as lists and truth values. -/
def Complete (types : TypeHierarchy) (a : Arena) (id : NodeId) : Prop :=
  ∃ n, a.nodes[id]? = some n ∧ ∀ entry ∈ types.allProperties n.type,
    entry.2 = .array ∨ entry.2 = .bool → n.properties.contains entry.1 = true

/-- The containers of a node come to an end. -/
inductive Grounded (a : Arena) : NodeId → Prop where
  | intro {id : NodeId}
    (above : ∀ place, a.place? (.node id) = some place → Grounded a place.holder) : Grounded a id

/-- What a node holds is held once, knows its place, and is complete. -/
structure SoundNode (types : TypeHierarchy) (a : Arena) (id : NodeId) (n : AstNode) : Prop where
  once : n.properties.parts.Nodup
  linked : ∀ link ∈ n.properties.links id, a.place? link.1 = some link.2
  complete : ∀ c, .node c ∈ n.properties.parts → a.Complete types c
  owned : ∀ tree ∈ n.source, tree.OwnedBelow a.nodes.size

/-- All nodes are sound, and the numbers of holders and owners are in range. -/
structure Sound (types : TypeHierarchy) (a : Arena) : Prop where
  nodes : ∀ id n, a.nodes[id]? = some n → a.SoundNode types id n
  owned : ∀ (id : RefId) r, a.references[id]? = some r → r.source.OwnedBelow a.nodes.size
  holders : ∀ x place, a.place? x = some place → place.holder < a.nodes.size
  grounded : ∀ id, a.Grounded id

theorem Sound.has_of_holds {types : TypeHierarchy} (h : a.Sound types) (holds : a.Holds x) :
    a.Has x := by
  obtain ⟨id, n, found, mem⟩ := holds
  obtain ⟨place, link⟩ := (Properties.mem_parts_iff id).1 mem
  exact has_of_place? ((h.nodes id n found).linked _ link)

/-- What no node holds yet: parts of objects under construction, slots that objects take over, and trees
that wait for an owner. -/
structure Loose where
  parts : List Part := []
  slots : List NodeId := []
  trees : List SourceTree := []

namespace Loose

instance : Append Loose :=
  ⟨fun l m => ⟨l.parts ++ m.parts, l.slots ++ m.slots, l.trees ++ m.trees⟩⟩

@[simp] theorem parts_append (l m : Loose) : (l ++ m).parts = l.parts ++ m.parts := rfl

@[simp] theorem slots_append (l m : Loose) : (l ++ m).slots = l.slots ++ m.slots := rfl

@[simp] theorem trees_append (l m : Loose) : (l ++ m).trees = l.trees ++ m.trees := rfl

/-- How often a part is loose, slots included. -/
def count (l : Loose) (x : Part) : Nat := l.parts.count x + (l.slots.map Part.node).count x

@[simp] theorem count_append (l m : Loose) (x : Part) : (l ++ m).count x = l.count x + m.count x := by
  simp only [count, parts_append, slots_append, List.map_append, List.count_append]
  omega

theorem count_pos_of_mem {l : Loose} {x : Part} (mem : x ∈ l.parts) : 0 < l.count x :=
  Nat.lt_of_lt_of_le (List.count_pos_iff.2 mem) (Nat.le_add_right _ _)

theorem count_pos_of_slot {l : Loose} {id : NodeId} (mem : id ∈ l.slots) : 0 < l.count (.node id) :=
  Nat.lt_of_lt_of_le (List.count_pos_iff.2 (List.mem_map_of_mem mem)) (Nat.le_add_left _ _)

@[simp] theorem count_part_self (x : Part) : ({ parts := [x] } : Loose).count x = 1 := by
  simp [count]

theorem count_part_ne {x y : Part} (other : x ≠ y) : ({ parts := [x] } : Loose).count y = 0 := by
  simp [count, other]

/-- Nothing is looser than before. -/
structure Within (l m : Loose) : Prop where
  count : ∀ x, l.count x ≤ m.count x
  parts : l.parts ⊆ m.parts
  trees : l.trees ⊆ m.trees

namespace Within

variable {l m : Loose}

theorem refl (l : Loose) : l.Within l :=
  ⟨fun _ => Nat.le_refl _, List.Subset.refl _, List.Subset.refl _⟩

theorem append {l' m' : Loose} (h : l.Within l') (h' : m.Within m') : (l ++ m).Within (l' ++ m') := by
  refine ⟨fun x => ?_, ?_, ?_⟩
  · rw [count_append, count_append]
    exact Nat.add_le_add (h.count x) (h'.count x)
  · exact List.append_subset.2 ⟨List.subset_append_of_subset_left _ h.parts,
      List.subset_append_of_subset_right _ h'.parts⟩
  · exact List.append_subset.2 ⟨List.subset_append_of_subset_left _ h.trees,
      List.subset_append_of_subset_right _ h'.trees⟩

theorem append_left (h : l.Within m) (k : Loose) : (k ++ l).Within (k ++ m) := (refl k).append h

theorem append_right (h : l.Within m) (k : Loose) : (l ++ k).Within (m ++ k) := h.append (refl k)

end Within

theorem within_append_right (m l : Loose) : l.Within (m ++ l) where
  count := fun x => by simp
  parts := List.subset_append_right _ _
  trees := List.subset_append_right _ _

theorem within_append_left (l m : Loose) : l.Within (l ++ m) where
  count := fun x => by simp
  parts := List.subset_append_left _ _
  trees := List.subset_append_left _ _

theorem append_assoc (l m k : Loose) : l ++ m ++ k = l ++ (m ++ k) := by
  change mk _ _ _ = mk _ _ _
  simp only [parts_append, slots_append, trees_append, List.append_assoc]

theorem within_append_left_comm (l m k : Loose) : (l ++ (m ++ k)).Within (m ++ (l ++ k)) := by
  refine ⟨fun x => ?_, fun x mem => ?_, fun tree mem => ?_⟩
  · simp only [count_append]
    omega
  · simp only [parts_append, List.mem_append] at mem ⊢
    tauto
  · simp only [trees_append, List.mem_append] at mem ⊢
    tauto

end Loose

/-- What is loose is held by no node and not loose twice. -/
structure Spare (types : TypeHierarchy) (a : Arena) (l : Loose) : Prop where
  once : ∀ x, l.count x ≤ 1
  free : ∀ x, 0 < l.count x → ¬ a.Holds x
  has : ∀ x, 0 < l.count x → a.Has x
  complete : ∀ c, .node c ∈ l.parts → a.Complete types c
  owned : ∀ tree ∈ l.trees, tree.OwnedBelow a.nodes.size

theorem Spare.within {types : TypeHierarchy} {l m : Loose} (h : a.Spare types m) (le : l.Within m) :
    a.Spare types l where
  once := fun x => Nat.le_trans (le.count x) (h.once x)
  free := fun x some => h.free x (Nat.lt_of_lt_of_le some (le.count x))
  has := fun x some => h.has x (Nat.lt_of_lt_of_le some (le.count x))
  complete := fun c mem => h.complete c (le.parts mem)
  owned := fun tree mem => h.owned tree (le.trees mem)

/-- One more part is spare. -/
theorem Spare.push {types : TypeHierarchy} {l : Loose} (h : a.Spare types l) (new : l.count x = 0)
    (free : ¬ a.Holds x) (has : a.Has x) (complete : ∀ c, x = .node c → a.Complete types c) :
    a.Spare types ({ parts := [x] } ++ l) := by
  have loose : ∀ y, 0 < (({ parts := [x] } : Loose) ++ l).count y → y = x ∨ 0 < l.count y := by
    intro y some
    by_cases same : x = y
    · exact .inl same.symm
    · rw [Loose.count_append, Loose.count_part_ne same, Nat.zero_add] at some
      exact .inr some
  refine ⟨?once, ?free, ?has, ?complete, ?owned⟩
  case once =>
    intro y
    have atMost := h.once y
    by_cases same : x = y
    · subst same
      exact Nat.le_of_eq (by rw [Loose.count_append, Loose.count_part_self, new])
    · rwa [Loose.count_append, Loose.count_part_ne same, Nat.zero_add]
  case free =>
    intro y some
    rcases loose y some with rfl | some
    · exact free
    · exact h.free y some
  case has =>
    intro y some
    rcases loose y some with rfl | some
    · exact has
    · exact h.has y some
  case complete =>
    intro c mem
    rw [Loose.parts_append, List.mem_append, List.mem_singleton] at mem
    exact mem.elim (fun same => complete c same.symm) (h.complete c)
  case owned =>
    intro tree mem
    exact h.owned tree (by simpa using mem)

theorem Spare.trees {types : TypeHierarchy} {l : Loose} {trees : List SourceTree}
    (h : a.Spare types l) (owned : ∀ tree ∈ trees, tree.OwnedBelow a.nodes.size) :
    a.Spare types ({ trees } ++ l) := by
  have count : ∀ x, (({ trees } : Loose) ++ l).count x = l.count x := by
    intro x
    simp [Loose.count]
  refine ⟨?once, ?free, ?has, h.complete, ?owned⟩
  case once =>
    intro x
    rw [count]
    exact h.once x
  case free =>
    intro x
    rw [count]
    exact h.free x
  case has =>
    intro x
    rw [count]
    exact h.has x
  case owned =>
    intro tree mem
    rw [Loose.trees_append, List.mem_append] at mem
    exact mem.elim (owned tree) (h.owned tree)

end Arena

end Workbench
