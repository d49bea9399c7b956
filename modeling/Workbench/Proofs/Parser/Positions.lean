import Workbench.Proofs.Parser.Arena
import Workbench.Proofs.Parser.Input

/-!
**Positions in a source tree.**

A tree below another one stands at a *position*, which is the path of child numbers that leads there. Two
positions below which the same token lies are on one path, if the tree has each of its tokens once; likewise
for owners. So a token or an owner tells where a tree stands.
-/

namespace Workbench

namespace SourceTree

variable {t u v : SourceTree} {trees xs ys : List SourceTree} {p q : List Nat} {i j : Nat} {id : NodeId}

/-- The tree at a position. -/
def at? (t : SourceTree) : List Nat → Option SourceTree
  | [] => some t
  | i :: path => t.children[i]?.bind fun child => child.at? path

theorem at?_cons_eq_some_iff :
    t.at? (i :: p) = some u ↔ ∃ child, t.children[i]? = some child ∧ child.at? p = some u := by
  simp [at?, Option.bind_eq_some_iff]

theorem at?_append (t : SourceTree) (p q : List Nat) : t.at? (p ++ q) = (t.at? p).bind (·.at? q) := by
  induction p generalizing t with
  | nil => rfl
  | cons i p ih =>
    rw [List.cons_append, at?, at?, Option.bind_assoc]
    exact congrArg _ (funext ih)

/-- Whether a tree groups tokens. -/
def isBranch : SourceTree → Bool
  | leaf _ _ => false
  | branch .. => true

theorem isBranch_of_owner (h : t.owner = some id) : t.isBranch = true := by
  cases t with
  | leaf token feature => cases h
  | branch => rfl

/-! ### Below and above -/

theorem sizeOf_lt_of_child (h : t.children[i]? = some u) : sizeOf u < sizeOf t := by
  have mem := List.mem_of_getElem? h
  cases t with
  | leaf token feature => cases mem
  | branch rule feature range owner children =>
    have less := List.sizeOf_lt_of_mem (show u ∈ children from mem)
    rw [branch.sizeOf_spec]
    omega

theorem sizeOf_le_of_at? (h : t.at? p = some u) : sizeOf u ≤ sizeOf t := by
  induction p generalizing t with
  | nil => exact Nat.le_of_eq (congrArg sizeOf (Option.some.inj h).symm)
  | cons i p ih =>
    obtain ⟨child, found, below⟩ := at?_cons_eq_some_iff.1 h
    exact (ih below).trans (sizeOf_lt_of_child found).le

/-- No tree stands below itself. -/
theorem at?_self (h : t.at? p = some t) : p = [] := by
  cases p with
  | nil => rfl
  | cons i p =>
    obtain ⟨child, found, below⟩ := at?_cons_eq_some_iff.1 h
    have le := sizeOf_le_of_at? below
    have less := sizeOf_lt_of_child found
    omega

/-- What occurs once in a list of lists tells in which of them. -/
theorem index_unique {α β : Type} {f : α → List β} {l : List α} (once : (l.flatMap f).Nodup) {a b : α}
    (left : l[i]? = some a) (right : l[j]? = some b) {x : β} (inLeft : x ∈ f a) (inRight : x ∈ f b) :
    i = j := by
  obtain ⟨boundLeft, rfl⟩ := List.getElem?_eq_some_iff.1 left
  obtain ⟨boundRight, rfl⟩ := List.getElem?_eq_some_iff.1 right
  have apart := List.pairwise_iff_getElem.1 (List.nodup_flatMap.1 once).2
  rcases Nat.lt_trichotomy i j with less | same | more
  · exact absurd inRight (apart i j boundLeft boundRight less inLeft)
  · exact same
  · exact absurd inLeft (apart j i boundRight boundLeft more inRight)

section Inherited

variable {α : Type} {f : SourceTree → List α}
  (inherits : ∀ t : SourceTree, (t.children.flatMap f).Sublist (f t))

include inherits

/-- A tree has all that a tree below it has, if it has all that its children have. -/
theorem sublist_of_at? (h : t.at? p = some u) : (f u).Sublist (f t) := by
  induction p generalizing t with
  | nil => rw [Option.some.inj h]
  | cons i p ih =>
    obtain ⟨child, found, below⟩ := at?_cons_eq_some_iff.1 h
    have within : (f child).Sublist (t.children.flatMap f) := by
      rw [List.flatMap_def]
      exact List.sublist_flatten_of_mem (List.mem_map_of_mem (List.mem_of_getElem? found))
    exact (ih below).trans (within.trans (inherits t))

/-- Two trees that have something in common, which the tree around them has once, stand on one path. -/
theorem prefix_or_prefix (once : (f t).Nodup) (left : t.at? p = some u) (right : t.at? q = some v) {x : α}
    (inLeft : x ∈ f u) (inRight : x ∈ f v) : p <+: q ∨ q <+: p := by
  induction p generalizing t q with
  | nil => exact .inl List.nil_prefix
  | cons i p ih =>
    cases q with
    | nil => exact .inr List.nil_prefix
    | cons j q =>
      obtain ⟨child, found, below⟩ := at?_cons_eq_some_iff.1 left
      obtain ⟨child', found', below'⟩ := at?_cons_eq_some_iff.1 right
      have onceBelow := once.sublist (inherits t)
      obtain rfl : i = j := index_unique onceBelow found found'
        ((sublist_of_at? inherits below).subset inLeft) ((sublist_of_at? inherits below').subset inRight)
      obtain rfl : child = child' := Option.some.inj (found.symm.trans found')
      have onceChild := (List.nodup_flatMap.1 onceBelow).1 child (List.mem_of_getElem? found)
      exact (ih onceChild below below').imp (List.prefix_cons_inj i).2 (List.prefix_cons_inj i).2

end Inherited

/-! ### Tokens -/

theorem leavesOf_eq (trees : List SourceTree) : leavesOf trees = trees.flatMap leaves := by
  induction trees with
  | nil => rfl
  | cons t rest ih => rw [leavesOf, ih, List.flatMap_cons]

theorem leaves_children (t : SourceTree) : (t.children.flatMap leaves).Sublist t.leaves := by
  cases t with
  | leaf token feature => exact List.nil_sublist _
  | branch rule feature range owner children =>
    rw [leaves, leavesOf_eq]
    exact .refl _

/-- A tree with a token stands at one position only. -/
theorem at?_unique_of_leaves (once : t.leaves.Nodup) (left : t.at? p = some u) (right : t.at? q = some u)
    (some : u.leaves ≠ []) : p = q := by
  have below : ∀ {p q : List Nat}, t.at? p = .some u → t.at? q = .some u → p <+: q → p = q := by
    rintro p q left right ⟨rest, rfl⟩
    rw [at?_append, left, Option.bind_some] at right
    rw [at?_self right, List.append_nil]
  obtain ⟨x, mem⟩ := List.exists_mem_of_ne_nil _ some
  rcases prefix_or_prefix leaves_children once left right mem mem with shorter | longer
  · exact below left right shorter
  · exact (below right left longer).symm

/-! ### Owners -/

theorem ownersOf_eq (trees : List SourceTree) : ownersOf trees = trees.flatMap owners := by
  induction trees with
  | nil => rfl
  | cons t rest ih => rw [ownersOf, ih, List.flatMap_cons]

@[simp] theorem ownersOf_append (xs ys : List SourceTree) : ownersOf (xs ++ ys) = ownersOf xs ++ ownersOf ys := by
  simp [ownersOf_eq]

theorem owners_eq (t : SourceTree) : t.owners = t.owner.toList ++ ownersOf t.children := by
  cases t with
  | leaf token feature => rfl
  | branch rule feature range owner children => rw [owners, SourceTree.owner, SourceTree.children]

@[simp] theorem ownersOf_singleton (t : SourceTree) :
    ownersOf [t] = t.owner.toList ++ ownersOf t.children := by
  rw [ownersOf, ownersOf, List.append_nil, owners_eq]

@[simp] theorem ownersOf_leaves (tokens : List Token) (feature : Option String) :
    ownersOf (tokens.map (leaf · feature)) = [] := by
  simp [ownersOf_eq, owners]

theorem owners_children (t : SourceTree) : (t.children.flatMap owners).Sublist t.owners := by
  rw [owners_eq, ← ownersOf_eq]
  exact List.sublist_append_right _ _

theorem mem_owners_of_at? (h : t.at? p = some u) (own : u.owner = some id) : id ∈ t.owners := by
  refine (sublist_of_at? owners_children h).subset ?_
  rw [owners_eq, own]
  exact List.mem_append_left _ (List.mem_singleton_self id)

/-- A node owns the tree at one position only. -/
theorem at?_unique_of_owner (once : t.owners.Nodup) (left : t.at? p = some u) (right : t.at? q = some v)
    (ownLeft : u.owner = some id) (ownRight : v.owner = some id) : p = q := by
  have below : ∀ {p q : List Nat} {u v : SourceTree}, t.at? p = some u → t.at? q = some v →
      u.owner = some id → v.owner = some id → p <+: q → p = q := by
    rintro p q u v left right ownLeft ownRight ⟨rest, rfl⟩
    rw [at?_append, left, Option.bind_some] at right
    cases rest with
    | nil => exact (List.append_nil p).symm
    | cons i rest =>
      -- the owner of the tree would own a tree below it as well
      obtain ⟨child, found, inside⟩ := at?_cons_eq_some_iff.1 right
      have again : id ∈ ownersOf u.children :=
        mem_ownersOf_iff.2 ⟨child, List.mem_of_getElem? found, mem_owners_of_at? inside ownRight⟩
      have onceBelow := once.sublist (sublist_of_at? owners_children left)
      rw [owners_eq, ownLeft, Option.toList_some, List.singleton_append, List.nodup_cons] at onceBelow
      exact absurd again onceBelow.1
  have memLeft : id ∈ u.owners := mem_owners_of_at? (p := []) rfl ownLeft
  have memRight : id ∈ v.owners := mem_owners_of_at? (p := []) rfl ownRight
  rcases prefix_or_prefix owners_children once left right memLeft memRight with shorter | longer
  · exact below left right ownLeft ownRight shorter
  · exact (below right left ownRight ownLeft longer).symm

/-! ### Trees below some trees -/

/-- The tree stands somewhere at or below one of the trees. -/
def Occurs (u : SourceTree) (trees : List SourceTree) : Prop := ∃ t ∈ trees, ∃ p, t.at? p = some u

theorem not_occurs_nil : ¬ Occurs u [] := by
  rintro ⟨t, mem, -⟩
  cases mem

theorem occurs_append : Occurs u (xs ++ ys) ↔ Occurs u xs ∨ Occurs u ys := by
  simp only [Occurs, List.mem_append, or_and_right, exists_or]

theorem occurs_children : Occurs u t.children ↔ ∃ i p, t.at? (i :: p) = some u := by
  constructor
  · rintro ⟨child, mem, p, below⟩
    obtain ⟨i, found⟩ := List.mem_iff_getElem?.1 mem
    exact ⟨i, p, at?_cons_eq_some_iff.2 ⟨child, found, below⟩⟩
  · rintro ⟨i, p, below⟩
    obtain ⟨child, found, below⟩ := at?_cons_eq_some_iff.1 below
    exact ⟨child, List.mem_of_getElem? found, p, below⟩

theorem occurs_singleton : Occurs u [t] ↔ u = t ∨ Occurs u t.children := by
  simp only [Occurs, List.mem_singleton, exists_eq_left]
  constructor
  · rintro ⟨p, below⟩
    cases p with
    | nil => exact .inl (Option.some.inj below).symm
    | cons i p => exact .inr (occurs_children.2 ⟨i, p, below⟩)
  · rintro (rfl | below)
    · exact ⟨[], rfl⟩
    · obtain ⟨i, p, below⟩ := occurs_children.1 below
      exact ⟨i :: p, below⟩

theorem Occurs.mono (h : Occurs u xs) (subset : xs ⊆ ys) : Occurs u ys := by
  obtain ⟨t, mem, below⟩ := h
  exact ⟨t, subset mem, below⟩

theorem mem_ownersOf_of_occurs (h : Occurs u trees) (own : u.owner = some id) : id ∈ ownersOf trees := by
  obtain ⟨t, mem, p, below⟩ := h
  exact mem_ownersOf_iff.2 ⟨t, mem, mem_owners_of_at? below own⟩

mutual

theorem occurs_of_mem_owners : ∀ t : SourceTree, id ∈ t.owners → ∃ u, Occurs u [t] ∧ u.owner = some id
  | leaf token feature, mem => by
    rw [owners] at mem
    cases mem
  | branch rule feature range owner children, mem => by
    rw [owners, List.mem_append, Option.mem_toList] at mem
    rcases mem with own | inside
    · exact ⟨_, occurs_singleton.2 (.inl rfl), own⟩
    · obtain ⟨u, below, own⟩ := occurs_of_mem_ownersOf children inside
      exact ⟨u, occurs_singleton.2 (.inr below), own⟩

/-- Every owner owns one of the trees. -/
theorem occurs_of_mem_ownersOf : ∀ trees : List SourceTree, id ∈ ownersOf trees →
    ∃ u, Occurs u trees ∧ u.owner = some id
  | [], mem => by cases mem
  | t :: rest, mem => by
    rw [ownersOf, List.mem_append] at mem
    rcases mem with first | later
    · obtain ⟨u, below, own⟩ := occurs_of_mem_owners t first
      exact ⟨u, below.mono (by simp), own⟩
    · obtain ⟨u, below, own⟩ := occurs_of_mem_ownersOf rest later
      exact ⟨u, below.mono (List.subset_cons_self _ _), own⟩

end

end SourceTree

end Workbench
