import Workbench.Proofs.Parser.Arena

/-!
**Reopening a node, and adding a reference.**

A spare node can be reopened: it gives its parts back, which are spare again, and leaves its slot to the
object that takes it over. A new reference is spare.
-/

namespace Workbench

namespace Arena

variable {a b : Arena} {x : Part} {id : NodeId} {n : AstNode}

/-! ### Reopening a node -/

/-- In `b` the node `n` at `id` has given away its properties, and all else is as in `a`. -/
structure Emptied (a b : Arena) (id : NodeId) (n : AstNode) : Prop where
  found : a.nodes[id]? = some n
  self : ∃ m, b.nodes[id]? = some m ∧ m.properties.parts = [] ∧ m.source = none
  other : ∀ j, j ≠ id → b.nodes[j]? = a.nodes[j]?
  references : b.references = a.references
  size : b.nodes.size = a.nodes.size
  place? : ∀ x, b.place? x = a.place? x

theorem emptied_set (found : a.nodes[id]? = some n) :
    Emptied a ⟨a.nodes.setIfInBounds id { n with properties := .empty, source := none }, a.references⟩
      id n := by
  have bound : id < a.nodes.size := (Array.getElem?_eq_some_iff.1 found).1
  refine ⟨found, ⟨{ n with properties := .empty, source := none }, ?_, rfl, rfl⟩, ?_, rfl, ?_, ?_⟩
  · simp [bound]
  · intro j other
    simp [Ne.symm other]
  · simp
  · intro x
    cases x with
    | node j =>
      by_cases same : id = j
      · subst same
        have eq : a.nodes[id] = n := by simpa [bound] using found
        simp [Arena.place?, bound, eq]
      · simp [Arena.place?, same]
    | reference j => rfl

namespace Emptied

variable {types : TypeHierarchy}

theorem has_iff (h : Emptied a b id n) : b.Has x ↔ a.Has x := by
  cases x with
  | node j =>
    change j < b.nodes.size ↔ j < a.nodes.size
    rw [h.size]
  | reference j =>
    change j < b.references.size ↔ j < a.references.size
    rw [h.references]

theorem complete_other (h : Emptied a b id n) {c : NodeId} (other : c ≠ id)
    (complete : a.Complete types c) : b.Complete types c := by
  obtain ⟨m, found, defaults⟩ := complete
  exact ⟨m, (h.other c other).trans found, defaults⟩

/-- What the node has given away is held by no other node. -/
theorem holds (h : Emptied a b id n) (sound : a.Sound types) (held : b.Holds x) :
    a.Holds x ∧ x ∉ n.properties.parts := by
  obtain ⟨j, m, found, mem⟩ := held
  by_cases same : j = id
  · subst same
    obtain ⟨m', found', empty, -⟩ := h.self
    obtain rfl : m' = m := Option.some.inj (found'.symm.trans found)
    rw [empty] at mem
    cases mem
  · rw [h.other j same] at found
    -- both holders would be the one that the part knows
    refine ⟨⟨j, m, found, mem⟩, fun given => same ?_⟩
    obtain ⟨place, link⟩ := (Properties.mem_parts_iff j).1 mem
    obtain ⟨place', link'⟩ := (Properties.mem_parts_iff id).1 given
    have told := (sound.nodes j m found).linked _ link
    have told' := (sound.nodes id n h.found).linked _ link'
    obtain rfl : place = place' := Option.some.inj (told.symm.trans told')
    exact (Properties.holder_of_mem_links link).symm.trans (Properties.holder_of_mem_links link')

theorem grounded (h : Emptied a b id n) {j : NodeId} (grounded : a.Grounded j) : b.Grounded j := by
  induction grounded with
  | intro above ih => exact ⟨fun place found => ih place (by rwa [h.place?] at found)⟩

theorem sound (h : Emptied a b id n) (before : a.Sound types) (free : ¬ a.Holds (.node id)) :
    b.Sound types where
  nodes := by
    intro j m found
    by_cases same : j = id
    · subst same
      obtain ⟨m', found', empty, noSource⟩ := h.self
      obtain rfl : m' = m := Option.some.inj (found'.symm.trans found)
      refine ⟨?once, ?linked, ?complete, ?owned⟩
      case once =>
        rw [empty]
        exact List.nodup_nil
      case linked =>
        intro link mem
        have held := (Properties.mem_parts_iff j).2 ⟨_, mem⟩
        rw [empty] at held
        cases held
      case complete =>
        rw [empty]
        simp
      case owned =>
        rw [noSource]
        simp
    · rw [h.other j same] at found
      have sound := before.nodes j m found
      refine ⟨sound.once, ?_, ?_, ?_⟩
      · intro link mem
        rw [h.place?]
        exact sound.linked link mem
      · intro c mem
        have other : c ≠ id := fun same => free (same ▸ ⟨j, m, found, mem⟩)
        exact h.complete_other other (sound.complete c mem)
      · rw [h.size]
        exact sound.owned
  owned := by
    rw [h.references, h.size]
    exact before.owned
  holders := by
    intro x place
    rw [h.place?, h.size]
    exact before.holders x place
  grounded := fun j => h.grounded (before.grounded j)

/-- A spare node that is reopened leaves its parts spare, and its slot. -/
theorem spare (h : Emptied a b id n) (sound : a.Sound types) {l : Loose}
    (before : a.Spare types ({ parts := [.node id] } ++ l)) :
    b.Spare types ({ parts := n.properties.parts, slots := [id] } ++ l) := by
  have held : ∀ x ∈ n.properties.parts, a.Holds x := fun x mem => ⟨id, n, h.found, mem⟩
  have count : ∀ x, (({ parts := n.properties.parts, slots := [id] } : Loose) ++ l).count x =
      n.properties.parts.count x + (({ parts := [.node id] } : Loose) ++ l).count x := by
    intro x
    rw [Loose.count_append, Loose.count_append, ← Nat.add_assoc]
    rfl
  -- a part that the node gives away was held, so it was not loose as well
  have apart : ∀ x ∈ n.properties.parts, (({ parts := [.node id] } : Loose) ++ l).count x = 0 := by
    intro x mem
    by_contra some
    exact before.free x (Nat.pos_of_ne_zero some) (held x mem)
  refine ⟨?once, ?free, ?has, ?complete, ?owned⟩
  case once =>
    intro x
    rw [count]
    by_cases given : x ∈ n.properties.parts
    · rw [apart x given]
      exact List.nodup_iff_count_le_one.1 (sound.nodes id n h.found).once x
    · rw [List.count_eq_zero.2 given, Nat.zero_add]
      exact before.once x
  case free =>
    intro x some heldAfter
    obtain ⟨heldBefore, notGiven⟩ := h.holds sound heldAfter
    rw [count, List.count_eq_zero.2 notGiven, Nat.zero_add] at some
    exact before.free x some heldBefore
  case has =>
    intro x some
    rw [h.has_iff]
    by_cases given : x ∈ n.properties.parts
    · exact sound.has_of_holds (held x given)
    · rw [count, List.count_eq_zero.2 given, Nat.zero_add] at some
      exact before.has x some
  case complete =>
    intro c mem
    have other : c ≠ id := by
      rintro rfl
      have self : (({ parts := [.node c] } : Loose) ++ l).count (.node c) = 1 + l.count (.node c) := by
        rw [Loose.count_append, Loose.count_part_self]
      rcases List.mem_append.1 mem with given | outside
      · have none := apart _ given
        omega
      · have some := Loose.count_pos_of_mem outside
        have atMost := before.once (.node c)
        omega
    refine h.complete_other other ?_
    rcases List.mem_append.1 mem with given | outside
    · exact (sound.nodes id n h.found).complete c given
    · exact before.complete c (List.mem_append_right _ outside)
  case owned =>
    intro tree mem
    rw [h.size]
    exact before.owned tree mem

end Emptied

/-! ### Adding a reference -/

/-- The arena with a reference behind all others. -/
def refer (a : Arena) (r : Reference) : Arena := { a with references := a.references.push r }

section Refer

variable {types : TypeHierarchy} {r : Reference}

theorem place?_refer (unplaced : r.place = none) (x : Part) : (a.refer r).place? x = a.place? x := by
  cases x with
  | node id => rfl
  | reference id =>
    simp only [refer, Arena.place?, Array.getElem?_push]
    split
    · next last =>
      have beyond : a.references[id]? = none := by simp [last]
      simp [beyond, unplaced]
    · rfl

theorem Sound.refer (sound : a.Sound types) (unplaced : r.place = none)
    (owned : r.source.OwnedBelow a.nodes.size) : (a.refer r).Sound types where
  nodes := by
    intro id n found
    have before := sound.nodes id n found
    refine ⟨before.once, ?_, before.complete, before.owned⟩
    intro link mem
    rw [place?_refer unplaced]
    exact before.linked link mem
  owned := by
    intro id q found
    simp only [Arena.refer, Array.getElem?_push] at found
    split at found
    · cases found
      exact owned
    · exact sound.owned id q found
  holders := by
    intro x place
    rw [place?_refer unplaced]
    exact sound.holders x place
  grounded := by
    intro id
    induction sound.grounded id with
    | intro above ih => exact ⟨fun place found => ih place (by rwa [place?_refer unplaced] at found)⟩

theorem has_refer (has : a.Has x) : (a.refer r).Has x := by
  cases x with
  | node id => exact has
  | reference id =>
    simp only [Has, refer, Array.size_push]
    exact Nat.lt_succ_of_lt has

/-- A new reference is spare. -/
theorem Spare.refer {l : Loose} (sound : a.Sound types) (spare : a.Spare types l) :
    (a.refer r).Spare types ({ parts := [.reference a.references.size] } ++ l) := by
  have beyond : ¬ a.Has (.reference a.references.size) := Nat.lt_irrefl _
  have rest : (a.refer r).Spare types l :=
    ⟨spare.once, spare.free, fun x some => has_refer (spare.has x some), spare.complete, spare.owned⟩
  refine rest.push ?_ ?_ ?_ ?_
  · by_contra some
    exact beyond (spare.has _ (Nat.pos_of_ne_zero some))
  · exact fun held => beyond (sound.has_of_holds held)
  · simp [Has, Arena.refer]
  · rintro c ⟨⟩

end Refer

end Arena

end Workbench
