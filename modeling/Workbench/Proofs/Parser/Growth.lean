import Workbench.Proofs.Parser.Building

/-!
**Nothing gets lost.**

While a tree is built, a node keeps its type, and a reference keeps its text and its source. What is held or
loose stays so too, as long as an assignment overwrites nothing: building a node, reopening one and adding a
reference only move parts between nodes and what is loose.
-/

namespace Workbench

/-! ### Assignments that overwrite nothing -/

namespace Properties

variable {p : Properties} {name : String} {op : AssignOp} {value v : Value} {x : Part}

theorem mem_entries_of_get? (found : p.get? name = some v) : (name, v) ∈ p.entries := by
  obtain ⟨front, back, eq, -⟩ := List.lookup_eq_some_iff.1 found
  rw [eq]
  simp

theorem mem_parts_of_get? (found : p.get? name = some v) (mem : x ∈ v.parts) : x ∈ p.parts :=
  List.mem_flatMap.2 ⟨_, mem_entries_of_get? found, mem⟩

/-- A change that keeps the parts of the value under the name keeps all parts. -/
theorem mem_parts_upsert {f : Value → Value} {fresh : Value} {entries : List (String × Value)}
    (keeps : ∀ v, entries.lookup name = some v → x ∈ v.parts → x ∈ (f v).parts)
    (mem : x ∈ parts ⟨entries⟩) : x ∈ parts ⟨upsert name f fresh entries⟩ := by
  induction entries with
  | nil => cases mem
  | cons entry rest ih =>
    obtain ⟨n, v⟩ := entry
    have either : x ∈ v.parts ∨ x ∈ parts ⟨rest⟩ := by simpa [parts] using mem
    unfold upsert
    by_cases same : n = name
    · have kept := keeps v (by simp [same])
      rw [if_pos (by simpa using same)]
      simpa [parts] using either.imp_left kept
    · have differ : (name == n) = false := beq_eq_false_iff_ne.2 fun eq => same eq.symm
      have later := ih fun w found => keeps w (by rwa [List.lookup_cons, differ])
      rw [if_neg (by simpa using same)]
      simpa [parts] using either.imp_right later

/-- There is room for a value if it overwrites nothing that is held. -/
def Room (p : Properties) (name : String) (value : Value) : AssignOp → Prop
  | .set => p.get? name = none
  | .flag => p.get? name = none ∧ value.parts = []
  | .append => (∀ v, p.get? name = some v → ∃ items, v = .list items) ∧ ∀ items, value ≠ .list items

/-- An assignment keeps all parts and adds those of the value, if there is room for it. -/
theorem mem_parts_assigned (room : p.Room name value op) (mem : x ∈ p.parts ∨ x ∈ value.parts) :
    x ∈ (p.assigned name op value).parts := by
  cases op with
  | set =>
    rcases mem with old | new
    · refine mem_parts_upsert (fun v found => ?_) old
      rw [show p.entries.lookup name = none from room] at found
      cases found
    · exact mem_parts_of_get? (p.get?_set_self name value) new
  | flag =>
    rcases mem with old | new
    · refine mem_parts_upsert (fun v found => ?_) old
      rw [show p.entries.lookup name = none from room.1] at found
      cases found
    · rw [room.2] at new
      cases new
  | append =>
    obtain ⟨list, single⟩ := room
    rcases mem with old | new
    · refine mem_parts_upsert (fun v found held => ?_) old
      obtain ⟨items, rfl⟩ := list v found
      rw [Value.parts_list_append]
      exact List.mem_append_left _ held
    · have own : value.parts = value.part?.toList := by
        cases value with
        | list items => exact absurd rfl (single items)
        | _ => rfl
      have last := Value.parts_list_singleton value
      rw [own, ← last] at new
      cases found : p.get? name with
      | none =>
        refine mem_parts_of_get? (show (p.append name value).get? name = some (.list [value]) from ?_) new
        rw [get?, append, lookup_upsert_self, show p.entries.lookup name = none from found]
        rfl
      | some v =>
        obtain ⟨items, rfl⟩ := list v found
        refine mem_parts_of_get?
          (show (p.append name value).get? name = some (.list (items ++ [value])) from ?_) ?_
        · rw [get?, append, lookup_upsert_self, show p.entries.lookup name = some _ from found]
          rfl
        · rw [Value.parts_list_append]
          exact List.mem_append_right _ new

end Properties

namespace Arena

variable {a b c : Arena} {x : Part} {id : NodeId} {n : AstNode} {l m : Loose}

/-! ### Growing arenas -/

/-- The nodes of `a` are in `b` with their types, and its references as they were, up to places. -/
structure Preserves (a b : Arena) : Prop where
  node : ∀ (id : NodeId) n, a.nodes[id]? = some n → ∃ m, b.nodes[id]? = some m ∧ m.type = n.type
  reference : ∀ (id : RefId) r, a.references[id]? = some r →
    ∃ q, b.references[id]? = some q ∧ q.unplaced = r.unplaced

namespace Preserves

theorem refl (a : Arena) : a.Preserves a :=
  ⟨fun _ n found => ⟨n, found, rfl⟩, fun _ r found => ⟨r, found, rfl⟩⟩

theorem trans (h : a.Preserves b) (h' : b.Preserves c) : a.Preserves c where
  node id n found := by
    obtain ⟨m, found', type⟩ := h.node id n found
    obtain ⟨k, found'', type'⟩ := h'.node id m found'
    exact ⟨k, found'', type'.trans type⟩
  reference id r found := by
    obtain ⟨q, found', same⟩ := h.reference id r found
    obtain ⟨k, found'', same'⟩ := h'.reference id q found'
    exact ⟨k, found'', same'.trans same⟩

theorem of_eq (same : b = a) : a.Preserves b := same ▸ refl a

end Preserves

theorem preserves_refer (a : Arena) (r : Reference) : a.Preserves (a.refer r) := by
  refine ⟨(Preserves.refl a).node, fun id q found => ⟨q, ?_, rfl⟩⟩
  rw [refer, Array.getElem?_push_lt (Array.getElem?_eq_some_iff.1 found).1]
  exact congrArg some (Array.getElem?_eq_some_iff.1 found).2

/-- A node that is built in the place of another has the type of that node. -/
theorem Built.preserves (h : Built a b id n) (type : ∀ m, a.nodes[id]? = some m → m.type = n.type) :
    a.Preserves b where
  node j m found := by
    by_cases same : j = id
    · subst same
      obtain ⟨m', found', eq⟩ := h.self
      exact ⟨m', found', (AstNode.type_of_unplaced eq).trans (type m found).symm⟩
    · have eq := h.other j same
      rw [found, Option.map_some] at eq
      obtain ⟨m', found', eq⟩ := Option.map_eq_some_iff.1 eq
      exact ⟨m', found', AstNode.type_of_unplaced eq⟩
  reference j r found := by
    have eq := h.references j
    rw [found, Option.map_some] at eq
    exact Option.map_eq_some_iff.1 eq

/-! ### Parts that are kept -/

/-- Every part is held or loose, and what has given away its parts to an object holds none. -/
structure Kept (a : Arena) (l : Loose) : Prop where
  parts : ∀ x, a.Has x → a.Holds x ∨ 0 < l.count x
  slots : ∀ id ∈ l.slots, ∀ n, a.nodes[id]? = some n → n.properties.parts = []

namespace Kept

theorem mono (h : a.Kept l) (parts : ∀ x, 0 < l.count x → 0 < m.count x) (slots : m.slots ⊆ l.slots) :
    a.Kept m :=
  ⟨fun x has => (h.parts x has).imp_right (parts x), fun id mem => h.slots id (slots mem)⟩

theorem refer (h : a.Kept l) (r : Reference) :
    (a.refer r).Kept ({ parts := [.reference a.references.size] } ++ l) where
  parts x has := by
    rw [Loose.count_append]
    have cases : a.Has x ∨ x = .reference a.references.size := by
      cases x with
      | node id => exact .inl has
      | reference id =>
        have less : id < a.references.size + 1 := by simpa [Has, Arena.refer] using has
        rcases Nat.lt_succ_iff_lt_or_eq.1 less with old | rfl
        · exact .inl old
        · exact .inr rfl
    rcases cases with old | rfl
    · rcases h.parts x old with held | loose
      · exact .inl held
      · exact .inr (by omega)
    · exact .inr (Nat.lt_of_lt_of_eq (by omega) (congrArg (· + _) (Loose.count_part_self _).symm))
  slots := h.slots

/-- A node that is reopened gives its parts away. -/
theorem emptied (h : a.Kept ({ parts := [.node id] } ++ l)) (emptied : Emptied a b id n) :
    b.Kept ({ parts := n.properties.parts, slots := [id] } ++ l) where
  parts x has := by
    rcases h.parts x (emptied.has_iff.1 has) with ⟨j, m, found, mem⟩ | loose
    · by_cases same : j = id
      · subst same
        obtain rfl : m = n := Option.some.inj (found.symm.trans emptied.found)
        exact .inr (Loose.count_pos_of_mem (List.mem_append_left _ mem))
      · exact .inl ⟨j, m, (emptied.other j same).trans found, mem⟩
    · right
      by_cases same : x = .node id
      · subst same
        exact Loose.count_pos_of_slot (List.mem_append_left _ (List.mem_singleton_self _))
      · rw [Loose.count_append, Loose.count_part_ne (Ne.symm same)] at loose
        rw [Loose.count_append]
        omega
  slots j mem m found := by
    rcases List.mem_append.1 mem with self | old
    · obtain rfl := List.mem_singleton.1 self
      obtain ⟨m', found', empty, -⟩ := emptied.self
      obtain rfl : m' = m := Option.some.inj (found'.symm.trans found)
      exact empty
    · by_cases same : j = id
      · subst same
        obtain ⟨m', found', empty, -⟩ := emptied.self
        obtain rfl : m' = m := Option.some.inj (found'.symm.trans found)
        exact empty
      · exact h.slots j old m ((emptied.other j same).symm.trans found)

/-- A node that is built takes over the parts of its object. -/
theorem built {p : Properties} {slot : Option NodeId}
    (h : a.Kept ({ parts := p.parts, slots := slot.toList } ++ l)) (built : Built a b id n)
    (self : id = slot.getD a.nodes.size) (parts : ∀ x ∈ p.parts, x ∈ n.properties.parts)
    (apart : id ∉ l.slots) : b.Kept ({ parts := [.node id] } ++ l) := by
  -- a node in whose place another is built has given its parts away
  have empty : ∀ m, a.nodes[id]? = some m → m.properties.parts = [] := by
    intro m found
    cases slot with
    | none =>
      have beyond := (Array.getElem?_eq_some_iff.1 found).1
      rw [self] at beyond
      exact absurd beyond (Nat.lt_irrefl _)
    | some j => exact h.slots id (List.mem_append_left _ (by simp [self])) m found
  have old : ∀ x, b.Has x → x ≠ .node id → a.Has x := by
    intro x has other
    cases x with
    | node j =>
      obtain ⟨m, found, -⟩ := built.node (fun same => other (congrArg _ same))
        (Array.getElem?_eq_getElem has)
      exact (Array.getElem?_eq_some_iff.1 found).1
    | reference j =>
      have same := built.references j
      rw [Array.getElem?_eq_getElem (show j < b.references.size from has), Option.map_some] at same
      obtain ⟨r, found, -⟩ := Option.map_eq_some_iff.1 same.symm
      exact (Array.getElem?_eq_some_iff.1 found).1
  refine ⟨fun x has => ?_, fun j mem m found => ?_⟩
  · by_cases other : x = .node id
    · subst other
      exact .inr (Loose.count_pos_of_mem (List.mem_append_left _ (List.mem_singleton_self _)))
    · rw [Loose.count_append, Loose.count_part_ne (Ne.symm other), Nat.zero_add]
      rcases h.parts x (old x has other) with ⟨j, m, found, mem⟩ | loose
      · by_cases same : j = id
        · subst same
          rw [empty m found] at mem
          cases mem
        · have same := built.other j same
          rw [found, Option.map_some] at same
          obtain ⟨m', found', eq⟩ := Option.map_eq_some_iff.1 same
          exact .inl ⟨j, m', found', by rwa [AstNode.properties_of_unplaced eq]⟩
      · by_cases given : x ∈ p.parts
        · obtain ⟨m, found, eq⟩ := built.self
          exact .inl ⟨id, m, found, by rw [AstNode.properties_of_unplaced eq]; exact parts x given⟩
        · have noSlot : x ∉ slot.toList.map Part.node := by
            intro mem
            obtain ⟨j, inSlot, rfl⟩ := List.mem_map.1 mem
            rw [Option.mem_toList] at inSlot
            exact other (by rw [self, inSlot]; rfl)
          rw [Loose.count_append, Loose.count, List.count_eq_zero.2 given,
            List.count_eq_zero.2 noSlot] at loose
          right
          omega
  · have other : j ≠ id := fun same => apart (same ▸ mem)
    obtain ⟨m', found', eq⟩ := built.node other found
    rw [AstNode.properties_of_unplaced eq]
    exact h.slots j (List.mem_append_right _ mem) m' found'

end Kept

end Arena

end Workbench
