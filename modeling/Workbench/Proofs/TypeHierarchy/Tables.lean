import Workbench.Proofs.TypeHierarchy.Order

/-!
**The tables of a hierarchy.**

The tables are filled type by type in an order in which supertypes come first, each row from those of the
supertypes. The row of a type in the table of ancestors holds what lies above the type. Its row in the table
of properties has the type's own properties in front; the others are declared above it, each name once and
none of them its own, and no name that is declared above it is missing.
-/

namespace Workbench.TypeHierarchy

open Relation

variable {types : Array TypeInfo} {a id : TypeId} {done ids : List TypeId}

/-- Rows that are filled in after those of all supertypes are as they should be. -/
theorem filled_foldl {α : Type} {step : Array α → TypeId → Array α} (row : Array α → TypeId → α)
    (Right : TypeId → α → Prop) {blank : Array α}
    (step_eq : ∀ table id, step table id = table.setIfInBounds id (row table id))
    (fills : ∀ table id, id < types.size →
      (∀ b, Above types id b → ∃ r, table[b]? = some r ∧ Right b r) → Right id (row table id))
    (size : blank.size = types.size) (finished : Finished types done) :
    (done.foldl step blank).size = types.size ∧
      ∀ a ∈ done, ∃ r, (done.foldl step blank)[a]? = some r ∧ Right a r := by
  induction finished with
  | nil => exact ⟨size, nofun⟩
  | @snoc done id _ fresh bound supers ih =>
    obtain ⟨size, right⟩ := ih
    rw [List.foldl_append, List.foldl_cons, List.foldl_nil, step_eq]
    refine ⟨by rw [Array.size_setIfInBounds, size], fun a mem => ?_⟩
    rw [Array.getElem?_setIfInBounds]
    rcases List.mem_append.1 mem with earlier | last
    · have other : id ≠ a := fun same => fresh (same ▸ earlier)
      rw [if_neg other]
      exact right a earlier
    · obtain rfl := List.mem_singleton.1 last
      rw [if_pos rfl, if_pos (size ▸ bound)]
      exact ⟨_, rfl, fills _ _ bound fun b above => right b (supers b above)⟩

theorem mem_addNew {more : List TypeId} : a ∈ addNew ids more ↔ a ∈ ids ∨ a ∈ more := by
  unfold addNew
  induction more generalizing ids with
  | nil => simp
  | cons b more ih =>
    rw [List.foldl_cons, ih]
    by_cases known : b ∈ ids
    · simp only [List.contains_iff_mem, known, if_true, List.mem_cons]
      constructor
      · rintro (mem | mem)
        · exact .inl mem
        · exact .inr (.inr mem)
      · rintro (mem | rfl | mem)
        · exact .inl mem
        · exact .inl known
        · exact .inr mem
    · simp [known, or_assoc]

theorem mem_foldl_addNew {rows : TypeId → List TypeId} {supers : List TypeId} :
    a ∈ supers.foldl (fun acc s => addNew acc (rows s)) ids ↔ a ∈ ids ∨ ∃ s ∈ supers, a ∈ rows s := by
  induction supers generalizing ids with
  | nil => simp
  | cons s supers ih =>
    rw [List.foldl_cons, ih, mem_addNew]
    simp [or_assoc]

theorem supertypes_getD (types : Array TypeInfo) (id : TypeId) :
    (types[id]?.getD default).supertypes = supersOf types id := by
  unfold supersOf
  cases types[id]? <;> rfl

/-- The table of ancestors holds for every type what lies above it. -/
theorem ancestors_filled (finished : Finished types done) (mem : a ∈ done) :
    ∃ above, (done.foldl (inheritAncestors types) (Array.replicate types.size []))[a]? = some above ∧
      ∀ b, b ∈ above ↔ ReflTransGen (Above types) a b := by
  refine (filled_foldl (fun table id => _)
    (fun a above => ∀ b, b ∈ above ↔ ReflTransGen (Above types) a b) (fun _ _ => rfl) ?_ Array.size_replicate finished).2 a mem
  intro table id bound supers b
  rw [supertypes_getD, mem_foldl_addNew, ReflTransGen.cases_head_iff, List.mem_singleton]
  refine or_congr eq_comm (exists_congr fun s => and_congr_right fun above => ?_)
  obtain ⟨row, found, right⟩ := supers s above
  rw [found]
  exact right b

/-! ### Properties -/

/-- The properties that a type declares itself. -/
def ownOf (types : Array TypeInfo) (a : TypeId) : List (String × PropertyKind) :=
  (types[a]?.map TypeInfo.properties).getD []

/-- `props` has `own` in front. What follows comes from `sources`, under names that are new, and every
name of the sources is there. -/
structure Extended (own sources props : List (String × PropertyKind)) : Prop where
  added : ∃ added, props = own ++ added ∧ (added.map (·.1)).Nodup ∧
    ∀ p ∈ added, p.1 ∉ own.map (·.1) ∧ p ∈ sources
  names : ∀ p ∈ sources, p.1 ∈ props.map (·.1)

theorem any_name_iff {props : List (String × PropertyKind)} {name : String} :
    props.any (·.1 == name) = true ↔ name ∈ props.map (·.1) := by
  simp only [List.any_eq_true, beq_iff_eq, List.mem_map]

theorem Extended.addMissing {own sources props : List (String × PropertyKind)}
    (h : Extended own sources props) (more : List (String × PropertyKind)) :
    Extended own (sources ++ more) (addMissing props more) := by
  unfold TypeHierarchy.addMissing
  induction more generalizing sources props with
  | nil => simpa using h
  | cons p more ih =>
    rw [List.append_cons, List.foldl_cons]
    refine ih ?_
    obtain ⟨added, rfl, once, new⟩ := h.added
    split
    · next known =>
      rw [any_name_iff] at known
      refine ⟨⟨added, rfl, once, fun q mem => ?_⟩, fun q mem => ?_⟩
      · exact ⟨(new q mem).1, List.mem_append_left _ (new q mem).2⟩
      · rcases List.mem_append.1 mem with mem | last
        · exact h.names q mem
        · obtain rfl := List.mem_singleton.1 last
          exact known
    · next unknown =>
      rw [any_name_iff, List.map_append, List.mem_append, not_or] at unknown
      refine ⟨⟨added ++ [p], List.append_assoc _ _ _, ?_, fun q mem => ?_⟩, fun q mem => ?_⟩
      · rw [List.map_append, List.nodup_append]
        refine ⟨once, List.pairwise_singleton _ _, ?_⟩
        rintro name mem _ last rfl
        obtain rfl := List.mem_singleton.1 last
        exact unknown.2 mem
      · rcases List.mem_append.1 mem with mem | last
        · exact ⟨(new q mem).1, List.mem_append_left _ (new q mem).2⟩
        · obtain rfl := List.mem_singleton.1 last
          exact ⟨unknown.1, List.mem_append_right _ last⟩
      · rw [List.map_append, List.mem_append]
        rcases List.mem_append.1 mem with mem | last
        · exact .inl (h.names q mem)
        · exact .inr (List.mem_map_of_mem last)

theorem extended_foldl (own : List (String × PropertyKind))
    (rows : TypeId → List (String × PropertyKind)) (supers : List TypeId) :
    Extended own (supers.flatMap rows) (supers.foldl (fun acc s => addMissing acc (rows s)) own) := by
  have start : Extended own [] own := ⟨⟨[], by simp, .nil, nofun⟩, nofun⟩
  have general : ∀ {sources props}, Extended own sources props →
      Extended own (sources ++ supers.flatMap rows)
        (supers.foldl (fun acc s => TypeHierarchy.addMissing acc (rows s)) props) := by
    induction supers with
    | nil =>
      intro sources props h
      simpa using h
    | cons s supers ih =>
      intro sources props h
      rw [List.flatMap_cons, ← List.append_assoc]
      exact ih (h.addMissing (rows s))
  simpa using general start

/-- A type has its own properties in front. What follows is declared above it, under names that are
new, and every name declared at the type or above it is there. -/
structure Inherits (types : Array TypeInfo) (a : TypeId) (props : List (String × PropertyKind)) :
    Prop where
  split : ∃ inherited, props = ownOf types a ++ inherited ∧ (inherited.map (·.1)).Nodup ∧
    ∀ p ∈ inherited, p.1 ∉ (ownOf types a).map (·.1) ∧
      ∃ b, TransGen (Above types) a b ∧ p ∈ ownOf types b
  names : ∀ b, ReflTransGen (Above types) a b → ∀ p ∈ ownOf types b, p.1 ∈ props.map (·.1)

/-- Every property of a type is declared at the type or above it. -/
theorem Inherits.declared {props : List (String × PropertyKind)} (h : Inherits types a props)
    {p : String × PropertyKind} (mem : p ∈ props) :
    ∃ b, ReflTransGen (Above types) a b ∧ p ∈ ownOf types b := by
  obtain ⟨inherited, rfl, -, from_⟩ := h.split
  rcases List.mem_append.1 mem with own | mem
  · exact ⟨a, .refl, own⟩
  · obtain ⟨-, b, above, mem⟩ := from_ p mem
    exact ⟨b, above.to_reflTransGen, mem⟩

theorem properties_getD {types : Array TypeInfo} {id : TypeId} :
    (types[id]?.getD default).properties = ownOf types id := by
  unfold ownOf
  cases types[id]? <;> rfl

/-- The table of properties holds for every type what it has and inherits. -/
theorem properties_filled (finished : Finished types done) (mem : a ∈ done) :
    ∃ props, (done.foldl (inheritProperties types) (Array.replicate types.size []))[a]? = some props ∧
      Inherits types a props := by
  refine (filled_foldl (fun table id => _) (Inherits types) (fun _ _ => rfl) ?_ Array.size_replicate
    finished).2 a mem
  intro table id bound supers
  have extended := extended_foldl (ownOf types id) (fun s => table[s]?.getD []) (supersOf types id)
  rw [supertypes_getD, properties_getD]
  have rows : ∀ s ∈ supersOf types id, Inherits types s (table[s]?.getD []) := by
    intro s above
    obtain ⟨row, found, right⟩ := supers s above
    rw [found]
    exact right
  constructor
  · obtain ⟨added, eq, once, new⟩ := extended.added
    refine ⟨added, eq, once, fun p mem => ⟨(new p mem).1, ?_⟩⟩
    obtain ⟨s, above, mem⟩ := List.mem_flatMap.1 (new p mem).2
    obtain ⟨b, further, own⟩ := (rows s above).declared mem
    exact ⟨b, TransGen.head' above further, own⟩
  · intro b reaches p own
    rcases reaches.cases_head with rfl | ⟨s, above, further⟩
    · obtain ⟨added, eq, -⟩ := extended.added
      rw [eq, List.map_append]
      exact List.mem_append_left _ (List.mem_map_of_mem own)
    · obtain ⟨q, mem, same⟩ := List.mem_map.1 ((rows s above).names b further p own)
      rw [← same]
      exact extended.names q (List.mem_flatMap.2 ⟨s, above, mem⟩)

end Workbench.TypeHierarchy
