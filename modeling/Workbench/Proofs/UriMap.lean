import Workbench.UriMap

/-!
**What a map by address holds.**

The entries of a map are what its look-ups find, each address once. So a map is settled by its
look-ups, and a search through all values, in the order of the entries, ends at the smallest address
at which there is something to find.
-/

namespace Workbench.UriMap

variable {α β : Type}

/-! ### Entries and look-ups -/

theorem lookup_eq_some_iff {l : List (DocumentUri × α)} (distinct : (l.map (·.1)).Nodup)
    (uri : DocumentUri) (a : α) : l.lookup uri = some a ↔ (uri, a) ∈ l := by
  induction l with
  | nil => simp
  | cons e rest ih =>
    obtain ⟨k, b⟩ := e
    obtain ⟨head, distinct⟩ := List.nodup_cons.1 distinct
    have tail := ih distinct
    rw [List.lookup_cons, List.mem_cons]
    by_cases h : uri = k
    · subst h
      have absent : (uri, a) ∉ rest := fun mem => head (List.mem_map.2 ⟨_, mem, rfl⟩)
      simp [absent, eq_comm]
    · have differ : (uri == k) = false := beq_eq_false_iff_ne.2 h
      simp [differ, h, tail]

theorem nodup_keys (m : UriMap α) : (m.entries.map (·.1)).Nodup :=
  m.sorted.imp fun lt => String.ne_of_lt lt

theorem nodup_of_keys {l : List (DocumentUri × α)} (distinct : (l.map (·.1)).Nodup) : l.Nodup := by
  refine List.Pairwise.of_map (fun e : DocumentUri × α => e.1) ?_ distinct
  intro e f differ same
  exact differ (congrArg Prod.fst same)

theorem mem_entries_iff (m : UriMap α) (uri : DocumentUri) (a : α) :
    (uri, a) ∈ m.entries ↔ m.get? uri = some a :=
  (lookup_eq_some_iff m.nodup_keys uri a).symm

theorem mem_keys_iff (m : UriMap α) (uri : DocumentUri) :
    uri ∈ m.keys ↔ ∃ a, m.get? uri = some a := by
  simp only [keys, List.mem_map, Prod.exists, mem_entries_iff]
  constructor
  · rintro ⟨k, a, found, rfl⟩
    exact ⟨a, found⟩
  · rintro ⟨a, found⟩
    exact ⟨uri, a, found, rfl⟩

theorem get?_eraseAll (m : UriMap α) (uris : List DocumentUri) (k : DocumentUri) :
    (m.eraseAll uris).get? k = if k ∈ uris then none else m.get? k := by
  induction uris generalizing m with
  | nil => rfl
  | cons uri rest ih =>
    rw [eraseAll, List.foldl_cons, ← eraseAll, ih, get?_erase]
    by_cases h : k ∈ rest
    · simp [h]
    · simp [h]

/-- Two maps in which every look-up finds the same are equal. -/
theorem ext_get? {m n : UriMap α} (h : ∀ uri, m.get? uri = n.get? uri) : m = n := by
  have perm : m.entries.Perm n.entries := by
    rw [List.perm_ext_iff_of_nodup (nodup_of_keys m.nodup_keys) (nodup_of_keys n.nodup_keys)]
    rintro ⟨uri, a⟩
    rw [mem_entries_iff, mem_entries_iff, h]
  have eq : m.entries = n.entries := by
    refine perm.eq_of_pairwise ?_ (List.pairwise_map.1 m.sorted) (List.pairwise_map.1 n.sorted)
    intro x y _ _ lt gt
    exact absurd (String.lt_trans lt gt) (String.lt_irrefl x.1)
  cases m
  cases n
  cases eq
  rfl

/-- A value that takes the place of another leaves the addresses as they are. -/
theorem keys_insert {m : UriMap α} {uri : DocumentUri} {a : α} (found : m.get? uri = some a) (b : α) :
    (m.insert uri b).keys = m.keys := by
  have perm : (m.insert uri b).keys.Perm m.keys := by
    refine (List.perm_ext_iff_of_nodup (nodup_keys _) (nodup_keys _)).2 fun k => ?_
    refine (mem_keys_iff _ k).trans (Iff.trans ?_ (mem_keys_iff m k).symm)
    by_cases same : k = uri
    · subst same
      simp [get?_insert, found]
    · simp [get?_insert, same]
  refine perm.eq_of_pairwise ?_ (m.insert uri b).sorted m.sorted
  intro x y _ _ lt gt
  exact absurd (String.lt_trans lt gt) (String.lt_irrefl x)

theorem insert_of_get? {m : UriMap α} {uri : DocumentUri} {a : α} (found : m.get? uri = some a) :
    m.insert uri a = m := by
  refine ext_get? fun k => ?_
  rw [get?_insert]
  split
  · next same => rw [same, found]
  · rfl

/-! ### Searches -/

theorem findSome?_values_eq_none_iff (m : UriMap α) (f : α → Option β) :
    m.values.findSome? f = none ↔ ∀ uri a, m.get? uri = some a → f a = none := by
  simp only [values, List.findSome?_eq_none_iff, List.mem_map, Prod.exists, mem_entries_iff]
  constructor
  · intro h uri a found
    exact h a ⟨uri, a, found, rfl⟩
  · rintro h a ⟨uri, _, found, rfl⟩
    exact h uri _ found

/-- A search through the values ends at the smallest address with something to find. -/
theorem findSome?_values_eq_some_iff (m : UriMap α) (f : α → Option β) (b : β) :
    m.values.findSome? f = some b ↔
      ∃ uri a, m.get? uri = some a ∧ f a = some b ∧
        ∀ k < uri, ∀ c, m.get? k = some c → f c = none := by
  obtain ⟨l, sorted⟩ := m
  simp only [values, ← mem_entries_iff]
  induction l with
  | nil => simp
  | cons e rest ih =>
    obtain ⟨k, a⟩ := e
    have head := (List.pairwise_cons.1 sorted).1
    have below : ∀ uri c, (uri, c) ∈ rest → k < uri := fun uri c mem =>
      head uri (List.mem_map.2 ⟨_, mem, rfl⟩)
    rw [List.map_cons, List.findSome?_cons]
    cases found : f a with
    | some b' =>
      constructor
      · rintro ⟨⟩
        refine ⟨k, a, List.mem_cons_self, found, fun j lt c mem => ?_⟩
        rcases List.mem_cons.1 mem with eq | mem
        · cases eq
          exact absurd lt (String.lt_irrefl k)
        · exact absurd (String.lt_trans lt (below j c mem)) (String.lt_irrefl j)
      · rintro ⟨uri, c, mem, hit, least⟩
        rcases List.mem_cons.1 mem with eq | mem
        · cases eq
          rw [← hit, found]
        · have := least k (below uri c mem) a List.mem_cons_self
          rw [found] at this
          cases this
    | none =>
      refine (ih (List.pairwise_cons.1 sorted).2).trans ?_
      constructor
      · rintro ⟨uri, c, mem, hit, least⟩
        refine ⟨uri, c, List.mem_cons_of_mem _ mem, hit, fun j lt d memj => ?_⟩
        rcases List.mem_cons.1 memj with eq | memj
        · cases eq
          exact found
        · exact least j lt d memj
      · rintro ⟨uri, c, mem, hit, least⟩
        rcases List.mem_cons.1 mem with eq | mem
        · cases eq
          rw [found] at hit
          cases hit
        · exact ⟨uri, c, mem, hit, fun j lt d memj => least j lt d (List.mem_cons_of_mem _ memj)⟩

end Workbench.UriMap
