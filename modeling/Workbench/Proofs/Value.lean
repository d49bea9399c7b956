import Mathlib.Data.List.Nodup
import Workbench.Ast

/-!
**What values hold.**

The nodes and references in a property are its *parts*, and a *link* is a part with the place where it is
held. Changing properties never makes a part: each operation keeps, drops or moves the parts that it is
given, which is said by counting how often each part occurs.
-/

namespace Workbench

/-- A node or reference that a property can hold. -/
inductive Part where
  | node (id : NodeId)
  | reference (id : RefId)
deriving DecidableEq, Repr

namespace Value

/-- The node or reference that a value is. -/
def part? : Value → Option Part
  | node id => some (.node id)
  | reference id => some (.reference id)
  | _ => none

/-- The nodes and references that a value holds directly: itself, or the items of a list. -/
def parts : Value → List Part
  | list items => items.filterMap part?
  | value => value.part?.toList

/-- The parts of a value under a feature, with the places where they are held. -/
def links (holder : NodeId) (feature : String) : Value → List (Part × Place)
  | list items => items.zipIdx.filterMap fun (item, i) => item.part?.map (·, ⟨holder, feature, some i⟩)
  | value => value.part?.toList.map (·, ⟨holder, feature, none⟩)

theorem map_fst_links (holder : NodeId) (feature : String) (v : Value) :
    (v.links holder feature).map Prod.fst = v.parts := by
  cases v with
  | list items =>
    have unpaired : (items.zipIdx.map Prod.fst).filterMap part? = items.filterMap part? := by
      rw [List.zipIdx_map_fst]
    rw [links, parts, ← unpaired, List.filterMap_map, List.map_filterMap]
    congr 1
    funext pair
    cases h : pair.1.part? <;> simp [h]
  | _ => rfl

theorem count_part?_le (v : Value) (x : Part) : v.part?.toList.count x ≤ v.parts.count x := by
  cases v with
  | list items => simp [part?]
  | _ => exact Nat.le_refl _

theorem parts_list_append (items more : List Value) :
    (list (items ++ more)).parts = (list items).parts ++ (list more).parts := by
  simp [parts]

theorem parts_list_singleton (v : Value) : (list [v]).parts = v.part?.toList := by
  cases h : v.part? <;> simp [parts, h]

/-- A link names the value at its place. -/
theorem mem_links_iff {holder : NodeId} {feature : String} {v : Value} {link : Part × Place} :
    link ∈ v.links holder feature ↔
      (v.part? = some link.1 ∧ link.2 = ⟨holder, feature, none⟩) ∨
      ∃ items i item, v = .list items ∧ items[i]? = some item ∧ item.part? = some link.1 ∧
        link.2 = ⟨holder, feature, some i⟩ := by
  obtain ⟨x, place⟩ := link
  cases v with
  | list items =>
    simp only [links, part?, List.mem_filterMap, List.mk_mem_zipIdx_iff_getElem?, Prod.exists,
      Option.map_eq_some_iff, Prod.mk.injEq, reduceCtorEq, false_and, false_or, list.injEq]
    constructor
    · rintro ⟨item, i, found, y, isPart, rfl, rfl⟩
      exact ⟨items, i, item, rfl, found, isPart, rfl⟩
    · rintro ⟨_, i, item, rfl, found, isPart, rfl⟩
      exact ⟨item, i, found, x, isPart, rfl, rfl⟩
  | _ => simp [links, part?, eq_comm]

end Value

namespace Properties

/-- All parts held by the values, in order. -/
def parts (p : Properties) : List Part := p.entries.flatMap (·.2.parts)

/-- All parts with the places where they are held, in order. -/
def links (holder : NodeId) (p : Properties) : List (Part × Place) :=
  p.entries.flatMap fun entry => entry.2.links holder entry.1

variable {p : Properties} {x : Part}

theorem map_fst_links (holder : NodeId) (p : Properties) :
    (p.links holder).map Prod.fst = p.parts := by
  simp only [links, parts, List.map_flatMap, Value.map_fst_links]

theorem holder_of_mem_links {holder : NodeId} {link : Part × Place} (h : link ∈ p.links holder) :
    link.2.holder = holder := by
  obtain ⟨entry, -, mem⟩ := List.mem_flatMap.1 h
  rcases Value.mem_links_iff.1 mem with ⟨-, place⟩ | ⟨_, _, _, -, -, -, place⟩ <;> rw [place]

theorem mem_parts_iff (holder : NodeId) : x ∈ p.parts ↔ ∃ place, (x, place) ∈ p.links holder := by
  rw [← map_fst_links holder]
  simp

/-! ### Counting parts -/

/-- If the new value of a name brings at most `k` more of a part, so do the properties. -/
theorem count_upsert_le {k : Nat} {name : String} {f : Value → Value} {fresh : Value}
    (changed : ∀ v, (f v).parts.count x ≤ v.parts.count x + k) (added : fresh.parts.count x ≤ k)
    (entries : List (String × Value)) :
    (parts ⟨upsert name f fresh entries⟩).count x ≤ (parts ⟨entries⟩).count x + k := by
  induction entries with
  | nil => simpa [upsert, parts] using added
  | cons entry rest ih =>
    obtain ⟨n, v⟩ := entry
    have here := changed v
    simp only [parts, List.count_flatMap] at ih ⊢
    unfold upsert
    split
    · simp only [List.map_cons, List.sum_cons, Function.comp_apply]
      omega
    · simp only [List.map_cons, List.sum_cons, Function.comp_apply]
      omega

theorem count_set_le (p : Properties) (name : String) (value : Value) (x : Part) :
    (p.set name value).parts.count x ≤ p.parts.count x + value.parts.count x := by
  have replaced : ∀ v : Value, value.parts.count x ≤ v.parts.count x + value.parts.count x := by
    intro v
    omega
  exact count_upsert_le replaced (Nat.le_refl _) p.entries

theorem count_append_le (p : Properties) (name : String) (value : Value) (x : Part) :
    (p.append name value).parts.count x ≤ p.parts.count x + value.parts.count x := by
  have added := value.count_part?_le x
  rw [← Value.parts_list_singleton] at added
  refine count_upsert_le (fun v => ?_) added p.entries
  have joined : ∀ items : List Value, (Value.list items).parts.count x ≤ v.parts.count x →
      (Value.list (items ++ [value])).parts.count x ≤ v.parts.count x + value.parts.count x := by
    intro items le
    rw [Value.parts_list_append, List.count_append]
    omega
  split
  · next items => exact joined items (Nat.le_refl _)
  · have kept := v.count_part?_le x
    rw [← Value.parts_list_singleton] at kept
    exact joined [v] kept

theorem count_fill_le (p : Properties) (entry : String × Value) (x : Part) :
    (p.fill entry).parts.count x ≤ p.parts.count x + entry.2.parts.count x := by
  refine count_upsert_le (fun v => ?_) (Nat.le_refl _) p.entries
  split
  · split
    · next theirs eq =>
      rw [eq, Value.parts_list_append, List.count_append]
      omega
    · omega
  · omega

theorem count_fillFrom_le (p other : Properties) (x : Part) :
    (p.fillFrom other).parts.count x ≤ p.parts.count x + other.parts.count x := by
  have fold : ∀ (entries : List (String × Value)) (p : Properties),
      (entries.foldl fill p).parts.count x ≤ p.parts.count x + (parts ⟨entries⟩).count x := by
    intro entries
    induction entries with
    | nil => simp [parts]
    | cons entry rest ih =>
      intro p
      have first := p.count_fill_le entry x
      have further := ih (p.fill entry)
      simp only [parts, List.flatMap_cons, List.count_append, List.foldl_cons] at first further ⊢
      omega
  exact fold other.entries p

/-! ### Look-ups -/

theorem lookup_upsert_self (name : String) (f : Value → Value) (fresh : Value)
    (entries : List (String × Value)) :
    (upsert name f fresh entries).lookup name = some (((entries.lookup name).map f).getD fresh) := by
  induction entries with
  | nil => simp [upsert]
  | cons entry rest ih =>
    obtain ⟨n, v⟩ := entry
    unfold upsert
    by_cases same : n = name
    · simp [same]
    · have differ : (name == n) = false := beq_eq_false_iff_ne.2 fun eq => same eq.symm
      rw [if_neg (by simpa using same), List.lookup_cons, List.lookup_cons, differ]
      exact ih

theorem lookup_upsert_ne {name other : String} (differ : other ≠ name) (f : Value → Value)
    (fresh : Value) (entries : List (String × Value)) :
    (upsert name f fresh entries).lookup other = entries.lookup other := by
  induction entries with
  | nil => simp [upsert, differ]
  | cons entry rest ih =>
    obtain ⟨n, v⟩ := entry
    unfold upsert
    split
    · next same =>
      obtain rfl : n = name := by simpa using same
      have differ : (other == n) = false := beq_eq_false_iff_ne.2 differ
      rw [List.lookup_cons, List.lookup_cons, differ]
    · rw [List.lookup_cons, List.lookup_cons, ih]

@[simp] theorem get?_empty (name : String) : empty.get? name = none := rfl

@[simp] theorem get?_set_self (p : Properties) (name : String) (value : Value) :
    (p.set name value).get? name = some value := by
  unfold set get?
  rw [lookup_upsert_self]
  cases p.entries.lookup name <;> rfl

@[simp] theorem get?_set_ne (p : Properties) {name other : String} (differ : other ≠ name) (value : Value) :
    (p.set name value).get? other = p.get? other :=
  lookup_upsert_ne differ _ _ _

theorem get?_append_ne (p : Properties) {name other : String} (differ : other ≠ name)
    (value : Value) : (p.append name value).get? other = p.get? other :=
  lookup_upsert_ne differ _ _ _

/-- What the other side does not have is not filled in. -/
theorem get?_fillFrom_of_none (p other : Properties) {name : String}
    (absent : other.get? name = none) : (p.fillFrom other).get? name = p.get? name := by
  obtain ⟨entries⟩ := other
  unfold fillFrom
  induction entries generalizing p with
  | nil => rfl
  | cons entry rest ih =>
    unfold get? at absent
    rw [List.lookup_cons] at absent
    split at absent
    · cases absent
    · next differ =>
      rw [List.foldl_cons, ih _ absent]
      exact lookup_upsert_ne (by simpa using differ) _ _ _

/-! ### Defaults -/

theorem get?_isSome_iff {name : String} : (p.get? name).isSome = true ↔ p.contains name = true := by
  simp only [get?, contains, List.lookup_isSome_iff, List.any_eq_true, beq_iff_eq]
  simp only [eq_comm]

theorem contains_set {name other : String} (value : Value)
    (h : p.contains other = true ∨ other = name) : (p.set name value).contains other = true := by
  obtain ⟨entries⟩ := p
  simp only [set, contains, List.any_eq_true, beq_iff_eq] at h ⊢
  induction entries with
  | nil => simpa [upsert, eq_comm] using h
  | cons entry rest ih =>
    obtain ⟨n, v⟩ := entry
    unfold upsert
    split
    · next same =>
      obtain rfl : n = name := by simpa using same
      simp only [List.mem_cons, exists_eq_or_imp] at h ⊢
      tauto
    · simp only [List.mem_cons, exists_eq_or_imp, or_assoc] at h ⊢
      exact h.imp_right ih

end Properties

end Workbench
