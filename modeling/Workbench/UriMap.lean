import Workbench.Description

/-!
**Maps by address.**

What a workspace keeps per document is stored under the document's address. The entries stand in increasing
order of the addresses, so every walk over a map visits documents in one order, and two maps with the same
entries are equal. `Documents` and an `IndexManager` are such maps.
-/

namespace Workbench

/-- Values by address, in increasing order of the addresses. -/
structure UriMap (α : Type) where
  entries : List (DocumentUri × α)
  sorted : (entries.map (·.1)).Pairwise (· < ·)
deriving DecidableEq

namespace UriMap

variable {α : Type}

def empty : UriMap α := ⟨[], .nil⟩

instance : Inhabited (UriMap α) := ⟨empty⟩

/-- The addresses, in increasing order. -/
def keys (m : UriMap α) : List DocumentUri := m.entries.map (·.1)

def values (m : UriMap α) : List α := m.entries.map (·.2)

def isEmpty (m : UriMap α) : Bool := m.entries.isEmpty

def get? (m : UriMap α) (uri : DocumentUri) : Option α := m.entries.lookup uri

def contains (m : UriMap α) (uri : DocumentUri) : Bool := (m.get? uri).isSome

/-! ### Insertion -/

/-- Puts an entry into its place, over an entry of the same address. -/
def insertEntry (uri : DocumentUri) (a : α) : List (DocumentUri × α) → List (DocumentUri × α)
  | [] => [(uri, a)]
  | (k, b) :: rest =>
    if uri < k then (uri, a) :: (k, b) :: rest
    else if uri = k then (uri, a) :: rest
    else (k, b) :: insertEntry uri a rest

theorem mem_keys_insertEntry {uri : DocumentUri} {a : α} {l : List (DocumentUri × α)}
    {k : DocumentUri} (h : k ∈ (insertEntry uri a l).map (·.1)) : k = uri ∨ k ∈ l.map (·.1) := by
  induction l with
  | nil => simpa [insertEntry] using h
  | cons e rest ih => grind [insertEntry]

theorem sorted_insertEntry (uri : DocumentUri) (a : α) {l : List (DocumentUri × α)}
    (h : (l.map (·.1)).Pairwise (· < ·)) :
    ((insertEntry uri a l).map (·.1)).Pairwise (· < ·) := by
  induction l with
  | nil => simp [insertEntry]
  | cons e rest ih =>
    have tail := ih (List.pairwise_cons.1 h).2
    have head := (List.pairwise_cons.1 h).1
    rw [insertEntry]
    split
    · next lt =>
      refine List.pairwise_cons.2 ⟨fun k hk => ?_, h⟩
      rcases List.mem_cons.1 hk with rfl | hk
      · exact lt
      · exact String.lt_trans lt (head k hk)
    · next nlt =>
      split
      · next eq => exact List.pairwise_cons.2 ⟨fun k hk => eq ▸ head k hk, (List.pairwise_cons.1 h).2⟩
      · next ne =>
        refine List.pairwise_cons.2 ⟨fun k hk => ?_, tail⟩
        rcases mem_keys_insertEntry hk with rfl | hk
        · show e.1 < k
          grind
        · exact head k hk

/-- Stores a value, over the one stored under the address before. -/
def insert (m : UriMap α) (uri : DocumentUri) (a : α) : UriMap α :=
  ⟨insertEntry uri a m.entries, sorted_insertEntry uri a m.sorted⟩

/-! ### Removal -/

theorem sorted_filter (p : DocumentUri × α → Bool) {l : List (DocumentUri × α)}
    (h : (l.map (·.1)).Pairwise (· < ·)) : ((l.filter p).map (·.1)).Pairwise (· < ·) :=
  h.sublist ((List.filter_sublist).map _)

def erase (m : UriMap α) (uri : DocumentUri) : UriMap α :=
  ⟨m.entries.filter (·.1 != uri), sorted_filter _ m.sorted⟩

/-- The map without some addresses. -/
def eraseAll (m : UriMap α) (uris : List DocumentUri) : UriMap α := uris.foldl erase m

/-! ### Change in place -/

/-- Changes every value, with its address at hand. -/
def map {β : Type} (m : UriMap α) (f : DocumentUri → α → β) : UriMap β :=
  ⟨m.entries.map fun e => (e.1, f e.1 e.2), by simpa [Function.comp_def] using m.sorted⟩

/-- Changes the value of an address, if there is one. -/
def modify (m : UriMap α) (uri : DocumentUri) (f : α → α) : UriMap α :=
  m.map fun k a => if k = uri then f a else a

/-! ### What is found after a change -/

theorem lookup_insertEntry (uri k : DocumentUri) (a : α) (l : List (DocumentUri × α)) :
    (insertEntry uri a l).lookup k = if k = uri then some a else l.lookup k := by
  induction l with
  | nil => grind [insertEntry]
  | cons e rest ih => grind [insertEntry]

@[simp] theorem get?_empty (uri : DocumentUri) : (empty : UriMap α).get? uri = none := rfl

theorem get?_insert (m : UriMap α) (uri k : DocumentUri) (a : α) :
    (m.insert uri a).get? k = if k = uri then some a else m.get? k :=
  lookup_insertEntry uri k a m.entries

theorem get?_erase (m : UriMap α) (uri k : DocumentUri) :
    (m.erase uri).get? k = if k = uri then none else m.get? k := by
  obtain ⟨entries, sorted⟩ := m
  simp only [get?, erase]
  clear sorted
  induction entries with
  | nil => simp
  | cons e rest ih => grind

theorem get?_map {β : Type} (m : UriMap α) (f : DocumentUri → α → β) (k : DocumentUri) :
    (m.map f).get? k = (m.get? k).map (f k) := by
  obtain ⟨entries, sorted⟩ := m
  simp only [get?, map]
  clear sorted
  induction entries with
  | nil => simp
  | cons e rest ih => grind

theorem get?_modify (m : UriMap α) (uri k : DocumentUri) (f : α → α) :
    (m.modify uri f).get? k = if k = uri then (m.get? k).map f else m.get? k := by
  rw [modify, get?_map]
  split <;> simp

end UriMap

end Workbench
