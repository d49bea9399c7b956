import Mathlib.Data.List.Induction
import Workbench.Proofs.Linking

/-!
**Descriptions of many documents.**

Of all descriptions that answer a reference, the first one of the smallest address is taken. No two
documents share an address, so the descriptions of an address stand side by side, however the documents
are listed, and what is taken is the same.
-/

namespace Workbench

namespace Linking

/-! ### The first description of the smallest address -/

/-- The description is the first of its address, and no other address is smaller. -/
structure FirstSmallest (l : List Description) (d : Description) : Prop where
  first : (l.filter (·.uri = d.uri)).head? = some d
  smallest : ∀ e ∈ l, ¬ e.uri < d.uri

theorem FirstSmallest.unique {l : List Description} {d e : Description} (hd : FirstSmallest l d)
    (he : FirstSmallest l e) : d = e := by
  have mem : ∀ {f : Description}, FirstSmallest l f → f ∈ l := fun h =>
    (List.mem_filter.1 (List.mem_of_head? h.first)).1
  have same : d.uri = e.uri :=
    String.le_antisymm (String.not_lt.1 (hd.smallest e (mem he))) (String.not_lt.1 (he.smallest d (mem hd)))
  have first := hd.first
  rw [same, he.first] at first
  exact (Option.some.inj first).symm

theorem firstSmallest_foldl (d : Description) (rest : List Description) :
    FirstSmallest (d :: rest) (rest.foldl (fun best e => if e.uri < best.uri then e else best) d) := by
  induction rest using List.reverseRecOn with
  | nil => exact ⟨by simp, List.forall_mem_singleton.2 (String.lt_irrefl d.uri)⟩
  | append_singleton rest e ih =>
    rw [List.foldl_append, List.foldl_cons, List.foldl_nil, ← List.cons_append]
    generalize rest.foldl (fun best e => if e.uri < best.uri then e else best) d = best at ih
    split
    · next less =>
      -- no description before `e` has an address as small
      have before : (d :: rest).filter (·.uri = e.uri) = [] := by
        rw [List.filter_eq_nil_iff]
        intro f mem same
        have same : f.uri = e.uri := by simpa using same
        exact ih.smallest f mem (same ▸ less)
      refine ⟨by rw [List.filter_append, before]; simp, ?_⟩
      intro f mem smaller
      rcases List.mem_append.1 mem with mem | mem
      · exact ih.smallest f mem (String.lt_trans smaller less)
      · rw [List.mem_singleton.1 mem] at smaller
        exact String.lt_irrefl _ smaller
    · next notLess =>
      refine ⟨by rw [List.filter_append, List.head?_append, ih.first]; rfl, ?_⟩
      intro f mem
      rcases List.mem_append.1 mem with mem | mem
      · exact ih.smallest f mem
      · rw [List.mem_singleton.1 mem]
        exact notLess

theorem smallest_eq_some_iff {l : List Description} {d : Description} :
    smallest l = some d ↔ FirstSmallest l d := by
  cases l with
  | nil =>
    constructor
    · nofun
    · intro h
      cases h.first
  | cons e rest =>
    have found := firstSmallest_foldl e rest
    constructor
    · intro h
      cases h
      exact found
    · intro h
      exact congrArg some (found.unique h)

theorem smallest_eq_none_iff {l : List Description} : smallest l = none ↔ l = [] := by
  cases l with
  | nil => exact iff_of_true rfl rfl
  | cons d rest => exact iff_of_false nofun nofun

/-- What is found depends on the descriptions of each address alone. -/
theorem smallest_of_filter {l m : List Description}
    (same : ∀ uri, l.filter (·.uri = uri) = m.filter (·.uri = uri)) : smallest l = smallest m := by
  have transfer : ∀ {l m : List Description},
      (∀ uri, l.filter (·.uri = uri) = m.filter (·.uri = uri)) → ∀ d, FirstSmallest l d →
        FirstSmallest m d := by
    intro l m same d h
    refine ⟨same d.uri ▸ h.first, fun e mem => h.smallest e ?_⟩
    have among : e ∈ m.filter (·.uri = e.uri) := List.mem_filter.2 ⟨mem, by simp⟩
    rw [← same] at among
    exact (List.mem_filter.1 among).1
  apply Option.ext
  intro d
  rw [smallest_eq_some_iff, smallest_eq_some_iff]
  exact ⟨transfer same d, transfer (fun uri => (same uri).symm) d⟩

/-- Descriptions by document, each document under an address of its own. -/
structure Grouped (groups : List (DocumentUri × List Description)) : Prop where
  distinct : (groups.map (·.1)).Nodup
  addressed : ∀ g ∈ groups, ∀ d ∈ g.2, d.uri = g.1

namespace Grouped

variable {groups groups' : List (DocumentUri × List Description)}

theorem of_perm (h : Grouped groups) (perm : groups.Perm groups') : Grouped groups' where
  distinct := (perm.map _).nodup_iff.1 h.distinct
  addressed := fun g mem => h.addressed g (perm.mem_iff.2 mem)

/-- All descriptions of an address are those of one document. -/
theorem filter_flatMap (h : Grouped groups) (uri : DocumentUri) :
    (groups.flatMap (·.2)).filter (·.uri = uri) = (groups.filter (·.1 = uri)).flatMap (·.2) := by
  obtain ⟨-, addressed⟩ := h
  induction groups with
  | nil => rfl
  | cons g rest ih =>
    have own := addressed g List.mem_cons_self
    rw [List.flatMap_cons, List.filter_append, List.filter_cons,
      ih fun g' mem => addressed g' (List.mem_cons_of_mem _ mem)]
    by_cases here : g.1 = uri
    · have all : g.2.filter (·.uri = uri) = g.2 := by
        rw [List.filter_eq_self]
        intro d mem
        simpa [own d mem] using here
      simp [here, all]
    · have none : g.2.filter (·.uri = uri) = [] := by
        rw [List.filter_eq_nil_iff]
        intro d mem
        simpa [own d mem] using here
      simp [here, none]

theorem filter_eq_of_perm (h : Grouped groups) (perm : groups.Perm groups') (uri : DocumentUri) :
    groups.filter (·.1 = uri) = groups'.filter (·.1 = uri) := by
  have keys : ((groups.filter (·.1 = uri)).map (·.1)).Nodup :=
    h.distinct.sublist (List.filter_sublist.map _)
  have here : ∀ g ∈ groups.filter (·.1 = uri), g.1 = uri := by
    intro g mem
    simpa using (List.mem_filter.1 mem).2
  have filtered := perm.filter (·.1 = uri)
  -- a list without repetitions in which all keys are the same has one entry at most
  match found : groups.filter (·.1 = uri) with
  | [] =>
    rw [found] at filtered ⊢
    exact filtered.nil_eq
  | [g] =>
    rw [found] at filtered ⊢
    exact (List.perm_singleton.1 filtered.symm).symm
  | g :: g' :: rest =>
    rw [found] at keys here
    have same : g.1 = g'.1 := by rw [here g (by simp), here g' (by simp)]
    simp [same] at keys

/-- The order in which documents are listed does not matter. -/
theorem smallest_of_perm (h : Grouped groups) (perm : groups.Perm groups') (p : Description → Bool) :
    smallest ((groups.flatMap (·.2)).filter p) = smallest ((groups'.flatMap (·.2)).filter p) := by
  have swap : ∀ (l : List Description) uri,
      (l.filter p).filter (·.uri = uri) = (l.filter (·.uri = uri)).filter p := by
    intro l uri
    rw [List.filter_filter, List.filter_filter]
    simp only [Bool.and_comm]
  refine smallest_of_filter fun uri => ?_
  rw [swap, swap, h.filter_flatMap, (h.of_perm perm).filter_flatMap, h.filter_eq_of_perm perm]

end Grouped

theorem exportedIn_eq_named (index : UriMap (List Description)) (name : String) :
    exportedIn index name = named (index.entries.flatMap (·.2)) name := by
  unfold exportedIn named
  rw [UriMap.values, List.flatMap_map, List.filter_flatMap]

/-! ### Documents in any order -/

/-- The descriptions of a name in documents, as they are listed. -/
def listed (documents : List (DocumentUri × List Description)) (name : String) : List Description :=
  documents.flatMap fun document => named document.2 name

theorem grouped_entries {index : UriMap (List Description)} (addressed : Addressed index) :
    Grouped index.entries where
  distinct := index.nodup_keys
  addressed := fun entry mem => addressed entry.1 entry.2 ((index.mem_entries_iff entry.1 entry.2).1 mem)

/-- What a reference is resolved to does not depend on the order of the documents. -/
theorem resolve_listed {index : UriMap (List Description)} (addressed : Addressed index)
    {documents : List (DocumentUri × List Description)} (perm : documents.Perm index.entries) (a : Ast)
    (r : Reference) (locals : LocalScopes) :
    resolve a r { locals, exported := listed documents } =
      resolve a r { locals, exported := exportedIn index } := by
  have all : listed documents r.text = named (documents.flatMap (·.2)) r.text := by
    rw [listed, named, List.filter_flatMap]
    rfl
  have same : smallest ((listed documents r.text).filter (fits a.types r.text r.target)) =
      smallest ((exportedIn index r.text).filter (fits a.types r.text r.target)) := by
    rw [all, exportedIn_eq_named, named, named, List.filter_filter, List.filter_filter]
    exact ((grouped_entries addressed).smallest_of_perm perm.symm _).symm
  unfold resolve
  rw [same]

end Linking

end Workbench
