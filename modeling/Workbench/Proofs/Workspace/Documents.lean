import Workbench.DomainModel
import Workbench.Proofs.Workspace.Sound

/-!
**Documents at all times.**

What is read off from soundness about every run: the index holds the exports of exactly the documents that
are indexed, and no resolution is stale. A target is still where it was found, and what was found nowhere
is still nowhere.
-/

namespace Workbench

open Cancellable Linking

/-! ### The index -/

namespace Workspace.Sound

/-- The index holds the exports of exactly the documents that are indexed. -/
theorem get?_index_eq_some_iff {l : Language} {o : ValidationOptions} {w : Workspace} (h : w.Sound l o)
    (uri : DocumentUri) (ds : List Description) :
    w.index.get? uri = some ds ↔
      ∃ d, w.documents.get? uri = some d ∧ .indexed ≤ d.state ∧ d.progress.exports = ds := by
  rw [h.index, Option.bind_eq_some_iff]
  constructor
  · rintro ⟨d, found, eq⟩
    unfold Document.indexed? at eq
    split at eq
    · next state => exact ⟨d, found, state, Option.some.inj eq⟩
    · cases eq
  · rintro ⟨d, found, state, rfl⟩
    exact ⟨d, found, if_pos state⟩

end Workspace.Sound

/-! ### Resolutions -/

/-- The node that holds a reference, and its containers, innermost first. -/
def Reference.containers (r : Reference) (a : Ast) : List NodeId :=
  match r.place with
  | none => []
  | some place => a.ancestors place.holder

/-- A description has the name and a type that a reference asks for. -/
def Reference.Asks (r : Reference) (types : TypeHierarchy) (d : Description) : Prop :=
  d.name = r.text ∧ types.isSubtype d.type r.target = true

/-- What a reference of a tree is resolved to is so in a workspace as it is: a target is asked for, and
is in a scope around the reference or is exported by a document of the workspace; and without a target,
nothing that is asked for is in either. -/
def Workspace.Vouches (w : Workspace) (a : Ast) (locals : LocalScopes) (r : Reference) :
    Resolution → Prop
  | .resolved target =>
    r.Asks a.types target ∧
      ((∃ container ∈ r.containers a, target ∈ locals.get container) ∨
        w.documents.contains target.uri = true ∧
          ∃ ds, w.index.get? target.uri = some ds ∧ target ∈ ds)
  | .unresolved _ =>
    ∀ d, r.Asks a.types d →
      (∀ container ∈ r.containers a, d ∉ locals.get container) ∧
        ∀ uri ds, w.index.get? uri = some ds → d ∉ ds

namespace Linking

theorem fits_iff (r : Reference) (types : TypeHierarchy) (d : Description) :
    fits types r.text r.target d = true ↔ r.Asks types d := by
  unfold fits Reference.Asks
  simp

theorem nearest?_eq (a : Ast) (r : Reference) (locals : LocalScopes) :
    nearest? a r locals = (r.containers a).findSome? fun container =>
      (locals.get container).find? (fits a.types r.text r.target) := by
  unfold nearest? Reference.containers
  cases r.place with
  | none => rfl
  | some place => rfl

theorem mem_of_nearest? {a : Ast} {r : Reference} {locals : LocalScopes} {d : Description}
    (h : nearest? a r locals = some d) :
    r.Asks a.types d ∧ ∃ container ∈ r.containers a, d ∈ locals.get container := by
  rw [nearest?_eq] at h
  obtain ⟨container, mem, found⟩ := List.exists_of_findSome?_eq_some h
  exact ⟨(fits_iff r _ d).1 (List.find?_some found), container, mem, List.mem_of_find?_eq_some found⟩

theorem not_mem_of_nearest? {a : Ast} {r : Reference} {locals : LocalScopes}
    (h : nearest? a r locals = none) {d : Description} (asked : r.Asks a.types d) :
    ∀ container ∈ r.containers a, d ∉ locals.get container := by
  intro container mem within
  rw [nearest?_eq] at h
  have absent := List.findSome?_eq_none_iff.1 h container mem
  exact List.find?_eq_none.1 absent d within ((fits_iff r _ d).2 asked)

end Linking

/-- What can be kept is so. -/
theorem Workspace.Sound.vouches {l : Language} {o : ValidationOptions} {w : Workspace}
    (h : w.Sound l o) {a : Ast} {locals : LocalScopes} {r : Reference} {x : Resolution}
    (tenable : Tenable w.index a locals r x) : w.Vouches a locals r x := by
  cases tenable with
  | near near =>
    obtain ⟨asked, within⟩ := mem_of_nearest? near
    exact ⟨asked, .inl within⟩
  | @far target ds notNear exported first =>
    obtain ⟨d, found, -⟩ := (h.get?_index_eq_some_iff target.uri ds).1 exported
    have there : w.documents.contains target.uri = true := by
      rw [UriMap.contains, found]
      rfl
    refine ⟨(fits_iff r _ _).1 (List.find?_some first), .inr ⟨there, ?_⟩⟩
    exact ⟨_, exported, List.mem_of_find?_eq_some first⟩
  | nowhere notNear notFar =>
    intro d asked
    refine ⟨not_mem_of_nearest? notNear asked, fun uri ds exported mem => ?_⟩
    exact List.find?_eq_none.1 (notFar uri ds exported) d mem ((fits_iff r _ d).2 asked)

/-- In every run, no resolution of a linked document is stale: every reference of it that a node holds
is linked, and what it is linked to is so in the workspace as it is. -/
theorem Site.vouches_run (l : Language) (o : ValidationOptions) (actions : List Action) :
    let w := ((opened l o).run actions).workspace
    ∀ uri d, w.documents.get? uri = some d → .linked ≤ d.state →
      ∃ result, d.progress.result? = some result ∧ ∀ r ∈ d.references,
        ∃ x, r.resolution = some x ∧ w.Vouches result.ast d.progress.locals r x := by
  intro w uri d found state
  have sound : w.Sound l o := (sound_run l o actions).workspace
  obtain ⟨result, eq⟩ := d.progress.exists_result (Nat.le_trans (by decide) state)
  refine ⟨result, eq, fun r mem => ?_⟩
  rw [d.references_of_result eq, Ast.mem_map_snd_placed_iff] at mem
  obtain ⟨x, resolved, tenable⟩ := (sound.settled uri d found result eq state r mem.1).1 mem.2
  exact ⟨x, resolved, sound.vouches tenable⟩

namespace Site

/-- The language of domain models with plain scopes and without checks. -/
def plain : Language :=
  { DomainModel.language with scoping := .direct, registry := .empty DomainModel.types }

/-- The document `c` refers to a class in the document `b`. Both are built, by that many tasks. -/
def extension (tasks : Nat) : List Action :=
  [.apply "b" (.set 1 "class X {}"), .apply "c" (.set 1 "class C extends X {}"), .begin [] [],
    .start 1] ++ List.replicate tasks (.step .never)

theorem vouches_extension :
    ∃ d result, ((opened plain {}).run (extension 12)).workspace.documents.get? "c" = some d ∧
      d.state = .linked ∧ d.references.length = 1 ∧ d.progress.result? = some result ∧
      ∀ r ∈ d.references, ∃ x, r.resolution = some x ∧
        ((opened plain {}).run (extension 12)).workspace.Vouches result.ast d.progress.locals r x := by
  have linked : (((opened plain {}).run (extension 12)).workspace.documents.get? "c").map
      (fun d => (d.state, d.references.length)) = some (.linked, 1) := by decide +kernel
  obtain ⟨d, found, eq⟩ := Option.map_eq_some_iff.1 linked
  obtain ⟨state, one⟩ := Prod.mk.inj eq
  have reached : .linked ≤ d.state := Nat.le_of_eq (congrArg DocumentState.rank state.symm)
  obtain ⟨result, parsed, vouches⟩ := vouches_run plain {} (extension 12) "c" d found reached
  exact ⟨d, result, found, state, one, parsed, vouches⟩

end Site

end Workbench
