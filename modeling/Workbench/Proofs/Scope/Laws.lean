import Workbench.Proofs.Cancellation
import Workbench.Scope.Packages

/-!
**What scopes depend on.**

Exports and local scopes are read off the nodes of a tree: forgetting what its references were
resolved to changes neither. Every description in them is one of a node, under the name of the node or
that name in some package, and carries the address of its document.
-/

namespace Workbench

open Cancellable

/-! ### Nodes without their references -/

namespace Ast

variable (a : Ast)

theorem preorderFrom_unlink (fuel : Nat) (id : NodeId) :
    a.unlink.preorderFrom fuel id = a.preorderFrom fuel id := by
  induction fuel generalizing id with
  | zero => rfl
  | succ fuel ih =>
    have below : a.unlink.preorderFrom fuel = a.preorderFrom fuel := funext ih
    simp only [preorderFrom, below]
    rfl

theorem preorder_unlink : a.unlink.preorder = a.preorder :=
  preorderFrom_unlink a a.nodes.size a.root

theorem uri_of_describeAs {uri : DocumentUri} {name : String} {id : NodeId} {d : Description}
    (h : a.describeAs uri name id = some d) : d.uri = uri := by
  obtain ⟨node, -, rfl⟩ := Option.map_eq_some_iff.1 h
  rfl

/-- The description is one of a named node, under its name in some package. -/
def Describes (uri : DocumentUri) (d : Description) : Prop :=
  ∃ id name package, a.nameOf? id = some name ∧
    a.describeAs uri (Scope.qualify package name) id = some d

theorem Describes.uri {uri : DocumentUri} {d : Description} (h : a.Describes uri d) : d.uri = uri := by
  obtain ⟨id, name, package, -, described⟩ := h
  exact a.uri_of_describeAs described

theorem describes_of_describe {uri : DocumentUri} {id : NodeId} {d : Description}
    (h : a.describe uri id = some d) : a.Describes uri d := by
  obtain ⟨name, named, described⟩ := Option.bind_eq_some_iff.1 h
  exact ⟨id, name, "", named, described⟩

end Ast

namespace Scope

variable (a : Ast) (uri : DocumentUri)

/-! ### Named nodes directly below -/

theorem steady_directExports : Steady (directExports a uri) :=
  steady_checkpoint.bind fun _ => steady_pure _

theorem ensures_directExports :
    Ensures (directExports a uri) fun ds => ∀ d ∈ ds, a.Describes uri d := by
  refine Ensures.bind (p := fun _ => True) (fun _ _ _ _ => trivial) fun _ _ => ensures_pure ?_
  intro d mem
  obtain ⟨id, -, described⟩ := List.mem_filterMap.1 mem
  exact a.describes_of_describe described

theorem ends_directExports : Ends (directExports a uri) :=
  ends_checkpoint.bind fun _ => ends_pure _

theorem localEntries_unlink (ids : List NodeId) :
    localEntries a.unlink uri ids = localEntries a uri ids := by
  induction ids with
  | nil => rfl
  | cons id rest ih =>
    simp only [localEntries, ih]
    rfl

theorem steady_localEntries (ids : List NodeId) : Steady (localEntries a uri ids) := by
  induction ids with
  | nil => exact steady_pure _
  | cons id rest ih =>
    exact steady_checkpoint.bind fun _ => ih.bind fun _ => steady_pure _

theorem ends_localEntries (ids : List NodeId) : Ends (localEntries a uri ids) := by
  induction ids with
  | nil => exact ends_pure _
  | cons id rest ih =>
    exact ends_checkpoint.bind fun _ => ih.bind fun _ => ends_pure _

theorem ensures_localEntries (ids : List NodeId) :
    Ensures (localEntries a uri ids) fun entries => ∀ entry ∈ entries, a.Describes uri entry.2 := by
  induction ids with
  | nil => exact ensures_pure (by simp)
  | cons id rest ih =>
    refine Ensures.bind (p := fun _ => True) (fun _ _ _ _ => trivial) fun _ _ => ?_
    refine ih.bind fun entries below => ensures_pure fun entry mem => ?_
    rcases List.mem_append.1 mem with here | mem
    · obtain ⟨container, -, found⟩ := Option.bind_eq_some_iff.1 (Option.mem_toList.1 here)
      obtain ⟨d, described, eq⟩ := Option.bind_eq_some_iff.1 found
      cases eq
      exact a.describes_of_describe described
    · exact below entry mem

theorem ensures_directLocal :
    Ensures (directLocal a uri) fun scopes => ∀ entry ∈ scopes.entries, a.Describes uri entry.2 :=
  (ensures_localEntries a uri a.preorder).bind fun _ below => ensures_pure below

theorem directLocal_unlink : directLocal a.unlink uri = directLocal a uri := by
  simp only [directLocal, localEntries_unlink, Ast.preorder_unlink]

theorem steady_directLocal : Steady (directLocal a uri) :=
  (steady_localEntries a uri a.preorder).bind fun _ => steady_pure _

theorem ends_directLocal : Ends (directLocal a uri) :=
  (ends_localEntries a uri a.preorder).bind fun _ => ends_pure _

/-! ### Qualified names -/

theorem packageExports_unlink (fuel : Nat) (package : String) (id : NodeId) :
    packageExports a.unlink uri fuel package id = packageExports a uri fuel package id := by
  induction fuel generalizing package id with
  | zero => rfl
  | succ fuel ih =>
    have below : packageExports a.unlink uri fuel = packageExports a uri fuel :=
      funext fun package => funext fun id => ih package id
    simp only [packageExports, below]
    rfl

theorem steady_packageExports (fuel : Nat) (package : String) (id : NodeId) :
    Steady (packageExports a uri fuel package id) := by
  induction fuel generalizing package id with
  | zero => exact steady_pure _
  | succ fuel ih =>
    refine steady_checkpoint.bind fun _ => ?_
    cases a.nameOf? id with
    | none => exact steady_pure _
    | some name =>
      dsimp only
      split
      · exact (steady_mapM (ih (qualify package name)) _).bind fun _ => steady_pure _
      · split
        · exact steady_pure _
        · exact steady_pure _

theorem ends_packageExports (fuel : Nat) (package : String) (id : NodeId) :
    Ends (packageExports a uri fuel package id) := by
  induction fuel generalizing package id with
  | zero => exact ends_pure _
  | succ fuel ih =>
    refine ends_checkpoint.bind fun _ => ?_
    cases a.nameOf? id with
    | none => exact ends_pure _
    | some name =>
      dsimp only
      split
      · exact (ends_mapM (ih (qualify package name)) _).bind fun _ => ends_pure _
      · split
        · exact ends_pure _
        · exact ends_pure _

theorem ensures_packageExports (fuel : Nat) (package : String) (id : NodeId) :
    Ensures (packageExports a uri fuel package id) fun ds => ∀ d ∈ ds, a.Describes uri d := by
  induction fuel generalizing package id with
  | zero => exact ensures_pure (by simp)
  | succ fuel ih =>
    refine Ensures.bind (p := fun _ => True) (fun _ _ _ _ => trivial) fun _ _ => ?_
    cases named : a.nameOf? id with
    | none => exact ensures_pure (by simp)
    | some name =>
      dsimp only
      split
      · refine (ensures_mapM (ih (qualify package name)) _).bind fun nested h => ensures_pure ?_
        intro d mem
        obtain ⟨ds, memds, mem⟩ := List.mem_flatten.1 mem
        exact h ds memds d mem
      · split
        · refine ensures_pure fun d mem => ?_
          exact ⟨id, name, package, named, Option.mem_toList.1 mem⟩
        · exact ensures_pure (by simp)

theorem qualifiedExports_unlink : qualifiedExports a.unlink uri = qualifiedExports a uri := by
  have below : packageExports a.unlink uri a.nodes.size "" = packageExports a uri a.nodes.size "" :=
    funext fun id => packageExports_unlink a uri a.nodes.size "" id
  change (do
    let found ← (a.children a.root "elements").mapM (packageExports a.unlink uri a.nodes.size "")
    return found.flatten) = _
  rw [below]
  rfl

theorem steady_qualifiedExports : Steady (qualifiedExports a uri) :=
  (steady_mapM (steady_packageExports a uri a.nodes.size "") _).bind fun _ => steady_pure _

theorem ends_qualifiedExports : Ends (qualifiedExports a uri) :=
  (ends_mapM (ends_packageExports a uri a.nodes.size "") _).bind fun _ => ends_pure _

theorem ensures_qualifiedExports :
    Ensures (qualifiedExports a uri) fun ds => ∀ d ∈ ds, a.Describes uri d := by
  refine (ensures_mapM (ensures_packageExports a uri a.nodes.size "") _).bind fun nested h =>
    ensures_pure ?_
  intro d mem
  obtain ⟨ds, memds, mem⟩ := List.mem_flatten.1 mem
  exact h ds memds d mem

theorem qualifiedLocal_unlink : qualifiedLocal a.unlink uri = qualifiedLocal a uri := by
  simp only [qualifiedLocal, directLocal_unlink, qualifiedExports_unlink]
  rfl

theorem steady_qualifiedLocal : Steady (qualifiedLocal a uri) :=
  (steady_directLocal a uri).bind fun _ =>
    (steady_qualifiedExports a uri).bind fun _ => steady_pure _

theorem ensures_qualifiedLocal :
    Ensures (qualifiedLocal a uri) fun scopes => ∀ entry ∈ scopes.entries, a.Describes uri entry.2 := by
  refine (ensures_directLocal a uri).bind fun scopes direct => ?_
  refine (ensures_qualifiedExports a uri).bind fun exports described => ensures_pure fun entry mem => ?_
  rcases List.mem_append.1 mem with mem | mem
  · exact direct entry mem
  · obtain ⟨d, nested, rfl⟩ := List.mem_map.1 mem
    exact described d (List.mem_filter.1 nested).1

theorem ends_qualifiedLocal : Ends (qualifiedLocal a uri) :=
  (ends_directLocal a uri).bind fun _ => (ends_qualifiedExports a uri).bind fun _ => ends_pure _

end Scope

end Workbench
