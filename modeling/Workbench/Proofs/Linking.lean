import Workbench.Linking
import Workbench.Proofs.Scope
import Workbench.Proofs.UriMap

/-!
**What linking makes of a tree.**

Linking a tree whose references are all open resolves each reference that a node holds in the context
as it is, and touches nothing else; how far it came when it was stopped, the tree without its
resolutions is the same as before.

A reference that no local scope answers is answered from the exports of all documents. The document of
the smallest address that exports a fitting description decides, and of its exports the first that
fits.
-/

namespace Workbench

/-! ### References of a tree -/

namespace Ast

theorem mem_placed_iff (a : Ast) (id : RefId) (r : Reference) :
    (id, r) ∈ a.placed ↔ a.references[id]? = some r ∧ r.place.isSome := by
  simp only [placed, List.mem_filterMap, Prod.exists, List.mk_mem_zipIdx_iff_getElem?,
    Array.getElem?_toList]
  constructor
  · rintro ⟨r', id', found, eq⟩
    split at eq
    · next h =>
      cases eq
      exact ⟨found, h⟩
    · cases eq
  · rintro ⟨found, h⟩
    exact ⟨r, id, found, by simp [h]⟩

/-- The references that are listed are those that a node holds. -/
theorem mem_map_snd_placed_iff (a : Ast) (r : Reference) :
    r ∈ a.placed.map (·.2) ↔ r ∈ a.references ∧ r.place.isSome := by
  simp only [List.mem_map, Prod.exists, mem_placed_iff, Array.mem_iff_getElem?]
  constructor
  · rintro ⟨id, _, ⟨found, h⟩, rfl⟩
    exact ⟨⟨id, found⟩, h⟩
  · rintro ⟨⟨id, found⟩, h⟩
    exact ⟨id, r, ⟨found, h⟩, rfl⟩

theorem mem_map_fst_placed_iff (a : Ast) (id : RefId) :
    id ∈ a.placed.map (·.1) ↔ ∃ r, a.references[id]? = some r ∧ r.place.isSome := by
  simp only [List.mem_map, Prod.exists, mem_placed_iff]
  constructor
  · rintro ⟨_, r, h, rfl⟩
    exact ⟨r, h⟩
  · rintro ⟨r, h⟩
    exact ⟨id, r, h, rfl⟩

/-- No reference is listed twice. -/
theorem nodup_placed (a : Ast) : (a.placed.map (·.1)).Nodup := by
  have listed : a.placed.map (·.1) =
      (a.references.toList.zipIdx.filter (·.1.place.isSome)).map (·.2) := by
    unfold placed
    rw [List.map_filterMap, ← List.filterMap_eq_map, List.filterMap_filter]
    refine congrArg (List.filterMap · _) (funext fun entry => ?_)
    dsimp only [Function.comp]
    split <;> rfl
  rw [listed]
  refine List.Nodup.sublist (List.filter_sublist.map _) ?_
  rw [List.zipIdx_map_snd]
  exact List.nodup_range'

theorem unlink_unlink (a : Ast) : a.unlink.unlink = a.unlink := by
  unfold unlink
  simp [Function.comp_def]

theorem unlinked_unlink (a : Ast) : ∀ r ∈ a.unlink.references, r.resolution = none := by
  intro r mem
  obtain ⟨_, -, rfl⟩ := Array.mem_map.1 mem
  rfl

/-- Walks along containers do not look at references. -/
theorem ancestorsFrom_references (a : Ast) (references : Array Reference) (fuel : Nat)
    (id : NodeId) : { a with references }.ancestorsFrom fuel id = a.ancestorsFrom fuel id := by
  induction fuel generalizing id with
  | zero => rfl
  | succ fuel ih =>
    simp only [ancestorsFrom, ih]
    rfl

end Ast

namespace Linking

/-! ### Linking in one context -/

theorem nearest?_references (a : Ast) (references : Array Reference) (r : Reference)
    (locals : LocalScopes) : nearest? { a with references } r locals = nearest? a r locals := by
  unfold nearest?
  cases r.place with
  | none => rfl
  | some place =>
    exact congrArg (List.findSome? _ ·) (Ast.ancestorsFrom_references a references _ place.holder)

theorem resolve_references (a : Ast) (references : Array Reference) (r : Reference)
    (cx : LinkContext) : resolve { a with references } r cx = resolve a r cx := by
  unfold resolve
  rw [nearest?_references]

/-- A reference after it was linked. -/
def linkReference (cx : LinkContext) (a : Ast) (r : Reference) : Reference :=
  if r.isLinked then r else { r with resolution := some (resolve a r cx) }

/-- The tree after the references `ids` were linked. -/
def linkThese (cx : LinkContext) (a : Ast) (ids : List RefId) : Ast :=
  { a with references := a.references.mapIdx fun i r =>
      if i ∈ ids then linkReference cx a r else r }

/-- The tree in which every reference that a node holds is resolved. -/
def resolveAll (cx : LinkContext) (a : Ast) : Ast :=
  { a with references := a.references.map fun r =>
      if r.place.isSome then { r with resolution := some (resolve a r cx) } else r }

theorem reference?_resolveAll (cx : LinkContext) {a : Ast} {id : RefId} {r : Reference}
    (found : a.reference? id = some r) (placed : r.place.isSome = true) :
    (resolveAll cx a).reference? id = some { r with resolution := some (resolve a r cx) } := by
  unfold Ast.reference? at found ⊢
  rw [resolveAll, Array.getElem?_map, found, Option.map_some, if_pos placed]

theorem linkReference_references (cx : LinkContext) (a : Ast) (references : Array Reference) :
    linkReference cx { a with references } = linkReference cx a := by
  funext r
  unfold linkReference
  rw [resolve_references]

theorem isLinked_linkReference (cx : LinkContext) (a : Ast) (r : Reference) :
    (linkReference cx a r).isLinked := by
  unfold linkReference
  split
  · assumption
  · rfl

theorem linkReference_linkReference (cx : LinkContext) (a : Ast) (r : Reference) :
    linkReference cx a (linkReference cx a r) = linkReference cx a r :=
  if_pos (isLinked_linkReference cx a r)

theorem linkOne_eq_linkThese (cx : LinkContext) (a : Ast) (id : RefId) :
    linkOne cx a id = linkThese cx a [id] := by
  have same : ∀ references : Array Reference,
      (∀ i : Nat, references[i]? = if i = id then a.references[i]?.map (linkReference cx a)
        else a.references[i]?) →
      { a with references } = linkThese cx a [id] := by
    intro references h
    unfold linkThese
    congr 1
    apply Array.ext_getElem?
    intro i
    rw [h, Array.getElem?_mapIdx]
    by_cases eq : i = id
    · simp [eq]
    · simp [eq]
  unfold linkOne
  cases found : a.reference? id with
  | none =>
    refine same a.references fun i => ?_
    by_cases eq : i = id
    · subst eq
      rw [if_pos rfl, show a.references[i]? = none from found]
      rfl
    · rw [if_neg eq]
  | some r =>
    have at_id : a.references[id]? = some r := found
    dsimp only
    split
    · next linked =>
      refine same a.references fun i => ?_
      by_cases eq : i = id
      · subst eq
        rw [if_pos rfl, at_id]
        simp [linkReference, linked]
      · rw [if_neg eq]
    · next open_ =>
      refine same _ fun i => ?_
      rw [Array.getElem?_setIfInBounds]
      have inBounds : id < a.references.size := (Array.getElem?_eq_some_iff.1 at_id).1
      by_cases eq : i = id
      · subst eq
        rw [if_pos rfl, if_pos rfl, if_pos inBounds, at_id]
        simp [linkReference, open_]
      · rw [if_neg eq, if_neg (Ne.symm eq)]

theorem linkThese_nil (cx : LinkContext) (a : Ast) : linkThese cx a [] = a := by
  have same : a.references.mapIdx (fun i r => if i ∈ [] then linkReference cx a r else r) =
      a.references := by
    apply Array.ext_getElem?
    intro i
    simp
  unfold linkThese
  rw [same]

theorem linkThese_cons (cx : LinkContext) (a : Ast) (id : RefId) (rest : List RefId) :
    linkThese cx (linkThese cx a [id]) rest = linkThese cx a (id :: rest) := by
  unfold linkThese
  simp only [linkReference_references, Array.mapIdx_mapIdx]
  congr 2
  funext i r
  by_cases first : i = id
  · by_cases later : i ∈ rest
    · simp [first, linkReference_linkReference]
    · simp [first, linkReference_linkReference]
  · simp [first]

/-- Linking that is not stopped links every reference that it is told to. -/
theorem linkEach_ast_of_ok {cx : LinkContext} {ids : List RefId} {a : Ast} {stats : LinkStats}
    {token : Cancellation} {v : LinkStats × Cancellation}
    (ok : (linkEach cx ids a stats token).outcome = .ok v) :
    (linkEach cx ids a stats token).ast = linkThese cx a ids := by
  induction ids generalizing a stats token with
  | nil => exact (linkThese_nil cx a).symm
  | cons id rest ih =>
    rw [linkEach] at ok ⊢
    cases read : Cancellable.checkpoint token with
    | error e =>
      rw [read] at ok
      cases ok
    | ok v =>
      rw [read] at ok
      dsimp only at ok ⊢
      rw [ih ok, linkOne_eq_linkThese, linkThese_cons]

theorem linkEach_never (cx : LinkContext) (ids : List RefId) (a : Ast) (stats : LinkStats) :
    ∃ total, (linkEach cx ids a stats .never).outcome = .ok (total, .never) := by
  induction ids generalizing a stats with
  | nil => exact ⟨_, rfl⟩
  | cons id rest ih => exact ih _ _

theorem unlink_linkThese (cx : LinkContext) (a : Ast) (ids : List RefId) :
    (linkThese cx a ids).unlink = a.unlink := by
  unfold linkThese Ast.unlink
  congr 1
  apply Array.ext_getElem?
  intro i
  simp only [Array.getElem?_map, Array.getElem?_mapIdx, Option.map_map]
  congr 1
  funext r
  simp only [Function.comp, linkReference]
  split
  · split <;> rfl
  · rfl

theorem unlink_resolveAll (cx : LinkContext) (a : Ast) : (resolveAll cx a).unlink = a.unlink := by
  unfold resolveAll Ast.unlink
  congr 1
  rw [Array.map_map]
  congr 1
  funext r
  simp only [Function.comp]
  split <;> rfl

/-- Resolving references keeps them where they are. -/
theorem perm_placed_resolveAll (cx : LinkContext) (a : Ast) :
    ((resolveAll cx a).placed.map (·.1)).Perm (a.placed.map (·.1)) := by
  refine (List.perm_ext_iff_of_nodup (Ast.nodup_placed _) a.nodup_placed).2 fun id => ?_
  rw [Ast.mem_map_fst_placed_iff, Ast.mem_map_fst_placed_iff, resolveAll, Array.getElem?_map]
  cases a.references[id]? with
  | none => rfl
  | some r => cases placed : r.place <;> simp [placed]

theorem unlink_linkEach (cx : LinkContext) (ids : List RefId) (a : Ast) (stats : LinkStats)
    (token : Cancellation) : (linkEach cx ids a stats token).ast.unlink = a.unlink := by
  induction ids generalizing a stats token with
  | nil => rfl
  | cons id rest ih =>
    rw [linkEach]
    split
    · rfl
    · rw [ih, linkOne_eq_linkThese, unlink_linkThese]

/-- Linking changes nothing but resolutions, also when it is stopped. -/
theorem unlink_link (cx : LinkContext) (a : Ast) (token : Cancellation) :
    (link cx a token).ast.unlink = a.unlink :=
  unlink_linkEach cx _ a {} token

/-- Linking an open tree resolves every reference that a node holds. -/
theorem link_ast_of_ok {cx : LinkContext} {a : Ast}
    (unlinked : ∀ r ∈ a.references, r.resolution = none) {token : Cancellation}
    {v : LinkStats × Cancellation} (ok : (link cx a token).outcome = .ok v) :
    (link cx a token).ast = resolveAll cx a := by
  refine (linkEach_ast_of_ok ok).trans ?_
  unfold linkThese resolveAll
  congr 1
  apply Array.ext_getElem?
  intro i
  rw [Array.getElem?_mapIdx, Array.getElem?_map]
  cases found : a.references[i]? with
  | none => rfl
  | some r =>
    have none_at : r.resolution = none := unlinked r (Array.mem_of_getElem? found)
    have placed : i ∈ a.placed.map (·.1) ↔ r.place.isSome := by
      rw [Ast.mem_map_fst_placed_iff, found]
      simp
    simp [placed, linkReference, Reference.isLinked, none_at]

/-- Where nothing stops it, linking comes to its end. -/
theorem link_never (cx : LinkContext) (a : Ast) :
    ∃ total, (link cx a .never).outcome = .ok (total, .never) :=
  linkEach_never cx _ a {}

/-! ### Answers from all documents -/

/-- Every description of an index stands under its own address. -/
def Addressed (index : UriMap (List Description)) : Prop :=
  ∀ uri ds, index.get? uri = some ds → ∀ d ∈ ds, d.uri = uri

/-- The descriptions of a name in an index. -/
def exportedIn (index : UriMap (List Description)) (name : String) : List Description :=
  index.values.flatMap (named · name)

theorem smallest_eq_head? {l : List Description} (sorted : l.Pairwise fun d e => ¬ e.uri < d.uri) :
    smallest l = l.head? := by
  cases l with
  | nil => rfl
  | cons d rest =>
    have kept : ∀ rest : List Description, (∀ e ∈ rest, ¬ e.uri < d.uri) →
        rest.foldl (fun best e => if e.uri < best.uri then e else best) d = d := by
      intro rest h
      induction rest with
      | nil => rfl
      | cons e rest ih =>
        rw [List.foldl_cons, if_neg (h e List.mem_cons_self)]
        exact ih fun e mem => h e (List.mem_cons_of_mem _ mem)
    exact congrArg some (kept rest (List.pairwise_cons.1 sorted).1)

theorem sorted_exportedIn {index : UriMap (List Description)} (addressed : Addressed index)
    (name : String) : (exportedIn index name).Pairwise fun d e => ¬ e.uri < d.uri := by
  have at_address : ∀ e ∈ index.entries, ∀ d ∈ named e.2 name, d.uri = e.1 := by
    rintro ⟨uri, ds⟩ mem d memd
    exact addressed uri ds ((index.mem_entries_iff uri ds).1 mem) d (List.mem_filter.1 memd).1
  have entries : index.entries.Pairwise fun e f =>
      ∀ x ∈ named e.2 name, ∀ y ∈ named f.2 name, ¬ y.uri < x.uri := by
    refine List.Pairwise.imp_of_mem ?_ (List.pairwise_map.1 index.sorted)
    intro e f meme memf lt x memx y memy gt
    rw [at_address e meme x memx, at_address f memf y memy] at gt
    exact String.lt_irrefl e.1 (String.lt_trans lt gt)
  rw [exportedIn, UriMap.values, List.flatMap_map, List.pairwise_flatMap]
  refine ⟨fun e mem => ?_, entries⟩
  -- within one document all addresses are the same
  refine List.pairwise_of_forall_mem_list fun x memx y memy lt => ?_
  rw [at_address e mem x memx, at_address e mem y memy] at lt
  exact String.lt_irrefl e.1 lt

/-- Of all exported descriptions that fit, the first of the smallest address decides. -/
theorem smallest_fitting {index : UriMap (List Description)} (addressed : Addressed index)
    (types : TypeHierarchy) (name : String) (target : TypeId) :
    smallest ((exportedIn index name).filter (fits types name target)) =
      index.values.findSome? (·.find? (fits types name target)) := by
  have fitting : ∀ ds : List Description,
      (named ds name).filter (fits types name target) = ds.filter (fits types name target) := by
    intro ds
    rw [named, List.filter_filter]
    congr 1
    funext d
    cases h : d.name == name
    · simp [fits, h]
    · simp
  rw [smallest_eq_head? ((sorted_exportedIn addressed name).filter _), exportedIn,
    List.filter_flatMap, List.head?_flatMap]
  simp only [fitting, List.head?_filter]

/-! ### Resolutions that hold -/

/-- What a reference may stay resolved to: the nearest local description that fits; else the first
that fits among the exports of the document it is in; and nothing only if nothing fits anywhere. -/
inductive Tenable (index : UriMap (List Description)) (a : Ast) (locals : LocalScopes)
    (r : Reference) : Resolution → Prop where
  | near {d : Description} (near : nearest? a r locals = some d) : Tenable index a locals r (.resolved d)
  | far {d : Description} {ds : List Description} (notNear : nearest? a r locals = none)
      (exported : index.get? d.uri = some ds)
      (first : ds.find? (fits a.types r.text r.target) = some d) : Tenable index a locals r (.resolved d)
  | nowhere (notNear : nearest? a r locals = none)
      (notFar : ∀ uri ds, index.get? uri = some ds → ds.find? (fits a.types r.text r.target) = none) :
      Tenable index a locals r (.unresolved (unresolvedMessage a.types r))

/-- A description was found among the exports of a document, and a document of a smaller address
exports one that fits as well. -/
def Overtaken (index : UriMap (List Description)) (a : Ast) (locals : LocalScopes) (r : Reference)
    (d : Description) : Prop :=
  nearest? a r locals = none ∧
    ∃ uri ds, uri < d.uri ∧ index.get? uri = some ds ∧
      (ds.find? (fits a.types r.text r.target)).isSome

/-- What resolving yields can be kept. -/
theorem tenable_resolve {index : UriMap (List Description)} (addressed : Addressed index) (a : Ast)
    (locals : LocalScopes) (r : Reference) :
    Tenable index a locals r (resolve a r { locals, exported := exportedIn index }) := by
  unfold resolve
  cases near : nearest? a r locals with
  | some d => exact .near near
  | none =>
    dsimp only
    rw [smallest_fitting addressed]
    cases far : index.values.findSome? (·.find? (fits a.types r.text r.target)) with
    | some d =>
      obtain ⟨uri, ds, exported, first, -⟩ := (index.findSome?_values_eq_some_iff _ d).1 far
      have at_address : d.uri = uri := addressed uri ds exported d (List.mem_of_find?_eq_some first)
      subst at_address
      exact .far near exported first
    | none => exact .nowhere near ((index.findSome?_values_eq_none_iff _).1 far)

/-- What can be kept is what resolving anew yields, unless it was overtaken. -/
theorem Tenable.eq_resolve_iff {index : UriMap (List Description)} (addressed : Addressed index)
    {a : Ast} {locals : LocalScopes} {r : Reference} {x : Resolution}
    (h : Tenable index a locals r x) :
    x = resolve a r { locals, exported := exportedIn index } ↔
      ∀ d, x = .resolved d → ¬ Overtaken index a locals r d := by
  have anew : ∀ d, index.values.findSome? (·.find? (fits a.types r.text r.target)) = some d →
      ∃ ds, index.get? d.uri = some ds ∧ ds.find? (fits a.types r.text r.target) = some d ∧
        ∀ k < d.uri, ∀ es, index.get? k = some es → es.find? (fits a.types r.text r.target) = none := by
    intro d far
    obtain ⟨uri, ds, exported, first, least⟩ := (index.findSome?_values_eq_some_iff _ d).1 far
    have at_address : d.uri = uri := addressed uri ds exported d (List.mem_of_find?_eq_some first)
    subst at_address
    exact ⟨ds, exported, first, least⟩
  unfold resolve
  cases h with
  | near near =>
    simp only [near, true_iff]
    rintro d - ⟨notNear, -⟩
    rw [near] at notNear
    cases notNear
  | nowhere notNear notFar =>
    simp only [notNear]
    rw [smallest_fitting addressed, (index.findSome?_values_eq_none_iff _).2 notFar]
    simp
  | @far d ds notNear exported first =>
    simp only [notNear]
    rw [smallest_fitting addressed]
    constructor
    · intro eq e eqd
      cases eqd
      rintro ⟨-, uri, es, lt, exported', fits'⟩
      cases found : index.values.findSome? (·.find? (fits a.types r.text r.target)) with
      | none =>
        rw [found] at eq
        cases eq
      | some e =>
        rw [found] at eq
        cases eq
        obtain ⟨_, _, _, least⟩ := anew d found
        rw [least uri lt es exported'] at fits'
        cases fits'
    · intro notOvertaken
      have least : ∀ k < d.uri, ∀ es, index.get? k = some es →
          es.find? (fits a.types r.text r.target) = none := by
        intro k lt es exported'
        rw [← Option.not_isSome_iff_eq_none]
        intro found
        exact notOvertaken d rfl ⟨notNear, k, es, lt, exported', found⟩
      have found := (index.findSome?_values_eq_some_iff
        (·.find? (fits a.types r.text r.target)) d).2 ⟨d.uri, ds, exported, first, least⟩
      rw [found]

/-- A description stays tenable as long as the exports of its own document stay. -/
theorem Tenable.of_get? {index index' : UriMap (List Description)} {a : Ast}
    {locals : LocalScopes} {r : Reference} {d : Description}
    (h : Tenable index a locals r (.resolved d))
    (stay : ∀ ds, index.get? d.uri = some ds → index'.get? d.uri = some ds) :
    Tenable index' a locals r (.resolved d) := by
  cases h with
  | near near => exact .near near
  | far notNear exported first => exact .far notNear (stay _ exported) first

/-- The references of a tree are resolved to what they may stay resolved to, as far as a node holds
them; the others are open. -/
def Settled (index : UriMap (List Description)) (locals : LocalScopes) (a : Ast) : Prop :=
  ∀ r ∈ a.references,
    (r.place.isSome → ∃ x, r.resolution = some x ∧ Tenable index a locals r x) ∧
      (r.place = none → r.resolution = none)

theorem tenable_references {index : UriMap (List Description)} {a : Ast} {locals : LocalScopes}
    {references : Array Reference} {r : Reference} {y : Option Resolution} {x : Resolution}
    (h : Tenable index a locals r x) :
    Tenable index { a with references } locals { r with resolution := y } x := by
  have same : nearest? { a with references } { r with resolution := y } locals =
      nearest? a r locals := nearest?_references a references _ locals
  cases h with
  | near near => exact .near (same.trans near)
  | far notNear exported first => exact .far (same.trans notNear) exported first
  | nowhere notNear notFar => exact .nowhere (same.trans notNear) notFar

/-- A tree that was open is settled once it is linked. -/
theorem settled_resolveAll {index : UriMap (List Description)} (addressed : Addressed index)
    (locals : LocalScopes) {a : Ast} (unlinked : ∀ r ∈ a.references, r.resolution = none) :
    Settled index locals (resolveAll { locals, exported := exportedIn index } a) := by
  intro r mem
  obtain ⟨r₀, mem₀, rfl⟩ := Array.mem_map.1 mem
  by_cases placed : r₀.place.isSome
  · simp only [placed, if_true]
    refine ⟨fun _ => ⟨_, rfl, tenable_references (tenable_resolve addressed a locals r₀)⟩, ?_⟩
    intro notPlaced
    rw [notPlaced] at placed
    cases placed
  · simp only [placed]
    exact ⟨fun h => absurd h placed, fun _ => unlinked r₀ mem₀⟩

/-- A settled tree stays settled if all its references have targets whose documents keep their
exports. -/
theorem Settled.of_get? {index index' : UriMap (List Description)} {locals : LocalScopes} {a : Ast}
    (h : Settled index locals a)
    (stay : ∀ r ∈ a.references, r.place.isSome → ∀ x, r.resolution = some x →
      ∃ d, x = .resolved d ∧ ∀ ds, index.get? d.uri = some ds → index'.get? d.uri = some ds) :
    Settled index' locals a := by
  intro r mem
  refine ⟨fun placed => ?_, (h r mem).2⟩
  obtain ⟨x, resolved, tenable⟩ := (h r mem).1 placed
  obtain ⟨d, rfl, keep⟩ := stay r mem placed x resolved
  exact ⟨_, resolved, tenable.of_get? keep⟩

/-! ### Linking anew -/

/-- A reference as it is when its tree is linked anew. -/
def relink (cx : LinkContext) (a : Ast) (r : Reference) : Reference :=
  { r with resolution := if r.place.isSome then some (resolve a r cx) else none }

theorem resolveAll_unlink (cx : LinkContext) (a : Ast) :
    resolveAll cx a.unlink = { a with references := a.references.map (relink cx a) } := by
  have same : ∀ r : Reference, resolve a.unlink { r with resolution := none } cx = resolve a r cx :=
    fun r => resolve_references a _ { r with resolution := none } cx
  have references : (resolveAll cx a.unlink).references = a.references.map (relink cx a) := by
    apply Array.ext_getElem?
    intro i
    simp only [resolveAll, Ast.unlink, Array.map_map, Array.getElem?_map]
    congr 1
    funext r
    have at_r := same r
    unfold Ast.unlink at at_r
    simp only [Function.comp, relink, at_r]
    split <;> rfl
  calc resolveAll cx a.unlink
      = { a with references := (resolveAll cx a.unlink).references } := rfl
    _ = { a with references := a.references.map (relink cx a) } := by rw [references]

/-- A settled tree is what linking it anew yields, unless a target was overtaken. -/
theorem Settled.eq_resolveAll_iff {index : UriMap (List Description)} (addressed : Addressed index)
    {locals : LocalScopes} {a : Ast} (h : Settled index locals a) :
    a = resolveAll { locals, exported := exportedIn index } a.unlink ↔
      ∀ r ∈ a.references, ∀ d, r.resolution = some (.resolved d) → ¬ Overtaken index a locals r d := by
  -- reference by reference, what is kept is compared with what resolving anew yields
  have anew : ∀ r ∈ a.references, r = relink { locals, exported := exportedIn index } a r ↔
      ∀ d, r.resolution = some (.resolved d) → ¬ Overtaken index a locals r d := by
    intro r mem
    obtain ⟨text, target, source, place, resolution⟩ := r
    cases place with
    | none =>
      have open_ : resolution = none := (h _ mem).2 rfl
      subst open_
      exact ⟨fun _ => nofun, fun _ => rfl⟩
    | some place =>
      obtain ⟨x, eq, tenable⟩ := (h _ mem).1 rfl
      cases eq
      simp only [relink, Option.isSome_some, if_true, Reference.mk.injEq, true_and,
        Option.some.injEq]
      exact tenable.eq_resolve_iff addressed
  rw [resolveAll_unlink]
  constructor
  · intro eq r mem
    obtain ⟨i, found⟩ := Array.mem_iff_getElem?.1 mem
    have at_i := congrArg (fun a : Ast => a.references[i]?) eq
    simp only [Array.getElem?_map, found, Option.map_some, Option.some.injEq] at at_i
    exact (anew r mem).1 at_i
  · intro notOvertaken
    have same : a.references.map (relink { locals, exported := exportedIn index } a) = a.references := by
      apply Array.ext_getElem?
      intro i
      rw [Array.getElem?_map]
      cases found : a.references[i]? with
      | none => rfl
      | some r =>
        have mem := Array.mem_of_getElem? found
        exact congrArg some ((anew r mem).2 (notOvertaken r mem)).symm
    rw [same]

end Linking

end Workbench
