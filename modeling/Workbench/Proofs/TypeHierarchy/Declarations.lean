import Workbench.Proofs.TypeHierarchy.Tables

/-!
**From declarations to a hierarchy.**

A list of declarations makes a hierarchy if and only if the names are distinct, every supertype is declared
and no type lies above itself. Types are known by their places in the list, and the hierarchy answers for
the declarations: one type is a subtype of another if direct steps lead from the first up to the second,
and it has the properties that are declared at it or above it.
-/

namespace Workbench.TypeHierarchy

open Relation

variable {decls : List TypeDecl} {a b c id : TypeId}

/-- Type `a` names type `b` among its supertypes. -/
def Extends (decls : List TypeDecl) (a b : TypeId) : Prop :=
  ∃ d e, decls[a]? = some d ∧ decls[b]? = some e ∧ e.name ∈ d.supertypes

/-! ### Looking up supertypes -/

theorem mapM_eq_ok_iff {ε α β : Type} {f : α → Except ε β} {l : List α} {bs : List β} :
    l.mapM f = .ok bs ↔ l.map f = bs.map .ok := by
  induction l generalizing bs with
  | nil =>
    rw [List.mapM_nil, List.map_nil]
    cases bs with
    | nil => exact ⟨fun _ => rfl, fun _ => rfl⟩
    | cons b bs => exact ⟨nofun, nofun⟩
  | cons x l ih =>
    rw [List.mapM_cons, List.map_cons]
    cases first : f x with
    | error e => cases bs <;> exact ⟨nofun, nofun⟩
    | ok y =>
      change (l.mapM f >>= fun ys => pure (y :: ys)) = _ ↔ _
      constructor
      · intro eq
        cases rest : l.mapM f with
        | error e =>
          rw [rest] at eq
          cases eq
        | ok ys =>
          rw [rest] at eq
          cases eq
          rw [ih.1 rest]
          rfl
      · intro eq
        cases bs with
        | nil => cases eq
        | cons b bs =>
          rw [List.map_cons, List.cons.injEq] at eq
          obtain ⟨same, all⟩ := eq
          cases same
          rw [ih.2 all]
          rfl

theorem exists_of_mapM_eq_error {ε α β : Type} {f : α → Except ε β} {l : List α} {e : ε}
    (h : l.mapM f = .error e) : ∃ x ∈ l, f x = .error e := by
  induction l with
  | nil => cases h
  | cons x l ih =>
    rw [List.mapM_cons] at h
    cases first : f x with
    | error e' =>
      rw [first] at h
      cases h
      exact ⟨x, List.mem_cons_self, first⟩
    | ok y =>
      rw [first] at h
      cases rest : l.mapM f with
      | error e' =>
        rw [rest] at h
        cases h
        obtain ⟨z, mem, failed⟩ := ih rest
        exact ⟨z, List.mem_cons_of_mem _ mem, failed⟩
      | ok ys =>
        rw [rest] at h
        cases h

theorem firstDuplicate_eq_none_iff {before : List String} :
    firstDuplicate before decls = none ↔
      (decls.map (·.name)).Nodup ∧ ∀ d ∈ decls, d.name ∉ before := by
  induction decls generalizing before with
  | nil => simp [firstDuplicate]
  | cons d rest ih =>
    rw [firstDuplicate]
    by_cases known : d.name ∈ before
    · simp [known]
    · simp only [List.contains_iff_mem, known, if_false, ih, List.map_cons, List.nodup_cons,
        List.forall_mem_cons, not_false_eq_true, true_and]
      constructor
      · rintro ⟨once, others⟩
        refine ⟨⟨?_, once⟩, fun e mem => List.not_mem_of_not_mem_cons (others e mem)⟩
        intro again
        obtain ⟨e, mem, same⟩ := List.mem_map.1 again
        exact others e mem (same ▸ List.mem_cons_self)
      · rintro ⟨⟨other, once⟩, fresh⟩
        refine ⟨once, fun e mem => ?_⟩
        rw [List.mem_cons, not_or]
        exact ⟨fun same => other (same ▸ List.mem_map_of_mem mem), fresh e mem⟩

/-- With distinct names, a name belongs to one declaration. -/
theorem findIdx?_name_eq_some_iff (distinct : (decls.map (·.name)).Nodup) {s : String} :
    decls.findIdx? (·.name == s) = some id ↔ ∃ e, decls[id]? = some e ∧ e.name = s := by
  rw [List.findIdx?_eq_some_iff_getElem]
  constructor
  · rintro ⟨bound, found, -⟩
    exact ⟨_, List.getElem?_eq_getElem bound, by simpa using found⟩
  · rintro ⟨e, found, rfl⟩
    obtain ⟨bound, rfl⟩ := List.getElem?_eq_some_iff.1 found
    refine ⟨bound, beq_self_eq_true _, fun j less same => ?_⟩
    have inside : j < decls.length := Nat.lt_trans less bound
    have equal : (decls.map (·.name))[j]? = (decls.map (·.name))[id]? := by
      rw [List.getElem?_map, List.getElem?_map, List.getElem?_eq_getElem inside,
        List.getElem?_eq_getElem bound]
      simpa using same
    exact Nat.ne_of_lt less ((List.getElem?_inj (by simpa using inside) distinct).1 equal)

/-- Looks up one supertype of a type. -/
def lookUp (decls : List TypeDecl) (declaring s : String) : Except TypeFault TypeId :=
  match decls.findIdx? (·.name == s) with
  | some id => .ok id
  | none => .error (.unknownSupertype s declaring)

theorem resolveDecl_eq (decls : List TypeDecl) (d : TypeDecl) :
    resolveDecl decls d = d.supertypes.mapM (lookUp decls d.name) >>= fun supertypes =>
      pure { name := d.name, supertypes, properties := d.properties } := rfl

/-- Looking up supertypes fails at a name that is not declared. -/
theorem resolveDecl_eq_error {d : TypeDecl} {fault : TypeFault} (h : resolveDecl decls d = .error fault) :
    ∃ s ∈ d.supertypes, fault = .unknownSupertype s d.name ∧ ∀ e ∈ decls, e.name ≠ s := by
  rw [resolveDecl_eq] at h
  cases looked : d.supertypes.mapM (lookUp decls d.name) with
  | ok supers =>
    rw [looked] at h
    cases h
  | error e =>
    rw [looked] at h
    cases h
    obtain ⟨s, mem, failed⟩ := exists_of_mapM_eq_error looked
    unfold lookUp at failed
    split at failed
    · cases failed
    · next absent =>
      cases failed
      refine ⟨s, mem, rfl, fun e mem => ?_⟩
      simpa using List.findIdx?_eq_none_iff.1 absent e mem

/-- A declaration whose supertypes have been looked up. -/
theorem resolveDecl_eq_ok {d : TypeDecl} {info : TypeInfo} (h : resolveDecl decls d = .ok info) :
    info.name = d.name ∧ info.properties = d.properties ∧
      d.supertypes.map (fun s => decls.findIdx? (·.name == s)) = info.supertypes.map some := by
  rw [resolveDecl_eq] at h
  cases looked : d.supertypes.mapM (lookUp decls d.name) with
  | error e =>
    rw [looked] at h
    cases h
  | ok supers =>
    rw [looked] at h
    cases h
    refine ⟨rfl, rfl, ?_⟩
    have toOption := congrArg (List.map Except.toOption) (mapM_eq_ok_iff.1 looked)
    rw [List.map_map, List.map_map] at toOption
    refine Eq.trans (List.map_congr_left fun s _ => ?_) toOption
    rw [Function.comp_apply, lookUp]
    split
    · next known => rw [known]; rfl
    · next unknown => rw [unknown]; rfl

/-- The types that declarations stand for, in their order. -/
def Resolved (decls : List TypeDecl) (infos : List TypeInfo) : Prop :=
  decls.map (resolveDecl decls) = infos.map .ok

namespace Resolved

variable {infos : List TypeInfo}

theorem length_eq (h : Resolved decls infos) : infos.length = decls.length := by
  simpa using (congrArg List.length h).symm

/-- At every place a declaration stands beside its type. -/
theorem getElem?_eq (h : Resolved decls infos) (a : TypeId) :
    decls[a]?.map (resolveDecl decls) = infos[a]?.map .ok := by
  rw [← List.getElem?_map, ← List.getElem?_map, h]

theorem exists_info (h : Resolved decls infos) {d : TypeDecl} (found : decls[a]? = some d) :
    ∃ info, infos[a]? = some info ∧ resolveDecl decls d = .ok info := by
  have same := h.getElem?_eq a
  rw [found, Option.map_some] at same
  obtain ⟨info, at_a, eq⟩ := Option.map_eq_some_iff.1 same.symm
  exact ⟨info, at_a, eq.symm⟩

theorem exists_decl (h : Resolved decls infos) {info : TypeInfo} (found : infos[a]? = some info) :
    ∃ d, decls[a]? = some d ∧ resolveDecl decls d = .ok info := by
  have same := h.getElem?_eq a
  rw [found, Option.map_some] at same
  exact Option.map_eq_some_iff.1 same

theorem findIdx?_name_eq (h : Resolved decls infos) (s : String) :
    infos.findIdx? (·.name == s) = decls.findIdx? (·.name == s) := by
  have names : infos.map (·.name) = decls.map (·.name) := by
    refine List.ext_getElem? fun a => ?_
    rw [List.getElem?_map, List.getElem?_map]
    cases found : decls[a]? with
    | none =>
      have same := h.getElem?_eq a
      rw [found] at same
      rw [Option.map_eq_none_iff.1 same.symm]
      rfl
    | some d =>
      obtain ⟨info, found, resolved⟩ := h.exists_info found
      rw [found, Option.map_some, Option.map_some, (resolveDecl_eq_ok resolved).1]
  have found := congrArg (List.findIdx? (· == s)) names
  rwa [List.findIdx?_map, List.findIdx?_map] at found

theorem above_iff (h : Resolved decls infos) (distinct : (decls.map (·.name)).Nodup) :
    Above infos.toArray a b ↔ Extends decls a b := by
  unfold Above supersOf
  rw [List.getElem?_toArray]
  constructor
  · intro above
    cases found : infos[a]? with
    | none =>
      rw [found] at above
      cases above
    | some info =>
      rw [found] at above
      obtain ⟨d, declared, resolved⟩ := h.exists_decl found
      obtain ⟨-, -, supers⟩ := resolveDecl_eq_ok resolved
      obtain ⟨s, mem, named⟩ := List.mem_map.1 (supers ▸ List.mem_map_of_mem above)
      obtain ⟨e, found, rfl⟩ := (findIdx?_name_eq_some_iff distinct).1 named
      exact ⟨d, e, declared, found, mem⟩
  · rintro ⟨d, e, declared, found, mem⟩
    obtain ⟨info, at_a, resolved⟩ := h.exists_info declared
    obtain ⟨-, -, supers⟩ := resolveDecl_eq_ok resolved
    rw [at_a]
    have named := (findIdx?_name_eq_some_iff distinct).2 ⟨e, found, rfl⟩
    have looked := List.mem_map_of_mem (f := fun s => decls.findIdx? (·.name == s)) mem
    rw [supers, named] at looked
    obtain ⟨id, above, same⟩ := List.mem_map.1 looked
    exact Option.some.inj same ▸ above

theorem closed (h : Resolved decls infos) (distinct : (decls.map (·.name)).Nodup) (a b : TypeId)
    (above : Above infos.toArray a b) : b < infos.toArray.size := by
  obtain ⟨-, e, -, found, -⟩ := (h.above_iff distinct).1 above
  obtain ⟨bound, -⟩ := List.getElem?_eq_some_iff.1 found
  rw [List.size_toArray, h.length_eq]
  exact bound

theorem ownOf_eq (h : Resolved decls infos) {d : TypeDecl} (found : decls[a]? = some d) :
    ownOf infos.toArray a = d.properties := by
  obtain ⟨info, at_a, resolved⟩ := h.exists_info found
  rw [ownOf, List.getElem?_toArray, at_a]
  exact (resolveDecl_eq_ok resolved).2.1

theorem mem_ownOf_iff (h : Resolved decls infos) {p : String × PropertyKind} :
    p ∈ ownOf infos.toArray a ↔ ∃ d, decls[a]? = some d ∧ p ∈ d.properties := by
  constructor
  · intro own
    cases found : infos[a]? with
    | none =>
      rw [ownOf, List.getElem?_toArray, found] at own
      cases own
    | some info =>
      obtain ⟨d, declared, -⟩ := h.exists_decl found
      exact ⟨d, declared, h.ownOf_eq declared ▸ own⟩
  · rintro ⟨d, declared, mem⟩
    rw [h.ownOf_eq declared]
    exact mem

end Resolved

/-! ### Hierarchies -/

/-- Declarations that make a hierarchy: the names are distinct, every supertype is declared and no type
lies above itself. -/
structure Sensible (decls : List TypeDecl) : Prop where
  distinct : (decls.map (·.name)).Nodup
  declared : ∀ d ∈ decls, ∀ s ∈ d.supertypes, ∃ e ∈ decls, e.name = s
  acyclic : ∀ a, ¬ TransGen (Extends decls) a a

/-- A hierarchy says what the declarations say. -/
structure Represents (h : TypeHierarchy) (decls : List TypeDecl) : Prop where
  size : h.size = decls.length
  id? : ∀ a d, decls[a]? = some d → h.id? d.name = some a
  name : ∀ a d, decls[a]? = some d → h.name a = d.name
  supertypes : ∀ a b, b ∈ h.supertypes a ↔ Extends decls a b
  /-- A subtype leads to its supertype by direct steps, none of them included. -/
  isSubtype : ∀ a < h.size, ∀ b, h.isSubtype a b = true ↔ ReflTransGen (Extends decls) a b
  subtypesOf : ∀ b, (h.subtypesOf b).Pairwise (· < ·) ∧
    ∀ a, a ∈ h.subtypesOf b ↔ a < h.size ∧ ReflTransGen (Extends decls) a b
  /-- The properties of a type are its own and those declared above it whose names are new. -/
  inherited : ∀ a d, decls[a]? = some d → ∃ more, h.allProperties a = d.properties ++ more ∧
    (more.map (·.1)).Nodup ∧ ∀ p ∈ more, p.1 ∉ d.properties.map (·.1) ∧
      ∃ b e, TransGen (Extends decls) a b ∧ decls[b]? = some e ∧ p ∈ e.properties
  /-- A name is among them if and only if the type or one above it declares it. -/
  properties : ∀ a < h.size, ∀ name, name ∈ (h.allProperties a).map (·.1) ↔
    ∃ b e, ReflTransGen (Extends decls) a b ∧ decls[b]? = some e ∧ name ∈ e.properties.map (·.1)

/-- The hierarchy whose tables are filled in the given order. -/
def tabulate (types : Array TypeInfo) (sorted : List TypeId) : TypeHierarchy where
  types
  ancestors := sorted.foldl (inheritAncestors types) (Array.replicate types.size [])
  properties := sorted.foldl (inheritProperties types) (Array.replicate types.size [])

theorem build_of_duplicate {name : String} (duplicate : firstDuplicate [] decls = some name) :
    build decls = .error (.declaredTwice name) := by
  unfold build
  rw [duplicate]
  rfl

theorem build_of_distinct (distinct : firstDuplicate [] decls = none) :
    build decls = decls.mapM (resolveDecl decls) >>= fun infos =>
      match order infos.toArray with
      | .error id => .error (.cycle (infos.toArray[id]?.getD default).name)
      | .ok sorted => .ok (tabulate infos.toArray sorted) := by
  unfold build
  rw [distinct]
  rfl

theorem build_of_unknown {fault : TypeFault} (distinct : firstDuplicate [] decls = none)
    (unknown : decls.mapM (resolveDecl decls) = .error fault) : build decls = .error fault := by
  rw [build_of_distinct distinct, unknown]
  rfl

theorem build_of_resolved {infos : List TypeInfo} (distinct : firstDuplicate [] decls = none)
    (resolved : Resolved decls infos) :
    build decls =
      match order infos.toArray with
      | .error id => .error (.cycle (infos.toArray[id]?.getD default).name)
      | .ok sorted => .ok (tabulate infos.toArray sorted) := by
  rw [build_of_distinct distinct, mapM_eq_ok_iff.2 resolved]
  rfl

namespace Resolved

variable {infos : List TypeInfo} {sorted : List TypeId}

theorem above_eq (h : Resolved decls infos) (distinct : (decls.map (·.name)).Nodup) :
    Above infos.toArray = Extends decls :=
  funext₂ fun _ _ => propext (h.above_iff distinct)

theorem finished (h : Resolved decls infos) (distinct : (decls.map (·.name)).Nodup)
    (ordered : order infos.toArray = .ok sorted) :
    Finished infos.toArray sorted ∧ ∀ a < infos.toArray.size, a ∈ sorted := by
  have visited := visited_order (h.closed distinct)
  rw [ordered] at visited
  obtain ⟨finished, -, all, -⟩ := visited
  exact ⟨finished, fun a bound => all (List.mem_range.2 bound)⟩

theorem isSubtype_iff (h : Resolved decls infos) (distinct : (decls.map (·.name)).Nodup)
    (ordered : order infos.toArray = .ok sorted) (bound : a < infos.toArray.size) (b : TypeId) :
    (tabulate infos.toArray sorted).isSubtype a b = true ↔ ReflTransGen (Extends decls) a b := by
  obtain ⟨finished, all⟩ := h.finished distinct ordered
  obtain ⟨row, found, right⟩ := ancestors_filled finished (all a bound)
  unfold isSubtype tabulate
  rw [found, List.contains_iff_mem, right, h.above_eq distinct]

theorem inherits (h : Resolved decls infos) (distinct : (decls.map (·.name)).Nodup)
    (ordered : order infos.toArray = .ok sorted) (bound : a < infos.toArray.size) :
    Inherits infos.toArray a ((tabulate infos.toArray sorted).allProperties a) := by
  obtain ⟨finished, all⟩ := h.finished distinct ordered
  obtain ⟨row, found, right⟩ := properties_filled finished (all a bound)
  unfold allProperties tabulate
  rw [found]
  exact right

/-- The hierarchy says what the declarations say, if its tables are filled in order. -/
theorem represents (h : Resolved decls infos) (distinct : (decls.map (·.name)).Nodup)
    (ordered : order infos.toArray = .ok sorted) :
    (tabulate infos.toArray sorted).Represents decls where
  size := by
    rw [← h.length_eq]
    exact List.size_toArray
  id? a d declared := by
    unfold TypeHierarchy.id? tabulate
    rw [List.findIdx?_toArray, h.findIdx?_name_eq]
    exact (findIdx?_name_eq_some_iff distinct).2 ⟨d, declared, rfl⟩
  name a d declared := by
    obtain ⟨info, found, resolved⟩ := h.exists_info declared
    unfold TypeHierarchy.name tabulate
    rw [List.getElem?_toArray, found]
    exact (resolveDecl_eq_ok resolved).1
  supertypes a b := by
    rw [← h.above_iff distinct]
    unfold TypeHierarchy.supertypes tabulate Above supersOf
    cases infos.toArray[a]? <;> rfl
  isSubtype a bound b := h.isSubtype_iff distinct ordered bound b
  subtypesOf b := by
    refine ⟨List.pairwise_lt_range.filter _, fun a => ?_⟩
    unfold TypeHierarchy.subtypesOf ids
    rw [List.mem_filter, List.mem_range]
    exact and_congr_right fun bound => h.isSubtype_iff distinct ordered bound b
  inherited a d declared := by
    obtain ⟨info, found, -⟩ := h.exists_info declared
    have bound : a < infos.toArray.size := by
      rw [List.size_toArray]
      exact (List.getElem?_eq_some_iff.1 found).1
    obtain ⟨more, eq, once, new⟩ := (h.inherits distinct ordered bound).split
    rw [h.ownOf_eq declared] at eq new
    refine ⟨more, eq, once, fun p mem => ⟨(new p mem).1, ?_⟩⟩
    obtain ⟨b, up, own⟩ := (new p mem).2
    obtain ⟨e, found, own⟩ := h.mem_ownOf_iff.1 own
    exact ⟨b, e, h.above_eq distinct ▸ up, found, own⟩
  properties a bound name := by
    have inherits := h.inherits distinct ordered bound
    rw [← h.above_eq distinct]
    constructor
    · intro mem
      obtain ⟨p, among, rfl⟩ := List.mem_map.1 mem
      obtain ⟨b, up, own⟩ := inherits.declared among
      obtain ⟨e, found, own⟩ := h.mem_ownOf_iff.1 own
      exact ⟨b, e, up, found, List.mem_map_of_mem own⟩
    · rintro ⟨b, e, up, found, mem⟩
      obtain ⟨p, own, rfl⟩ := List.mem_map.1 mem
      exact inherits.names b up p (h.mem_ownOf_iff.2 ⟨e, found, own⟩)

/-- Declarations whose supertypes are found are sensible unless a type lies above itself. -/
theorem sensible (h : Resolved decls infos) (distinct : (decls.map (·.name)).Nodup)
    (acyclic : ∀ a, ¬ TransGen (Extends decls) a a) : Sensible decls where
  distinct
  acyclic
  declared d mem s supertype := by
    obtain ⟨a, declared⟩ := List.mem_iff_getElem?.1 mem
    obtain ⟨info, -, resolved⟩ := h.exists_info declared
    have looked := List.mem_map_of_mem (f := fun s => decls.findIdx? (·.name == s)) supertype
    rw [(resolveDecl_eq_ok resolved).2.2] at looked
    obtain ⟨b, -, found⟩ := List.mem_map.1 looked
    obtain ⟨e, found, same⟩ := (findIdx?_name_eq_some_iff distinct).1 found.symm
    exact ⟨e, List.mem_of_getElem? found, same⟩

end Resolved

/-- What building has found out if it succeeds. -/
theorem exists_of_build {h : TypeHierarchy} (built : build decls = .ok h) :
    ∃ infos sorted, (decls.map (·.name)).Nodup ∧ Resolved decls infos ∧
      order infos.toArray = .ok sorted ∧ h = tabulate infos.toArray sorted := by
  cases distinct : firstDuplicate [] decls with
  | some name =>
    rw [build_of_duplicate distinct] at built
    cases built
  | none =>
    cases looked : decls.mapM (resolveDecl decls) with
    | error fault =>
      rw [build_of_unknown distinct looked] at built
      cases built
    | ok infos =>
      have resolved : Resolved decls infos := mapM_eq_ok_iff.1 looked
      rw [build_of_resolved distinct resolved] at built
      cases ordered : order infos.toArray with
      | error c =>
        rw [ordered] at built
        cases built
      | ok sorted =>
        rw [ordered] at built
        cases built
        exact ⟨infos, sorted, (firstDuplicate_eq_none_iff.1 distinct).1, resolved, ordered, rfl⟩

theorem represents_of_build {h : TypeHierarchy} (built : build decls = .ok h) : h.Represents decls := by
  obtain ⟨infos, sorted, distinct, resolved, ordered, rfl⟩ := exists_of_build built
  exact resolved.represents distinct ordered

theorem sensible_of_build {h : TypeHierarchy} (built : build decls = .ok h) : Sensible decls := by
  obtain ⟨infos, sorted, distinct, resolved, ordered, rfl⟩ := exists_of_build built
  have acyclic := (order_eq_ok_iff (resolved.closed distinct)).1 ⟨sorted, ordered⟩
  rw [resolved.above_eq distinct] at acyclic
  exact resolved.sensible distinct acyclic

theorem exists_build_of_sensible (sensible : Sensible decls) : ∃ h, build decls = .ok h := by
  obtain ⟨once, declared, acyclic⟩ := sensible
  have distinct := firstDuplicate_eq_none_iff.2 ⟨once, fun _ _ => List.not_mem_nil⟩
  cases looked : decls.mapM (resolveDecl decls) with
  | error fault =>
    obtain ⟨d, mem, failed⟩ := exists_of_mapM_eq_error looked
    obtain ⟨s, supertype, -, unknown⟩ := resolveDecl_eq_error failed
    obtain ⟨e, isDeclared, same⟩ := declared d mem s supertype
    exact absurd same (unknown e isDeclared)
  | ok infos =>
    have resolved : Resolved decls infos := mapM_eq_ok_iff.1 looked
    rw [← resolved.above_eq once] at acyclic
    obtain ⟨sorted, ordered⟩ := (order_eq_ok_iff (resolved.closed once)).2 acyclic
    refine ⟨tabulate infos.toArray sorted, ?_⟩
    rw [build_of_resolved distinct resolved, ordered]

/-- A type of which it is said that it lies on a cycle does lie above itself. -/
theorem circle_of_build {name : String} (failed : build decls = .error (.cycle name)) :
    ∃ a d, decls[a]? = some d ∧ d.name = name ∧ TransGen (Extends decls) a a := by
  cases distinct : firstDuplicate [] decls with
  | some other =>
    rw [build_of_duplicate distinct] at failed
    cases failed
  | none =>
    have once := (firstDuplicate_eq_none_iff.1 distinct).1
    cases looked : decls.mapM (resolveDecl decls) with
    | error fault =>
      rw [build_of_unknown distinct looked] at failed
      obtain ⟨d, -, undeclared⟩ := exists_of_mapM_eq_error looked
      obtain ⟨s, -, rfl, -⟩ := resolveDecl_eq_error undeclared
      cases failed
    | ok infos =>
      have resolved : Resolved decls infos := mapM_eq_ok_iff.1 looked
      have visited := visited_order (resolved.closed once)
      rw [build_of_resolved distinct resolved] at failed
      cases ordered : order infos.toArray with
      | ok sorted =>
        rw [ordered] at failed
        cases failed
      | error c =>
        rw [ordered] at visited failed
        cases failed
        have circle : TransGen (Extends decls) c c := resolved.above_eq once ▸ visited
        obtain ⟨b, ⟨d, -, declared, -⟩, -⟩ := TransGen.head'_iff.1 circle
        obtain ⟨info, found, same⟩ := resolved.exists_info declared
        refine ⟨c, d, declared, ?_, circle⟩
        rw [List.getElem?_toArray, found]
        exact (resolveDecl_eq_ok same).1.symm

theorem size_foldl_inheritAncestors (types : Array TypeInfo) (ids : List TypeId)
    (table : Array (List TypeId)) : (ids.foldl (inheritAncestors types) table).size = table.size := by
  induction ids generalizing table with
  | nil => rfl
  | cons id ids ih =>
    rw [List.foldl_cons, ih]
    exact Array.size_setIfInBounds

/-- Whatever is a subtype is one of the types. -/
theorem lt_size_of_isSubtype {h : TypeHierarchy} (built : build decls = .ok h)
    (sub : h.isSubtype a b = true) : a < h.size := by
  obtain ⟨infos, sorted, -, -, -, rfl⟩ := exists_of_build built
  unfold isSubtype at sub
  split at sub
  · next above found =>
    have bound := (Array.getElem?_eq_some_iff.1 found).1
    rwa [tabulate, size_foldl_inheritAncestors, Array.size_replicate] at bound
  · cases sub

/-- **A list of declarations makes a hierarchy if and only if it is sensible,** and the hierarchy says
what the declarations say. A type of which it is said that it lies on a cycle does lie above itself. -/
theorem build_represents (decls : List TypeDecl) :
    ((∃ h, build decls = .ok h) ↔ Sensible decls) ∧
    (∀ h, build decls = .ok h → h.Represents decls) ∧
    ∀ name, build decls = .error (.cycle name) →
      ∃ a d, decls[a]? = some d ∧ d.name = name ∧ TransGen (Extends decls) a a := by
  refine ⟨⟨?_, exists_build_of_sensible⟩, fun h => represents_of_build, fun name => circle_of_build⟩
  rintro ⟨h, built⟩
  exact sensible_of_build built

/-- A type with two supertypes that share one above them, declared from the bottom up. -/
def diamond : List TypeDecl := [
  ⟨"Bottom", ["Left", "Right"], [("name", .value)]⟩,
  ⟨"Left", ["Top"], [("items", .array)]⟩,
  ⟨"Right", ["Top"], [("items", .value), ("open", .bool)]⟩,
  ⟨"Top", [], [("name", .value), ("note", .value)]⟩]

/-- Two types above each other, and one that is below them. -/
def twoAbove : List TypeDecl := [⟨"Leaf", ["A"], []⟩, ⟨"A", ["B"], []⟩, ⟨"B", ["A"], []⟩]

theorem build_represents_diamond :
    (∃ h, build diamond = .ok h ∧ h.Represents diamond ∧ ReflTransGen (Extends diamond) 0 3 ∧
      h.allProperties 0 = [("name", .value), ("items", .array), ("note", .value), ("open", .bool)]) ∧
    build twoAbove = .error (.cycle "A") ∧ ¬ Sensible twoAbove ∧
    ∃ a d, twoAbove[a]? = some d ∧ d.name = "A" ∧ TransGen (Extends twoAbove) a a := by
  obtain ⟨-, represents, -⟩ := build_represents diamond
  obtain ⟨sensible, -, circle⟩ := build_represents twoAbove
  have failed : build twoAbove = .error (.cycle "A") := by rfl
  have built : build diamond = .ok ((build diamond).toOption.getD default) := by rfl
  have h := represents _ built
  refine ⟨⟨_, built, h, ?_, by decide +kernel⟩, failed, fun holds => ?_, circle "A" failed⟩
  · exact (h.isSubtype 0 (by decide +kernel) 3).1 (by decide +kernel)
  · obtain ⟨_, ok⟩ := sensible.2 holds
    rw [failed] at ok
    cases ok

end Workbench.TypeHierarchy
