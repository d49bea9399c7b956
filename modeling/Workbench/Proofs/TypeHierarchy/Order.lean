import Mathlib.Data.List.Nodup
import Mathlib.Data.List.Perm.Subperm
import Mathlib.Logic.Relation
import Workbench.TypeHierarchy

/-!
**The order of types.**

A type is visited after its supertypes, and while it waits for them it is under way. If a visit comes to
a type that is under way, that type lies above itself. Otherwise every visited type is finished, once and
after all that lies above it, and a list of this kind leaves no room for a circle. So the types are
ordered if and only if none lies above itself.
-/

namespace Workbench.TypeHierarchy

open Relation

variable {types : Array TypeInfo} {a b c id : TypeId} {path done ids : List TypeId}

/-- The supertypes that were looked up for a type. -/
def supersOf (types : Array TypeInfo) (a : TypeId) : List TypeId :=
  (types[a]?.map TypeInfo.supertypes).getD []

/-- Type `b` is a direct supertype of type `a`. -/
def Above (types : Array TypeInfo) (a b : TypeId) : Prop := b ∈ supersOf types a

/-- Lists in which every type stands once and after its supertypes. -/
inductive Finished (types : Array TypeInfo) : List TypeId → Prop
  | nil : Finished types []
  | snoc {done : List TypeId} {id : TypeId} (before : Finished types done) (fresh : id ∉ done)
      (bound : id < types.size) (supers : ∀ b, Above types id b → b ∈ done) :
      Finished types (done ++ [id])

namespace Finished

/-- What lies above a finished type is finished. -/
theorem mem_of_reaches (h : Finished types done) (mem : a ∈ done)
    (reaches : ReflTransGen (Above types) a b) : b ∈ done := by
  induction reaches with
  | refl => exact mem
  | @tail x y _ step ih =>
    clear mem
    induction h with
    | nil => cases ih
    | snoc _ _ _ supers earlier =>
      rcases List.mem_append.1 ih with mem | last
      · exact List.mem_append_left _ (earlier mem)
      · obtain rfl := List.mem_singleton.1 last
        exact List.mem_append_left _ (supers y step)

/-- No finished type lies above itself. -/
theorem acyclic (h : Finished types done) (mem : a ∈ done) : ¬ TransGen (Above types) a a := by
  induction h with
  | nil => cases mem
  | @snoc done id before fresh _ supers ih =>
    rcases List.mem_append.1 mem with earlier | last
    · exact ih earlier
    · obtain rfl := List.mem_singleton.1 last
      intro circle
      obtain ⟨b, step, back⟩ := TransGen.head'_iff.1 circle
      exact fresh (before.mem_of_reaches (supers b step) back)

end Finished

/-- What visits of some types come to, with those of `path` under way: a type above itself, or a list
in which they are finished and those of `path` are not. -/
def Visited (types : Array TypeInfo) (path done ids : List TypeId) :
    Except TypeId (List TypeId) → Prop
  | .error c => TransGen (Above types) c c
  | .ok done' => Finished types done' ∧ done ⊆ done' ∧ ids ⊆ done' ∧ ∀ x ∈ path, x ∉ done'

theorem visited_foldlM {f : List TypeId → TypeId → Except TypeId (List TypeId)}
    (each : ∀ id ∈ ids, ∀ done, Finished types done → (∀ x ∈ path, x ∉ done) →
      Visited types path done [id] (f done id))
    (finished : Finished types done) (fresh : ∀ x ∈ path, x ∉ done) :
    Visited types path done ids (ids.foldlM f done) := by
  induction ids generalizing done with
  | nil => exact ⟨finished, List.Subset.refl _, List.nil_subset _, fresh⟩
  | cons id rest ih =>
    have first := each id List.mem_cons_self done finished fresh
    rw [List.foldlM_cons]
    cases visited : f done id with
    | error c =>
      rw [visited] at first
      exact first
    | ok done' =>
      rw [visited] at first
      obtain ⟨finished', more, mem, fresh'⟩ := first
      have further := ih (fun x mem => each x (List.mem_cons_of_mem _ mem)) finished' fresh'
      change Visited types path done (id :: rest) (rest.foldlM f done')
      cases last : rest.foldlM f done' with
      | error c =>
        rw [last] at further
        exact further
      | ok done'' =>
        rw [last] at further
        obtain ⟨finished'', more', mem', fresh''⟩ := further
        refine ⟨finished'', List.Subset.trans more more', ?_, fresh''⟩
        exact List.cons_subset.2 ⟨more' (mem List.mem_cons_self), mem'⟩

theorem length_le_size (once : path.Nodup) (bound : ∀ x ∈ path, x < types.size) :
    path.length ≤ types.size := by
  have sub : path ⊆ List.range types.size := fun x mem => List.mem_range.2 (bound x mem)
  simpa using (once.subperm sub).length_le

/-! ### Visits -/

theorem visit_of_finished {fuel : Nat} (positive : 0 < fuel) (mem : id ∈ done) :
    visit types fuel path done id = .ok done := by
  obtain ⟨fuel, rfl⟩ := Nat.exists_eq_succ_of_ne_zero (Nat.ne_of_gt positive)
  simp [visit, mem]

theorem visit_of_underWay {fuel : Nat} (positive : 0 < fuel) (notDone : id ∉ done) (mem : id ∈ path) :
    visit types fuel path done id = .error id := by
  obtain ⟨fuel, rfl⟩ := Nat.exists_eq_succ_of_ne_zero (Nat.ne_of_gt positive)
  simp [visit, notDone, mem]

theorem visit_of_fresh (fuel : Nat) (notDone : id ∉ done) (notUnderWay : id ∉ path) :
    visit types (fuel + 1) path done id =
      (supersOf types id).foldlM (visit types fuel (id :: path)) done >>= fun done =>
        .ok (done ++ [id]) := by
  rw [visit, if_neg (by simpa using notDone), if_neg (by simpa using notUnderWay)]
  rfl

theorem visited_visit (closed : ∀ a b, Above types a b → b < types.size) (fuel : Nat)
    (room : types.size < fuel + path.length) (once : path.Nodup)
    (bound : ∀ x ∈ path, x < types.size) (leads : ∀ x ∈ path, TransGen (Above types) x id)
    (inside : id < types.size) (finished : Finished types done) (fresh : ∀ x ∈ path, x ∉ done) :
    Visited types path done [id] (visit types fuel path done id) := by
  induction fuel generalizing path done id with
  | zero =>
    have short := length_le_size once bound
    omega
  | succ fuel ih =>
    by_cases isDone : id ∈ done
    · rw [visit_of_finished fuel.succ_pos isDone]
      exact ⟨finished, List.Subset.refl _, by simpa using isDone, fresh⟩
    by_cases isUnderWay : id ∈ path
    · rw [visit_of_underWay fuel.succ_pos isDone isUnderWay]
      exact leads id isUnderWay
    rw [visit_of_fresh fuel isDone isUnderWay]
    -- the supertypes are visited with this type under way as well
    have supers : Visited types (id :: path) done (supersOf types id)
        ((supersOf types id).foldlM (visit types fuel (id :: path)) done) := by
      refine visited_foldlM (fun s above done finished fresh => ?_) finished ?_
      · refine ih ?_ (List.nodup_cons.2 ⟨isUnderWay, once⟩) ?_ ?_ (closed id s above) finished fresh
        · rw [List.length_cons]
          omega
        · exact List.forall_mem_cons.2 ⟨inside, bound⟩
        · exact List.forall_mem_cons.2 ⟨.single above, fun x mem => (leads x mem).tail above⟩
      · exact List.forall_mem_cons.2 ⟨isDone, fresh⟩
    cases visited : (supersOf types id).foldlM (visit types fuel (id :: path)) done with
    | error c =>
      rw [visited] at supers
      exact supers
    | ok done' =>
      rw [visited] at supers
      obtain ⟨finished', more, above, fresh'⟩ := supers
      obtain ⟨notDone', fresh'⟩ := List.forall_mem_cons.1 fresh'
      refine ⟨finished'.snoc notDone' inside fun b step => above step, ?_, ?_, ?_⟩
      · exact List.Subset.trans more (List.subset_append_left _ _)
      · exact List.subset_append_right _ _
      · intro x mem last
        rcases List.mem_append.1 last with earlier | same
        · exact fresh' x mem earlier
        · obtain rfl := List.mem_singleton.1 same
          exact isUnderWay mem

theorem visited_order (closed : ∀ a b, Above types a b → b < types.size) :
    Visited types [] [] (List.range types.size) (order types) := by
  refine visited_foldlM (fun id mem done finished fresh => ?_) .nil nofun
  exact visited_visit closed _ (by simp) .nil nofun nofun (List.mem_range.1 mem) finished fresh

/-- The types are ordered unless one lies above itself, and in the end all are finished. -/
theorem order_eq_ok_iff (closed : ∀ a b, Above types a b → b < types.size) :
    (∃ sorted, order types = .ok sorted) ↔ ∀ a, ¬ TransGen (Above types) a a := by
  have visited := visited_order closed
  constructor
  · rintro ⟨sorted, eq⟩ a circle
    rw [eq] at visited
    obtain ⟨finished, -, all, -⟩ := visited
    have inside : a < types.size := by
      obtain ⟨b, -, step⟩ := TransGen.tail'_iff.1 circle
      exact closed b a step
    exact finished.acyclic (all (List.mem_range.2 inside)) circle
  · intro acyclic
    cases eq : order types with
    | ok sorted => exact ⟨sorted, rfl⟩
    | error c =>
      rw [eq] at visited
      exact absurd visited (acyclic c)

end Workbench.TypeHierarchy
