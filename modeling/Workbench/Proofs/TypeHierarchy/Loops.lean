import Workbench.Proofs.Loops
import Workbench.Proofs.TypeHierarchy.Declarations

/-!
**A hierarchy that is built in loops.**

The order of the types is defined by recursion, and what lies above a type is collected from its
supertypes. A builder without recursion keeps the types under way on a stack, each with the place of the
supertype that it visits next, and a mark on every type. It collects what lies below a type the other way
round: from every type on it walks upwards and leaves the type wherever it has not been yet. Both loops end,
and such a builder comes to what `build` comes to.

A visit on the stack is compared with a visit by recursion in a state that the finished types and those
under way determine. The walk upwards keeps that all it has come by is reached, and that what lies directly
above a place where it has been is on its stack unless it has been there too.
-/

namespace Workbench.TypeHierarchy

open Relation Loop

variable {decls : List TypeDecl} {types : Array TypeInfo} {a b c id sup : TypeId}
  {path done seen : List TypeId} {k : Nat}

/-! ### The search for an order -/

/-- How far the visit of a type is. -/
inductive Mark where
  | fresh
  | active
  | done
deriving DecidableEq, Repr

/-- What a search for an order keeps: a mark on every type, the finished types in the order in which they
were, and the types under way, each with the place of the supertype to visit next. -/
structure Search where
  marks : TypeId → Mark
  order : List TypeId
  stack : List (TypeId × Nat)

namespace Search

/-- Starts the visit of a type. -/
def enter (s : Search) (id : TypeId) : Search :=
  { s with marks := Function.update s.marks id .active, stack := (id, 0) :: s.stack }

/-- One turn: the type on top visits its next supertype, or it is finished if there is none
(`topological_order`). -/
def turn (types : Array TypeInfo) (s : Search) : Except TypeId (Option Search) :=
  match s.stack with
  | [] => .ok none
  | (current, next) :: below =>
    match (supersOf types current)[next]? with
    | none =>
      .ok (some {
        marks := Function.update s.marks current .done
        order := s.order ++ [current]
        stack := below })
    | some sup =>
      match s.marks sup with
      | .fresh => .ok (some ({ s with stack := (current, next + 1) :: below }.enter sup))
      | .active => .error sup
      | .done => .ok (some { s with stack := (current, next + 1) :: below })

/-- The search with some types finished and some under way. -/
def of (path done : List TypeId) (stack : List (TypeId × Nat)) : Search where
  marks id := if id ∈ done then .done else if id ∈ path then .active else .fresh
  order := done
  stack

variable {stack below : List (TypeId × Nat)}

theorem enter_of (fresh : id ∉ done) :
    (of path done stack).enter id = of (id :: path) done ((id, 0) :: stack) := by
  unfold enter of
  congr 1
  funext x
  by_cases same : x = id
  · simp [same, fresh]
  · simp [same]

theorem turn_finished (last : (supersOf types id)[k]? = none) :
    (of (id :: path) done ((id, k) :: below)).turn types = .ok (some (of path (done ++ [id]) below)) := by
  have marks : Function.update (of (id :: path) done ((id, k) :: below)).marks id .done =
      (of path (done ++ [id]) below).marks := by
    funext x
    by_cases same : x = id
    · simp [of, same]
    · simp [of, same]
  simp only [turn, of, last] at marks ⊢
  rw [marks]

theorem turn_done (at_k : (supersOf types id)[k]? = some sup) (mem : sup ∈ done) :
    (of path done ((id, k) :: below)).turn types = .ok (some (of path done ((id, k + 1) :: below))) := by
  simp [turn, of, at_k, mem]

theorem turn_active (at_k : (supersOf types id)[k]? = some sup) (notDone : sup ∉ done)
    (mem : sup ∈ path) : (of path done ((id, k) :: below)).turn types = .error sup := by
  simp [turn, of, at_k, notDone, mem]

theorem turn_fresh (at_k : (supersOf types id)[k]? = some sup) (notDone : sup ∉ done)
    (notUnderWay : sup ∉ path) :
    (of path done ((id, k) :: below)).turn types =
      .ok (some (of (sup :: path) done ((sup, 0) :: (id, k + 1) :: below))) := by
  have mark : (of path done ((id, k) :: below)).marks sup = .fresh := by
    simp [of, notDone, notUnderWay]
  rw [← enter_of notDone]
  simp only [turn, of, at_k] at mark ⊢
  rw [mark]

end Search

open Search (turn)

/-- From a state on, the loop comes to what a visit by recursion comes to. If that finishes some types,
the loop goes on from the state after them. -/
def Becomes (types : Array TypeInfo) (s : Search) (after : List TypeId → Search) :
    Except TypeId (List TypeId) → Prop
  | .error c => Ends (turn types) s (.error c)
  | .ok done => ∀ r, Ends (turn types) (after done) r → Ends (turn types) s r

namespace Becomes

variable {s t : Search} {after mid : List TypeId → Search} {out : Except TypeId (List TypeId)}

theorem next (turned : s.turn types = .ok (some t)) (h : Becomes types t after out) :
    Becomes types s after out := by
  cases out with
  | error c => exact .next turned h
  | ok done => exact fun r ends => .next turned (h r ends)

theorem bind {f : List TypeId → Except TypeId (List TypeId)} (first : Becomes types s mid out)
    (then_ : ∀ done, Becomes types (mid done) after (f done)) : Becomes types s after (out >>= f) := by
  cases out with
  | error c => exact first
  | ok done =>
    change Becomes types s after (f done)
    have rest := then_ done
    cases last : f done with
    | error c =>
      rw [last] at rest
      exact first _ rest
    | ok done' =>
      rw [last] at rest
      exact fun r ends => first r (rest r ends)

end Becomes

/-- A visit on the stack does what a visit by recursion does. -/
theorem becomes_visit (closed : ∀ a b, Above types a b → b < types.size) (fuel : Nat)
    (room : types.size < fuel + path.length) (once : path.Nodup) (bound : ∀ x ∈ path, x < types.size)
    (inside : id < types.size) (notDone : id ∉ done) (notUnderWay : id ∉ path)
    (below : List (TypeId × Nat)) :
    Becomes types (.of (id :: path) done ((id, 0) :: below)) (.of path · below)
      (visit types fuel path done id) := by
  induction fuel generalizing path done id below with
  | zero =>
    have short := length_le_size once bound
    omega
  | succ fuel ih =>
    have once' : (id :: path).Nodup := List.nodup_cons.2 ⟨notUnderWay, once⟩
    have bound' : ∀ x ∈ id :: path, x < types.size := List.forall_mem_cons.2 ⟨inside, bound⟩
    have room' : types.size < fuel + (id :: path).length := by
      rw [List.length_cons]
      omega
    have positive : 0 < fuel := by
      have short := length_le_size once' bound'
      omega
    rw [visit_of_fresh fuel notDone notUnderWay]
    -- the visits of the first supertypes are over, and the stack has the place of the next one
    have visits : ∀ rest before done, supersOf types id = before ++ rest →
        Becomes types (.of (id :: path) done ((id, before.length) :: below)) (.of path · below)
          (rest.foldlM (visit types fuel (id :: path)) done >>= fun done => .ok (done ++ [id])) := by
      intro rest
      induction rest with
      | nil =>
        intro before done split
        have last : (supersOf types id)[before.length]? = none := by simp [split]
        exact fun r ends => .next (Search.turn_finished last) ends
      | cons sup rest further =>
        intro before done split
        have at_k : (supersOf types id)[before.length]? = some sup := by simp [split]
        have above : Above types id sup := by simp [Above, split]
        have further := fun done => further (before ++ [sup]) done (by simp [split])
        rw [List.length_append, List.length_singleton] at further
        rw [List.foldlM_cons, bind_assoc]
        by_cases isDone : sup ∈ done
        · rw [visit_of_finished positive isDone]
          exact (further done).next (Search.turn_done at_k isDone)
        by_cases isUnderWay : sup ∈ id :: path
        · rw [visit_of_underWay positive isDone isUnderWay]
          exact Ends.fail (Search.turn_active at_k isDone isUnderWay)
        · have visited := ih room' once' bound' (closed id sup above) isDone isUnderWay
            ((id, before.length + 1) :: below)
          exact (visited.next (Search.turn_fresh at_k isDone isUnderWay)).bind further
    exact visits (supersOf types id) [] done rfl

/-- A type without a mark is the root of a search. -/
inductive Searched (types : Array TypeInfo) (s : Search) (root : TypeId) : Except TypeId Search → Prop
  | marked (isMarked : s.marks root ≠ .fresh) : Searched types s root (.ok s)
  | root {r : Except TypeId Search} (fresh : s.marks root = .fresh)
      (ends : Ends (turn types) (s.enter root) r) : Searched types s root r

theorem Searched.unique {s : Search} {r r' : Except TypeId Search} (h : Searched types s a r)
    (h' : Searched types s a r') : r = r' := by
  cases h with
  | marked isMarked =>
    cases h' with
    | marked => rfl
    | root fresh => exact absurd fresh isMarked
  | root fresh ends =>
    cases h' with
    | marked isMarked => exact absurd fresh isMarked
    | root _ ends' => exact ends.unique ends'

/-- Searches from some types on finish what visits by recursion finish. -/
theorem each_searched (closed : ∀ a b, Above types a b → b < types.size) {roots : List TypeId}
    (inside : ∀ root ∈ roots, root < types.size) (done : List TypeId) :
    Each (Searched types) roots (.of [] done [])
      ((roots.foldlM (visit types (types.size + 1) []) done).map (.of [] · [])) := by
  induction roots generalizing done with
  | nil => exact .nil
  | cons root roots ih =>
    obtain ⟨isType, inside⟩ := List.forall_mem_cons.1 inside
    rw [List.foldlM_cons]
    by_cases isDone : root ∈ done
    · have isMarked : (Search.of [] done []).marks root ≠ .fresh := by simp [Search.of, isDone]
      rw [visit_of_finished (Nat.succ_pos _) isDone]
      exact .cons (.marked isMarked) (ih inside done)
    · have fresh : (Search.of [] done []).marks root = .fresh := by simp [Search.of, isDone]
      have becomes := becomes_visit closed (types.size + 1) (by simp) .nil nofun isType isDone
        List.not_mem_nil []
      rw [← Search.enter_of isDone] at becomes
      cases visited : visit types (types.size + 1) [] done root with
      | error c =>
        rw [visited] at becomes
        exact .fail (.root fresh becomes)
      | ok done' =>
        rw [visited] at becomes
        exact .cons (.root fresh (becomes _ (.stop rfl))) (ih inside done')

/-- The searches from all types on come to the order, or to a type that is above itself. -/
theorem each_searched_iff (closed : ∀ a b, Above types a b → b < types.size)
    {r : Except TypeId Search} :
    Each (Searched types) (List.range types.size) (.of [] [] []) r ↔
      r = (order types).map (.of [] · []) := by
  have searched := each_searched closed (fun _ => List.mem_range.1) []
  have unique : ∀ s a r r', Searched types s a r → Searched types s a r' → r = r' :=
    fun _ _ _ _ => Searched.unique
  constructor
  · intro each
    exact each.unique unique searched
  · rintro rfl
    exact searched

/-! ### Walks upwards -/

/-- What a walk keeps: for every type those that are found to be below it, and where to go (`subtypes`). -/
structure Walk where
  below : TypeId → List TypeId
  stack : List TypeId

namespace Walk

/-- One turn of a walk from a type on. -/
def turn (types : Array TypeInfo) (id : TypeId) (w : Walk) : Except Empty (Option Walk) :=
  match w.stack with
  | [] => .ok none
  | current :: stack =>
    if id ∈ w.below current then .ok (some { w with stack })
    else
      .ok (some {
        below := Function.update w.below current (w.below current ++ [id])
        stack := (supersOf types current).reverse ++ stack })

/-- A walk that has been at some places. -/
def of (before : TypeId → List TypeId) (id : TypeId) (seen stack : List TypeId) : Walk where
  below b := if b ∈ seen then before b ++ [id] else before b
  stack

variable {before : TypeId → List TypeId} {stack : List TypeId}

theorem turn_seen (mem : b ∈ seen) :
    (of before id seen (b :: stack)).turn types id = .ok (some (of before id seen stack)) := by
  simp [turn, of, mem]

theorem turn_new (unknown : id ∉ before b) (notSeen : b ∉ seen) :
    (of before id seen (b :: stack)).turn types id =
      .ok (some (of before id (b :: seen) ((supersOf types b).reverse ++ stack))) := by
  have below : Function.update (of before id seen (b :: stack)).below b (before b ++ [id]) =
      (of before id (b :: seen) ((supersOf types b).reverse ++ stack)).below := by
    funext x
    by_cases same : x = b
    · simp [of, same]
    · simp [of, same]
  simp only [turn, of, notSeen, if_false, unknown] at below ⊢
  rw [below]

end Walk

/-- What a walk keeps on its way. -/
structure OnWay (types : Array TypeInfo) (id : TypeId) (seen stack : List TypeId) : Prop where
  once : seen.Nodup
  inside : ∀ b ∈ seen, b < types.size
  reached : ∀ b, b ∈ seen ∨ b ∈ stack → ReflTransGen (Above types) id b
  started : id ∈ seen ∨ id ∈ stack
  closed : ∀ b ∈ seen, ∀ s, Above types b s → s ∈ seen ∨ s ∈ stack

namespace OnWay

variable {stack : List TypeId}

theorem start (types : Array TypeInfo) (id : TypeId) : OnWay types id [] [id] where
  once := .nil
  inside := nofun
  reached b mem := by
    rcases mem with mem | mem
    · cases mem
    · rw [List.mem_singleton.1 mem]
  started := .inr List.mem_cons_self
  closed := nofun

/-- A place where the walk has been is dropped. -/
theorem drop (h : OnWay types id seen (b :: stack)) (mem : b ∈ seen) : OnWay types id seen stack where
  once := h.once
  inside := h.inside
  reached c mem := h.reached c (mem.imp_right (List.mem_cons_of_mem b))
  started := by
    rcases h.started with started | started
    · exact .inl started
    · rcases List.mem_cons.1 started with rfl | started
      · exact .inl mem
      · exact .inr started
  closed c isSeen s above := by
    rcases h.closed c isSeen s above with known | waiting
    · exact .inl known
    · rcases List.mem_cons.1 waiting with rfl | waiting
      · exact .inl mem
      · exact .inr waiting

/-- A place where the walk has not been is entered. -/
theorem enter (closed : ∀ a b, Above types a b → b < types.size) (isType : id < types.size)
    (h : OnWay types id seen (b :: stack)) (notSeen : b ∉ seen) :
    OnWay types id (b :: seen) ((supersOf types b).reverse ++ stack) where
  once := List.nodup_cons.2 ⟨notSeen, h.once⟩
  inside := by
    refine List.forall_mem_cons.2 ⟨?_, h.inside⟩
    rcases (h.reached b (.inr List.mem_cons_self)).cases_tail with rfl | ⟨c, -, above⟩
    · exact isType
    · exact closed c b above
  reached c mem := by
    have here := h.reached b (.inr List.mem_cons_self)
    rcases mem with mem | mem
    · rcases List.mem_cons.1 mem with rfl | mem
      · exact here
      · exact h.reached c (.inl mem)
    · rcases List.mem_append.1 mem with above | mem
      · exact here.tail (List.mem_reverse.1 above)
      · exact h.reached c (.inr (List.mem_cons_of_mem b mem))
  started := by
    rcases h.started with started | started
    · exact .inl (List.mem_cons_of_mem b started)
    · rcases List.mem_cons.1 started with rfl | started
      · exact .inl List.mem_cons_self
      · exact .inr (List.mem_append_right _ started)
  closed := by
    refine List.forall_mem_cons.2 ⟨fun s above => ?_, fun c isSeen s above => ?_⟩
    · exact .inr (List.mem_append_left _ (List.mem_reverse.2 above))
    · rcases h.closed c isSeen s above with known | waiting
      · exact .inl (List.mem_cons_of_mem b known)
      · rcases List.mem_cons.1 waiting with rfl | waiting
        · exact .inl List.mem_cons_self
        · exact .inr (List.mem_append_right _ waiting)

/-- A walk that is over has been wherever steps upwards lead. -/
theorem mem_iff (h : OnWay types id seen []) : b ∈ seen ↔ ReflTransGen (Above types) id b := by
  have settled : ∀ {c}, c ∈ seen ∨ c ∈ ([] : List TypeId) → c ∈ seen := fun mem =>
    mem.resolve_right List.not_mem_nil
  constructor
  · exact fun mem => h.reached b (.inl mem)
  · intro reaches
    induction reaches with
    | refl => exact settled h.started
    | tail _ above mem => exact settled (h.closed _ mem _ above)

end OnWay

/-- A walk ends: at every turn there is a place less to see, or the stack is shorter. -/
theorem ends_walk (closed : ∀ a b, Above types a b → b < types.size) (isType : id < types.size)
    {before : TypeId → List TypeId} (unknown : ∀ b, id ∉ before b) (room : Nat)
    (left : types.size ≤ seen.length + room) {stack : List TypeId} (onWay : OnWay types id seen stack) :
    ∃ seen', OnWay types id seen' [] ∧
      Ends (Walk.turn types id) (.of before id seen stack) (.ok (.of before id seen' [])) := by
  induction room using Nat.strongRecOn generalizing seen stack with
  | ind room fewer =>
    induction stack with
    | nil => exact ⟨seen, onWay, .stop rfl⟩
    | cons b stack ih =>
      by_cases isSeen : b ∈ seen
      · obtain ⟨seen', ended, ends⟩ := ih (onWay.drop isSeen)
        exact ⟨seen', ended, .next (Walk.turn_seen isSeen) ends⟩
      · have entered := onWay.enter closed isType isSeen
        have short := length_le_size entered.once entered.inside
        rw [List.length_cons] at short
        have left' : types.size ≤ (b :: seen).length + (room - 1) := by
          rw [List.length_cons]
          omega
        obtain ⟨seen', ended, ends⟩ := fewer (room - 1) (by omega) left' entered
        exact ⟨seen', ended, .next (Walk.turn_new (unknown b) isSeen) ends⟩

/-- A walk from a type on. -/
def Walked (types : Array TypeInfo) (w : Walk) (id : TypeId) (r : Except Empty Walk) : Prop :=
  Ends (Walk.turn types id) { w with stack := [id] } r

/-- The types of a list from which steps lead up to a type. -/
def collected (reaches : TypeId → TypeId → Bool) (ids : List TypeId) : Walk where
  below b := ids.filter (reaches · b)
  stack := []

theorem each_walked (closed : ∀ a b, Above types a b → b < types.size)
    {reaches : TypeId → TypeId → Bool}
    (right : ∀ a < types.size, ∀ b, reaches a b = true ↔ ReflTransGen (Above types) a b)
    {before ids : List TypeId} (once : (before ++ ids).Nodup) (inside : ∀ id ∈ ids, id < types.size) :
    Each (Walked types) ids (collected reaches before) (.ok (collected reaches (before ++ ids))) := by
  induction ids generalizing before with
  | nil =>
    rw [List.append_nil]
    exact .nil
  | cons id ids ih =>
    obtain ⟨isType, inside⟩ := List.forall_mem_cons.1 inside
    have unknown : ∀ b, id ∉ (collected reaches before).below b := by
      intro b mem
      have earlier := (List.mem_filter.1 mem).1
      exact (List.nodup_append.1 once).2.2 id earlier id List.mem_cons_self rfl
    obtain ⟨seen, ended, ends⟩ := ends_walk closed isType unknown types.size (by simp) (.start types id)
    have added : Walk.of (collected reaches before).below id seen [] =
        collected reaches (before ++ [id]) := by
      unfold Walk.of collected
      congr 1
      funext b
      rw [List.filter_append]
      by_cases mem : b ∈ seen
      · have up := (right id isType b).2 (ended.mem_iff.1 mem)
        simp [mem, up]
      · have notUp : ¬ reaches id b := fun up => mem (ended.mem_iff.2 ((right id isType b).1 up))
        simp [mem, notUp]
    have first : Walked types (collected reaches before) id (.ok (collected reaches (before ++ [id]))) := by
      rw [← added]
      have blank : Walk.of (collected reaches before).below id [] [id] =
          { collected reaches before with stack := [id] } := by simp [Walk.of]
      rw [blank] at ends
      exact ends
    have once' : (before ++ [id] ++ ids).Nodup := by rwa [List.append_assoc]
    have rest := ih once' inside
    rw [List.append_assoc, List.singleton_append] at rest
    exact .cons first rest

/-- The walks from all types on find what is below every type. -/
theorem each_walked_iff (closed : ∀ a b, Above types a b → b < types.size)
    {reaches : TypeId → TypeId → Bool}
    (right : ∀ a < types.size, ∀ b, reaches a b = true ↔ ReflTransGen (Above types) a b)
    {r : Except Empty Walk} :
    Each (Walked types) (List.range types.size) ⟨fun _ => [], []⟩ r ↔
      r = .ok (collected reaches (List.range types.size)) := by
  have walked : Each (Walked types) (List.range types.size) (collected reaches [])
      (.ok (collected reaches (List.range types.size))) :=
    each_walked closed right List.nodup_range fun _ => List.mem_range.1
  have unique : ∀ w id r r', Walked types w id r → Walked types w id r' → r = r' :=
    fun _ _ _ _ => Ends.unique
  constructor
  · intro each
    exact each.unique unique walked
  · rintro rfl
    exact walked

/-! ### Building -/

/-- What a builder comes to that orders the types and collects their subtypes in loops (`build`). -/
inductive Looped (types : Array TypeInfo) : Except TypeFault TypeHierarchy → Prop
  | circle {c : TypeId}
      (searched : Each (Searched types) (List.range types.size) (.of [] [] []) (.error c)) :
      Looped types (.error (.cycle (types[c]?.getD default).name))
  | hierarchy {s : Search} {w : Walk} {h : TypeHierarchy}
      (searched : Each (Searched types) (List.range types.size) (.of [] [] []) (.ok s))
      (walked : Each (Walked types) (List.range types.size) ⟨fun _ => [], []⟩ (.ok w))
      (same : h.types = types)
      (properties : h.properties = s.order.foldl (inheritProperties types) (Array.replicate types.size []))
      (subtypes : ∀ b, h.subtypesOf b = (w.below b).mergeSort) :
      Looped types (.ok h)

/-- Loops build what `build` builds, and they fail at the same type. -/
theorem looped_build {infos : List TypeInfo} (distinct : firstDuplicate [] decls = none)
    (resolved : Resolved decls infos) : Looped infos.toArray (build decls) := by
  have once := (firstDuplicate_eq_none_iff.1 distinct).1
  have closed := resolved.closed once
  have searched := (each_searched_iff closed).2 rfl
  rw [build_of_resolved distinct resolved]
  cases ordered : order infos.toArray with
  | error c =>
    rw [ordered] at searched
    exact .circle searched
  | ok sorted =>
    rw [ordered] at searched
    have reaches := fun a bound b => resolved.isSubtype_iff once ordered (a := a) bound b
    rw [← resolved.above_eq once] at reaches
    refine .hierarchy searched ((each_walked_iff closed reaches).2 rfl) rfl rfl fun b => ?_
    have increasing := (resolved.represents once ordered).subtypesOf b
    exact (List.mergeSort_of_pairwise (increasing.1.imp fun less => decide_eq_true (Nat.le_of_lt less))).symm

end Workbench.TypeHierarchy
