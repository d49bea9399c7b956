import Mathlib.Data.Fintype.Card
import Mathlib.Data.List.Flatten
import Mathlib.Data.List.Nodup
import Workbench.Ast
import Workbench.Proofs.Loops

/-!
**Walks through a tree.**

In a tree every node that a node holds has the holder as its container, once, and the root has none. So
the containers of a node lead to the root in one number of steps only, which is at most the number of
nodes. It follows that the walk from the root, which goes no deeper than there are nodes, meets every node
that hangs in the tree, and meets it once.

A walk need not recur on depth: a stream keeps the nodes to go to on a stack, and puts what a node holds in
its place. From a node of the tree it meets what the walk meets.

Where containers come to an end, also those of a node that hangs nowhere, they do so after no more steps
than there are nodes, so the walk along them misses none.
-/

namespace Workbench

namespace Ast

/-- A walk with a stack: the nodes that it has met, and those to go to, the next one in front. -/
structure Stream where
  met : List NodeId
  stack : List NodeId

namespace Stream

/-- The walk `stream_ast` from a node. -/
def start (id : NodeId) : Stream := ⟨[], [id]⟩

/-- Its step `next`: a node is taken off the stack and met, and what it holds is put in its place, the first
on top. -/
def next (a : Ast) (s : Stream) : Except Empty (Option Stream) :=
  match s.stack with
  | [] => .ok none
  | id :: stack => .ok (some ⟨s.met ++ [id], a.contents id ++ stack⟩)

end Stream

/-- The nodes that hang in the tree. -/
inductive Reachable (a : Ast) : NodeId → Prop where
  | root : Reachable a a.root
  | child {id c : NodeId} (above : Reachable a id) (mem : c ∈ a.contents id) : Reachable a c

/-- The container reached in a number of steps. -/
def climb (a : Ast) : Nat → NodeId → Option NodeId
  | 0, id => some id
  | k + 1, id => (a.container? id).bind (a.climb k)

/-- Children have their holder as container, once, and the root has none. -/
structure Rooted (a : Ast) : Prop where
  container : ∀ id, ∀ c ∈ a.contents id, a.container? c = some id
  once : ∀ id, (a.contents id).Nodup
  root_lt : a.root < a.nodes.size
  root : a.container? a.root = none

variable {a : Ast} {id c x y : NodeId} {j k fuel : Nat}

/-! ### Climbing -/

theorem climb_add (j k : Nat) (x : NodeId) : a.climb (j + k) x = (a.climb j x).bind (a.climb k) := by
  induction j generalizing x with
  | zero => rw [Nat.zero_add]; rfl
  | succ j ih =>
    rw [Nat.succ_add, climb, climb, Option.bind_assoc]
    exact congrArg _ (funext ih)

theorem climb_succ_of_container? (h : a.climb k x = some c) (container : a.container? c = some id) :
    a.climb (k + 1) x = some id := by
  rw [climb_add, h]
  simp [climb, container]

theorem climb_eq_none_of_le (h : a.climb j x = none) (le : j ≤ k) : a.climb k x = none := by
  obtain ⟨more, rfl⟩ := Nat.exists_eq_add_of_le le
  rw [climb_add, h]
  rfl

theorem getElem?_ancestorsFrom (a : Ast) (fuel k : Nat) (id : NodeId) :
    (a.ancestorsFrom fuel id)[k]? = if k < fuel then a.climb k id else none := by
  induction fuel generalizing k id with
  | zero => simp [ancestorsFrom]
  | succ fuel ih =>
    rw [ancestorsFrom]
    cases k with
    | zero => simp [climb]
    | succ k =>
      rw [List.getElem?_cons_succ, climb]
      simp only [Nat.add_lt_add_iff_right]
      cases a.container? id with
      | none => simp
      | some holder => exact ih k holder

/-- Containers that come to an end do so after as many steps as there are nodes: the shortest way to the
end meets no node twice. -/
theorem climb_size_eq_none (ends : ∃ k, a.climb k x = none)
    (within : ∀ k y, a.climb k x = some y → y < a.nodes.size) : a.climb a.nodes.size x = none := by
  classical
  have last := Nat.find_spec ends
  have before : ∀ i : Fin (Nat.find ends), ∃ y : Fin a.nodes.size, a.climb i x = some y.val := by
    intro i
    obtain ⟨y, found⟩ := Option.ne_none_iff_exists'.1 (Nat.find_min ends i.isLt)
    exact ⟨⟨y, within i y found⟩, found⟩
  choose node climbs using before
  have injective : Function.Injective node := by
    intro i j same
    wlog le : i ≤ j generalizing i j
    · exact (this same.symm (Fin.le_of_lt (Fin.not_le.1 le))).symm
    -- from the node that is met twice on, the end is as far the first time as the second time
    have rest := last
    rw [show Nat.find ends = j.val + (Nat.find ends - j.val) by omega, climb_add, climbs j, ← same] at rest
    have sooner : a.climb (i.val + (Nat.find ends - j.val)) x = none := by
      rw [climb_add, climbs i]
      exact rest
    have least := Nat.find_min' ends sooner
    exact Fin.ext (by omega)
  have le := Fintype.card_le_of_injective node injective
  rw [Fintype.card_fin, Fintype.card_fin] at le
  exact climb_eq_none_of_le last le

/-- A node and its containers are met one by one on the climb, all of them. -/
theorem getElem?_ancestors (ends : ∃ k, a.climb k x = none)
    (within : ∀ k y, a.climb k x = some y → y < a.nodes.size) (k : Nat) :
    (a.ancestors x)[k]? = a.climb k x := by
  rw [ancestors, getElem?_ancestorsFrom]
  split
  · rfl
  · next beyond =>
    exact (climb_eq_none_of_le (climb_size_eq_none ends within) (Nat.le_of_not_lt beyond)).symm

namespace Rooted

theorem climb_root (h : a.Rooted) (found : a.climb k a.root = some y) : k = 0 := by
  cases k with
  | zero => rfl
  | succ k => simp [climb, h.root] at found

/-- The root is reached in one number of steps only. -/
theorem climb_unique (h : a.Rooted) (left : a.climb j x = some a.root)
    (right : a.climb k x = some a.root) : j = k := by
  wlog le : j ≤ k generalizing j k
  · exact (this right left (by omega)).symm
  · obtain ⟨more, rfl⟩ := Nat.exists_eq_add_of_le le
    rw [climb_add, left] at right
    have none := h.climb_root right
    omega

theorem climb_of_reachable (h : a.Rooted) (reachable : a.Reachable x) :
    ∃ k, a.climb k x = some a.root := by
  induction reachable with
  | root => exact ⟨0, rfl⟩
  | @child id c _ mem ih =>
    obtain ⟨k, found⟩ := ih
    refine ⟨k + 1, ?_⟩
    rw [climb, h.container id c mem]
    exact found

/-! ### The walk from the root -/

theorem climb_of_mem_preorderFrom (h : a.Rooted) (mem : x ∈ a.preorderFrom fuel id) :
    ∃ k, a.climb k x = some id := by
  induction fuel generalizing id with
  | zero => cases mem
  | succ fuel ih =>
    rw [preorderFrom, List.mem_cons, List.mem_flatMap] at mem
    rcases mem with rfl | ⟨c, child, below⟩
    · exact ⟨0, rfl⟩
    · obtain ⟨k, found⟩ := ih below
      exact ⟨k + 1, climb_succ_of_container? found (h.container id c child)⟩

theorem reachable_of_mem_preorderFrom (reachable : a.Reachable id)
    (mem : x ∈ a.preorderFrom fuel id) : a.Reachable x := by
  induction fuel generalizing id with
  | zero => cases mem
  | succ fuel ih =>
    rw [preorderFrom, List.mem_cons, List.mem_flatMap] at mem
    rcases mem with rfl | ⟨c, child, below⟩
    · exact reachable
    · exact ih (.child reachable child) below

/-- No node is met twice: its containers would lead to the root in two ways. -/
theorem nodup_preorderFrom (h : a.Rooted) (fuel : Nat) (reachable : a.Reachable id) :
    (a.preorderFrom fuel id).Nodup := by
  induction fuel generalizing id with
  | zero => exact List.nodup_nil
  | succ fuel ih =>
    obtain ⟨d, toRoot⟩ := h.climb_of_reachable reachable
    have up : ∀ {x c : NodeId}, c ∈ a.contents id → x ∈ a.preorderFrom fuel c →
        ∃ k, a.climb k x = some c ∧ a.climb (k + 1) x = some id ∧
          a.climb (k + 1 + d) x = some a.root := by
      intro x c child below
      obtain ⟨k, found⟩ := h.climb_of_mem_preorderFrom below
      have above := climb_succ_of_container? found (h.container id c child)
      refine ⟨k, found, above, ?_⟩
      rw [climb_add, above]
      exact toRoot
    rw [preorderFrom, List.nodup_cons, List.nodup_flatMap]
    refine ⟨?_, fun c child => ih (.child reachable child), ?_⟩
    · rw [List.mem_flatMap]
      rintro ⟨c, child, below⟩
      obtain ⟨k, -, -, again⟩ := up child below
      have same := h.climb_unique again toRoot
      omega
    · refine (h.once id).imp_of_mem fun {c c'} child child' other x below below' => other ?_
      obtain ⟨k, found, -, toRoot⟩ := up child below
      obtain ⟨k', found', -, toRoot'⟩ := up child' below'
      obtain rfl : k = k' := by
        have same := h.climb_unique toRoot toRoot'
        omega
      exact Option.some.inj (found.symm.trans found')

theorem mem_preorderFrom_child (mem : x ∈ a.preorderFrom fuel id) (child : c ∈ a.contents x) :
    c ∈ a.preorderFrom (fuel + 1) id := by
  induction fuel generalizing id with
  | zero => cases mem
  | succ fuel ih =>
    rw [preorderFrom, List.mem_cons, List.mem_flatMap] at mem ⊢
    rcases mem with rfl | ⟨c', child', below⟩
    · exact .inr ⟨c, child, by simp [preorderFrom]⟩
    · exact .inr ⟨c', child', ih below⟩

theorem preorderFrom_mono {less more : Nat} (le : less ≤ more) (mem : x ∈ a.preorderFrom less id) :
    x ∈ a.preorderFrom more id := by
  induction less generalizing id more with
  | zero => cases mem
  | succ less ih =>
    obtain ⟨more, rfl⟩ := Nat.exists_eq_add_of_lt (Nat.lt_of_succ_le le)
    rw [preorderFrom, List.mem_cons, List.mem_flatMap] at mem ⊢
    rcases mem with same | ⟨c, child, below⟩
    · exact .inl same
    · exact .inr ⟨c, child, ih (by omega) below⟩

theorem mem_preorderFrom_of_climb (h : a.Rooted) (reachable : a.Reachable x)
    (toRoot : a.climb k x = some a.root) : x ∈ a.preorderFrom (k + 1) a.root := by
  induction reachable generalizing k with
  | root => simp [preorderFrom]
  | @child id c above mem ih =>
    -- the holder is one step nearer to the root, so it is met with one round less
    obtain ⟨d, found⟩ := h.climb_of_reachable above
    have up : a.climb (d + 1) c = some a.root := by
      rw [climb, h.container id c mem]
      exact found
    obtain rfl := h.climb_unique toRoot up
    exact mem_preorderFrom_child (ih found) mem

theorem lt_size_of_container? (h : a.container? x = some y) : x < a.nodes.size := by
  obtain ⟨place, isPlaced, -⟩ := Option.map_eq_some_iff.1 h
  obtain ⟨n, found, -⟩ := Option.bind_eq_some_iff.1 isPlaced
  exact (Array.getElem?_eq_some_iff.1 found).1

theorem lt_size_of_climb_root (h : a.Rooted) (toRoot : a.climb k x = some a.root) :
    x < a.nodes.size := by
  cases k with
  | zero =>
    obtain rfl : x = a.root := by simpa [climb] using toRoot
    exact h.root_lt
  | succ k =>
    obtain ⟨holder, container, -⟩ := Option.bind_eq_some_iff.1 toRoot
    exact lt_size_of_container? container

/-- A path of containers to the root meets no node twice, so it is shorter than the number of nodes. -/
theorem climb_root_lt_size (h : a.Rooted) (toRoot : a.climb k x = some a.root) :
    k < a.nodes.size := by
  have step : ∀ i : Fin (k + 1), ∃ y : Fin a.nodes.size, a.climb i x = some y.val := by
    intro i
    obtain ⟨more, eq⟩ := Nat.exists_eq_add_of_le (Nat.le_of_lt_succ i.isLt)
    have rest := toRoot
    rw [eq, climb_add] at rest
    obtain ⟨y, found, up⟩ := Option.bind_eq_some_iff.1 rest
    exact ⟨⟨y, h.lt_size_of_climb_root up⟩, found⟩
  choose node climbs using step
  -- the rest of the path to the root tells how far up a node is met
  have injective : Function.Injective node := by
    intro i j same
    have left := toRoot
    have right := toRoot
    rw [show k = i.val + (k - i.val) by omega, climb_add, climbs i] at left
    rw [show k = j.val + (k - j.val) by omega, climb_add, climbs j, ← same] at right
    have equal := h.climb_unique left right
    exact Fin.ext (by omega)
  have le := Fintype.card_le_of_injective node injective
  rw [Fintype.card_fin, Fintype.card_fin] at le
  exact Nat.lt_of_succ_le le

/-- The walk from the root meets each node of the tree, and meets it once. -/
theorem preorder_spec (h : a.Rooted) :
    a.preorder.Nodup ∧ ∀ id, id ∈ a.preorder ↔ a.Reachable id := by
  refine ⟨h.nodup_preorderFrom _ .root, fun id => ⟨reachable_of_mem_preorderFrom .root, ?_⟩⟩
  intro reachable
  obtain ⟨k, toRoot⟩ := h.climb_of_reachable reachable
  exact preorderFrom_mono (h.climb_root_lt_size toRoot) (h.mem_preorderFrom_of_climb reachable toRoot)

/-- A walk that is as deep as the tree goes no deeper with more rounds. -/
theorem preorderFrom_succ (h : a.Rooted) (toRoot : a.climb k x = some a.root)
    (enough : a.nodes.size ≤ k + fuel) : a.preorderFrom (fuel + 1) x = a.preorderFrom fuel x := by
  induction fuel generalizing k x with
  | zero =>
    have less := h.climb_root_lt_size toRoot
    omega
  | succ fuel ih =>
    have below : ∀ c ∈ a.contents x, a.preorderFrom (fuel + 1) c = a.preorderFrom fuel c := by
      intro c mem
      refine ih (k := k + 1) ?_ (by omega)
      rw [climb, h.container x c mem]
      exact toRoot
    rw [preorderFrom, preorderFrom, List.flatMap_congr below]

/-- A stream meets a node and all that is below it before it comes to the rest of its stack. -/
theorem ends_stream (h : a.Rooted) (toRoot : a.climb k x = some a.root) (enough : a.nodes.size ≤ k + fuel)
    {met stack : List NodeId} {r : Except Empty Stream}
    (rest : Loop.Ends (Stream.next a) ⟨met ++ a.preorderFrom fuel x, stack⟩ r) :
    Loop.Ends (Stream.next a) ⟨met, x :: stack⟩ r := by
  induction fuel generalizing k x met stack with
  | zero =>
    have less := h.climb_root_lt_size toRoot
    omega
  | succ fuel ih =>
    have children : ∀ cs met, (∀ c ∈ cs, a.climb (k + 1) c = some a.root) →
        Loop.Ends (Stream.next a) ⟨met ++ cs.flatMap (a.preorderFrom fuel), stack⟩ r →
        Loop.Ends (Stream.next a) ⟨met, cs ++ stack⟩ r := by
      intro cs
      induction cs with
      | nil => exact fun met _ rest => by simpa using rest
      | cons c cs further =>
        intro met up rest
        obtain ⟨here, up⟩ := List.forall_mem_cons.1 up
        rw [List.flatMap_cons, ← List.append_assoc] at rest
        exact ih here (by omega) (further _ up rest)
    refine .next rfl (children _ _ (fun c mem => ?_) (by simpa [preorderFrom] using rest))
    rw [climb, h.container x c mem]
    exact toRoot

/-- A stream from a node of the tree ends, and it has met what the walk from there meets, in the same order. -/
theorem ends_stream_iff (h : a.Rooted) (reachable : a.Reachable x) {r : Except Empty Stream} :
    Loop.Ends (Stream.next a) (.start x) r ↔ r = .ok ⟨a.preorderFrom a.nodes.size x, []⟩ := by
  obtain ⟨k, toRoot⟩ := h.climb_of_reachable reachable
  have ends : Loop.Ends (Stream.next a) (.start x) (.ok ⟨a.preorderFrom a.nodes.size x, []⟩) :=
    h.ends_stream toRoot (Nat.le_add_left _ _) (.stop rfl)
  constructor
  · exact fun ends' => ends'.unique ends
  · rintro rfl
    exact ends

/-- The children of a node are met in their order. -/
theorem contents_sublist (mem : c ∈ a.preorderFrom fuel id) :
    (a.contents c).Sublist (a.preorderFrom (fuel + 1) id) := by
  induction fuel generalizing id with
  | zero => cases mem
  | succ fuel ih =>
    rw [preorderFrom, List.mem_cons, List.mem_flatMap] at mem
    rw [preorderFrom]
    refine .cons _ ?_
    rcases mem with rfl | ⟨d, child, below⟩
    · have heads : ((a.contents c).flatMap fun x => [x]).Sublist
          ((a.contents c).flatMap (a.preorderFrom (fuel + 1))) := by
        refine List.Sublist.flatMap_right _ fun x _ => ?_
        rw [preorderFrom]
        exact List.singleton_sublist.2 List.mem_cons_self
      rwa [List.flatMap_singleton'] at heads
    · have here := (List.singleton_sublist.2 child).flatMap (a.preorderFrom (fuel + 1))
      rw [List.flatMap_singleton] at here
      exact (ih below).trans here

/-- Of the whole tree, the nodes that a node holds are met in their order. -/
theorem filter_preorder (h : a.Rooted) (reachable : a.Reachable c) :
    a.preorder.filter (fun x => decide (a.container? x = some c)) = a.contents c := by
  obtain ⟨once, all⟩ := h.preorder_spec
  have deep : a.preorderFrom (a.nodes.size + 1) a.root = a.preorder :=
    h.preorderFrom_succ (k := 0) rfl (by omega)
  have inOrder : (a.contents c).Sublist a.preorder := deep ▸ contents_sublist ((all c).2 reachable)
  have children : (a.contents c).filter (fun x => decide (a.container? x = some c)) = a.contents c :=
    List.filter_eq_self.2 fun x mem => decide_eq_true (h.container c x mem)
  have sublist := inOrder.filter fun x => decide (a.container? x = some c)
  rw [children] at sublist
  have same : (a.contents c).Perm (a.preorder.filter fun x => decide (a.container? x = some c)) := by
    refine (List.perm_ext_iff_of_nodup (h.once c) (once.filter _)).2 fun x => ?_
    refine ⟨fun mem => sublist.subset mem, fun mem => ?_⟩
    obtain ⟨hangs, held⟩ := List.mem_filter.1 mem
    have held := of_decide_eq_true held
    cases (all x).1 hangs with
    | root =>
      rw [h.root] at held
      cases held
    | child above mem =>
      rw [h.container _ x mem] at held
      exact Option.some.inj held ▸ mem
  exact (sublist.eq_of_length same.length_eq).symm

/-- The nodes around a node of the tree exist, and they come to an end. -/
theorem ends_of_reachable (h : a.Rooted) (reachable : a.Reachable x) :
    (∃ k, a.climb k x = none) ∧ ∀ k y, a.climb k x = some y → y < a.nodes.size := by
  obtain ⟨d, toRoot⟩ := h.climb_of_reachable reachable
  have beyond : a.climb (d + 1) x = none := by
    rw [climb_add, toRoot]
    simp [climb, h.root]
  refine ⟨⟨_, beyond⟩, fun k y found => ?_⟩
  have within : k ≤ d := Nat.le_of_not_lt fun less => by
    rw [climb_eq_none_of_le beyond less] at found
    cases found
  obtain ⟨more, rfl⟩ := Nat.exists_eq_add_of_le within
  rw [climb_add, found] at toRoot
  exact h.lt_size_of_climb_root toRoot

theorem ancestors_root (h : a.Rooted) : a.ancestors a.root = [a.root] := by
  obtain ⟨n, eq⟩ := Nat.exists_eq_add_of_lt h.root_lt
  rw [ancestors, eq, ancestorsFrom, h.root]

/-- The containers of a child are its holder and those of the holder. -/
theorem ancestors_child (h : a.Rooted) (reachable : a.Reachable id) (mem : c ∈ a.contents id) :
    a.ancestors c = c :: a.ancestors id := by
  obtain ⟨ends, within⟩ := h.ends_of_reachable reachable
  obtain ⟨ends', within'⟩ := h.ends_of_reachable (.child reachable mem)
  apply List.ext_getElem?
  intro k
  rw [getElem?_ancestors ends' within']
  cases k with
  | zero => rfl
  | succ k => rw [List.getElem?_cons_succ, getElem?_ancestors ends within, climb, h.container id c mem]; rfl

end Rooted

end Ast

end Workbench
