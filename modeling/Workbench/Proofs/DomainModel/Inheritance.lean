import Mathlib.Data.List.Perm.Subperm
import Mathlib.Logic.Relation
import Workbench.DomainModel

/-!
**Inheritance cycles are found exactly.**

A class has at most one super class, so who follows super classes has no choice. The check goes from a class
to its super class in the same document, and on, until there is none, or it is back at the class, or at
another class that it has seen. What it has seen is always a path that starts at the class, and the super
class of every class on it but the last one is the next one. If the path ends for want of a super class, or
runs into itself further up, then all super classes of what it has seen have been seen, and the class where it
started is not among them: it is on no cycle.

No class is seen twice, so the search cannot go on for ever, and the bound that the check sets itself is never
met.
-/

namespace Workbench.DomainModel

open Relation

variable {a : Ast} {uri : DocumentUri} {start current : NodeId} {seen : List NodeId}

/-! ### Super classes -/

/-- A class holds a reference to its super class, and it was resolved to a node of the same document. -/
inductive Extends (a : Ast) (uri : DocumentUri) (c : NodeId) : NodeId → Prop where
  | superClass {node : AstNode} {id : RefId} {reference : Reference} {target : Description}
    (here : a.node? c = some node) (held : node.reference? "superClass" = some id)
    (known : a.reference? id = some reference) (resolved : reference.resolution = some (.resolved target))
    (sameDocument : target.uri = uri) (inside : target.node < a.nodes.size) :
    Extends a uri c target.node

theorem target?_eq_some_iff {r : Reference} {d : Description} :
    r.target? = some d ↔ r.resolution = some (.resolved d) := by
  unfold Reference.target? Resolution.target?
  cases r.resolution with
  | none => simp
  | some resolution => cases resolution <;> simp

theorem localNode?_eq_some_iff {d : Description} {id : NodeId} :
    localNode? a uri d = some id ↔ d.uri = uri ∧ d.node < a.nodes.size ∧ d.node = id := by
  unfold localNode?
  split <;> grind

theorem superClass?_eq_some_iff {c d : NodeId} : superClass? a uri c = some d ↔ Extends a uri c d := by
  constructor
  · intro found
    simp only [superClass?, Option.bind_eq_bind, Option.bind_eq_some_iff] at found
    obtain ⟨node, here, id, held, reference, known, target, resolved, isLocal⟩ := found
    obtain ⟨sameDocument, inside, rfl⟩ := localNode?_eq_some_iff.1 isLocal
    exact .superClass here held known (target?_eq_some_iff.1 resolved) sameDocument inside
  · rintro ⟨here, held, known, resolved, sameDocument, inside⟩
    simp only [superClass?, Option.bind_eq_bind, Option.bind_eq_some_iff]
    exact ⟨_, here, _, held, _, known, _, target?_eq_some_iff.2 resolved,
      localNode?_eq_some_iff.2 ⟨sameDocument, inside, rfl⟩⟩

theorem Extends.lt_size {c d : NodeId} (h : Extends a uri c d) : d < a.nodes.size := by
  cases h with
  | superClass _ _ _ _ _ inside => exact inside

theorem Extends.unique {c d d' : NodeId} (h : Extends a uri c d) (h' : Extends a uri c d') : d = d' := by
  rw [← superClass?_eq_some_iff] at h h'
  exact Option.some.inj (h.symm.trans h')

/-! ### Following super classes -/

/-- The search of the check, broken off after a number of steps: then there is no answer
(`inheritance_cycle`). -/
def ascend (a : Ast) (uri : DocumentUri) (start : NodeId) : Nat → List NodeId → NodeId → Option Bool
  | 0, _, _ => none
  | steps + 1, seen, current =>
    match superClass? a uri current with
    | none => some false
    | some target =>
      if target = start then some true
      else if seen.contains target then some false
      else ascend a uri start steps (target :: seen) target

/-- The classes `seen` are those on the path from `start` to `current`. -/
structure Ascended (a : Ast) (uri : DocumentUri) (start : NodeId) (seen : List NodeId) (current : NodeId) :
    Prop where
  path : ReflTransGen (Extends a uri) start current
  first : start ∈ seen
  once : seen.Nodup
  inside : ∀ c ∈ seen, c = start ∨ c < a.nodes.size
  passed : ∀ c ∈ seen, c ≠ current → ∀ d, Extends a uri c d → d ∈ seen ∧ d ≠ start

namespace Ascended

theorem here (a : Ast) (uri : DocumentUri) (start : NodeId) : Ascended a uri start [start] start where
  path := .refl
  first := List.mem_singleton_self start
  once := by simp
  inside := by simp
  passed := by simp

theorem step (h : Ascended a uri start seen current) {target : NodeId} (further : Extends a uri current target)
    (new : target ∉ seen) : Ascended a uri start (target :: seen) target where
  path := h.path.tail further
  first := List.mem_cons_of_mem _ h.first
  once := List.nodup_cons.2 ⟨new, h.once⟩
  inside := by
    intro c mem
    rcases List.mem_cons.1 mem with rfl | mem
    · exact .inr further.lt_size
    · exact h.inside c mem
  passed := by
    intro c mem other d super
    have mem := (List.mem_cons.1 mem).resolve_left other
    by_cases isLast : c = current
    · subst isLast
      obtain rfl := super.unique further
      exact ⟨List.mem_cons_self, fun back => new (back ▸ h.first)⟩
    · obtain ⟨known, away⟩ := h.passed c mem isLast d super
      exact ⟨List.mem_cons_of_mem _ known, away⟩

/-- No path is longer than the number of nodes, but for its first class. -/
theorem length_le (h : Ascended a uri start seen current) : seen.length ≤ a.nodes.size + 1 := by
  have sub : seen ⊆ start :: List.range a.nodes.size := by
    intro c mem
    rcases h.inside c mem with rfl | bound
    · exact List.mem_cons_self
    · exact List.mem_cons_of_mem _ (List.mem_range.2 bound)
  simpa using (h.once.subperm sub).length_le

/-- If the super class of the last class has been seen too and is not the first one, the first one is on no
cycle. -/
theorem not_circle (h : Ascended a uri start seen current)
    (last : ∀ d, Extends a uri current d → d ∈ seen ∧ d ≠ start) :
    ¬ TransGen (Extends a uri) start start := by
  have closed : ∀ c ∈ seen, ∀ d, Extends a uri c d → d ∈ seen ∧ d ≠ start := by
    intro c mem
    by_cases isLast : c = current
    · exact isLast ▸ last
    · exact h.passed c mem isLast
  have away : ∀ d, TransGen (Extends a uri) start d → d ∈ seen ∧ d ≠ start := by
    intro d path
    induction path with
    | single super => exact closed start h.first _ super
    | tail _ super ih => exact closed _ ih.1 _ super
  exact fun circle => (away start circle).2 rfl

end Ascended

/-- The search ends, and it says whether the class where it started is on a cycle. -/
theorem ascend_eq (steps : Nat) (h : Ascended a uri start seen current)
    (enough : a.nodes.size + 2 ≤ seen.length + steps) :
    ascend a uri start steps seen current = some (leadsTo a uri start steps seen current) ∧
      (leadsTo a uri start steps seen current = true ↔ TransGen (Extends a uri) start start) := by
  induction steps generalizing seen current with
  | zero =>
    have length := h.length_le
    omega
  | succ steps ih =>
    rw [ascend, leadsTo]
    cases super : superClass? a uri current with
    | none =>
      have noCircle := h.not_circle fun d further => by
        rw [superClass?_eq_some_iff.2 further] at super
        cases super
      exact ⟨rfl, by simpa using noCircle⟩
    | some target =>
      have further := superClass?_eq_some_iff.1 super
      dsimp only
      by_cases back : target = start
      · rw [if_pos back, if_pos back]
        exact ⟨rfl, fun _ => .tail' h.path (back ▸ further), fun _ => rfl⟩
      · rw [if_neg back, if_neg back]
        by_cases known : target ∈ seen
        · have noCircle := h.not_circle fun d super => by
            obtain rfl := super.unique further
            exact ⟨known, back⟩
          have contains := List.contains_iff_mem.2 known
          rw [if_pos contains, if_pos contains]
          exact ⟨rfl, by simpa using noCircle⟩
        · have new : ¬ seen.contains target = true := mt List.contains_iff_mem.1 known
          rw [if_neg new, if_neg new]
          refine ih (h.step further known) ?_
          rw [List.length_cons]
          omega

/-! ### The check -/

/-- **Inheritance cycles are reported exactly**, in every tree and whatever its references are resolved to.
The search from a class ends after at most as many steps as there are nodes and one more. If following
resolved super classes of the same document leads from the class back to itself, the check reports one error
on it, and if not, it reports nothing: neither on a class that only leads into a cycle, nor because of a class
of another document. -/
theorem inheritanceCycle_exact (a : Ast) (uri : DocumentUri) (id : NodeId) :
    (∀ steps, a.nodes.size < steps → ascend a uri id steps [id] id = some (inheritsItself a uri id)) ∧
    ∃ e : Diagnostic, e.severity = .error ∧ e.code = some "inheritance-cycle" ∧
      e.message = "Cycle in the inheritance hierarchy of '" ++ (a.nameOf? id).getD "" ++ "'." ∧
      e.range = Diagnostic.rangeOn a id (some "superClass") none ∧
      (TransGen (Extends a uri) id id → (inheritanceCycle.run a uri id).reports = [e]) ∧
      (¬ TransGen (Extends a uri) id id → (inheritanceCycle.run a uri id).reports = []) := by
  have search : ∀ steps, a.nodes.size < steps →
      ascend a uri id steps [id] id = some (leadsTo a uri id steps [id] id) ∧
        (leadsTo a uri id steps [id] id = true ↔ TransGen (Extends a uri) id id) := by
    intro steps enough
    refine ascend_eq steps (.here a uri id) ?_
    rw [List.length_singleton]
    omega
  have found : inheritsItself a uri id = true ↔ TransGen (Extends a uri) id id :=
    (search _ (Nat.lt_succ_self _)).2
  refine ⟨fun steps enough => ?_, {
    severity := .error
    message := "Cycle in the inheritance hierarchy of '" ++ (a.nameOf? id).getD "" ++ "'."
    range := Diagnostic.rangeOn a id (some "superClass") none
    code := some "inheritance-cycle" }, rfl, rfl, rfl, rfl, fun circle => ?_, fun noCircle => ?_⟩
  · obtain ⟨ends, found'⟩ := search steps enough
    rw [ends, Bool.eq_iff_iff.2 (found'.trans found.symm)]
  · exact if_pos (found.2 circle)
  · exact if_neg (mt found.1 noCircle)

/-- The class that only leads into the cycle is not reported. -/
example :
    ((language.analyze "file:///c.dmodel"
        "class A extends B \x7b\x7d class B extends C \x7b\x7d class C extends B \x7b\x7d"
        (fun _ => []) {} .never).toOption.map fun (x, _) => x.diagnostics.map (·.message)) =
      some ["Cycle in the inheritance hierarchy of 'B'.", "Cycle in the inheritance hierarchy of 'C'."] := by
  decide +kernel

end Workbench.DomainModel
