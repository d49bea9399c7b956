import Mathlib.Data.Fintype.Order
import Mathlib.Logic.Relation
import Workbench.DomainModel.Grammar
import Workbench.Proofs.Grammar.Sweeps
import Workbench.Proofs.Loops

/-!
**Left recursion is found exactly.**

A rule calls another first if the call stands in leftmost position of its body: behind nothing but
elements that derive the empty sequence. A rule is left-recursive if a chain of such calls leads from it
back to itself. The search for left-recursive rules follows the calls that the lookahead shows in leftmost
position, as many steps as there are rules; since the lookahead is exact and a chain need not visit a rule
twice, it misses none.

The same rule is found by a search without rounds, `check_left_recursion`: for one rule after the other, in
the order of their declaration, it follows calls with a stack of its own and marks the rules that it has
been at, until it comes back to the rule or has nothing left to look at. Every search ends, and the first
one that comes back ends them all.

A parser is refused exactly for the first left-recursive rule. In a grammar that is accepted, calls in
leftmost position are well-founded: no sequence of them goes on forever without a token being taken.
-/

namespace Workbench

namespace Grammar

/-- The rule `callee`, which is no terminal rule, is called in leftmost position of the element. -/
inductive CallsFirst (g : Grammar) : Element → RuleId → Prop where
  | call {e : Element} {callee : RuleId} (calls : e.callee? = some callee)
    (nonterminal : g.terminal? callee = none) : CallsFirst g e callee
  | assign {feature : String} {op : AssignOp} {value : Element} {callee : RuleId}
    (inside : CallsFirst g value callee) : CallsFirst g (.assign feature op value) callee
  | head {item : Element} {rest : List Element} {callee : RuleId}
    (inside : CallsFirst g item callee) : CallsFirst g (.group (item :: rest)) callee
  | tail {item : Element} {rest : List Element} {callee : RuleId} (empty : g.Generates item [])
    (inside : CallsFirst g (.group rest) callee) : CallsFirst g (.group (item :: rest)) callee
  | alternative {items : List Element} {item : Element} {callee : RuleId} (mem : item ∈ items)
    (inside : CallsFirst g item callee) : CallsFirst g (.alternatives items) callee
  | repetition {cardinality : Cardinality} {item : Element} {callee : RuleId}
    (inside : CallsFirst g item callee) : CallsFirst g (.repetition cardinality item) callee

/-- The rule `caller` calls the rule `callee` before any token has been taken. -/
def LeftCall (g : Grammar) (caller callee : RuleId) : Prop :=
  ∃ body, g.body? caller = some body ∧ g.CallsFirst body callee

/-- The rule can call itself, in one or more steps, before any token has been taken. -/
def LeftRecursive (g : Grammar) (id : RuleId) : Prop := Relation.TransGen g.LeftCall id id

end Grammar

/-! ### Calls in leftmost position -/

namespace Element

variable {g : Grammar} {N T : RuleId → Bool} {callee : RuleId}

mutual

theorem callsFirst_of_mem (empty : ∀ e : Element, e.nullable N = true → g.Generates e [])
    (terminals : ∀ id, T id = false → g.terminal? id = none) :
    ∀ e : Element, callee ∈ e.leftCalls N T → g.CallsFirst e callee
  | .keyword _, mem | .action _ _, mem => by simp [leftCalls] at mem
  | .call id, mem => by
    cases terminal : T id <;> simp [leftCalls, terminal] at mem
    exact .call (by simp [callee?, mem]) (mem ▸ terminals id terminal)
  | .crossRef _ id, mem => by
    cases terminal : T id <;> simp [leftCalls, terminal] at mem
    exact .call (by simp [callee?, mem]) (mem ▸ terminals id terminal)
  | .assign _ _ value, mem => by
    rw [leftCalls] at mem
    exact .assign (callsFirst_of_mem empty terminals value mem)
  | .group items, mem => by
    rw [leftCalls] at mem
    exact callsFirst_of_mem_group empty terminals items mem
  | .alternatives items, mem => by
    rw [leftCalls] at mem
    obtain ⟨item, among, inside⟩ := callsFirst_of_mem_any empty terminals items mem
    exact .alternative among inside
  | .repetition _ item, mem => by
    rw [leftCalls] at mem
    exact .repetition (callsFirst_of_mem empty terminals item mem)

theorem callsFirst_of_mem_group (empty : ∀ e : Element, e.nullable N = true → g.Generates e [])
    (terminals : ∀ id, T id = false → g.terminal? id = none) :
    ∀ items : List Element, callee ∈ leftCallsOfGroup N T items → g.CallsFirst (.group items) callee
  | [], mem => by simp [leftCallsOfGroup] at mem
  | item :: rest, mem => by
    rw [leftCallsOfGroup] at mem
    split at mem
    · next canBeEmpty =>
      rcases List.mem_append.1 mem with here | there
      · exact .head (callsFirst_of_mem empty terminals item here)
      · exact .tail (empty item canBeEmpty) (callsFirst_of_mem_group empty terminals rest there)
    · exact .head (callsFirst_of_mem empty terminals item mem)

theorem callsFirst_of_mem_any (empty : ∀ e : Element, e.nullable N = true → g.Generates e [])
    (terminals : ∀ id, T id = false → g.terminal? id = none) :
    ∀ items : List Element, callee ∈ leftCallsOfAny N T items →
      ∃ item ∈ items, g.CallsFirst item callee
  | [], mem => by simp [leftCallsOfAny] at mem
  | item :: rest, mem => by
    rw [leftCallsOfAny] at mem
    rcases List.mem_append.1 mem with here | there
    · exact ⟨item, List.mem_cons_self, callsFirst_of_mem empty terminals item here⟩
    · obtain ⟨other, among, inside⟩ := callsFirst_of_mem_any empty terminals rest there
      exact ⟨other, List.mem_cons_of_mem _ among, inside⟩

end

theorem mem_leftCallsOfAny {item : Element} {items : List Element} (mem : item ∈ items)
    (h : callee ∈ item.leftCalls N T) : callee ∈ leftCallsOfAny N T items := by
  induction items with
  | nil => cases mem
  | cons other rest ih =>
    rw [leftCallsOfAny, List.mem_append]
    rcases List.mem_cons.1 mem with rfl | mem
    · exact .inl h
    · exact .inr (ih mem)

theorem leftCalls_of_callee? {e : Element} {id : RuleId} (calls : e.callee? = some id) :
    e.leftCalls N T = if T id then [] else [id] := by
  cases e <;> cases calls <;> rw [leftCalls]

theorem mem_leftCalls (nonempty : ∀ e : Element, g.Generates e [] → e.nullable N = true)
    (terminals : ∀ id, g.terminal? id = none → T id = false) {e : Element}
    (h : g.CallsFirst e callee) : callee ∈ e.leftCalls N T := by
  induction h with
  | call calls nonterminal =>
    rw [leftCalls_of_callee? calls, terminals _ nonterminal]
    simp
  | assign _ ih | repetition _ ih =>
    rw [leftCalls]
    exact ih
  | head _ ih =>
    rw [leftCalls, leftCallsOfGroup]
    split
    · exact List.mem_append_left _ ih
    · exact ih
  | tail empty _ ih =>
    rw [leftCalls] at ih
    rw [leftCalls, leftCallsOfGroup, if_pos (nonempty _ empty)]
    exact List.mem_append_right _ ih
  | alternative mem _ ih =>
    rw [leftCalls]
    exact mem_leftCallsOfAny mem ih

end Element

namespace Lookahead

open Relation

variable {g : Grammar} {caller callee start id : RuleId}

/-- The lookahead shows the calls in leftmost position. -/
theorem mem_leftCalls_iff : callee ∈ leftCalls g (of g) caller ↔ g.LeftCall caller callee := by
  have terminals : ∀ id, ((of g).terminal? id).isSome = false ↔ g.terminal? id = none := by
    intro id
    have same : (of g).terminal? id = g.terminal? id := terminal?_stage g g.rules.size id
    rw [same, Option.isSome_eq_false_iff, Option.isNone_iff_eq_none]
  rw [leftCalls, Grammar.LeftCall]
  cases known : g.rules[caller]? with
  | none => simp [Grammar.body?, known]
  | some rule =>
    cases terminal : rule.kind.terminal? with
    | some kind => simp [Grammar.body?, known, terminal]
    | none =>
      simp only [Grammar.body?_of_rule known terminal, terminal, Option.isSome_none,
        Bool.false_eq_true, if_false, Option.some.injEq, exists_eq_left']
      constructor
      · exact Element.callsFirst_of_mem (fun e => (nullable_iff g e).1)
          (fun id => (terminals id).1) rule.body
      · exact Element.mem_leftCalls (fun e => (nullable_iff g e).2) fun id => (terminals id).2

/-! ### Chains of calls -/

theorem mem_foldl_insert {new acc : List RuleId} :
    id ∈ new.foldl (fun acc id => if acc.contains id then acc else acc ++ [id]) acc ↔
      id ∈ acc ∨ id ∈ new := by
  induction new generalizing acc with
  | nil => simp
  | cons head rest ih =>
    rw [List.foldl_cons, ih]
    by_cases known : head ∈ acc
    · simp only [List.contains_eq_mem, known, decide_true, if_true, List.mem_cons]
      constructor
      · rintro (old | later)
        · exact .inl old
        · exact .inr (.inr later)
      · rintro (old | rfl | later)
        · exact .inl old
        · exact .inl known
        · exact .inr later
    · simp [known, or_assoc]

theorem mem_extendCalls {la : Lookahead} {reached : List RuleId} :
    id ∈ extendCalls g la reached ↔ id ∈ reached ∨ ∃ via ∈ reached, id ∈ leftCalls g la via := by
  have general : ∀ calling acc : List RuleId,
      id ∈ calling.foldl (fun acc via => (leftCalls g la via).foldl
        (fun acc id => if acc.contains id then acc else acc ++ [id]) acc) acc ↔
      id ∈ acc ∨ ∃ via ∈ calling, id ∈ leftCalls g la via := by
    intro calling
    induction calling with
    | nil => simp
    | cons via rest ih =>
      intro acc
      rw [List.foldl_cons, ih, mem_foldl_insert]
      simp [or_assoc]
  exact general reached reached

/-- The rules found by following leftmost calls from a rule for one and then `k` more steps. -/
def reachedBy (g : Grammar) (start : RuleId) (k : Nat) : List RuleId :=
  rounds (extendCalls g (of g)) k (leftCalls g (of g) start)

theorem mem_reachedBy_zero : id ∈ reachedBy g start 0 ↔ g.LeftCall start id := mem_leftCalls_iff

theorem mem_reachedBy_succ {k : Nat} : id ∈ reachedBy g start (k + 1) ↔
    id ∈ reachedBy g start k ∨ ∃ via ∈ reachedBy g start k, g.LeftCall via id := by
  simp only [reachedBy, rounds_succ, mem_extendCalls, mem_leftCalls_iff]

theorem transGen_of_mem_reachedBy {k : Nat} (h : id ∈ reachedBy g start k) :
    TransGen g.LeftCall start id := by
  induction k generalizing id with
  | zero => exact .single (mem_reachedBy_zero.1 h)
  | succ k ih =>
    rcases mem_reachedBy_succ.1 h with old | ⟨via, reached, calls⟩
    · exact ih old
    · exact (ih reached).tail calls

theorem mem_reachedBy_of_leftCall (k : Nat) (h : g.LeftCall start id) : id ∈ reachedBy g start k := by
  induction k with
  | zero => exact mem_reachedBy_zero.2 h
  | succ k ih => exact mem_reachedBy_succ.2 (.inl ih)

theorem lt_size_of_leftCall (h : g.LeftCall caller callee) : caller < g.rules.size := by
  obtain ⟨body, known, -⟩ := h
  exact lt_size_of_body? known

/-- The rules of a grammar that are reached in at most `k` calls; none in no call. -/
def ReachedIn (g : Grammar) (start : RuleId) : Nat → RuleId → Prop
  | 0, _ => False
  | k + 1, id => id < g.rules.size ∧ id ∈ reachedBy g start k

theorem ReachedIn.step {j k : Nat} (le : ∀ i, ReachedIn g start j i → ReachedIn g start k i)
    (h : ReachedIn g start (j + 1) id) : ReachedIn g start (k + 1) id := by
  obtain ⟨inside, reached⟩ := h
  cases j with
  | zero => exact ⟨inside, mem_reachedBy_of_leftCall k (mem_reachedBy_zero.1 reached)⟩
  | succ j =>
    rcases mem_reachedBy_succ.1 reached with old | ⟨via, before, calls⟩
    · have earlier := le id ⟨inside, old⟩
      cases k with
      | zero => exact earlier.elim
      | succ k => exact ⟨inside, mem_reachedBy_succ.2 (.inl earlier.2)⟩
    · have earlier := le via ⟨lt_size_of_leftCall calls, before⟩
      cases k with
      | zero => exact earlier.elim
      | succ k => exact ⟨inside, mem_reachedBy_succ.2 (.inr ⟨via, earlier.2, calls⟩)⟩

/-- After as many steps as there are rules, one more step finds no further rule. -/
theorem reachedBy_settled (inside : id < g.rules.size)
    (h : id ∈ reachedBy g start (g.rules.size + 1)) : id ∈ reachedBy g start g.rules.size := by
  have settled : ∀ i, ReachedIn g start (g.rules.size + 1) i → ReachedIn g start g.rules.size i := by
    refine rounds_settled ?_ (fun i none => none) fun j k le i => ReachedIn.step le
    rintro (_ | k) i found
    · exact found.elim
    · exact found.1
  have reached : ReachedIn g start (g.rules.size + 2) id := ⟨inside, h⟩
  exact (ReachedIn.step settled reached).2

theorem mem_reachedBy_of_transGen (inside : id < g.rules.size) (h : TransGen g.LeftCall start id) :
    id ∈ reachedBy g start g.rules.size := by
  induction h with
  | single calls => exact mem_reachedBy_of_leftCall _ calls
  | tail _ calls ih =>
    have reached := ih (lt_size_of_leftCall calls)
    exact reachedBy_settled inside (mem_reachedBy_succ.2 (.inr ⟨_, reached, calls⟩))

theorem isLeftRecursive_iff : isLeftRecursive g (of g) id = true ↔ g.LeftRecursive id := by
  rw [isLeftRecursive, List.contains_iff_mem]
  constructor
  · exact transGen_of_mem_reachedBy
  · intro recursive
    obtain ⟨next, calls, -⟩ := TransGen.head'_iff.1 recursive
    exact mem_reachedBy_of_transGen (lt_size_of_leftCall calls) recursive

/-- The rule that is named is the first left-recursive one. -/
theorem leftRecursive?_eq_some_iff {rule : Rule} : leftRecursive? g (of g) = some rule ↔
    ∃ id, g.rules[id]? = some rule ∧ g.LeftRecursive id ∧
      ∀ earlier < id, ¬ g.LeftRecursive earlier := by
  have listed : ∀ id : RuleId, g.rules.toList.zipIdx[id]? = g.rules[id]?.map (·, id) := by
    intro id
    simp [List.getElem?_zipIdx]
  rw [leftRecursive?, List.findSome?_eq_some_iff]
  constructor
  · rintro ⟨before, ⟨named, id⟩, after, split, found, none⟩
    have place : g.rules[before.length]?.map (·, before.length) = some (named, id) := by
      rw [← listed, split]
      simp
    obtain ⟨_, known, eq⟩ := Option.map_eq_some_iff.1 place
    cases eq
    cases recursive : isLeftRecursive g (of g) before.length <;> simp [recursive] at found
    refine ⟨before.length, found ▸ known, isLeftRecursive_iff.1 recursive, ?_⟩
    intro earlier lt cycle
    obtain ⟨next, calls, -⟩ := TransGen.head'_iff.1 cycle
    obtain ⟨other, stands⟩ : ∃ other, g.rules[earlier]? = some other :=
      ⟨_, Array.getElem?_eq_getElem (lt_size_of_leftCall calls)⟩
    have mem : (other, earlier) ∈ before := by
      have there := listed earlier
      rw [split, List.getElem?_append_left lt, stands] at there
      exact List.mem_of_getElem? there
    have clear := none _ mem
    simp [isLeftRecursive_iff.2 cycle] at clear
  · rintro ⟨id, known, recursive, first⟩
    have here := listed id
    rw [known] at here
    obtain ⟨inside, eq⟩ := List.getElem?_eq_some_iff.1 here
    have eq : g.rules.toList.zipIdx[id] = (rule, id) := eq
    refine ⟨g.rules.toList.zipIdx.take id, (rule, id), g.rules.toList.zipIdx.drop (id + 1), ?_, ?_, ?_⟩
    · rw [← eq, List.getElem_cons_drop, List.take_append_drop]
    · simp [isLeftRecursive_iff.2 recursive]
    · rintro ⟨other, earlier⟩ mem
      obtain ⟨k, lt, stands⟩ := List.mem_take_iff_getElem.1 mem
      have there := listed k
      rw [List.getElem?_eq_getElem (by omega), stands] at there
      obtain ⟨_, -, eq⟩ := Option.map_eq_some_iff.1 there.symm
      cases eq
      have clear : ¬ isLeftRecursive g (of g) earlier = true :=
        fun found => first earlier (Nat.lt_of_lt_of_le lt (Nat.min_le_left _ _))
          (isLeftRecursive_iff.1 found)
      simp [clear]

/-! ### The search on a stack -/

/-- The rules that each rule calls before any token has been taken: the table `left_calls`. -/
def callTable (g : Grammar) (la : Lookahead) : Array (List RuleId) :=
  g.rules.map fun rule =>
    if rule.kind.terminal?.isSome then []
    else rule.body.leftCalls la.ruleNullable (fun id => (la.terminal? id).isSome)

theorem callTable_getD (g : Grammar) (la : Lookahead) (id : RuleId) :
    (callTable g la)[id]?.getD [] = leftCalls g la id := by
  rw [callTable, Array.getElem?_map, leftCalls]
  cases g.rules[id]? <;> rfl

/-- What a search for a rule keeps: a mark on every rule that it has been at, and the rules to look at, the
next one in front. -/
structure CallSearch where
  seen : RuleId → Bool
  stack : List RuleId

namespace CallSearch

/-- The search for a rule starts at its calls, the last one first. -/
def begin (table : Array (List RuleId)) (id : RuleId) : CallSearch where
  seen _ := false
  stack := (table[id]?.getD []).reverse

/-- One turn: the search has come back to the rule, or it goes on to the calls of a rule that it has not been
at. -/
def turn (table : Array (List RuleId)) (start : RuleId) (s : CallSearch) :
    Except RuleId (Option CallSearch) :=
  match s.stack with
  | [] => .ok none
  | next :: stack =>
    if next = start then .error next
    else if s.seen next then .ok (some { s with stack })
    else
      .ok (some {
        seen := Function.update s.seen next true
        stack := (table[next]?.getD []).reverse ++ stack })

/-- The search that has been at some rules. -/
def of (seen stack : List RuleId) : CallSearch where
  seen id := decide (id ∈ seen)
  stack

variable {table : Array (List RuleId)} {next : RuleId} {seen stack : List RuleId}

theorem turn_back (back : next = start) :
    (CallSearch.of seen (next :: stack)).turn table start = .error next := by
  simp [turn, CallSearch.of, back]

theorem turn_seen (differ : next ≠ start) (known : next ∈ seen) :
    (of seen (next :: stack)).turn table start = .ok (some (of seen stack)) := by
  simp [turn, of, differ, known]

theorem turn_new (table : Array (List RuleId)) (stack : List RuleId) (differ : next ≠ start)
    (unknown : next ∉ seen) :
    (of seen (next :: stack)).turn table start =
      .ok (some (of (next :: seen) ((table[next]?.getD []).reverse ++ stack))) := by
  have marked : Function.update (of seen (next :: stack)).seen next true =
      (of (next :: seen) ((table[next]?.getD []).reverse ++ stack)).seen := by
    funext id
    by_cases same : id = next
    · simp [of, same]
    · simp [of, same]
  simp only [turn, of, differ, unknown, if_false, decide_false, Bool.false_eq_true] at marked ⊢
  rw [marked]

end CallSearch

/-- A rule is searched for. It is at fault if the search comes back to it. -/
inductive Searched (g : Grammar) (la : Lookahead) : Unit → Rule × RuleId → Except GrammarFault Unit → Prop
  | clear {rule : Rule} {id : RuleId} {s : CallSearch}
    (ends : Loop.Ends (CallSearch.turn (callTable g la) id) (.begin (callTable g la) id) (.ok s)) :
    Searched g la () (rule, id) (.ok ())
  | found {rule : Rule} {id again : RuleId}
    (ends : Loop.Ends (CallSearch.turn (callTable g la) id) (.begin (callTable g la) id) (.error again)) :
    Searched g la () (rule, id) (.error (.leftRecursive rule.name))

/-- What `compute` comes to: it sweeps over the rules until nothing changes, and then searches for one rule
after the other. -/
inductive Computes (g : Grammar) : Except GrammarFault Lookahead → Prop
  | refused {la : Lookahead} {fault : GrammarFault} (settles : Settles g (blank g) la)
    (found : Loop.Each (Searched g la) g.rules.toList.zipIdx () (.error fault)) : Computes g (.error fault)
  | computed {la : Lookahead} (settles : Settles g (blank g) la)
    (clear : Loop.Each (Searched g la) g.rules.toList.zipIdx () (.ok ())) : Computes g (.ok la)

/-- What a search keeps on its way. -/
structure OnWay (g : Grammar) (start : RuleId) (seen stack : List RuleId) : Prop where
  reached : ∀ id, id ∈ seen ∨ id ∈ stack → TransGen g.LeftCall start id
  avoids : start ∉ seen
  begun : ∀ id, g.LeftCall start id → id ∈ seen ∨ id ∈ stack
  closed : ∀ via ∈ seen, ∀ id, g.LeftCall via id → id ∈ seen ∨ id ∈ stack

namespace OnWay

variable {next via : RuleId} {seen stack : List RuleId}

theorem begin (g : Grammar) (start : RuleId) :
    OnWay g start [] (leftCalls g (of g) start).reverse where
  reached id mem := by
    have called := mem.resolve_left List.not_mem_nil
    exact .single (mem_leftCalls_iff.1 (List.mem_reverse.1 called))
  avoids := List.not_mem_nil
  begun id calls := .inr (List.mem_reverse.2 (mem_leftCalls_iff.2 calls))
  closed := nofun

/-- What was on the stack or seen still is, if the rule on top is dropped or marked. -/
theorem keep {more : List RuleId} (mem : id ∈ seen ∨ id ∈ next :: stack) (top : next ∈ more)
    (kept : seen ⊆ more) (above : List RuleId) : id ∈ more ∨ id ∈ above ++ stack := by
  rcases mem with mem | mem
  · exact .inl (kept mem)
  · rcases List.mem_cons.1 mem with rfl | mem
    · exact .inl top
    · exact .inr (List.mem_append_right _ mem)

/-- A rule that the search has been at is dropped. -/
theorem drop (h : OnWay g start seen (next :: stack)) (mem : next ∈ seen) : OnWay g start seen stack where
  reached id known := h.reached id (known.imp_right (List.mem_cons_of_mem next))
  avoids := h.avoids
  begun id calls := keep (h.begun id calls) mem (List.Subset.refl seen) []
  closed via known id calls := keep (h.closed via known id calls) mem (List.Subset.refl seen) []

/-- A rule that the search has not been at is marked, and its calls are put on the stack. -/
theorem enter (h : OnWay g start seen (next :: stack)) (differ : next ≠ start) :
    OnWay g start (next :: seen) ((leftCalls g (of g) next).reverse ++ stack) where
  reached id mem := by
    have here := h.reached next (.inr List.mem_cons_self)
    rcases mem with mem | mem
    · rcases List.mem_cons.1 mem with rfl | mem
      · exact here
      · exact h.reached id (.inl mem)
    · rcases List.mem_append.1 mem with called | mem
      · exact here.tail (mem_leftCalls_iff.1 (List.mem_reverse.1 called))
      · exact h.reached id (.inr (List.mem_cons_of_mem next mem))
  avoids mem := by
    rcases List.mem_cons.1 mem with same | mem
    · exact differ same.symm
    · exact h.avoids mem
  begun id calls := keep (h.begun id calls) List.mem_cons_self (List.subset_cons_self next seen) _
  closed := by
    refine List.forall_mem_cons.2 ⟨fun id calls => ?_, fun via known id calls => ?_⟩
    · exact .inr (List.mem_append_left _ (List.mem_reverse.2 (mem_leftCalls_iff.2 calls)))
    · exact keep (h.closed via known id calls) List.mem_cons_self (List.subset_cons_self next seen) _

/-- A search that is over has been wherever calls lead, and not at the rule itself. -/
theorem not_leftRecursive (h : OnWay g start seen []) : ¬ g.LeftRecursive start := by
  have settled : ∀ {id}, id ∈ seen ∨ id ∈ ([] : List RuleId) → id ∈ seen := fun mem =>
    mem.resolve_right List.not_mem_nil
  have everywhere : ∀ id, TransGen g.LeftCall start id → id ∈ seen := by
    intro id chain
    induction chain with
    | single calls => exact settled (h.begun _ calls)
    | tail _ calls mem => exact settled (h.closed _ mem _ calls)
  exact fun recursive => h.avoids (everywhere start recursive)

/-- The rules that a search has not been at. -/
def unseen (g : Grammar) (seen : List RuleId) : Finset RuleId :=
  (Finset.range g.rules.size).filter (· ∉ seen)

theorem card_unseen_lt (inside : next < g.rules.size) (unknown : next ∉ seen) :
    (unseen g (next :: seen)).card < (unseen g seen).card := by
  refine Finset.card_lt_card ⟨fun id mem => ?_, fun all => ?_⟩
  · simp only [unseen, Finset.mem_filter, List.mem_cons, not_or] at mem ⊢
    exact ⟨mem.1, mem.2.2⟩
  · have there : next ∈ unseen g seen := by simp [unseen, inside, unknown]
    simpa [unseen] using all there

theorem unseen_cons_of_le (outside : g.rules.size ≤ next) :
    (unseen g (next :: seen)).card = (unseen g seen).card := by
  congr 1
  refine Finset.filter_congr fun id mem => ?_
  have differ : id ≠ next := Nat.ne_of_lt ((Finset.mem_range.1 mem).trans_le outside)
  simp [differ]

/-- A search ends: at every turn there is a rule less to be at, or the stack is shorter. It comes back to the
rule exactly if the rule is left-recursive. -/
theorem exists_ends (h : OnWay g start seen stack) :
    ∃ r, Loop.Ends (CallSearch.turn (callTable g (of g)) start) (.of seen stack) r ∧
      ((∃ again, r = .error again) ∧ g.LeftRecursive start ∨ (∃ s, r = .ok s) ∧ ¬ g.LeftRecursive start) := by
  induction left : (unseen g seen).card using Nat.strongRecOn generalizing seen stack with
  | ind left fewer =>
    induction stack generalizing seen with
    | nil => exact ⟨_, .stop rfl, .inr ⟨⟨_, rfl⟩, h.not_leftRecursive⟩⟩
    | cons next stack ih =>
      by_cases back : next = start
      · have recursive := h.reached next (.inr List.mem_cons_self)
        rw [back] at recursive
        exact ⟨_, .fail (CallSearch.turn_back back), .inl ⟨⟨_, rfl⟩, recursive⟩⟩
      by_cases known : next ∈ seen
      · obtain ⟨r, ends, verdict⟩ := ih (h.drop known) left
        exact ⟨r, .next (CallSearch.turn_seen back known) ends, verdict⟩
      · have entered := h.enter back
        have turned := CallSearch.turn_new (callTable g (of g)) stack back known
        rw [callTable_getD] at turned
        by_cases inside : next < g.rules.size
        · obtain ⟨r, ends, verdict⟩ := fewer _ (left ▸ card_unseen_lt inside known) entered rfl
          exact ⟨r, .next turned ends, verdict⟩
        · -- what is no rule calls nothing
          have none : leftCalls g (of g) next = [] := by simp [leftCalls, inside]
          rw [none] at entered turned
          obtain ⟨r, ends, verdict⟩ := ih entered ((unseen_cons_of_le (Nat.le_of_not_lt inside)).trans left)
          exact ⟨r, .next turned ends, verdict⟩

end OnWay

theorem searched_iff {rule : Rule} {r : Except GrammarFault Unit} :
    Searched g (of g) () (rule, id) r ↔
      r = if isLeftRecursive g (of g) id then .error (.leftRecursive rule.name) else .ok () := by
  have stacked : CallSearch.begin (callTable g (of g)) id = .of [] (leftCalls g (of g) id).reverse := by
    simp [CallSearch.begin, CallSearch.of, callTable_getD]
  obtain ⟨last, ends, verdict⟩ := (OnWay.begin g id).exists_ends
  rw [← stacked] at ends
  rcases verdict with ⟨⟨again, rfl⟩, recursive⟩ | ⟨⟨s, rfl⟩, clear⟩
  · rw [if_pos (isLeftRecursive_iff.2 recursive)]
    constructor
    · intro searched
      cases searched with
      | clear ends' => cases ends.unique ends'
      | found => rfl
    · rintro rfl
      exact .found ends
  · rw [if_neg (mt isLeftRecursive_iff.1 clear)]
    constructor
    · intro searched
      cases searched with
      | clear => rfl
      | found ends' => cases ends.unique ends'
    · rintro rfl
      exact .clear ends

/-- The searches for one rule after the other come to the first left-recursive rule. -/
theorem each_searched_iff {r : Except GrammarFault Unit} :
    Loop.Each (Searched g (of g)) g.rules.toList.zipIdx () r ↔
      r = match leftRecursive? g (of g) with
        | some rule => .error (.leftRecursive rule.name)
        | none => .ok () := by
  have searched : Loop.Each (Searched g (of g)) g.rules.toList.zipIdx ()
      (match leftRecursive? g (of g) with
        | some rule => .error (.leftRecursive rule.name)
        | none => .ok ()) := by
    rw [leftRecursive?]
    induction g.rules.toList.zipIdx with
    | nil => exact .nil
    | cons head rest ih =>
      obtain ⟨rule, id⟩ := head
      have here : Searched g (of g) () (rule, id) _ := searched_iff.2 rfl
      rw [List.findSome?_cons]
      dsimp only
      cases recursive : isLeftRecursive g (of g) id with
      | true =>
        rw [recursive, if_pos rfl] at here
        exact .fail here
      | false =>
        rw [recursive, if_neg Bool.false_ne_true] at here
        exact .cons here ih
  have unique : ∀ s a r r', Searched g (of g) s a r → Searched g (of g) s a r' → r = r' :=
    fun _ _ _ _ h h' => (searched_iff.1 h).trans (searched_iff.1 h').symm
  constructor
  · exact fun each => each.unique unique searched
  · rintro rfl
    exact searched

/-- Without left recursion, no chain of leftmost calls goes on forever. -/
theorem wellFounded_leftCall (acyclic : ∀ id, ¬ g.LeftRecursive id) :
    WellFounded fun callee caller => g.LeftCall caller callee := by
  let chained : Fin g.rules.size → Fin g.rules.size → Prop :=
    fun callee caller => TransGen g.LeftCall caller callee
  have : IsTrans _ chained := ⟨fun _ _ _ later sooner => sooner.trans later⟩
  have : Std.Irrefl chained := ⟨fun id => acyclic id⟩
  have chains : WellFounded chained := Finite.wellFounded_of_trans_of_irrefl chained
  -- what is no rule calls nothing
  have outside : ∀ id, g.rules.size ≤ id →
      Acc (fun callee caller => g.LeftCall caller callee) id := by
    intro id le
    refine ⟨id, fun callee calls => ?_⟩
    exact absurd (lt_size_of_leftCall calls) (Nat.not_lt.2 le)
  have inside : ∀ id : Fin g.rules.size,
      Acc (fun callee caller => g.LeftCall caller callee) id.val := by
    intro id
    induction id using chains.induction with
    | _ id ih =>
      refine ⟨id.val, fun callee calls => ?_⟩
      by_cases lt : callee < g.rules.size
      · exact ih ⟨callee, lt⟩ (.single calls)
      · exact outside callee (Nat.not_lt.1 lt)
  refine ⟨fun id => ?_⟩
  by_cases lt : id < g.rules.size
  · exact inside ⟨id, lt⟩
  · exact outside id (Nat.not_lt.1 lt)

end Lookahead

namespace Parser

open Lookahead

theorem new_eq_error_iff (g : Grammar) (limits : Limits) (fault : GrammarFault) :
    Parser.new g limits = .error fault ↔
      ∃ rule, leftRecursive? g (of g) = some rule ∧ fault = .leftRecursive rule.name := by
  unfold Parser.new
  dsimp only
  split
  · next rule found => simp [found, eq_comm]
  · next found => simp [found]

theorem new_eq_ok {g : Grammar} (limits : Limits) (none : leftRecursive? g (of g) = none) :
    Parser.new g limits = .ok ⟨g, limits, of g, rfl, none⟩ := by
  unfold Parser.new
  dsimp only
  split
  · next found =>
    rw [none] at found
    cases found
  · rfl

theorem exists_first {g : Grammar} {id : RuleId} (recursive : g.LeftRecursive id) :
    ∃ first rule, g.rules[first]? = some rule ∧ g.LeftRecursive first ∧
      ∀ earlier < first, ¬ g.LeftRecursive earlier := by
  classical
  have exist : ∃ id, g.LeftRecursive id := ⟨id, recursive⟩
  obtain ⟨next, calls, -⟩ := Relation.TransGen.head'_iff.1 (Nat.find_spec exist)
  exact ⟨Nat.find exist, _, Array.getElem?_eq_getElem (lt_size_of_leftCall calls),
    Nat.find_spec exist, fun earlier lt => Nat.find_min exist lt⟩

/-- The sweeps and the searches come to an end, and a parser has the lookahead that they come to or is refused
for their fault. -/
theorem computes_iff (g : Grammar) (limits : Limits) {r : Except GrammarFault Lookahead} :
    Computes g r ↔ r = (Parser.new g limits).map (·.lookahead) := by
  have settled : ∀ {last}, Settles g (blank g) last → last = of g := fun settles =>
    settles.eq_of (.blank g)
  obtain ⟨last, settles⟩ := (Sound.blank g).exists_settles
  obtain rfl := settled settles
  cases searched : leftRecursive? g (of g) with
  | none =>
    have clear : Loop.Each (Searched g (of g)) g.rules.toList.zipIdx () (.ok ()) := by
      rw [each_searched_iff, searched]
    rw [new_eq_ok limits searched]
    constructor
    · intro computes
      cases computes with
      | refused settles' found =>
        rw [settled settles', each_searched_iff, searched] at found
        cases found
      | computed settles' => rw [settled settles']; rfl
    · rintro rfl
      exact .computed settles clear
  | some rule =>
    have found : Loop.Each (Searched g (of g)) g.rules.toList.zipIdx () (.error (.leftRecursive rule.name)) := by
      rw [each_searched_iff, searched]
    rw [(new_eq_error_iff g limits _).2 ⟨rule, searched, rfl⟩]
    constructor
    · intro computes
      cases computes with
      | refused settles' found' =>
        rw [settled settles', each_searched_iff, searched] at found'
        cases found'
        rfl
      | computed settles' clear =>
        rw [settled settles', each_searched_iff, searched] at clear
        cases clear
    · rintro rfl
      exact .refused settles found

/-- A grammar is refused exactly if it has a left-recursive rule. The fault names the first of them. In a
grammar that is accepted, leftmost calls are well-founded. All this is so of what the searches on a stack
come to: they end, and with them the parser is made or refused. -/
theorem new_refuses_leftRecursion (g : Grammar) (limits : Limits) :
    (∃ r, Computes g r) ∧ (∀ r, Computes g r ↔ r = (Parser.new g limits).map (·.lookahead)) ∧
      ((∃ fault, Parser.new g limits = .error fault) ↔ ∃ id, g.LeftRecursive id) ∧
      (∀ fault, Parser.new g limits = .error fault ↔
        ∃ id rule, g.rules[id]? = some rule ∧ g.LeftRecursive id ∧
          (∀ earlier < id, ¬ g.LeftRecursive earlier) ∧ fault = .leftRecursive rule.name) ∧
      ∀ parser, Parser.new g limits = .ok parser →
        WellFounded fun callee caller => g.LeftCall caller callee := by
  have names : ∀ fault, Parser.new g limits = .error fault ↔
      ∃ id rule, g.rules[id]? = some rule ∧ g.LeftRecursive id ∧
        (∀ earlier < id, ¬ g.LeftRecursive earlier) ∧ fault = .leftRecursive rule.name := by
    intro fault
    rw [new_eq_error_iff]
    constructor
    · rintro ⟨rule, found, eq⟩
      obtain ⟨id, known, recursive, first⟩ := leftRecursive?_eq_some_iff.1 found
      exact ⟨id, rule, known, recursive, first, eq⟩
    · rintro ⟨id, rule, known, recursive, first, eq⟩
      exact ⟨rule, leftRecursive?_eq_some_iff.2 ⟨id, known, recursive, first⟩, eq⟩
  have fails : (∃ fault, Parser.new g limits = .error fault) ↔ ∃ id, g.LeftRecursive id := by
    constructor
    · rintro ⟨fault, refused⟩
      obtain ⟨id, _, -, recursive, -⟩ := (names fault).1 refused
      exact ⟨id, recursive⟩
    · rintro ⟨id, recursive⟩
      obtain ⟨first, rule, known, recursive, earlier⟩ := exists_first recursive
      exact ⟨_, (names _).2 ⟨first, rule, known, recursive, earlier, rfl⟩⟩
  refine ⟨⟨_, (computes_iff g limits).2 rfl⟩, fun r => computes_iff g limits, fails, names,
    fun parser accepted => wellFounded_leftCall fun id recursive => ?_⟩
  obtain ⟨fault, refused⟩ := fails.2 ⟨id, recursive⟩
  rw [accepted] at refused
  cases refused

/-- Rules of which the last calls itself behind one that can be empty. -/
def hiddenCycle : Array Rule := #[
  ⟨"Model", .parser (some DomainModel.modelType), .group [.call 1, .keyword "end"]⟩,
  ⟨"Start", .parser (some DomainModel.modelType), .group [.call 2, .call 3]⟩,
  ⟨"Padding", .dataType .text, .repetition .zeroOrMore (.keyword "-")⟩,
  ⟨"Loop", .parser none, .alternatives [.keyword "!", .group [.call 2, .call 3, .keyword "?"]]⟩]

/-- The grammar of these rules. -/
def hiddenCycleGrammar : Grammar where
  name := "Loop"
  types := DomainModel.types
  rules := hiddenCycle
  entry := 0
  entryRule :=
    ⟨"Model", .parser (some DomainModel.modelType), .group [.call 1, .keyword "end"]⟩
  entryType := DomainModel.modelType
  entry_eq := rfl
  entry_kind := rfl
  faultless := by decide +kernel

/-- A cycle behind a rule that can be empty is found, and the rule that is named is on the cycle: those
declared before it only lead there. Leftmost calls in the grammar of domain models are well-founded. -/
theorem new_refuses_hiddenCycle :
    Parser.new hiddenCycleGrammar {} = .error (.leftRecursive "Loop") ∧
      Computes hiddenCycleGrammar (.error (.leftRecursive "Loop")) ∧
      (∃ id rule, hiddenCycle[id]? = some rule ∧ hiddenCycleGrammar.LeftRecursive id ∧
        (∀ earlier < id, ¬ hiddenCycleGrammar.LeftRecursive earlier) ∧
        GrammarFault.leftRecursive "Loop" = .leftRecursive rule.name) ∧
      WellFounded fun callee caller => DomainModel.grammar.LeftCall caller callee := by
  have found : (leftRecursive? hiddenCycleGrammar (of hiddenCycleGrammar)).map (·.name) =
      some "Loop" := by decide +kernel
  obtain ⟨rule, named, name⟩ := Option.map_eq_some_iff.1 found
  have refused : Parser.new hiddenCycleGrammar {} = .error (.leftRecursive "Loop") :=
    (new_eq_error_iff _ _ _).2 ⟨rule, named, by rw [name]⟩
  obtain ⟨-, computes, -, names, -⟩ := new_refuses_leftRecursion hiddenCycleGrammar {}
  obtain ⟨-, -, -, -, wellFounded⟩ := new_refuses_leftRecursion DomainModel.grammar {}
  refine ⟨refused, (computes _).2 (by rw [refused]; rfl), (names _).1 refused, ?_⟩
  exact wellFounded _ (new_eq_ok {} DomainModel.grammar_not_leftRecursive)

end Parser

end Workbench
