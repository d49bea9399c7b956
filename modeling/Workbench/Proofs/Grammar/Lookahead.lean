import Mathlib.Data.Finset.Card
import Mathlib.Order.Nat
import Workbench.Grammar.Lookahead
import Workbench.Proofs.Grammar.Derivation

/-!
**The lookahead is exact.**

The equations for nullable rules and for starting tokens are monotone, and each round asks of a rule only
what the round before has found for the rules. The rules found by the rounds are therefore a growing
sequence of sets of rules, which stands still after as many rounds as there are rules. What it holds then
is the least solution: an element is found nullable exactly if it derives the empty sequence, and a symbol
is found to start an element exactly if it stands in leftmost position of it.
-/

namespace Workbench

open Grammar

/-! ### Rounds -/

theorem rounds_succ {α : Type} (step : α → α) (n : Nat) (a : α) :
    rounds step (n + 1) a = step (rounds step n a) := by
  induction n generalizing a with
  | zero => rfl
  | succ n ih => exact ih (step a)

/-- A sequence of properties of the first `n` numbers that begins with the empty one, and of which each
depends monotonically on the one before, stands still from the `n`-th on. -/
theorem rounds_settled {n : Nat} {P : Nat → Nat → Prop} (bounded : ∀ k i, P k i → i < n)
    (zero : ∀ i, ¬ P 0 i)
    (step : ∀ j k, (∀ i, P j i → P k i) → ∀ i, P (j + 1) i → P (k + 1) i) :
    ∀ i, P (n + 1) i → P n i := by
  classical
  have grows : ∀ k i, P k i → P (k + 1) i := by
    intro k
    induction k with
    | zero => exact fun i found => absurd found (zero i)
    | succ k ih => exact step k (k + 1) ih
  let found : Nat → Finset Nat := fun k => (Finset.range n).filter (P k)
  have mem : ∀ k i, i ∈ found k ↔ P k i := by
    intro k i
    simpa [found] using bounded k i
  have subset : ∀ k, found k ⊆ found (k + 1) := by
    intro k i
    rw [mem, mem]
    exact grows k i
  -- as long as the sequence moves, it gains a number
  have still : ∀ k, (found k).card = (found (k + 1)).card → ∀ i, P (k + 1) i → P k i := by
    intro k same i
    have eq := Finset.eq_of_subset_of_card_le (subset k) same.ge
    rw [← mem, ← mem, eq]
    exact id
  have stays : ∀ k, (found k).card = (found (k + 1)).card →
      (found (k + 1)).card = (found (k + 2)).card := by
    intro k same
    have back : found (k + 2) ⊆ found (k + 1) := by
      intro i
      rw [mem, mem]
      exact step (k + 1) k (still k same) i
    exact le_antisymm (Finset.card_le_card (subset _)) (Finset.card_le_card back)
  have bound : ∀ k, (found k).card ≤ n := by
    intro k
    simpa using Finset.card_filter_le (Finset.range n) (P k)
  have monotone : Monotone fun k => (found k).card :=
    monotone_nat_of_le_succ fun k => Finset.card_le_card (subset k)
  have settled : (found (n + 1)).card = (found n).card :=
    Nat.stabilises_of_monotone monotone bound stays (Nat.le_succ n)
  exact still n settled.symm

/-! ### Sets of symbols -/

theorem mem_insertSorted {s a : String} {l : List String} :
    a ∈ insertSorted s l ↔ a = s ∨ a ∈ l := by
  induction l with
  | nil => simp [insertSorted]
  | cons t rest ih =>
    unfold insertSorted
    split
    · next same => simp [same]
    · split
      · simp
      · rw [List.mem_cons, ih, List.mem_cons]
        exact or_left_comm

theorem mem_foldl_insertSorted {a : String} {l acc : List String} :
    a ∈ l.foldl (fun acc k => insertSorted k acc) acc ↔ a ∈ acc ∨ a ∈ l := by
  induction l generalizing acc with
  | nil => simp
  | cons k rest ih =>
    rw [List.foldl_cons, ih, mem_insertSorted, List.mem_cons]
    tauto

namespace FirstSet

/-- The symbol is in the set. -/
def Has (s : FirstSet) : Symbol → Prop
  | .keyword text => text ∈ s.keywords
  | .kind k => k ∈ s.kinds

variable {x : Symbol}

@[simp] theorem not_has_empty : ¬ empty.Has x := by
  cases x <;> simp [Has, empty]

@[simp] theorem has_ofKeyword {text : String} : (ofKeyword text).Has x ↔ x = .keyword text := by
  cases x <;> simp [Has, ofKeyword]

@[simp] theorem has_ofKind {k : TokenKind} : (ofKind k).Has x ↔ x = .kind k := by
  cases x <;> simp [Has, ofKind]

@[simp] theorem has_union {s t : FirstSet} : (s.union t).Has x ↔ s.Has x ∨ t.Has x := by
  cases x with
  | keyword text => simp [Has, union, mem_foldl_insertSorted]
  | kind k =>
    have listed : k ∈ TokenKind.all := by cases k <;> decide
    simp [Has, union, listed]

/-- A set without the kind of keywords holds the tokens that its symbols stand for. -/
theorem contains_iff {s : FirstSet} (noKeywords : ¬ s.Has (.kind .keyword)) (t : Token) :
    s.contains t = true ↔ ∃ x, s.Has x ∧ x.Matches t := by
  unfold contains
  constructor
  · split
    · next isKeyword =>
      intro found
      exact ⟨.keyword t.image, by simpa [Has] using found,
        by simp [Symbol.Matches, Token.isKeyword, isKeyword]⟩
    · intro found
      exact ⟨.kind t.kind, by simpa [Has] using found, rfl⟩
  · rintro ⟨x, mem, fits⟩
    cases x with
    | keyword text =>
      obtain ⟨isKeyword, rfl⟩ : t.kind = .keyword ∧ t.image = text := by
        simpa [Symbol.Matches, Token.isKeyword] using fits
      rw [if_pos isKeyword]
      simpa [Has] using mem
    | kind k =>
      obtain rfl : t.kind = k := fits
      have other : t.kind ≠ .keyword := by
        intro isKeyword
        rw [isKeyword] at mem
        exact noKeywords mem
      rw [if_neg other]
      simpa [Has] using mem

end FirstSet

/-! ### Elements that can be empty -/

namespace Element

variable {g : Grammar} {N M : RuleId → Bool} {F G : RuleId → FirstSet} {x : Symbol}

mutual

theorem nullable_mono (le : ∀ id, N id = true → M id = true) :
    ∀ e : Element, e.nullable N = true → e.nullable M = true
  | .keyword _, h => by simp [nullable] at h
  | .call id, h => by
    rw [nullable] at h ⊢
    exact le id h
  | .crossRef _ id, h => by
    rw [nullable] at h ⊢
    exact le id h
  | .assign _ _ value, h => by
    rw [nullable] at h ⊢
    exact nullable_mono le value h
  | .action _ _, _ => by rw [nullable]
  | .group items, h => by
    rw [nullable] at h ⊢
    exact allNullable_mono le items h
  | .alternatives items, h => by
    rw [nullable] at h ⊢
    exact anyNullable_mono le items h
  | .repetition cardinality item, h => by
    cases cardinality with
    | oneOrMore =>
      rw [nullable] at h ⊢
      exact nullable_mono le item h
    | _ => rw [nullable]

theorem allNullable_mono (le : ∀ id, N id = true → M id = true) :
    ∀ items : List Element, allNullable N items = true → allNullable M items = true
  | [], _ => by rw [allNullable]
  | item :: rest, h => by
    rw [allNullable, Bool.and_eq_true] at h ⊢
    exact ⟨nullable_mono le item h.1, allNullable_mono le rest h.2⟩

theorem anyNullable_mono (le : ∀ id, N id = true → M id = true) :
    ∀ items : List Element, anyNullable N items = true → anyNullable M items = true
  | [], h => by simp [anyNullable] at h
  | item :: rest, h => by
    rw [anyNullable, Bool.or_eq_true] at h ⊢
    exact h.imp (nullable_mono le item) (anyNullable_mono le rest)

end

mutual

/-- If the rules taken as nullable are, then so are the elements found so. -/
theorem generates_of_nullable
    (sound : ∀ e id, e.callee? = some id → N id = true → g.Generates e []) :
    ∀ e : Element, e.nullable N = true → g.Generates e []
  | .keyword _, h => by simp [nullable] at h
  | .call id, h => by
    rw [nullable] at h
    exact sound _ id rfl h
  | .crossRef target id, h => by
    rw [nullable] at h
    exact sound _ id rfl h
  | .assign _ _ value, h => by
    rw [nullable] at h
    obtain ⟨depth, derived⟩ := generates_of_nullable sound value h
    exact ⟨depth, .assign derived⟩
  | .action _ _, _ => ⟨0, .action⟩
  | .group items, h => by
    rw [nullable] at h
    exact generates_of_allNullable sound items h
  | .alternatives items, h => by
    rw [nullable] at h
    obtain ⟨item, mem, depth, derived⟩ := generates_of_anyNullable sound items h
    exact ⟨depth, .alternative mem derived⟩
  | .repetition cardinality item, h => by
    cases cardinality with
    | optional => exact ⟨0, .absent⟩
    | zeroOrMore => exact ⟨0, .done⟩
    | oneOrMore =>
      rw [nullable] at h
      obtain ⟨depth, derived⟩ := generates_of_nullable sound item h
      exact ⟨depth, .atLeast derived .done⟩

theorem generates_of_allNullable
    (sound : ∀ e id, e.callee? = some id → N id = true → g.Generates e []) :
    ∀ items : List Element, allNullable N items = true → g.Generates (.group items) []
  | [], _ => ⟨0, .nil⟩
  | item :: rest, h => by
    rw [allNullable, Bool.and_eq_true] at h
    exact (generates_of_nullable sound item h.1).cons (generates_of_allNullable sound rest h.2)

theorem generates_of_anyNullable
    (sound : ∀ e id, e.callee? = some id → N id = true → g.Generates e []) :
    ∀ items : List Element, anyNullable N items = true → ∃ item ∈ items, g.Generates item []
  | [], h => by simp [anyNullable] at h
  | item :: rest, h => by
    rw [anyNullable, Bool.or_eq_true] at h
    rcases h with here | there
    · exact ⟨item, List.mem_cons_self, generates_of_nullable sound item here⟩
    · obtain ⟨other, mem, derived⟩ := generates_of_anyNullable sound rest there
      exact ⟨other, List.mem_cons_of_mem _ mem, derived⟩

end

theorem anyNullable_of_mem {item : Element} {items : List Element} (mem : item ∈ items)
    (h : item.nullable N = true) : anyNullable N items = true := by
  induction items with
  | nil => cases mem
  | cons other rest ih =>
    rw [anyNullable, Bool.or_eq_true]
    rcases List.mem_cons.1 mem with rfl | mem
    · exact .inl h
    · exact .inr (ih mem)

theorem nullable_of_callee? {e : Element} {id : RuleId} (calls : e.callee? = some id) :
    e.nullable N = N id := by
  cases e <;> cases calls <;> rw [nullable]

-- Soundness went along the elements, as the rounds do. Completeness goes along the derivation: a call
-- leads to the body of its rule, which is no part of the element.

/-- If the rules taken as nullable solve the equations, then no derivation of the empty sequence is
missed. -/
theorem nullable_of_generates
    (closed : ∀ id body, g.body? id = some body → body.nullable N = true → N id = true)
    {e : Element} (h : g.Generates e []) : e.nullable N = true := by
  obtain ⟨depth, derived⟩ := h
  generalize eq : ([] : List Token) = w at derived
  induction derived with
  | keyword | token => cases eq
  | rule calls known _ ih =>
    rw [nullable_of_callee? calls]
    exact closed _ _ known (ih eq)
  | assign _ ih =>
    rw [nullable]
    exact ih eq
  | action => rw [nullable]
  | nil => rw [nullable, allNullable]
  | cons _ _ ihHead ihTail =>
    obtain ⟨rfl, rfl⟩ := List.append_eq_nil_iff.1 eq.symm
    have tail := ihTail rfl
    rw [nullable] at tail
    rw [nullable, allNullable, ihHead rfl, tail]
    rfl
  | alternative mem _ ih =>
    rw [nullable]
    exact anyNullable_of_mem mem (ih eq)
  | absent | present | done | again => rw [nullable]
  | atLeast _ _ ihHead _ =>
    obtain ⟨rfl, -⟩ := List.append_eq_nil_iff.1 eq.symm
    rw [nullable]
    exact ihHead rfl

/-! ### Symbols that start an element -/

mutual

theorem first_mono (le : ∀ id, (F id).Has x → (G id).Has x) :
    ∀ e : Element, (e.first N F).Has x → (e.first N G).Has x
  | .keyword _, h => by
    rw [first] at h ⊢
    exact h
  | .call id, h => by
    rw [first] at h ⊢
    exact le id h
  | .crossRef _ id, h => by
    rw [first] at h ⊢
    exact le id h
  | .assign _ _ value, h => by
    rw [first] at h ⊢
    exact first_mono le value h
  | .action _ _, h => by
    rw [first] at h ⊢
    exact h
  | .group items, h => by
    rw [first] at h ⊢
    exact firstOfGroup_mono le items h
  | .alternatives items, h => by
    rw [first] at h ⊢
    exact firstOfAny_mono le items h
  | .repetition _ item, h => by
    rw [first] at h ⊢
    exact first_mono le item h

theorem firstOfGroup_mono (le : ∀ id, (F id).Has x → (G id).Has x) :
    ∀ items : List Element, (firstOfGroup N F items).Has x → (firstOfGroup N G items).Has x
  | [], h => by
    rw [firstOfGroup] at h ⊢
    exact h
  | item :: rest, h => by
    rw [firstOfGroup] at h ⊢
    by_cases canBeEmpty : item.nullable N = true
    · rw [if_pos canBeEmpty, FirstSet.has_union] at h ⊢
      exact h.imp (first_mono le item) (firstOfGroup_mono le rest)
    · rw [if_neg canBeEmpty] at h ⊢
      exact first_mono le item h

theorem firstOfAny_mono (le : ∀ id, (F id).Has x → (G id).Has x) :
    ∀ items : List Element, (firstOfAny N F items).Has x → (firstOfAny N G items).Has x
  | [], h => by
    rw [firstOfAny] at h ⊢
    exact h
  | item :: rest, h => by
    rw [firstOfAny, FirstSet.has_union] at h ⊢
    exact h.imp (first_mono le item) (firstOfAny_mono le rest)

end

mutual

/-- If what is taken to start each rule does, then what is found to start an element does. -/
theorem starts_of_first (empty : ∀ e : Element, e.nullable N = true → g.Generates e [])
    (sound : ∀ e id, e.callee? = some id → (F id).Has x → g.Starts e x) :
    ∀ e : Element, (e.first N F).Has x → g.Starts e x
  | .keyword text, h => by
    rw [first, FirstSet.has_ofKeyword] at h
    rw [h]
    exact .keyword
  | .call id, h => by
    rw [first] at h
    exact sound _ id rfl h
  | .crossRef _ id, h => by
    rw [first] at h
    exact sound _ id rfl h
  | .assign _ _ value, h => by
    rw [first] at h
    exact .assign (starts_of_first empty sound value h)
  | .action _ _, h => by
    rw [first] at h
    exact absurd h FirstSet.not_has_empty
  | .group items, h => by
    rw [first] at h
    exact starts_of_firstOfGroup empty sound items h
  | .alternatives items, h => by
    rw [first] at h
    obtain ⟨item, mem, starts⟩ := starts_of_firstOfAny empty sound items h
    exact .alternative mem starts
  | .repetition _ item, h => by
    rw [first] at h
    exact .repetition (starts_of_first empty sound item h)

theorem starts_of_firstOfGroup (empty : ∀ e : Element, e.nullable N = true → g.Generates e [])
    (sound : ∀ e id, e.callee? = some id → (F id).Has x → g.Starts e x) :
    ∀ items : List Element, (firstOfGroup N F items).Has x → g.Starts (.group items) x
  | [], h => by
    rw [firstOfGroup] at h
    exact absurd h FirstSet.not_has_empty
  | item :: rest, h => by
    rw [firstOfGroup] at h
    split at h
    · next canBeEmpty =>
      rcases FirstSet.has_union.1 h with here | there
      · exact .head (starts_of_first empty sound item here)
      · exact .tail (empty item canBeEmpty) (starts_of_firstOfGroup empty sound rest there)
    · exact .head (starts_of_first empty sound item h)

theorem starts_of_firstOfAny (empty : ∀ e : Element, e.nullable N = true → g.Generates e [])
    (sound : ∀ e id, e.callee? = some id → (F id).Has x → g.Starts e x) :
    ∀ items : List Element, (firstOfAny N F items).Has x → ∃ item ∈ items, g.Starts item x
  | [], h => by
    rw [firstOfAny] at h
    exact absurd h FirstSet.not_has_empty
  | item :: rest, h => by
    rw [firstOfAny] at h
    rcases FirstSet.has_union.1 h with here | there
    · exact ⟨item, List.mem_cons_self, starts_of_first empty sound item here⟩
    · obtain ⟨other, mem, starts⟩ := starts_of_firstOfAny empty sound rest there
      exact ⟨other, List.mem_cons_of_mem _ mem, starts⟩

end

theorem firstOfAny_of_mem {item : Element} {items : List Element} (mem : item ∈ items)
    (h : (item.first N F).Has x) : (firstOfAny N F items).Has x := by
  induction items with
  | nil => cases mem
  | cons other rest ih =>
    rw [firstOfAny, FirstSet.has_union]
    rcases List.mem_cons.1 mem with rfl | mem
    · exact .inl h
    · exact .inr (ih mem)

theorem first_of_callee? {e : Element} {id : RuleId} (calls : e.callee? = some id) :
    e.first N F = F id := by
  cases e <;> cases calls <;> rw [first]

/-- If what is taken to start each rule solves the equations, then no symbol in leftmost position is
missed. -/
theorem first_of_starts (nonempty : ∀ e : Element, g.Generates e [] → e.nullable N = true)
    (terminals : ∀ id kind, g.terminal? id = some kind → (F id).Has (.kind kind))
    (closed : ∀ id body x, g.body? id = some body → (body.first N F).Has x → (F id).Has x)
    {e : Element} (h : g.Starts e x) : (e.first N F).Has x := by
  induction h with
  | keyword =>
    rw [first]
    exact FirstSet.has_ofKeyword.2 rfl
  | token calls terminal =>
    rw [first_of_callee? calls]
    exact terminals _ _ terminal
  | rule calls known _ ih =>
    rw [first_of_callee? calls]
    exact closed _ _ _ known ih
  | assign _ ih =>
    rw [first]
    exact ih
  | head _ ih =>
    rw [first, firstOfGroup]
    split
    · exact FirstSet.has_union.2 (.inl ih)
    · exact ih
  | tail empty _ ih =>
    rw [first] at ih
    rw [first, firstOfGroup, if_pos (nonempty _ empty)]
    exact FirstSet.has_union.2 (.inr ih)
  | alternative mem _ ih =>
    rw [first]
    exact firstOfAny_of_mem mem ih
  | repetition _ ih =>
    rw [first]
    exact ih

/-! ### Predictions -/

section Predictions

variable {P : RuleId → Token → Bool} {t : Token}

mutual

theorem predicts_iff_first (calls : ∀ id, P id t = true ↔ ∃ x, (F id).Has x ∧ x.Matches t) :
    ∀ e : Element, e.predicts N P t = true ↔ ∃ x, (e.first N F).Has x ∧ x.Matches t
  | .keyword text => by simp [predicts, first, Symbol.Matches]
  | .call id => by
    rw [predicts, first]
    exact calls id
  | .crossRef _ id => by
    rw [predicts, first]
    exact calls id
  | .assign _ _ value => by
    rw [predicts, first]
    exact predicts_iff_first calls value
  | .action _ _ => by simp [predicts, first]
  | .group items => by
    rw [predicts, first]
    exact predictsGroup_iff_first calls items
  | .alternatives items => by
    rw [predicts, first]
    exact predictsAny_iff_first calls items
  | .repetition _ item => by
    rw [predicts, first]
    exact predicts_iff_first calls item

theorem predictsGroup_iff_first (calls : ∀ id, P id t = true ↔ ∃ x, (F id).Has x ∧ x.Matches t) :
    ∀ items : List Element,
      predictsGroup N P t items = true ↔ ∃ x, (firstOfGroup N F items).Has x ∧ x.Matches t
  | [] => by simp [predictsGroup, firstOfGroup]
  | item :: rest => by
    have head := predicts_iff_first calls item
    have tail := predictsGroup_iff_first calls rest
    rw [predictsGroup, firstOfGroup]
    split
    · next canBeEmpty =>
      simp only [canBeEmpty, Bool.true_and, Bool.or_eq_true, head, tail, FirstSet.has_union,
        or_and_right, exists_or]
    · next cannotBeEmpty => simpa [cannotBeEmpty] using head

theorem predictsAny_iff_first (calls : ∀ id, P id t = true ↔ ∃ x, (F id).Has x ∧ x.Matches t) :
    ∀ items : List Element,
      predictsAny N P t items = true ↔ ∃ x, (firstOfAny N F items).Has x ∧ x.Matches t
  | [] => by simp [predictsAny, firstOfAny]
  | item :: rest => by
    have head := predicts_iff_first calls item
    have tail := predictsAny_iff_first calls rest
    rw [predictsAny, firstOfAny]
    simp only [Bool.or_eq_true, head, tail, FirstSet.has_union, or_and_right, exists_or]

end

end Predictions

end Element

namespace Lookahead

variable {g : Grammar}

/-! ### The nullable rules -/

/-- What a number of rounds has found of the rules that can be empty. -/
def foundNullable (g : Grammar) (k : Nat) (id : RuleId) : Bool :=
  (rounds (nullableRound g) k (Array.replicate g.rules.size false))[id]?.getD false

theorem foundNullable_zero (g : Grammar) (id : RuleId) : foundNullable g 0 id = false := by
  rw [foundNullable, rounds, Array.getElem?_replicate]
  split <;> rfl

theorem foundNullable_succ {k : Nat} {id : RuleId} :
    foundNullable g (k + 1) id = true ↔
      ∃ body, g.body? id = some body ∧ body.nullable (foundNullable g k) = true := by
  have read : foundNullable g (k + 1) id = (g.rules.map fun r =>
      r.kind.terminal?.isNone && r.body.nullable (foundNullable g k))[id]?.getD false := by
    rw [foundNullable, rounds_succ]
    rfl
  rw [read, Array.getElem?_map, body?]
  cases known : g.rules[id]? with
  | none => simp
  | some rule => cases terminal : rule.kind.terminal? <;> simp [terminal]

theorem lt_size_of_body? {id : RuleId} {body : Element} (h : g.body? id = some body) :
    id < g.rules.size := by
  obtain ⟨rule, known, -⟩ := rule_of_body? h
  exact (Array.getElem?_eq_some_iff.1 known).1

/-- After as many rounds as there are rules, the equations are solved. -/
theorem foundNullable_closed {id : RuleId} {body : Element} (known : g.body? id = some body)
    (h : body.nullable (foundNullable g g.rules.size) = true) :
    foundNullable g g.rules.size id = true := by
  -- one more round finds the rule, and the rounds have settled before
  refine rounds_settled (P := fun k i => foundNullable g k i = true) ?_ ?_ ?_ id
    (foundNullable_succ.2 ⟨body, known, h⟩)
  · rintro (_ | k) i found
    · simp [foundNullable_zero] at found
    · obtain ⟨body, known, -⟩ := foundNullable_succ.1 found
      exact lt_size_of_body? known
  · simp [foundNullable_zero]
  · intro j k le i found
    obtain ⟨body, known, found⟩ := foundNullable_succ.1 found
    exact foundNullable_succ.2 ⟨body, known, Element.nullable_mono le body found⟩

theorem foundNullable_sound (k : Nat) (e : Element) (id : RuleId) (calls : e.callee? = some id)
    (h : foundNullable g k id = true) : g.Generates e [] := by
  induction k generalizing e id with
  | zero => simp [foundNullable_zero] at h
  | succ k ih =>
    obtain ⟨body, known, found⟩ := foundNullable_succ.1 h
    exact .rule calls known (Element.generates_of_nullable ih body found)

/-! ### The starting symbols of the rules -/

/-- The lookahead after a number of rounds for the starting symbols. -/
def stage (g : Grammar) (k : Nat) : Lookahead :=
  rounds (firstRound g) k {
    terminals := g.rules.map (·.kind.terminal?)
    nullableRules := rounds (nullableRound g) g.rules.size (Array.replicate g.rules.size false)
    firstSets := Array.replicate g.rules.size .empty }

theorem stage_succ (g : Grammar) (k : Nat) : stage g (k + 1) = firstRound g (stage g k) :=
  rounds_succ _ _ _

theorem terminal?_stage (g : Grammar) (k : Nat) (id : RuleId) :
    (stage g k).terminal? id = g.terminal? id := by
  induction k with
  | zero =>
    change (g.rules.map (·.kind.terminal?))[id]?.join = _
    rw [Array.getElem?_map, Grammar.terminal?]
    cases g.rules[id]? <;> rfl
  | succ k ih =>
    rw [stage_succ]
    exact ih

theorem ruleNullable_stage (g : Grammar) (k : Nat) :
    (stage g k).ruleNullable = foundNullable g g.rules.size := by
  induction k with
  | zero => rfl
  | succ k ih =>
    rw [stage_succ]
    exact ih

theorem nullable_stage_iff (g : Grammar) (k : Nat) (e : Element) :
    (stage g k).nullable e = true ↔ g.Generates e [] := by
  rw [nullable, ruleNullable_stage]
  constructor
  · exact Element.generates_of_nullable (foundNullable_sound _) e
  · exact Element.nullable_of_generates fun _ _ => foundNullable_closed

/-- What a number of rounds has found to start a rule. -/
def Found (g : Grammar) (x : Symbol) (k : Nat) (id : RuleId) : Prop :=
  ((stage g k).firstSets[id]?.getD .empty).Has x

variable {x : Symbol}

theorem not_found_zero (id : RuleId) : ¬ Found g x 0 id := by
  change ¬ ((Array.replicate g.rules.size FirstSet.empty)[id]?.getD .empty).Has x
  rw [Array.getElem?_replicate]
  split <;> exact FirstSet.not_has_empty

theorem found_succ {k : Nat} {id : RuleId} :
    Found g x (k + 1) id ↔ ∃ body, g.body? id = some body ∧ ((stage g k).first body).Has x := by
  have read : (stage g (k + 1)).firstSets = g.rules.map fun r =>
      if r.kind.terminal?.isSome then .empty else (stage g k).first r.body := by
    rw [stage_succ]
    rfl
  rw [Found, read, Array.getElem?_map, body?]
  cases known : g.rules[id]? with
  | none => simp
  | some rule => cases terminal : rule.kind.terminal? <;> simp [terminal]

theorem terminal?_of_body? {id : RuleId} {body : Element} (h : g.body? id = some body) :
    g.terminal? id = none := by
  obtain ⟨rule, known, nonterminal, -⟩ := rule_of_body? h
  simp [Grammar.terminal?, known, nonterminal]

theorem callFirst_stage {k : Nat} {id : RuleId} :
    ((stage g k).callFirst id).Has x ↔
      (∃ kind, g.terminal? id = some kind ∧ x = .kind kind) ∨
        g.terminal? id = none ∧ Found g x k id := by
  rw [callFirst, terminal?_stage]
  cases terminal : g.terminal? id with
  | none => simp [Found]
  | some kind => simp

theorem first_stage_mono {j k : Nat} (le : ∀ id, Found g x j id → Found g x k id) (e : Element)
    (h : ((stage g j).first e).Has x) : ((stage g k).first e).Has x := by
  rw [first, ruleNullable_stage] at h ⊢
  refine Element.first_mono (fun id => ?_) e h
  rw [callFirst_stage, callFirst_stage]
  exact Or.imp_right (And.imp_right (le id))

/-- After as many rounds as there are rules, the equations are solved. -/
theorem found_closed {id : RuleId} {body : Element} (known : g.body? id = some body)
    (h : ((stage g g.rules.size).first body).Has x) : Found g x g.rules.size id := by
  refine rounds_settled (P := Found g x) ?_ not_found_zero ?_ id (found_succ.2 ⟨body, known, h⟩)
  · rintro (_ | k) i found
    · exact absurd found (not_found_zero i)
    · obtain ⟨body, known, -⟩ := found_succ.1 found
      exact lt_size_of_body? known
  · intro j k le i found
    obtain ⟨body, known, found⟩ := found_succ.1 found
    exact found_succ.2 ⟨body, known, first_stage_mono le body found⟩

theorem callFirst_sound (k : Nat) (e : Element) (id : RuleId) (calls : e.callee? = some id)
    (h : ((stage g k).callFirst id).Has x) : g.Starts e x := by
  induction k generalizing e id with
  | zero =>
    rcases callFirst_stage.1 h with ⟨kind, terminal, rfl⟩ | ⟨-, found⟩
    · exact .token calls terminal
    · exact absurd found (not_found_zero id)
  | succ k ih =>
    rcases callFirst_stage.1 h with ⟨kind, terminal, rfl⟩ | ⟨-, found⟩
    · exact .token calls terminal
    · obtain ⟨body, known, found⟩ := found_succ.1 found
      refine .rule calls known (Element.starts_of_first ?_ ih body found)
      exact fun e => (nullable_stage_iff g k e).1

/-! ### Exactness -/

/-- The elements found nullable are those that derive the empty sequence. -/
theorem nullable_iff (g : Grammar) (e : Element) : (of g).nullable e = true ↔ g.Generates e [] :=
  nullable_stage_iff g g.rules.size e

/-- The symbols found to start an element are those in leftmost position. -/
theorem first_has_iff (g : Grammar) (e : Element) (x : Symbol) :
    ((of g).first e).Has x ↔ g.Starts e x := by
  change ((stage g g.rules.size).first e).Has x ↔ _
  constructor
  · refine Element.starts_of_first (fun e => ?_) (callFirst_sound _) e
    exact (nullable_stage_iff g g.rules.size e).1
  · refine Element.first_of_starts (fun e => ?_) ?_ ?_
    · exact (nullable_stage_iff g g.rules.size e).2
    · intro id kind terminal
      exact callFirst_stage.2 (.inl ⟨kind, terminal, rfl⟩)
    · intro id body x known found
      exact callFirst_stage.2 (.inr ⟨terminal?_of_body? known, found_closed known found⟩)

/-- A kind in leftmost position is that of a terminal rule. -/
theorem exists_terminal_of_starts {e : Element} {kind : TokenKind} (h : g.Starts e (.kind kind)) :
    ∃ id, g.terminal? id = some kind := by
  generalize eq : Symbol.kind kind = x at h
  induction h with
  | keyword => cases eq
  | token _ terminal =>
    cases eq
    exact ⟨_, terminal⟩
  | rule _ _ _ ih | assign _ ih | head _ ih | tail _ _ ih | alternative _ _ ih | repetition _ ih =>
    exact ih eq

/-- If no terminal rule matches keywords, then an element goes on with exactly those tokens that a symbol
in leftmost position stands for. -/
theorem predicts_iff (noKeywords : ∀ id, g.terminal? id ≠ some .keyword) (e : Element) (t : Token) :
    (of g).predicts e t = true ↔ ∃ x, g.Starts e x ∧ x.Matches t := by
  have starts := fun x => first_has_iff g e x
  simp only [← starts]
  refine Element.predicts_iff_first (fun id => ?_) e
  rw [callPredicts, callFirst]
  cases terminal : (of g).terminal? id with
  | some kind => simp [Symbol.Matches]
  | none =>
    -- a set of starting symbols decides only if it lacks the kind of keywords
    refine FirstSet.contains_iff (fun found => ?_) t
    have called : g.Starts (.call id) (.kind .keyword) := by
      rw [← first_has_iff, first, Element.first, callFirst, terminal]
      exact found
    obtain ⟨id, terminal⟩ := exists_terminal_of_starts called
    exact noKeywords id terminal

end Lookahead

end Workbench
