import Mathlib.Data.Set.Card
import Mathlib.Data.Set.Finite.Lattice
import Workbench.Proofs.Grammar.Lookahead

/-!
**Sweeping until nothing changes.**

The lookahead of a grammar can also be found without counting rounds: go over the rules again and again,
add to each rule in its turn what its body gives by now, and stop after a sweep that has added nothing.
A sweep sees later rules in the state that it has just given to earlier ones, and notices an addition to
a set by its size.

All that a sweep adds is right, so what is found at any time is among finitely many facts, and every sweep
but the last finds a new one. Where the loop ends, the equations that the bodies give are solved. So the
loop comes to its end, and it ends at the same lookahead as the rounds do: `Lookahead.settles_exact`.
-/

namespace Workbench

open Grammar

/-! ### Sets in listing order -/

namespace FirstSet

variable {s t : FirstSet} {x : Symbol}

/-- The number of symbols in a set. -/
def size (s : FirstSet) : Nat := s.keywords.length + s.kinds.length

/-- Keywords stand in increasing order and kinds in listing order, so that the symbols settle the set. -/
structure Orderly (s : FirstSet) : Prop where
  keywords : s.keywords.Pairwise (· < ·)
  kinds : TokenKind.all.filter s.kinds.contains = s.kinds

theorem sublist_insertSorted (k : String) (l : List String) : l.Sublist (insertSorted k l) := by
  induction l with
  | nil => simp
  | cons a rest ih =>
    simp only [insertSorted]
    split
    · exact .refl _
    · split
      · exact List.sublist_cons_self _ _
      · exact ih.cons_cons a

theorem sublist_foldl_insertSorted (l acc : List String) :
    acc.Sublist (l.foldl (fun acc k => insertSorted k acc) acc) := by
  induction l generalizing acc with
  | nil => exact .refl _
  | cons k rest ih => exact (sublist_insertSorted k acc).trans (ih _)

theorem sorted_insertSorted (k : String) {l : List String} (sorted : l.Pairwise (· < ·)) :
    (insertSorted k l).Pairwise (· < ·) := by
  induction l with
  | nil => simp [insertSorted]
  | cons a rest ih =>
    obtain ⟨head, tail⟩ := List.pairwise_cons.1 sorted
    simp only [insertSorted]
    split
    · exact sorted
    · next differ =>
      split
      · next lt =>
        refine List.pairwise_cons.2 ⟨fun b mem => ?_, sorted⟩
        rcases List.mem_cons.1 mem with rfl | mem
        · exact lt
        · exact String.lt_trans lt (head b mem)
      · next notLt =>
        refine List.pairwise_cons.2 ⟨fun b mem => ?_, ih tail⟩
        rcases mem_insertSorted.1 mem with rfl | mem
        · exact ((Std.lt_trichotomy b a).resolve_left notLt).resolve_left differ
        · exact head b mem

theorem sorted_foldl_insertSorted (l : List String) {acc : List String}
    (sorted : acc.Pairwise (· < ·)) :
    (l.foldl (fun acc k => insertSorted k acc) acc).Pairwise (· < ·) := by
  induction l generalizing acc with
  | nil => exact sorted
  | cons k rest ih => exact ih (sorted_insertSorted k sorted)

theorem keywords_union (s t : FirstSet) :
    (s.union t).keywords = t.keywords.foldl (fun acc k => insertSorted k acc) s.keywords := rfl

theorem kinds_union (s t : FirstSet) :
    (s.union t).kinds =
      TokenKind.all.filter fun k => s.kinds.contains k || t.kinds.contains k := rfl

namespace Orderly

theorem empty : FirstSet.empty.Orderly := ⟨.nil, rfl⟩

theorem ofKeyword (text : String) : (FirstSet.ofKeyword text).Orderly :=
  ⟨List.pairwise_singleton _ _, rfl⟩

theorem ofKind (kind : TokenKind) : (FirstSet.ofKind kind).Orderly :=
  ⟨.nil, by cases kind <;> rfl⟩

theorem union (h : s.Orderly) (t : FirstSet) : (s.union t).Orderly := by
  refine ⟨sorted_foldl_insertSorted t.keywords h.keywords, ?_⟩
  rw [kinds_union]
  apply List.filter_congr
  intro k mem
  simp [mem]

/-- Orderly sets of the same symbols are equal. -/
theorem ext (hs : s.Orderly) (ht : t.Orderly) (same : ∀ x, s.Has x ↔ t.Has x) : s = t := by
  have keywords : s.keywords = t.keywords := by
    have perm : s.keywords.Perm t.keywords := by
      rw [List.perm_ext_iff_of_nodup (hs.keywords.imp String.ne_of_lt)
        (ht.keywords.imp String.ne_of_lt)]
      exact fun text => same (.keyword text)
    refine perm.eq_of_pairwise ?_ hs.keywords ht.keywords
    intro a b _ _ lt gt
    exact absurd (String.lt_trans lt gt) (String.lt_irrefl a)
  have kinds : s.kinds = t.kinds := by
    rw [← hs.kinds, ← ht.kinds]
    apply List.filter_congr
    intro k _
    have := same (.kind k)
    simp only [Has] at this
    simp [this]
  cases s
  cases t
  simp_all

/-- A union that has the size of the first set adds nothing to it. -/
theorem union_eq_of_size (h : s.Orderly) (same : (s.union t).size = s.size) : s.union t = s := by
  have keywords : s.keywords.Sublist (s.union t).keywords := by
    rw [keywords_union]
    exact sublist_foldl_insertSorted t.keywords s.keywords
  have kinds : s.kinds.Sublist (s.union t).kinds := by
    rw [kinds_union]
    nth_rewrite 1 [← h.kinds]
    apply List.monotone_filter_right
    intro k found
    simp only [found, Bool.true_or]
  have shorter := keywords.length_le
  have fewer := kinds.length_le
  simp only [size] at same
  have sameKeywords := keywords.eq_of_length (by omega)
  have sameKinds := kinds.eq_of_length (by omega)
  generalize s.union t = u at *
  cases s
  cases u
  simp_all

end Orderly

theorem finite_has (s : FirstSet) : {x | s.Has x}.Finite := by
  refine (List.finite_toSet (s.keywords.map .keyword ++ s.kinds.map .kind)).subset ?_
  intro x has
  cases x with
  | keyword text => simpa [Has] using has
  | kind k => simpa [Has] using has

end FirstSet

namespace Element

variable {N : RuleId → Bool} {F : RuleId → FirstSet}

mutual

theorem orderly_first (calls : ∀ id, (F id).Orderly) : ∀ e : Element, (e.first N F).Orderly
  | .keyword text => by
    rw [first]
    exact .ofKeyword text
  | .call id | .crossRef _ id => by
    rw [first]
    exact calls id
  | .assign _ _ value => by
    rw [first]
    exact orderly_first calls value
  | .action _ _ => by
    rw [first]
    exact .empty
  | .group items => by
    rw [first]
    exact orderly_firstOfGroup calls items
  | .alternatives items => by
    rw [first]
    exact orderly_firstOfAny calls items
  | .repetition _ item => by
    rw [first]
    exact orderly_first calls item

theorem orderly_firstOfGroup (calls : ∀ id, (F id).Orderly) :
    ∀ items : List Element, (firstOfGroup N F items).Orderly
  | [] => by
    rw [firstOfGroup]
    exact .empty
  | item :: rest => by
    rw [firstOfGroup]
    split
    · exact (orderly_first calls item).union _
    · exact orderly_first calls item

theorem orderly_firstOfAny (calls : ∀ id, (F id).Orderly) :
    ∀ items : List Element, (firstOfAny N F items).Orderly
  | [] => by
    rw [firstOfAny]
    exact .empty
  | item :: rest => by
    rw [firstOfAny]
    exact (orderly_first calls item).union _

end

end Element

namespace Lookahead

variable {g : Grammar} {la : Lookahead} {rule : Rule} {id : RuleId} {x : Symbol}

/-! ### The loop -/

/-- The tokens found to start a rule. -/
def ruleFirst (la : Lookahead) (id : RuleId) : FirstSet := la.firstSets[id]?.getD .empty

/-- The lookahead before anything has been found. -/
def blank (g : Grammar) : Lookahead where
  terminals := g.rules.map (·.kind.terminal?)
  nullableRules := Array.replicate g.rules.size false
  firstSets := Array.replicate g.rules.size .empty

/-- Adds to a rule what its body gives by now, and tells whether something of it is new (`collect_first`). -/
def refresh (la : Lookahead) (rule : Rule) (id : RuleId) : Lookahead × Bool :=
  if rule.kind.terminal?.isSome then (la, false)
  else
    let first := (la.ruleFirst id).union (la.first rule.body)
    let nullable := la.nullable rule.body
    ({ la with
        nullableRules := la.nullableRules.setIfInBounds id (la.ruleNullable id || nullable)
        firstSets := la.firstSets.setIfInBounds id first },
      first.size != (la.ruleFirst id).size || (nullable && !la.ruleNullable id))

def refreshAll : List (Rule × RuleId) → Lookahead → Lookahead × Bool
  | [], la => (la, false)
  | (rule, id) :: rest, la =>
    let (la, new) := la.refresh rule id
    let (la, more) := refreshAll rest la
    (la, new || more)

/-- Goes over all rules once, and tells whether something new was found (`compute`). -/
def sweep (g : Grammar) (la : Lookahead) : Lookahead × Bool := refreshAll g.rules.toList.zipIdx la

/-- Sweeping from a lookahead until a sweep finds nothing new ends at another (`compute`). -/
inductive Settles (g : Grammar) : Lookahead → Lookahead → Prop where
  | still {la last : Lookahead} (swept : sweep g la = (last, false)) : Settles g la last
  | again {la next last : Lookahead} (swept : sweep g la = (next, true))
    (rest : Settles g next last) : Settles g la last

/-! ### What sweeps have found is right -/

/-- What holds of every lookahead that sweeps come to. -/
structure Sound (g : Grammar) (la : Lookahead) : Prop where
  terminals : la.terminals = g.rules.map (·.kind.terminal?)
  nullableSize : la.nullableRules.size = g.rules.size
  firstSize : la.firstSets.size = g.rules.size
  orderly : ∀ id, (la.ruleFirst id).Orderly
  /-- Nothing is kept for terminal rules. -/
  bodies : ∀ id, g.body? id = none → la.ruleFirst id = .empty
  nullable : ∀ e id, e.callee? = some id → la.ruleNullable id = true → g.Generates e []
  first : ∀ e id x, e.callee? = some id → (la.callFirst id).Has x → g.Starts e x

namespace Sound

theorem terminal? (h : Sound g la) (id : RuleId) : la.terminal? id = g.terminal? id := by
  simp only [Lookahead.terminal?, h.terminals, Array.getElem?_map, Grammar.terminal?]
  cases g.rules[id]? <;> rfl

theorem generates (h : Sound g la) {e : Element} (found : la.nullable e = true) :
    g.Generates e [] :=
  Element.generates_of_nullable h.nullable e found

theorem starts (h : Sound g la) {e : Element} (found : (la.first e).Has x) : g.Starts e x :=
  Element.starts_of_first (fun _ => h.generates) (fun e id calls => h.first e id x calls) e found

theorem callFirst_of_body? (h : Sound g la) {body : Element} (known : g.body? id = some body) :
    la.callFirst id = la.ruleFirst id := by
  rw [callFirst, h.terminal?, terminal?_of_body? known]
  rfl

theorem callFirst_of_terminal (h : Sound g la) {kind : TokenKind}
    (terminal : g.terminal? id = some kind) : la.callFirst id = .ofKind kind := by
  rw [callFirst, h.terminal?, terminal]

theorem blank (g : Grammar) : Sound g (blank g) := by
  have noFirst : ∀ id, (Lookahead.blank g).ruleFirst id = .empty := by
    intro id
    simp only [ruleFirst, Lookahead.blank, Array.getElem?_replicate]
    split <;> rfl
  have noNullable : ∀ id, (Lookahead.blank g).ruleNullable id = false := by
    intro id
    simp only [ruleNullable, Lookahead.blank, Array.getElem?_replicate]
    split <;> rfl
  have terminal : ∀ id, (Lookahead.blank g).terminal? id = g.terminal? id := by
    intro id
    simp only [Lookahead.terminal?, Lookahead.blank, Array.getElem?_map, Grammar.terminal?]
    cases g.rules[id]? <;> rfl
  refine ⟨rfl, by simp [Lookahead.blank], by simp [Lookahead.blank], ?_, fun id _ => noFirst id, ?_, ?_⟩
  · intro id
    rw [noFirst]
    exact .empty
  · intro e id _ found
    simp [noNullable] at found
  · intro e id x calls found
    rw [callFirst, terminal] at found
    cases kind : g.terminal? id with
    | some kind' =>
      simp only [kind, FirstSet.has_ofKind] at found
      rw [found]
      exact .token calls kind
    | none =>
      simp only [kind] at found
      rw [← ruleFirst, noFirst] at found
      exact absurd found FirstSet.not_has_empty

end Sound

/-- What a refreshed rule is found to start with. -/
theorem ruleFirst_refresh (h : Sound g la) (known : g.rules[id]? = some rule)
    (nonterminal : rule.kind.terminal? = none) (k : RuleId) :
    (la.refresh rule id).1.ruleFirst k =
      if k = id then (la.ruleFirst id).union (la.first rule.body) else la.ruleFirst k := by
  have inside := (Array.getElem?_eq_some_iff.1 known).1
  simp only [refresh, nonterminal, Option.isSome_none, Bool.false_eq_true, if_false, ruleFirst,
    Array.getElem?_setIfInBounds, h.firstSize, inside]
  by_cases same : id = k
  · simp [same]
  · simp [same, Ne.symm same]

theorem ruleNullable_refresh (h : Sound g la) (known : g.rules[id]? = some rule)
    (nonterminal : rule.kind.terminal? = none) (k : RuleId) :
    (la.refresh rule id).1.ruleNullable k =
      if k = id then la.ruleNullable id || la.nullable rule.body else la.ruleNullable k := by
  have inside := (Array.getElem?_eq_some_iff.1 known).1
  simp only [refresh, nonterminal, Option.isSome_none, Bool.false_eq_true, if_false]
  rw [ruleNullable, Array.getElem?_setIfInBounds, h.nullableSize]
  by_cases same : id = k
  · subst same
    simp [inside]
  · simp [same, Ne.symm same, ruleNullable]

/-- A rule that is found to be empty in refreshing can be empty. -/
theorem Sound.generates_of_refresh (h : Sound g la) (known : g.rules[id]? = some rule)
    (nonterminal : rule.kind.terminal? = none) {e : Element} {k : RuleId} (calls : e.callee? = some k)
    (found : (la.refresh rule id).1.ruleNullable k = true) : g.Generates e [] := by
  rw [ruleNullable_refresh h known nonterminal] at found
  split at found
  · next same =>
    subst same
    rcases Bool.or_eq_true_iff.1 found with old | new
    · exact h.nullable e k calls old
    · exact .rule calls (body?_of_rule known nonterminal) (h.generates new)
  · exact h.nullable e k calls found

/-- A symbol that is found in refreshing to start a rule does so. -/
theorem Sound.starts_of_refresh (h : Sound g la) (known : g.rules[id]? = some rule)
    (nonterminal : rule.kind.terminal? = none) {e : Element} {k : RuleId} {x : Symbol}
    (calls : e.callee? = some k) (bodied : g.terminal? k = none)
    (found : ((la.refresh rule id).1.ruleFirst k).Has x) : g.Starts e x := by
  have before : (la.ruleFirst k).Has x → g.Starts e x := by
    intro old
    refine h.first e k x calls ?_
    rw [callFirst, h.terminal?, bodied]
    exact old
  rw [ruleFirst_refresh h known nonterminal] at found
  split at found
  · next same =>
    subst same
    rcases FirstSet.has_union.1 found with old | new
    · exact before old
    · exact .rule calls (body?_of_rule known nonterminal) (h.starts new)
  · exact before found

/-- A refreshed rule keeps a lookahead sound. -/
theorem Sound.refresh (h : Sound g la) (known : g.rules[id]? = some rule) :
    Sound g (la.refresh rule id).1 := by
  cases terminal : rule.kind.terminal? with
  | some kind => simpa [Lookahead.refresh, terminal] using h
  | none =>
    have same : (la.refresh rule id).1.terminals = la.terminals := by
      simp [Lookahead.refresh, terminal]
    refine ⟨same.trans h.terminals, ?nullableSize, ?firstSize, ?orderly, ?bodies, ?nullable, ?first⟩
    case nullableSize => simp [Lookahead.refresh, terminal, h.nullableSize]
    case firstSize => simp [Lookahead.refresh, terminal, h.firstSize]
    case orderly =>
      intro k
      rw [ruleFirst_refresh h known terminal]
      split
      · exact (h.orderly id).union _
      · exact h.orderly k
    case bodies =>
      intro k bodyless
      rw [ruleFirst_refresh h known terminal, if_neg]
      · exact h.bodies k bodyless
      · rintro rfl
        simp [body?_of_rule known terminal] at bodyless
    case nullable =>
      intro e k calls found
      exact h.generates_of_refresh known terminal calls found
    case first =>
      intro e k x calls found
      have terminals : (la.refresh rule id).1.terminal? k = g.terminal? k := by
        rw [Lookahead.terminal?, same]
        exact h.terminal? k
      cases kind : g.terminal? k with
      | some kind' =>
        rw [callFirst, terminals, kind, FirstSet.has_ofKind] at found
        rw [found]
        exact .token calls kind
      | none =>
        rw [callFirst, terminals, kind] at found
        exact h.starts_of_refresh known terminal calls kind found

/-! ### Every sweep but the last finds something -/

/-- The facts of a lookahead: the rules that can be empty, and the symbols that start a rule. -/
def Facts (la : Lookahead) : Set (RuleId × Option Symbol)
  | (id, none) => la.ruleNullable id = true
  | (id, some x) => (la.ruleFirst id).Has x

theorem facts_refresh (h : Sound g la) (known : g.rules[id]? = some rule) :
    la.Facts ⊆ (la.refresh rule id).1.Facts := by
  cases terminal : rule.kind.terminal? with
  | some kind => simp [refresh, terminal]
  | none =>
    rintro ⟨k, _ | x⟩ found
    · show (la.refresh rule id).1.ruleNullable k = true
      have found : la.ruleNullable k = true := found
      rw [ruleNullable_refresh h known terminal]
      split
      · next same => simp [← same, found]
      · exact found
    · show ((la.refresh rule id).1.ruleFirst k).Has x
      have found : (la.ruleFirst k).Has x := found
      rw [ruleFirst_refresh h known terminal]
      split
      · next same => exact FirstSet.has_union.2 (.inl (same ▸ found))
      · exact found

/-- A refreshed rule that reports something new has a new fact. -/
theorem facts_refresh_ne (h : Sound g la) (known : g.rules[id]? = some rule)
    (new : (la.refresh rule id).2 = true) : ∃ fact ∈ (la.refresh rule id).1.Facts, fact ∉ la.Facts := by
  cases terminal : rule.kind.terminal? with
  | some kind => simp [refresh, terminal] at new
  | none =>
    have reported : (((la.ruleFirst id).union (la.first rule.body)).size ≠ (la.ruleFirst id).size) ∨
        la.nullable rule.body = true ∧ la.ruleNullable id = false := by
      simpa [refresh, terminal] using new
    rcases reported with larger | ⟨nullable, unknown⟩
    · -- a set of another size is another set, and orderly sets differ in a symbol
      by_contra none
      push Not at none
      refine larger (congrArg FirstSet.size (((h.orderly id).union _).ext (h.orderly id) fun x => ?_))
      refine ⟨fun has => none (id, some x) ?_, fun has => FirstSet.has_union.2 (.inl has)⟩
      show ((la.refresh rule id).1.ruleFirst id).Has x
      rwa [ruleFirst_refresh h known terminal, if_pos rfl]
    · refine ⟨(id, .none), ?_, ?_⟩
      · show (la.refresh rule id).1.ruleNullable id = true
        rw [ruleNullable_refresh h known terminal, if_pos rfl, nullable, Bool.or_true]
      · show ¬ la.ruleNullable id = true
        simp [unknown]

/-- Rules with their places in a grammar. -/
def Placed (g : Grammar) (rules : List (Rule × RuleId)) : Prop :=
  ∀ rule id, (rule, id) ∈ rules → g.rules[id]? = some rule

theorem placed_rules (g : Grammar) : Placed g g.rules.toList.zipIdx := by
  intro rule id mem
  simpa [List.mk_mem_zipIdx_iff_getElem?] using mem

theorem Sound.refreshAll {rules : List (Rule × RuleId)} (placed : Placed g rules) (h : Sound g la) :
    Sound g (refreshAll rules la).1 ∧ la.Facts ⊆ (refreshAll rules la).1.Facts ∧
      ((refreshAll rules la).2 = true →
        ∃ fact ∈ (refreshAll rules la).1.Facts, fact ∉ la.Facts) := by
  induction rules generalizing la with
  | nil => exact ⟨h, subset_rfl, by simp [Lookahead.refreshAll]⟩
  | cons head rest ih =>
    obtain ⟨rule, id⟩ := head
    have known := placed rule id List.mem_cons_self
    obtain ⟨sound, grows, finds⟩ :=
      ih (fun rule id mem => placed rule id (List.mem_cons_of_mem _ mem)) (h.refresh known)
    have first := facts_refresh h known
    simp only [Lookahead.refreshAll, Bool.or_eq_true]
    refine ⟨sound, first.trans grows, ?_⟩
    rintro (here | there)
    · obtain ⟨fact, found, new⟩ := facts_refresh_ne h known here
      exact ⟨fact, grows found, new⟩
    · obtain ⟨fact, found, new⟩ := finds there
      exact ⟨fact, found, fun old => new (first old)⟩

theorem finite_facts (la : Lookahead) : la.Facts.Finite := by
  let upTo := max la.nullableRules.size la.firstSets.size
  have bounded : la.Facts ⊆ ⋃ id ∈ Finset.range upTo,
      insert (id, none) (Set.image (fun x => (id, some x)) {x | (la.ruleFirst id).Has x}) := by
    rintro ⟨id, _ | x⟩ found
    · have found : la.ruleNullable id = true := found
      have inside : id < la.nullableRules.size := by
        by_contra outside
        simp [ruleNullable, Array.getElem?_eq_none (Nat.not_lt.1 outside)] at found
      simp [upTo, inside]
    · have found : (la.ruleFirst id).Has x := found
      have inside : id < la.firstSets.size := by
        by_contra outside
        simp [ruleFirst, Array.getElem?_eq_none (Nat.not_lt.1 outside)] at found
      simp [upTo, inside, found]
  refine Set.Finite.subset (Set.Finite.biUnion (Finset.finite_toSet _) fun id _ => ?_) bounded
  exact ((la.ruleFirst id).finite_has.image _).insert _

/-- What sweeps find is among what the rounds find. -/
theorem Sound.facts_subset (h : Sound g la) : la.Facts ⊆ (of g).Facts := by
  rintro ⟨id, _ | x⟩ found
  · have empty := h.nullable (.call id) id rfl found
    have nullable := (nullable_iff g (.call id)).2 empty
    rw [Lookahead.nullable, Element.nullable] at nullable
    exact nullable
  · have found : (la.ruleFirst id).Has x := found
    cases known : g.body? id with
    | none =>
      rw [h.bodies id known] at found
      exact absurd found FirstSet.not_has_empty
    | some body =>
      rw [← h.callFirst_of_body? known] at found
      have starts := (first_has_iff g (.call id) x).2 (h.first (.call id) id x rfl found)
      have terminal : (of g).terminal? id = none :=
        (terminal?_stage g g.rules.size id).trans (terminal?_of_body? known)
      rw [Lookahead.first, Element.first, callFirst, terminal] at starts
      exact starts

/-- The loop comes to its end. -/
theorem Sound.exists_settles (h : Sound g la) : ∃ last, Settles g la last := by
  generalize left : (of g).Facts.ncard - la.Facts.ncard = n
  induction n using Nat.strong_induction_on generalizing la with
  | _ n ih =>
    obtain ⟨sound, grows, finds⟩ := h.refreshAll (placed_rules g)
    cases swept : sweep g la with
    | mk next new =>
      cases new with
      | false => exact ⟨next, .still swept⟩
      | true =>
        rw [← sweep, swept] at sound grows finds
        dsimp only at sound grows finds
        obtain ⟨fact, found, fresh⟩ := finds rfl
        have more : la.Facts.ncard < next.Facts.ncard :=
          Set.ncard_lt_ncard ⟨grows, fun back => fresh (back found)⟩ next.finite_facts
        have bounded : next.Facts.ncard ≤ (of g).Facts.ncard :=
          Set.ncard_le_ncard sound.facts_subset (of g).finite_facts
        obtain ⟨last, settles⟩ := ih _ (by omega) sound rfl
        exact ⟨last, .again swept settles⟩

/-! ### Where nothing changes, the equations are solved -/

/-- The facts of a lookahead hold all that the bodies give by them. -/
structure Closed (g : Grammar) (la : Lookahead) : Prop where
  nullable : ∀ id body, g.body? id = some body → la.nullable body = true → la.ruleNullable id = true
  first : ∀ id body x, g.body? id = some body → (la.first body).Has x → (la.ruleFirst id).Has x

theorem refresh_of_still (h : Sound g la) (known : g.rules[id]? = some rule)
    (still : (la.refresh rule id).2 = false) : (la.refresh rule id).1 = la ∧
      (rule.kind.terminal? = none →
        (la.nullable rule.body = true → la.ruleNullable id = true) ∧
        ∀ x, (la.first rule.body).Has x → (la.ruleFirst id).Has x) := by
  cases terminal : rule.kind.terminal? with
  | some kind => simp [refresh, terminal]
  | none =>
    have inside := (Array.getElem?_eq_some_iff.1 known).1
    obtain ⟨sameSize, nothingEmpty⟩ :
        ((la.ruleFirst id).union (la.first rule.body)).size = (la.ruleFirst id).size ∧
          (la.nullable rule.body = true → la.ruleNullable id = true) := by
      simpa [refresh, terminal] using still
    have same := (h.orderly id).union_eq_of_size sameSize
    refine ⟨?_, fun _ => ⟨nothingEmpty, fun x has => ?_⟩⟩
    · have nullable : (la.ruleNullable id || la.nullable rule.body) = la.ruleNullable id := by
        cases found : la.nullable rule.body <;> simp_all
      have first : la.firstSets.setIfInBounds id (la.ruleFirst id) = la.firstSets := by
        apply Array.ext_getElem?
        intro k
        rw [Array.getElem?_setIfInBounds]
        split
        · next eq => simp [← eq, ruleFirst, h.firstSize, inside]
        · rfl
      have nullables :
          la.nullableRules.setIfInBounds id (la.ruleNullable id) = la.nullableRules := by
        apply Array.ext_getElem?
        intro k
        rw [Array.getElem?_setIfInBounds]
        split
        · next eq => simp [← eq, ruleNullable, h.nullableSize, inside]
        · rfl
      simp [refresh, terminal, same, nullable, first, nullables]
    · rw [← same]
      exact FirstSet.has_union.2 (.inr has)

theorem refreshAll_of_still {rules : List (Rule × RuleId)} (placed : Placed g rules) (h : Sound g la)
    (still : (refreshAll rules la).2 = false) : (refreshAll rules la).1 = la ∧
      ∀ rule id, (rule, id) ∈ rules → rule.kind.terminal? = none →
        (la.nullable rule.body = true → la.ruleNullable id = true) ∧
        ∀ x, (la.first rule.body).Has x → (la.ruleFirst id).Has x := by
  induction rules with
  | nil => exact ⟨rfl, by simp⟩
  | cons head rest ih =>
    obtain ⟨rule, id⟩ := head
    have known := placed rule id List.mem_cons_self
    simp only [refreshAll, Bool.or_eq_false_iff] at still ⊢
    obtain ⟨same, solved⟩ := refresh_of_still h known still.1
    rw [same] at still ⊢
    obtain ⟨sameRest, solvedRest⟩ :=
      ih (fun rule id mem => placed rule id (List.mem_cons_of_mem _ mem)) still.2
    refine ⟨sameRest, fun rule' id' mem => ?_⟩
    rcases List.mem_cons.1 mem with eq | mem
    · cases eq
      exact solved
    · exact solvedRest rule' id' mem

theorem Sound.closed_of_sweep (h : Sound g la) {last : Lookahead} (swept : sweep g la = (last, false)) :
    last = la ∧ Closed g la := by
  have mem_zipIdx : ∀ {rule : Rule} {id : RuleId}, g.rules[id]? = some rule →
      (rule, id) ∈ g.rules.toList.zipIdx := by
    intro rule id known
    simpa [List.mk_mem_zipIdx_iff_getElem?] using known
  obtain ⟨same, solved⟩ := refreshAll_of_still (placed_rules g) h (congrArg Prod.snd swept)
  refine ⟨(congrArg Prod.fst swept).symm.trans same, ?_, ?_⟩
  · intro id body known found
    obtain ⟨rule, placed, nonterminal, rfl⟩ := rule_of_body? known
    exact (solved rule id (mem_zipIdx placed) nonterminal).1 found
  · intro id body x known found
    obtain ⟨rule, placed, nonterminal, rfl⟩ := rule_of_body? known
    exact (solved rule id (mem_zipIdx placed) nonterminal).2 x found

theorem Sound.nullable_iff (h : Sound g la) (closed : Closed g la) (e : Element) :
    la.nullable e = true ↔ g.Generates e [] :=
  ⟨h.generates, Element.nullable_of_generates closed.nullable⟩

theorem Sound.first_has_iff (h : Sound g la) (closed : Closed g la) (e : Element) (x : Symbol) :
    (la.first e).Has x ↔ g.Starts e x := by
  refine ⟨h.starts, Element.first_of_starts (fun e => (h.nullable_iff closed e).2) ?_ ?_⟩
  · intro id kind terminal
    rw [h.callFirst_of_terminal terminal]
    exact FirstSet.has_ofKind.2 rfl
  · intro id body x known found
    rw [h.callFirst_of_body? known]
    exact closed.first id body x known found

/-! ### The end of the loop -/

theorem orderly_stage (g : Grammar) (k : Nat) (id : RuleId) : ((stage g k).ruleFirst id).Orderly := by
  induction k generalizing id with
  | zero =>
    change ((Array.replicate g.rules.size FirstSet.empty)[id]?.getD .empty).Orderly
    rw [Array.getElem?_replicate]
    split <;> exact .empty
  | succ k ih =>
    have calls : ∀ id, ((stage g k).callFirst id).Orderly := by
      intro id
      simp only [callFirst]
      split
      · exact .ofKind _
      · exact ih id
    rw [stage_succ, ruleFirst, firstRound, Array.getElem?_map]
    cases g.rules[id]? with
    | none => exact .empty
    | some rule =>
      simp only [Option.map_some, Option.getD_some]
      split
      · exact .empty
      · exact Element.orderly_first calls rule.body

theorem size_rounds {α : Type} {n : Nat} (step : Array α → Array α) (sizes : ∀ a, (step a).size = n)
    (k : Nat) {a : Array α} (size : a.size = n) : (rounds step k a).size = n := by
  induction k generalizing a with
  | zero => exact size
  | succ k ih => exact ih (sizes a)

/-- The rounds end at a sound lookahead as well. -/
theorem sound_of (g : Grammar) : Sound g (of g) := by
  have terminals : ∀ k, (stage g k).terminals = g.rules.map (·.kind.terminal?) := by
    intro k
    induction k with
    | zero => rfl
    | succ k ih => rw [stage_succ, ← ih]; rfl
  have nullableRules : ∀ k, (stage g k).nullableRules.size = g.rules.size := by
    intro k
    induction k with
    | zero => exact size_rounds _ (fun a => by simp [nullableRound]) _ (by simp)
    | succ k ih => rw [stage_succ, ← ih]; rfl
  have firstSets : ∀ k, (stage g k).firstSets.size = g.rules.size := by
    rintro (_ | k)
    · exact Array.size_replicate
    · rw [stage_succ]
      exact Array.size_map
  refine ⟨terminals _, nullableRules _, firstSets _, orderly_stage g _, ?_, ?_, ?_⟩
  · intro id bodyless
    refine (orderly_stage g _ id).ext .empty fun x => ⟨fun found => ?_, fun found => ?_⟩
    · have found : Found g x g.rules.size id := found
      generalize g.rules.size = k at found
      cases k with
      | zero => exact absurd found (not_found_zero id)
      | succ k =>
        obtain ⟨body, known, -⟩ := found_succ.1 found
        simp [bodyless] at known
    · exact absurd found FirstSet.not_has_empty
  · intro e id calls found
    refine (Lookahead.nullable_iff g e).1 ?_
    rw [Lookahead.nullable, Element.nullable_of_callee? calls]
    exact found
  · intro e id x calls found
    refine (Lookahead.first_has_iff g e x).1 ?_
    rw [Lookahead.first, Element.first_of_callee? calls]
    exact found

theorem eq_of_getD {α : Type} {a b : Array α} {d : α} (size : a.size = b.size)
    (same : ∀ k : Nat, a[k]?.getD d = b[k]?.getD d) : a = b := by
  refine Array.ext size fun k left right => ?_
  simpa [left, right] using same k

/-- A sound lookahead in which the equations are solved is the lookahead of the grammar. -/
theorem Sound.eq_of (h : Sound g la) (closed : Closed g la) : la = of g := by
  have h' := sound_of g
  have nullable : ∀ id, la.ruleNullable id = (of g).ruleNullable id := by
    intro id
    have left := h.nullable_iff closed (.call id)
    have right := Lookahead.nullable_iff g (.call id)
    rw [Lookahead.nullable, Element.nullable] at left right
    exact Bool.eq_iff_iff.2 (left.trans right.symm)
  have first : ∀ id, la.ruleFirst id = (of g).ruleFirst id := by
    intro id
    cases known : g.body? id with
    | none => rw [h.bodies id known, h'.bodies id known]
    | some body =>
      refine (h.orderly id).ext (h'.orderly id) fun x => ?_
      have left := h.first_has_iff closed (.call id) x
      have right := Lookahead.first_has_iff g (.call id) x
      rw [Lookahead.first, Element.first] at left right
      rw [← h.callFirst_of_body? known, ← h'.callFirst_of_body? known]
      exact left.trans right.symm
  have nullableRules : la.nullableRules = (of g).nullableRules :=
    eq_of_getD (h.nullableSize.trans h'.nullableSize.symm) nullable
  have firstSets : la.firstSets = (of g).firstSets :=
    eq_of_getD (h.firstSize.trans h'.firstSize.symm) first
  have terminals : la.terminals = (of g).terminals := h.terminals.trans h'.terminals.symm
  generalize of g = result at *
  cases la
  cases result
  simp_all

theorem Settles.eq_of {last : Lookahead} (settles : Settles g la last) (h : Sound g la) :
    last = of g := by
  induction settles with
  | still swept =>
    obtain ⟨rfl, closed⟩ := h.closed_of_sweep swept
    exact h.eq_of closed
  | again swept _ ih =>
    obtain ⟨sound, -⟩ := h.refreshAll (placed_rules g)
    rw [← sweep, swept] at sound
    exact ih sound

/-- Sweeping over the rules of a grammar until nothing changes comes to an end, and at its lookahead. An
element is found nullable there exactly if it derives the empty sequence, and it is found to start with
exactly the symbols in leftmost position. -/
theorem settles_exact (g : Grammar) :
    (∃ last, Settles g (blank g) last) ∧ (∀ last, Settles g (blank g) last ↔ last = of g) ∧
      (∀ e, (of g).nullable e = true ↔ g.Generates e []) ∧
      (∀ e text, text ∈ ((of g).first e).keywords ↔ g.Starts e (.keyword text)) ∧
      ∀ e kind, kind ∈ ((of g).first e).kinds ↔ g.Starts e (.kind kind) := by
  obtain ⟨last, settles⟩ := (Sound.blank g).exists_settles
  refine ⟨⟨last, settles⟩, fun other => ⟨fun ends => ends.eq_of (.blank g), ?_⟩,
    Lookahead.nullable_iff g, fun e text => Lookahead.first_has_iff g e (.keyword text),
    fun e kind => Lookahead.first_has_iff g e (.kind kind)⟩
  rintro rfl
  rwa [← settles.eq_of (.blank g)]

end Lookahead

end Workbench
