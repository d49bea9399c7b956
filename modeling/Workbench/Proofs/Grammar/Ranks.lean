import Mathlib.Data.Finset.Card
import Workbench.Proofs.Grammar.LeftRecursion

/-!
**Ranks of rules.**

A rule *needs* another one if its body calls it whatever the input is: in a group or a repetition that is
not empty, but in no choice. A parser makes such a call even if none of the tokens it expects is there. If
every rule derives some sequence, then the calls that are needed do not go around in a circle, since a
derivation of least depth gets less deep along every one of them.

Calls of a sort that do not go around in a circle give every rule a rank, the number of rules that such
calls lead to. The rank falls with every call, and no rank is greater than the number of rules.
-/

namespace Workbench

namespace Grammar

/-- The number of parser and data-type rules. -/
def ruleCount (g : Grammar) : Nat := g.rules.toList.countP fun rule => rule.kind.terminal?.isNone

/-- Every rule derives some sequence of tokens. Terminal rules do so by themselves. -/
def Productive (g : Grammar) : Prop := ∀ id body, g.body? id = some body → ∃ w, g.Generates body w

/-- The rule `callee`, which is no terminal rule, is called in the element whatever the input is. -/
inductive Needs (g : Grammar) : Element → RuleId → Prop where
  | call {e : Element} {callee : RuleId} (calls : e.callee? = some callee)
    (nonterminal : g.terminal? callee = none) : Needs g e callee
  | assign {feature : String} {op : AssignOp} {value : Element} {callee : RuleId}
    (inside : Needs g value callee) : Needs g (.assign feature op value) callee
  | item {items : List Element} {item : Element} {callee : RuleId} (mem : item ∈ items)
    (inside : Needs g item callee) : Needs g (.group items) callee
  | turn {item : Element} {callee : RuleId} (inside : Needs g item callee) :
    Needs g (.repetition .oneOrMore item) callee

/-- The rule `caller` calls the rule `callee` whatever the input is. -/
def NeedCall (g : Grammar) (caller callee : RuleId) : Prop :=
  ∃ body, g.body? caller = some body ∧ g.Needs body callee

variable {g : Grammar} {caller callee id : RuleId}

/-! ### Needed calls do not go around in a circle -/

theorem exists_mem_derives {depth : Nat} {items : List Element} {item : Element} {w : List Token}
    (mem : item ∈ items) (h : g.Derives depth (.group items) w) : ∃ v, g.Derives depth item v := by
  induction items generalizing w with
  | nil => cases mem
  | cons first rest ih =>
    obtain ⟨u, v, -, head, tail⟩ := derives_cons.1 h
    rcases List.mem_cons.1 mem with rfl | mem
    · exact ⟨u, head⟩
    · exact ih mem tail

/-- A rule that is needed is part of every derivation. -/
theorem Needs.derives {e body : Element} {depth : Nat} {w : List Token} (h : g.Needs e callee)
    (known : g.body? callee = some body) (derived : g.Derives depth e w) :
    ∃ less < depth, ∃ v, g.Derives less body v := by
  induction h generalizing w with
  | call calls nonterminal =>
    rcases derived.of_callee? calls with ⟨t, terminal, -⟩ | ⟨body', less, known', rfl, inside⟩
    · rw [nonterminal] at terminal
      cases terminal
    · obtain rfl : body' = body := Option.some.inj (known'.symm.trans known)
      exact ⟨less, Nat.lt_succ_self _, w, inside⟩
  | assign _ ih => exact ih known (derives_assign.1 derived)
  | item mem _ ih =>
    obtain ⟨v, inside⟩ := exists_mem_derives mem derived
    exact ih known inside
  | turn _ ih =>
    cases derived with
    | atLeast head _ => exact ih known head
    | token calls => cases calls
    | rule calls => cases calls

/-- The body of the rule derives a sequence, nesting at most `depth` invocations. -/
def DerivesIn (g : Grammar) (depth : Nat) (id : RuleId) : Prop :=
  ∀ body, g.body? id = some body → ∃ w, g.Derives depth body w

theorem Productive.exists_derivesIn (h : g.Productive) (id : RuleId) : ∃ depth, g.DerivesIn depth id := by
  cases known : g.body? id with
  | none => exact ⟨0, fun body found => by rw [known] at found; cases found⟩
  | some body =>
    obtain ⟨w, depth, derived⟩ := h id body known
    refine ⟨depth, fun body' found => ?_⟩
    obtain rfl : body = body' := Option.some.inj (known.symm.trans found)
    exact ⟨w, derived⟩

/-- Without a body there is nothing to derive. -/
theorem NeedCall.derivesIn {depth : Nat} (h : g.NeedCall caller callee) (derived : g.DerivesIn depth caller)
    (known : (g.body? callee).isSome = true) : ∃ less < depth, g.DerivesIn less callee := by
  obtain ⟨body, found, needs⟩ := h
  obtain ⟨w, derived⟩ := derived body found
  obtain ⟨inner, is⟩ := Option.isSome_iff_exists.1 known
  obtain ⟨less, lt, v, inside⟩ := needs.derives is derived
  refine ⟨less, lt, fun body' found' => ?_⟩
  obtain rfl : inner = body' := Option.some.inj (is.symm.trans found')
  exact ⟨v, inside⟩

theorem isSome_body?_of_needCall (h : g.NeedCall caller callee) : (g.body? caller).isSome = true := by
  obtain ⟨body, known, -⟩ := h
  rw [known]
  rfl

/-- The least depth of a derivation falls along needed calls. -/
theorem Productive.acyclic (h : g.Productive) (id : RuleId) : ¬ Relation.TransGen g.NeedCall id id := by
  classical
  let depth : RuleId → Nat := fun id => Nat.find (h.exists_derivesIn id)
  have falls : ∀ {caller callee}, g.NeedCall caller callee → (g.body? callee).isSome = true →
      depth callee < depth caller := by
    intro caller callee calls known
    obtain ⟨less, lt, derived⟩ := calls.derivesIn (Nat.find_spec (h.exists_derivesIn caller)) known
    exact Nat.lt_of_le_of_lt (Nat.find_min' _ derived) lt
  have chain : ∀ {start last}, Relation.TransGen g.NeedCall start last →
      (g.body? last).isSome = true → depth last < depth start := by
    intro start last calls
    induction calls with
    | single calls => exact falls calls
    | tail _ calls ih =>
      exact fun known => (falls calls known).trans (ih (isSome_body?_of_needCall calls))
  intro cycle
  obtain ⟨next, calls, -⟩ := Relation.TransGen.head'_iff.1 cycle
  exact Nat.lt_irrefl _ (chain cycle (isSome_body?_of_needCall calls))

/-! ### Ranks -/

open Classical in
/-- The number of parser and data-type rules that calls of a sort lead to, the rule itself included. -/
noncomputable def rank (g : Grammar) (calls : RuleId → RuleId → Prop) (id : RuleId) : Nat :=
  ((Finset.range g.rules.size).filter fun other =>
    (g.body? other).isSome = true ∧ Relation.ReflTransGen calls id other).card

theorem card_filter_range {α : Type} (p : α → Bool) (l : List α) :
    ((Finset.range l.length).filter fun i => l[i]?.any p = true).card = l.countP p := by
  induction l using List.reverseRecOn with
  | nil => rfl
  | append_singleton l a ih =>
    have before : (Finset.range l.length).filter (fun i => (l ++ [a])[i]?.any p = true) =
        (Finset.range l.length).filter fun i => l[i]?.any p = true := by
      refine Finset.filter_congr fun i inside => ?_
      rw [List.getElem?_append_left (Finset.mem_range.1 inside)]
    rw [List.length_append, List.length_singleton, Finset.range_add_one, Finset.filter_insert, before,
      List.countP_append, ← ih]
    cases holds : p a <;> simp [holds]

theorem isSome_body?_iff : (g.body? id).isSome = true ↔
    g.rules.toList[id]?.any (fun rule => rule.kind.terminal?.isNone) = true := by
  rw [body?, Array.getElem?_toList]
  cases known : g.rules[id]? with
  | none => simp
  | some rule => cases terminal : rule.kind.terminal? <;> simp [terminal]

theorem rank_le (g : Grammar) (calls : RuleId → RuleId → Prop) (id : RuleId) :
    g.rank calls id ≤ g.ruleCount := by
  classical
  rw [ruleCount, ← card_filter_range, Array.length_toList]
  refine Finset.card_le_card fun other mem => ?_
  rw [Finset.mem_filter] at mem ⊢
  exact ⟨mem.1, isSome_body?_iff.1 mem.2.1⟩

theorem rank_pos (calls : RuleId → RuleId → Prop) {body : Element} (known : g.body? id = some body) :
    0 < g.rank calls id := by
  classical
  refine Finset.card_pos.2 ⟨id, Finset.mem_filter.2 ⟨?_, ?_, .refl⟩⟩
  · exact Finset.mem_range.2 (Lookahead.lt_size_of_body? known)
  · rw [known]
    rfl

theorem rank_lt {calls : RuleId → RuleId → Prop} {body : Element}
    (acyclic : ∀ id, ¬ Relation.TransGen calls id id) (known : g.body? caller = some body)
    (h : calls caller callee) : g.rank calls callee < g.rank calls caller := by
  classical
  refine Finset.card_lt_card (Finset.ssubset_iff_of_subset ?_ |>.2 ⟨caller, ?_, ?_⟩)
  · intro other mem
    rw [Finset.mem_filter] at mem ⊢
    exact ⟨mem.1, mem.2.1, mem.2.2.head h⟩
  · rw [Finset.mem_filter, Finset.mem_range, known]
    exact ⟨Lookahead.lt_size_of_body? known, rfl, .refl⟩
  · rw [Finset.mem_filter]
    rintro ⟨-, -, back⟩
    exact acyclic caller (Relation.TransGen.head' h back)

end Grammar

end Workbench
