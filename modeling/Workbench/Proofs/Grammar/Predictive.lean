import Workbench.DomainModel.Grammar
import Workbench.Proofs.Grammar.Lookahead

/-!
**Telling that a grammar is predictive.**

All places of a grammar can be listed, and the lookahead gives the symbols that start an element. With a
table of the symbols that follow each rule, it can be computed whether one symbol decides at each place;
the table need only be closed under the calls of the grammar, it need not be the smallest one. The grammar
of domain models passes the check.
-/

namespace Workbench

namespace FirstSet

def disjoint (s t : FirstSet) : Bool :=
  s.keywords.all (!t.keywords.contains ·) && s.kinds.all (!t.kinds.contains ·)

def subset (s t : FirstSet) : Bool :=
  s.keywords.all t.keywords.contains && s.kinds.all t.kinds.contains

theorem not_has_of_disjoint {s t : FirstSet} (h : s.disjoint t = true) {x : Grammar.Symbol}
    (left : s.Has x) : ¬ t.Has x := by
  rw [disjoint, Bool.and_eq_true, List.all_eq_true, List.all_eq_true] at h
  cases x with
  | keyword text => simpa [Has] using h.1 text left
  | kind k => simpa [Has] using h.2 k left

theorem has_of_subset {s t : FirstSet} (h : s.subset t = true) {x : Grammar.Symbol}
    (left : s.Has x) : t.Has x := by
  rw [subset, Bool.and_eq_true, List.all_eq_true, List.all_eq_true] at h
  cases x with
  | keyword text => simpa [Has] using h.1 text left
  | kind k => simpa [Has] using h.2 k left

end FirstSet

namespace Element

mutual

/-- The places in an element with `after` behind it, with what is behind them. -/
def places (after : List Element) : Element → List (Element × List Element)
  | .assign feature op value => (.assign feature op value, after) :: places after value
  | .group items => (.group items, after) :: placesOfGroup after items
  | .alternatives items => (.alternatives items, after) :: placesOfAny after items
  | .repetition .optional item => (.repetition .optional item, after) :: places after item
  | .repetition cardinality item =>
    (.repetition cardinality item, after) :: places (.repetition .zeroOrMore item :: after) item
  | e => [(e, after)]

/-- The places in the items of a group. -/
def placesOfGroup (after : List Element) : List Element → List (Element × List Element)
  | [] => []
  | item :: rest => places (rest ++ after) item ++ placesOfGroup after rest

/-- The places in alternatives. -/
def placesOfAny (after : List Element) : List Element → List (Element × List Element)
  | [] => []
  | item :: rest => places after item ++ placesOfAny after rest

end

theorem mem_places_self (after : List Element) (e : Element) : (e, after) ∈ e.places after := by
  cases e with
  | repetition cardinality item => cases cardinality <;> simp [places]
  | _ => simp [places]

/-- A place is the whole element or lies in a part of it. -/
theorem places_trans_of_cons {e inner : Element} {after behind : List Element}
    {place : Element × List Element} {p : List (Element × List Element)}
    (deep : place ∈ inner.places behind) (eq : e.places after = (e, after) :: p)
    (part : (inner, behind) ∈ p → place ∈ p) (h : (inner, behind) ∈ e.places after) :
    place ∈ e.places after := by
  rw [eq, List.mem_cons] at h
  rcases h with same | inside
  · cases same
    exact deep
  · rw [eq]
    exact List.mem_cons_of_mem _ (part inside)

mutual

/-- The places in a place are places. -/
theorem places_trans {inner : Element} {behind : List Element} {place : Element × List Element}
    (deep : place ∈ inner.places behind) :
    ∀ (after : List Element) (e : Element), (inner, behind) ∈ e.places after → place ∈ e.places after
  | after, .assign _ _ value, h =>
    places_trans_of_cons deep (by rw [places]) (places_trans deep after value) h
  | after, .group items, h =>
    places_trans_of_cons deep (by rw [places]) (placesOfGroup_trans deep after items) h
  | after, .alternatives items, h =>
    places_trans_of_cons deep (by rw [places]) (placesOfAny_trans deep after items) h
  | after, .repetition .optional item, h =>
    places_trans_of_cons deep (by rw [places]) (places_trans deep after item) h
  | after, .repetition .zeroOrMore item, h =>
    places_trans_of_cons deep (by simp only [places])
      (places_trans deep (.repetition .zeroOrMore item :: after) item) h
  | after, .repetition .oneOrMore item, h =>
    places_trans_of_cons deep (by simp only [places])
      (places_trans deep (.repetition .zeroOrMore item :: after) item) h
  | after, .keyword _, h | after, .call _, h | after, .crossRef _ _, h | after, .action _ _, h =>
    places_trans_of_cons (p := []) deep (by simp only [places]) (by simp) h

theorem placesOfGroup_trans {inner : Element} {behind : List Element} {place : Element × List Element}
    (deep : place ∈ inner.places behind) :
    ∀ (after items : List Element), (inner, behind) ∈ placesOfGroup after items →
      place ∈ placesOfGroup after items
  | _, [], h => by simp [placesOfGroup] at h
  | after, item :: rest, h => by
    rw [placesOfGroup, List.mem_append] at h ⊢
    exact h.imp (places_trans deep _ item) (placesOfGroup_trans deep after rest)

theorem placesOfAny_trans {inner : Element} {behind : List Element} {place : Element × List Element}
    (deep : place ∈ inner.places behind) :
    ∀ (after items : List Element), (inner, behind) ∈ placesOfAny after items →
      place ∈ placesOfAny after items
  | _, [], h => by simp [placesOfAny] at h
  | after, item :: rest, h => by
    rw [placesOfAny, List.mem_append] at h ⊢
    exact h.imp (places_trans deep _ item) (placesOfAny_trans deep after rest)

end

theorem mem_placesOfGroup (after front back : List Element) (e : Element) :
    (e, back ++ after) ∈ placesOfGroup after (front ++ e :: back) := by
  induction front with
  | nil =>
    rw [List.nil_append, placesOfGroup]
    exact List.mem_append_left _ (mem_places_self _ e)
  | cons item front ih =>
    rw [List.cons_append, placesOfGroup]
    exact List.mem_append_right _ ih

theorem mem_placesOfAny (after : List Element) {items : List Element} {e : Element} (mem : e ∈ items) :
    (e, after) ∈ placesOfAny after items := by
  induction items with
  | nil => cases mem
  | cons item items ih =>
    rw [placesOfAny, List.mem_append]
    rcases List.mem_cons.1 mem with rfl | mem
    · exact .inl (mem_places_self _ e)
    · exact .inr (ih mem)

/-- Every element of a body is found at one of its places. -/
theorem mem_places_of_occurs {body e : Element} {after : List Element}
    (h : Grammar.Occurs body e after) : (e, after) ∈ body.places [] := by
  induction h with
  | body => exact mem_places_self _ _
  | assign _ ih =>
    refine places_trans ?_ _ _ ih
    rw [places]
    exact List.mem_cons_of_mem _ (mem_places_self _ _)
  | item _ ih =>
    refine places_trans ?_ _ _ ih
    rw [places]
    exact List.mem_cons_of_mem _ (mem_placesOfGroup _ _ _ _)
  | alternative _ mem ih =>
    refine places_trans ?_ _ _ ih
    rw [places]
    exact List.mem_cons_of_mem _ (mem_placesOfAny _ mem)
  | optional _ ih =>
    refine places_trans ?_ _ _ ih
    rw [places]
    exact List.mem_cons_of_mem _ (mem_places_self _ _)
  | turn several _ ih =>
    refine places_trans ?_ _ _ ih
    rw [places]
    · exact List.mem_cons_of_mem _ (mem_places_self _ _)
    · exact several

end Element

namespace Grammar

/-! ### The check -/

/-- What follows a place of the rule `id`, by a table of what follows the rules. -/
def followsBy (la : Lookahead) (table : Array FirstSet) (id : RuleId) (after : List Element) :
    FirstSet :=
  if la.nullable (.group after) then (la.first (.group after)).union (table[id]?.getD .empty)
  else la.first (.group after)

/-- Whether one symbol decides at a place with `follows` behind it. -/
def decidesAt (la : Lookahead) (follows : FirstSet) : Element → Bool
  | .alternatives items =>
    decide (items.Pairwise fun a b => (la.first a).disjoint (la.first b) = true) &&
      decide (items.Pairwise fun a b => la.nullable a = true → la.nullable b = false) &&
      (!items.any la.nullable || items.all fun a => (la.first a).disjoint follows)
  | .repetition _ item => !la.nullable item && (la.first item).disjoint follows
  | _ => true

/-- Whether the table holds for a called rule what can follow the call. -/
def closedAt (table : Array FirstSet) (follows : FirstSet) (e : Element) : Bool :=
  match e.callee? with
  | some callee => follows.subset (table[callee]?.getD .empty)
  | none => true

/-- Whether one symbol decides at every place, by a table of what follows the rules. -/
def predictiveBy (g : Grammar) (la : Lookahead) (table : Array FirstSet) : Bool :=
  (List.range g.rules.size).all fun id =>
    (g.body? id).all fun body =>
      (body.places []).all fun (e, after) =>
        decidesAt la (followsBy la table id after) e && closedAt table (followsBy la table id after) e

variable {g : Grammar} {table : Array FirstSet} {id : RuleId} {e : Element} {after : List Element}
  {x : Symbol}

theorem followsBy_has :
    (followsBy (.of g) table id after).Has x ↔
      g.Starts (.group after) x ∨ g.Generates (.group after) [] ∧ (table[id]?.getD .empty).Has x := by
  unfold followsBy
  split
  · next empty => simp [Lookahead.first_has_iff, (Lookahead.nullable_iff _ _).1 empty]
  · next nonempty =>
    rw [Lookahead.nullable_iff] at nonempty
    simp [Lookahead.first_has_iff, nonempty]

theorem Stands.checked (h : g.predictiveBy (.of g) table = true) (stands : g.Stands id e after) :
    decidesAt (.of g) (followsBy (.of g) table id after) e = true ∧
      closedAt table (followsBy (.of g) table id after) e = true := by
  obtain ⟨-, body, known, occurs⟩ := stands
  rw [predictiveBy, List.all_eq_true] at h
  have checked := h id (List.mem_range.2 (Lookahead.lt_size_of_body? known))
  rw [known, Option.all_some, List.all_eq_true] at checked
  simpa using checked _ (Element.mem_places_of_occurs occurs)

theorem has_of_closedAt {follows : FirstSet} {callee : RuleId}
    (closed : closedAt table follows e = true) (calls : e.callee? = some callee) (h : follows.Has x) :
    (table[callee]?.getD .empty).Has x := by
  rw [closedAt, calls] at closed
  exact FirstSet.has_of_subset closed h

/-- What follows a rule is in the table. -/
theorem Follows.has (h : g.predictiveBy (.of g) table = true) (follows : g.Follows id x) :
    (table[id]?.getD .empty).Has x := by
  induction follows with
  | next stands calls starts =>
    exact has_of_closedAt (stands.checked h).2 calls (followsBy_has.2 (.inl starts))
  | last stands calls empty _ ih =>
    exact has_of_closedAt (stands.checked h).2 calls (followsBy_has.2 (.inr ⟨empty, ih⟩))

theorem FollowsAt.has (h : g.predictiveBy (.of g) table = true) (follows : g.FollowsAt id after x) :
    (followsBy (.of g) table id after).Has x :=
  followsBy_has.2 (follows.imp_right (And.imp_right (Follows.has h)))

theorem starts_disjoint {a b : Element}
    (h : ((Lookahead.of g).first a).disjoint ((Lookahead.of g).first b) = true) (x : Symbol)
    (left : g.Starts a x) : ¬ g.Starts b x := by
  rw [← Lookahead.first_has_iff] at left ⊢
  exact FirstSet.not_has_of_disjoint h left

/-- A grammar that passes the check is predictive. -/
theorem predictive_of_check (h : g.predictiveBy (.of g) table = true) : g.Predictive where
  alternatives := by
    intro id items after stands
    obtain ⟨decides, -⟩ := stands.checked h
    simp only [decidesAt, Bool.and_eq_true, decide_eq_true_eq, Bool.or_eq_true] at decides
    obtain ⟨⟨disjoint, oneEmpty⟩, apart⟩ := decides
    refine ⟨disjoint.imp starts_disjoint, oneEmpty.imp ?_, ?_⟩
    · intro a b one left right
      rw [← Lookahead.nullable_iff] at left right
      rw [one left] at right
      cases right
    · rintro ⟨a, mem, empty⟩ b mem' x starts follows
      rw [← Lookahead.nullable_iff] at empty
      have noneEmpty : ¬ (!items.any (Lookahead.of g).nullable) = true := by
        simpa using ⟨a, mem, empty⟩
      have all := List.all_eq_true.1 (apart.resolve_left noneEmpty) b mem'
      exact FirstSet.not_has_of_disjoint all ((Lookahead.first_has_iff g b x).2 starts)
        (FollowsAt.has h follows)
  repetitions := by
    intro id cardinality item after stands
    obtain ⟨decides, -⟩ := stands.checked h
    simp only [decidesAt, Bool.and_eq_true, Bool.not_eq_true'] at decides
    obtain ⟨nonempty, disjoint⟩ := decides
    refine ⟨?_, ?_⟩
    · rw [← Lookahead.nullable_iff, nonempty]
      exact Bool.false_ne_true
    · intro x starts follows
      exact FirstSet.not_has_of_disjoint disjoint ((Lookahead.first_has_iff g item x).2 starts)
        (FollowsAt.has h follows)

end Grammar

namespace DomainModel

/-- What follows each rule of a domain model. -/
def followTable : Array FirstSet :=
  let ofElement : FirstSet := ⟨["class", "datatype", "package", "\x7d"], []⟩
  let ofProperty : FirstSet := ⟨["many", "\x7d"], [.identifier]⟩
  let ofAddition := ofProperty.union ⟨[")"], []⟩
  let ofMultiplication := ofAddition.union ⟨["+", "-"], []⟩
  let ofPrimary := ofMultiplication.union ⟨["*", "/"], []⟩
  let ofQualifiedName := ofProperty.union ⟨["=", "\x7b"], []⟩
  let ofName := ofElement.union (ofQualifiedName.union ⟨[".", ":", "extends"], []⟩)
  #[.empty, ofElement, ofElement, ofElement, ofElement, ofElement, ofProperty, ofAddition,
    ofMultiplication, ofPrimary, ofQualifiedName, ofName, ofPrimary]

/-- One symbol always tells how to go on in a domain model. -/
theorem grammar_predictive : grammar.Predictive := by
  have passed : grammar.predictiveBy (.of grammar) followTable = true := by decide +kernel
  exact Grammar.predictive_of_check passed

end DomainModel

end Workbench
