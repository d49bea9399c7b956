import Workbench.Proofs.Grammar.Agreement
import Workbench.Proofs.Parser.Stream
import Workbench.Parser

/-!
**Elements that have a way to go on.**

An element is *ahead* if it goes on with the next token, and *apt* if it does so or can match nothing. Both
depend on the visible tokens only. The alternative that is chosen is apt, and where a call is apt, the body
of the rule is.
-/

namespace Workbench

namespace Interpreter

variable {plan : Plan} {s : State} {e item body : Element} {items rest : List Element} {id : RuleId}
  {w : List Token}

/-- The element goes on with the first of the tokens. -/
def Ahead (plan : Plan) (e : Element) (w : List Token) : Prop :=
  w.head?.any (plan.lookahead.predicts e) = true

/-- The element goes on with the first of the tokens, or can match nothing. -/
def Apt (plan : Plan) (e : Element) (w : List Token) : Prop :=
  Ahead plan e w ∨ plan.lookahead.nullable e = true

theorem ready_iff_ahead : ready plan e s = true ↔ Ahead plan e s.stream.visible := by
  rw [ready, TokenStream.peek?_eq_head?, Ahead]

theorem not_ahead_nil : ¬ Ahead plan e [] := by
  intro h
  cases h

theorem ahead_cons_iff {t : Token} : Ahead plan e (t :: w) ↔ plan.lookahead.predicts e t = true :=
  Iff.rfl

theorem ahead_group_iff : Ahead plan (.group (item :: rest)) w ↔
    Ahead plan item w ∨ plan.lookahead.nullable item = true ∧ Ahead plan (.group rest) w := by
  cases w with
  | nil => simp [not_ahead_nil]
  | cons t w =>
    simp only [ahead_cons_iff, Lookahead.predicts, Element.predicts, Element.predictsGroup,
      Bool.or_eq_true, Bool.and_eq_true, Lookahead.nullable]

theorem not_ahead_empty_group : ¬ Ahead plan (.group []) w := by
  cases w with
  | nil => exact not_ahead_nil
  | cons t w => simp [ahead_cons_iff, Lookahead.predicts, Element.predicts, Element.predictsGroup]

theorem ahead_alternatives_iff :
    Ahead plan (.alternatives items) w ↔ ∃ item ∈ items, Ahead plan item w := by
  cases w with
  | nil => simp [not_ahead_nil]
  | cons t w =>
    simp only [ahead_cons_iff, Lookahead.predicts, Element.predicts]
    induction items with
    | nil => simp [Element.predictsAny]
    | cons item rest ih =>
      rw [Element.predictsAny, Bool.or_eq_true, ih, List.exists_mem_cons_iff]

theorem nullable_alternatives_iff : plan.lookahead.nullable (.alternatives items) = true ↔
    ∃ item ∈ items, plan.lookahead.nullable item = true := by
  simp only [Lookahead.nullable, Element.nullable]
  induction items with
  | nil => simp [Element.anyNullable]
  | cons item rest ih =>
    rw [Element.anyNullable, Bool.or_eq_true, ih, List.exists_mem_cons_iff]

theorem not_ahead_action {type : TypeId} {into : Option (String × AssignOp)} :
    ¬ Ahead plan (.action type into) w := by
  cases w with
  | nil => exact not_ahead_nil
  | cons t w => simp [ahead_cons_iff, Lookahead.predicts, Element.predicts]

theorem ahead_repetition {cardinality : Cardinality} :
    Ahead plan (.repetition cardinality item) w ↔ Ahead plan item w := by
  cases w with
  | nil => simp [not_ahead_nil]
  | cons t w => simp [ahead_cons_iff, Lookahead.predicts, Element.predicts]

theorem ahead_keyword_iff {text : String} :
    Ahead plan (.keyword text) w ↔ w.head?.any (·.isKeyword text) = true := by
  cases w with
  | nil => exact Iff.rfl
  | cons t w => simp [ahead_cons_iff, Lookahead.predicts, Element.predicts]

/-- A call of a terminal rule goes on with the tokens of its kind. -/
theorem Ahead.of_terminal (exact : plan.lookahead = Lookahead.of plan.grammar) {kind : TokenKind}
    (calls : e.callee? = some id) (terminal : plan.grammar.terminal? id = some kind) (h : Ahead plan e w) :
    w.head?.any (·.kind == kind) = true := by
  cases w with
  | nil => exact absurd h not_ahead_nil
  | cons t w =>
    rw [ahead_cons_iff, exact] at h
    have called : (Lookahead.of plan.grammar).callPredicts id t = true := by
      cases e <;> cases calls <;> exact h
    have same : (Lookahead.of plan.grammar).terminal? id = plan.grammar.terminal? id :=
      Lookahead.terminal?_stage plan.grammar plan.grammar.rules.size id
    rw [Lookahead.callPredicts, same, terminal] at called
    exact called

/-- The calls of a rule are apt only if its body is. -/
theorem Ahead.of_call (exact : plan.lookahead = Lookahead.of plan.grammar) (calls : e.callee? = some id)
    (known : plan.grammar.body? id = some body) (h : Ahead plan e w) : Ahead plan body w := by
  cases w with
  | nil => exact absurd h not_ahead_nil
  | cons t w =>
    rw [ahead_cons_iff, exact] at h ⊢
    exact Lookahead.predicts_body calls known h

theorem nullable_of_call (exact : plan.lookahead = Lookahead.of plan.grammar)
    (calls : e.callee? = some id) (known : plan.grammar.body? id = some body) (h : plan.lookahead.nullable e = true) :
    plan.lookahead.nullable body = true := by
  rw [exact, Lookahead.nullable_iff] at h ⊢
  obtain ⟨depth, derived⟩ := h
  rcases derived.of_callee? calls with ⟨t, -, absurd⟩ | ⟨body', less, known', -, inside⟩
  · cases absurd
  · obtain rfl : body' = body := Option.some.inj (known'.symm.trans known)
    exact inside.generates

theorem Apt.of_call (exact : plan.lookahead = Lookahead.of plan.grammar) (calls : e.callee? = some id)
    (known : plan.grammar.body? id = some body) (h : Apt plan e w) : Apt plan body w :=
  h.imp (Ahead.of_call exact calls known) (nullable_of_call exact calls known)

/-- The alternative chosen is apt, and goes on with the next token if one of them does. -/
theorem apt_of_choose {i : Nat} (h : choose plan items s = some i) :
    ∃ item, items[i]? = some item ∧ Apt plan item s.stream.visible ∧
      (Ahead plan (.alternatives items) s.stream.visible → Ahead plan item s.stream.visible) := by
  unfold choose at h
  cases found : items.findIdx? (ready plan · s) with
  | some j =>
    rw [found, Option.some_or] at h
    obtain rfl := Option.some.inj h
    obtain ⟨inside, isReady, -⟩ := List.findIdx?_eq_some_iff_getElem.1 found
    have ahead := ready_iff_ahead.1 isReady
    exact ⟨items[j], List.getElem?_eq_getElem inside, .inl ahead, fun _ => ahead⟩
  | none =>
    rw [found, Option.none_or] at h
    obtain ⟨inside, empty, -⟩ := List.findIdx?_eq_some_iff_getElem.1 h
    refine ⟨items[i], List.getElem?_eq_getElem inside, .inr empty, fun ahead => ?_⟩
    obtain ⟨item, mem, isAhead⟩ := ahead_alternatives_iff.1 ahead
    have notReady := List.findIdx?_eq_none_iff.1 found item mem
    rw [ready_iff_ahead.2 isAhead] at notReady
    cases notReady

/-- Apt alternatives are not left without a choice. -/
theorem not_apt_of_choose (h : choose plan items s = none) :
    ¬ Apt plan (.alternatives items) s.stream.visible := by
  unfold choose at h
  obtain ⟨noneReady, noneEmpty⟩ := Option.or_eq_none_iff.1 h
  rintro (ahead | empty)
  · obtain ⟨item, mem, isAhead⟩ := ahead_alternatives_iff.1 ahead
    have notReady := List.findIdx?_eq_none_iff.1 noneReady item mem
    rw [ready_iff_ahead.2 isAhead] at notReady
    cases notReady
  · obtain ⟨item, mem, isEmpty⟩ := nullable_alternatives_iff.1 empty
    have notEmpty := List.findIdx?_eq_none_iff.1 noneEmpty item mem
    rw [isEmpty] at notEmpty
    cases notEmpty

end Interpreter

end Workbench
