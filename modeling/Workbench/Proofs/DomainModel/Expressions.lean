import Workbench.Proofs.DomainModel.Writing
import Workbench.Proofs.Parser.Construction

/-!
**Reading default values.**

A sum is read as a chain of products, and a product as a chain of primaries. Each turn of a chain finishes
the operation under construction and makes it the left operand of the next one, so a chain groups to the
left. A term that is held together strong enough is read as one operand, and this is the case if
parentheses stand where they are required. A term in parentheses is read as a sum and taken over as it is.
-/

namespace Workbench.DomainModel

open Interpreter State

/-! ### The tables of the grammar

Evaluated once, so that all that follows is read off. -/

/-- The lookahead of domain models, rule by rule. -/
def lookahead : Lookahead where
  terminals := #[none, none, none, none, none, none, none, none, none, none, none, some .identifier,
    some .number]
  nullableRules := #[true, false, false, false, false, false, false, false, false, false, false, false,
    false]
  firstSets := #[
    ⟨["class", "datatype", "package"], []⟩,
    ⟨["class", "datatype", "package"], []⟩,
    ⟨["package"], []⟩,
    ⟨["class", "datatype"], []⟩,
    ⟨["datatype"], []⟩,
    ⟨["class"], []⟩,
    ⟨["many"], [.identifier]⟩,
    ⟨["("], [.number]⟩,
    ⟨["("], [.number]⟩,
    ⟨["("], [.number]⟩,
    ⟨[], [.identifier]⟩,
    .empty,
    .empty]

theorem lookahead_eq : Lookahead.of grammar = lookahead := by
  obtain ⟨terminals, nullable, first⟩ : (Lookahead.of grammar).terminals = lookahead.terminals ∧
      (Lookahead.of grammar).nullableRules = lookahead.nullableRules ∧
      (Lookahead.of grammar).firstSets = lookahead.firstSets := by decide +kernel
  generalize Lookahead.of grammar = found at terminals nullable first ⊢
  cases found
  cases terminals
  cases nullable
  cases first
  rfl

/-- The properties of domain models, type by type. -/
def propertyTable : Array (List (String × PropertyKind)) := #[
  [("elements", .array)],
  [("name", .value)],
  [("elements", .array), ("name", .value)],
  [("name", .value)],
  [("name", .value)],
  [("superClass", .value), ("members", .array), ("name", .value)],
  [("many", .bool), ("name", .value), ("type", .value), ("default", .value)],
  [],
  [("left", .value), ("op", .value), ("right", .value)],
  [("value", .value)]]

theorem properties_eq : types.properties = propertyTable := by decide +kernel

theorem propertyKind_eq (type : TypeId) (name : String) :
    types.propertyKind type name = (propertyTable[type]?.getD []).lookup name := by
  rw [TypeHierarchy.propertyKind, TypeHierarchy.allProperties, properties_eq]

/-- A property has the value it was given, or else the one with which its type starts. -/
theorem get?_completed {type : TypeId} (declared : type < 10) (p : Properties) (name : String) :
    (withDefaults types type p).get? name =
      (p.get? name).or ((types.propertyKind type name).bind PropertyKind.initial?) := by
  have once : ∀ type < 10, ((types.allProperties type).map Prod.fst).Nodup := by
    simp only [TypeHierarchy.allProperties, properties_eq]
    decide
  exact get?_withDefaults_eq (once type declared) p name

/-! ### The plan of a domain model -/

/-- A plan for reading domain models. -/
structure Fits (plan : Plan) : Prop where
  domain : plan.grammar = grammar
  foresight : plan.lookahead = lookahead

namespace Fits

variable {plan : Plan} {s : State} {rest : List Word}

theorem foresees (fits : Fits plan) : Foresees plan where
  lookahead := by rw [fits.foresight, fits.domain, lookahead_eq]
  apart := by
    rw [fits.domain]
    intro id terminal
    have none : ∀ rule ∈ grammar.rules, rule.kind.terminal? ≠ some .keyword := by decide +kernel
    obtain ⟨rule, known, kind⟩ := Option.bind_eq_some_iff.1 terminal
    exact none rule (Array.mem_of_getElem? known) kind

theorem known (fits : Fits plan) {id : RuleId} {rule : Rule} (listed : rules[id]? = some rule) :
    plan.grammar.rules[id]? = some rule := by
  rw [fits.domain]
  exact listed

theorem hierarchy (fits : Fits plan) : plan.grammar.types = types := by
  rw [fits.domain]
  rfl

theorem isReady (fits : Fits plan) {e : Element} {first : FirstSet}
    (starts : lookahead.first e = first) (ahead : s.ahead = rest) :
    ready plan e s = rest.head?.any first.accepts := by
  rw [ready_eq fits.foresees, fits.foresight, starts, ahead]

end Fits

/-- What starts with keywords only does not start with anything else. -/
theorem not_accepts {texts : List String} {rest : List Word}
    (h : ∀ text ∈ texts, rest.head? ≠ some (keyword text)) :
    rest.head?.any (FirstSet.accepts ⟨texts, []⟩) = false := by
  cases rest with
  | nil => rfl
  | cons word rest =>
    obtain ⟨kind, text⟩ := word
    rw [List.head?_cons, Option.any_some, FirstSet.accepts]
    split
    · next isKeyword =>
      rw [Bool.eq_false_iff]
      intro mem
      exact h text (List.contains_iff_mem.1 mem) (congrArg (fun kind => some (kind, text)) isKeyword)
    · rfl

/-! ### Levels -/

/-- The rule for what is held together at least so strong. -/
def ruleAt : Nat → RuleId
  | 1 => additionRule
  | 2 => multiplicationRule
  | _ => primaryRule

/-- The operators of a precedence. -/
def symbolsAt : Nat → List String
  | 1 => ["+", "-"]
  | _ => ["*", "/"]

/-- What a chain repeats. -/
def link (k : Nat) : Element :=
  .group [
    .action binaryType (some ("left", .set)),
    .assign "op" .set (.alternatives ((symbolsAt k).map .keyword)),
    .assign "right" .set (.call (ruleAt (k + 1)))]

theorem rules_ruleAt (k : Nat) :
    ∃ rule, rules[ruleAt k]? = some rule ∧ rule.kind = .parser (some expressionType) := by
  unfold ruleAt
  split <;> exact ⟨_, rfl, rfl⟩

theorem rules_chain {k : Nat} (chained : k = 1 ∨ k = 2) :
    ∃ name, rules[ruleAt k]? =
      some ⟨name, .parser (some expressionType), chain (ruleAt (k + 1)) (symbolsAt k)⟩ := by
  rcases chained with rfl | rfl <;> exact ⟨_, rfl⟩

theorem first_link {k : Nat} (chained : k = 1 ∨ k = 2) :
    lookahead.first (link k) = ⟨symbolsAt k, []⟩ := by
  rcases chained with rfl | rfl <;> rfl

theorem symbol_mem (op : Operator) : op.symbol ∈ symbolsAt op.precedence := by
  cases op <;> decide

/-- The text of no operator follows that is at least so strong. -/
def Stops (k : Nat) (rest : List Word) : Prop :=
  ∀ op : Operator, k ≤ op.precedence → rest.head? ≠ some (keyword op.symbol)

theorem Stops.mono {k l : Nat} {rest : List Word} (h : Stops k rest) (le : k ≤ l) : Stops l rest :=
  fun op above => h op (Nat.le_trans le above)

theorem stops_operator (op : Operator) (rest : List Word) :
    Stops (op.precedence + 1) (keyword op.symbol :: rest) := by
  intro op' above same
  cases op <;> cases op' <;> simp_all [Operator.precedence, Operator.symbol]

theorem Stops.not_link {k : Nat} {rest : List Word} (h : Stops k rest) (chained : k = 1 ∨ k = 2) :
    rest.head?.any (FirstSet.accepts ⟨symbolsAt k, []⟩) = false := by
  have operators : ∀ text ∈ symbolsAt k, ∃ op : Operator, op.precedence = k ∧ op.symbol = text := by
    rcases chained with rfl | rfl
    · simpa [symbolsAt] using ⟨⟨.add, rfl, rfl⟩, ⟨Operator.sub, rfl, rfl⟩⟩
    · simpa [symbolsAt] using ⟨⟨.mul, rfl, rfl⟩, ⟨Operator.div, rfl, rfl⟩⟩
  refine not_accepts fun text mem => ?_
  obtain ⟨op, precedence, rfl⟩ := operators text mem
  exact h op (Nat.le_of_eq precedence.symm)

/-! ### Reading at a level -/

def Term.value (t : Term) : Expression Float := t.expression.map Numeral.value

theorem Term.words_ne_nil (t : Term) : t.words ≠ [] := by
  cases t <;> simp [words]

theorem Term.three_le_nesting (t : Term) : 3 ≤ t.nesting := by
  induction t with
  | number n => exact Nat.le_refl 3
  | binary op left right ihLeft ihRight => exact Nat.le_trans ihLeft (Nat.le_max_left _ _)
  | parens inner ih => exact Nat.le_add_left 3 _

variable {plan : Plan}

/-- The rule of a level reads the term. -/
def Reads (plan : Plan) (k : Nat) (t : Term) : Prop :=
  ∀ ⦃depth : Nat⦄ ⦃rest : List Word⦄, t.nesting + 1 ≤ depth + k → Stops k rest →
    Gives plan depth (ruleAt k) t.words t.value.meaning rest

/-- The chain of a level has come to the end of the term, which is under construction, and may go on. -/
def Chained (plan : Plan) (k : Nat) (t : Term) : Prop :=
  ∀ ⦃depth : Nat⦄ ⦃base s : State⦄ ⦃rest : List Word⦄ ⦃o : Object⦄,
    t.nesting ≤ depth + k → o.properties = .empty → Along base (t.words ++ rest) (.object o) s →
      Stops (k + 1) rest →
        ∃ fuel u o', u.ahead.length ≤ fuel ∧ Along base rest (.object o') u ∧
          Becomes plan.grammar.types t.value.meaning base u o' ∧
          ∀ v, turns plan (ready plan (link k)) (run plan (Interpreter.invoke plan depth) (link k)) fuel
              u = { state := v } →
            run plan (Interpreter.invoke plan depth) (chain (ruleAt (k + 1)) (symbolsAt k)) s =
              { state := v }

/-- The first operand of a chain is taken over. -/
theorem chained_of_reads (fits : Fits plan) {k : Nat} {t : Term} (reads : Reads plan (k + 1) t) :
    Chained plan k t := by
  intro depth base s rest o deep empty along stops
  obtain ⟨rule, listed, kind⟩ := rules_ruleAt (k + 1)
  have made := @reads depth rest (by omega) stops s none along.ahead
  obtain ⟨u, o', ran, along', becomes⟩ := run_call (fits.known listed) (by rw [kind]; rfl) along empty
    made (Expression.stable_meaning _)
  refine ⟨u.stream.count, u, o', ?_, along', becomes, fun v looped => ?_⟩
  · rw [TokenStream.count_eq_length, State.ahead, List.length_map]
  · exact run_group (runAll_cons ran (runAll_cons (by rw [run, repeated]; exact looped) rfl))

/-- The operator is taken, whichever of its level it is. -/
theorem run_operator (fits : Fits plan) {invoke : Invocation} {base s : State} {rest : List Word}
    {o : Object} (op : Operator) (h : Along base (keyword op.symbol :: rest) (.object o) s) :
    ∃ t, run plan invoke
          (.assign "op" .set (.alternatives ((symbolsAt op.precedence).map .keyword))) s =
        { state := t } ∧
      Along base rest (.object { o with properties := o.properties.set "op" (.text op.symbol) }) t ∧
      t.arena = s.arena := by
  obtain ⟨t, ran, along, same⟩ : ∃ t, runAssigned plan invoke "op" .set (.keyword op.symbol) s =
      { state := t } ∧ Along base rest _ t ∧ t.arena = s.arena := run_assign_keyword h "op" .set
  refine ⟨t, ?_, along, same⟩
  have ready : ∀ text, ready plan (.keyword text) s =
      (FirstSet.ofKeyword text).accepts (keyword op.symbol) := by
    intro text
    rw [fits.isReady rfl h.ahead]
    rfl
  rw [run, ← ran]
  cases op with
  | add | mul => exact runAssigned_first (by rw [ready]; decide)
  | sub | div => exact runAssigned_second (by rw [ready]; decide) (by rw [ready]; decide)

/-- An operation is finished by its right operand. -/
theorem becomes_binary (fits : Fits plan) {base u : State} {op : Operator} {left right : Expression Float}
    {i j : NodeId} (atLeft : left.meaning.At u.arena i) (atRight : right.meaning.At u.arena j) :
    Becomes plan.grammar.types (Expression.binary op left right).meaning base u {
      type := some binaryType
      retagged := true
      properties :=
        ((Properties.empty.set "left" (.node i)).set "op" (.text op.symbol)).set "right" (.node j) } := by
  refine ⟨nofun, binaryType, rfl, rfl, ?_, ⟨i, atLeft.lt_size, ?_, atLeft⟩,
    ⟨j, atRight.lt_size, ?_, atRight⟩⟩
  all_goals
    rw [fits.hierarchy, get?_completed (by decide)]
    simp

theorem run_link (fits : Fits plan) {op : Operator} {left : Expression Float} {t : Term} {depth : Nat}
    {base s : State} {rest : List Word} {o : Object} (reads : Reads plan (op.precedence + 1) t)
    (deep : t.nesting ≤ depth + op.precedence)
    (h : Along base (keyword op.symbol :: (t.words ++ rest)) (.object o) s)
    (becomes : Becomes plan.grammar.types left.meaning base s o)
    (stops : Stops (op.precedence + 1) rest) :
    ∃ u o', run plan (Interpreter.invoke plan depth) (link op.precedence) s = { state := u } ∧
      Along base rest (.object o') u ∧
      Becomes plan.grammar.types (Expression.binary op left t.value).meaning base u o' := by
  obtain ⟨rule, listed, kind⟩ := rules_ruleAt (op.precedence + 1)
  obtain ⟨s₁, i, wrapped, along₁, atLeft⟩ :=
    run_wrap h becomes left.stable_meaning binaryType "left" .set
  obtain ⟨s₂, took, along₂, same₂⟩ := run_operator fits op along₁
  have made := @reads depth rest (by omega) stops s₂ (some "right") along₂.ahead
  obtain ⟨s₃, j, ran, along₃, grows₃, atRight⟩ :=
    run_assign_call (fits.known listed) (by rw [kind]; rfl) along₂ made .set
  refine ⟨s₃, _, run_group (runAll_cons wrapped (runAll_cons took (runAll_cons ran rfl))), along₃, ?_⟩
  rw [← same₂] at atLeft
  have kept := atLeft.agrees left.stable_meaning grows₃.agrees atLeft.lt_size
  exact becomes_binary fits kept atRight

/-- A chain goes on to the next operand. -/
theorem chained_binary (fits : Fits plan) {op : Operator} {left right : Term}
    (first : Chained plan op.precedence left) (second : Reads plan (op.precedence + 1) right) :
    Chained plan op.precedence (.binary op left right) := by
  intro depth base s rest o deep empty along stops
  have chained : op.precedence = 1 ∨ op.precedence = 2 := by cases op <;> decide
  rw [Term.nesting, Nat.max_le] at deep
  rw [Term.words, List.append_assoc, List.cons_append] at along
  obtain ⟨fuel, u, o', enough, along', becomes, goesOn⟩ :=
    first deep.1 empty along (stops_operator op _)
  obtain ⟨v, o'', ran, along'', becomes'⟩ := run_link fits second deep.2 along' becomes stops
  have starts : ready plan (link op.precedence) u = true := by
    rw [fits.isReady (first_link chained) along'.ahead]
    exact List.contains_iff_mem.2 (symbol_mem op)
  have progress : v.ahead.length < u.ahead.length := by
    rw [along''.ahead, along'.ahead, List.length_cons, List.length_append]
    omega
  -- the chain of the left operand had a turn to spare, which takes the operator and the right operand
  obtain ⟨less, rfl⟩ : ∃ less, fuel = less + 1 := ⟨fuel - 1, by omega⟩
  refine ⟨less, v, o'', by omega, along'', becomes', fun w looped => goesOn w ?_⟩
  rw [turns_succ starts ran progress]
  exact looped

/-- A chain ends in front of anything but its operators. -/
theorem reads_of_chained (fits : Fits plan) {k : Nat} {t : Term} (level : k = 1 ∨ k = 2)
    (chained : Chained plan k t) : Reads plan k t := by
  intro depth rest deep stops
  obtain ⟨name, listed⟩ := rules_chain level
  obtain ⟨depth, rfl⟩ : ∃ less, depth = less + 1 := by
    have := t.three_le_nesting
    exact ⟨depth - 1, by omega⟩
  refine gives_of_run (fits.known listed) (Expression.stable_meaning _) t.words_ne_nil
    fun base s entered => ?_
  obtain ⟨fuel, u, o, -, along, becomes, goesOn⟩ :=
    @chained depth _ _ rest _ (by omega) rfl entered (stops.mono (Nat.le_succ k))
  have ended : ready plan (link k) u = false := by
    rw [fits.isReady (first_link level) along.ahead]
    exact stops.not_link level
  exact ⟨u, o, goesOn u (turns_stop fuel ended), along, becomes⟩

/-! ### Primaries -/

def bracketed : Element := .group [.keyword "(", .call additionRule, .keyword ")"]

def literal : Element :=
  .group [.action numberLiteralType none, .assign "value" .set (.call numberRule)]

theorem rules_primary : rules[ruleAt 3]? =
    some ⟨"Primary", .parser (some expressionType), .alternatives [bracketed, literal]⟩ :=
  rfl

theorem rules_number :
    rules[numberRule]? = some ⟨"NUMBER", .terminal .number .number, .group []⟩ :=
  rfl

theorem first_bracketed : lookahead.first bracketed = ⟨["("], []⟩ := rfl

theorem first_literal : lookahead.first literal = ⟨[], [.number]⟩ := rfl

theorem becomes_number (fits : Fits plan) {base u : State} (x : Float) :
    Becomes plan.grammar.types (Expression.number x).meaning base u {
      type := some numberLiteralType
      retagged := true
      properties := Properties.empty.set "value" (.number x) } := by
  refine ⟨nofun, numberLiteralType, rfl, rfl, ?_⟩
  rw [fits.hierarchy, get?_completed (by decide)]
  simp

theorem reads_number (fits : Fits plan) (n : Numeral) : Reads plan 3 (.number n) := by
  intro depth rest deep stops
  rw [Term.nesting] at deep
  obtain ⟨depth, rfl⟩ : ∃ less, depth = less + 1 := ⟨depth - 1, by omega⟩
  refine gives_of_run (fits.known rules_primary) (Expression.stable_meaning _) (Term.words_ne_nil _)
    fun base s entered => ?_
  obtain ⟨s₁, tagged, along₁, -⟩ := run_retag entered rfl numberLiteralType
  obtain ⟨s₂, ran, along₂, -⟩ :=
    run_assign_token (fits.known rules_number) rfl along₁ "value" .set
  rw [n.convert_image] at along₂
  refine ⟨s₂, _, ?_, along₂, becomes_number fits n.value⟩
  rw [run_second (fits.isReady first_bracketed entered.ahead) (fits.isReady first_literal entered.ahead)]
  exact run_group (runAll_cons tagged (runAll_cons ran rfl))

/-- Parentheses leave no trace. -/
theorem reads_parens (fits : Fits plan) {t : Term} (reads : Reads plan 1 t) :
    Reads plan 3 (.parens t) := by
  intro depth rest deep stops
  rw [Term.nesting] at deep
  obtain ⟨depth, rfl⟩ : ∃ less, depth = less + 1 := ⟨depth - 1, by omega⟩
  obtain ⟨name, listed⟩ := rules_chain (.inl rfl)
  have closing : Stops 1 (keyword ")" :: rest) := by
    intro op _ same
    cases op <;> simp [Operator.symbol] at same
  refine gives_of_run (fits.known rules_primary) (Expression.stable_meaning _) (Term.words_ne_nil _)
    fun base s entered => ?_
  rw [Term.words, List.append_assoc, List.cons_append] at entered
  obtain ⟨s₁, opened, along₁, -⟩ := run_keyword entered
  have made := @reads depth _ (by omega) closing s₁ none along₁.ahead
  obtain ⟨s₂, o, ran, along₂, becomes⟩ := run_call (fits.known listed) rfl along₁ rfl made
    (Expression.stable_meaning _)
  obtain ⟨s₃, closed, along₃, same₃⟩ := run_keyword along₂
  refine ⟨s₃, o, ?_, along₃, becomes.of_arena same₃⟩
  rw [run_first (fits.isReady first_bracketed entered.ahead)]
  exact run_group (runAll_cons opened (runAll_cons ran (runAll_cons closed rfl)))

/-! ### Terms -/

/-- A term is read wherever it is held together strong enough. -/
structure Readable (plan : Plan) (t : Term) : Prop where
  primary : 3 ≤ t.precedence → Reads plan 3 t
  product : 2 ≤ t.precedence → Chained plan 2 t
  sum : Chained plan 1 t

/-- A product is a sum of one operand. -/
theorem chained_sum (fits : Fits plan) {t : Term} (product : Chained plan 2 t) : Chained plan 1 t :=
  chained_of_reads fits (reads_of_chained fits (.inr rfl) product)

theorem readable_primary (fits : Fits plan) {t : Term} (reads : Reads plan 3 t) : Readable plan t :=
  have product := chained_of_reads fits reads
  ⟨fun _ => reads, fun _ => product, chained_sum fits product⟩

theorem readable_binary (fits : Fits plan) {op : Operator} {left right : Term}
    (first : Readable plan left) (second : Readable plan right) (weak : op.precedence ≤ left.precedence)
    (strong : op.precedence < right.precedence) : Readable plan (.binary op left right) := by
  have operation := @chained_binary plan fits op left right
  have level : op.precedence = 1 ∨ op.precedence = 2 := by cases op <;> decide
  have precedence : (Term.binary op left right).precedence = op.precedence := rfl
  rcases level with isSum | isProduct
  -- the operands of a sum are products, and those of a product primaries
  · rw [isSum] at operation strong
    have sum := operation first.sum (reads_of_chained fits (.inr rfl) (second.product strong))
    exact ⟨fun le => by omega, fun le => by omega, sum⟩
  · rw [isProduct] at operation weak strong
    have product := operation (first.product weak) (second.primary strong)
    exact ⟨fun le => by omega, fun _ => product, chained_sum fits product⟩

theorem readable_of_bracketed (fits : Fits plan) {t : Term} (h : t.Bracketed) : Readable plan t := by
  induction t with
  | number n => exact readable_primary fits (reads_number fits n)
  | parens inner ih =>
    exact readable_primary fits (reads_parens fits (reads_of_chained fits (.inl rfl) (ih h).sum))
  | binary op left right ihLeft ihRight =>
    obtain ⟨weak, strong, isLeft, isRight⟩ := h
    exact readable_binary fits (ihLeft isLeft) (ihRight isRight) weak strong

/-- **A term with its parentheses is read as what it says.** -/
theorem reads_of_bracketed (fits : Fits plan) {t : Term} (h : t.Bracketed) : Reads plan 1 t :=
  reads_of_chained fits (.inl rfl) (readable_of_bracketed fits h).sum

end Workbench.DomainModel
