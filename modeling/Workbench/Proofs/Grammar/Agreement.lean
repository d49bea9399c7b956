import Workbench.Proofs.Grammar.LeftRecursion

/-!
**Two ways of looking ahead.**

Whether a token can start an element is decided in two ways: by walking the element, which asks the rule
tables at a call, or by collecting the FIRST set of the element and looking the token up. A terminal rule
may match tokens of any kind. If it matches keywords, then the walk goes on with every keyword token, and
the set has the kind of keywords as a member; but a keyword token is looked up by its text, so the member
is never found.

The two ways agree on every other token, and on keywords wherever the element itself has no such terminal
rule in leftmost position. At a call of a parser or data-type rule the walk looks the token up in the set of
the rule's body, so there it gives the answer of the set.
-/

namespace Workbench

open Grammar

/-- The symbol under which a FIRST set has a token. -/
def Token.symbol (t : Token) : Symbol :=
  if t.kind = .keyword then .keyword t.image else .kind t.kind

theorem FirstSet.contains_iff_has {s : FirstSet} {t : Token} :
    s.contains t = true ↔ s.Has t.symbol := by
  unfold contains Token.symbol
  split <;> simp [Has]

namespace Grammar

/-- A terminal rule that matches keywords is called in leftmost position of the element itself, not of a
rule that the element calls. -/
inductive TakesKeywords (g : Grammar) : Element → Prop where
  | token {e : Element} {id : RuleId} (calls : e.callee? = some id)
    (terminal : g.terminal? id = some .keyword) : TakesKeywords g e
  | assign {feature : String} {op : AssignOp} {value : Element} (inside : TakesKeywords g value) :
    TakesKeywords g (.assign feature op value)
  | head {item : Element} {rest : List Element} (inside : TakesKeywords g item) :
    TakesKeywords g (.group (item :: rest))
  | tail {item : Element} {rest : List Element} (empty : g.Generates item [])
    (inside : TakesKeywords g (.group rest)) : TakesKeywords g (.group (item :: rest))
  | alternative {items : List Element} {item : Element} (mem : item ∈ items)
    (inside : TakesKeywords g item) : TakesKeywords g (.alternatives items)
  | repetition {cardinality : Cardinality} {item : Element} (inside : TakesKeywords g item) :
    TakesKeywords g (.repetition cardinality item)

variable {g : Grammar} {e body item : Element} {rest items : List Element} {id : RuleId} {x : Symbol}

theorem TakesKeywords.exists_terminal (h : g.TakesKeywords e) :
    ∃ id, g.terminal? id = some .keyword := by
  induction h with
  | token _ terminal => exact ⟨_, terminal⟩
  | assign _ ih | head _ ih | tail _ _ ih | alternative _ _ ih | repetition _ ih => exact ih

/-! ### Inversion -/

theorem starts_callee_iff (calls : e.callee? = some id) (known : g.body? id = some body) :
    g.Starts e x ↔ g.Starts body x := by
  constructor
  · intro h
    cases h with
    | token calls' terminal =>
      obtain rfl : _ = id := Option.some.inj (calls'.symm.trans calls)
      rw [Lookahead.terminal?_of_body? known] at terminal
      cases terminal
    | rule calls' known' inside =>
      obtain rfl : _ = id := Option.some.inj (calls'.symm.trans calls)
      obtain rfl : _ = body := Option.some.inj (known'.symm.trans known)
      exact inside
    | _ => cases calls
  · exact .rule calls known

theorem not_takesKeywords_callee (calls : e.callee? = some id) (nonterminal : g.terminal? id = none) :
    ¬ g.TakesKeywords e := by
  intro h
  cases h with
  | token calls' terminal =>
    obtain rfl : _ = id := Option.some.inj (calls'.symm.trans calls)
    rw [nonterminal] at terminal
    cases terminal
  | _ => cases calls

theorem takesKeywords_assign {feature : String} {op : AssignOp} :
    g.TakesKeywords (.assign feature op e) ↔ g.TakesKeywords e := by
  constructor
  · intro h
    cases h with
    | assign inside => exact inside
    | token calls => cases calls
  · exact .assign

theorem takesKeywords_cons :
    g.TakesKeywords (.group (item :: rest)) ↔
      g.TakesKeywords item ∨ g.Generates item [] ∧ g.TakesKeywords (.group rest) := by
  constructor
  · intro h
    cases h with
    | head inside => exact .inl inside
    | tail empty inside => exact .inr ⟨empty, inside⟩
    | token calls => cases calls
  · rintro (inside | ⟨empty, inside⟩)
    · exact .head inside
    · exact .tail empty inside

theorem takesKeywords_alternatives :
    g.TakesKeywords (.alternatives items) ↔ ∃ item ∈ items, g.TakesKeywords item := by
  constructor
  · intro h
    cases h with
    | alternative mem inside => exact ⟨_, mem, inside⟩
    | token calls => cases calls
  · rintro ⟨item, mem, inside⟩
    exact .alternative mem inside

theorem takesKeywords_repetition {cardinality : Cardinality} :
    g.TakesKeywords (.repetition cardinality item) ↔ g.TakesKeywords item := by
  constructor
  · intro h
    cases h with
    | repetition inside => exact inside
    | token calls => cases calls
  · exact .repetition

end Grammar

/-! ### The walk and the set -/

namespace Element

variable {g : Grammar} {N : RuleId → Bool} {P : RuleId → Token → Bool} {F : RuleId → FirstSet}
  {t : Token}

-- The walk stops at the first item that cannot be empty, and so does the collecting of the set. Hence
-- both follow the same items, and all that can differ is the answer at a call.

mutual

theorem predicts_iff_has (empty : ∀ e : Element, e.nullable N = true ↔ g.Generates e [])
    (calls : ∀ e id, e.callee? = some id →
      (P id t = true ↔ (F id).Has t.symbol ∨ t.kind = .keyword ∧ g.TakesKeywords e)) :
    ∀ e : Element, e.predicts N P t = true ↔
      (e.first N F).Has t.symbol ∨ t.kind = .keyword ∧ g.TakesKeywords e
  | .keyword text => by
    have never : ¬ g.TakesKeywords (.keyword text) := by
      rintro ⟨calls⟩
      cases calls
    rw [predicts, first, FirstSet.has_ofKeyword, Token.symbol, Token.isKeyword]
    by_cases isKeyword : t.kind = .keyword <;> simp [isKeyword, never]
  | .call id => by
    rw [predicts, first]
    exact calls _ id rfl
  | .crossRef _ id => by
    rw [predicts, first]
    exact calls _ id rfl
  | .assign _ _ value => by
    rw [predicts, first, takesKeywords_assign]
    exact predicts_iff_has empty calls value
  | .action type into => by
    have never : ¬ g.TakesKeywords (.action type into) := by
      rintro ⟨calls⟩
      cases calls
    simp [predicts, first, never]
  | .group items => by
    rw [predicts, first]
    exact predictsGroup_iff_has empty calls items
  | .alternatives items => by
    rw [predicts, first, takesKeywords_alternatives]
    exact predictsAny_iff_has empty calls items
  | .repetition _ item => by
    rw [predicts, first, takesKeywords_repetition]
    exact predicts_iff_has empty calls item

theorem predictsGroup_iff_has (empty : ∀ e : Element, e.nullable N = true ↔ g.Generates e [])
    (calls : ∀ e id, e.callee? = some id →
      (P id t = true ↔ (F id).Has t.symbol ∨ t.kind = .keyword ∧ g.TakesKeywords e)) :
    ∀ items : List Element, predictsGroup N P t items = true ↔
      (firstOfGroup N F items).Has t.symbol ∨ t.kind = .keyword ∧ g.TakesKeywords (.group items)
  | [] => by
    have never : ¬ g.TakesKeywords (.group []) := by
      rintro ⟨calls⟩
      cases calls
    simp [predictsGroup, firstOfGroup, never]
  | item :: rest => by
    have head := predicts_iff_has empty calls item
    have tail := predictsGroup_iff_has empty calls rest
    have canBeEmpty := empty item
    rw [predictsGroup, firstOfGroup, takesKeywords_cons, ← canBeEmpty, Bool.or_eq_true,
      Bool.and_eq_true, head, tail]
    split
    · next isEmpty =>
      simp only [isEmpty, true_and, FirstSet.has_union, and_or_left]
      exact or_or_or_comm
    · next notEmpty => simp only [notEmpty, Bool.false_eq_true, false_and, or_false]

theorem predictsAny_iff_has (empty : ∀ e : Element, e.nullable N = true ↔ g.Generates e [])
    (calls : ∀ e id, e.callee? = some id →
      (P id t = true ↔ (F id).Has t.symbol ∨ t.kind = .keyword ∧ g.TakesKeywords e)) :
    ∀ items : List Element, predictsAny N P t items = true ↔
      (firstOfAny N F items).Has t.symbol ∨
        t.kind = .keyword ∧ ∃ item ∈ items, g.TakesKeywords item
  | [] => by simp [predictsAny, firstOfAny]
  | item :: rest => by
    have head := predicts_iff_has empty calls item
    have tail := predictsAny_iff_has empty calls rest
    rw [predictsAny, firstOfAny, FirstSet.has_union, Bool.or_eq_true, head, tail]
    simp only [List.mem_cons, exists_eq_or_imp, and_or_left]
    exact or_or_or_comm

end

end Element

namespace Lookahead

variable {g : Grammar} {e body : Element} {id : RuleId} {t : Token}

/-- At a call of a terminal rule for keywords the walk goes on where the set has nothing. -/
theorem callPredicts_iff (calls : e.callee? = some id) :
    (of g).callPredicts id t = true ↔
      ((of g).callFirst id).Has t.symbol ∨ t.kind = .keyword ∧ g.TakesKeywords e := by
  have same : (of g).terminal? id = g.terminal? id := terminal?_stage g g.rules.size id
  rw [callPredicts, callFirst, same]
  cases terminal : g.terminal? id with
  | none =>
    have never := not_takesKeywords_callee calls terminal
    simp [never, FirstSet.contains_iff_has]
  | some kind =>
    have takes : g.TakesKeywords e ↔ kind = .keyword := by
      constructor
      · intro h
        cases h with
        | token calls' terminal' =>
          obtain rfl : _ = id := Option.some.inj (calls'.symm.trans calls)
          exact Option.some.inj (terminal.symm.trans terminal')
        | _ => cases calls
      · rintro rfl
        exact .token calls terminal
    dsimp only
    rw [FirstSet.has_ofKind, takes, Token.symbol, beq_iff_eq]
    split
    · next isKeyword => simp [isKeyword, eq_comm]
    · next other => simp [other, eq_comm]

theorem predicts_iff_has (g : Grammar) (e : Element) (t : Token) :
    (of g).predicts e t = true ↔
      ((of g).first e).Has t.symbol ∨ t.kind = .keyword ∧ g.TakesKeywords e :=
  Element.predicts_iff_has (nullable_iff g) (fun _ _ => callPredicts_iff) e

/-- A token that is predicted at a call is predicted by the body of the rule. -/
theorem predicts_body (calls : e.callee? = some id) (known : g.body? id = some body)
    (h : (of g).predicts e t = true) : (of g).predicts body t = true := by
  have never := not_takesKeywords_callee calls (terminal?_of_body? known)
  rw [predicts_iff_has, first_has_iff, starts_callee_iff calls known] at h
  rw [predicts_iff_has, first_has_iff]
  exact h.imp_right fun takes => absurd takes.2 never

/-- **Where the two ways agree.** An element goes on with a token exactly if the token is in its FIRST set,
or the token is a keyword and a terminal rule for keywords stands in leftmost position of the element. So the
two ways agree in a grammar without terminal rules for keywords. A call of a parser or data-type rule goes on
with the tokens of the FIRST set of the body, so it agrees with the body wherever the two ways agree on the
body. -/
theorem predicts_iff_contains (g : Grammar) (e : Element) (t : Token) :
    ((of g).predicts e t = true ↔
      ((of g).first e).contains t = true ∨ t.kind = .keyword ∧ g.TakesKeywords e) ∧
    ((∀ id, g.terminal? id ≠ some .keyword) → (of g).predicts e t = ((of g).first e).contains t) ∧
    ∀ id body, e.callee? = some id → g.body? id = some body →
      (of g).predicts e t = ((of g).first body).contains t ∧
      ((of g).predicts body t = true ↔
        (of g).predicts e t = true ∨ t.kind = .keyword ∧ g.TakesKeywords body) := by
  have walk : ∀ e, (of g).predicts e t = true ↔
      ((of g).first e).contains t = true ∨ t.kind = .keyword ∧ g.TakesKeywords e := by
    intro e
    rw [predicts_iff_has, FirstSet.contains_iff_has]
  refine ⟨walk e, fun apart => ?_, fun id body calls known => ?_⟩
  · have never : ¬ g.TakesKeywords e := by
      intro takes
      obtain ⟨id, terminal⟩ := takes.exists_terminal
      exact apart id terminal
    rw [Bool.eq_iff_iff, walk]
    simp [never]
  · have never := not_takesKeywords_callee calls (terminal?_of_body? known)
    have set : (of g).predicts e t = ((of g).first body).contains t := by
      rw [Bool.eq_iff_iff, walk, FirstSet.contains_iff_has, FirstSet.contains_iff_has, first_has_iff,
        first_has_iff, starts_callee_iff calls known]
      simp [never]
    refine ⟨set, ?_⟩
    rw [set]
    exact walk body

/-- The body of a rule for a single word that may be any keyword. -/
def wordBody : Element := .assign "text" .set (.call 2)

/-- Rules for a model that holds such a word. -/
def wordRules : Array Rule := #[
  ⟨"Model", .parser (some DomainModel.modelType), .assign "word" .set (.call 1)⟩,
  ⟨"Word", .parser (some DomainModel.modelType), wordBody⟩,
  ⟨"KEYWORD", .terminal .keyword .text, .group []⟩]

/-- The grammar of these rules. -/
def wordGrammar : Grammar where
  name := "Words"
  types := DomainModel.types
  rules := wordRules
  entry := 0
  entryRule := ⟨"Model", .parser (some DomainModel.modelType), .assign "word" .set (.call 1)⟩
  entryType := DomainModel.modelType
  entry_eq := rfl
  entry_kind := rfl
  faultless := by decide +kernel

/-- A keyword. -/
def ifToken : Token := ⟨.keyword, "if", 0⟩

/-- The word can be a keyword: the walk goes on with it, while the FIRST set, which has the kind of keywords,
does not contain it. So a call of the rule does not go on with what its body goes on with. -/
theorem predicts_wordBody :
    wordGrammar.body? 1 = some wordBody ∧
    (of wordGrammar).predicts wordBody ifToken = true ∧
    ((of wordGrammar).first wordBody).contains ifToken = false ∧
    ((of wordGrammar).first wordBody).kinds = [.keyword] ∧
    wordGrammar.TakesKeywords wordBody ∧
    (of wordGrammar).predicts (.call 1) ifToken = false := by
  have known : wordGrammar.body? 1 = some wordBody := by rfl
  have walked : (of wordGrammar).predicts wordBody ifToken = true := by decide +kernel
  have missed : ((of wordGrammar).first wordBody).contains ifToken = false := by decide +kernel
  have takes : wordGrammar.TakesKeywords wordBody := by
    rcases (predicts_iff_contains wordGrammar wordBody ifToken).1.1 walked with found | ⟨-, takes⟩
    · rw [missed] at found
      cases found
    · exact takes
  have called := ((predicts_iff_contains wordGrammar (.call 1) ifToken).2.2 1 wordBody rfl known).1
  exact ⟨known, walked, missed, by decide +kernel, takes, called.trans missed⟩

end Lookahead

end Workbench
