import Workbench.Proofs.DomainModel.Drawing
import Workbench.Proofs.DomainModel.Spelling
import Workbench.Proofs.Parser.Ahead

/-!
**Rules give whole nodes.**

Each rule of a domain model leaves nothing behind or a whole node of a type that the rule is for, whatever
tokens come and at whatever depth the nesting ends. The rules for elements and types take over the node of the
rule that they stand for, and so does a primary in parentheses. A document goes on with its entry rule until
the input is used up, and all that time its object is a draft of a model.
-/

namespace Workbench.DomainModel

open Arena State Interpreter SourceTree

variable {plan : Plan} {invoke : Invocation} {outer : Loose} {s : State} {P Q : State → Prop}

/-! ### Bodies of rules -/

/-- What the body of a rule for nodes of some types does to a fresh frame. -/
def Fulfils (plan : Plan) (invoke : Invocation) (returns : Option TypeId) (body : Element)
    (types : List TypeId) : Prop :=
  ∀ outer s, Intact plan outer s → Blank returns s → s.frame.children = #[] →
    Carries plan outer s (runReported plan invoke body s) ∧ Done types (runReported plan invoke body s)

theorem reported_of_draws {body : Element} (h : Draws plan P (run plan invoke body) Q)
    (intact : Intact plan outer s) (holds : P s) :
    Carries plan outer s (runReported plan invoke body s) ∧ Q (runReported plan invoke body s) := by
  obtain ⟨steady, carries, holds'⟩ := h outer s intact holds
  unfold runReported
  dsimp only
  rw [steady]
  exact ⟨carries, holds'⟩

/-- A body that turns a blank object into a complete draft. -/
theorem fulfils_of_draws {type : TypeId} {body : Element} (pending present : List String)
    {types : List TypeId} (mem : type ∈ types) (needed : needs type ⊆ present)
    (h : Draws plan (Draft type pending []) (run plan invoke body) (Draft type [] present)) :
    Fulfils plan invoke (some type) body types := by
  intro outer s intact blank _
  obtain ⟨carries, draft⟩ := reported_of_draws h intact (blank.draft pending)
  exact ⟨carries, .inr ⟨type, mem, draft.weaken needed⟩⟩

theorem runNth_of_getElem? {items : List Element} {i : Nat} {item : Element}
    (found : items[i]? = some item) : runNth plan invoke items i s = run plan invoke item s := by
  induction items generalizing i with
  | nil => cases found
  | cons first rest ih =>
    cases i with
    | zero =>
      cases found
      rw [runNth]
    | succ i =>
      rw [runNth]
      exact ih found

/-- Alternatives of which none can match nothing: one is run that is ready, or none at all. -/
theorem fulfils_alternatives {type : Option TypeId} {items : List Element} {types : List TypeId}
    (solid : ∀ item ∈ items, plan.lookahead.nullable item = false)
    (each : ∀ item ∈ items, Draws plan (fun s => (Blank type s ∧ s.frame.children = #[]) ∧
      ready plan item s = true) (run plan invoke item) (Done types)) :
    Fulfils plan invoke type (.alternatives items) types := by
  intro outer s intact blank empty
  unfold runReported
  rw [run]
  cases chosen : choose plan items s with
  | none =>
    have report := intact.report (plan.lookahead.first (.alternatives items))
    have frame : (s.report plan (plan.lookahead.first (.alternatives items))).frame = s.frame :=
      frame_report (plan.lookahead.first (.alternatives items))
    have content : (s.report plan (plan.lookahead.first (.alternatives items))).frame.content =
        .object { type } := by rw [frame, blank.content]
    refine ⟨⟨report, ?_⟩, .inl ⟨by rw [frame, empty], _, content, rfl, rfl⟩⟩
    exact (Calm.of_takes (Takes.raise plan s _)).grows
  | some i =>
    obtain ⟨item, found, apt, -⟩ := apt_of_choose chosen
    have mem := List.mem_of_getElem? found
    have starts : ready plan item s = true := by
      rw [ready_iff_ahead]
      exact apt.resolve_right (by simp [solid item mem])
    obtain ⟨steady, carries, done⟩ := each item mem outer s intact ⟨⟨blank, empty⟩, starts⟩
    dsimp only
    rw [runNth_of_getElem? found, steady]
    exact ⟨carries, done⟩

/-! ### The rules -/

/-- What the invocations of a domain model hand over. -/
structure Supply (plan : Plan) (invoke : Invocation) : Prop where
  element : Supplied plan invoke elementRule elementTypes
  package : Supplied plan invoke packageRule [packageType]
  type : Supplied plan invoke typeRule [dataTypeType, classType]
  dataType : Supplied plan invoke dataTypeRule [dataTypeType]
  class' : Supplied plan invoke classRule [classType]
  property : Supplied plan invoke propertyRule [propertyType]
  expression : ∀ k, Supplied plan invoke (ruleAt k) expressionTypes
  words : Words plan invoke

section Bodies

variable (fits : Fits plan) (supply : Supply plan invoke)

include fits in
/-- A rule that stands for another takes over the node of that rule. -/
theorem draws_delegate {id : RuleId} {types all : List TypeId} (supplied : Supplied plan invoke id types)
    (sub : types ⊆ all) :
    Draws plan (fun s => (Blank none s ∧ s.frame.children = #[]) ∧ ready plan (.call id) s = true)
      (run plan invoke (.call id)) (Done all) := by
  refine (draws_adopt fits supplied fun f => f.children = #[]).weaken (fun s holds => holds.1) fun s drawn => ?_
  rcases drawn with ⟨blank, empty⟩ | ⟨type, mem, draft⟩
  · exact .inl ⟨empty, _, blank.content, rfl, rfl⟩
  · exact .inr ⟨type, sub mem, draft⟩

include fits in
/-- So does a rule that stands for one of two others. -/
theorem fulfils_either {id id' : RuleId} {types types' all : List TypeId}
    (first : Supplied plan invoke id types) (second : Supplied plan invoke id' types') (sub : types ⊆ all)
    (sub' : types' ⊆ all)
    (solid : ∀ item ∈ [Element.call id, .call id'], lookahead.nullable item = false) :
    Fulfils plan invoke none (.alternatives [.call id, .call id']) all := by
  refine fulfils_alternatives ?_ fun item mem => ?_
  · rwa [fits.foresight]
  · rcases List.mem_cons.1 mem with rfl | mem
    · exact draws_delegate fits first sub
    · obtain rfl := List.mem_singleton.1 mem
      exact draws_delegate fits second sub'

include fits supply in
theorem fulfils_element :
    Fulfils plan invoke none (.alternatives [.call packageRule, .call typeRule]) elementTypes :=
  fulfils_either fits supply.package supply.type (by decide) (by decide) (by decide)

include fits supply in
theorem fulfils_type :
    Fulfils plan invoke none (.alternatives [.call dataTypeRule, .call classRule])
      [dataTypeType, classType] :=
  fulfils_either fits supply.dataType supply.class' (by decide) (by decide) (by decide)

include fits supply in
theorem fulfils_package :
    Fulfils plan invoke (some packageType) (.group [
      .keyword "package",
      .assign "name" .set (.call qualifiedNameRule),
      .keyword "\x7b",
      .repetition .zeroOrMore (.assign "elements" .append (.call elementRule)),
      .keyword "\x7d"]) [packageType] := by
  refine fulfils_of_draws ["name"] [] (by decide) (by decide) ?_
  refine draws_group ?_
  refine draws_cons (draws_keyword lasting_draft _) ?_
  refine draws_cons (draws_path fits supply.words nofun rfl) ?_
  refine draws_cons (draws_keyword lasting_draft _) ?_
  refine draws_cons (draws_nodes fits supply.element nofun rfl) ?_
  exact draws_cons (draws_keyword lasting_draft _) draws_nil

include fits in
theorem fulfils_dataType :
    Fulfils plan invoke (some dataTypeType) (.group [
      .keyword "datatype",
      .assign "name" .set (.call nameRule)]) [dataTypeType] := by
  refine fulfils_of_draws ["name"] [] (by decide) (by decide) ?_
  refine draws_group ?_
  refine draws_cons (draws_keyword lasting_draft _) ?_
  exact draws_cons (draws_name fits nofun rfl) draws_nil

include fits supply in
theorem fulfils_class :
    Fulfils plan invoke (some classType) (.group [
      .keyword "class",
      .assign "name" .set (.call nameRule),
      .repetition .optional (.group [
        .keyword "extends",
        .assign "superClass" .set (.crossRef classType qualifiedNameRule)]),
      .keyword "\x7b",
      .repetition .zeroOrMore (.assign "members" .append (.call propertyRule)),
      .keyword "\x7d"]) [classType] := by
  have extends' : Draws plan (Draft classType ["superClass"] [])
      (run plan invoke (.group [
        .keyword "extends",
        .assign "superClass" .set (.crossRef classType qualifiedNameRule)]))
      (Draft classType [] []) := by
    refine draws_group ?_
    refine draws_cons (draws_keyword lasting_draft _) ?_
    exact draws_cons (draws_reference fits supply.words nofun rfl) draws_nil
  refine fulfils_of_draws ["name", "superClass"] [] (by decide) (by decide) ?_
  refine draws_group ?_
  refine draws_cons (draws_keyword lasting_draft _) ?_
  refine draws_cons (draws_name fits (by decide) rfl) ?_
  refine draws_cons (draws_optional (extends'.weaken (fun s holds => holds.1) fun s => id)
    fun s => Draft.forget) ?_
  refine draws_cons (draws_keyword lasting_draft _) ?_
  refine draws_cons (draws_nodes fits supply.property nofun rfl) ?_
  exact draws_cons (draws_keyword lasting_draft _) draws_nil

include fits supply in
theorem fulfils_property :
    Fulfils plan invoke (some propertyType) (.group [
      .repetition .optional (.assign "many" .flag (.keyword "many")),
      .assign "name" .set (.call nameRule),
      .keyword ":",
      .assign "type" .set (.crossRef typeType qualifiedNameRule),
      .repetition .optional (.group [
        .keyword "=",
        .assign "default" .set (.call additionRule)])]) [propertyType] := by
  have many : Draws plan (Draft propertyType ["many", "name", "type", "default"] [])
      (run plan invoke (.assign "many" .flag (.keyword "many")))
      (Draft propertyType ["name", "type", "default"] []) := draws_flag "many" (by decide) rfl
  have default : Draws plan (Draft propertyType ["default"] [])
      (run plan invoke (.group [
        .keyword "=",
        .assign "default" .set (.call additionRule)]))
      (Draft propertyType [] []) := by
    refine draws_group ?_
    refine draws_cons (draws_keyword lasting_draft _) ?_
    exact draws_cons (draws_node fits (supply.expression 1) nofun rfl) draws_nil
  refine fulfils_of_draws ["many", "name", "type", "default"] [] (by decide) (by decide) ?_
  refine draws_group ?_
  refine draws_cons (draws_optional (many.weaken (fun s holds => holds.1) fun s => id)
    fun s => Draft.forget) ?_
  refine draws_cons (draws_name fits (by decide) rfl) ?_
  refine draws_cons (draws_keyword lasting_draft _) ?_
  refine draws_cons (draws_reference fits supply.words (by decide) rfl) ?_
  refine draws_cons (draws_optional (default.weaken (fun s holds => holds.1) fun s => id)
    fun s => Draft.forget) ?_
  exact draws_nil

include fits supply in
/-- An operand is taken over; without one, the object is an expression of its own. -/
theorem draws_operand (k : Nat) :
    Draws plan (Blank (some expressionType)) (run plan invoke (.call (ruleAt k))) (Drawn expressionTypes) := by
  refine (draws_adopt fits (supply.expression k) fun _ => True).weaken (fun s blank => ⟨blank, trivial⟩)
    fun s drawn => ?_
  rcases drawn with ⟨blank, -⟩ | drawn
  · exact ⟨expressionType, by decide, blank.draft []⟩
  · exact drawn

include fits supply in
/-- The first operand is taken over, and each link makes it a part of an operation. -/
theorem fulfils_chain {k : Nat} (chained : k = 1 ∨ k = 2) :
    Fulfils plan invoke (some expressionType) (chain (ruleAt (k + 1)) (symbolsAt k)) expressionTypes := by
  intro outer s intact blank _
  have links := draws_many (draws_link fits chained (supply.expression (k + 1)))
  have body := draws_group (draws_cons (draws_operand fits supply (k + 1)) (draws_cons links draws_nil))
  obtain ⟨carries, drawn⟩ := reported_of_draws body intact blank
  exact ⟨carries, .inr drawn⟩

include fits supply in
theorem draws_bracketed :
    Draws plan (Blank (some expressionType)) (run plan invoke bracketed) (Drawn expressionTypes) := by
  refine draws_group ?_
  refine draws_cons (draws_keyword lasting_blank _) ?_
  refine draws_cons (draws_operand fits supply 1) ?_
  exact draws_cons (draws_keyword lasting_drawn _) draws_nil

/-- The object gets another type before anything has happened to it. No token is taken. -/
theorem draws_retag (invoke : Invocation) (type new : TypeId) (pending : List String) (C : TokenStream → Prop) :
    Draws plan (fun s => Blank (some type) s ∧ C s.stream) (run plan invoke (.action new none))
      (fun s => Draft new pending [] s ∧ C s.stream) := by
  rintro outer s intact ⟨blank, next⟩
  have tidy := intact.toTidy.retag new
  have retagged : s.retag new = { s with
      frame := { s.frame with content := .object { type := some new, retagged := true } } } := by
    rw [State.retag, blank.content]
    rfl
  rw [run]
  dsimp only
  rw [retagged] at tidy ⊢
  obtain ⟨count, slots⟩ := loose_idle blank.content rfl rfl
  have draft : Draft new pending [] { s with
      frame := { s.frame with content := .object { type := some new, retagged := true } } } :=
    ⟨_, sketch_bare rfl fun f _ => blank.unassigned f, fun _ => ⟨rfl, rfl⟩⟩
  refine ⟨rfl, ⟨⟨tidy, intact.legible, ?_⟩, .refl _⟩, draft, next⟩
  refine intact.sturdy.mono (fun x some => ?_) fun id => ?_
  · rw [Loose.count_append, count, Nat.zero_add] at some
    rw [Loose.count_append]
    omega
  · rw [Loose.slots_append, Loose.slots_append, slots]
    rfl

include fits in
/-- A number that is next makes a literal. -/
theorem draws_literal :
    Draws plan (fun s => Blank (some expressionType) s ∧ ready plan literal s = true)
      (run plan invoke literal) (Drawn expressionTypes) := by
  have next : ∀ s, ready plan literal s = true → s.stream.peek?.any (·.kind == .number) = true := by
    intro s starts
    rw [fits.isReady first_literal rfl, State.ahead, List.head?_map, Option.any_map,
      ← TokenStream.peek?_eq_head?, Option.any_eq_true] at starts
    obtain ⟨token, isNext, accepted⟩ := starts
    change FirstSet.accepts ⟨[], [.number]⟩ (token.kind, token.image) = true at accepted
    rw [FirstSet.accepts] at accepted
    rw [isNext]
    split at accepted
    · cases accepted
    · simpa using accepted
  have body := draws_group (draws_cons
    (draws_retag invoke expressionType numberLiteralType ["value"]
      fun stream => stream.peek?.any (·.kind == .number) = true)
    (draws_cons (draws_number fits) draws_nil))
  refine body.weaken (fun s holds => ⟨holds.1, next s holds.2⟩) fun s draft => ?_
  exact ⟨numberLiteralType, by decide, draft⟩

include fits supply in
theorem fulfils_primary :
    Fulfils plan invoke (some expressionType) (.alternatives [bracketed, literal]) expressionTypes := by
  refine fulfils_alternatives ?_ ?_
  · rw [fits.foresight]
    decide
  · intro item mem
    rcases List.mem_cons.1 mem with rfl | mem
    · exact (draws_bracketed fits supply).weaken (fun s holds => holds.1.1) fun s => .inr
    · obtain rfl := List.mem_singleton.1 mem
      exact (draws_literal fits).weaken (fun s holds => ⟨holds.1.1, holds.2⟩) fun s => .inr

include fits in
/-- A qualified name is a text. -/
theorem worded_qualifiedName (invoke : Invocation) (intact : Intact plan outer s) (worded : Worded s) :
    Carries plan outer s
        (runReported plan invoke (.group [.call nameRule, .repetition .zeroOrMore further]) s) ∧
      Worded (runReported plan invoke (.group [.call nameRule, .repetition .zeroOrMore further]) s) := by
  have more : Draws plan Worded (run plan invoke further) Worded :=
    draws_group (draws_cons draws_point (draws_cons (draws_word fits) draws_nil))
  have names := draws_many (more.weaken (fun s holds => holds.1) fun s => id)
  exact reported_of_draws (draws_group (draws_cons (draws_word fits) (draws_cons names draws_nil)))
    intact worded

end Bodies

/-! ### Invocations -/

/-- Where the nesting is too deep, a rule is not entered. -/
theorem refused_spec (intact : Intact plan outer s) (id : RuleId) (feature : Option String) :
    ∃ t, Interpreter.invoke plan 0 id feature s = { state := t } ∧ Carries plan outer s t ∧
      t.frame = s.frame := by
  have raised := Carries.of_takes intact (intact.toTidy.raise _)
    (Takes.raise plan s (.tooDeep plan.limits.maxRuleDepth))
  rw [Interpreter.invoke]
  exact ⟨_, rfl, ⟨raised.intact.of_same rfl rfl rfl, raised.grows⟩, frame_raise _⟩

theorem hands_refused {t : State} (types : List TypeId) (feature : Option String)
    (carries : Carries plan outer s t) (frame : t.frame = s.frame) :
    Hands plan outer types s feature { state := t } :=
  ⟨carries.intact, carries.grows, frame, .inl ⟨rfl, rfl⟩⟩

/-- A rule whose body is as it should be gives nodes. -/
theorem supplied_succ (fits : Fits plan) {depth : Nat} {id : RuleId} {name : String}
    {returns : Option TypeId} {body : Element} {types : List TypeId}
    (known : rules[id]? = some ⟨name, .parser returns, body⟩) (declared : ∀ type ∈ types, type < 10)
    (fulfils : Fulfils plan (Interpreter.invoke plan depth) returns body types) :
    Supplied plan (Interpreter.invoke plan (depth + 1)) id types := by
  refine ⟨⟨_, _, _, known⟩, fun outer s feature intact => ?_⟩
  have entered := intact.enter id (.parser returns)
  obtain ⟨carries, done⟩ := fulfils _ _ entered
    ⟨rfl, fun feature => by simp [Frame.enter, Frame.assigned]⟩ rfl
  rw [Interpreter.invoke, fits.known known]
  exact hands_leave fits s declared carries.grows carries.intact done id _ feature _

theorem leave_text (id : RuleId) (feature : Option String) (offset : Nat) (caller : Frame) {acc : String}
    (taken : s.frame.children ≠ #[]) (content : s.frame.content = .text acc) :
    leave plan id (.dataType .text) feature offset caller s = {
      state := { s with frame := caller }
      tree := some (close id feature offset s.frame.children.toList)
      value := some (.value (.text acc)) } := by
  unfold leave
  dsimp only
  rw [if_neg (by simpa using taken), content]
  rfl

theorem words_succ (fits : Fits plan) {depth : Nat} : Words plan (Interpreter.invoke plan (depth + 1)) := by
  intro outer s feature intact
  have entered := intact.enter qualifiedNameRule (.dataType .text)
  have worded : Worded { s with frame := Frame.enter qualifiedNameRule (.dataType .text) } :=
    ⟨⟨"", rfl, fun some => absurd rfl some⟩, fun feature => by simp [Frame.enter, Frame.assigned]⟩
  obtain ⟨carries, worded⟩ := worded_qualifiedName fits (Interpreter.invoke plan depth) entered
    worded
  rw [Interpreter.invoke, fits.known rules_qualifiedName]
  dsimp only
  generalize runReported plan (Interpreter.invoke plan depth) _ _ = ended at carries worded
  obtain ⟨⟨acc, content, some⟩, unassigned⟩ := worded
  have tidy := carries.intact.toTidy.leave qualifiedNameRule (.dataType .text) feature (s.nextOffset plan)
  have loose : ended.frame.loose.parts = [] ∧ ended.frame.loose.slots = [] := by
    simp [Frame.loose, content]
  -- nothing but trees is loose in a text
  have sturdy : ∀ trees, Sturdy ended.arena (s.frame.loose ++ (({ trees } : Loose) ++ outer)) := by
    intro trees
    refine carries.intact.sturdy.mono (fun x some => ?_) fun id => ?_
    · simpa [Loose.count, loose.1, loose.2] using some
    · simp [loose.2]
  by_cases none : ended.frame.children = #[]
  · rw [leave_idle _ _ _ _ _ none] at tidy ⊢
    exact ⟨⟨tidy, carries.intact.legible, sturdy []⟩, carries.grows, rfl, .inl ⟨rfl, rfl⟩⟩
  · rw [leave_text _ _ _ _ none content] at tidy ⊢
    exact ⟨⟨tidy, carries.intact.legible, sturdy _⟩, carries.grows, rfl,
      .inr ⟨acc, _, _, rfl, some none, rfl, unassigned⟩⟩

/-- Invocations hand over what their rules are for, at any depth. -/
theorem supply_invoke (fits : Fits plan) (depth : Nat) : Supply plan (Interpreter.invoke plan depth) := by
  induction depth with
  | zero =>
    have refused : ∀ {id : RuleId} {name returns body}, rules[id]? = some ⟨name, .parser returns, body⟩ →
        ∀ types, Supplied plan (Interpreter.invoke plan 0) id types := by
      intro id name returns body known types
      refine ⟨⟨_, _, _, known⟩, fun outer s feature intact => ?_⟩
      obtain ⟨t, eq, carries, frame⟩ := refused_spec intact id feature
      rw [eq]
      exact hands_refused types feature carries frame
    refine ⟨refused rfl _, refused rfl _, refused rfl _, refused rfl _, refused rfl _, refused rfl _,
      fun k => ?_, fun outer s feature intact => ?_⟩
    · unfold ruleAt
      split <;> exact refused rfl _
    · obtain ⟨t, eq, carries, frame⟩ := refused_spec intact qualifiedNameRule feature
      rw [eq]
      exact ⟨carries.intact, carries.grows, frame, .inl ⟨rfl, rfl⟩⟩
  | succ depth ih =>
    refine ⟨supplied_succ fits rfl (by decide) (fulfils_element fits ih),
      supplied_succ fits rfl (by decide) (fulfils_package fits ih),
      supplied_succ fits rfl (by decide) (fulfils_type fits ih),
      supplied_succ fits rfl (by decide) (fulfils_dataType fits),
      supplied_succ fits rfl (by decide) (fulfils_class fits ih),
      supplied_succ fits rfl (by decide) (fulfils_property fits ih), fun k => ?_, words_succ fits⟩
    by_cases chained : k = 1 ∨ k = 2
    · obtain ⟨name, known⟩ := rules_chain chained
      exact supplied_succ fits known (by decide) (fulfils_chain fits ih chained)
    · have primary : ruleAt k = ruleAt 3 := by
        unfold ruleAt
        split <;> simp_all
      rw [primary]
      exact supplied_succ fits rules_primary (by decide) (fulfils_primary fits ih)

/-! ### Documents -/

/-- The object of a document under construction. -/
abbrev Modelling (s : State) : Prop := Draft modelType [] [] s

theorem skip_spec (fuel : Nat) (stalled : Bool) (intact : Intact plan outer s) (draft : Modelling s) :
    Carries plan outer s (skip plan fuel stalled s) ∧ Modelling (skip plan fuel stalled s) := by
  induction fuel generalizing stalled s with
  | zero => exact ⟨.refl intact, draft⟩
  | succ fuel ih =>
    rw [skip]
    split
    · exact ⟨.refl intact, draft⟩
    · have carries := Carries.of_takes intact (intact.toTidy.consume none) (Takes.consume s none)
      obtain ⟨carries', draft'⟩ := ih false carries.intact
        (lasting_draft.calm (.of_takes (Takes.consume s none)) draft)
      exact ⟨carries.trans carries', draft'⟩

/-- The document is a draft of a model when its input is used up. -/
theorem runEntry_spec (fits : Fits plan) (supply : Supply plan invoke) (fuel : Nat)
    (intact : Intact plan outer s) (draft : Modelling s) :
    Carries plan outer s (runEntry plan invoke fuel s) ∧ Modelling (runEntry plan invoke fuel s) := by
  induction fuel generalizing s with
  | zero => exact ⟨.refl intact, draft⟩
  | succ fuel ih =>
    have entry : plan.grammar.entryRule.body =
        .repetition .zeroOrMore (.assign "elements" .append (.call elementRule)) := by
      rw [fits.domain]
      rfl
    have body : Draws plan Modelling (run plan invoke
        (.repetition .zeroOrMore (.assign "elements" .append (.call elementRule)))) Modelling :=
      draws_nodes fits supply.element nofun rfl
    obtain ⟨carries, ran⟩ := reported_of_draws body intact draft
    rw [runEntry, entry]
    dsimp only
    split
    · exact ⟨carries, ran⟩
    · generalize runReported plan invoke _ s = ended at carries ran
      have failed : Intact plan outer (ended.record plan .trailingInput) := carries.intact.of_same rfl rfl rfl
      have recorded : Calm none ended (ended.record plan .trailingInput) := .of_frame rfl (.refl _)
      obtain ⟨skipping, skipped⟩ := skip_spec (ended.record plan .trailingInput).stream.count
        (ended.stream.count == s.stream.count) failed (lasting_draft.calm recorded ran)
      generalize skip plan _ _ (ended.record plan .trailingInput) = behind at skipping skipped
      have resumed : Intact plan outer { behind with recovering := false } :=
        skipping.intact.of_same rfl rfl rfl
      have settled : Calm none behind { behind with recovering := false } := .of_frame rfl (.refl _)
      have model := lasting_draft.calm settled skipped
      have grows : s.arena.Preserves behind.arena := carries.grows.trans skipping.grows
      split
      · exact ⟨⟨resumed, grows⟩, model⟩
      · obtain ⟨carries', model'⟩ := ih resumed model
        exact ⟨⟨carries'.intact, grows.trans carries'.grows⟩, model'⟩

end Workbench.DomainModel
