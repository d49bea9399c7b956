import Workbench.Proofs.Parser.Distinct
import Workbench.Proofs.Parser.Incidents

/-!
**What the check of a grammar rules out.**

The interpreter has an answer for rules that do not exist, for elements that have no place in a rule
body, and for a data-type rule that makes a node: it notes an incident and goes on. In a checked grammar
there are no such bodies, so all that a parse can note is that it met the limit on the depth.
-/

namespace Workbench

namespace State

variable {s t u : State} {inData : Bool}

/-- From `s` to `t` nothing is noted but that the limit on the depth was met. -/
def Lawful (s t : State) : Prop := ∀ i ∈ t.incidents, i = .depthLimit ∨ i ∈ s.incidents

namespace Lawful

theorem refl (s : State) : Lawful s s := fun _ => .inr

theorem trans (h : Lawful s t) (h' : Lawful t u) : Lawful s u := fun i mem => (h' i mem).elim .inl (h i)

theorem of_eq (h : t.incidents = s.incidents) : Lawful s t := by
  intro i mem
  rw [h] at mem
  exact .inr mem

end Lawful

/-- A state in which the body of a data-type rule, if `inData`, or of a parser rule can run. -/
structure Fits (inData : Bool) (s : State) : Prop where
  sane : s.Sane
  object : inData = false → s.frame.isObject = true

end State

namespace Interpreter

open State

variable {plan : Plan} {invoke : Invocation} {s t : State} {inData : Bool} {id : RuleId} {rule : Rule}

theorem Reaches.fits (h : Reaches plan s t) (fits : s.Fits inData) : t.Fits inData where
  sane := h.sane fits.sane
  object parser := by
    rw [h.isObject]
    exact fits.object parser

/-- Invocations that note nothing but the limit, and make nodes by parser rules only. -/
structure Heeds (plan : Plan) (invoke : Invocation) : Prop where
  proper : Proper plan invoke
  lawful : ∀ {id : RuleId} {rule : Rule} (feature : Option String) {s : State},
    plan.grammar.rules[id]? = some rule → rule.kind.terminal? = none → s.Sane →
    Lawful s (invoke id feature s).state
  parser : ∀ {id : RuleId} {rule : Rule} {feature : Option String} {s : State} {n : NodeId},
    plan.grammar.rules[id]? = some rule → (invoke id feature s).value = some (.node n) →
    rule.kind.isParser = true

/-- A node that is returned is there. -/
theorem Answers.lt_size {out : Invoked} {n : NodeId} (h : Answers plan s out) (sane : s.Sane)
    (value : out.value = some (.node n)) : n < out.state.nodes.size := by
  cases h with
  | refused => cases value
  | left known inner =>
    obtain ⟨-, node, -, -, found, -⟩ := node_of_leave (inner.sane (sane.enter _ _)) value
    exact (Array.getElem?_eq_some_iff.1 found).1

theorem isParser_eq_false (faultless : Element.parserName? plan.grammar.rules id = none)
    (known : plan.grammar.rules[id]? = some rule) : rule.kind.isParser = false := by
  unfold Element.parserName? at faultless
  rw [known] at faultless
  dsimp only at faultless
  split at faultless
  · cases faultless
  · next other => exact Bool.eq_false_iff.2 other

/-! ### Calls -/

theorem lawful_call (heeds : Heeds plan invoke) (fits : s.Fits inData)
    (declared : Element.callFault plan.grammar.rules id = none)
    (inObject : inData = true → Element.parserName? plan.grammar.rules id = none)
    {target : Option (String × AssignOp)} (assigned : target.isSome = true → inData = false) :
    Lawful s (call plan invoke id target s) := by
  obtain ⟨rule, known⟩ := exists_rule declared
  unfold call
  rw [known]
  dsimp only
  split
  · next token value _ =>
    dsimp only [State.expectKind]
    have reached := reaches_expect plan s (·.kind == token) (.missingToken rule.name) (target.map (·.1))
    have quiet := Lawful.of_eq (incidents_expect plan s (·.kind == token)
      (.missingToken rule.name) (target.map (·.1)))
    split
    · exact quiet
    · have object := (reached.fits fits).object (assigned rfl)
      exact quiet.trans (.of_eq (incidents_assign object _ _ _))
    · exact quiet.trans (.of_eq (incidents_collect _))
  · next other =>
    have answers := heeds.proper id (target.map (·.1)) s
    have ran := heeds.lawful (target.map (·.1)) known (RuleKind.terminal?_eq_none other) fits.sane
    have object : ∀ trees, inData = false →
        ((invoke id (target.map (·.1)) s).state.attach trees).frame.isObject = true := by
      intro trees parser
      exact (answers.reaches .keep).isObject.trans (fits.object parser)
    split
    · exact ran.trans (.of_eq rfl)
    · exact ran.trans (.of_eq (incidents_assign (object _ (assigned rfl)) _ _ _))
    · exact ran.trans (.of_eq (incidents_assign (object _ (assigned rfl)) _ _ _))
    · next value =>
      -- only parser rules make nodes, and data-type rules do not call them
      have parser := heeds.parser known value
      cases inData with
      | true =>
        rw [isParser_eq_false (inObject rfl) known] at parser
        cases parser
      | false =>
        exact ran.trans (.of_eq (incidents_adopt (object _ rfl) (answers.lt_size fits.sane value)))
    · exact ran.trans (.of_eq (incidents_collect _))

theorem lawful_makeReference (object : s.frame.isObject = true) (feature : String) (op : AssignOp)
    (target : TypeId) (text : String) (source : SourceTree) :
    Lawful s (makeReference feature op target text source s) :=
  .of_eq (incidents_assign (s := { s with references := s.references.push { text, target, source } })
    object _ _ _)

theorem lawful_crossReference (heeds : Heeds plan invoke) (fits : s.Fits false)
    (declared : Element.callFault plan.grammar.rules id = none)
    (noParser : Element.parserName? plan.grammar.rules id = none) (feature : String) (op : AssignOp)
    (target : TypeId) : Lawful s (crossReference plan invoke feature op target id s) := by
  obtain ⟨rule, known⟩ := exists_rule declared
  unfold crossReference
  rw [known]
  dsimp only
  split
  · next token value _ =>
    dsimp only [State.expectKind]
    have reached := reaches_expect plan s (·.kind == token) (.missingToken rule.name) (some feature)
    have quiet := Lawful.of_eq (incidents_expect plan s (·.kind == token)
      (.missingToken rule.name) (some feature))
    split
    · exact quiet
    · exact quiet.trans (lawful_makeReference ((reached.fits fits).object rfl) _ _ _ _ _)
  · next other =>
    have answers := heeds.proper id (some feature) s
    have ran := heeds.lawful (some feature) known (RuleKind.terminal?_eq_none other) fits.sane
    split
    · have object := (answers.reaches .keep).isObject.trans (fits.object rfl)
      exact ran.trans (lawful_makeReference object _ _ _ _ _)
    · next value =>
      have parser := heeds.parser known value
      rw [isParser_eq_false noParser known] at parser
      cases parser
    · exact ran.trans (.of_eq rfl)

/-! ### Repetitions -/

theorem lawful_turns {canStart : State → Bool} {body : State → Outcome}
    (reaches : ∀ s, Reaches plan s (body s).state)
    (lawful : ∀ s, s.Fits inData → Lawful s (body s).state) (fuel : Nat) {s : State} (fits : s.Fits inData) :
    Lawful s (turns plan canStart body fuel s).state := by
  induction fuel generalizing s with
  | zero => exact .refl s
  | succ fuel ih =>
    have ran := lawful s fits
    have after := (reaches s).fits fits
    unfold turns
    dsimp only
    split
    · split
      · next expected _ =>
        split
        · have reported : (State.report plan expected _).Fits inData := (reaches_report expected).fits after
          exact (ran.trans (.of_eq (incidents_report expected))).trans (ih reported)
        · exact ran
      · split
        · exact ran.trans (ih after)
        · exact ran
    · exact .refl s

theorem lawful_repeated {canStart : State → Bool} {body : State → Outcome}
    (reaches : ∀ s, Reaches plan s (body s).state)
    (lawful : ∀ s, s.Fits inData → Lawful s (body s).state) (cardinality : Cardinality)
    (fits : s.Fits inData) : Lawful s (repeated plan cardinality canStart body s).state := by
  unfold repeated
  cases cardinality with
  | optional =>
    dsimp only
    split
    · exact lawful s fits
    · exact .refl s
  | zeroOrMore => exact lawful_turns reaches lawful _ fits
  | oneOrMore =>
    dsimp only
    split
    · exact lawful s fits
    · split
      · exact (lawful s fits).trans (lawful_turns reaches lawful _ ((reaches s).fits fits))
      · exact lawful s fits

/-! ### Elements -/

mutual

theorem lawful_run (heeds : Heeds plan invoke) : ∀ (e : Element) (inData : Bool) (s : State), s.Fits inData →
    e.fault? plan.grammar.rules plan.grammar.types inData = none → Lawful s (run plan invoke e s).state
  | .keyword text, inData, s, _, _ => by
    rw [run]
    have quiet := Lawful.of_eq (incidents_expect plan s (·.isKeyword text)
      (.missingKeyword text) none)
    dsimp only [State.expectKeyword]
    split
    · exact quiet.trans (.of_eq (incidents_collect text))
    · exact quiet
  | .call id, inData, s, fits, faultless => by
    rw [Element.fault?, Option.or_eq_none_iff] at faultless
    rw [run]
    refine lawful_call heeds fits faultless.1 (fun data => ?_) nofun
    simpa [data] using faultless.2
  | .assign feature op value, inData, s, fits, faultless => by
    rw [Element.fault?] at faultless
    rw [run]
    cases inData with
    | true => cases faultless
    | false => exact lawful_runAssigned heeds feature op value s fits faultless
  | .crossRef _ _, _, _, _, faultless => by
    rw [Element.fault?] at faultless
    cases faultless
  | .action type into, inData, s, fits, faultless => by
    rw [Element.fault?] at faultless
    cases inData with
    | true => cases faultless
    | false =>
      rcases into with _ | ⟨feature, op⟩
      · rw [run]
        exact .of_eq (incidents_retag (fits.object rfl) type)
      · rw [run]
        exact .of_eq (incidents_wrap (fits.object rfl) type feature op)
  | .group items, inData, s, fits, faultless => by
    rw [Element.fault?] at faultless
    rw [run]
    exact lawful_runAll heeds items inData s fits faultless
  | .alternatives items, inData, s, fits, faultless => by
    rw [Element.fault?] at faultless
    rw [run]
    split at faultless
    · cases faultless
    · split
      · exact lawful_runNth heeds items inData _ s fits faultless
      · exact .refl s
  | .repetition cardinality item, inData, s, fits, faultless => by
    rw [Element.fault?] at faultless
    rw [run]
    exact lawful_repeated (reaches_run heeds.proper item)
      (fun s fits => lawful_run heeds item inData s fits faultless) cardinality fits

theorem lawful_runAll (heeds : Heeds plan invoke) : ∀ (items : List Element) (inData : Bool) (s : State),
    s.Fits inData → Element.listFault? plan.grammar.rules plan.grammar.types inData items = none →
    Lawful s (runAll plan invoke items s).state
  | [], _, s, _, _ => by
    rw [runAll]
    exact .refl s
  | item :: rest, inData, s, fits, faultless => by
    rw [Element.listFault?, Option.or_eq_none_iff] at faultless
    have ran := lawful_run heeds item inData s fits faultless.1
    have after := (reaches_run heeds.proper item s).fits fits
    rw [runAll]
    split
    · exact ran
    · exact ran.trans (lawful_runAll heeds rest inData _ after faultless.2)

theorem lawful_runNth (heeds : Heeds plan invoke) : ∀ (items : List Element) (inData : Bool) (i : Nat)
    (s : State), s.Fits inData →
    Element.listFault? plan.grammar.rules plan.grammar.types inData items = none →
    Lawful s (runNth plan invoke items i s).state
  | [], _, _, s, _, _ => by
    rw [runNth]
    exact .refl s
  | item :: rest, inData, 0, s, fits, faultless => by
    rw [Element.listFault?, Option.or_eq_none_iff] at faultless
    rw [runNth]
    exact lawful_run heeds item inData s fits faultless.1
  | item :: rest, inData, i + 1, s, fits, faultless => by
    rw [Element.listFault?, Option.or_eq_none_iff] at faultless
    rw [runNth]
    exact lawful_runNth heeds rest inData i s fits faultless.2

theorem lawful_runAssigned (heeds : Heeds plan invoke) (feature : String) (op : AssignOp) :
    ∀ (e : Element) (s : State), s.Fits false →
    e.assignedFault? plan.grammar.rules plan.grammar.types = none →
    Lawful s (runAssigned plan invoke feature op e s).state
  | .keyword text, s, fits, _ => by
    rw [runAssigned]
    have reached := reaches_expect plan s (·.isKeyword text) (.missingKeyword text) (some feature)
    have quiet := Lawful.of_eq (incidents_expect plan s (·.isKeyword text)
      (.missingKeyword text) (some feature))
    dsimp only [State.expectKeyword]
    split
    · exact quiet.trans (.of_eq (incidents_assign ((reached.fits fits).object rfl) _ _ _))
    · exact quiet
  | .call id, s, fits, faultless => by
    rw [Element.assignedFault?] at faultless
    rw [runAssigned]
    exact lawful_call heeds fits faultless nofun fun _ => rfl
  | .crossRef target id, s, fits, faultless => by
    rw [Element.assignedFault?, Option.or_eq_none_iff, Option.or_eq_none_iff, Option.map_eq_none_iff]
      at faultless
    rw [runAssigned]
    exact lawful_crossReference heeds fits faultless.2.1 faultless.2.2 feature op target
  | .alternatives items, s, fits, faultless => by
    rw [Element.assignedFault?] at faultless
    rw [runAssigned]
    split at faultless
    · cases faultless
    · split
      · exact lawful_runAssignedNth heeds feature op items _ s fits faultless
      · exact .refl s
  | .assign .., s, _, faultless => by simp [Element.assignedFault?] at faultless
  | .action .., s, _, faultless => by simp [Element.assignedFault?] at faultless
  | .group _, s, _, faultless => by simp [Element.assignedFault?] at faultless
  | .repetition .., s, _, faultless => by simp [Element.assignedFault?] at faultless

theorem lawful_runAssignedNth (heeds : Heeds plan invoke) (feature : String) (op : AssignOp) :
    ∀ (items : List Element) (i : Nat) (s : State), s.Fits false →
    Element.assignedListFault? plan.grammar.rules plan.grammar.types items = none →
    Lawful s (runAssignedNth plan invoke feature op items i s).state
  | [], _, s, _, _ => by
    rw [runAssignedNth]
    exact .refl s
  | item :: rest, 0, s, fits, faultless => by
    rw [Element.assignedListFault?, Option.or_eq_none_iff] at faultless
    rw [runAssignedNth]
    exact lawful_runAssigned heeds feature op item s fits faultless.1
  | item :: rest, i + 1, s, fits, faultless => by
    rw [Element.assignedListFault?, Option.or_eq_none_iff] at faultless
    rw [runAssignedNth]
    exact lawful_runAssignedNth heeds feature op rest i s fits faultless.2

end

/-! ### Rules and documents -/

theorem lawful_runReported (heeds : Heeds plan invoke) (fits : s.Fits inData) {e : Element}
    (faultless : e.fault? plan.grammar.rules plan.grammar.types inData = none) :
    Lawful s (runReported plan invoke e s) := by
  have ran := lawful_run heeds e inData s fits faultless
  unfold runReported
  dsimp only
  split
  · exact ran.trans (.of_eq (incidents_report _))
  · exact ran

/-- The body of a rule of a checked grammar has no fault. -/
theorem faultless_body (g : Grammar) (known : g.rules[id]? = some rule) :
    rule.body.fault? g.rules g.types rule.kind.isDataType = none := by
  have faultless := g.faultless rule (Array.mem_of_getElem? known)
  rwa [Rule.fault?, Option.map_eq_none_iff] at faultless

/-- What the frame of a rule gives back as a node is made by a parser rule. -/
theorem isParser_of_leave {kind : RuleKind} {feature : Option String} {offset : Nat} {caller : Frame}
    {ended : State} {n : NodeId} (inner : Reaches plan { s with frame := Frame.enter id kind } ended)
    (value : (leave plan id kind feature offset caller ended).value = some (.node n)) :
    kind.isParser = true := by
  rw [← Frame.isObject_enter id kind, Frame.isObject_iff]
  have object : ended.frame.isObject = true := by
    unfold leave at value
    dsimp only at value
    split at value
    · cases value
    · split at value
      · next o content => exact Frame.isObject_iff.2 ⟨o, content⟩
      · cases value
      · cases value
  rw [inner.isObject] at object
  exact Frame.isObject_iff.1 object

/-- The body of a rule can run in the frame in which the rule is entered. -/
theorem fits_enter (sane : s.Sane) (nonterminal : rule.kind.terminal? = none) (id : RuleId) :
    ({ s with frame := Frame.enter id rule.kind } : State).Fits rule.kind.isDataType := by
  refine ⟨sane.enter id rule.kind, fun parser => ?_⟩
  rw [Frame.isObject_enter]
  cases kind : rule.kind with
  | parser => rfl
  | terminal => rw [kind] at nonterminal; cases nonterminal
  | dataType => rw [kind] at parser; cases parser

theorem heeds_invoke (plan : Plan) (depth : Nat) : Heeds plan (Interpreter.invoke plan depth) := by
  induction depth with
  | zero =>
    refine ⟨proper_invoke 0, fun feature s _ _ _ i mem => ?_, fun _ value => ?_⟩
    · simp only [Interpreter.invoke] at mem
      rcases List.mem_cons.1 mem with limit | mem
      · exact .inl limit
      · exact .inr (by simpa using mem)
    · rw [Interpreter.invoke] at value
      cases value
  | succ depth ih =>
    refine ⟨proper_invoke _, fun {id rule} feature {s} known nonTerminal sane => ?_,
      fun {id rule} feature {s n} known value => ?_⟩
    · have fits := fits_enter sane nonTerminal id
      have ran := lawful_runReported ih fits (faultless_body plan.grammar known)
      rw [Interpreter.invoke, known]
      exact ran.trans (.of_eq (incidents_leave ..))
    · rw [Interpreter.invoke, known] at value
      exact isParser_of_leave (reaches_runReported (proper_invoke depth) rule.body _) value

theorem lawful_runEntry (heeds : Heeds plan invoke) (fuel : Nat) {s : State} (fits : s.Fits false) :
    Lawful s (runEntry plan invoke fuel s) := by
  induction fuel generalizing s with
  | zero => exact .refl s
  | succ fuel ih =>
    have faultless := faultless_body plan.grammar plan.grammar.entry_eq
    rw [plan.grammar.entry_kind] at faultless
    have ran := lawful_runReported heeds fits faultless
    have after := (reaches_runReported heeds.proper plan.grammar.entryRule.body s).fits fits
    rw [runEntry]
    dsimp only
    generalize runReported plan invoke plan.grammar.entryRule.body s = t at ran after
    have skipped : ∀ fuel stalled,
        Lawful t { skip plan fuel stalled (t.record plan .trailingInput) with recovering := false } :=
      fun fuel stalled => .of_eq (incidents_skip fuel stalled)
    have resumed : ∀ fuel stalled,
        ({ skip plan fuel stalled (t.record plan .trailingInput) with recovering := false } : State).Fits
          false := by
      intro fuel stalled
      exact (((Reaches.record .trailingInput).trans (reaches_skip plan fuel stalled _)).trans .settle).fits after
    split
    · exact ran
    · split
      · exact ran.trans (skipped _ _)
      · exact (ran.trans (skipped _ _)).trans (ih (resumed _ _))

end Interpreter

namespace Parser

open Interpreter State

/-- Up to the end of the input, nothing is noted but the limit on the depth. -/
theorem incidents_ended (p : Parser) (lexed : LexResult) :
    ∀ i ∈ (p.ended lexed).incidents, i = .depthLimit := by
  have fits : (p.opened lexed).Fits false := ⟨p.sane_opened lexed, fun _ => rfl⟩
  intro i mem
  exact (lawful_runEntry (heeds_invoke _ _) _ fits i mem).resolve_right List.not_mem_nil

end Parser

end Workbench
