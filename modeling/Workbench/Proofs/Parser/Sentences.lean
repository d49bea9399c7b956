import Workbench.DomainModel.Grammar
import Workbench.Proofs.Grammar.Derivation
import Workbench.Proofs.Parser.Lossless

/-!
**Only sentences are accepted.**

A run that ends without an error has read a sequence that its element derives. Every detour of the parser
(a token taken as present, a token skipped, a rule given up, a turn of a repetition abandoned, the entry
rule started anew) records an error or happens while an earlier one is being recovered from, and errors
are never taken back. What is left is a derivation, built along the elements, the calls and the loops.
-/

namespace Workbench

namespace Interpreter

open State Grammar

variable {plan : Plan} {invoke : Invocation} {depth : Nat} {s t u : State}

/-! ### Reading -/

/-- From `s` to `t` a run has read tokens with a property, unless it has recorded an error. -/
def Reads (P : List Token → Prop) (s t : State) : Prop :=
  s.Candid → t.errors = #[] → ∃ w, s.stream.visible = w ++ t.stream.visible ∧ P w

namespace Reads

variable {P Q R : List Token → Prop}

theorem nothing (silent : Silent s t) (h : P []) : Reads P s t := by
  intro _ _
  exact ⟨[], by rw [silent.stream]; rfl, h⟩

/-- A run that records an error is not asked what it has read. -/
theorem of_errors (h : s.Candid → t.errors ≠ #[]) : Reads P s t := by
  intro candid noErrors
  exact absurd noErrors (h candid)

theorem of_same (h : Reads P s t) (stream : u.stream = t.stream) (errors : u.errors = t.errors) :
    Reads P s u := by
  intro candid noErrors
  rw [stream]
  exact h candid (errors ▸ noErrors)

theorem then_silent (h : Reads P s t) (silent : Silent t u) : Reads P s u :=
  h.of_same silent.stream silent.errors

theorem mono (h : Reads P s t) (imp : ∀ w, P w → Q w) : Reads Q s t := by
  intro candid noErrors
  obtain ⟨w, visible, holds⟩ := h candid noErrors
  exact ⟨w, visible, imp w holds⟩

theorem append (h : Reads P s t) (h' : Reads Q t u) (first : Onward s t) (second : Onward t u)
    (join : ∀ v w, P v → Q w → R (v ++ w)) : Reads R s u := by
  intro candid noErrors
  have noneBefore : t.errors = #[] := by
    by_contra some
    exact second.errors some noErrors
  obtain ⟨v, visible, left⟩ := h candid noneBefore
  obtain ⟨w, visible', right⟩ := h' (first.candid candid) noErrors
  exact ⟨v ++ w, by rw [visible, visible', List.append_assoc], join v w left right⟩

end Reads

theorem reads_expect (accepts : Token → Bool) (problem : ParseProblem) (feature : Option String)
    (s : State) :
    Reads (fun w => ∃ t, accepts t = true ∧ w = [t]) s
      (s.expect plan accepts problem feature).1 := by
  unfold State.expect
  dsimp only
  split
  · next accepted =>
    rw [TokenStream.peek?_eq_head?, Option.any_eq_true] at accepted
    obtain ⟨t, head, accepted⟩ := accepted
    obtain ⟨rest, visible⟩ := List.head?_eq_some_iff.1 head
    intro _ _
    rw [visible_consume]
    exact ⟨[t], by simp [visible], t, accepted, rfl⟩
  · refine .of_errors fun candid => ?_
    have raised : (s.raise plan problem).errors ≠ #[] := candid.errors_raise_ne problem
    split
    · simpa using raised
    · exact raised

/-- Invocations whose rules read what their bodies derive. -/
def Reading (plan : Plan) (invoke : Invocation) (depth : Nat) : Prop :=
  ∀ {e : Element} {id : RuleId} {body : Element}, e.callee? = some id →
    plan.grammar.body? id = some body → ∀ feature s,
    Reads (plan.grammar.Derives depth e) s (invoke id feature s).state

/-! ### Calls -/

theorem reads_token (depth : Nat) {e : Element} {id : RuleId} {rule : Rule} {token : TokenKind}
    {value : ValueKind} (calls : e.callee? = some id) (known : plan.grammar.rules[id]? = some rule)
    (kind : rule.kind = .terminal token value) (feature : Option String) (s : State) :
    Reads (plan.grammar.Derives depth e) s (s.expectKind plan token rule.name feature).1 := by
  refine (reads_expect _ _ _ s).mono ?_
  rintro w ⟨t, fits, rfl⟩
  have same : t.kind = token := by simpa using fits
  refine .token calls ?_
  simp [Grammar.terminal?, known, kind, RuleKind.terminal?, same]

theorem reads_call (hinvoke : Reading plan invoke depth) {e : Element} {id : RuleId}
    (calls : e.callee? = some id) (checked : Element.callFault plan.grammar.rules id = none)
    (target : Option (String × AssignOp)) (s : State) :
    Reads (plan.grammar.Derives depth e) s (call plan invoke id target s) := by
  obtain ⟨rule, known⟩ := exists_rule checked
  unfold call
  rw [known]
  dsimp only
  split
  · next token value kind =>
    have taken := reads_token depth calls known kind (target.map (·.1)) s
    split
    · exact taken
    · exact taken.then_silent (.assign _ _ _ _)
    · exact taken.then_silent (.collect _ _)
  · next notTerminal =>
    have body := body?_of_rule known (RuleKind.terminal?_eq_none notTerminal)
    have inside := hinvoke calls body (target.map (·.1)) s
    have attached := fun trees => inside.of_same (u := (invoke id (target.map (·.1)) s).state.attach trees)
      rfl rfl
    split
    · exact attached _
    · exact (attached _).then_silent (.assign _ _ _ _)
    · exact (attached _).then_silent (.assign _ _ _ _)
    · exact (attached _).then_silent (.adopt _ _)
    · exact (attached _).then_silent (.collect _ _)

theorem reads_crossReference (hinvoke : Reading plan invoke depth) {e : Element} {id : RuleId}
    (calls : e.callee? = some id) (checked : Element.callFault plan.grammar.rules id = none)
    (feature : String) (op : AssignOp) (target : TypeId) (s : State) :
    Reads (plan.grammar.Derives depth e) s (crossReference plan invoke feature op target id s) := by
  obtain ⟨rule, known⟩ := exists_rule checked
  unfold crossReference
  rw [known]
  dsimp only
  split
  · next token value kind =>
    have taken := reads_token depth calls known kind (some feature) s
    split
    · exact taken
    · exact taken.then_silent (.makeReference _ _ _ _ _ _)
  · next notTerminal =>
    have body := body?_of_rule known (RuleKind.terminal?_eq_none notTerminal)
    have inside := hinvoke calls body (some feature) s
    have attached := fun trees => inside.of_same (u := (invoke id (some feature) s).state.attach trees)
      rfl rfl
    split
    · exact (attached _).then_silent (.makeReference _ _ _ _ _ _)
    · exact (attached _).then_silent (.note _ _)
    · exact attached _

/-! ### Choices and repetitions -/

theorem lt_of_choose {items : List Element} {i : Nat} (h : choose plan items s = some i) :
    i < items.length := by
  unfold choose at h
  rcases Option.or_eq_some_iff.1 h with found | ⟨-, found⟩
  · exact (List.findIdx?_eq_some_iff_getElem.1 found).1
  · exact (List.findIdx?_eq_some_iff_getElem.1 found).1

theorem errors_report_ne (plan : Plan) (h : s.Candid) (expected : FirstSet) :
    (s.report plan expected).errors ≠ #[] :=
  h.errors_raise_ne _

/-- An element that does not get stuck has read tokens with a property. -/
def Completes (P : List Token → Prop) (s : State) (out : Outcome) : Prop :=
  out.stuck = none → Reads P s out.state

namespace Completes

variable {P Q : List Token → Prop} {out : Outcome}

theorem mono (h : Completes P s out) (imp : ∀ w, P w → Q w) : Completes Q s out :=
  fun ends => (h ends).mono imp

theorem of_isSome (h : out.stuck.isSome = true) : Completes P s out := by
  intro ends
  rw [ends] at h
  cases h

end Completes

/-- A repetition that comes to its end has read one turn after the other. A turn that was given up is
reported. -/
theorem completes_turns {canStart : State → Bool} {body : State → Outcome} {item : Element}
    (reaches : ∀ s, Reaches plan s (body s).state)
    (reads : ∀ s, Completes (plan.grammar.Derives depth item) s (body s)) (fuel : Nat) (s : State) :
    Completes (plan.grammar.Derives depth (.repetition .zeroOrMore item)) s
      (turns plan canStart body fuel s) := by
  induction fuel generalizing s with
  | zero => exact fun _ => .nothing (.refl s) .done
  | succ fuel ih =>
    have turn := (reaches s).onward
    rw [turns]
    dsimp only
    split
    · split
      · next expected stuck =>
        split
        · -- the turn was given up: the error stays to the end
          refine fun _ => .of_errors fun candid => ?_
          have reported := errors_report_ne plan (turn.candid candid) expected
          exact (reaches_turns reaches fuel _).onward.errors reported
        · exact .of_isSome (by rw [stuck]; rfl)
      · next ran =>
        split
        · intro ends
          exact (reads s ran).append (ih _ ends) turn (reaches_turns reaches fuel _).onward
            fun v w head tail => .again head tail
        · refine (reads s).mono fun w head => ?_
          simpa using Derives.again head .done
    · exact fun _ => .nothing (.refl s) .done

theorem completes_repeated {canStart : State → Bool} {body : State → Outcome} {item : Element}
    (reaches : ∀ s, Reaches plan s (body s).state)
    (reads : ∀ s, Completes (plan.grammar.Derives depth item) s (body s))
    (cardinality : Cardinality) (s : State) :
    Completes (plan.grammar.Derives depth (.repetition cardinality item)) s
      (repeated plan cardinality canStart body s) := by
  cases cardinality with
  | optional =>
    unfold repeated
    dsimp only
    split
    · exact (reads s).mono fun w inside => .present inside
    · exact fun _ => .nothing (.refl s) .absent
  | zeroOrMore => exact completes_turns reaches reads _ s
  | oneOrMore =>
    unfold repeated
    dsimp only
    split
    · next stuck => exact .of_isSome stuck
    · next ran =>
      split
      · intro ends
        exact (reads s (by simpa using ran)).append (completes_turns reaches reads _ _ ends)
          (reaches s).onward (reaches_turns reaches _ _).onward
          fun v w head tail => .atLeast head tail
      · refine (reads s).mono fun w head => ?_
        simpa using Derives.atLeast head .done

/-! ### Elements -/

theorem reads_keyword (plan : Plan) (depth : Nat) (text : String) (feature : Option String) (s : State) :
    Reads (plan.grammar.Derives depth (.keyword text)) s
      (s.expectKeyword plan text feature).1 := by
  refine (reads_expect _ _ _ s).mono ?_
  rintro w ⟨t, fits, rfl⟩
  exact .keyword fits

mutual

theorem completes_run (proper : Proper plan invoke) (hinvoke : Reading plan invoke depth)
    {inData : Bool} : ∀ (e : Element) (s : State),
      e.fault? plan.grammar.rules plan.grammar.types inData = none →
      Completes (plan.grammar.Derives depth e) s (run plan invoke e s)
  | .keyword text, s, _ => by
    have taken := reads_keyword plan depth text none s
    rw [run]
    intro _
    dsimp only
    split
    · exact taken.then_silent (.collect _ _)
    · exact taken
  | .call id, s, checked => by
    rw [Element.fault?, Option.or_eq_none_iff] at checked
    rw [run]
    exact fun _ => reads_call hinvoke rfl checked.1 none s
  | .assign feature op value, s, checked => by
    rw [Element.fault?] at checked
    rw [run]
    split at checked
    · cases checked
    · exact (completes_runAssigned proper hinvoke feature op value s checked).mono
        fun w inside => .assign inside
  | .crossRef _ _, s, checked => by
    -- a cross-reference stands in an assignment only
    rw [Element.fault?] at checked
    cases checked
  | .action type none, s, _ => by
    rw [run]
    exact fun _ => .nothing (.retag s type) .action
  | .action type (some (feature, op)), s, _ => by
    rw [run]
    exact fun _ => .nothing (.wrap plan s type feature op) .action
  | .group items, s, checked => by
    rw [Element.fault?] at checked
    rw [run]
    exact completes_runAll proper hinvoke items s checked
  | .alternatives items, s, checked => by
    rw [Element.fault?] at checked
    rw [run]
    split at checked
    · cases checked
    · split
      · next chosen =>
        refine (completes_runNth proper hinvoke items _ s (lt_of_choose chosen) checked).mono ?_
        rintro w ⟨item, mem, inside⟩
        exact .alternative mem inside
      · exact .of_isSome rfl
  | .repetition cardinality item, s, checked => by
    rw [Element.fault?] at checked
    rw [run]
    exact completes_repeated (reaches_run proper item)
      (fun s => completes_run proper hinvoke item s checked) cardinality s

theorem completes_runAll (proper : Proper plan invoke) (hinvoke : Reading plan invoke depth)
    {inData : Bool} : ∀ (items : List Element) (s : State),
      Element.listFault? plan.grammar.rules plan.grammar.types inData items = none →
      Completes (plan.grammar.Derives depth (.group items)) s (runAll plan invoke items s)
  | [], s, _ => by
    rw [runAll]
    exact fun _ => .nothing (.refl s) .nil
  | item :: rest, s, checked => by
    rw [Element.listFault?, Option.or_eq_none_iff] at checked
    have head := completes_run proper hinvoke item s checked.1
    have tail := completes_runAll proper hinvoke rest (run plan invoke item s).state checked.2
    rw [runAll]
    split
    · next stuck => exact .of_isSome stuck
    · next ran =>
      intro ends
      exact (head (by simpa using ran)).append (tail ends) (reaches_run proper item s).onward
        (reaches_runAll proper rest _).onward fun v w => .cons

theorem completes_runNth (proper : Proper plan invoke) (hinvoke : Reading plan invoke depth)
    {inData : Bool} : ∀ (items : List Element) (i : Nat) (s : State), i < items.length →
      Element.listFault? plan.grammar.rules plan.grammar.types inData items = none →
      Completes (fun w => ∃ item ∈ items, plan.grammar.Derives depth item w) s
        (runNth plan invoke items i s)
  | [], _, _, bound, _ => by cases bound
  | item :: rest, 0, s, _, checked => by
    rw [Element.listFault?, Option.or_eq_none_iff] at checked
    rw [runNth]
    exact (completes_run proper hinvoke item s checked.1).mono
      fun w inside => ⟨item, List.mem_cons_self, inside⟩
  | item :: rest, i + 1, s, bound, checked => by
    rw [Element.listFault?, Option.or_eq_none_iff] at checked
    rw [runNth]
    refine (completes_runNth proper hinvoke rest i s (Nat.lt_of_succ_lt_succ bound) checked.2).mono ?_
    rintro w ⟨chosen, mem, inside⟩
    exact ⟨chosen, List.mem_cons_of_mem _ mem, inside⟩

theorem completes_runAssigned (proper : Proper plan invoke) (hinvoke : Reading plan invoke depth)
    (feature : String) (op : AssignOp) : ∀ (e : Element) (s : State),
      e.assignedFault? plan.grammar.rules plan.grammar.types = none →
      Completes (plan.grammar.Derives depth e) s (runAssigned plan invoke feature op e s)
  | .keyword text, s, _ => by
    have taken := reads_keyword plan depth text (some feature) s
    rw [runAssigned]
    intro _
    dsimp only
    split
    · exact taken.then_silent (.assign _ _ _ _)
    · exact taken
  | .call id, s, checked => by
    rw [Element.assignedFault?] at checked
    rw [runAssigned]
    exact fun _ => reads_call hinvoke rfl checked _ s
  | .crossRef target id, s, checked => by
    rw [Element.assignedFault?, Option.or_eq_none_iff, Option.or_eq_none_iff] at checked
    rw [runAssigned]
    exact fun _ => reads_crossReference hinvoke rfl checked.2.1 feature op target s
  | .alternatives items, s, checked => by
    rw [Element.assignedFault?] at checked
    rw [runAssigned]
    split at checked
    · cases checked
    · split
      · next chosen =>
        refine (completes_runAssignedNth proper hinvoke feature op items _ s (lt_of_choose chosen)
          checked).mono ?_
        rintro w ⟨item, mem, inside⟩
        exact .alternative mem inside
      · exact .of_isSome rfl
  | .assign .., s, checked => by simp [Element.assignedFault?] at checked
  | .action .., s, checked => by simp [Element.assignedFault?] at checked
  | .group _, s, checked => by simp [Element.assignedFault?] at checked
  | .repetition .., s, checked => by simp [Element.assignedFault?] at checked

theorem completes_runAssignedNth (proper : Proper plan invoke)
    (hinvoke : Reading plan invoke depth) (feature : String) (op : AssignOp) :
    ∀ (items : List Element) (i : Nat) (s : State), i < items.length →
      Element.assignedListFault? plan.grammar.rules plan.grammar.types items = none →
      Completes (fun w => ∃ item ∈ items, plan.grammar.Derives depth item w) s
        (runAssignedNth plan invoke feature op items i s)
  | [], _, _, bound, _ => by cases bound
  | item :: rest, 0, s, _, checked => by
    rw [Element.assignedListFault?, Option.or_eq_none_iff] at checked
    rw [runAssignedNth]
    exact (completes_runAssigned proper hinvoke feature op item s checked.1).mono
      fun w inside => ⟨item, List.mem_cons_self, inside⟩
  | item :: rest, i + 1, s, bound, checked => by
    rw [Element.assignedListFault?, Option.or_eq_none_iff] at checked
    rw [runAssignedNth]
    refine (completes_runAssignedNth proper hinvoke feature op rest i s
      (Nat.lt_of_succ_lt_succ bound) checked.2).mono ?_
    rintro w ⟨chosen, mem, inside⟩
    exact ⟨chosen, List.mem_cons_of_mem _ mem, inside⟩

end

/-- An element that gets stuck is reported, so without an error it has come to its end. -/
theorem reads_runReported (proper : Proper plan invoke) (hinvoke : Reading plan invoke depth)
    {e : Element} {inData : Bool}
    (checked : e.fault? plan.grammar.rules plan.grammar.types inData = none) (s : State) :
    Reads (plan.grammar.Derives depth e) s (runReported plan invoke e s) := by
  have ran := (reaches_run proper e s).onward
  unfold runReported
  dsimp only
  split
  · next expected _ =>
    exact .of_errors fun candid => errors_report_ne plan (ran.candid candid) expected
  · next ends => exact completes_run proper hinvoke e s checked ends

/-! ### Rules and documents -/

theorem checked_of_body? {id : RuleId} {body : Element} (h : plan.grammar.body? id = some body) :
    ∃ inData, body.fault? plan.grammar.rules plan.grammar.types inData = none := by
  obtain ⟨rule, known, -, rfl⟩ := rule_of_body? h
  have faultless := plan.grammar.faultless rule (Array.mem_of_getElem? known)
  exact ⟨rule.kind.isDataType, by simpa [Rule.fault?] using faultless⟩

theorem reading_invoke (depth : Nat) : Reading plan (Interpreter.invoke plan depth) depth := by
  induction depth with
  | zero =>
    -- a rule that is nested too deep is not run, which is an error
    intro e id body calls known feature s
    rw [Interpreter.invoke]
    refine .of_errors fun candid => ?_
    exact candid.errors_raise_ne _
  | succ depth ih =>
    intro e id body calls known feature s
    obtain ⟨inData, checked⟩ := checked_of_body? known
    obtain ⟨rule, found, -, rfl⟩ := rule_of_body? known
    rw [Interpreter.invoke, found]
    dsimp only
    have inside := reads_runReported (proper_invoke depth) ih checked
      { s with frame := Frame.enter id rule.kind }
    obtain ⟨finished, -⟩ := leave_spec plan id rule.kind feature (s.nextOffset plan) s.frame
      (runReported plan (Interpreter.invoke plan depth) rule.body
        { s with frame := Frame.enter id rule.kind })
    intro candid noErrors
    rw [finished.stream]
    rw [finished.errors] at noErrors
    obtain ⟨w, visible, derived⟩ := inside candid noErrors
    exact ⟨w, visible, .rule calls known derived⟩

/-- The entry rule is run once, unless an error is recorded: input that is left over is one. -/
theorem reads_runEntry (proper : Proper plan invoke) (hinvoke : Reading plan invoke depth)
    (fuel : Nat) (s : State) :
    Reads (plan.grammar.Derives depth plan.grammar.entryRule.body) s
      (runEntry plan invoke (fuel + 1) s) := by
  obtain ⟨inData, checked⟩ := checked_of_body? plan.grammar.body?_entry
  have ran := reads_runReported proper hinvoke checked s
  rw [runEntry]
  dsimp only
  split
  · exact ran
  · -- the first run has left tokens over, so it is not what the whole input is read by
    refine .of_errors fun _ => ?_
    generalize runReported plan invoke plan.grammar.entryRule.body s = t
    have failed : (t.record plan .trailingInput).errors ≠ #[] := errors_record_ne _
    have skipped := (reaches_skip plan (t.record plan .trailingInput).stream.count
      (t.stream.count == s.stream.count) (t.record plan .trailingInput)).onward.errors failed
    split
    · exact skipped
    · exact (reaches_runEntry proper fuel _).onward.errors skipped

end Interpreter

namespace Parser

open Interpreter

theorem errors_finish (plan : Plan) (s : State) : (finish plan s).1.errors = s.errors := by
  unfold finish
  exact (State.Finishing.construct plan _ _ _ _ _).errors

/-- Tokens that are cut off are an error. -/
theorem errors_opened_ne {p : Parser} {lexed : LexResult}
    (h : p.limits.maxTokens < visibleCount lexed.tokens) : (p.opened lexed).errors ≠ #[] := by
  obtain ⟨extra, rest, cut, -⟩ := cutAfter_of_lt h
  rw [opened, cut]
  simp

/-- **Only sentences are accepted.** If a parse reports no error, then the visible tokens are in the
language of the body of the entry rule. -/
theorem generates_of_parse (p : Parser) (lexed : LexResult)
    (accepted : (p.parse lexed).parseErrors = []) :
    p.grammar.Generates p.grammar.entryRule.body (lexed.tokens.filter Token.isVisible) := by
  have noErrors : (p.ended lexed).errors = #[] := by
    rw [parse_eq] at accepted
    dsimp only at accepted
    rw [errors_finish] at accepted
    simpa using accepted
  have within : visibleCount lexed.tokens ≤ p.limits.maxTokens := by
    by_contra beyond
    have more : p.limits.maxTokens < visibleCount lexed.tokens := by omega
    exact (p.reaches_ended lexed).onward.errors (errors_opened_ne more) noErrors
  have candid : (p.opened lexed).Candid := fun recovering => by cases recovering
  obtain ⟨w, visible, derived⟩ := reads_runEntry (proper_invoke _) (reading_invoke _) _ _ candid noErrors
  have nothingLeft : (p.ended lexed).stream.visible = [] :=
    TokenStream.count_eq_zero_iff.1 (p.count_ended lexed)
  have all : (p.opened lexed).stream.visible = lexed.tokens.filter Token.isVisible := by
    rw [opened, cutAfter_of_le within]
    rfl
  rw [← all, visible]
  change p.grammar.Generates _ (w ++ (p.ended lexed).stream.visible)
  rw [nothingLeft, List.append_nil]
  exact derived.generates

/-- A class with a property, and a comment inside. -/
def smallClass : LexResult :=
  Lexer.tokenize DomainModel.grammar.keywords "class A \x7b many /* all */ b : C.D \x7d"

/-- The parser takes a class for a sentence of the language. -/
theorem generates_smallClass :
    ((DomainModel.parser {}).parse smallClass).parseErrors = [] ∧
    (smallClass.tokens.filter Token.isVisible).map Token.image =
      ["class", "A", "\x7b", "many", "b", ":", "C", ".", "D", "\x7d"] ∧
    DomainModel.grammar.Generates DomainModel.grammar.entryRule.body
      (smallClass.tokens.filter Token.isVisible) := by
  have accepted : ((DomainModel.parser {}).parse smallClass).parseErrors = [] := by decide +kernel
  exact ⟨accepted, by decide +kernel, generates_of_parse (DomainModel.parser {}) smallClass accepted⟩

end Parser

end Workbench
