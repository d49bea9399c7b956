import Workbench.DomainModel.Grammar
import Workbench.Proofs.Parser.Checked
import Workbench.Proofs.Parser.Machine

/-!
**A checked grammar keeps the parser safe.**

The check of a grammar goes through every rule body once, with rules of its own for data-type rules and
for the values of assignments; a parse goes through the bodies as the input has it. What the check
establishes is enough for the parser on its stacks: it meets no breach, and it yields what the
interpreter yields.

Each computation is compared with its counterpart on the stacks of one state, with whatever frames of
callers below. An invocation then is a push, a run on higher stacks, and a pop.
-/

namespace Workbench

/-! ### Rules that are mentioned -/

namespace Element

variable {rules : Array Rule} {types : TypeHierarchy} {id : RuleId}

theorem lt_of_callFault (declared : callFault rules id = none) : id < rules.size := by
  unfold callFault at declared
  split at declared
  · assumption
  · cases declared

mutual

theorem lt_of_mentioned : ∀ (e : Element) (inData : Bool), e.fault? rules types inData = none →
    ∀ id ∈ e.mentioned, id < rules.size
  | .keyword _, _, _ => by simp [mentioned]
  | .action _ _, _, _ => by simp [mentioned]
  | .crossRef _ _, _, faultless => by
    rw [fault?] at faultless
    cases faultless
  | .call id, _, faultless => by
    rw [fault?, Option.or_eq_none_iff] at faultless
    simpa [mentioned] using lt_of_callFault faultless.1
  | .assign _ _ value, inData, faultless => by
    rw [fault?] at faultless
    rw [mentioned]
    cases inData with
    | true => cases faultless
    | false => exact lt_of_mentioned_assigned value faultless
  | .group items, inData, faultless => by
    rw [fault?] at faultless
    rw [mentioned]
    exact lt_of_mentionedIn items inData faultless
  | .alternatives items, inData, faultless => by
    rw [fault?] at faultless
    rw [mentioned]
    split at faultless
    · cases faultless
    · exact lt_of_mentionedIn items inData faultless
  | .repetition _ item, inData, faultless => by
    rw [fault?] at faultless
    rw [mentioned]
    exact lt_of_mentioned item inData faultless

theorem lt_of_mentionedIn : ∀ (items : List Element) (inData : Bool),
    listFault? rules types inData items = none → ∀ id ∈ mentionedIn items, id < rules.size
  | [], _, _ => by simp [mentionedIn]
  | item :: rest, inData, faultless => by
    rw [listFault?, Option.or_eq_none_iff] at faultless
    rw [mentionedIn, List.forall_mem_append]
    exact ⟨lt_of_mentioned item inData faultless.1, lt_of_mentionedIn rest inData faultless.2⟩

theorem lt_of_mentioned_assigned : ∀ (e : Element), e.assignedFault? rules types = none →
    ∀ id ∈ e.mentioned, id < rules.size
  | .keyword _, _ => by simp [mentioned]
  | .call id, faultless => by
    rw [assignedFault?] at faultless
    simpa [mentioned] using lt_of_callFault faultless
  | .crossRef _ id, faultless => by
    rw [assignedFault?, Option.or_eq_none_iff, Option.or_eq_none_iff] at faultless
    simpa [mentioned] using lt_of_callFault faultless.2.1
  | .alternatives items, faultless => by
    rw [assignedFault?] at faultless
    rw [mentioned]
    split at faultless
    · cases faultless
    · exact lt_of_mentionedIn_assigned items faultless
  | .assign .., faultless => by simp [assignedFault?] at faultless
  | .action .., faultless => by simp [assignedFault?] at faultless
  | .group _, faultless => by simp [assignedFault?] at faultless
  | .repetition .., faultless => by simp [assignedFault?] at faultless

theorem lt_of_mentionedIn_assigned : ∀ (items : List Element),
    assignedListFault? rules types items = none → ∀ id ∈ mentionedIn items, id < rules.size
  | [], _ => by simp [mentionedIn]
  | item :: rest, faultless => by
    rw [assignedListFault?, Option.or_eq_none_iff] at faultless
    rw [mentionedIn, List.forall_mem_append]
    exact ⟨lt_of_mentioned_assigned item faultless.1, lt_of_mentionedIn_assigned rest faultless.2⟩

end

end Element

/-! ### The rule of a frame -/

namespace State

variable {plan : Plan} {s : State}

theorem rule_collect (text : String) : (s.collect text).frame.rule = s.frame.rule := by
  unfold collect
  split <;> rfl

theorem rule_assign (feature : String) (op : AssignOp) (value : Value) :
    (s.assign feature op value).frame.rule = s.frame.rule := by
  unfold assign
  split <;> rfl

theorem rule_retag (type : TypeId) : (s.retag type).frame.rule = s.frame.rule := by
  unfold retag
  split
  · rfl
  · split <;> rfl

theorem rule_adopt (id : NodeId) : (s.adopt id).frame.rule = s.frame.rule := by
  unfold adopt
  split <;> rfl

theorem rule_wrap (type : TypeId) (feature : String) (op : AssignOp) :
    (s.wrap plan type feature op).frame.rule = s.frame.rule := by
  cases content : s.frame.content with
  | text acc =>
    unfold wrap
    rw [content]
    rfl
  | object o =>
    have finished := Finishing.constructObject plan s o (wrapChildren feature s.frame)
    rw [wrap_of_object content]
    generalize s.constructObject plan o (wrapChildren feature s.frame) = out at finished
    obtain ⟨t, built⟩ := out
    have same : t.frame.rule = s.frame.rule := congrArg Frame.rule finished.frame
    have restart : ∀ children, (t.restarted type children).frame.rule = s.frame.rule := fun _ => same
    cases built with
    | none => exact restart _
    | some id => exact (rule_assign _ _ _).trans (restart _)

end State

namespace Interpreter

open State

variable {plan : Plan} {invoke : Invocation} {s t : State} {inData : Bool} {id : RuleId} {rule : Rule}

theorem Returns.frame_rule {out : Invoked} (back : Returns out t) :
    t.frame.rule = out.state.frame.rule := by
  cases back with
  | keep => rfl
  | assign => exact rule_assign (s := out.state.attach _) _ _ _
  | adopt => exact rule_adopt (s := out.state.attach _) _
  | refer => exact rule_assign (s := { out.state.attach _ with references := _ }) _ _ _

theorem Reaches.frame_rule (h : Reaches plan s t) : t.frame.rule = s.frame.rule := by
  induction h with
  | refl => rfl
  | trans _ _ ih ih' => exact ih'.trans ih
  | note => rfl
  | record => rfl
  | @fail s problem =>
    change (s.raise plan problem).frame.rule = _
    unfold State.raise
    split <;> rfl
  | settle => rfl
  | consume =>
    unfold State.consume
    split <;> rfl
  | collect text => exact rule_collect text
  | assign _ feature op => exact rule_assign feature op _
  | refer feature op => exact rule_assign feature op _
  | retag type => exact rule_retag type
  | wrap type feature op => exact rule_wrap type feature op
  | call _ _ back =>
    rw [back.frame_rule]
    exact congrArg Frame.rule (leave_spec ..).1.frame

/-- A state in which the body of a rule can run, and the rule exists. -/
structure Poised (plan : Plan) (inData : Bool) (s : State) : Prop extends s.Fits inData where
  known : s.frame.rule < plan.grammar.rules.size

theorem Reaches.poised (h : Reaches plan s t) (poised : Poised plan inData s) :
    Poised plan inData t where
  toFits := h.fits poised.toFits
  known := h.frame_rule.symm ▸ poised.known

end Interpreter

namespace Guarded

open Interpreter (Reaches Answers Heeds Poised)

variable {α β : Type} {plan : Plan} {s t u : State} {inData : Bool} {id : RuleId} {rule : Rule}

/-! ### Steps on the stacks of a state -/

/-- On the stacks of the first state, whatever lies below, a computation meets no breach. It ends with the
result, on the stacks of the second state. -/
def Leads (g : Guarded α) (s t : State) (a : α) : Prop :=
  ∀ below, g (Machine.of s below) = .ok (a, Machine.of t below)

theorem bind_of_ok {g : Guarded α} {f : α → Guarded β} {m n : Machine} {a : α}
    (ok : g m = .ok (a, n)) : (g >>= f) m = f a n := by
  change (g m >>= fun (a, n) => f a n) = _
  rw [ok]
  rfl

theorem Leads.bind {g : Guarded α} {f : α → Guarded β} {a : α} {b : β} (first : Leads g s t a)
    (next : Leads (f a) t u b) : Leads (g >>= f) s u b :=
  fun below => (bind_of_ok (first below)).trans (next below)

theorem leads_pure (s : State) (a : α) : Leads (pure a) s s a := fun _ => rfl

theorem leads_put (s t : State) : Leads (put t) s t () := fun _ => rfl

theorem leads_view (known : s.frame.rule < plan.grammar.rules.size) : Leads (view plan) s s s := by
  intro below
  simp [view, Machine.of, known]

theorem leads_step (known : s.frame.rule < plan.grammar.rules.size) (f : State → State × α) :
    Leads (step plan f) s (f s).1 (f s).2 :=
  (leads_view known).bind ((leads_put s _).bind (leads_pure _ _))

theorem leads_change (known : s.frame.rule < plan.grammar.rules.size) (f : State → State) :
    Leads (change plan f) s (f s) () :=
  leads_step known _

theorem leads_ask (known : s.frame.rule < plan.grammar.rules.size) (f : State → α) :
    Leads (ask plan f) s s (f s) :=
  leads_step known _

theorem leads_onObject (known : s.frame.rule < plan.grammar.rules.size)
    (object : s.frame.isObject = true) (f : State → State) : Leads (onObject plan f) s (f s) () := by
  obtain ⟨o, content⟩ := Frame.isObject_iff.1 object
  refine (leads_view known).bind ?_
  rw [content]
  exact leads_put s (f s)

theorem leads_adopt (known : s.frame.rule < plan.grammar.rules.size)
    (object : s.frame.isObject = true) {n : NodeId} (has : n < s.nodes.size) :
    Leads (adopt plan n) s (s.adopt n) () := by
  refine (leads_view known).bind ?_
  rw [if_pos has]
  exact leads_onObject known object _

theorem leads_lookUp (found : plan.grammar.rules[id]? = some rule) : Leads (lookUp plan id) s s rule := by
  unfold lookUp
  rw [found]
  exact leads_pure s rule

theorem leads_foresee (known : s.frame.rule < plan.grammar.rules.size) {e : Element}
    (declared : ∀ id ∈ e.mentioned, id < plan.grammar.rules.size) (f : State → α) :
    Leads (foresee plan e f) s s (f s) := by
  have none : e.mentioned.find? (fun id => decide (plan.grammar.rules.size ≤ id)) = none := by
    simpa using declared
  unfold foresee
  rw [none]
  exact leads_ask known f

theorem leads_expectKind (poised : Poised plan inData s) (token : TokenKind) (name : String)
    (feature : Option String) :
    Leads (step plan (·.expectKind plan token name feature)) s (s.expectKind plan token name feature).1
        (s.expectKind plan token name feature).2 ∧
      Poised plan inData (s.expectKind plan token name feature).1 :=
  ⟨leads_step poised.known _, (Interpreter.reaches_expect plan s _ _ _).poised poised⟩

theorem leads_expectKeyword (poised : Poised plan inData s) (text : String) (feature : Option String) :
    Leads (step plan (·.expectKeyword plan text feature)) s (s.expectKeyword plan text feature).1
        (s.expectKeyword plan text feature).2 ∧
      Poised plan inData (s.expectKeyword plan text feature).1 :=
  ⟨leads_step poised.known _, (Interpreter.reaches_expect plan s _ _ _).poised poised⟩

/-! ### Repetitions -/

section Repetitions

variable {canStart : State → Bool} {body : State → Outcome} {starts : Guarded Bool}
  {turn : Guarded (Option FirstSet)}

theorem leads_turns (reaches : ∀ s, Reaches plan s (body s).state)
    (start : ∀ s, Poised plan inData s → Leads starts s s (canStart s))
    (leads : ∀ s, Poised plan inData s → Leads turn s (body s).state (body s).stuck) (fuel : Nat)
    {s : State} (poised : Poised plan inData s) :
    Leads (turns plan starts turn fuel) s (Interpreter.turns plan canStart body fuel s).state
      (Interpreter.turns plan canStart body fuel s).stuck := by
  induction fuel generalizing s with
  | zero => exact leads_pure s none
  | succ fuel ih =>
    have after := (reaches s).poised poised
    rw [turns, Interpreter.turns]
    dsimp only
    refine (start s poised).bind ?_
    simp only [decide_eq_true_eq]
    split
    · refine (leads_ask poised.known _).bind ((leads s poised).bind ((leads_ask after.known _).bind ?_))
      cases stuck : (body s).stuck with
      | some expected =>
        dsimp only
        split
        · have reported := (Interpreter.reaches_report expected).poised after
          exact (leads_change after.known _).bind (ih reported)
        · rw [stuck]
          exact leads_pure _ _
      | none =>
        dsimp only
        split
        · exact ih after
        · rw [stuck]
          exact leads_pure _ _
    · exact leads_pure s none

theorem leads_repeated (reaches : ∀ s, Reaches plan s (body s).state)
    (start : ∀ s, Poised plan inData s → Leads starts s s (canStart s))
    (leads : ∀ s, Poised plan inData s → Leads turn s (body s).state (body s).stuck)
    (cardinality : Cardinality) (poised : Poised plan inData s) :
    Leads (repeated plan cardinality starts turn) s
      (Interpreter.repeated plan cardinality canStart body s).state
      (Interpreter.repeated plan cardinality canStart body s).stuck := by
  have after := (reaches s).poised poised
  unfold repeated Interpreter.repeated
  cases cardinality with
  | optional =>
    refine (start s poised).bind ?_
    split
    · exact leads s poised
    · exact leads_pure s none
  | zeroOrMore =>
    exact (leads_ask poised.known _).bind (leads_turns reaches start leads _ poised)
  | oneOrMore =>
    dsimp only
    refine (leads_ask poised.known _).bind ((leads s poised).bind ((leads_ask after.known _).bind ?_))
    split
    · exact leads_pure _ _
    · next unstuck =>
      split
      · exact leads_turns reaches start leads _ after
      · have none : (body s).stuck = none := by simpa using unstuck
        rw [none]
        exact leads_pure _ _

end Repetitions

/-! ### Calls -/

/-- Invocations on the stacks that do what others do, which heed the check of the grammar. -/
structure Follows (plan : Plan) (g : Call) (invoke : Invocation) : Prop extends Heeds plan invoke where
  leads : ∀ {id : RuleId} {rule : Rule} (feature : Option String) {s : State} {inData : Bool},
    plan.grammar.rules[id]? = some rule → rule.kind.terminal? = none → Poised plan inData s →
    Leads (g id feature) s (invoke id feature s).state
      ((invoke id feature s).tree, (invoke id feature s).value)

variable {g : Call} {invoke : Invocation}

theorem leads_take (poised : Poised plan inData s) (token : TokenKind) (value : ValueKind)
    (found : plan.grammar.rules[id]? = some rule) (kind : rule.kind = .terminal token value)
    {target : Option (String × AssignOp)} (assigned : target.isSome = true → inData = false) :
    Leads (take plan token value rule.name target) s (Interpreter.call plan invoke id target s) () := by
  obtain ⟨led, after⟩ := leads_expectKind poised token rule.name (target.map (·.1))
  unfold take Interpreter.call
  rw [found]
  dsimp only
  rw [kind]
  refine led.bind ?_
  dsimp only
  generalize s.expectKind plan token rule.name _ = out at after
  obtain ⟨t, taken⟩ := out
  cases taken with
  | none => exact leads_pure t ()
  | some token =>
    rcases target with _ | ⟨feature, op⟩
    · exact leads_change after.known _
    · exact leads_onObject after.known (after.object (assigned rfl)) _

theorem leads_keep (follows : Follows plan g invoke) (poised : Poised plan inData s)
    (found : plan.grammar.rules[id]? = some rule)
    (other : ∀ token value, rule.kind = .terminal token value → False)
    (inObject : inData = true → Element.parserName? plan.grammar.rules id = none)
    {target : Option (String × AssignOp)} (assigned : target.isSome = true → inData = false) :
    Leads (keep plan (invoke id (target.map (·.1)) s).tree (invoke id (target.map (·.1)) s).value target)
      (invoke id (target.map (·.1)) s).state (Interpreter.call plan invoke id target s) () := by
  have answers := follows.proper id (target.map (·.1)) s
  have parser : ∀ n, (invoke id (target.map (·.1)) s).value = some (.node n) →
      rule.kind.isParser = true := fun n => follows.parser found
  unfold Interpreter.call
  rw [found]
  dsimp only
  split
  · next token value kind => exact (other token value kind).elim
  unfold keep
  generalize invoke id (target.map (·.1)) s = out at answers parser
  have attached := (answers.reaches .keep).poised poised
  have known : ∀ trees, (out.state.attach trees).frame.rule < plan.grammar.rules.size :=
    fun _ => attached.known
  have object : inData = false → ∀ trees, (out.state.attach trees).frame.isObject = true :=
    fun inParser _ => attached.object inParser
  have attach : ∀ trees, Leads (change plan (·.attach trees)) out.state (out.state.attach trees) () :=
    fun trees => leads_change (s := out.state) (known []) _
  cases value : out.value with
  | none => exact attach _
  | some result =>
    cases result with
    | node n =>
      rcases target with _ | ⟨feature, op⟩
      · -- only parser rules make nodes, and data-type rules do not call them
        cases inData with
        | true =>
          have isParser := parser n value
          rw [Interpreter.isParser_eq_false (inObject rfl) found] at isParser
          cases isParser
        | false =>
          exact (attach _).bind (leads_adopt (known _) (object rfl _) (answers.lt_size poised.sane value))
      · exact (attach _).bind (leads_onObject (known _) (object (assigned rfl) _) _)
    | value v =>
      rcases target with _ | ⟨feature, op⟩
      · exact (attach _).bind (leads_change (known _) _)
      · exact (attach _).bind (leads_onObject (known _) (object (assigned rfl) _) _)

theorem leads_call (follows : Follows plan g invoke) (poised : Poised plan inData s)
    (declared : Element.callFault plan.grammar.rules id = none)
    (inObject : inData = true → Element.parserName? plan.grammar.rules id = none)
    {target : Option (String × AssignOp)} (assigned : target.isSome = true → inData = false) :
    Leads (call plan g id target) s (Interpreter.call plan invoke id target s) () := by
  obtain ⟨rule, found⟩ := Interpreter.exists_rule declared
  unfold call
  refine (leads_lookUp found).bind ?_
  split
  · next token value kind => exact leads_take poised token value found kind assigned
  · next other =>
    have led := follows.leads (target.map (·.1)) found (RuleKind.terminal?_eq_none other) poised
    exact led.bind (leads_keep follows poised found other inObject assigned)

theorem leads_takeText (poised : Poised plan false s) (token : TokenKind) (value : ValueKind)
    (found : plan.grammar.rules[id]? = some rule) (kind : rule.kind = .terminal token value)
    (feature : String) (op : AssignOp) (target : TypeId) :
    Leads (takeText plan feature op target token value rule.name) s
      (Interpreter.crossReference plan invoke feature op target id s) () := by
  obtain ⟨led, after⟩ := leads_expectKind poised token rule.name (some feature)
  unfold takeText Interpreter.crossReference
  rw [found]
  dsimp only
  rw [kind]
  refine led.bind ?_
  dsimp only
  generalize s.expectKind plan token rule.name _ = out at after
  obtain ⟨t, taken⟩ := out
  cases taken with
  | none => exact leads_pure t ()
  | some token => exact leads_onObject after.known (after.object rfl) _

theorem leads_keepText (follows : Follows plan g invoke) (poised : Poised plan false s)
    (found : plan.grammar.rules[id]? = some rule)
    (other : ∀ token value, rule.kind = .terminal token value → False)
    (noParser : Element.parserName? plan.grammar.rules id = none) (feature : String) (op : AssignOp)
    (target : TypeId) :
    Leads (keepText plan feature op target (invoke id (some feature) s).tree
        (invoke id (some feature) s).value)
      (invoke id (some feature) s).state (Interpreter.crossReference plan invoke feature op target id s)
      () := by
  have answers := follows.proper id (some feature) s
  have parser : ∀ n, (invoke id (some feature) s).value = some (.node n) →
      rule.kind.isParser = true := fun n => follows.parser found
  unfold Interpreter.crossReference
  rw [found]
  dsimp only
  split
  · next token value kind => exact (other token value kind).elim
  unfold keepText
  generalize invoke id (some feature) s = out at answers parser
  have attached := (answers.reaches .keep).poised poised
  refine (leads_change (s := out.state) attached.known _).bind ?_
  cases value : out.value with
  | none => exact leads_pure _ ()
  | some result =>
    cases result with
    | node n =>
      have isParser := parser n value
      rw [Interpreter.isParser_eq_false noParser found] at isParser
      cases isParser
    | value v =>
      cases tree : out.tree with
      | none => exact leads_pure _ ()
      | some tree =>
        rw [tree] at attached
        exact leads_onObject attached.known (attached.object rfl) _

theorem leads_crossReference (follows : Follows plan g invoke) (poised : Poised plan false s)
    (declared : Element.callFault plan.grammar.rules id = none)
    (noParser : Element.parserName? plan.grammar.rules id = none) (feature : String) (op : AssignOp)
    (target : TypeId) :
    Leads (crossReference plan g feature op target id) s
      (Interpreter.crossReference plan invoke feature op target id s) () := by
  obtain ⟨rule, found⟩ := Interpreter.exists_rule declared
  unfold crossReference
  refine (leads_lookUp found).bind ?_
  split
  · next token value kind => exact leads_takeText poised token value found kind feature op target
  · next other =>
    have led := follows.leads (some feature) found (RuleKind.terminal?_eq_none other) poised
    exact led.bind (leads_keepText follows poised found other noParser feature op target)

/-! ### Elements -/

mutual

theorem leads_run (follows : Follows plan g invoke) : ∀ (e : Element) (inData : Bool) (s : State),
    Poised plan inData s → e.fault? plan.grammar.rules plan.grammar.types inData = none →
    Leads (run plan g e) s (Interpreter.run plan invoke e s).state
      (Interpreter.run plan invoke e s).stuck
  | .keyword text, inData, s, poised, _ => by
    rw [run, Interpreter.run]
    obtain ⟨led, after⟩ := leads_expectKeyword poised text none
    refine led.bind ?_
    dsimp only
    split
    · exact (leads_change after.known _).bind (leads_pure _ none)
    · exact leads_pure _ none
  | .call id, inData, s, poised, faultless => by
    rw [Element.fault?, Option.or_eq_none_iff] at faultless
    rw [run, Interpreter.run]
    have inObject : inData = true → Element.parserName? plan.grammar.rules id = none := by
      intro data
      simpa [data] using faultless.2
    have unassigned : (none : Option (String × AssignOp)).isSome = true → inData = false := nofun
    exact (leads_call follows poised faultless.1 inObject unassigned).bind (leads_pure _ none)
  | .assign feature op value, inData, s, poised, faultless => by
    rw [Element.fault?] at faultless
    rw [run, Interpreter.run]
    cases inData with
    | true => cases faultless
    | false => exact leads_runAssigned follows feature op value s poised faultless
  | .crossRef _ _, _, _, _, faultless => by
    rw [Element.fault?] at faultless
    cases faultless
  | .action type into, inData, s, poised, faultless => by
    rw [Element.fault?] at faultless
    cases inData with
    | true => cases faultless
    | false =>
      have object := poised.object rfl
      rcases into with _ | ⟨feature, op⟩
      · rw [run, Interpreter.run]
        exact (leads_onObject poised.known object _).bind (leads_pure _ none)
      · rw [run, Interpreter.run]
        exact (leads_onObject poised.known object _).bind (leads_pure _ none)
  | .group items, inData, s, poised, faultless => by
    rw [Element.fault?] at faultless
    rw [run, Interpreter.run]
    exact leads_runAll follows items inData s poised faultless
  | .alternatives items, inData, s, poised, faultless => by
    have declared := Element.lt_of_mentioned _ inData faultless
    rw [Element.fault?] at faultless
    rw [run, Interpreter.run]
    refine (leads_foresee poised.known declared _).bind ?_
    split at faultless
    · cases faultless
    · cases Interpreter.choose plan items s with
      | none => exact leads_pure s _
      | some i => exact leads_runNth follows items inData i s poised faultless
  | .repetition cardinality item, inData, s, poised, faultless => by
    rw [Element.fault?] at faultless
    have declared := Element.lt_of_mentioned item inData faultless
    rw [run, Interpreter.run]
    exact leads_repeated (Interpreter.reaches_run follows.proper item)
      (fun s poised => leads_foresee poised.known declared _)
      (fun s poised => leads_run follows item inData s poised faultless) cardinality poised

theorem leads_runAll (follows : Follows plan g invoke) : ∀ (items : List Element) (inData : Bool)
    (s : State), Poised plan inData s →
    Element.listFault? plan.grammar.rules plan.grammar.types inData items = none →
    Leads (runAll plan g items) s (Interpreter.runAll plan invoke items s).state
      (Interpreter.runAll plan invoke items s).stuck
  | [], _, s, _, _ => by
    rw [runAll, Interpreter.runAll]
    exact leads_pure s none
  | item :: rest, inData, s, poised, faultless => by
    rw [Element.listFault?, Option.or_eq_none_iff] at faultless
    have after := (Interpreter.reaches_run follows.proper item s).poised poised
    rw [runAll, Interpreter.runAll]
    refine (leads_run follows item inData s poised faultless.1).bind ?_
    split
    · exact leads_pure _ _
    · exact leads_runAll follows rest inData _ after faultless.2

theorem leads_runNth (follows : Follows plan g invoke) : ∀ (items : List Element) (inData : Bool)
    (i : Nat) (s : State), Poised plan inData s →
    Element.listFault? plan.grammar.rules plan.grammar.types inData items = none →
    Leads (runNth plan g items i) s (Interpreter.runNth plan invoke items i s).state
      (Interpreter.runNth plan invoke items i s).stuck
  | [], _, _, s, _, _ => by
    rw [runNth, Interpreter.runNth]
    exact leads_pure s none
  | item :: rest, inData, 0, s, poised, faultless => by
    rw [Element.listFault?, Option.or_eq_none_iff] at faultless
    rw [runNth, Interpreter.runNth]
    exact leads_run follows item inData s poised faultless.1
  | item :: rest, inData, i + 1, s, poised, faultless => by
    rw [Element.listFault?, Option.or_eq_none_iff] at faultless
    rw [runNth, Interpreter.runNth]
    exact leads_runNth follows rest inData i s poised faultless.2

theorem leads_runAssigned (follows : Follows plan g invoke) (feature : String) (op : AssignOp) :
    ∀ (e : Element) (s : State), Poised plan false s →
    e.assignedFault? plan.grammar.rules plan.grammar.types = none →
    Leads (runAssigned plan g feature op e) s
      (Interpreter.runAssigned plan invoke feature op e s).state
      (Interpreter.runAssigned plan invoke feature op e s).stuck
  | .keyword text, s, poised, _ => by
    rw [runAssigned, Interpreter.runAssigned]
    obtain ⟨led, after⟩ := leads_expectKeyword poised text (some feature)
    refine led.bind ?_
    dsimp only
    split
    · exact (leads_onObject after.known (after.object rfl) _).bind (leads_pure _ none)
    · exact leads_pure _ none
  | .call id, s, poised, faultless => by
    rw [Element.assignedFault?] at faultless
    rw [runAssigned, Interpreter.runAssigned]
    exact (leads_call follows poised faultless nofun fun _ => rfl).bind (leads_pure _ none)
  | .crossRef target id, s, poised, faultless => by
    rw [Element.assignedFault?, Option.or_eq_none_iff, Option.or_eq_none_iff, Option.map_eq_none_iff]
      at faultless
    rw [runAssigned, Interpreter.runAssigned]
    exact (leads_crossReference follows poised faultless.2.1 faultless.2.2 feature op target).bind
      (leads_pure _ none)
  | .alternatives items, s, poised, faultless => by
    have declared := Element.lt_of_mentioned_assigned _ faultless
    rw [Element.assignedFault?] at faultless
    rw [runAssigned, Interpreter.runAssigned]
    refine (leads_foresee poised.known declared _).bind ?_
    split at faultless
    · cases faultless
    · cases Interpreter.choose plan items s with
      | none => exact leads_pure s _
      | some i => exact leads_runAssignedNth follows feature op items i s poised faultless
  | .assign .., s, _, faultless => by simp [Element.assignedFault?] at faultless
  | .action .., s, _, faultless => by simp [Element.assignedFault?] at faultless
  | .group _, s, _, faultless => by simp [Element.assignedFault?] at faultless
  | .repetition .., s, _, faultless => by simp [Element.assignedFault?] at faultless

theorem leads_runAssignedNth (follows : Follows plan g invoke) (feature : String) (op : AssignOp) :
    ∀ (items : List Element) (i : Nat) (s : State), Poised plan false s →
    Element.assignedListFault? plan.grammar.rules plan.grammar.types items = none →
    Leads (runAssignedNth plan g feature op items i) s
      (Interpreter.runAssignedNth plan invoke feature op items i s).state
      (Interpreter.runAssignedNth plan invoke feature op items i s).stuck
  | [], _, s, _, _ => by
    rw [runAssignedNth, Interpreter.runAssignedNth]
    exact leads_pure s none
  | item :: rest, 0, s, poised, faultless => by
    rw [Element.assignedListFault?, Option.or_eq_none_iff] at faultless
    rw [runAssignedNth, Interpreter.runAssignedNth]
    exact leads_runAssigned follows feature op item s poised faultless.1
  | item :: rest, i + 1, s, poised, faultless => by
    rw [Element.assignedListFault?, Option.or_eq_none_iff] at faultless
    rw [runAssignedNth, Interpreter.runAssignedNth]
    exact leads_runAssignedNth follows feature op rest i s poised faultless.2

end

/-! ### Rules -/

theorem leads_runReported (follows : Follows plan g invoke) (poised : Poised plan inData s) {e : Element}
    (faultless : e.fault? plan.grammar.rules plan.grammar.types inData = none) :
    Leads (runReported plan g e) s (Interpreter.runReported plan invoke e s) () := by
  have after := (Interpreter.reaches_run follows.proper e s).poised poised
  unfold runReported Interpreter.runReported
  refine (leads_run follows e inData s poised faultless).bind ?_
  dsimp only
  cases (Interpreter.run plan invoke e s).stuck with
  | none => exact leads_pure _ ()
  | some expected => exact leads_change after.known _

/-- The frame of a rule is taken off, and its caller goes on. -/
theorem leave_of {caller : Frame} (known : t.frame.rule < plan.grammar.rules.size)
    (callerKnown : caller.rule < plan.grammar.rules.size) (id : RuleId) (kind : RuleKind)
    (feature : Option String) (offset : Nat) (below : List Frame) :
    leave plan id kind feature offset (Machine.of t (caller :: below)) =
      .ok (((Interpreter.leave plan id kind feature offset caller t).tree,
        (Interpreter.leave plan id kind feature offset caller t).value),
        Machine.of (Interpreter.leave plan id kind feature offset caller t).state below) := by
  have popped : pop plan (Machine.of t (caller :: below)) =
      .ok (t.frame, Machine.of { t with frame := caller } below) :=
    bind_of_ok (leads_view known (caller :: below))
  refine (bind_of_ok popped).trans ?_
  exact leads_step (s := { t with frame := caller }) callerKnown _ below

/-- An invocation puts one frame on the stacks and takes it off again. -/
theorem follows_invoke (plan : Plan) (depth : Nat) :
    Follows plan (Guarded.invoke plan depth) (Interpreter.invoke plan depth) := by
  induction depth with
  | zero =>
    refine ⟨Interpreter.heeds_invoke plan 0, fun feature _ _ found _ poised => ?_⟩
    exact (leads_lookUp found).bind ((leads_change poised.known _).bind (leads_pure _ (none, none)))
  | succ depth ih =>
    refine ⟨Interpreter.heeds_invoke plan (depth + 1), ?_⟩
    intro id rule feature s inData found nonterminal poised
    have entered : Poised plan rule.kind.isDataType { s with frame := Frame.enter id rule.kind } := by
      refine ⟨Interpreter.fits_enter poised.sane nonterminal id, ?_⟩
      have bound : id < plan.grammar.rules.size := (Array.getElem?_eq_some_iff.1 found).1
      cases kind : rule.kind <;> exact bound
    have ran := leads_runReported ih entered (Interpreter.faultless_body plan.grammar found)
    have ended := (Interpreter.reaches_runReported ih.proper rule.body _).poised entered
    rw [Guarded.invoke, Interpreter.invoke, found]
    dsimp only
    generalize Interpreter.runReported plan (Interpreter.invoke plan depth) rule.body
      { s with frame := Frame.enter id rule.kind } = t at ran ended
    refine (leads_lookUp found).bind ((leads_ask poised.known _).bind fun below => ?_)
    have pushed : push (Frame.enter id rule.kind) (Machine.of s below) =
        .ok ((), Machine.of { s with frame := Frame.enter id rule.kind } (s.frame :: below)) := rfl
    refine (bind_of_ok pushed).trans ((bind_of_ok (ran (s.frame :: below))).trans ?_)
    exact leave_of ended.known poised.known id rule.kind feature _ below

/-! ### Documents -/

theorem leads_skip (fuel : Nat) (stalled : Bool) {s : State} (poised : Poised plan false s) :
    Leads (skip plan plan.grammar.entryRule.body fuel stalled) s (Interpreter.skip plan fuel stalled s)
      () := by
  have declared := Element.lt_of_mentioned _ _
    (Interpreter.faultless_body plan.grammar plan.grammar.entry_eq)
  induction fuel generalizing stalled s with
  | zero => exact leads_pure s ()
  | succ fuel ih =>
    rw [skip, Interpreter.skip]
    refine (leads_ask poised.known _).bind ((leads_foresee poised.known declared _).bind ?_)
    split
    · exact leads_pure s ()
    · exact (leads_change poised.known _).bind (ih false ((Reaches.consume none).poised poised))

theorem leads_runEntry (follows : Follows plan g invoke) (fuel : Nat) {s : State}
    (poised : Poised plan false s) :
    Leads (runEntry plan g plan.grammar.entryRule.body fuel) s
      (Interpreter.runEntry plan invoke fuel s) () := by
  have faultless := Interpreter.faultless_body plan.grammar plan.grammar.entry_eq
  rw [plan.grammar.entry_kind] at faultless
  induction fuel generalizing s with
  | zero => exact leads_pure s ()
  | succ fuel ih =>
    have ran := leads_runReported follows poised faultless
    have after := (Interpreter.reaches_runReported follows.proper plan.grammar.entryRule.body s).poised
      poised
    rw [runEntry, Interpreter.runEntry]
    dsimp only
    generalize Interpreter.runReported plan invoke plan.grammar.entryRule.body s = t at ran after
    refine (leads_ask poised.known _).bind (ran.bind ((leads_ask after.known _).bind ?_))
    split
    · exact leads_pure t ()
    · have failed : Poised plan false (t.record plan .trailingInput) :=
        (Reaches.record .trailingInput).poised after
      have same : (t.record plan .trailingInput).stream.count = t.stream.count := rfl
      have passed := leads_skip t.stream.count (t.stream.count == s.stream.count) failed
      have skipped := (Interpreter.reaches_skip plan t.stream.count
        (t.stream.count == s.stream.count) _).poised failed
      rw [same]
      generalize Interpreter.skip plan t.stream.count (t.stream.count == s.stream.count)
        (t.record plan .trailingInput) = u at passed skipped
      have resumed := (Reaches.settle (s := u)).poised skipped
      refine (leads_change after.known _).bind (passed.bind ((leads_change skipped.known _).bind
        ((leads_ask resumed.known _).bind ?_)))
      split
      · exact leads_pure _ ()
      · exact ih resumed

end Guarded

namespace Parser

open Guarded

theorem incidents_finish (plan : Plan) (s : State) : (finish plan s).1.incidents = s.incidents := by
  unfold finish
  exact State.incidents_construct (s := s.flushHidden) _ _ _ _

theorem poised_opened (p : Parser) (lexed : LexResult) :
    Interpreter.Poised (p.planFor lexed) false (p.opened lexed) where
  sane := p.sane_opened lexed
  object _ := rfl
  known := (Array.getElem?_eq_some_iff.1 p.grammar.entry_eq).1

/-- The entry rule is run from empty stacks on, and its frame is on top of them in the end. -/
theorem document_eq (p : Parser) (lexed : LexResult) :
    document p (p.planFor lexed) (.empty (p.opened lexed).stream (p.opened lexed).errors) =
      .ok (p.ended lexed, Machine.of (p.ended lexed) []) := by
  have poised := p.poised_opened lexed
  have ended := (p.reaches_ended lexed).poised poised
  have entry : lookUp (p.planFor lexed) p.grammar.entry
      (.empty (p.opened lexed).stream (p.opened lexed).errors) =
        .ok (p.grammar.entryRule, .empty (p.opened lexed).stream (p.opened lexed).errors) := by
    have found : (p.planFor lexed).grammar.rules[p.grammar.entry]? = some p.grammar.entryRule :=
      p.grammar.entry_eq
    unfold lookUp
    rw [found]
    rfl
  have pushed : push { rule := p.grammar.entry, content := .object { type := some p.grammar.entryType } }
      (.empty (p.opened lexed).stream (p.opened lexed).errors) =
        .ok ((), Machine.of (p.opened lexed) []) := rfl
  have ran : Leads (runEntry _ (Guarded.invoke (p.planFor lexed) (p.limits.maxRuleDepth - 1))
      p.grammar.entryRule.body ((p.opened lexed).stream.count + 1)) (p.opened lexed)
      (p.ended lexed) () :=
    leads_runEntry (follows_invoke _ _) _ poised
  refine (bind_of_ok entry).trans ((bind_of_ok pushed).trans ?_)
  refine (bind_of_ok (leads_ask poised.known _ [])).trans ?_
  exact ran.bind (leads_view ended.known) []

/-- **In a checked grammar a parse meets no breach.** From empty stacks on, whatever the tokens and the
limits are, the stacks are equally high and not empty at every step, every rule that is looked up exists,
no element is run where it has no place, objects are changed only where there is one, and no reference gets
its text from a node. What comes of it is what the interpreter yields, and that has noted no incident but
that the limit on the depth was met. -/
theorem guarded_parse (p : Parser) (lexed : LexResult) :
    Guarded.parse p lexed = .ok (p.parse lexed) ∧
      ∀ i ∈ (p.parse lexed).incidents, i = .depthLimit := by
  rw [parse_eq]
  constructor
  · unfold Guarded.parse
    dsimp only
    rw [document_eq]
    rfl
  · intro i mem
    rw [incidents_finish] at mem
    exact p.incidents_ended lexed i mem

/-- A parser that lets the entry rule call no other. -/
def shallow : Parser := DomainModel.parser { maxRuleDepth := 1 }

theorem guarded_parse_shallow :
    Guarded.parse shallow (shallow.tokenize "class A \x7b\x7d") =
        .ok (shallow.parse (shallow.tokenize "class A \x7b\x7d")) ∧
      .depthLimit ∈ (shallow.parse (shallow.tokenize "class A \x7b\x7d")).incidents ∧
      ∀ i ∈ (shallow.parse (shallow.tokenize "class A \x7b\x7d")).incidents, i = .depthLimit := by
  obtain ⟨same, limit⟩ := guarded_parse shallow (shallow.tokenize "class A \x7b\x7d")
  exact ⟨same, by decide +kernel, limit⟩

end Parser

end Workbench
