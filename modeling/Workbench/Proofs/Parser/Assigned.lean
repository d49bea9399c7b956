import Workbench.Proofs.Parser.Laws
import Workbench.Proofs.Parser.WellFormed

/-!
**Laws hold in every parse.**

A run of the body of a rule keeps a law if all invocations do, by induction on the structure of the body,
and an invocation hands to its caller a branch whose value and trees are related, by induction on the depth
that is allowed. In the end the law holds for every node of the document, whatever errors the text has.
-/

namespace Workbench

open SourceTree

namespace Interpreter

open State

/-! ### References -/

section References

variable {plan : Plan} {s t : State}

theorem kept_makeReference (feature : String) (op : AssignOp) (target : TypeId) (text : String)
    (source : SourceTree) (s : State) :
    Reference.Kept s.references (makeReference feature op target text source s).references := by
  unfold makeReference
  rw [references_assign]
  exact .push _ _

theorem kept_leave (id : RuleId) (kind : RuleKind) (feature : Option String) (offset : Nat)
    (caller : Frame) (s : State) :
    Reference.Kept s.references (leave plan id kind feature offset caller s).state.references := by
  unfold leave
  dsimp only
  split
  · exact .refl _
  · split
    · next o _ =>
      have finished := kept_constructObject plan o
        (some (.close id feature offset s.frame.children.toList)) { s with frame := caller }
      split <;> exact finished
    · exact .refl _
    · exact .refl _

theorem Returns.kept {out : Invoked} (back : Returns out t) :
    Reference.Kept out.state.references t.references := by
  cases back with
  | keep => exact .refl _
  | assign =>
    rw [references_assign]
    exact .refl _
  | adopt =>
    rw [references_adopt]
    exact .refl _
  | @refer tree took feature op target text =>
    exact kept_makeReference feature op target text tree (out.state.attach [tree])

/-- No run takes a reference out of the list or changes more than the place where it is held. -/
theorem Reaches.kept (h : Reaches plan s t) : Reference.Kept s.references t.references := by
  induction h with
  | refl => exact .refl _
  | trans _ _ ih ih' => exact ih.trans ih'
  | note => exact .refl _
  | record => exact .refl _
  | fail problem =>
    dsimp only
    rw [references_raise]
    exact .refl _
  | settle => exact .refl _
  | consume feature =>
    rw [references_consume]
    exact .refl _
  | collect text =>
    rw [references_collect]
    exact .refl _
  | assign =>
    rw [references_assign]
    exact .refl _
  | refer => exact kept_makeReference _ _ _ _ _ _
  | retag =>
    rw [references_retag]
    exact .refl _
  | wrap => exact kept_wrap _ _ _
  | call _ _ back ih => exact (ih.trans (kept_leave _ _ _ _ _ _)).trans back.kept

end References

/-! ### Invocations -/

/-- What an invocation of the rule `id` hands to its caller, who assigns it to `assigned` if that is a
feature. A branch without a value comes from an object without a type. -/
structure Delivers (g : Grammar) (R : FeatureRelation)
    (feature : String) (s : State) (id : RuleId) (rule : Rule) (assigned : Option String) (out : Invoked) :
    Prop where
  frame : out.state.frame = s.frame
  nodes : NodesAbide R feature out.state
  references : Reference.Kept s.references out.state.references
  node : ∀ n, out.value = some (.node n) → rule.kind.isParser = true ∧
    ∃ range children m, out.tree = some (.branch id assigned range (some n) children) ∧
      out.state.nodes[n]? = some m ∧ m.source = out.tree
  text : ∀ v, out.value = some (.value v) → ∃ value range children text, rule.kind = .dataType value ∧
    out.tree = some (.branch id assigned range none children) ∧ Collected g children text ∧
    v = value.ofCollected text
  nothing : out.value = none → ∀ tree ∈ out.tree, rule.kind.isParser = true ∧ ¬ g.Typed ∧
    ∃ range children v, tree = .branch id assigned range none children ∧
      R out.state.references v (withFeatureOf feature children)

/-- Invocations that always deliver. -/
def Supplies (g : Grammar) (R : FeatureRelation)
    (feature : String) (invoke : Invocation) : Prop :=
  ∀ (id : RuleId) (rule : Rule) (assigned : Option String) (s : State), g.rules[id]? = some rule →
    rule.kind.terminal? = none → s.Sane → NodesAbide R feature s →
    Delivers g R feature s id rule assigned (invoke id assigned s)

variable {R : FeatureRelation} {feature : String} {g : Grammar}
  {plan : Plan} {invoke : Invocation} {s : State} {id : RuleId} {rule : Rule} {inData : Bool}

namespace Delivers

variable {assigned : Option String} {out : Invoked}

theorem grown (h : Delivers g R feature s id rule assigned out) (trees : List SourceTree) :
    Grown R feature s (out.state.attach trees) where
  content := by rw [State.attach, h.frame]
  nodes := h.nodes
  references := h.references

theorem assigned_attach (h : Delivers g R feature s id rule assigned out) (trees : List SourceTree) :
    (out.state.attach trees).frame.assigned feature =
      s.frame.assigned feature ++ withFeatureOf feature trees := by
  rw [State.assigned_attach, h.frame]

theorem children_attach (h : Delivers g R feature s id rule assigned out) (trees : List SourceTree) :
    (out.state.attach trees).frame.children.toList = s.frame.children.toList ++ trees := by
  simp [State.attach, h.frame]

/-- Without a tree nothing is added. -/
theorem abides_attach (h : Delivers g R feature s id rule assigned out) (law : Law g feature R)
    (abides : Abides g R feature s) (nothing : out.tree = none) :
    Abides g R feature (out.state.attach out.tree.toList) := by
  rw [nothing]
  refine abides.pass law (h.grown _) ?_ fun acc content => ?_
  · rw [h.assigned_attach]
    simp
  · rw [h.children_attach]
    simpa using abides.text acc content

end Delivers

theorem delivers_leave (law : Law plan.grammar feature R) (nonterminal : rule.kind.terminal? = none)
    {ended : State} (abides : Abides plan.grammar R feature ended)
    (fits : ended.Fits rule.kind.isDataType)
    (inner : Reaches plan { s with frame := Frame.enter id rule.kind } ended)
    (kept : Reference.Kept s.references ended.references) (assigned : Option String) (offset : Nat) :
    Delivers plan.grammar R feature s id rule assigned
      (leave plan id rule.kind assigned offset s.frame ended) := by
  have parser : ended.frame.isObject = true → rule.kind.isParser = true := by
    rw [inner.isObject]
    exact (Frame.isObject_enter id rule.kind).symm.trans
  have frame := frame_leave plan id rule.kind assigned offset s.frame ended
  unfold leave at frame ⊢
  dsimp only at frame ⊢
  split
  · exact ⟨rfl, abides.nodes, kept, nofun, nofun, nofun⟩
  · next nonempty =>
    rw [if_neg nonempty] at frame
    split
    · next o content =>
      have parser := parser (Frame.isObject_iff.2 ⟨o, content⟩)
      have held := abides.object o content
      have slot := fits.sane.slot o content
      have nodes : NodesAbide R feature { ended with frame := s.frame } := abides.nodes
      rw [content] at frame
      dsimp only at frame
      generalize closed : SourceTree.close id assigned offset ended.frame.children.toList = tree at frame ⊢
      have finished : Finished R feature (some tree)
          (constructObject plan o (some tree) { ended with frame := s.frame }) :=
        finished_constructObject law nodes (closed ▸ held) slot
      have grows := kept_constructObject plan o (some tree) { ended with frame := s.frame }
      have untyped : (constructObject plan o (some tree) { ended with frame := s.frame }).2 = none →
          o.type = none := type_eq_none_of_dropped
      generalize constructObject plan o (some tree) { ended with frame := s.frame } = out
        at finished untyped frame grows
      obtain ⟨t, built⟩ := out
      subst closed
      have references := kept.trans grows
      cases built with
      | some n =>
        refine ⟨frame, finished.nodes, references, ?_, nofun, nofun⟩
        rintro _ ⟨⟩
        obtain ⟨m, found, source⟩ := finished.built n rfl
        exact ⟨parser, _, _, m, rfl, found, source⟩
      | none =>
        refine ⟨frame, finished.nodes, references, nofun, nofun, ?_⟩
        rintro - _ ⟨⟩
        exact ⟨parser, fun all => abides.typed all o content (untyped rfl), _, _, _, rfl,
          law.grows grows held⟩
    · next acc value content kind =>
      refine ⟨rfl, abides.nodes, kept, nofun, ?_, nofun⟩
      rintro _ ⟨⟩
      exact ⟨value, _, _, acc, kind, rfl, abides.text acc content, rfl⟩
    · next acc content other =>
      -- a rule that is no data-type rule builds an object
      exfalso
      cases kind : rule.kind with
      | parser returns =>
        have isObject := fits.object (by rw [kind]; rfl)
        obtain ⟨o, object⟩ := Frame.isObject_iff.1 isObject
        rw [content] at object
        cases object
      | terminal token value =>
        rw [kind] at nonterminal
        cases nonterminal
      | dataType value => exact other value kind

/-! ### Tokens -/

theorem takes_expectKind (plan : Plan) (s : State) (kind : TokenKind) (name : String)
    (assigned : Option String) :
    State.Takes assigned s (s.expectKind plan kind name assigned).1 (s.expectKind plan kind name assigned).2 ∧
      ∀ u ∈ (s.expectKind plan kind name assigned).2, u.kind = kind :=
  ⟨State.Takes.expect plan s _ _ assigned, fun _ taken => by simpa using accepts_of_expect taken⟩

theorem takes_expectKeyword (plan : Plan) (s : State) (text : String) (assigned : Option String) :
    State.Takes assigned s (s.expectKeyword plan text assigned).1 (s.expectKeyword plan text assigned).2 ∧
      ∀ u ∈ (s.expectKeyword plan text assigned).2, u.isKeyword text = true :=
  ⟨State.Takes.expect plan s _ _ assigned, fun _ taken => accepts_of_expect taken⟩

/-! ### Calls -/

theorem abides_call (law : Law plan.grammar feature R) (supplies : Supplies plan.grammar R feature invoke)
    (fits : s.Fits inData) (abides : Abides plan.grammar R feature s)
    (declared : Element.callFault plan.grammar.rules id = none)
    (inObject : inData = true → Element.parserName? plan.grammar.rules id = none) :
    Abides plan.grammar R feature (call plan invoke id none s) := by
  obtain ⟨rule, known⟩ := exists_rule declared
  unfold call
  rw [known]
  dsimp only
  split
  · next token value kind =>
    obtain ⟨took, accepted⟩ := takes_expectKind plan s token rule.name none
    dsimp only [Option.map_none]
    generalize s.expectKind plan token rule.name none = out at took accepted
    obtain ⟨t, taken⟩ := out
    cases taken with
    | none => exact abides.miss law took
    | some u =>
      obtain ⟨passed, children⟩ := took.children
      refine abides.gather law (abides.takes took) (took.sameFor nofun).assigned fun acc content => ?_
      rw [children]
      exact .token ((abides.text acc content).passes passed) known kind (accepted u rfl)
  · next other =>
    have nonterminal := RuleKind.terminal?_eq_none other
    have delivers := supplies id rule none s known nonterminal fits.sane abides.nodes
    -- only parser rules make nodes, and data-type rules do not call them
    have isObject : rule.kind.isParser = true → s.frame.isObject = true := by
      intro parser
      cases inData with
      | false => exact fits.object rfl
      | true =>
        rw [isParser_eq_false (inObject rfl) known] at parser
        cases parser
    dsimp only [Option.map_none]
    generalize invoke id none s = out at delivers
    split
    · next value =>
      cases took : out.tree with
      | none => exact took ▸ delivers.abides_attach law abides took
      | some tree =>
        obtain ⟨parser, untyped, range, children, v, rfl, holds⟩ := delivers.nothing value tree took
        refine abides.drop law (delivers.grown _) (isObject parser) untyped ?_ holds
        rw [delivers.assigned_attach]
        simp [withFeature]
    · next eq => cases eq
    · next eq => cases eq
    · next n value _ =>
      obtain ⟨parser, range, children, m, tree, found, source⟩ := delivers.node n value
      refine abides.adopt law (delivers.grown _) fits.sane (isObject parser) found ?_
      rw [delivers.assigned_attach, AstNode.assigned, source, tree]
      simp [withOwner, withFeature, assignedTo, SourceTree.children]
    · next v value _ =>
      obtain ⟨kind, range, children, text, data, tree, below, rfl⟩ := delivers.text v value
      rw [tree]
      refine abides.gather law (delivers.grown _) ?_ fun acc content => ?_
      · rw [delivers.assigned_attach]
        simp [withFeature, below.withFeatureOf_eq]
      · rw [delivers.children_attach]
        exact .data (abides.text acc content) known data below

/-! ### Assignments -/

theorem abides_assignedCall (law : Law plan.grammar feature R)
    (supplies : Supplies plan.grammar R feature invoke) (fits : s.Fits false)
    (abides : Abides plan.grammar R feature s)
    (declared : Element.callFault plan.grammar.rules id = none) {other : String} {op : AssignOp}
    (assigns : plan.grammar.Assigns other op (.call id)) :
    Abides plan.grammar R feature (call plan invoke id (some (other, op)) s) := by
  obtain ⟨rule, known⟩ := exists_rule declared
  have isObject := fits.object rfl
  unfold call
  rw [known]
  dsimp only
  split
  · next token value kind =>
    obtain ⟨took, accepted⟩ := takes_expectKind plan s token rule.name (some other)
    dsimp only [Option.map_some]
    generalize s.expectKind plan token rule.name (some other) = out at took accepted
    obtain ⟨t, taken⟩ := out
    cases taken with
    | none => exact abides.miss law took
    | some u => exact abides.take law isObject took assigns (.token known kind (accepted u rfl))
  · next terminal =>
    have delivers := supplies id rule (some other) s known (RuleKind.terminal?_eq_none terminal) fits.sane
      abides.nodes
    dsimp only [Option.map_some]
    generalize invoke id (some other) s = out at delivers
    split
    · next value =>
      cases took : out.tree with
      | none => exact took ▸ delivers.abides_attach law abides took
      | some tree =>
        obtain ⟨parser, untyped, range, children, v, rfl, holds⟩ := delivers.nothing value tree took
        have differ : other ≠ feature := by
          rintro rfl
          rw [law.fulfils untyped assigns known] at parser
          cases parser
        refine abides.drop law (delivers.grown _) isObject untyped ?_ holds
        rw [delivers.assigned_attach]
        simp [withFeature, differ]
    · next n _ _ value eq =>
      cases eq
      obtain ⟨parser, range, children, m, tree, found, source⟩ := delivers.node n value
      have yields : StandsFor plan.grammar (out.state.attach out.tree.toList).references other (.call id)
          (.branch id (some other) range (some n) children) (.node n) := .node known parser
      refine abides.write law (delivers.grown _) isObject ?_ assigns yields
      rw [delivers.assigned_attach, tree]
      simp
    · next v _ _ value eq =>
      cases eq
      obtain ⟨kind, range, children, text, data, tree, below, rfl⟩ := delivers.text v value
      have yields : StandsFor plan.grammar (out.state.attach out.tree.toList).references other (.call id)
          (.branch id (some other) range none children) (kind.ofCollected text) :=
        .data known data below
      refine abides.write law (delivers.grown _) isObject ?_ assigns yields
      rw [delivers.assigned_attach, tree]
      simp
    · next eq => cases eq
    · next eq => cases eq

/-- A reference is made from a tree that was added, and assigned. -/
theorem abides_makeReference (law : Law g feature R) (abides : Abides g R feature s) {t : State}
    (grown : Grown R feature s t) (isObject : s.frame.isObject = true) {other : String} {op : AssignOp}
    {target : TypeId} {tree : SourceTree} {text : String}
    (assigned : t.frame.assigned feature = s.frame.assigned feature ++ withFeature feature tree)
    (assigns : g.Assigns other op (.crossRef target id)) (spells : ReadsAs g other id tree text) :
    Abides g R feature (makeReference other op target text tree t) := by
  have kept : Reference.Kept t.references (t.references.push { text, target, source := tree }) :=
    .push t.references _
  have made : Grown R feature s
      { t with references := t.references.push { text, target, source := tree } } :=
    ⟨grown.content, fun j n found => law.grows kept (grown.nodes j n found), grown.references.trans kept⟩
  refine abides.write law made isObject assigned assigns
    (.reference (q := { text, target, source := tree }) ?_ rfl rfl spells)
  simp

theorem abides_crossReference (law : Law plan.grammar feature R)
    (supplies : Supplies plan.grammar R feature invoke) (fits : s.Fits false)
    (abides : Abides plan.grammar R feature s)
    (declared : Element.callFault plan.grammar.rules id = none)
    (noParser : Element.parserName? plan.grammar.rules id = none) {other : String} {op : AssignOp}
    {target : TypeId} (assigns : plan.grammar.Assigns other op (.crossRef target id)) :
    Abides plan.grammar R feature (crossReference plan invoke other op target id s) := by
  obtain ⟨rule, known⟩ := exists_rule declared
  have isObject := fits.object rfl
  unfold crossReference
  rw [known]
  dsimp only
  split
  · next token value kind =>
    obtain ⟨took, accepted⟩ := takes_expectKind plan s token rule.name (some other)
    generalize s.expectKind plan token rule.name (some other) = out at took accepted
    obtain ⟨t, taken⟩ := out
    cases taken with
    | none => exact abides.miss law took
    | some u =>
      exact abides_makeReference law abides (abides.takes took) isObject (by simp [took.assigned_eq]) assigns
        (.token known kind (accepted u rfl))
  · next terminal =>
    have delivers := supplies id rule (some other) s known (RuleKind.terminal?_eq_none terminal) fits.sane
      abides.nodes
    have data := isParser_eq_false noParser known
    generalize invoke id (some other) s = out at delivers
    split
    · next v tree value took =>
      obtain ⟨kind, range, children, text, data, took', below, rfl⟩ := delivers.text v value
      obtain rfl := Option.some.inj (took.symm.trans took')
      refine abides_makeReference law abides (delivers.grown _) isObject ?_ assigns (.data known data below)
      rw [delivers.assigned_attach, took]
      simp
    · next _ n value =>
      rw [(delivers.node n value).1] at data
      cases data
    · next noNode noText =>
      have nothing : out.tree = none := by
        cases value : out.value with
        | none =>
          refine Option.eq_none_iff_forall_not_mem.2 fun tree mem => ?_
          rw [(delivers.nothing value tree mem).1] at data
          cases data
        | some result =>
          cases result with
          | node n => exact (noNode n value).elim
          | value v =>
            obtain ⟨_, _, _, _, -, took, -⟩ := delivers.text v value
            exact (noText v _ value took).elim
      exact delivers.abides_attach law abides nothing

/-! ### Repetitions -/

/-- From every state in which it can run, the body leads to one in which the law holds. -/
def KeepsLaw (g : Grammar) (R : FeatureRelation) (feature : String)
    (inData : Bool) (body : State → Outcome) : Prop :=
  ∀ s, s.Fits inData → Abides g R feature s → Abides g R feature (body s).state

theorem keepsLaw_turns {canStart : State → Bool} {body : State → Outcome}
    (reaches : ∀ s, Reaches plan s (body s).state) (keeps : KeepsLaw g R feature inData body) (fuel : Nat) :
    KeepsLaw g R feature inData (turns plan canStart body fuel) := by
  induction fuel with
  | zero => exact fun s _ abides => abides
  | succ fuel ih =>
    intro s fits abides
    have ran := keeps s fits abides
    have after := (reaches s).fits fits
    unfold turns
    dsimp only
    split
    · split
      · split
        · exact ih _ ((reaches_report _).fits after) (ran.report _)
        · exact ran
      · split
        · exact ih _ after ran
        · exact ran
    · exact abides

theorem keepsLaw_repeated {canStart : State → Bool} {body : State → Outcome}
    (reaches : ∀ s, Reaches plan s (body s).state) (keeps : KeepsLaw g R feature inData body)
    (cardinality : Cardinality) : KeepsLaw g R feature inData (repeated plan cardinality canStart body) := by
  intro s fits abides
  unfold repeated
  cases cardinality with
  | optional =>
    dsimp only
    split
    · exact keeps s fits abides
    · exact abides
  | zeroOrMore => exact keepsLaw_turns reaches keeps _ s fits abides
  | oneOrMore =>
    dsimp only
    split
    · exact keeps s fits abides
    · split
      · exact keepsLaw_turns reaches keeps _ _ ((reaches s).fits fits) (keeps s fits abides)
      · exact keeps s fits abides

/-! ### Elements -/

mutual

theorem keepsLaw_run (proper : Proper plan invoke) (law : Law plan.grammar feature R)
    (supplies : Supplies plan.grammar R feature invoke) : ∀ (e : Element) (inData : Bool),
    plan.grammar.Contains e → e.fault? plan.grammar.rules plan.grammar.types inData = none →
    KeepsLaw plan.grammar R feature inData (run plan invoke e)
  | .keyword text, inData, _, _, s, fits, abides => by
    rw [run]
    obtain ⟨took, accepted⟩ := takes_expectKeyword plan s text none
    generalize s.expectKeyword plan text none = out at took accepted
    obtain ⟨t, taken⟩ := out
    cases taken with
    | none => exact abides.miss law took
    | some u =>
      obtain ⟨passed, children⟩ := took.children
      refine abides.gather law (abides.takes took) (took.sameFor nofun).assigned fun acc content => ?_
      rw [children]
      exact .keyword ((abides.text acc content).passes passed) (accepted u rfl)
  | .call id, inData, _, faultless, s, fits, abides => by
    rw [Element.fault?, Option.or_eq_none_iff] at faultless
    rw [run]
    refine abides_call law supplies fits abides faultless.1 fun data => ?_
    simpa [data] using faultless.2
  | .assign other op value, inData, contains, faultless, s, fits, abides => by
    rw [Element.fault?] at faultless
    rw [run]
    cases inData with
    | true => cases faultless
    | false =>
      exact keepsLaw_runAssigned proper law supplies other op value (.value contains) faultless s fits abides
  | .crossRef _ _, _, _, faultless, _, _, _ => by
    rw [Element.fault?] at faultless
    cases faultless
  | .action type into, inData, contains, faultless, s, fits, abides => by
    rw [Element.fault?] at faultless
    cases inData with
    | true => cases faultless
    | false =>
      rcases into with _ | ⟨other, op⟩
      · rw [run]
        exact abides.retag (fits.object rfl) type
      · rw [run]
        exact abides.wrap law fits.sane (fits.object rfl) contains
  | .group items, inData, contains, faultless, s, fits, abides => by
    rw [Element.fault?] at faultless
    rw [run]
    exact keepsLaw_runAll proper law supplies items inData (fun e mem => contains.item mem) faultless s fits
      abides
  | .alternatives items, inData, contains, faultless, s, fits, abides => by
    rw [Element.fault?] at faultless
    rw [run]
    split at faultless
    · cases faultless
    · split
      · exact keepsLaw_runNth proper law supplies items inData (fun e mem => contains.alternative mem)
          faultless _ s fits abides
      · exact abides
  | .repetition cardinality item, inData, contains, faultless, s, fits, abides => by
    rw [Element.fault?] at faultless
    rw [run]
    exact keepsLaw_repeated (reaches_run proper item)
      (keepsLaw_run proper law supplies item inData contains.turn faultless) cardinality s fits abides

theorem keepsLaw_runAll (proper : Proper plan invoke) (law : Law plan.grammar feature R)
    (supplies : Supplies plan.grammar R feature invoke) : ∀ (items : List Element) (inData : Bool),
    (∀ e ∈ items, plan.grammar.Contains e) →
    Element.listFault? plan.grammar.rules plan.grammar.types inData items = none →
    KeepsLaw plan.grammar R feature inData (runAll plan invoke items)
  | [], _, _, _, s, _, abides => by
    rw [runAll]
    exact abides
  | item :: rest, inData, contains, faultless, s, fits, abides => by
    rw [Element.listFault?, Option.or_eq_none_iff] at faultless
    have ran := keepsLaw_run proper law supplies item inData (contains item List.mem_cons_self) faultless.1
      s fits abides
    have after := (reaches_run proper item s).fits fits
    rw [runAll]
    split
    · exact ran
    · exact keepsLaw_runAll proper law supplies rest inData
        (fun e mem => contains e (List.mem_cons_of_mem _ mem)) faultless.2 _ after ran

theorem keepsLaw_runNth (proper : Proper plan invoke) (law : Law plan.grammar feature R)
    (supplies : Supplies plan.grammar R feature invoke) : ∀ (items : List Element) (inData : Bool),
    (∀ e ∈ items, plan.grammar.Contains e) →
    Element.listFault? plan.grammar.rules plan.grammar.types inData items = none →
    ∀ i, KeepsLaw plan.grammar R feature inData (runNth plan invoke items i)
  | [], _, _, _, _, s, _, abides => by
    rw [runNth]
    exact abides
  | item :: rest, inData, contains, faultless, 0, s, fits, abides => by
    rw [Element.listFault?, Option.or_eq_none_iff] at faultless
    rw [runNth]
    exact keepsLaw_run proper law supplies item inData (contains item List.mem_cons_self) faultless.1 s fits
      abides
  | item :: rest, inData, contains, faultless, i + 1, s, fits, abides => by
    rw [Element.listFault?, Option.or_eq_none_iff] at faultless
    rw [runNth]
    exact keepsLaw_runNth proper law supplies rest inData
      (fun e mem => contains e (List.mem_cons_of_mem _ mem)) faultless.2 i s fits abides

theorem keepsLaw_runAssigned (proper : Proper plan invoke) (law : Law plan.grammar feature R)
    (supplies : Supplies plan.grammar R feature invoke) (other : String) (op : AssignOp) : ∀ (e : Element),
    plan.grammar.Assigns other op e → e.assignedFault? plan.grammar.rules plan.grammar.types = none →
    KeepsLaw plan.grammar R feature false (runAssigned plan invoke other op e)
  | .keyword text, assigns, _, s, fits, abides => by
    rw [runAssigned]
    obtain ⟨took, accepted⟩ := takes_expectKeyword plan s text (some other)
    generalize s.expectKeyword plan text (some other) = out at took accepted
    obtain ⟨t, taken⟩ := out
    cases taken with
    | none => exact abides.miss law took
    | some u => exact abides.take law (fits.object rfl) took assigns (.keyword (accepted u rfl))
  | .call id, assigns, faultless, s, fits, abides => by
    rw [Element.assignedFault?] at faultless
    rw [runAssigned]
    exact abides_assignedCall law supplies fits abides faultless assigns
  | .crossRef target id, assigns, faultless, s, fits, abides => by
    rw [Element.assignedFault?, Option.or_eq_none_iff, Option.or_eq_none_iff, Option.map_eq_none_iff]
      at faultless
    rw [runAssigned]
    exact abides_crossReference law supplies fits abides faultless.2.1 faultless.2.2 assigns
  | .alternatives items, assigns, faultless, s, fits, abides => by
    rw [Element.assignedFault?] at faultless
    rw [runAssigned]
    split at faultless
    · cases faultless
    · split
      · exact keepsLaw_runAssignedNth proper law supplies other op items
          (fun e mem => .alternative assigns mem) faultless _ s fits abides
      · exact abides
  | .assign .., _, faultless, _, _, _ => by simp [Element.assignedFault?] at faultless
  | .action .., _, faultless, _, _, _ => by simp [Element.assignedFault?] at faultless
  | .group _, _, faultless, _, _, _ => by simp [Element.assignedFault?] at faultless
  | .repetition .., _, faultless, _, _, _ => by simp [Element.assignedFault?] at faultless

theorem keepsLaw_runAssignedNth (proper : Proper plan invoke) (law : Law plan.grammar feature R)
    (supplies : Supplies plan.grammar R feature invoke) (other : String) (op : AssignOp) :
    ∀ (items : List Element), (∀ e ∈ items, plan.grammar.Assigns other op e) →
    Element.assignedListFault? plan.grammar.rules plan.grammar.types items = none →
    ∀ i, KeepsLaw plan.grammar R feature false (runAssignedNth plan invoke other op items i)
  | [], _, _, _, s, _, abides => by
    rw [runAssignedNth]
    exact abides
  | item :: rest, assigns, faultless, 0, s, fits, abides => by
    rw [Element.assignedListFault?, Option.or_eq_none_iff] at faultless
    rw [runAssignedNth]
    exact keepsLaw_runAssigned proper law supplies other op item (assigns item List.mem_cons_self)
      faultless.1 s fits abides
  | item :: rest, assigns, faultless, i + 1, s, fits, abides => by
    rw [Element.assignedListFault?, Option.or_eq_none_iff] at faultless
    rw [runAssignedNth]
    exact keepsLaw_runAssignedNth proper law supplies other op rest
      (fun e mem => assigns e (List.mem_cons_of_mem _ mem)) faultless.2 i s fits abides

end

/-! ### Rules and documents -/

theorem abides_runReported (proper : Proper plan invoke) (law : Law plan.grammar feature R)
    (supplies : Supplies plan.grammar R feature invoke) {e : Element} (contains : plan.grammar.Contains e)
    (faultless : e.fault? plan.grammar.rules plan.grammar.types inData = none) (fits : s.Fits inData)
    (abides : Abides plan.grammar R feature s) :
    Abides plan.grammar R feature (runReported plan invoke e s) := by
  have ran := keepsLaw_run proper law supplies e inData contains faultless s fits abides
  unfold runReported
  dsimp only
  split
  · exact ran.report _
  · exact ran

/-- The law holds for the frame in which a rule is entered. -/
theorem abides_enter (law : Law g feature R) (nodes : NodesAbide R feature s)
    (known : g.rules[id]? = some rule) : Abides g R feature { s with frame := Frame.enter id rule.kind } := by
  cases kind : rule.kind with
  | parser returns =>
    refine ⟨nodes, ?_, ?_, by rintro _ ⟨⟩⟩
    · rintro _ ⟨⟩
      simpa [Frame.enter, Frame.assigned, Properties.get?, Properties.empty] using law.nothing
    · rintro all _ ⟨⟩ rfl
      exact all rule (Array.mem_of_getElem? known) kind
  | terminal token value =>
    refine ⟨nodes, by rintro _ ⟨⟩, by rintro - _ ⟨⟩, ?_⟩
    rintro _ ⟨⟩
    exact .nothing
  | dataType value =>
    refine ⟨nodes, by rintro _ ⟨⟩, by rintro - _ ⟨⟩, ?_⟩
    rintro _ ⟨⟩
    exact .nothing

theorem supplies_invoke (plan : Plan) (law : Law plan.grammar feature R) (depth : Nat) :
    Supplies plan.grammar R feature (Interpreter.invoke plan depth) := by
  induction depth with
  | zero =>
    intro id rule assigned s _ _ _ nodes
    have same := Takes.raise plan s (.tooDeep plan.limits.maxRuleDepth)
    refine ⟨frame_raise _, ?_, ?_, nofun, nofun, nofun⟩
    · intro n m found
      have held := nodes n m (same.nodes ▸ found)
      rwa [← same.references] at held
    · simpa [Interpreter.invoke, State.note] using Reference.Kept.refl s.references
  | succ depth ih =>
    intro id rule assigned s known nonterminal sane nodes
    have fits := fits_enter sane nonterminal id
    have abides := abides_enter law nodes known
    have proper : Proper plan (Interpreter.invoke plan depth) := proper_invoke depth
    have inner := reaches_runReported proper rule.body { s with frame := Frame.enter id rule.kind }
    have ran := abides_runReported proper law ih (.of_body known nonterminal)
      (faultless_body plan.grammar known) fits abides
    have kept : Reference.Kept s.references _ := inner.kept
    rw [Interpreter.invoke, known]
    exact delivers_leave law nonterminal ran (inner.fits fits) inner kept assigned _

theorem abides_skip (law : Law g feature R) (fuel : Nat) (stalled : Bool) (abides : Abides g R feature s) :
    Abides g R feature (skip plan fuel stalled s) := by
  induction fuel generalizing stalled s with
  | zero => exact abides
  | succ fuel ih =>
    rw [skip]
    split
    · exact abides
    · have took := Takes.consume s none
      obtain ⟨passed, children⟩ := took.children
      refine ih false (abides.pass law (abides.takes took) (took.sameFor nofun).assigned
        fun acc content => ?_)
      rw [children]
      have hidden := (abides.text acc content).passes passed
      cases (s.consume none).2 with
      | none => simpa using hidden
      | some t => exact hidden.passed t

theorem abides_runEntry (proper : Proper plan invoke) (law : Law plan.grammar feature R)
    (supplies : Supplies plan.grammar R feature invoke) (fuel : Nat) {s : State} (fits : s.Fits false)
    (abides : Abides plan.grammar R feature s) :
    Abides plan.grammar R feature (runEntry plan invoke fuel s) := by
  induction fuel generalizing s with
  | zero => exact abides
  | succ fuel ih =>
    have faultless := faultless_body plan.grammar plan.grammar.entry_eq
    rw [plan.grammar.entry_kind] at faultless
    have contains : plan.grammar.Contains plan.grammar.entryRule.body :=
      .of_body plan.grammar.entry_eq (by rw [plan.grammar.entry_kind]; rfl)
    have ran := abides_runReported proper law supplies contains faultless fits abides
    have after := (reaches_runReported proper plan.grammar.entryRule.body s).fits fits
    rw [runEntry]
    dsimp only
    generalize runReported plan invoke plan.grammar.entryRule.body s = t at ran after
    have failed : Abides plan.grammar R feature (t.record plan .trailingInput) := ran.of_same rfl rfl rfl
    have skipped (fuel : Nat) (stalled : Bool) : Abides plan.grammar R feature
        { skip plan fuel stalled (t.record plan .trailingInput) with recovering := false } :=
      (abides_skip law fuel stalled failed).of_same rfl rfl rfl
    have resumed (fuel : Nat) (stalled : Bool) : State.Fits false
        { skip plan fuel stalled (t.record plan .trailingInput) with recovering := false } :=
      (((Reaches.record .trailingInput).trans (reaches_skip plan fuel stalled _)).trans .settle).fits after
    split
    · exact ran
    · split
      · exact skipped _ _
      · exact ih (resumed _ _) (skipped _ _)

end Interpreter

/-! ### Parses -/

namespace Parser

open State Interpreter

variable {R : FeatureRelation} {feature : String}

/-- The law holds for the nodes of a document if it holds at the end of the input. -/
theorem abides_finish {plan : Plan} {s : State} (law : Law plan.grammar feature R) (sane : s.Sane)
    (isObject : s.frame.isObject = true) (abides : Abides plan.grammar R feature s) :
    ∀ (id : NodeId) (n : AstNode), (finish plan s).2.nodes[id]? = some n →
      R (finish plan s).2.references (n.get? feature) (n.assigned feature) := by
  have flushed : Abides plan.grammar R feature s.flushHidden := by
    refine abides.pass law (abides.grown rfl rfl rfl) ?_ fun acc content => ?_
    · rw [State.flushHidden, assigned_attach, withFeatureOf_leaves, List.append_nil]
    · simpa [State.flushHidden, attach] using (abides.text acc content).passes s.stream.hiddenFront
  obtain ⟨o, content⟩ := Frame.isObject_iff.1 isObject
  have content : s.flushHidden.frame.content = .object (currentObject s.flushHidden) := by
    rw [currentObject, show s.flushHidden.frame.content = .object o from content]
  have slot : ∀ id ∈ (currentObject s.flushHidden).slot, id < s.flushHidden.nodes.size :=
    sane.slot _ content
  rw [finish_eq]
  generalize s.flushHidden = t at flushed content slot
  have held := flushed.object _ content
  have finished : Finished R feature (some (wholeTree plan t)) (t.constructObject plan
      { currentObject t with type := some ((currentObject t).type.getD plan.grammar.entryType) }
      (some (wholeTree plan t))) :=
    finished_constructObject law flushed.nodes held slot
  exact finished.nodes

/-- **A law holds in every parse**, between the value of the feature of each node and the trees that are
found for the feature. -/
theorem abides_parse (p : Parser) (law : Law p.grammar feature R) (lexed : LexResult) (id : NodeId)
    (n : AstNode) (found : (p.parse lexed).ast.node? id = some n) :
    R (p.parse lexed).ast.references (n.get? feature) (n.assigned feature) := by
  have fits : (p.opened lexed).Fits false := ⟨p.sane_opened lexed, fun _ => rfl⟩
  have start : Abides p.grammar R feature (p.opened lexed) := by
    refine ⟨nofun, ?_, ?_, nofun⟩
    · rintro _ ⟨⟩
      exact law.nothing
    · rintro - _ ⟨⟩
      exact Option.some_ne_none p.grammar.entryType
  have ended : Abides p.grammar R feature (p.ended lexed) :=
    @abides_runEntry R feature (p.planFor lexed) _ (proper_invoke _) law (supplies_invoke _ law _) _ _ fits
      start
  have after := (p.reaches_ended lexed).fits fits
  rw [parse_eq] at found ⊢
  exact abides_finish law after.sane (after.object rfl) ended id n found

end Parser

end Workbench
