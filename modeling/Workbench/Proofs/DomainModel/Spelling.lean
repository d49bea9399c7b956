import Mathlib.Tactic.IntervalCases
import Workbench.Proofs.DomainModel.Names
import Workbench.Proofs.Parser.WellFormed

/-!
**Names of declarations.**

However many errors a text has, every class and datatype found in it is named by a token, and its source
leads back to that token. The name is assigned once, right after the keyword. From then on the rule only
builds other features; a rule that stands for another takes over the tree of the finished node as it is;
and the nodes inside a class keep their own names to themselves.
-/

namespace Workbench.DomainModel

open Interpreter State SourceTree

variable {tokens : List Token}

section Rules

variable {plan : Plan} {invoke : Invocation} {s : State}

/-! ### Rule bodies -/

/-- How a rule finds its frame. -/
def Entered : RuleKind → Frame → Prop
  | .parser returns => Fresh returns
  | _ => Collecting

theorem entered_enter (id : RuleId) (kind : RuleKind) : Entered kind (Frame.enter id kind) := by
  cases kind with
  | parser returns => exact ⟨rfl, rfl, by simp [Frame.enter, Frame.assigned]⟩
  | _ => exact ⟨rfl, by simp [Frame.enter, Frame.assigned]⟩

section Bodies

variable (domain : plan.grammar = grammar) (obeys : Obeys tokens invoke) {P : Frame → Prop}
  {feature : String}

include obeys in
theorem leads_call_other (about : AboutName P) (other : feature ≠ "name") (op : AssignOp) (id : RuleId) :
    Leads tokens P (run plan invoke (.assign feature op (.call id))) P :=
  (spares_assign other fun _ clean => keeps_call obeys clean id op).leads about

include obeys in
theorem leads_reference (about : AboutName P) (other : feature ≠ "name") {target : TypeId}
    (asked : types.isSubtype target typeType = true) (id : RuleId) :
    Leads tokens P (run plan invoke (.assign feature .set (.crossRef target id))) P :=
  (spares_assign other fun _ clean => keeps_crossReference obeys clean .set asked id).leads about

theorem leads_keyword (about : AboutName P) (text : String) :
    Leads tokens P (run plan invoke (.keyword text)) P :=
  (spares_keyword text).leads about

include obeys in
theorem leads_modelBody :
    Leads tokens Undeclared (run plan invoke
      (.repetition .zeroOrMore (.assign "elements" .append (.call elementRule)))) Undeclared :=
  leads_repetition (leads_call_other obeys aboutName_undeclared (by decide) .append elementRule) _

include obeys in
theorem leads_packageBody :
    Leads tokens Undeclared (run plan invoke (.group [
      .keyword "package",
      .assign "name" .set (.call qualifiedNameRule),
      .keyword "\x7b",
      .repetition .zeroOrMore (.assign "elements" .append (.call elementRule)),
      .keyword "\x7d"])) Undeclared := by
  refine leads_group (leads_all ?_)
  simp only [List.forall_mem_cons, List.not_mem_nil, false_implies, implies_true, and_true]
  refine ⟨leads_keyword aboutName_undeclared _, ?_, leads_keyword aboutName_undeclared _,
    leads_modelBody obeys, leads_keyword aboutName_undeclared _⟩
  exact leads_assign_undeclared fun _ clean => keeps_call obeys clean _ _

include domain in
theorem leads_dataTypeBody {type : TypeId} :
    Leads tokens (Fresh (some type)) (run plan invoke (.group [
      .keyword "datatype",
      .assign "name" .set (.call nameRule)])) (Named tokens) := by
  refine leads_group (leads_cons (leads_keyword (aboutName_fresh _) _) ?_ fun _ h => h.named)
  exact leads_cons (leads_name domain) leads_nil fun _ h => h

include domain obeys in
theorem leads_classBody {type : TypeId} :
    Leads tokens (Fresh (some type)) (run plan invoke (.group [
      .keyword "class",
      .assign "name" .set (.call nameRule),
      .repetition .optional (.group [
        .keyword "extends",
        .assign "superClass" .set (.crossRef classType qualifiedNameRule)]),
      .keyword "\x7b",
      .repetition .zeroOrMore (.assign "members" .append (.call propertyRule)),
      .keyword "\x7d"])) (Named tokens) := by
  refine leads_group (leads_cons (leads_keyword (aboutName_fresh _) _) ?_ fun _ h => h.named)
  refine leads_cons (leads_name domain) (leads_all ?_) fun _ h => h
  simp only [List.forall_mem_cons, List.not_mem_nil, false_implies, implies_true, and_true]
  refine ⟨leads_repetition (leads_group (leads_all ?_)) _, leads_keyword aboutName_named _,
    leads_repetition (leads_call_other obeys aboutName_named (by decide) _ _) _,
    leads_keyword aboutName_named _⟩
  simp only [List.forall_mem_cons, List.not_mem_nil, false_implies, implies_true, and_true]
  exact ⟨leads_keyword aboutName_named _,
    leads_reference obeys aboutName_named (by decide) (by decide +kernel) _⟩

include obeys in
theorem leads_propertyBody :
    Leads tokens Undeclared (run plan invoke (.group [
      .repetition .optional (.assign "many" .flag (.keyword "many")),
      .assign "name" .set (.call nameRule),
      .keyword ":",
      .assign "type" .set (.crossRef typeType qualifiedNameRule),
      .repetition .optional (.group [
        .keyword "=",
        .assign "default" .set (.call additionRule)])])) Undeclared := by
  refine leads_group (leads_all ?_)
  simp only [List.forall_mem_cons, List.not_mem_nil, false_implies, implies_true, and_true]
  refine ⟨leads_repetition ?_ _, leads_assign_undeclared fun _ clean => keeps_call obeys clean _ _,
    leads_keyword aboutName_undeclared _,
    leads_reference obeys aboutName_undeclared (by decide) (by decide +kernel) _,
    leads_repetition (leads_group (leads_all ?_)) _⟩
  · exact leads_assign_undeclared fun _ clean => keeps_keyword clean _ _
  · simp only [List.forall_mem_cons, List.not_mem_nil, false_implies, implies_true, and_true]
    exact ⟨leads_keyword aboutName_undeclared _,
      leads_call_other obeys aboutName_undeclared (by decide) _ _⟩

include obeys in
/-- A rule that stands for one of two others. -/
theorem leads_eitherBody {type : Option TypeId} {left right : RuleId}
    (first : ∃ rule, plan.grammar.rules[left]? = some rule ∧ rule.kind.terminal? = none)
    (second : ∃ rule, plan.grammar.rules[right]? = some rule ∧ rule.kind.terminal? = none) :
    Leads tokens (Fresh type) (run plan invoke (.alternatives [.call left, .call right]))
      (Named tokens) := by
  obtain ⟨rule, known, parser⟩ := first
  obtain ⟨rule', known', parser'⟩ := second
  refine leads_alternatives ?_ fun _ h => h.named
  simp only [List.forall_mem_cons, List.not_mem_nil, false_implies, implies_true, and_true]
  exact ⟨(leads_adopt obeys known parser).weaken fun _ h => h.toNamed,
    (leads_adopt obeys known' parser').weaken fun _ h => h.toNamed⟩

include domain obeys in
theorem leads_chain {type : Option TypeId} {operand : RuleId}
    (parser : ∃ rule, plan.grammar.rules[operand]? = some rule ∧ rule.kind.terminal? = none)
    (operators : List String) :
    Leads tokens (Fresh type) (run plan invoke (chain operand operators)) (Named tokens) := by
  obtain ⟨rule, known, parser⟩ := parser
  have turn : Leads tokens (NamedObject tokens) (run plan invoke (.group [
      .action binaryType (some ("left", .set)),
      .assign "op" .set (.alternatives (operators.map .keyword)),
      .assign "right" .set (.call operand)])) (NamedObject tokens) := by
    refine leads_group (leads_cons (leads_wrap domain (by decide +kernel))
      (Leads.weaken (leads_all ?_) fun _ h => h.namedObject) fun _ h => h.namedObject)
    simp only [List.forall_mem_cons, List.not_mem_nil, false_implies, implies_true, and_true]
    exact ⟨leads_assign_undeclared fun _ clean => keeps_keywords clean _ _,
      leads_call_other obeys aboutName_undeclared (by decide) _ _⟩
  unfold chain
  refine leads_group (leads_cons (leads_adopt obeys known parser) ?_ fun _ h => h.toNamed)
  exact leads_cons ((leads_repetition turn _).weaken fun _ h => h.toNamed) leads_nil fun _ h => h

include domain obeys in
theorem leads_primaryBody :
    Leads tokens (Fresh (some expressionType)) (run plan invoke (.alternatives [
      .group [.keyword "(", .call additionRule, .keyword ")"],
      .group [.action numberLiteralType none, .assign "value" .set (.call numberRule)]]))
      (Named tokens) := by
  have addition : plan.grammar.rules[additionRule]? =
      some ⟨"Addition", .parser (some expressionType), chain multiplicationRule ["+", "-"]⟩ := by
    rw [domain]
    rfl
  refine leads_alternatives ?_ fun _ h => h.named
  simp only [List.forall_mem_cons, List.not_mem_nil, false_implies, implies_true, and_true]
  constructor
  · refine leads_group (leads_cons (leads_keyword (aboutName_fresh _) _) ?_ fun _ h => h.named)
    refine leads_cons ((leads_adopt obeys addition rfl).weaken fun _ h => h.toNamed) ?_ fun _ h => h
    exact leads_cons (leads_keyword aboutName_named _) leads_nil fun _ h => h
  · refine leads_group (leads_cons (leads_retag (by decide +kernel) (by decide +kernel)) ?_
      fun _ h => h.named)
    exact leads_cons ((leads_call_other obeys aboutName_undeclared (by decide) _ _).weaken
      fun _ h => h.named) leads_nil fun _ h => h

include domain in
theorem leads_qualifiedNameBody :
    Leads tokens Collecting (run plan invoke (.group [
      .call nameRule,
      .repetition .zeroOrMore (.group [.keyword ".", .call nameRule])])) Collecting := by
  have rule : plan.grammar.rules[nameRule]? = some ⟨"ID", .terminal .identifier .id, .group []⟩ := by
    rw [domain]
    rfl
  have name : Leads tokens Collecting (run plan invoke (.call nameRule)) Collecting :=
    (spares_token rule rfl).leads aboutName_collecting
  refine leads_group (leads_all ?_)
  simp only [List.forall_mem_cons, List.not_mem_nil, false_implies, implies_true, and_true]
  refine ⟨name, leads_repetition (leads_group (leads_all ?_)) _⟩
  simp only [List.forall_mem_cons, List.not_mem_nil, false_implies, implies_true, and_true]
  exact ⟨leads_keyword aboutName_collecting _, name⟩

theorem Leads.of_fresh {type : TypeId} {body : State → Outcome} (undeclared : isDeclaration type = false)
    (h : Leads tokens Undeclared body Undeclared) :
    Leads tokens (Fresh (some type)) body (Named tokens) := by
  intro s clean fresh
  obtain ⟨clean', holds⟩ := h s clean ⟨type, fresh.type, undeclared⟩
  exact ⟨clean', holds.named⟩

include domain obeys in
/-- Every rule leaves its object named. -/
theorem leads_body {id : RuleId} {rule : Rule} (known : plan.grammar.rules[id]? = some rule) :
    Leads tokens (Entered rule.kind) (run plan invoke rule.body) (Named tokens) := by
  have parser : ∀ id, id < 10 → ∃ rule, plan.grammar.rules[id]? = some rule ∧
      rule.kind.terminal? = none := by
    intro id below
    rw [domain]
    interval_cases id <;> exact ⟨_, rfl, rfl⟩
  rw [domain] at known
  have below : id < 13 := (Array.getElem?_eq_some_iff.1 known).1
  have terminal : Leads tokens Collecting (run plan invoke (.group [])) (Named tokens) :=
    leads_group (leads_nil.weaken fun _ h => h.named)
  interval_cases id <;> cases known
  · exact .of_fresh (by decide +kernel) (leads_modelBody obeys)
  · exact leads_eitherBody obeys (parser 2 (by decide)) (parser 3 (by decide))
  · exact .of_fresh (by decide +kernel) (leads_packageBody obeys)
  · exact leads_eitherBody obeys (parser 4 (by decide)) (parser 5 (by decide))
  · exact leads_dataTypeBody domain
  · exact leads_classBody domain obeys
  · exact .of_fresh (by decide +kernel) (leads_propertyBody obeys)
  · exact leads_chain domain obeys (parser 8 (by decide)) _
  · exact leads_chain domain obeys (parser 9 (by decide)) _
  · exact leads_primaryBody domain obeys
  · exact (leads_qualifiedNameBody domain).weaken fun _ h => h.named
  · exact terminal
  · exact terminal

end Bodies

/-! ### Runs -/

theorem leads_runReported {P Q : Frame → Prop} {e : Element}
    (h : Leads tokens P (run plan invoke e) Q) (clean : Clean tokens s) (holds : P s.frame) :
    Clean tokens (runReported plan invoke e s) ∧ Q (runReported plan invoke e s).frame := by
  obtain ⟨clean', holds'⟩ := h s clean holds
  unfold runReported
  dsimp only
  split
  · exact ⟨clean'.report _, by rwa [frame_report]⟩
  · exact ⟨clean', holds'⟩

theorem obeys_invoke (domain : plan.grammar = grammar) (depth : Nat) :
    Obeys tokens (Interpreter.invoke plan depth) := by
  induction depth with
  | zero =>
    intro id feature s clean
    have raised := Takes.raise plan s (.tooDeep plan.limits.maxRuleDepth)
    have clean' := clean.takes raised
    rw [Interpreter.invoke]
    refine ⟨⟨clean'.stream, clean'.nodes, clean'.references, clean'.slot⟩, ?_, fun _ => by simp, by simp⟩
    exact frame_raise _
  | succ depth ih =>
    intro id feature s clean
    rw [Interpreter.invoke]
    split
    · exact ⟨clean.note _, rfl, fun _ => by simp, by simp⟩
    · next rule known =>
      have entered : Clean tokens { s with frame := Frame.enter id rule.kind } := by
        refine clean.withFrame fun o k content slot => ?_
        cases kind : rule.kind with
        | parser => rw [kind] at content; cases content; cases slot
        | _ => rw [kind] at content; cases content
      obtain ⟨ended, named⟩ := leads_runReported (leads_body domain ih known) entered
        (entered_enter id rule.kind)
      have reaches : Reaches plan { s with frame := Frame.enter id rule.kind } _ :=
        reaches_runReported (proper_invoke depth) rule.body _
      exact delivers_leave domain clean ended named reaches.size_le _ _ _

/-- Skipping tokens keeps the frame's object. -/
theorem leads_skip (plan : Plan) (fuel : Nat) (stalled : Bool) (clean : Clean tokens s)
    (holds : Undeclared s.frame) :
    Clean tokens (skip plan fuel stalled s) ∧ Undeclared (skip plan fuel stalled s).frame := by
  induction fuel generalizing stalled s with
  | zero => exact ⟨clean, holds⟩
  | succ fuel ih =>
    rw [skip]
    split
    · exact ⟨clean, holds⟩
    · have takes := Takes.consume s none
      exact ih false (clean.takes takes) (aboutName_undeclared _ _ (takes.sameFor (by simp)) holds)

theorem leads_runEntry (domain : plan.grammar = grammar) (obeys : Obeys tokens invoke) (fuel : Nat)
    (clean : Clean tokens s) (holds : Undeclared s.frame) :
    Clean tokens (runEntry plan invoke fuel s) ∧ Undeclared (runEntry plan invoke fuel s).frame := by
  have body : Leads tokens Undeclared (run plan invoke plan.grammar.entryRule.body) Undeclared := by
    rw [domain]
    exact leads_modelBody obeys
  induction fuel generalizing s with
  | zero => exact ⟨clean, holds⟩
  | succ fuel ih =>
    obtain ⟨ran, undeclared⟩ := leads_runReported body clean holds
    rw [runEntry]
    dsimp only
    split
    · exact ⟨ran, undeclared⟩
    · generalize runReported plan invoke plan.grammar.entryRule.body s = t at ran undeclared
      have recorded : Clean tokens (t.record plan .trailingInput) :=
        ⟨ran.stream, ran.nodes, ran.references, ran.slot⟩
      obtain ⟨skipped, undeclared⟩ := leads_skip plan (t.record plan .trailingInput).stream.count
        (t.stream.count == s.stream.count) recorded undeclared
      generalize skip plan _ _ _ = u at skipped undeclared
      have resumed : Clean tokens { u with recovering := false } :=
        ⟨skipped.stream, skipped.nodes, skipped.references, skipped.slot⟩
      split
      · exact ⟨resumed, undeclared⟩
      · exact ih resumed undeclared

end Rules

/-! ### Parses -/

/-- The tokens that are parsed are among those that were lexed. -/
theorem mem_of_mem_cutAfter {limit : Nat} {t : Token} {l : List Token}
    (h : t ∈ (Parser.cutAfter limit l).1) : t ∈ l := by
  fun_induction Parser.cutAfter limit l with
  | case1 => exact h
  | case2 limit u rest hidden kept cut eq ih => grind
  | case3 => cases h
  | case4 u rest visible limit kept cut eq ih => grind

theorem clean_ended (limits : Limits) (lexed : LexResult) :
    Clean lexed.tokens ((parser limits).ended lexed) ∧
      Undeclared ((parser limits).ended lexed).frame := by
  have opened : Clean lexed.tokens ((parser limits).opened lexed) := by
    refine ⟨fun t mem => mem_of_mem_cutAfter mem, nofun, nofun, ?_⟩
    rintro o id ⟨⟩ ⟨⟩
  have domain : ((parser limits).planFor lexed).grammar = grammar := rfl
  exact leads_runEntry domain (obeys_invoke domain _) _ opened
    ⟨modelType, rfl, by decide +kernel⟩

theorem types_parse (limits : Limits) (lexed : LexResult) :
    ((parser limits).parse lexed).ast.types = types := by
  rw [Parser.parse_eq, Parser.finish_eq]
  rfl

/-- **Every declaration of a parsed text is named by a token of the text**, and all references ask for
types. -/
theorem spelled_parse (limits : Limits) (lexed : LexResult) :
    (∀ (id : NodeId) (n : AstNode), ((parser limits).parse lexed).ast.nodes[id]? = some n →
      Spelled lexed.tokens n) ∧
    ∀ (id : RefId) (r : Reference), ((parser limits).parse lexed).ast.references[id]? = some r →
      types.isSubtype r.target typeType = true := by
  obtain ⟨clean, undeclared⟩ := clean_ended limits lexed
  rw [Parser.parse_eq, Parser.finish_eq]
  generalize (parser limits).ended lexed = s at clean undeclared
  have flushed : Clean lexed.tokens s.flushHidden := clean.attach _
  have same : Frame.SameFor "name" s.frame s.flushHidden.frame := sameFor_attach (by simp)
  have undeclared := aboutName_undeclared _ _ same undeclared
  generalize s.flushHidden = t at flushed undeclared
  obtain ⟨type, typed, -⟩ := id undeclared
  obtain ⟨o, content, typed⟩ := object_of_objectType typed
  have domain : ((parser limits).planFor lexed).grammar = grammar := rfl
  have built := clean_constructObject domain flushed
    undeclared.named content (fun id slot => flushed.slot o id content slot)
    (some (Parser.wholeTree ((parser limits).planFor lexed) t)) fun _ => ⟨_, rfl, rfl⟩
  have root : (Parser.constructRoot ((parser limits).planFor lexed) t).1 =
      (t.constructObject ((parser limits).planFor lexed) o
        (some (Parser.wholeTree ((parser limits).planFor lexed) t))).1 := by
    unfold Parser.constructRoot Parser.currentObject constructObject
    rw [content]
    dsimp only
    rw [typed]
    rfl
  rw [← root] at built
  exact ⟨built.nodes, built.references⟩

end Workbench.DomainModel
