import Workbench.Proofs.DomainModel.Scoping
import Workbench.Proofs.Validation.Findings

/-!
**Unresolved references are reported.**

Each reference is held by one node of the tree, under a feature of its own, and the first tree assigned to
that feature is the source of the reference. So the check that walks the nodes and reports what they hold
reports every unresolved reference, once, and where it stands in the text. No other check has a say in this.
-/

namespace Workbench

/-! ### Validations that are not cut short -/

namespace Validation

open Cancellable

/-- Neither do errors keep the checks from being run, nor is there too much to report. -/
structure Unabridged (o : ValidationOptions) (parsed : ParseResult) (diagnostics : List Diagnostic) : Prop where
  lexed : o.stopAfterLexErrors = true → parsed.lexErrors = []
  parsed : o.stopAfterParseErrors = true → parsed.parseErrors = []
  within : ∀ d ∈ diagnostics, d.code ≠ some DiagnosticCode.limitExceeded

/-- A validation that is not cut short yields the errors and all findings. -/
theorem ensures_unabridged (r : Registry) (parsed : ParseResult) (uri : DocumentUri) (o : ValidationOptions) :
    Ensures (validate r parsed uri o) fun diagnostics => Unabridged o parsed diagnostics →
      diagnostics = ofLexErrors parsed.lexErrors ++ ofParseErrors parsed.parseErrors ++
        parsed.ast.preorder.flatMap fun id =>
          findingsOn o parsed.ast uri id ((r.checksFor (typeAt parsed.ast id)).filter o.runs) := by
  unfold validate
  simp only [isEmpty_ofLexErrors, isEmpty_ofParseErrors, Bool.and_eq_true, Bool.not_eq_true',
    List.isEmpty_eq_false_iff]
  split
  · next stopped => exact ensures_pure fun unabridged => absurd (unabridged.lexed stopped.1) stopped.2
  · split
    · next stopped => exact ensures_pure fun unabridged => absurd (unabridged.parsed stopped.1) stopped.2
    · refine (ensures_checkNodes r o parsed.ast uri _ _).bind fun found eq => ensures_pure ?_
      intro unabridged
      subst eq
      generalize (parsed.ast.preorder.flatMap fun id => _) = all at unabridged ⊢
      have le : all.length ≤ o.maxDiagnostics - (ofLexErrors parsed.lexErrors ++
          ofParseErrors parsed.parseErrors).length := by
        refine Nat.le_of_not_lt fun less => ?_
        refine absurd rfl (unabridged.within (limitDiagnostic o parsed.ast) (List.mem_append_right _ ?_))
        rw [cut, decide_eq_true less, if_pos rfl]
        exact List.mem_singleton_self _
      rw [cut, decide_eq_false (Nat.not_lt.2 le), if_neg Bool.false_ne_true, List.append_nil,
        List.take_of_length_le le]

end Validation

namespace DomainModel

open Cancellable Validation

/-! ### Reports of references -/

/-- The diagnostics about references. -/
def linkingErrors (diagnostics : List Diagnostic) : List Diagnostic :=
  diagnostics.filter (·.code == some DiagnosticCode.linking)

theorem linkingErrors_append (l m : List Diagnostic) :
    linkingErrors (l ++ m) = linkingErrors l ++ linkingErrors m :=
  List.filter_append l m

theorem linkingErrors_eq_nil {l : List Diagnostic} (none : ∀ d ∈ l, d.code ≠ some DiagnosticCode.linking) :
    linkingErrors l = [] :=
  List.filter_eq_nil_iff.2 fun d mem => by simpa using none d mem

/-- The check never breaks down, and says nothing about references. -/
def Silent (check : Check) : Prop :=
  ∀ a uri id, (check.run a uri id).breakdown = none ∧
    ∀ d ∈ (check.run a uri id).reports, d.code ≠ some DiagnosticCode.linking

theorem silent_uniqueNames (property : String) : Silent (.uniqueNames property) := by
  refine fun a uri id => ⟨rfl, fun d mem => ?_⟩
  obtain ⟨child, -, found⟩ := List.mem_filterMap.1 mem
  obtain ⟨name, -, found⟩ := Option.bind_eq_some_iff.1 found
  obtain ⟨-, -, found⟩ := Option.bind_eq_some_iff.1 found
  cases found
  simp [DiagnosticCode.linking]

theorem code_ne_of_mem_ite {condition : Prop} [Decidable condition] {d : Diagnostic} {l m : List Diagnostic}
    (left : ∀ d ∈ l, d.code ≠ some DiagnosticCode.linking)
    (right : ∀ d ∈ m, d.code ≠ some DiagnosticCode.linking) (mem : d ∈ if condition then l else m) :
    d.code ≠ some DiagnosticCode.linking := by
  split at mem
  · exact left d mem
  · exact right d mem

theorem silent_capitalizedName : Silent capitalizedName :=
  fun _ _ _ => ⟨rfl, fun _ => code_ne_of_mem_ite (by simp [DiagnosticCode.linking]) nofun⟩

theorem silent_inheritanceCycle : Silent inheritanceCycle :=
  fun _ _ _ => ⟨rfl, fun _ => code_ne_of_mem_ite (by simp [DiagnosticCode.linking]) nofun⟩

theorem silent_divisionByZero : Silent divisionByZero :=
  fun _ _ _ => ⟨rfl, fun _ => code_ne_of_mem_ite (by simp [DiagnosticCode.linking]) nofun⟩

theorem silent_unusedDatatype : Silent unusedDatatype :=
  fun _ _ _ => ⟨rfl, fun _ => code_ne_of_mem_ite nofun (by simp [DiagnosticCode.linking])⟩

/-- Of the checks for a type, the last one looks at references, and the others do not. -/
theorem checksFor_registry {type : TypeId} (declared : type < 10) :
    ∃ others, registry.checksFor type = others ++ [.referencesResolved] ∧ ∀ check ∈ others, Silent check := by
  refine ⟨((registry.registrations.take 7).filter (registry.concerns type)).map (·.check), ?_, ?_⟩
  · have last : registry.concerns type ⟨none, .referencesResolved⟩ = true := by
      have size : registry.types.size = 10 := by decide +kernel
      exact decide_eq_true (size ▸ declared)
    have split : registry.registrations =
        registry.registrations.take 7 ++ [⟨none, .referencesResolved⟩] := rfl
    unfold Registry.checksFor
    nth_rewrite 1 [split]
    rw [List.filter_append, List.map_append, List.filter_cons_of_pos last]
    rfl
  · intro check mem
    obtain ⟨registration, registered, rfl⟩ := List.mem_map.1 mem
    have registered := (List.mem_filter.1 registered).1
    simp only [registry, List.take_succ_cons, List.take_zero, List.mem_cons, List.not_mem_nil,
      or_false] at registered
    rcases registered with rfl | rfl | rfl | rfl | rfl | rfl | rfl
    · exact silent_uniqueNames _
    · exact silent_uniqueNames _
    · exact silent_uniqueNames _
    · exact silent_capitalizedName
    · exact silent_inheritanceCycle
    · exact silent_divisionByZero
    · exact silent_unusedDatatype

/-- The reports of the check on references are errors about references. -/
theorem of_mem_referencesResolved {a : Ast} {uri : DocumentUri} {id : NodeId} {d : Diagnostic}
    (mem : d ∈ (Check.referencesResolved.run a uri id).reports) :
    d.severity = .error ∧ d.code = some DiagnosticCode.linking := by
  obtain ⟨r, -, reported⟩ := List.mem_filterMap.1 mem
  split at reported
  · cases reported
    exact ⟨rfl, rfl⟩
  · cases reported

/-- What is found on a node about references are the reports of the check on references. -/
theorem linkingErrors_findingsOn {o : ValidationOptions} (runs : o.runs .referencesResolved = true) (a : Ast)
    (uri : DocumentUri) (id : NodeId) {type : TypeId} (declared : type < 10) :
    linkingErrors (findingsOn o a uri id ((registry.checksFor type).filter o.runs)) =
      (Check.referencesResolved.run a uri id).reports := by
  obtain ⟨others, eq, silent⟩ := checksFor_registry declared
  have quiet : linkingErrors (findingsOn o a uri id (others.filter o.runs)) = [] := by
    refine linkingErrors_eq_nil fun d mem => ?_
    obtain ⟨check, run, reported⟩ := List.mem_flatMap.1 mem
    obtain ⟨whole, none⟩ := silent check (List.mem_filter.1 run).1 a uri id
    unfold emitted at reported
    rw [whole] at reported
    dsimp only at reported
    split at reported
    · obtain ⟨e, made, rfl⟩ := List.mem_map.1 reported
      unfold Diagnostic.raiseWarning
      split
      · exact none e made
      · exact none e made
    · exact none d reported
  -- errors are not raised any further
  have raised : (Check.referencesResolved.run a uri id).reports.map Diagnostic.raiseWarning =
      (Check.referencesResolved.run a uri id).reports := by
    refine (List.map_congr_left fun d mem => ?_).trans (List.map_id _)
    rw [Diagnostic.raiseWarning, (of_mem_referencesResolved mem).1]
    rfl
  have own : findingsOn o a uri id [.referencesResolved] = (Check.referencesResolved.run a uri id).reports := by
    rw [findingsOn, List.flatMap_singleton, emitted, raised, ite_self]
    rfl
  rw [eq, List.filter_append, List.filter_cons_of_pos runs, findingsOn, List.flatMap_append,
    linkingErrors_append]
  change linkingErrors (findingsOn o a uri id (others.filter o.runs)) ++
    linkingErrors (findingsOn o a uri id [.referencesResolved]) = _
  rw [quiet, own, List.nil_append]
  exact List.filter_eq_self.2 fun d mem => by simp [(of_mem_referencesResolved mem).2]

/-! ### One report for each reference -/

/-- What is to be reported of a reference, and where. -/
def complaint? (r : Reference) : Option (String × TextRange) :=
  match r.resolution with
  | some (.unresolved message) => some (message, r.source.range)
  | _ => none

/-- What is to be reported of the references of a document. -/
def complaints (a : Ast) : List (String × TextRange) := a.placed.filterMap fun (_, r) => complaint? r

namespace Standing

variable {a : Ast} (h : Standing a) {id : NodeId} {n : AstNode} {i : RefId} {r : Reference}

include h

/-- A reference of a node is where the node says, and it stands in the text where it was assigned. -/
theorem range_of_reference (isNode : a.node? id = some n) (mem : i ∈ n.references) :
    ∃ r feature, a.reference? i = some r ∧ r.place = some ⟨id, feature, none⟩ ∧
      Diagnostic.rangeOn a id (some feature) none = r.source.range := by
  obtain ⟨feature, v, kind, held, mem, -, admits⟩ :=
    h.exists_feature isNode (AstNode.mem_references_iff.1 mem)
  obtain rfl : v = .reference i := by
    rcases admits.parts_cases mem with ⟨_, _, _, -, rfl, same, -⟩ | ⟨_, absurd, -⟩
    · cases same
      rfl
    · cases absurd
  obtain ⟨r, found, placed⟩ := h.place_of_held isNode held
  obtain ⟨q, found', head⟩ := (h.whole isNode).sources feature i held
  obtain rfl : q = r := Option.some.inj (found'.symm.trans found)
  refine ⟨q, feature, found, placed, ?_⟩
  have range : a.propertyRange? id feature none = some q.source.range := by
    unfold Ast.propertyRange? AstNode.propertyRange?
    rw [isNode]
    unfold treesOf at head
    cases source : n.source with
    | none => rw [source] at head; cases head
    | some tree =>
      rw [source, Option.map_some, Option.getD_some, List.head?_eq_getElem?] at head
      simp [source, head]
  rw [Diagnostic.rangeOn, Option.bind_some, range]
  rfl

/-- Every reference is held by one node of the tree, once. -/
theorem perm_references : (a.preorder.flatMap fun id => ((a.node? id).map (·.references)).getD []).Perm
    (a.placed.map (·.1)) := by
  obtain ⟨once, all⟩ := h.rooted.preorder_spec
  have held : ∀ {id i}, i ∈ ((a.node? id).map (·.references)).getD [] →
      ∃ n, a.node? id = some n ∧ i ∈ n.references := by
    intro id i mem
    cases isNode : a.node? id with
    | none => rw [isNode] at mem; cases mem
    | some n => exact ⟨n, rfl, by simpa [isNode] using mem⟩
  refine (List.perm_ext_iff_of_nodup ?_ a.nodup_placed).2 fun i => ?_
  · refine List.nodup_flatMap.2 ⟨fun id _ => ?_, once.imp fun {id id'} differ i mem mem' => differ ?_⟩
    · cases isNode : a.node? id with
      | none => exact List.nodup_nil
      | some n => exact AstNode.nodup_references (h.sound.nodes id n isNode).once
    · obtain ⟨n, isNode, mem⟩ := held mem
      obtain ⟨n', isNode', mem'⟩ := held mem'
      obtain ⟨r, feature, found, placed, -⟩ := h.range_of_reference isNode mem
      obtain ⟨r', feature', found', placed', -⟩ := h.range_of_reference isNode' mem'
      obtain rfl : r = r' := Option.some.inj (found.symm.trans found')
      exact congrArg Place.holder (Option.some.inj (placed.symm.trans placed'))
  · rw [Ast.mem_map_fst_placed_iff, List.mem_flatMap]
    constructor
    · rintro ⟨id, -, mem⟩
      obtain ⟨n, isNode, mem⟩ := held mem
      obtain ⟨r, feature, found, placed, -⟩ := h.range_of_reference isNode mem
      exact ⟨r, found, by rw [placed]; rfl⟩
    · rintro ⟨r, found, -⟩
      obtain ⟨holder, n, feature, isNode, held, -, -⟩ := h.exists_holder found
      refine ⟨holder, (all holder).2 (h.reachable isNode), ?_⟩
      rw [isNode]
      exact AstNode.mem_references_iff.2 (Properties.mem_parts_of_get? held (List.mem_singleton_self _))

/-- The check on references reports what there is to report of the references of a node. -/
theorem reports_eq (cx : LinkContext) (uri : DocumentUri) (id : NodeId) :
    ((Check.referencesResolved.run (Linking.resolveAll cx a) uri id).reports.map fun d => (d.message, d.range)) =
      (((a.node? id).map (·.references)).getD []).filterMap
        fun i => ((Linking.resolveAll cx a).reference? i).bind complaint? := by
  have nodes : (Linking.resolveAll cx a).node? id = a.node? id := rfl
  rw [Check.referencesResolved]
  dsimp only
  rw [nodes]
  cases isNode : a.node? id with
  | none => rfl
  | some n =>
    rw [Option.map_some, Option.getD_some, List.filterMap_filterMap, List.map_filterMap]
    refine List.filterMap_congr fun i mem => ?_
    obtain ⟨r, feature, found, placed, range⟩ := h.range_of_reference isNode mem
    rw [Linking.reference?_resolveAll cx found (by rw [placed]; rfl), Option.bind_some, Option.bind_some,
      complaint?]
    dsimp only
    rw [placed]
    cases Linking.resolve a r cx with
    | resolved => rfl
    | unresolved message => exact congrArg (fun range => some (message, range)) range

/-- The reports about references, node by node, are what there is to report of the references. -/
theorem perm_complaints (cx : LinkContext) (uri : DocumentUri) :
    ((a.preorder.flatMap fun id => (Check.referencesResolved.run (Linking.resolveAll cx a) uri id).reports).map
      fun d => (d.message, d.range)).Perm (complaints (Linking.resolveAll cx a)) := by
  have listed : complaints (Linking.resolveAll cx a) = ((Linking.resolveAll cx a).placed.map (·.1)).filterMap
      fun i => ((Linking.resolveAll cx a).reference? i).bind complaint? := by
    rw [List.filterMap_map]
    refine List.filterMap_congr fun (i, r) mem => ?_
    have found : (Linking.resolveAll cx a).reference? i = some r :=
      ((Ast.mem_placed_iff _ i r).1 mem).1
    dsimp only [Function.comp]
    rw [found, Option.bind_some]
  rw [listed, List.map_flatMap]
  simp only [h.reports_eq cx uri]
  rw [← List.filterMap_flatMap]
  exact (h.perm_references.trans (Linking.perm_placed_resolveAll cx a).symm).filterMap _

/-- Of what is found in a linked document, the part about references is what there is to report of them. -/
theorem perm_findings {o : ValidationOptions} (runs : o.runs .referencesResolved = true) (cx : LinkContext)
    (uri : DocumentUri) :
    ((linkingErrors ((Linking.resolveAll cx a).preorder.flatMap fun id =>
      findingsOn o (Linking.resolveAll cx a) uri id
        ((registry.checksFor (typeAt (Linking.resolveAll cx a) id)).filter o.runs))).map
      fun d => (d.message, d.range)).Perm (complaints (Linking.resolveAll cx a)) := by
  have walk : (Linking.resolveAll cx a).preorder = a.preorder := by
    rw [← Ast.preorder_unlink, Linking.unlink_resolveAll, Ast.preorder_unlink]
  have declared : ∀ type ∈ concreteTypes, type < 10 := by decide
  have reports : (linkingErrors (a.preorder.flatMap fun id => findingsOn o (Linking.resolveAll cx a) uri id
      ((registry.checksFor (typeAt (Linking.resolveAll cx a) id)).filter o.runs))) =
      a.preorder.flatMap fun id => (Check.referencesResolved.run (Linking.resolveAll cx a) uri id).reports := by
    rw [linkingErrors, List.filter_flatMap]
    refine List.flatMap_congr fun id mem => linkingErrors_findingsOn runs _ uri id ?_
    obtain ⟨n, isNode⟩ := h.exists_node ((h.rooted.preorder_spec.2 id).1 mem)
    have type : typeAt (Linking.resolveAll cx a) id = n.type := by
      unfold typeAt
      rw [show (Linking.resolveAll cx a).node? id = some n from isNode]
      rfl
    rw [type]
    exact declared _ (h.type_mem_concreteTypes isNode)
  rw [walk, reports]
  exact h.perm_complaints cx uri

end Standing

/-! ### Analyses -/

/-- The diagnostics about references match the unresolved references one to one: they have the message of the
reference, and stand where its text stands. -/
def Reported (x : Analysis) : Prop :=
  ((linkingErrors x.diagnostics).map fun d => (d.message, d.range)).Perm (complaints x.parsed.ast)

/-- **Unresolved references are reported exactly and in the right place** when domain models are analysed,
if the check on references is switched on. -/
theorem reported_analyze (limits : Limits) {o : ValidationOptions} (runs : o.runs .referencesResolved = true)
    (uri : DocumentUri) (text : String) (exported : String → List Description) :
    Ends ((languageWith limits).analyze uri text exported o) ∧
      Ensures ((languageWith limits).analyze uri text exported o) fun x =>
        Unabridged o x.parsed x.diagnostics → Reported x := by
  refine ⟨(languageWith limits).ends_analyze quiet_registry uri text exported o, ?_⟩
  intro token x rest ok unabridged
  have outcome := (languageWith limits).ensures_analyze uri text exported o token x rest ok
  obtain ⟨token', rest', validated⟩ := outcome.diagnostics
  have eq := ensures_unabridged registry x.parsed uri o token' x.diagnostics rest' validated unabridged
  have others : linkingErrors (ofLexErrors x.parsed.lexErrors ++ ofParseErrors x.parsed.parseErrors) = [] := by
    refine linkingErrors_eq_nil fun d mem => ?_
    rcases List.mem_append.1 mem with mem | mem <;> obtain ⟨e, -, rfl⟩ := List.mem_map.1 mem <;>
      simp [DiagnosticCode.linking, DiagnosticCode.lexing, DiagnosticCode.parsing]
  have standing : Standing ((languageWith limits).parse text).ast := standing_parse limits text
  rw [Reported, eq, linkingErrors_append, others, List.nil_append, outcome.tree]
  exact standing.perm_findings runs _ uri

/-- A document with one reference, analysed on its own. -/
def analyzeMissing (o : ValidationOptions) : Except Cancelled (Analysis × Cancellation) :=
  language.analyze "file:///b.dmodel" "class B extends Missing \x7b\x7d" (fun _ => []) o .never

/-- The class that does not exist is reported where its name stands. -/
theorem reported_analyze_missing :
    ∃ x rest, analyzeMissing {} = .ok (x, rest) ∧ Unabridged {} x.parsed x.diagnostics ∧ Reported x ∧
      complaints x.parsed.ast =
        [("Could not resolve reference to Class named 'Missing'.", .of 16 23)] := by
  obtain ⟨⟨x, ok⟩, reported⟩ := reported_analyze {} (o := {}) (by decide) "file:///b.dmodel"
    "class B extends Missing \x7b\x7d" fun _ => []
  have found : (analyzeMissing {}).toOption.map
      (fun (x, _) => (x.diagnostics.map (·.code), complaints x.parsed.ast)) =
      some ([some DiagnosticCode.linking],
        [("Could not resolve reference to Class named 'Missing'.", .of 16 23)]) := by decide +kernel
  rw [show analyzeMissing {} = .ok (x, .never) from ok] at found ⊢
  obtain ⟨codes, complained⟩ := Prod.mk.inj (Option.some.inj found)
  have unabridged : Unabridged {} x.parsed x.diagnostics := by
    refine ⟨nofun, nofun, fun d mem => ?_⟩
    have code := List.mem_map_of_mem (f := (·.code)) mem
    rw [codes] at code
    rw [List.mem_singleton.1 code]
    decide
  exact ⟨x, .never, rfl, unabridged, reported _ x _ ok unabridged, complained⟩

/-- With the check on references switched off, the class that does not exist is not reported. -/
theorem unreported_analyze_disabled :
    ∃ x rest, analyzeMissing (ValidationOptions.disable {} "references-resolved") = .ok (x, rest) ∧
      Unabridged (ValidationOptions.disable {} "references-resolved") x.parsed x.diagnostics ∧ ¬Reported x := by
  have found : (analyzeMissing (ValidationOptions.disable {} "references-resolved")).toOption.map
      (fun (x, _) => (x.diagnostics, (complaints x.parsed.ast).length)) = some ([], 1) := by decide +kernel
  cases ok : analyzeMissing (ValidationOptions.disable {} "references-resolved") with
  | error e =>
    rw [ok] at found
    cases found
  | ok result =>
    rw [ok] at found
    obtain ⟨x, rest⟩ := result
    obtain ⟨none, one⟩ := Prod.mk.inj (Option.some.inj found)
    refine ⟨x, rest, rfl, ⟨nofun, nofun, by rw [none]; nofun⟩, fun reported => ?_⟩
    have length := reported.length_eq
    rw [none, one] at length
    cases length

end DomainModel

end Workbench
