import Workbench.Proofs.Workspace.Documents
import Workbench.Workspace.Recorded

/-!
**Documents as they are kept, and their progress.**

A document that keeps its products in fields, and one that has a progress, go the same way: the fields hold
what the progress holds, and nothing for a product that the progress does not have. Every step of a
workspace keeps that, whether it is cut short or not. So in every run the state of a document says what
stands in its fields.
-/

namespace Workbench

open Cancellable

/-- The fields of a document that has come so far. -/
def Document.recorded (d : Document) : Recorded.Document where
  version := d.version
  text := d.text
  state := d.state
  parsed := d.progress.result?
  exports := d.progress.exports
  locals := d.progress.locals
  diagnostics := d.progress.diagnostics

def Workspace.recorded (w : Workspace) : Recorded.Workspace where
  language := w.language
  options := w.options
  documents := w.documents.map fun _ => Document.recorded
  index := w.index
  generation := w.generation
  fired := w.fired
  shutDown := w.shutDown

namespace UriMap

variable {α β : Type} (m : UriMap α) (uri : DocumentUri) (a : α) (f : DocumentUri → α → β)

theorem keys_map : (m.map f).keys = m.keys := by
  simp [keys, map]

theorem map_self : (m.map fun _ a => a) = m :=
  ext_get? fun k => by rw [get?_map, Option.map_id']

theorem map_map {γ : Type} (g : DocumentUri → β → γ) : (m.map f).map g = m.map fun k a => g k (f k a) := by
  refine ext_get? fun k => ?_
  rw [get?_map, get?_map, get?_map, Option.map_map]
  rfl

theorem map_insert : (m.insert uri a).map f = (m.map f).insert uri (f uri a) := by
  refine ext_get? fun k => ?_
  rw [get?_map, get?_insert, get?_insert, get?_map]
  split
  · next same => rw [same, Option.map_some]
  · rfl

theorem map_eraseAll (uris : List DocumentUri) : (m.eraseAll uris).map f = (m.map f).eraseAll uris := by
  refine ext_get? fun k => ?_
  rw [get?_map, get?_eraseAll, get?_eraseAll, get?_map]
  split <;> rfl

end UriMap

namespace Recorded

/-! ### Going back -/

theorem recorded_reset (d : Workbench.Document) : d.reset.recorded = d.recorded.reset := rfl

theorem recorded_unlink (d : Workbench.Document) : d.unlink.recorded = d.recorded.unlink := by
  obtain ⟨version, text, progress⟩ := d
  cases progress <;> rfl

/-- Whether a change of the documents `touched` may let references of this one resolve differently. -/
def Document.isAffectedBy (d : Document) (touched : List DocumentUri) : Bool :=
  decide (DocumentState.scoped < d.state) && (d.refersInto touched || d.hasUnresolved)

theorem isAffectedBy_recorded (d : Workbench.Document) (touched : List DocumentUri) :
    d.recorded.isAffectedBy touched = d.isAffectedBy touched := rfl

namespace Workspace

variable {w : Workspace} {touched : List DocumentUri}

theorem foldl_forget (w : Workspace) (changed : List DocumentUri) :
    changed.foldl forget w = { w with
      documents := w.documents.map fun uri d => if changed.contains uri then d.reset else d
      index := w.index.eraseAll changed } := by
  induction changed generalizing w with
  | nil =>
    have same : (w.documents.map fun uri d => if ([] : List DocumentUri).contains uri then d.reset else d) =
        w.documents := w.documents.map_self
    rw [same]
    rfl
  | cons uri rest ih =>
    rw [List.foldl_cons, ih]
    have same : ((w.documents.modify uri Document.reset).map fun k d => if rest.contains k then d.reset else d) =
        w.documents.map fun k d => if (uri :: rest).contains k then d.reset else d := by
      refine UriMap.ext_get? fun k => ?_
      rw [UriMap.get?_map, UriMap.get?_modify, UriMap.get?_map]
      cases w.documents.get? k with
      | none => simp
      | some d =>
        by_cases first : k = uri
        · by_cases again : k ∈ rest <;> simp [first, Document.reset]
        · simp [first]
    simp only [forget, same]
    rfl

theorem foldl_remove (w : Workspace) (deleted : List DocumentUri) :
    deleted.foldl remove w = { w with
      documents := w.documents.eraseAll deleted
      index := w.index.eraseAll deleted } := by
  induction deleted generalizing w with
  | nil => rfl
  | cons uri rest ih =>
    rw [List.foldl_cons, ih]
    rfl

/-- Whether a document is to be unlinked. -/
def hit (touched : List DocumentUri) (w : Workspace) (uri : DocumentUri) : Bool :=
  !touched.contains uri && (w.documents.get? uri).any (·.isAffectedBy touched)

theorem relink_eq (w : Workspace) (noted : List DocumentUri) (uri : DocumentUri) :
    relink touched (w, noted) uri =
      if hit touched w uri then
        ({ w with documents := w.documents.modify uri Document.unlink }, noted ++ [uri])
      else (w, noted) := by
  unfold relink hit
  dsimp only
  cases touched.contains uri with
  | true => rfl
  | false =>
    cases w.documents.get? uri with
    | none => rfl
    | some d => rfl

/-- Documents are unlinked one after the other, and none of them makes a difference to the others. -/
theorem foldl_relink {uris : List DocumentUri} (once : uris.Nodup) (w : Workspace) (noted : List DocumentUri) :
    uris.foldl (relink touched) (w, noted) =
      ({ w with documents := w.documents.map fun uri d =>
          if (uris.filter (hit touched w)).contains uri then d.unlink else d },
        noted ++ uris.filter (hit touched w)) := by
  induction uris generalizing w noted with
  | nil =>
    have same : (w.documents.map fun uri d => if ([] : List DocumentUri).contains uri then d.unlink else d) =
        w.documents := w.documents.map_self
    rw [List.foldl_nil, List.filter_nil, same, List.append_nil]
  | cons uri rest ih =>
    obtain ⟨fresh, once⟩ := List.nodup_cons.1 once
    rw [List.foldl_cons, relink_eq]
    cases first : hit touched w uri with
    | false =>
      rw [if_neg Bool.false_ne_true, ih once, List.filter_cons_of_neg (by simp [first])]
    | true =>
      have others : rest.filter (hit touched { w with documents := w.documents.modify uri Document.unlink }) =
          rest.filter (hit touched w) := by
        refine List.filter_congr fun k mem => ?_
        unfold hit
        rw [UriMap.get?_modify, if_neg (ne_of_mem_of_not_mem mem fresh)]
      rw [if_pos rfl, ih once, others, List.filter_cons_of_pos first]
      refine Prod.ext ?_ (by simp)
      have same : ((w.documents.modify uri Document.unlink).map fun k d =>
            if (rest.filter (hit touched w)).contains k then d.unlink else d) =
          w.documents.map fun k d =>
            if (uri :: rest.filter (hit touched w)).contains k then d.unlink else d := by
        refine UriMap.ext_get? fun k => ?_
        rw [UriMap.get?_map, UriMap.get?_modify, UriMap.get?_map]
        cases w.documents.get? k with
        | none => simp
        | some d =>
          by_cases self : k = uri
          · simp [self, fresh]
          · simp [self]
      exact congrArg (fun documents => { w with documents }) same

/-- The documents that are hit, in their order, are those that a change affects. -/
theorem filter_hit_recorded (w : Workbench.Workspace) (touched : List DocumentUri) :
    w.recorded.documents.keys.filter (hit touched w.recorded) =
      (w.documents.entries.filter fun (uri, d) => !touched.contains uri && d.isAffectedBy touched).map (·.1) := by
  have keys : w.recorded.documents.keys = w.documents.entries.map (·.1) := UriMap.keys_map _ _
  rw [keys, List.filter_map]
  refine congrArg _ (List.filter_congr fun entry mem => ?_)
  have found := (UriMap.mem_entries_iff w.documents entry.1 entry.2).1 mem
  have kept : w.recorded.documents.get? entry.1 = some entry.2.recorded := by
    rw [Workspace.recorded, UriMap.get?_map, found, Option.map_some]
  simp [hit, kept, isAffectedBy_recorded]

/-- What is done to the fields of every document is done to its progress. -/
theorem map_documents_recorded (w : Workbench.Workspace) {f : DocumentUri → Document → Document}
    {g : DocumentUri → Workbench.Document → Workbench.Document}
    (same : ∀ uri d, f uri d.recorded = (g uri d).recorded) :
    w.recorded.documents.map f = (w.documents.map g).map fun _ => Document.recorded := by
  unfold Workspace.recorded
  rw [UriMap.map_map, UriMap.map_map]
  simp only [same]

/-- After a change, the documents that it affects are unlinked, and no others. -/
theorem relinked_recorded (w : Workbench.Workspace) (touched : List DocumentUri) :
    (if touched.isEmpty then (w.recorded, [])
      else w.recorded.documents.keys.foldl (relink touched) (w.recorded, [])) =
      ({ w with documents := w.documents.map fun uri d =>
          if (Workbench.Workspace.affected w.documents touched).contains uri then d.unlink else d }.recorded,
        Workbench.Workspace.affected w.documents touched) := by
  have unlinked : ∀ uris : List DocumentUri,
      (w.recorded.documents.map fun uri d => if uris.contains uri then d.unlink else d) =
        (w.documents.map fun uri d => if uris.contains uri then d.unlink else d).map fun _ =>
          Document.recorded := by
    refine fun uris => map_documents_recorded w fun uri d => ?_
    rw [apply_ite Document.recorded, recorded_unlink]
  unfold Workbench.Workspace.affected
  split
  · rw [show (w.documents.map fun uri d => if ([] : List DocumentUri).contains uri then d.unlink else d) =
      w.documents from w.documents.map_self]
  · have once : w.recorded.documents.keys.Nodup := UriMap.nodup_keys _
    rw [foldl_relink once, List.nil_append, filter_hit_recorded, unlinked]
    rfl

/-- What is reset, removed and unlinked step by step is what is reset, removed and unlinked at once. -/
theorem invalidate_recorded (w : Workbench.Workspace) (changed deleted : List DocumentUri) :
    w.recorded.invalidate changed deleted =
      ((w.invalidate changed deleted).1.recorded, (w.invalidate changed deleted).2) := by
  let pruned : Workbench.Workspace := { w with
    documents := w.pruned changed deleted
    index := w.index.eraseAll (changed ++ deleted) }
  have forgotten : deleted.foldl remove (changed.foldl forget w.recorded) = pruned.recorded := by
    have documents : (w.recorded.documents.map fun uri d =>
          if changed.contains uri then d.reset else d).eraseAll deleted = pruned.recorded.documents := by
      refine Eq.trans (congrArg (UriMap.eraseAll · deleted) (map_documents_recorded w fun uri d => ?_))
        (UriMap.map_eraseAll _ _ deleted).symm
      rw [apply_ite Document.recorded, recorded_reset]
    rw [foldl_forget, foldl_remove, documents]
    simp only [UriMap.eraseAll, pruned, Workspace.recorded, List.foldl_append]
  unfold invalidate
  dsimp only
  rw [forgotten, relinked_recorded]
  rfl

/-! ### Changes and builds -/

theorem get?_documents_recorded (w : Workbench.Workspace) (uri : DocumentUri) :
    w.recorded.documents.get? uri = (w.documents.get? uri).map (·.recorded) := UriMap.get?_map _ _ _

/-- A changed text is the same on both sides, whether the document was there or not. -/
theorem apply_recorded (w : Workbench.Workspace) (uri : DocumentUri) (change : Change) :
    w.recorded.apply uri change = (w.apply uri change).map fun (w, what) => (w.recorded, what) := by
  have changed : ∀ d : Workbench.Document,
      ({ w.recorded with fired := true, documents := w.recorded.documents.insert uri d.recorded } : Workspace) =
        ({ w with fired := true, documents := w.documents.insert uri d } : Workbench.Workspace).recorded := by
    intro d
    simp only [Workspace.recorded, UriMap.map_insert]
  unfold Recorded.Workspace.apply Workbench.Workspace.apply
  rw [get?_documents_recorded]
  cases w.documents.get? uri with
  | none =>
    cases change with
    | set version text =>
      have invalidated := invalidate_recorded
        { w with fired := true, documents := w.documents.insert uri { version, text } } [uri] []
      rw [← changed] at invalidated
      exact congrArg Except.ok invalidated
    | edit version edits => rfl
  | some d =>
    cases change with
    | set version text =>
      have invalidated := invalidate_recorded
        { w with fired := true, documents := w.documents.insert uri { version, text } } [uri] []
      rw [← changed] at invalidated
      exact congrArg Except.ok invalidated
    | edit version edits =>
      have invalidated := invalidate_recorded
        { w with
          fired := true
          documents := w.documents.insert uri
            { version, text := edits.foldl (fun text e => e.apply text) d.text } } [uri] []
      rw [← changed] at invalidated
      exact congrArg Except.ok invalidated

theorem begin_recorded (w : Workbench.Workspace) (changed deleted : List DocumentUri) :
    w.recorded.begin changed deleted = (w.begin changed deleted).map fun (w, what) => (w.recorded, what) := by
  unfold Recorded.Workspace.begin Workbench.Workspace.begin
  have same : w.recorded.shutDown = w.shutDown := rfl
  rw [same]
  split
  · rfl
  · exact congrArg Except.ok
      (invalidate_recorded { w with generation := w.generation + 1, fired := false } changed deleted)

/-- A phase sets the field of the product that the progress gains. The state does not move on here. -/
theorem runPhase_recorded (w : Workbench.Workspace) (options : ValidationOptions) (uri : DocumentUri)
    {phase : Phase} {d : Workbench.Document} (ready : d.state = phase.source) (token : Cancellation)
    {progress : Progress} {visit : Workbench.Workspace.Visit}
    (moved : w.advance options uri d.text phase d.progress token = (progress, visit)) :
    w.recorded.runPhase options phase uri d.recorded token = {
      index := if phase = .index ∧ visit = .advanced then w.index.insert uri progress.exports else w.index
      document := { ({ d with progress } : Workbench.Document).recorded with state := d.state }
      stopped := decide (visit = .cancelled) } := by
  obtain ⟨version, text, before⟩ := d
  unfold Workbench.Workspace.advance at moved
  cases phase <;> cases before <;> cases ready
  case parse.changed =>
    cases moved
    rfl
  case index.parsed result =>
    simp only [runPhase, Document.recorded, Progress.result?, Workspace.recorded]
    dsimp only at moved ⊢
    cases outcome : w.language.exports result.ast uri token with
    | ok computed =>
      rw [outcome] at moved
      cases moved
      rfl
    | error e =>
      rw [outcome] at moved
      cases moved
      rfl
  case scope.indexed result exports =>
    simp only [runPhase, Document.recorded, Progress.result?, Workspace.recorded]
    dsimp only at moved ⊢
    cases outcome : w.language.localScopes result.ast uri token with
    | ok computed =>
      rw [outcome] at moved
      cases moved
      rfl
    | error e =>
      rw [outcome] at moved
      cases moved
      rfl
  case link.scoped result exports locals =>
    simp only [runPhase, Document.recorded, Document.clearLinks, Progress.result?, Option.map_some]
    dsimp only at moved
    have same : (Linking.link ⟨(Progress.scoped result exports locals).locals, w.recorded.exported⟩
        result.unlink.ast token).outcome = (Linking.link ⟨locals, w.exported⟩ result.ast.unlink token).outcome :=
      rfl
    rw [same]
    cases outcome : (Linking.link ⟨locals, w.exported⟩ result.ast.unlink token).outcome with
    | ok computed =>
      rw [outcome] at moved
      cases moved
      rfl
    | error e =>
      rw [outcome] at moved
      cases moved
      rfl
  case validate.linked result exports locals =>
    simp only [runPhase, Document.recorded, Progress.result?, Workspace.recorded]
    dsimp only at moved ⊢
    cases outcome : w.language.validate result uri options token with
    | ok computed =>
      rw [outcome] at moved
      cases moved
      rfl
    | error e =>
      rw [outcome] at moved
      cases moved
      rfl

theorem advance_of_not_ready (w : Workbench.Workspace) (options : ValidationOptions) (uri : DocumentUri)
    (text : String) {phase : Phase} {progress : Progress} (other : progress.state ≠ phase.source)
    (token : Cancellation) : w.advance options uri text phase progress token = (progress, .passed) := by
  cases phase <;> cases progress <;> first | rfl | exact absurd rfl other

theorem state_of_stopped {w : Workbench.Workspace} {options : ValidationOptions} {uri : DocumentUri}
    {text : String} {phase : Phase} {before progress : Progress}
    (h : Workbench.Workspace.Moves w options uri text phase before progress .cancelled) :
    progress.state = before.state := by
  cases h <;> rfl

/-- **A visit that sets fields makes the progress that the document has afterwards**, also where it is
stopped. -/
theorem visit_recorded (w : Workbench.Workspace) (options : ValidationOptions) (phase : Phase)
    (uri : DocumentUri) (token : Cancellation) :
    w.recorded.visit options phase uri token =
      ((w.visit options phase uri token).1.recorded, (w.visit options phase uri token).2) := by
  unfold Recorded.Workspace.visit Workbench.Workspace.visit
  rw [get?_documents_recorded]
  cases w.documents.get? uri with
  | none => rfl
  | some d =>
    dsimp only [Option.map_some]
    have state : d.recorded.state = d.state := rfl
    rw [state]
    by_cases ready : d.state = phase.source
    · cases moved : w.advance options uri d.text phase d.progress token with
      | mk progress visit =>
        have inserted : ∀ index, ({ w.recorded with
              index
              documents :=
                w.recorded.documents.insert uri ({ d with progress } : Workbench.Document).recorded } :
                Workspace) =
            ({ w with index, documents := w.documents.insert uri { d with progress } } :
              Workbench.Workspace).recorded := by
          intro index
          simp only [Workspace.recorded, UriMap.map_insert]
        have notPassed : visit ≠ .passed := by
          have notPassed : (w.advance options uri d.text phase d.progress token).2 ≠ .passed :=
            w.advance_ne_passed ready
          rwa [moved] at notPassed
        have moves := Workbench.Workspace.moves_of_advance w moved notPassed
        rw [if_pos ready, runPhase_recorded w options uri ready token moved]
        cases visit with
        | passed => exact absurd rfl notPassed
        | cancelled =>
          -- nothing but the resolutions has changed, and the state stands
          have kept : { ({ d with progress } : Workbench.Document).recorded with state := d.state } =
              ({ d with progress } : Workbench.Document).recorded := by
            rw [Workbench.Document.state, ← state_of_stopped moves]
            rfl
          simp only [reduceCtorEq, and_false, if_false, decide_true, if_true, kept]
          exact congrArg (·, Workbench.Workspace.Visit.cancelled) (inserted w.index)
        | advanced =>
          have reached : { ({ d with progress } : Workbench.Document).recorded with state := phase.target } =
              ({ d with progress } : Workbench.Document).recorded := by
            rw [← moves.states.2]
            rfl
          simp only [Document.advance, reduceCtorEq, and_true, decide_false, Bool.false_eq_true, if_false, reached]
          have indexed := inserted (if phase = .index then w.index.insert uri progress.exports else w.index)
          refine (congrArg (·, Workbench.Workspace.Visit.advanced) indexed).trans ?_
          cases phase <;> rfl
    · rw [if_neg ready, advance_of_not_ready w options uri d.text ready]

end Workspace

theorem startBuild_recorded (w : Workbench.Workspace) (generation : Nat) :
    startBuild w.recorded generation = Build.start w generation := by
  unfold startBuild Build.start
  have keys : w.recorded.documents.keys = w.documents.keys := UriMap.keys_map _ _
  rw [keys]
  rfl

theorem stepBuild_recorded (b : Build) (w : Workbench.Workspace) (token : Cancellation) :
    stepBuild b w.recorded token = ((b.step w token).1.recorded, (b.step w token).2) := by
  obtain ⟨generation, options, agenda, advanced⟩ := b
  unfold stepBuild Build.step
  cases agenda with
  | nil => rfl
  | cons task agenda =>
    cases task with
    | finish phase => rfl
    | visit phase uri =>
      have fired : w.recorded.hasFired generation = w.hasFired generation := rfl
      dsimp only
      rw [fired, Workspace.visit_recorded]
      split
      · rfl
      · cases w.visit options phase uri token with
        | mk w visit => cases visit <;> rfl

/-! ### Runs -/

/-- A workspace of such documents, with the builds that wait or run and the reports that were handed out. -/
structure Site where
  workspace : Workspace
  waiting : List Nat := []
  running : Option Build := none
  reports : Reports := {}
  answered : List Answered := []

namespace Site

/-- The site of a workspace in which nothing has happened. -/
def opened (l : Language) (o : ValidationOptions) : Site where
  workspace := { language := l, options := o }

/-- Takes over a workspace in which something was invalidated. -/
def takeOver (s : Site) (w : Workspace) (what : Invalidation) : Site :=
  { s with workspace := w, reports := s.reports.evict what.touched }

/-- Adds an answer. -/
def answer (s : Site) (a : Answered) : Site := { s with answered := s.answered ++ [a] }

/-- What an action does. One that is not possible does nothing. -/
def act (s : Site) : Action → Site
  | .apply uri change =>
    match s.workspace.apply uri change with
    | .ok (w, what) => s.takeOver w what
    | .error _ => s
  | .begin changed deleted =>
    match s.workspace.begin changed deleted with
    | .ok (w, what) => { s.takeOver w what with waiting := s.waiting ++ [w.generation] }
    | .error _ => s
  | .start generation =>
    if s.running.isNone && s.waiting.contains generation then
      { s with
        waiting := s.waiting.erase generation
        running := some (startBuild s.workspace generation) }
    else s
  | .step token =>
    match s.running with
    | none => s
    | some b =>
      let (w, outcome) := stepBuild b s.workspace token
      { s with workspace := w, running := outcome.next? }
  | .abandon => { s with running := none }
  | .shutdown => { s with workspace := s.workspace.shutdown }
  | .reuse uri previous =>
    match s.reports.cached.get? uri with
    | some report => s.answer { uri, fresh := false, answer := .of previous report }
    | none => s
  | .report uri =>
    match s.workspace.documents.get? uri with
    | some d =>
      if DocumentState.validated ≤ d.state then
        let (reports, report) := s.reports.make uri (d.editorDiagnostics uri)
        { s with reports }.answer { uri, fresh := true, answer := .full report }
      else s
    | none => s

/-- Carries out actions one after the other. -/
def run (s : Site) (actions : List Action) : Site := actions.foldl act s

end Site

end Recorded

def Site.recorded (s : Site) : Recorded.Site where
  workspace := s.workspace.recorded
  waiting := s.waiting
  running := s.running
  reports := s.reports
  answered := s.answered

namespace Recorded

/-- Every action does to the fields what it does to the progress of the documents. -/
theorem act_recorded (s : Workbench.Site) (action : Action) :
    s.recorded.act action = (s.act action).recorded := by
  obtain ⟨w, waiting, running, reports, answered⟩ := s
  cases action with
  | apply uri change =>
    have applied := Workspace.apply_recorded w uri change
    simp only [Site.act, Workbench.Site.act, Site.recorded, applied]
    cases w.apply uri change <;> rfl
  | «begin» changed deleted =>
    have begun := Workspace.begin_recorded w changed deleted
    simp only [Site.act, Workbench.Site.act, Site.recorded, begun]
    cases w.begin changed deleted <;> rfl
  | start generation =>
    simp only [Site.act, Workbench.Site.act, Site.recorded, startBuild_recorded]
    split <;> rfl
  | step token =>
    simp only [Site.act, Workbench.Site.act, Site.recorded]
    cases running with
    | none => rfl
    | some b => simp only [stepBuild_recorded]
  | abandon => rfl
  | shutdown => rfl
  | reuse uri previous =>
    simp only [Site.act, Workbench.Site.act, Site.recorded]
    cases reports.cached.get? uri <;> rfl
  | report uri =>
    simp only [Site.act, Workbench.Site.act, Site.recorded, Workspace.get?_documents_recorded]
    cases w.documents.get? uri with
    | none => rfl
    | some d =>
      have state : d.recorded.state = d.state := rfl
      simp only [Option.map_some, state]
      split <;> rfl

theorem run_recorded (s : Workbench.Site) (actions : List Action) :
    s.recorded.run actions = (s.run actions).recorded := by
  induction actions generalizing s with
  | nil => rfl
  | cons action rest ih =>
    have after : s.recorded.run (action :: rest) = (s.recorded.act action).run rest := rfl
    rw [after, act_recorded, ih]
    rfl

/-- **In every run the fields of the documents hold what their progress holds**, however many of the builds
are cut short. -/
theorem opened_run_recorded (l : Language) (o : ValidationOptions) (actions : List Action) :
    (Site.opened l o).run actions = ((Workbench.Site.opened l o).run actions).recorded := by
  rw [← run_recorded]
  rfl

/-! ### Products -/

/-- A document has the products that its state tells, each in its field, and the other fields are empty. -/
structure Document.HasProducts (l : Language) (o : ValidationOptions) (uri : DocumentUri) (d : Document) :
    Prop where
  parsed : d.parsed.isSome ↔ .parsed ≤ d.state
  /-- A tree is that of the text, what linking adds to it apart. -/
  ofText : ∀ result, d.parsed = some result → result.unlink = l.parse d.text
  exports : ∀ result, d.parsed = some result → .indexed ≤ d.state →
    Yields (l.exports result.ast uri) d.exports
  noExports : d.state < .indexed → d.exports = []
  locals : ∀ result, d.parsed = some result → .scoped ≤ d.state →
    Yields (l.localScopes result.ast uri) d.locals
  noLocals : d.state < .scoped → d.locals = .empty
  linked : .linked ≤ d.state → ∀ r ∈ d.references, r.isLinked
  diagnostics : ∀ result, d.parsed = some result → d.state = .validated →
    Yields (l.validate result uri o) d.diagnostics
  noDiagnostics : d.state ≠ .validated → d.diagnostics = []

theorem isSome_result? (p : Progress) : p.result?.isSome ↔ .parsed ≤ p.state := by
  constructor
  · intro some
    cases p with
    | changed => cases some
    | _ => exact Nat.le_of_ble_eq_true rfl
  · intro le
    obtain ⟨result, eq⟩ := p.exists_result le
    rw [eq]
    rfl

theorem hasProducts_recorded {l : Language} {o : ValidationOptions} {w : Workbench.Workspace} (h : w.Sound l o)
    {uri : DocumentUri} {d : Workbench.Document} (found : w.documents.get? uri = some d) :
    d.recorded.HasProducts l o uri := by
  have faithful := h.faithful uri d found
  refine ⟨isSome_result? d.progress, faithful.parsed, faithful.exports, ?noExports, faithful.locals, ?noLocals,
    ?linked, faithful.diagnostics, ?noDiagnostics⟩
  case noExports =>
    intro below
    obtain ⟨version, text, progress⟩ := d
    cases progress with
    | changed => rfl
    | parsed => rfl
    | _ => exact absurd below (Nat.not_lt.2 (Nat.le_of_ble_eq_true rfl))
  case noLocals =>
    intro below
    obtain ⟨version, text, progress⟩ := d
    cases progress with
    | changed => rfl
    | parsed => rfl
    | indexed => rfl
    | _ => exact absurd below (Nat.not_lt.2 (Nat.le_of_ble_eq_true rfl))
  case linked =>
    intro state r mem
    change r ∈ d.references at mem
    obtain ⟨result, eq⟩ := d.progress.exists_result (Nat.le_trans (by decide) state)
    rw [d.references_of_result eq, Ast.mem_map_snd_placed_iff] at mem
    obtain ⟨x, resolved, -⟩ := (h.settled uri d found result eq state r mem.1).1 mem.2
    rw [Reference.isLinked, resolved]
    rfl
  case noDiagnostics =>
    intro notValidated
    obtain ⟨version, text, progress⟩ := d
    cases progress with
    | validated => exact absurd rfl notValidated
    | _ => rfl

/-- **In every run, the state of a document says exactly which of its fields hold products**, each of them
what its text gives, and the index holds the exports of exactly the documents that are indexed. -/
theorem Site.products_run (l : Language) (o : ValidationOptions) (actions : List Action) :
    let w := ((opened l o).run actions).workspace
    (∀ uri d, w.documents.get? uri = some d → d.HasProducts l o uri) ∧
      ∀ uri ds, w.index.get? uri = some ds ↔
        ∃ d, w.documents.get? uri = some d ∧ .indexed ≤ d.state ∧ d.exports = ds := by
  intro w
  let progressed := ((Workbench.Site.opened l o).run actions).workspace
  have sound : progressed.Sound l o := (Workbench.Site.sound_run l o actions).workspace
  have kept : ∀ uri d, w.documents.get? uri = some d ↔
      ∃ before, progressed.documents.get? uri = some before ∧ before.recorded = d := by
    intro uri d
    have same : w.documents = progressed.recorded.documents := by
      unfold w
      rw [opened_run_recorded]
      rfl
    rw [same, Workspace.get?_documents_recorded, Option.map_eq_some_iff]
  constructor
  · intro uri d found
    obtain ⟨before, there, rfl⟩ := (kept uri d).1 found
    exact hasProducts_recorded sound there
  · intro uri ds
    have same : w.index = progressed.index := by
      unfold w
      rw [opened_run_recorded]
      rfl
    rw [same, sound.get?_index_eq_some_iff]
    constructor
    · rintro ⟨before, found, state, rfl⟩
      exact ⟨before.recorded, (kept uri _).2 ⟨before, found, rfl⟩, state, rfl⟩
    · rintro ⟨d, found, state, rfl⟩
      obtain ⟨before, there, rfl⟩ := (kept uri d).1 found
      exact ⟨before, there, state, rfl⟩

end Recorded

end Workbench
