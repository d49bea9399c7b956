import Workbench.Proofs.Linking
import Workbench.Proofs.Validation
import Workbench.Workspace

/-!
**What a step does to a workspace.**

A workspace changes in two ways only. An invalidation resets some documents, removes others, unlinks
those that may now resolve differently, and takes what the first two kinds export out of the index. A
visit takes one document through one phase. Both are described here once, document by document;
everything that is kept along a run is derived from these descriptions.
-/

namespace Workbench

open Cancellable Linking

/-! ### References of a document -/

namespace Document

theorem references_of_result {d : Document} {result : ParseResult}
    (h : d.progress.result? = some result) : d.references = result.ast.placed.map (·.2) := by
  unfold references
  rw [h]

/-- Where no reference lacks a target, a resolution is one to a target. -/
theorem resolved_of_hasUnresolved {d : Document} (h : d.hasUnresolved = false) {r : Reference}
    (mem : r ∈ d.references) {x : Resolution} (resolved : r.resolution = some x) :
    ∃ target, x = .resolved target := by
  unfold hasUnresolved at h
  have := List.any_eq_false.1 h r mem
  cases x with
  | resolved target => exact ⟨target, rfl⟩
  | unresolved message =>
    simp [Reference.isLinked, Reference.isResolved, Reference.target?, Resolution.target?,
      resolved] at this

theorem hasUnresolved_eq_false {d : Document} {touched : List DocumentUri}
    (linked : DocumentState.scoped < d.state) (h : d.isAffectedBy touched = false) :
    d.hasUnresolved = false := by
  unfold isAffectedBy at h
  simp only [linked, decide_true, Bool.true_and, Bool.or_eq_false_iff] at h
  exact h.2

/-- A document that has been linked is unaffected by a change only if each of its references has a
target, outside of what has changed. -/
theorem isAffectedBy_eq_false {d : Document} {touched : List DocumentUri}
    (linked : DocumentState.scoped < d.state) (h : d.isAffectedBy touched = false)
    {r : Reference} (mem : r ∈ d.references) {x : Resolution} (resolved : r.resolution = some x) :
    ∃ target, x = .resolved target ∧ target.uri ∉ touched := by
  obtain ⟨target, rfl⟩ := d.resolved_of_hasUnresolved (hasUnresolved_eq_false linked h) mem resolved
  refine ⟨target, rfl, fun within => ?_⟩
  unfold isAffectedBy refersInto at h
  simp only [linked, decide_true, Bool.true_and, Bool.or_eq_false_iff, List.any_eq_false] at h
  have := h.1 r mem
  simp [Reference.target?, Resolution.target?, resolved, within] at this

end Document

namespace Workspace

/-! ### Invalidation -/

/-- What an invalidation leaves of a document. -/
def leftOf (changed deleted : List DocumentUri) (uri : DocumentUri) (d : Document) : Option Document :=
  if uri ∈ deleted then none
  else if uri ∈ changed then some d.reset
  else if d.isAffectedBy (changed ++ deleted) then some d.unlink
  else some d

theorem mem_affected_iff {documents : UriMap Document} {touched : List DocumentUri}
    (some_touched : touched ≠ []) (uri : DocumentUri) :
    uri ∈ affected documents touched ↔
      uri ∉ touched ∧ ∃ d, documents.get? uri = some d ∧ d.isAffectedBy touched := by
  unfold affected
  rw [if_neg (by simpa using some_touched)]
  simp only [List.mem_map, List.mem_filter, Prod.exists, UriMap.mem_entries_iff, Bool.and_eq_true,
    Bool.not_eq_true', List.contains_eq_mem, decide_eq_false_iff_not]
  constructor
  · rintro ⟨_, d, ⟨found, outside, hit⟩, rfl⟩
    exact ⟨outside, d, found, hit⟩
  · rintro ⟨outside, d, found, hit⟩
    exact ⟨uri, d, ⟨found, outside, hit⟩, rfl⟩

variable (w : Workspace) (changed deleted : List DocumentUri)

/-- The documents when some were reset and some removed, before others are unlinked. -/
def pruned : UriMap Document :=
  (w.documents.map fun uri d => if changed.contains uri then d.reset else d).eraseAll deleted

theorem get?_pruned (uri : DocumentUri) :
    (w.pruned changed deleted).get? uri =
      if uri ∈ deleted then none
      else (w.documents.get? uri).map fun d => if uri ∈ changed then d.reset else d := by
  rw [pruned, UriMap.get?_eraseAll, UriMap.get?_map]
  simp only [List.contains_eq_mem, decide_eq_true_eq]

theorem documents_invalidate :
    (w.invalidate changed deleted).1.documents =
      (w.pruned changed deleted).map fun uri d =>
        if (affected (w.pruned changed deleted) (changed ++ deleted)).contains uri then d.unlink
        else d := rfl

theorem touched_invalidate :
    (w.invalidate changed deleted).2.touched =
      changed ++ affected (w.pruned changed deleted) (changed ++ deleted) ++ deleted := rfl

theorem get?_documents_invalidate (some_touched : changed ++ deleted ≠ []) (uri : DocumentUri) :
    (w.invalidate changed deleted).1.documents.get? uri =
      (w.documents.get? uri).bind (leftOf changed deleted uri) := by
  rw [documents_invalidate, UriMap.get?_map]
  simp only [List.contains_eq_mem, decide_eq_true_eq, mem_affected_iff some_touched, get?_pruned]
  cases found : w.documents.get? uri with
  | none => simp
  | some d =>
    unfold leftOf
    by_cases gone : uri ∈ deleted
    · simp [gone]
    · by_cases reset : uri ∈ changed
      · simp [gone, reset]
      · by_cases hit : d.isAffectedBy (changed ++ deleted)
        · simp [gone, reset, hit]
        · simp [gone, reset, hit]

theorem get?_index_invalidate (uri : DocumentUri) :
    (w.invalidate changed deleted).1.index.get? uri =
      if uri ∈ changed ++ deleted then none else w.index.get? uri :=
  UriMap.get?_eraseAll _ _ _

/-- Where nothing changed, nothing is invalidated. -/
theorem invalidate_nil : (w.invalidate [] []).1 = w := by
  have same : (w.invalidate [] []).1.documents = w.documents := by
    apply UriMap.ext_get?
    intro uri
    simp [invalidate, affected, UriMap.get?_map, UriMap.eraseAll]
  cases w
  simp only [invalidate, UriMap.eraseAll] at same ⊢
  simpa using same

/-- A document that an invalidation does not name is as it was. -/
theorem get?_of_not_mem_touched (uri : DocumentUri)
    (h : uri ∉ (w.invalidate changed deleted).2.touched) :
    (w.invalidate changed deleted).1.documents.get? uri = w.documents.get? uri := by
  by_cases some_touched : changed ++ deleted = []
  · obtain ⟨rfl, rfl⟩ := List.append_eq_nil_iff.1 some_touched
    rw [invalidate_nil]
  · simp only [touched_invalidate, List.mem_append, not_or, mem_affected_iff some_touched, not_and,
      not_exists, get?_pruned] at h
    obtain ⟨⟨notChanged, notAffected⟩, notDeleted⟩ := h
    rw [get?_documents_invalidate w changed deleted some_touched]
    cases found : w.documents.get? uri with
    | none => rfl
    | some d =>
      have unhit : ¬ d.isAffectedBy (changed ++ deleted) :=
        notAffected ⟨notChanged, notDeleted⟩ d (by simp [notDeleted, notChanged, found])
      simp [leftOf, notDeleted, notChanged, unhit]

/-! ### Visits -/

/-- What a phase can make of the products of a document. -/
inductive Moves (w : Workspace) (options : ValidationOptions) (uri : DocumentUri) (text : String) :
    Phase → Progress → Progress → Visit → Prop where
  | parse : Moves w options uri text .parse .changed (.parsed (w.language.parse text)) .advanced
  | index {result : ParseResult} {exports : List Description}
      (yields : Yields (w.language.exports result.ast uri) exports) :
      Moves w options uri text .index (.parsed result) (.indexed result exports) .advanced
  | scope {result : ParseResult} {exports : List Description} {locals : LocalScopes}
      (yields : Yields (w.language.localScopes result.ast uri) locals) :
      Moves w options uri text .scope (.indexed result exports) (.scoped result exports locals)
        .advanced
  | link {result : ParseResult} {exports : List Description} {locals : LocalScopes} :
      Moves w options uri text .link (.scoped result exports locals)
        (.linked
          { result with ast := resolveAll { locals, exported := w.exported } result.ast.unlink }
          exports locals) .advanced
  | linkStopped {result : ParseResult} {exports : List Description} {locals : LocalScopes} {a : Ast}
      (same : a.unlink = result.ast.unlink) :
      Moves w options uri text .link (.scoped result exports locals)
        (.scoped { result with ast := a } exports locals) .cancelled
  | validate {result : ParseResult} {exports : List Description} {locals : LocalScopes}
      {diagnostics : List Diagnostic}
      (yields : Yields (w.language.validate result uri options) diagnostics) :
      Moves w options uri text .validate (.linked result exports locals)
        (.validated result exports locals diagnostics) .advanced
  | stopped {phase : Phase} {progress : Progress} :
      Moves w options uri text phase progress progress .cancelled

theorem Moves.ne_passed {w : Workspace} {options : ValidationOptions} {uri : DocumentUri}
    {text : String} {phase : Phase} {progress progress' : Progress} {visit : Visit}
    (h : Moves w options uri text phase progress progress' visit) : visit ≠ .passed := by
  cases h <;> nofun

theorem Moves.states {w : Workspace} {options : ValidationOptions} {uri : DocumentUri}
    {text : String} {phase : Phase} {progress progress' : Progress}
    (h : Moves w options uri text phase progress progress' .advanced) :
    progress.state = phase.source ∧ progress'.state = phase.target := by
  cases h <;> exact ⟨rfl, rfl⟩

/-- A phase that did not pass over a document has made one of these moves. -/
theorem moves_of_advance {options : ValidationOptions} {uri : DocumentUri} {text : String}
    {phase : Phase} {progress progress' : Progress} {token : Cancellation} {visit : Visit}
    (h : w.advance options uri text phase progress token = (progress', visit))
    (notPassed : visit ≠ .passed) : Moves w options uri text phase progress progress' visit := by
  unfold advance at h
  split at h
  · cases h
    exact .parse
  · next result =>
    split at h
    · next exports rest ok =>
      cases h
      exact .index ((Scope.Scoping.steady_exports _ _ _).yields ok)
    · cases h
      exact .stopped
  · next result exports =>
    split at h
    · next locals rest ok =>
      cases h
      exact .scope ((Scope.Scoping.steady_localScopes _ _ _).yields ok)
    · cases h
      exact .stopped
  · next result exports locals =>
    dsimp only at h
    split at h
    · next v ok =>
      cases h
      rw [link_ast_of_ok result.ast.unlinked_unlink ok]
      exact .link
    · cases h
      exact .linkStopped ((unlink_link _ _ _).trans result.ast.unlink_unlink)
  · next result exports locals =>
    split at h
    · next diagnostics rest ok =>
      cases h
      exact .validate ((Validation.steady_validate _ _ _ _).yields ok)
    · cases h
      exact .stopped
  · cases h
    exact absurd rfl notPassed

/-- A document that is ready for a phase is not passed over. -/
theorem advance_ne_passed {options : ValidationOptions} {uri : DocumentUri} {text : String}
    {phase : Phase} {progress : Progress} {token : Cancellation}
    (ready : progress.state = phase.source) :
    (w.advance options uri text phase progress token).2 ≠ .passed := by
  cases phase <;> cases progress <;> cases ready
  case parse.changed => simp [advance]
  case link.scoped result exports locals =>
    unfold advance
    dsimp only
    split <;> simp
  all_goals
    simp only [advance]
    split <;> simp

/-- A visit leaves the workspace alone, or takes one document one phase on. Only a document that is
indexed gets an entry in the index. -/
theorem visit_cases {options : ValidationOptions} {phase : Phase} {uri : DocumentUri}
    {token : Cancellation} {w' : Workspace} {visit : Visit}
    (h : w.visit options phase uri token = (w', visit)) :
    (w' = w ∧ visit = .passed ∧ ∀ d, w.documents.get? uri = some d → d.state ≠ phase.source) ∨
      ∃ d progress, w.documents.get? uri = some d ∧
        Moves w options uri d.text phase d.progress progress visit ∧
        w' = { w with
          documents := w.documents.insert uri { d with progress }
          index :=
            if phase = .index ∧ visit = .advanced then w.index.insert uri progress.exports
            else w.index } := by
  unfold Workspace.visit at h
  split at h
  · next absent =>
    cases h
    exact .inl ⟨rfl, rfl, fun d found => by rw [absent] at found; cases found⟩
  · next d found =>
    split at h
    · next progress passed =>
      cases h
      refine .inl ⟨rfl, rfl, fun e same ready => ?_⟩
      rw [found] at same
      cases same
      exact w.advance_ne_passed ready (congrArg Prod.snd passed)
    · next progress visit' notPassed advanced =>
      have moves := moves_of_advance w advanced notPassed
      dsimp only at h
      split at h
      · cases h
        exact .inr ⟨d, progress, found, moves, by simp⟩
      · next other =>
        cases h
        refine .inr ⟨d, progress, found, moves, ?_⟩
        rw [if_neg (fun both => other both.1 both.2)]

/-! ### Changes and builds -/

/-- A change puts a document without products in place, and invalidates it. -/
theorem apply_cases {uri : DocumentUri} {change : Change} {w' : Workspace} {what : Invalidation}
    (h : w.apply uri change = .ok (w', what)) :
    ∃ (d : Document) (v : Workspace), d.progress = .changed ∧
      v = { w with fired := true, documents := w.documents.insert uri d } ∧
      w' = (v.invalidate [uri] []).1 ∧ what = (v.invalidate [uri] []).2 := by
  unfold Workspace.apply at h
  split at h
  · cases h
  · next d changed =>
    have fresh : d.progress = .changed := by
      cases change with
      | set version text =>
        cases changed
        rfl
      | edit version edits =>
        obtain ⟨_, -, rfl⟩ := Option.map_eq_some_iff.1 changed
        rfl
    have eq := (Except.ok.inj h).symm
    exact ⟨d, _, fresh, rfl, congrArg Prod.fst eq, congrArg Prod.snd eq⟩

/-- A build that begins makes all earlier ones outdated. -/
theorem begin_cases {w' : Workspace} {what : Invalidation}
    (h : w.begin changed deleted = .ok (w', what)) :
    ∃ v, v = { w with generation := w.generation + 1, fired := false } ∧
      w' = (v.invalidate changed deleted).1 ∧ what = (v.invalidate changed deleted).2 := by
  unfold Workspace.begin at h
  split at h
  · cases h
  · have eq := (Except.ok.inj h).symm
    exact ⟨_, rfl, congrArg Prod.fst eq, congrArg Prod.snd eq⟩

end Workspace

/-- A task of a build that leaves the workspace alone, or a visit under a token that has not fired. -/
theorem Build.step_cases {b : Build} {w w' : Workspace} {token : Cancellation} {outcome : BuildStep}
    (h : b.step w token = (w', outcome)) :
    (w' = w ∧ ((outcome = .complete ∧ b.agenda = []) ∨
        outcome = .cancelled ∧ w.hasFired b.generation = true)) ∨
      (∃ phase agenda, b.agenda = .finish phase :: agenda ∧ w' = w ∧
        outcome = .ended phase b.advanced { b with agenda, advanced := [] }) ∨
      ∃ phase uri agenda visit, b.agenda = .visit phase uri :: agenda ∧
        w.hasFired b.generation = false ∧ w.visit b.options phase uri token = (w', visit) ∧
        ((visit = .cancelled ∧ outcome = .cancelled) ∨
          visit ≠ .cancelled ∧ ∃ advanced, outcome = .continues { b with agenda, advanced }) := by
  unfold Build.step at h
  split at h
  · next done =>
    cases h
    exact .inl ⟨rfl, .inl ⟨rfl, done⟩⟩
  · next phase agenda eq =>
    cases h
    exact .inr (.inl ⟨phase, agenda, eq, rfl, rfl⟩)
  · next phase uri agenda eq =>
    split at h
    · next fired =>
      cases h
      exact .inl ⟨rfl, .inr ⟨rfl, fired⟩⟩
    · next alive =>
      refine .inr (.inr ⟨phase, uri, agenda, ?_⟩)
      split at h
      · next visited =>
        cases h
        exact ⟨.advanced, eq, by simpa using alive, visited, .inr ⟨by decide, _, rfl⟩⟩
      · next visited =>
        cases h
        exact ⟨.passed, eq, by simpa using alive, visited, .inr ⟨by decide, _, rfl⟩⟩
      · next visited =>
        cases h
        exact ⟨.cancelled, eq, by simpa using alive, visited, .inl ⟨rfl, rfl⟩⟩

end Workbench
