import Workbench.Proofs.Workspace.Documents

/-!
**Reports that hold.**

Nobody looks at a document when a kept report is handed out again. That it still tells what the
document has rests on two facts about the steps of a workspace: an invalidation names every document
that it changes, and the reports of these are forgotten; and a build leaves a validated document alone.

The reports that were made are numbered in the order in which they were made. So a number stands for
one report of one document, and whoever names it and is told that nothing has changed has seen what the
document has now.
-/

namespace Workbench

namespace Workspace

variable {w : Workspace}

theorem Moves.of_validated {options : ValidationOptions} {uri : DocumentUri} {text : String}
    {phase : Phase} {p p' : Progress} {visit : Visit} (h : w.Moves options uri text phase p p' visit)
    (validated : p.state = .validated) : p' = p := by
  cases h with
  | stopped => rfl
  | _ => cases validated

/-- A build leaves a validated document alone. -/
theorem get?_of_visit {options : ValidationOptions} {phase : Phase} {uri : DocumentUri}
    {token : Cancellation} {w' : Workspace} {visit : Visit}
    (visited : w.visit options phase uri token = (w', visit)) {k : DocumentUri} {d : Document}
    (found : w.documents.get? k = some d) (validated : d.state = .validated) :
    w'.documents.get? k = some d := by
  rcases w.visit_cases visited with ⟨rfl, -⟩ | ⟨e, progress, stored, moves, rfl⟩
  · exact found
  · rw [UriMap.get?_insert]
    split
    · next same =>
      subst same
      rw [found] at stored
      cases stored
      rw [moves.of_validated validated]
    · exact found

theorem get?_of_step {b : Build} {token : Cancellation} {w' : Workspace} {outcome : BuildStep}
    (stepped : b.step w token = (w', outcome)) {k : DocumentUri} {d : Document}
    (found : w.documents.get? k = some d) (validated : d.state = .validated) :
    w'.documents.get? k = some d := by
  rcases Build.step_cases stepped with
    ⟨rfl, -⟩ | ⟨_, _, -, rfl, -⟩ | ⟨phase, uri, agenda, visit, -, -, visited, -⟩
  · exact found
  · exact found
  · exact get?_of_visit visited found validated

end Workspace

theorem Report.eq_of_id {r r' : Report} (h : r.id = r'.id) : r.number = r'.number := by
  have numbers := congrArg (fun id : String => Nat.ofDigitChars 10 id.toList 0) h
  simpa [Report.id] using numbers

namespace Site

/-- The report that was made for an answer, with the address for which it was made. -/
def madeFor? (a : Answered) : Option (DocumentUri × Report) :=
  match a.fresh, a.answer with
  | true, .full report => some (a.uri, report)
  | _, _ => none

/-- The reports made so far, the oldest first, each with the address for which it was made. -/
def minted (s : Site) : List (DocumentUri × Report) := s.answered.filterMap madeFor?

theorem minted_answer (s : Site) (a : Answered) :
    (s.answer a).minted = s.minted ++ (madeFor? a).toList := by
  unfold minted answer
  rw [List.filterMap_append]
  rfl

/-- What holds of the reports of a site at all times. -/
structure Reported (s : Site) : Prop where
  current : ∀ uri report, s.reports.cached.get? uri = some report →
    ∃ d, s.workspace.documents.get? uri = some d ∧ d.state = .validated ∧
      report.items = d.editorDiagnostics uri
  kept : ∀ uri report, s.reports.cached.get? uri = some report → (uri, report) ∈ s.minted
  full : ∀ a ∈ s.answered, ∀ report, a.answer = .full report → (a.uri, report) ∈ s.minted
  increasing : s.minted.Pairwise fun x y => x.2.number < y.2.number
  bounded : ∀ x ∈ s.minted, x.2.number ≤ s.reports.made

namespace Reported

variable {s : Site}

/-- An invalidation that names every document it changes keeps the reports true. -/
theorem takeOver (h : s.Reported) {w : Workspace} {what : Invalidation}
    (names : ∀ uri, uri ∉ what.touched → w.documents.get? uri = s.workspace.documents.get? uri) :
    (s.takeOver w what).Reported := by
  have left : ∀ uri report, (s.takeOver w what).reports.cached.get? uri = some report →
      uri ∉ what.touched ∧ s.reports.cached.get? uri = some report := by
    intro uri report cached
    rw [Site.takeOver, Reports.evict, UriMap.get?_eraseAll] at cached
    split at cached
    · cases cached
    · next outside => exact ⟨outside, cached⟩
  refine ⟨fun uri report cached => ?_, fun uri report cached => ?_, h.full, h.increasing, h.bounded⟩
  · obtain ⟨outside, cached⟩ := left uri report cached
    obtain ⟨d, found, rest⟩ := h.current uri report cached
    exact ⟨d, (names uri outside).trans found, rest⟩
  · exact h.kept uri report (left uri report cached).2

/-- Validated documents that stay keep the reports true. -/
theorem build (h : s.Reported) {w : Workspace} {running : Option Build}
    (stay : ∀ uri d, s.workspace.documents.get? uri = some d → d.state = .validated →
      w.documents.get? uri = some d) :
    Reported { s with workspace := w, running } := by
  refine ⟨fun uri report cached => ?_, h.kept, h.full, h.increasing, h.bounded⟩
  obtain ⟨d, found, validated, items⟩ := h.current uri report cached
  exact ⟨d, stay uri d found validated, validated, items⟩

/-- A kept report may be handed out again. -/
theorem reuse (h : s.Reported) {uri : DocumentUri} {report : Report}
    (cached : s.reports.cached.get? uri = some report) (previous : Option String) :
    (s.answer { uri, fresh := false, answer := .of previous report }).Reported := by
  have same : (s.answer { uri, fresh := false, answer := .of previous report }).minted = s.minted := by
    rw [minted_answer]
    exact List.append_nil _
  refine ⟨h.current, ?_, fun a mem r full => ?_, ?_, ?_⟩
  · rw [same]
    exact h.kept
  · rw [same]
    rcases List.mem_append.1 mem with old | new
    · exact h.full a old r full
    · rw [List.mem_singleton.1 new] at full ⊢
      dsimp only [ReportAnswer.of] at full
      split at full
      · cases full
      · cases full
        exact h.kept uri _ cached
  · rw [same]
    exact h.increasing
  · rw [same]
    exact h.bounded

/-- A report of a validated document may be made, and takes the next number. -/
theorem report (h : s.Reported) {uri : DocumentUri} {d : Document}
    (found : s.workspace.documents.get? uri = some d) (validated : d.state = .validated) :
    let (reports, report) := s.reports.make uri (d.editorDiagnostics uri)
    ({ s with reports }.answer { uri, fresh := true, answer := .full report }).Reported := by
  dsimp only [Reports.make]
  generalize made : (⟨s.reports.made + 1, d.editorDiagnostics uri⟩ : Report) = report
  have items : report.items = d.editorDiagnostics uri := by rw [← made]
  have number : report.number = s.reports.made + 1 := by rw [← made]
  have same : ∀ reports, ({ s with reports }.answer
      { uri, fresh := true, answer := .full report }).minted = s.minted ++ [(uri, report)] := by
    intro reports
    rw [minted_answer]
    rfl
  refine ⟨fun k r cached => ?_, fun k r cached => ?_, fun a mem r full => ?_, ?_, ?_⟩
  · dsimp only [Site.answer] at cached ⊢
    rw [UriMap.get?_insert] at cached
    split at cached
    · next eq =>
      subst eq
      cases cached
      exact ⟨d, found, validated, items⟩
    · exact h.current k r cached
  · rw [same]
    dsimp only [Site.answer] at cached
    rw [UriMap.get?_insert] at cached
    split at cached
    · next eq =>
      subst eq
      cases cached
      exact List.mem_append_right _ List.mem_cons_self
    · exact List.mem_append_left _ (h.kept k r cached)
  · rw [same]
    rcases List.mem_append.1 mem with old | new
    · exact List.mem_append_left _ (h.full a old r full)
    · rw [List.mem_singleton.1 new] at full ⊢
      cases full
      exact List.mem_append_right _ List.mem_cons_self
  · rw [same, List.pairwise_append]
    refine ⟨h.increasing, List.pairwise_singleton _ _, fun x mem y last => ?_⟩
    rw [List.mem_singleton.1 last, number]
    exact Nat.lt_succ_of_le (h.bounded x mem)
  · rw [same]
    intro x mem
    show x.2.number ≤ s.reports.made + 1
    rcases List.mem_append.1 mem with old | last
    · exact Nat.le_succ_of_le (h.bounded x old)
    · exact Nat.le_of_eq (by rw [List.mem_singleton.1 last, number])

theorem act (h : s.Reported) (action : Action) : (s.act action).Reported := by
  cases action with
  | apply uri change =>
    rw [Site.act]
    split
    · next w what applied =>
      obtain ⟨d, v, -, rfl, rfl, rfl⟩ := s.workspace.apply_cases applied
      refine h.takeOver fun k outside => ?_
      rw [Workspace.get?_of_not_mem_touched _ _ _ k outside]
      dsimp only
      rw [UriMap.get?_insert, if_neg]
      -- the document whose text changed is one of those named
      intro same
      rw [same, Workspace.touched_invalidate] at outside
      simp at outside
    · exact h
  | begin changed deleted =>
    rw [Site.act]
    split
    · next w what begun =>
      obtain ⟨v, rfl, rfl, rfl⟩ := s.workspace.begin_cases changed deleted begun
      have taken := h.takeOver fun k outside => Workspace.get?_of_not_mem_touched
        { s.workspace with generation := s.workspace.generation + 1, fired := false }
        changed deleted k outside
      exact ⟨taken.current, taken.kept, taken.full, taken.increasing, taken.bounded⟩
    · exact h
  | start generation =>
    rw [Site.act]
    split
    · exact ⟨h.current, h.kept, h.full, h.increasing, h.bounded⟩
    · exact h
  | step token =>
    rw [Site.act]
    split
    · exact h
    · next b running =>
      exact h.build fun k d found validated => Workspace.get?_of_step rfl found validated
  | abandon => exact h.build fun _ _ found _ => found
  | shutdown => exact h.build fun _ _ found _ => found
  | reuse uri previous =>
    rw [Site.act]
    split
    · next report cached => exact h.reuse cached previous
    · exact h
  | report uri =>
    rw [Site.act]
    split
    · next d found =>
      split
      · next validated =>
        have validated : d.state = .validated := by
          cases state : d.state with
          | validated => rfl
          | _ => exact absurd (state ▸ validated) (Nat.not_le.2 (Nat.le_of_ble_eq_true rfl))
        exact h.report found validated
      · exact h
    · exact h

/-- A number stands for one report of one document. -/
theorem minted_unique (h : s.Reported) {x y : DocumentUri × Report} (memx : x ∈ s.minted)
    (memy : y ∈ s.minted) (same : x.2.id = y.2.id) : x = y := by
  have numbers := Report.eq_of_id same
  obtain ⟨i, hi, rfl⟩ := List.mem_iff_getElem.1 memx
  obtain ⟨j, hj, rfl⟩ := List.mem_iff_getElem.1 memy
  have increasing := List.pairwise_iff_getElem.1 h.increasing
  rcases Nat.lt_trichotomy i j with lt | eq | gt
  · have := increasing i j hi hj lt
    omega
  · simp only [eq]
  · have := increasing j i hj hi gt
    omega

end Reported

theorem reported_run (l : Language) (o : ValidationOptions) (actions : List Action) :
    ((opened l o).run actions).Reported := by
  refine run_induction ⟨nofun, nofun, nofun, .nil, nofun⟩ ?_ actions
  intro s action h
  exact h.act action

/-- A request that is told that nothing has changed has named the report that is kept. -/
theorem cached_of_unchanged {s : Site} {uri : DocumentUri} {previous : Option String} {id : String}
    (h : (s.act (.reuse uri previous)).answered =
      s.answered ++ [{ uri, fresh := false, answer := .unchanged id }]) :
    previous = some id ∧ ∃ report, s.reports.cached.get? uri = some report ∧ report.id = id := by
  rw [act] at h
  split at h
  · next report cached =>
    have eq := List.append_cancel_left h
    simp only [ReportAnswer.of, List.cons.injEq, Answered.mk.injEq, and_true, true_and] at eq
    split at eq
    · next named =>
      cases eq
      exact ⟨named, report, cached, rfl⟩
    · cases eq
  · exact absurd (congrArg List.length h) (by simp)

/-- In every run, a report that is kept is that of a validated document and tells what the document has
now; no two reports made have the same number, and numbers increase; and where a request is told that
nothing has changed since a report, that report was made for the same document, no other was ever
handed out under its number, and it tells what the document has now. -/
theorem reports_run (l : Language) (o : ValidationOptions) (actions : List Action) :
    let s := (opened l o).run actions
    (∀ uri report, s.reports.cached.get? uri = some report →
      ∃ d, s.workspace.documents.get? uri = some d ∧ d.state = .validated ∧
        report.items = d.editorDiagnostics uri) ∧
    s.minted.Pairwise (fun x y => x.2.number < y.2.number ∧ x.2.id ≠ y.2.id) ∧
    ∀ uri previous id,
      (s.act (.reuse uri previous)).answered =
        s.answered ++ [{ uri, fresh := false, answer := .unchanged id }] →
      previous = some id ∧ ∃ d report, s.workspace.documents.get? uri = some d ∧
        d.state = .validated ∧ (uri, report) ∈ s.minted ∧ report.id = id ∧
        report.items = d.editorDiagnostics uri ∧
        ∀ a ∈ s.answered, ∀ r, a.answer = .full r → r.id = id → a.uri = uri ∧ r = report := by
  intro s
  have h : s.Reported := reported_run l o actions
  refine ⟨h.current, h.increasing.imp ?_, fun uri previous id unchanged => ?_⟩
  · intro x y lt
    exact ⟨lt, fun same => Nat.ne_of_lt lt (Report.eq_of_id same)⟩
  · obtain ⟨named, report, cached, rfl⟩ := cached_of_unchanged unchanged
    obtain ⟨d, found, validated, items⟩ := h.current uri report cached
    refine ⟨named, d, report, found, validated, h.kept uri report cached, rfl, items, ?_⟩
    intro a mem r full same
    have eq := h.minted_unique (h.full a mem r full) (h.kept uri report cached) same
    exact ⟨congrArg Prod.fst eq, congrArg Prod.snd eq⟩

theorem reports_extension :
    ∃ d report, ((opened plain {}).run (extension 16 ++ [.report "c"])).workspace.documents.get? "c" =
        some d ∧
      ("c", report) ∈ ((opened plain {}).run (extension 16 ++ [.report "c"])).minted ∧
      report.id = "1" ∧ report.items = d.editorDiagnostics "c" := by
  have unchanged :
      (((opened plain {}).run (extension 16 ++ [.report "c"])).act (.reuse "c" (some "1"))).answered =
        ((opened plain {}).run (extension 16 ++ [.report "c"])).answered ++
          [{ uri := "c", fresh := false, answer := .unchanged "1" }] := by decide +kernel
  obtain ⟨-, -, truthful⟩ := reports_run plain {} (extension 16 ++ [.report "c"])
  obtain ⟨-, d, report, found, -, minted, id, items, -⟩ := truthful "c" (some "1") "1" unchanged
  exact ⟨d, report, found, minted, id, items⟩

end Site

end Workbench
