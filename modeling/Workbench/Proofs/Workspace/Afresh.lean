import Workbench.Proofs.Workspace.Completion
import Workbench.Proofs.Workspace.Documents

/-!
**Builds from scratch.**

When a build has come to its end and nothing has stopped it, every document is validated. What its text
alone decides (the tree, the exports, the local scopes) is then the same after every history, and so is
the index. The resolutions are what they would be in a workspace into which the texts were put at once,
but for one case: a reference was resolved to an exported description, and later a document of a smaller
address came to export one that fits as well. Such a reference is `Overtaken`. It is not looked at
again, since it has a target, and the target is in none of the documents that changed.
-/

namespace Workbench

open Cancellable Linking

/-! ### Two complete workspaces of the same texts -/

namespace Site

/-- The texts of the documents, by address. -/
def texts (s : Site) : List (DocumentUri × String) :=
  s.workspace.documents.entries.map fun e => (e.1, e.2.text)

theorem lookup_texts (s : Site) (uri : DocumentUri) :
    s.texts.lookup uri = (s.workspace.documents.get? uri).map (·.text) := by
  unfold texts UriMap.get?
  induction s.workspace.documents.entries with
  | nil => rfl
  | cons e rest ih =>
    rw [List.map_cons, List.lookup_cons, List.lookup_cons, ih]
    split <;> rfl

end Site

/-- Some reference of a document leads to an exported description, and a document of a smaller address
exports one that fits as well. -/
def Document.Overtaken (index : UriMap (List Description)) (d : Document) : Prop :=
  ∃ result, d.progress.result? = some result ∧ ∃ r ∈ d.references, ∃ target,
    r.resolution = some (.resolved target) ∧
      Linking.Overtaken index result.ast d.progress.locals r target

theorem Progress.le_of_validated {p : Progress} (h : p.state = .validated) (state : DocumentState) :
    state ≤ p.state := by
  rw [h]
  cases state <;> decide

/-- What a text decides. -/
theorem Progress.Faithful.agree {l : Language} {o : ValidationOptions} {uri : DocumentUri}
    {text : String} {p q : Progress} (hp : p.Faithful l o uri text) (hq : q.Faithful l o uri text)
    (sp : p.state = .validated) (sq : q.state = .validated) :
    p.result?.map ParseResult.unlink = q.result?.map ParseResult.unlink ∧
      p.exports = q.exports ∧ p.locals = q.locals := by
  obtain ⟨result, eqp⟩ := p.exists_result (p.le_of_validated sp _)
  obtain ⟨result', eqq⟩ := q.exists_result (q.le_of_validated sq _)
  have same : result.unlink = result'.unlink := (hp.parsed result eqp).trans (hq.parsed result' eqq).symm
  have trees : result.ast.unlink = result'.ast.unlink := congrArg ParseResult.ast same
  refine ⟨?_, ?_, ?_⟩
  · rw [eqp, eqq]
    exact congrArg some same
  · have yields := hp.exports result eqp (p.le_of_validated sp _)
    rw [exports_congr trees] at yields
    exact yields.unique (hq.exports result' eqq (q.le_of_validated sq _))
  · have yields := hp.locals result eqp (p.le_of_validated sp _)
    rw [localScopes_congr trees] at yields
    exact yields.unique (hq.locals result' eqq (q.le_of_validated sq _))

/-- A validated document in which no reference was overtaken is what linking it anew yields. -/
theorem Workspace.Sound.anew_iff {l : Language} {o : ValidationOptions} {w : Workspace}
    (h : w.Sound l o) {uri : DocumentUri} {d : Document} (found : w.documents.get? uri = some d)
    {result : ParseResult} (eq : d.progress.result? = some result) (state : .linked ≤ d.state) :
    result.ast =
        resolveAll { locals := d.progress.locals, exported := exportedIn w.index } result.ast.unlink ↔
      ¬ d.Overtaken w.index := by
  have settled := h.settled uri d found result eq state
  rw [settled.eq_resolveAll_iff h.addressed]
  constructor
  · rintro notOvertaken ⟨result', eq', r, mem, target, resolved, overtaken⟩
    rw [eq] at eq'
    cases eq'
    rw [d.references_of_result eq, Ast.mem_map_snd_placed_iff] at mem
    exact notOvertaken r mem.1 target resolved overtaken
  · intro notOvertaken r mem target resolved overtaken
    -- a reference that no node holds is not resolved
    have placed : r.place.isSome := by
      rw [Option.isSome_iff_ne_none]
      intro notPlaced
      rw [(settled r mem).2 notPlaced] at resolved
      cases resolved
    have listed : r ∈ d.references := by
      rw [d.references_of_result eq, Ast.mem_map_snd_placed_iff]
      exact ⟨mem, placed⟩
    exact notOvertaken ⟨result, eq, r, listed, target, resolved, overtaken⟩

/-- Validated documents of one text with the same tree are the same. -/
theorem Progress.Faithful.eq_iff {l : Language} {o : ValidationOptions} {uri : DocumentUri}
    {text : String} {p q : Progress} (hp : p.Faithful l o uri text) (hq : q.Faithful l o uri text)
    (sp : p.state = .validated) (sq : q.state = .validated) {r r' : ParseResult}
    (eqp : p.result? = some r) (eqq : q.result? = some r') : p = q ↔ r.ast = r'.ast := by
  constructor
  · rintro rfl
    rw [eqp] at eqq
    cases eqq
    rfl
  · intro trees
    obtain ⟨results, exports, locals⟩ := hp.agree hq sp sq
    have same : r = r' := by
      rw [eqp, eqq] at results
      obtain ⟨ast, lexErrors, parseErrors, incidents⟩ := r
      obtain ⟨ast', lexErrors', parseErrors', incidents'⟩ := r'
      simp only [Option.map_some, ParseResult.unlink, Option.some.injEq, ParseResult.mk.injEq]
        at results trees ⊢
      exact ⟨trees, results.2⟩
    subst same
    have diagnostics := (hp.diagnostics r eqp sp).unique (hq.diagnostics r eqq sq)
    cases p with
    | validated =>
      cases q with
      | validated =>
        cases eqp
        cases eqq
        cases exports
        cases locals
        cases diagnostics
        rfl
      | _ => cases sq
    | _ => cases sp

namespace Site

variable {l : Language} {o : ValidationOptions} {s t : Site}

/-- The documents of complete sites with the same texts, in pairs. -/
theorem Sound.pair (hs : s.Sound l o) (ht : t.Sound l o) (cs : s.complete = true)
    (ct : t.complete = true) (same : s.texts = t.texts) {uri : DocumentUri} {d : Document}
    (found : s.workspace.documents.get? uri = some d) :
    ∃ e, t.workspace.documents.get? uri = some e ∧ d.state = .validated ∧ e.state = .validated ∧
      d.progress.Faithful l o uri d.text ∧ e.progress.Faithful l o uri d.text := by
  have texts := congrArg (List.lookup uri) same
  rw [lookup_texts, lookup_texts, found] at texts
  obtain ⟨e, stored, eq⟩ := Option.map_eq_some_iff.1 texts.symm
  refine ⟨e, stored, hs.paced.validated cs found, ht.paced.validated ct stored,
    hs.workspace.faithful uri d found, ?_⟩
  have eq : e.text = d.text := eq
  rw [← eq]
  exact ht.workspace.faithful uri e stored

/-- What is indexed in the end depends on the texts alone. -/
theorem Sound.index_eq (hs : s.Sound l o) (ht : t.Sound l o) (cs : s.complete = true)
    (ct : t.complete = true) (same : s.texts = t.texts) :
    s.workspace.index = t.workspace.index := by
  apply UriMap.ext_get?
  intro uri
  rw [hs.workspace.index, ht.workspace.index]
  cases found : s.workspace.documents.get? uri with
  | none =>
    have texts := congrArg (List.lookup uri) same
    rw [lookup_texts, lookup_texts, found] at texts
    rw [Option.map_eq_none_iff.1 texts.symm]
  | some d =>
    obtain ⟨e, stored, validated, validated', faithful, faithful'⟩ :=
      hs.pair ht cs ct same found
    have indexed : ∀ {d : Document}, d.state = .validated → d.indexed? = some d.progress.exports := by
      intro d validated
      rw [Document.indexed?, validated]
      rfl
    rw [stored, Option.bind_some, Option.bind_some, indexed validated, indexed validated',
      (faithful.agree faithful' validated validated').2.1]

/-- The documents of complete sites with the same texts are the same where no reference was overtaken at
either. -/
theorem Sound.progress_eq_iff (hs : s.Sound l o) (ht : t.Sound l o) (cs : s.complete = true)
    (ct : t.complete = true) (same : s.texts = t.texts) {uri : DocumentUri} {d e : Document}
    (found : s.workspace.documents.get? uri = some d)
    (stored : t.workspace.documents.get? uri = some e) (current : ¬ e.Overtaken t.workspace.index) :
    d.progress = e.progress ↔ ¬ d.Overtaken s.workspace.index := by
  obtain ⟨e', stored', validated, validated', faithful, faithful'⟩ := hs.pair ht cs ct same found
  rw [stored] at stored'
  cases stored'
  obtain ⟨result, eqd⟩ := d.progress.exists_result (Progress.le_of_validated validated _)
  obtain ⟨result', eqe⟩ := e.progress.exists_result (Progress.le_of_validated validated' _)
  obtain ⟨results, -, locals⟩ := faithful.agree faithful' validated validated'
  have trees : result.ast.unlink = result'.ast.unlink := by
    rw [eqd, eqe] at results
    exact congrArg ParseResult.ast (Option.some.inj results)
  have anew := (ht.workspace.anew_iff stored eqe (Progress.le_of_validated validated' _)).2 current
  rw [faithful.eq_iff faithful' validated validated' eqd eqe,
    ← hs.workspace.anew_iff found eqd (Progress.le_of_validated validated _), anew, trees, locals,
    hs.index_eq ht cs ct same]

end Site

/-! ### One build of everything -/

/-- A tree that is linked is what linking it anew yields. -/
def Progress.Anew (index : UriMap (List Description)) (p : Progress) : Prop :=
  ∀ result, p.result? = some result → .linked ≤ p.state →
    result.ast = resolveAll { locals := p.locals, exported := exportedIn index } result.ast.unlink

namespace Workspace

/-- If some document is linked, then all are indexed, and the linked ones are what linking them anew
yields. -/
def UpToDate (w : Workspace) : Prop :=
  ∀ uri d, w.documents.get? uri = some d → .linked ≤ d.state →
    (∀ k e, w.documents.get? k = some e → .indexed ≤ e.state) ∧ d.progress.Anew w.index

/-- No document has been built at all. -/
def Unbuilt (w : Workspace) : Prop :=
  ∀ uri d, w.documents.get? uri = some d → d.progress = .changed

variable {w : Workspace}

theorem Unbuilt.upToDate (h : w.Unbuilt) : w.UpToDate := by
  intro uri d found state
  rw [Document.state, h uri d found] at state
  exact absurd state (by decide)

/-- An invalidation builds nothing. -/
theorem Unbuilt.invalidate (h : w.Unbuilt) (changed deleted : List DocumentUri) :
    (w.invalidate changed deleted).1.Unbuilt := by
  by_cases some_touched : changed ++ deleted = []
  · obtain ⟨rfl, rfl⟩ := List.append_eq_nil_iff.1 some_touched
    rw [invalidate_nil]
    exact h
  intro k e found
  rw [get?_documents_invalidate _ _ _ some_touched] at found
  obtain ⟨e₀, stored, left⟩ := Option.bind_eq_some_iff.1 found
  rcases leftOf_eq_some left with ⟨-, rfl⟩ | ⟨-, ⟨-, rfl⟩ | ⟨-, rfl⟩⟩
  · rfl
  · rw [Document.unlink, h k e₀ stored]
    rfl
  · exact h k e stored

/-- A change of a text leaves everything unbuilt. -/
theorem Unbuilt.apply (h : w.Unbuilt) {uri : DocumentUri} {change : Change} {w' : Workspace}
    {what : Invalidation} (applied : w.apply uri change = .ok (w', what)) : w'.Unbuilt := by
  obtain ⟨d, v, fresh, rfl, rfl, -⟩ := w.apply_cases applied
  refine Unbuilt.invalidate ?_ _ _
  intro k e stored
  dsimp only at stored
  rw [UriMap.get?_insert] at stored
  split at stored
  · cases stored
    exact fresh
  · exact h k e stored

theorem Moves.anew {options : ValidationOptions} {uri : DocumentUri} {text : String} {phase : Phase}
    {p p' : Progress} {visit : Visit} (h : w.Moves options uri text phase p p' visit)
    (before : p.Anew w.index) : p'.Anew w.index := by
  cases h with
  | parse => exact fun _ _ state => absurd state (by decide : ¬ DocumentState.linked ≤ .parsed)
  | index => exact fun _ _ state => absurd state (by decide : ¬ DocumentState.linked ≤ .indexed)
  | scope => exact fun _ _ state => absurd state (by decide : ¬ DocumentState.linked ≤ .scoped)
  | link =>
    intro result eq _
    cases eq
    rw [unlink_resolveAll, Ast.unlink_unlink]
    rfl
  | linkStopped => exact fun _ _ state => absurd state (by decide : ¬ DocumentState.linked ≤ .scoped)
  | validate => exact fun result eq _ => before result eq (by decide : DocumentState.linked ≤ .linked)
  | stopped => exact before

/-- A visit keeps linked documents up to date, if none is linked before all are indexed. -/
theorem UpToDate.visit (h : w.UpToDate) {o : ValidationOptions} {phase : Phase} {uri : DocumentUri}
    {token : Cancellation} {w' : Workspace} {visit : Visit}
    (visited : w.visit o phase uri token = (w', visit))
    (indexed : phase = .link → ∀ uri d, w.documents.get? uri = some d → .indexed ≤ d.state) :
    w'.UpToDate := by
  rcases w.visit_cases visited with ⟨rfl, -⟩ | ⟨d, progress, found, moves, rfl⟩
  · exact h
  intro k e stored state
  dsimp only at stored
  rw [UriMap.get?_insert] at stored
  -- a document that is linked now was linked before, or this was the visit that linked it
  have all : ∀ k e, w.documents.get? k = some e → .indexed ≤ e.state := by
    by_cases link : phase = .link
    · exact indexed link
    · split at stored
      · cases stored
        exact (h uri d found (moves.linked_before link state).1).1
      · exact (h k e stored state).1
  -- so no entry is added to the index
  have same : (if phase = .index ∧ visit = .advanced then w.index.insert uri progress.exports
      else w.index) = w.index := by
    refine if_neg ?_
    rintro ⟨rfl, rfl⟩
    have parsed : d.state = .parsed := moves.states.1
    have := all uri d found
    rw [parsed] at this
    exact absurd this (by decide)
  refine ⟨fun k' e' stored' => ?_, ?_⟩
  · dsimp only at stored'
    rw [UriMap.get?_insert] at stored'
    split at stored'
    · cases stored'
      exact Nat.le_trans (all uri d found) moves.state_le
    · exact all k' e' stored'
  · dsimp only
    rw [same]
    split at stored
    · cases stored
      exact moves.anew fun result eq before => (h uri d found before).2 result eq before
    · exact (h k e stored state).2

end Workspace

namespace Site

/-- Sets the text of a document, under a version. -/
def setting : DocumentUri × Int × String → Action
  | (uri, version, text) => .apply uri (.set version text)

/-- A site at which texts were set, one after the other. -/
def filled (l : Language) (o : ValidationOptions) (texts : List (DocumentUri × Int × String)) : Site :=
  (opened l o).run (texts.map setting)

/-- The site when the first build of these texts has got its turn. -/
def started (l : Language) (o : ValidationOptions) (texts : List (DocumentUri × Int × String)) : Site :=
  (filled l o texts).run [.begin [] [], .start 1]

/-- The site when all tasks of this build were carried out, with nothing to stop it. -/
def afresh (l : Language) (o : ValidationOptions) (texts : List (DocumentUri × Int × String)) : Site :=
  let s := started l o texts
  s.run (List.replicate (Build.agendaOf s.workspace.documents.keys).length (.step .never))

variable {l : Language} {o : ValidationOptions} {s : Site}

theorem sound_started (l : Language) (o : ValidationOptions)
    (texts : List (DocumentUri × Int × String)) : (started l o texts).Sound l o := by
  unfold started filled
  rw [← run_append]
  exact sound_run l o _

/-- A build from scratch is a run like others. -/
theorem sound_afresh (l : Language) (o : ValidationOptions)
    (texts : List (DocumentUri × Int × String)) : (afresh l o texts).Sound l o := by
  unfold afresh started filled
  dsimp only
  rw [← run_append, ← run_append]
  exact sound_run l o _

/-- Nothing has happened at a site but that texts were set. -/
structure Filling (l : Language) (s : Site) : Prop where
  language : s.workspace.language = l
  generation : s.workspace.generation = 0
  shutDown : s.workspace.shutDown = false
  running : s.running = none
  unbuilt : s.workspace.Unbuilt

theorem Filling.set (h : s.Filling l) (entry : DocumentUri × Int × String) :
    (s.act (setting entry)).Filling l := by
  rw [setting, act]
  split
  · next w what applied =>
    have unbuilt := h.unbuilt.apply applied
    obtain ⟨d, v, -, rfl, rfl, -⟩ := s.workspace.apply_cases applied
    exact ⟨h.language, h.generation, h.shutDown, h.running, unbuilt⟩
  · exact h

theorem filling_filled (l : Language) (o : ValidationOptions)
    (texts : List (DocumentUri × Int × String)) : (filled l o texts).Filling l := by
  have keep : ∀ s : Site, s.Filling l → (s.run (texts.map setting)).Filling l := by
    induction texts with
    | nil => exact fun _ h => h
    | cons entry rest ih => exact fun s h => ih _ (h.set entry)
  exact keep _ ⟨rfl, rfl, rfl, rfl, nofun⟩

theorem unbuilt_begin (h : s.workspace.Unbuilt) (changed deleted : List DocumentUri) :
    (s.act (.begin changed deleted)).workspace.Unbuilt := by
  rw [act]
  split
  · next begun =>
    obtain ⟨v, rfl, rfl, -⟩ := s.workspace.begin_cases changed deleted begun
    exact Workspace.Unbuilt.invalidate (w := { s.workspace with
      generation := s.workspace.generation + 1, fired := false }) h changed deleted
  · exact h

theorem unbuilt_start (h : s.workspace.Unbuilt) (generation : Nat) :
    (s.act (.start generation)).workspace.Unbuilt := by
  rw [act]
  split <;> exact h

theorem unbuilt_started (l : Language) (o : ValidationOptions)
    (texts : List (DocumentUri × Int × String)) : (started l o texts).workspace.Unbuilt :=
  unbuilt_start (unbuilt_begin (filling_filled l o texts).unbuilt [] []) 1

theorem Sound.upToDate_step (sound : s.Sound l o) (h : s.workspace.UpToDate) {b : Build}
    (running : s.running = some b) {token : Cancellation} {w : Workspace} {outcome : BuildStep}
    (stepped : b.step s.workspace token = (w, outcome)) : w.UpToDate := by
  have paced := sound.paced.running b running
  rcases Build.step_cases stepped with
    ⟨rfl, -⟩ | ⟨phase, agenda, -, rfl, -⟩ | ⟨phase, uri, agenda, visit, head, alive, visited, -⟩
  · exact h
  · exact h
  · exact h.visit visited (paced.indexed_before_link alive head)

/-- A build keeps a workspace up to date, whatever tokens it reads. -/
theorem Sound.upToDate_steps (sound : s.Sound l o) (h : s.workspace.UpToDate)
    (tokens : List Cancellation) : (s.run (tokens.map .step)).workspace.UpToDate := by
  induction tokens generalizing s with
  | nil => exact h
  | cons token tokens ih =>
    refine ih (sound.act (.step token)) ?_
    rw [Site.act]
    split
    · exact h
    · next b running => exact sound.upToDate_step h running rfl

theorem upToDate_afresh (l : Language) (o : ValidationOptions)
    (texts : List (DocumentUri × Int × String)) : (afresh l o texts).workspace.UpToDate := by
  have built := (sound_started l o texts).upToDate_steps (unbuilt_started l o texts).upToDate
    (List.replicate (Build.agendaOf (started l o texts).workspace.documents.keys).length .never)
  rw [List.map_replicate] at built
  exact built

/-- The first build has all documents of the workspace on its agenda. -/
theorem Filling.going (h : s.Filling l) (quiet : l.registry.Quiet) :
    let t := s.run [.begin [] [], .start 1]
    t.Going (Build.agendaOf t.workspace.documents.keys) := by
  obtain ⟨w, what, begun, language, generation, fired⟩ : ∃ w what,
      s.workspace.begin [] [] = .ok (w, what) ∧ w.language = l ∧ w.generation = 1 ∧
        w.fired = false := by
    refine ⟨_, _, if_neg (by rw [h.shutDown]; decide), h.language, ?_, rfl⟩
    show s.workspace.generation + 1 = 1
    rw [h.generation]
  have turn := run_begin_start h.running begun
  rw [generation] at turn
  intro t
  have at_turn : t = _ := turn
  rw [at_turn]
  refine ⟨?_, _, rfl, rfl, ?_⟩
  · show w.language.registry.Quiet
    rw [language]
    exact quiet
  · show (w.fired || 1 != w.generation) = false
    rw [fired, generation]
    rfl

/-- A build from scratch comes to its end, if no check of the language makes the token fire. -/
theorem complete_afresh (o : ValidationOptions) (quiet : l.registry.Quiet)
    (texts : List (DocumentUri × Int × String)) : (afresh l o texts).complete = true :=
  ((filling_filled l o texts).going quiet).complete

/-- When a build has come to its end after any history, every document has the tree, the exports and
the local scopes that it has when the same texts are built from scratch; and it is the same in all,
resolutions and diagnostics included, exactly if none of its references was overtaken. -/
theorem eq_afresh_iff (l : Language) (o : ValidationOptions) (actions : List Action)
    (texts : List (DocumentUri × Int × String))
    (complete : ((opened l o).run actions).complete = true)
    (fresh : (afresh l o texts).complete = true)
    (same : ((opened l o).run actions).texts = (afresh l o texts).texts) :
    let s := (opened l o).run actions
    let t := afresh l o texts
    s.workspace.index = t.workspace.index ∧
    ∀ uri d, s.workspace.documents.get? uri = some d →
      ∃ e, t.workspace.documents.get? uri = some e ∧
        d.progress.result?.map ParseResult.unlink = e.progress.result?.map ParseResult.unlink ∧
        d.progress.exports = e.progress.exports ∧ d.progress.locals = e.progress.locals ∧
        (d.progress = e.progress ↔ ¬ d.Overtaken s.workspace.index) := by
  intro s t
  have hs : s.Sound l o := sound_run l o actions
  have ht : t.Sound l o := sound_afresh l o texts
  refine ⟨hs.index_eq ht complete fresh same, fun uri d found => ?_⟩
  obtain ⟨e, stored, validated, validated', faithful, faithful'⟩ :=
    hs.pair ht complete fresh same found
  obtain ⟨results, exports, locals⟩ := faithful.agree faithful' validated validated'
  refine ⟨e, stored, results, exports, locals, ?_⟩
  refine hs.progress_eq_iff ht complete fresh same found stored ?_
  have linked : .linked ≤ e.state := Progress.le_of_validated validated' _
  obtain ⟨result, eq⟩ := e.progress.exists_result (Progress.le_of_validated validated' _)
  have anew := (upToDate_afresh l o texts uri e stored linked).2 result eq linked
  exact (ht.workspace.anew_iff stored eq linked).1 anew

/-- When the document `c` and what it refers to are built, the document `a` comes to define the same. -/
def lateDefinition : List Action :=
  extension 16 ++ [.apply "a" (.set 1 "class X {}"), .begin [] [], .start 2] ++
    List.replicate 20 (.step .never)

/-- The documents to which the references of a document lead. -/
def targetsOf (s : Site) (uri : DocumentUri) : Option (List (Option DocumentUri)) :=
  (s.workspace.documents.get? uri).map fun d => d.references.map fun r => r.target?.map (·.uri)

theorem targetsOf_congr {s t : Site} {uri : DocumentUri} {d e : Document}
    (found : s.workspace.documents.get? uri = some d)
    (stored : t.workspace.documents.get? uri = some e) (same : d.progress = e.progress) :
    s.targetsOf uri = t.targetsOf uri := by
  unfold targetsOf Document.references
  rw [found, stored, Option.map_some, Option.map_some, same]

/-- The texts at the end. -/
def lateTexts : List (DocumentUri × Int × String) :=
  [("a", 1, "class X {}"), ("b", 1, "class X {}"), ("c", 1, "class C extends X {}")]

/-- After a late definition, a reference leads to another document than when the same texts are built
from scratch: it was overtaken. -/
theorem overtaken_lateDefinition :
    ((opened plain {}).run lateDefinition).complete = true ∧
      (afresh plain {} lateTexts).complete = true ∧
      ((opened plain {}).run lateDefinition).texts = (afresh plain {} lateTexts).texts ∧
      ((opened plain {}).run lateDefinition).targetsOf "c" = some [some "b"] ∧
      (afresh plain {} lateTexts).targetsOf "c" = some [some "a"] ∧
      ∃ d, ((opened plain {}).run lateDefinition).workspace.documents.get? "c" = some d ∧
        d.Overtaken ((opened plain {}).run lateDefinition).workspace.index := by
  have complete : ((opened plain {}).run lateDefinition).complete = true := by decide +kernel
  have fresh : (afresh plain {} lateTexts).complete = true := by decide +kernel
  have same : ((opened plain {}).run lateDefinition).texts = (afresh plain {} lateTexts).texts := by
    decide +kernel
  have before : ((opened plain {}).run lateDefinition).targetsOf "c" = some [some "b"] := by
    decide +kernel
  have after : (afresh plain {} lateTexts).targetsOf "c" = some [some "a"] := by decide +kernel
  refine ⟨complete, fresh, same, before, after, ?_⟩
  obtain ⟨-, agree⟩ := eq_afresh_iff plain {} lateDefinition lateTexts complete fresh same
  obtain ⟨d, found, -⟩ := Option.map_eq_some_iff.1 before
  obtain ⟨e, stored, -, -, -, agree⟩ := agree "c" d found
  refine ⟨d, found, Classical.byContradiction fun notOvertaken => ?_⟩
  have eq := targetsOf_congr found stored (agree.2 notOvertaken)
  exact absurd (before.symm.trans (eq.trans after)) (by decide)

end Site

end Workbench
