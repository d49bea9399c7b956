import Workbench.Proofs.Linking.Exports
import Workbench.Proofs.Workspace.Afresh

/-!
**Documents analysed alone.**

A text can be taken through all phases on its own, if it is told what the other documents export. The
result is the one that a workspace comes to when all texts are set and built once: the tree with its
resolutions, the exports, the local scopes and the diagnostics. The workspace looks names up in an index
that holds the document's own exports among the others, in the order of the addresses; a text on its own
is asked first, and the others come in any order. Both find the same, since of all descriptions that
fit, the first one of the smallest address is taken, and no two documents share an address.
-/

namespace Workbench

open Cancellable

namespace Linking

theorem resolveAll_congr {a : Ast} {cx cx' : LinkContext}
    (same : ∀ r, resolve a r cx = resolve a r cx') : resolveAll cx a = resolveAll cx' a := by
  unfold resolveAll
  simp only [same]

end Linking

/-! ### Analysing a text -/

namespace Language

variable {l : Language} {o : ValidationOptions} {uri : DocumentUri} {text : String}

/-- What a text exports. -/
def exportsOf (l : Language) (uri : DocumentUri) (text : String) : List Description :=
  match l.exports (l.parse text).ast uri .never with
  | .ok (exports, _) => exports
  | .error _ => []

theorem exports_never (l : Language) (uri : DocumentUri) (text : String) :
    l.exports (l.parse text).ast uri .never = .ok (l.exportsOf uri text, .never) := by
  obtain ⟨exports, ok⟩ := l.scoping.ends_exports (l.parse text).ast uri
  have ok : l.exports (l.parse text).ast uri .never = .ok (exports, .never) := ok
  rw [exportsOf, ok]

/-- What texts export, text by text. -/
def exportsBy (l : Language) (texts : List (DocumentUri × Int × String)) :
    List (DocumentUri × List Description) :=
  texts.map fun (uri, _, text) => (uri, l.exportsOf uri text)

/-- What texts export under a name. -/
def exportedBy (l : Language) (texts : List (DocumentUri × Int × String)) (name : String) :
    List Description :=
  Linking.named ((l.exportsBy texts).flatMap (·.2)) name

theorem keys_exportsBy (l : Language) (texts : List (DocumentUri × Int × String)) :
    (l.exportsBy texts).map (·.1) = texts.map (·.1) := by
  rw [exportsBy, List.map_map]
  rfl

theorem grouped_exportsBy (l : Language) {texts : List (DocumentUri × Int × String)}
    (distinct : (texts.map (·.1)).Nodup) : Linking.Grouped (l.exportsBy texts) where
  distinct := l.keys_exportsBy texts ▸ distinct
  addressed := by
    intro g mem d listed
    obtain ⟨⟨uri, _, text⟩, -, rfl⟩ := List.mem_map.1 mem
    have yields : Yields (l.exports (l.parse text).ast uri) (l.exportsOf uri text) :=
      ⟨_, l.exports_never uri text⟩
    exact yields.of_ensures (l.scoping.uri_exports _ uri) d listed

/-- Linking that nothing stops resolves every reference that a node holds. -/
theorem link_never (cx : LinkContext) (text : String) :
    link cx (l.parse text) .never =
      .ok ({ l.parse text with ast := Linking.resolveAll cx (l.parse text).ast }, .never) := by
  obtain ⟨total, ok⟩ := Linking.link_never cx (l.parse text).ast
  have tree : (Linking.link cx (l.parse text).ast .never).ast =
      Linking.resolveAll cx (l.parse text).ast :=
    Linking.link_ast_of_ok (l.parser.unlinked_parse _) ok
  unfold link
  dsimp only
  rw [ok, tree]

theorem ensures_link (cx : LinkContext) (text : String) :
    Ensures (link cx (l.parse text))
      (· = { l.parse text with ast := Linking.resolveAll cx (l.parse text).ast }) := by
  intro token linked rest ok
  unfold link at ok
  dsimp only at ok
  split at ok
  · cases ok
  · next ended =>
    have tree : (Linking.link cx (l.parse text).ast token).ast = Linking.resolveAll cx (l.parse text).ast :=
      Linking.link_ast_of_ok (l.parser.unlinked_parse _) ended
    have answer := congrArg Prod.fst (Except.ok.inj ok)
    rw [← tree]
    exact answer.symm

/-- Where nothing stops it, an analysis yields what its phases yield. -/
theorem yields_analyze {locals : LocalScopes} {diagnostics : List Diagnostic} {cx : LinkContext}
    (exported : String → List Description)
    (inScope : Yields (l.localScopes (l.parse text).ast uri) locals)
    (context : cx = ⟨locals, fun name => Linking.named (l.exportsOf uri text) name ++ exported name⟩)
    (validated : Yields (l.validate
      { l.parse text with ast := Linking.resolveAll cx (l.parse text).ast } uri o) diagnostics) :
    Yields (l.analyze uri text exported o)
      ⟨{ l.parse text with ast := Linking.resolveAll cx (l.parse text).ast },
        l.exportsOf uri text, locals, diagnostics⟩ := by
  have inScope : l.localScopes (l.parse text).ast uri .never = .ok (locals, .never) := by
    obtain ⟨locals', ok⟩ := l.scoping.ends_localScopes (l.parse text).ast uri
    rw [inScope.unique ⟨_, ok⟩]
    exact ok
  obtain ⟨rest, validated⟩ := validated
  subst context
  refine ⟨rest, ?_⟩
  unfold analyze
  dsimp only
  rw [bind_of_ok (show checkpoint .never = .ok ((), .never) from rfl),
    bind_of_ok (l.exports_never uri text), bind_of_ok inScope, bind_of_ok (link_never _ text),
    bind_of_ok validated]
  rfl

/-- What an analysis finds, where it ends: what its phases yield, in the order of the phases. -/
structure Outcome (l : Language) (uri : DocumentUri) (text : String) (exported : String → List Description)
    (o : ValidationOptions) (x : Analysis) : Prop where
  exports : x.exports = l.exportsOf uri text
  locals : Yields (l.localScopes (l.parse text).ast uri) x.locals
  parsed : x.parsed = { l.parse text with
    ast := Linking.resolveAll
      ⟨x.locals, fun name => Linking.named (l.exportsOf uri text) name ++ exported name⟩ (l.parse text).ast }
  diagnostics : ∃ token rest, l.validate x.parsed uri o token = .ok (x.diagnostics, rest)

theorem Outcome.tree {exported : String → List Description} {x : Analysis}
    (h : l.Outcome uri text exported o x) : x.parsed.ast = Linking.resolveAll
      ⟨x.locals, fun name => Linking.named (l.exportsOf uri text) name ++ exported name⟩ (l.parse text).ast := by
  rw [h.parsed]

theorem ensures_analyze (l : Language) (uri : DocumentUri) (text : String)
    (exported : String → List Description) (o : ValidationOptions) :
    Ensures (l.analyze uri text exported o) (l.Outcome uri text exported o) := by
  unfold analyze
  dsimp only
  refine Ensures.bind (p := fun _ => True) (fun _ _ _ _ => trivial) fun _ _ => ?_
  refine Ensures.bind (p := (· = l.exportsOf uri text)) (fun token exports rest ok => ?_) fun exports isOwn => ?_
  · exact ((l.scoping.steady_exports _ uri).yields ok).unique ⟨_, l.exports_never uri text⟩
  refine Ensures.bind (p := Yields (l.localScopes (l.parse text).ast uri)) (fun token locals rest ok => ?_)
    fun locals inScope => ?_
  · exact (l.scoping.steady_localScopes _ uri).yields ok
  refine (ensures_link _ text).bind fun linked isLinked => ?_
  refine Ensures.bind (p := fun diagnostics =>
      ∃ token rest, l.validate linked uri o token = .ok (diagnostics, rest))
    (fun token diagnostics rest ok => ⟨token, rest, ok⟩) fun diagnostics validated => ensures_pure ?_
  subst isOwn isLinked
  exact ⟨rfl, inScope, rfl, validated⟩

/-- An analysis ends if no check makes the token fire. -/
theorem ends_analyze (quiet : l.registry.Quiet) (uri : DocumentUri) (text : String)
    (exported : String → List Description) (o : ValidationOptions) : Ends (l.analyze uri text exported o) := by
  refine ends_checkpoint.bind fun _ => ?_
  refine (l.scoping.ends_exports _ uri).bind fun exports => ?_
  refine (l.scoping.ends_localScopes _ uri).bind fun locals => ?_
  refine Ends.bind ⟨_, link_never _ text⟩ fun linked => ?_
  exact (Validation.ends_validate quiet linked uri o).bind fun diagnostics => ends_pure _

end Language

/-! ### Texts in a workspace -/

namespace Workspace

/-- The version and the text of a document. -/
def stored? (w : Workspace) (uri : DocumentUri) : Option (Int × String) :=
  (w.documents.get? uri).map fun d => (d.version, d.text)

variable {w : Workspace}

/-- An invalidation that deletes nothing leaves all texts. -/
theorem stored?_invalidate (w : Workspace) (changed : List DocumentUri) (uri : DocumentUri) :
    (w.invalidate changed []).1.stored? uri = w.stored? uri := by
  by_cases none_touched : changed ++ [] = []
  · obtain ⟨rfl, -⟩ := List.append_eq_nil_iff.1 none_touched
    rw [invalidate_nil]
  · unfold stored?
    rw [get?_documents_invalidate _ _ _ none_touched]
    cases w.documents.get? uri with
    | none => rfl
    | some d =>
      rw [Option.bind_some, leftOf, if_neg List.not_mem_nil]
      split
      · rfl
      · split <;> rfl

theorem stored?_visit {o : ValidationOptions} {phase : Phase} {uri : DocumentUri} {token : Cancellation}
    {w' : Workspace} {visit : Visit} (visited : w.visit o phase uri token = (w', visit))
    (k : DocumentUri) : w'.stored? k = w.stored? k := by
  rcases w.visit_cases visited with ⟨rfl, -⟩ | ⟨d, progress, found, -, rfl⟩
  · rfl
  · unfold stored?
    dsimp only
    rw [UriMap.get?_insert]
    split
    · next same => rw [same, found]; rfl
    · rfl

theorem stored?_step {b : Build} {token : Cancellation} {w' : Workspace} {outcome : BuildStep}
    (stepped : b.step w token = (w', outcome)) (k : DocumentUri) : w'.stored? k = w.stored? k := by
  rcases Build.step_cases stepped with
    ⟨rfl, -⟩ | ⟨phase, agenda, -, rfl, -⟩ | ⟨phase, uri, agenda, visit, -, -, visited, -⟩
  · rfl
  · rfl
  · exact stored?_visit visited k

end Workspace

/-! ### Texts that are set and built once -/

namespace Site

variable {l : Language} {o : ValidationOptions} {s : Site}

/-- The site at which texts were set, one after the other, and then built once. The build reads a token
in each of its tasks. -/
def builtOnce (l : Language) (o : ValidationOptions) (texts : List (DocumentUri × Int × String))
    (changed : List DocumentUri) (tokens : List Cancellation) : Site :=
  (filled l o texts).run (.begin changed [] :: .start 1 :: tokens.map .step)

theorem stored?_set (s : Site) (uri : DocumentUri) (given : Int × String) (k : DocumentUri) :
    (s.act (setting (uri, given))).workspace.stored? k =
      if k = uri then some given else s.workspace.stored? k := by
  have applied : (s.act (setting (uri, given))).workspace =
      (Workspace.invalidate { s.workspace with
        fired := true
        documents := s.workspace.documents.insert uri { version := given.1, text := given.2 } }
        [uri] []).1 := rfl
  rw [applied, Workspace.stored?_invalidate, Workspace.stored?]
  dsimp only
  rw [UriMap.get?_insert]
  split <;> rfl

theorem stored?_settings (texts : List (DocumentUri × Int × String))
    (distinct : (texts.map (·.1)).Nodup) (s : Site) (k : DocumentUri) :
    (s.run (texts.map setting)).workspace.stored? k = (texts.lookup k).or (s.workspace.stored? k) := by
  induction texts generalizing s with
  | nil => rfl
  | cons entry rest ih =>
    obtain ⟨uri, given⟩ := entry
    rw [List.map_cons, List.nodup_cons] at distinct
    rw [List.map_cons, run, List.foldl_cons, ← run, ih distinct.2, stored?_set, List.lookup_cons]
    by_cases same : k = uri
    · subst same
      have absent : rest.lookup k = none := by
        rw [List.lookup_eq_none_iff]
        intro e mem
        rw [bne_iff_ne]
        intro same
        exact distinct.1 (List.mem_map.2 ⟨e, mem, same.symm⟩)
      simp [absent]
    · have differ : (k == uri) = false := beq_eq_false_iff_ne.2 same
      simp [differ, same]

theorem stored?_begin (s : Site) (changed : List DocumentUri) (k : DocumentUri) :
    (s.act (.begin changed [])).workspace.stored? k = s.workspace.stored? k := by
  rw [act]
  split
  · next begun =>
    obtain ⟨v, rfl, rfl, -⟩ := s.workspace.begin_cases changed [] begun
    exact Workspace.stored?_invalidate _ changed k
  · rfl

theorem stored?_start (s : Site) (generation : Nat) (k : DocumentUri) :
    (s.act (.start generation)).workspace.stored? k = s.workspace.stored? k := by
  rw [act]
  split <;> rfl

theorem stored?_steps (s : Site) (tokens : List Cancellation) (k : DocumentUri) :
    (s.run (tokens.map .step)).workspace.stored? k = s.workspace.stored? k := by
  induction tokens generalizing s with
  | nil => rfl
  | cons token rest ih =>
    rw [List.map_cons, run, List.foldl_cons, ← run, ih, act]
    split
    · rfl
    · exact Workspace.stored?_step rfl k

/-- The texts at the end are those that were set. -/
theorem stored?_builtOnce (l : Language) (o : ValidationOptions)
    {texts : List (DocumentUri × Int × String)} (distinct : (texts.map (·.1)).Nodup)
    (changed : List DocumentUri) (tokens : List Cancellation) (k : DocumentUri) :
    (builtOnce l o texts changed tokens).workspace.stored? k = texts.lookup k := by
  rw [builtOnce, run, List.foldl_cons, List.foldl_cons, ← run, stored?_steps, stored?_start,
    stored?_begin, filled, stored?_settings texts distinct]
  exact Option.or_none

theorem sound_builtOnce (l : Language) (o : ValidationOptions)
    (texts : List (DocumentUri × Int × String)) (changed : List DocumentUri)
    (tokens : List Cancellation) : (builtOnce l o texts changed tokens).Sound l o := by
  unfold builtOnce filled
  rw [← run_append]
  exact sound_run l o _

theorem upToDate_builtOnce (l : Language) (o : ValidationOptions)
    (texts : List (DocumentUri × Int × String)) (changed : List DocumentUri)
    (tokens : List Cancellation) : (builtOnce l o texts changed tokens).workspace.UpToDate := by
  have begun : ((filled l o texts).run [.begin changed [], .start 1]).Sound l o := by
    unfold filled
    rw [← run_append]
    exact sound_run l o _
  have unbuilt : ((filled l o texts).run [.begin changed [], .start 1]).workspace.Unbuilt :=
    unbuilt_start (unbuilt_begin (filling_filled l o texts).unbuilt changed []) 1
  exact begun.upToDate_steps unbuilt.upToDate tokens

section Built

variable {texts : List (DocumentUri × Int × String)} {changed : List DocumentUri}
  {tokens : List Cancellation}

theorem found_builtOnce_iff (distinct : (texts.map (·.1)).Nodup) {uri : DocumentUri} {version : Int}
    {text : String} :
    (uri, version, text) ∈ texts ↔
      ∃ progress, (builtOnce l o texts changed tokens).workspace.documents.get? uri =
        some ⟨version, text, progress⟩ := by
  rw [← UriMap.lookup_eq_some_iff distinct, ← stored?_builtOnce l o distinct changed tokens uri,
    Workspace.stored?, Option.map_eq_some_iff]
  constructor
  · rintro ⟨⟨_, _, progress⟩, found, eq⟩
    cases eq
    exact ⟨progress, found⟩
  · rintro ⟨progress, found⟩
    exact ⟨_, found, rfl⟩

/-- When the build is complete, a document exports what its text exports. -/
theorem exports_builtOnce (complete : (builtOnce l o texts changed tokens).complete = true)
    {uri : DocumentUri} {d : Document}
    (found : (builtOnce l o texts changed tokens).workspace.documents.get? uri = some d) :
    d.progress.exports = l.exportsOf uri d.text := by
  have sound := sound_builtOnce l o texts changed tokens
  have validated := sound.paced.validated complete found
  have faithful := sound.workspace.faithful uri d found
  obtain ⟨result, eq⟩ := d.progress.exists_result (Progress.le_of_validated validated _)
  have yields := faithful.exports result eq (Progress.le_of_validated validated _)
  have trees : result.ast.unlink = (l.parse d.text).ast :=
    congrArg ParseResult.ast (faithful.parsed result eq)
  rw [Language.exports, ← l.scoping.exports_unlink, trees] at yields
  exact yields.unique ⟨_, l.exports_never uri d.text⟩

/-- When the build is complete, the index holds what each text exports. -/
theorem perm_index_builtOnce (distinct : (texts.map (·.1)).Nodup)
    (complete : (builtOnce l o texts changed tokens).complete = true) :
    (builtOnce l o texts changed tokens).workspace.index.entries.Perm (l.exportsBy texts) := by
  have sound := sound_builtOnce l o texts changed tokens
  have nodup : (l.exportsBy texts).Nodup :=
    UriMap.nodup_of_keys (l.keys_exportsBy texts ▸ distinct)
  rw [List.perm_ext_iff_of_nodup (UriMap.nodup_of_keys (UriMap.nodup_keys _)) nodup]
  rintro ⟨uri, ds⟩
  rw [UriMap.mem_entries_iff, sound.workspace.get?_index_eq_some_iff,
    Language.exportsBy, List.mem_map]
  constructor
  · rintro ⟨⟨version, text, progress⟩, found, -, rfl⟩
    refine ⟨(uri, version, text), (found_builtOnce_iff distinct).2 ⟨progress, found⟩, ?_⟩
    rw [exports_builtOnce complete found]
  · rintro ⟨⟨uri, version, text⟩, mem, eq⟩
    cases eq
    obtain ⟨progress, found⟩ := (found_builtOnce_iff distinct).1 mem
    have validated := sound.paced.validated complete found
    exact ⟨_, found, Progress.le_of_validated validated _, exports_builtOnce complete found⟩

/-- A name that is looked up in the index finds what it finds among the exports of one document and of
all others. -/
theorem resolve_exportedBy (distinct : (texts.map (·.1)).Nodup)
    (complete : (builtOnce l o texts changed tokens).complete = true)
    {uri : DocumentUri} {version : Int} {text : String} {elsewhere : List (DocumentUri × Int × String)}
    (perm : ((uri, version, text) :: elsewhere).Perm texts) (locals : LocalScopes) (a : Ast)
    (r : Reference) :
    Linking.resolve a r
        { locals, exported := Linking.exportedIn (builtOnce l o texts changed tokens).workspace.index } =
      Linking.resolve a r
        ⟨locals, fun name => Linking.named (l.exportsOf uri text) name ++ l.exportedBy elsewhere name⟩ := by
  have same : ∀ name p,
      Linking.smallest
          ((Linking.exportedIn (builtOnce l o texts changed tokens).workspace.index name).filter p) =
        Linking.smallest
          ((Linking.named (l.exportsOf uri text) name ++ l.exportedBy elsewhere name).filter p) := by
    intro name p
    have listed := perm_index_builtOnce distinct complete
    have grouped := (l.grouped_exportsBy distinct).of_perm listed.symm
    have ordered : (l.exportsBy texts).Perm ((uri, l.exportsOf uri text) :: l.exportsBy elsewhere) :=
      perm.symm.map _
    rw [Linking.exportedIn_eq_named, Language.exportedBy, Linking.named, Linking.named, Linking.named,
      ← List.filter_append, List.filter_filter, List.filter_filter]
    exact grouped.smallest_of_perm (listed.trans ordered) fun d => p d && d.name == name
  unfold Linking.resolve
  rw [same]

/-- When texts were set in any order and built once, every document is what the analysis of its text on
its own finds, given what the other texts export. -/
theorem analyze_builtOnce (distinct : (texts.map (·.1)).Nodup)
    (complete : (builtOnce l o texts changed tokens).complete = true)
    {uri : DocumentUri} {version : Int} {text : String} {elsewhere : List (DocumentUri × Int × String)}
    (perm : ((uri, version, text) :: elsewhere).Perm texts) :
    ∃ analysis rest, l.analyze uri text (l.exportedBy elsewhere) o .never = .ok (analysis, rest) ∧
      (builtOnce l o texts changed tokens).workspace.documents.get? uri = some
        ⟨version, text,
          .validated analysis.parsed analysis.exports analysis.locals analysis.diagnostics⟩ := by
  have sound := sound_builtOnce l o texts changed tokens
  obtain ⟨progress, found⟩ := (found_builtOnce_iff distinct).1 (perm.subset List.mem_cons_self)
  have validated : progress.state = .validated := sound.paced.validated complete found
  have faithful : progress.Faithful l o uri text := sound.workspace.faithful uri _ found
  have anew := (upToDate_builtOnce l o texts changed tokens uri _ found
    (Progress.le_of_validated validated _)).2
  cases progress with
  | validated result exports locals diagnostics =>
    have exported : exports = l.exportsOf uri text := exports_builtOnce complete found
    have checked : Yields (l.validate result uri o) diagnostics :=
      faithful.diagnostics result rfl validated
    have parsed : result.unlink = l.parse text := faithful.parsed result rfl
    have inScope : Yields (l.localScopes (l.parse text).ast uri) locals := by
      have yields := faithful.locals result rfl (Progress.le_of_validated validated _)
      rw [← parsed]
      rwa [Language.localScopes, ← l.scoping.localScopes_unlink] at yields
    -- the tree was linked by looking names up in the index
    have linked : result = { l.parse text with
        ast := Linking.resolveAll ⟨locals, fun name =>
          Linking.named (l.exportsOf uri text) name ++ l.exportedBy elsewhere name⟩ (l.parse text).ast } := by
      rw [← Linking.resolveAll_congr (resolve_exportedBy distinct complete perm locals _), ← parsed]
      have tree := anew result rfl (Progress.le_of_validated validated _)
      obtain ⟨ast, lexErrors, parseErrors, incidents⟩ := result
      exact congrArg (ParseResult.mk · lexErrors parseErrors incidents) tree
    subst exported linked
    obtain ⟨rest, analysed⟩ := Language.yields_analyze _ inScope rfl checked
    exact ⟨_, rest, analysed, found⟩
  | _ => cases validated

end Built

/-- The document `c`, which refers to a class that two others define. -/
theorem analyze_lateTexts :
    (builtOnce plain {} lateTexts ["b"] (List.replicate 20 .never)).targetsOf "c" = some [some "a"] ∧
      ∃ analysis rest,
        plain.analyze "c" "class C extends X {}"
            (plain.exportedBy [("b", 1, "class X {}"), ("a", 1, "class X {}")]) {} .never =
          .ok (analysis, rest) ∧
        (builtOnce plain {} lateTexts ["b"] (List.replicate 20 .never)).workspace.documents.get? "c" =
          some ⟨1, "class C extends X {}",
            .validated analysis.parsed analysis.exports analysis.locals analysis.diagnostics⟩ := by
  have complete : (builtOnce plain {} lateTexts ["b"] (List.replicate 20 .never)).complete = true := by
    decide +kernel
  exact ⟨by decide +kernel, analyze_builtOnce (by decide) complete (by decide)⟩

end Site

end Workbench
