import Workbench.Proofs.Parser.Unlinked
import Workbench.Proofs.Workspace.Site

/-!
**What holds of a workspace at all times.**

A workspace is `Sound` if every product of a document is what its text gives, the index holds the
exports of exactly the documents that are indexed, and what references were resolved to can be kept:
each target is still exported, and what had no target still has none. The last is kept because of a
further fact: as long as some document is not indexed, no linked document has a reference without a
target. An invalidation establishes it by unlinking all documents with such references, and the pace
of builds keeps it, since no document is linked before all are indexed.
-/

namespace Workbench

open Cancellable Linking

/-! ### Documents -/

/-- The products of a document are those of its text. A tree that was linked is the parsed one, its
resolutions apart. -/
structure Progress.Faithful (l : Language) (o : ValidationOptions) (uri : DocumentUri) (text : String)
    (p : Progress) : Prop where
  parsed : ∀ result, p.result? = some result → result.unlink = l.parse text
  unlinked : ∀ result, p.result? = some result → p.state < .scoped → result = l.parse text
  exports : ∀ result, p.result? = some result → .indexed ≤ p.state →
    Yields (l.exports result.ast uri) p.exports
  locals : ∀ result, p.result? = some result → .scoped ≤ p.state →
    Yields (l.localScopes result.ast uri) p.locals
  diagnostics : ∀ result, p.result? = some result → p.state = .validated →
    Yields (l.validate result uri o) p.diagnostics

/-- What a document has in the index. -/
def Document.indexed? (d : Document) : Option (List Description) :=
  if DocumentState.indexed ≤ d.state then some d.progress.exports else none

theorem Document.indexed?_unlink (d : Document) : d.unlink.indexed? = d.indexed? := by
  obtain ⟨version, text, progress⟩ := d
  cases progress <;> rfl

theorem Progress.state_unlink_le (p : Progress) :
    p.unlink.state.rank ≤ DocumentState.scoped.rank := by
  cases p <;> exact Nat.le_of_ble_eq_true rfl

theorem Progress.exists_result (p : Progress) (h : .parsed ≤ p.state) :
    ∃ result, p.result? = some result := by
  cases p with
  | changed => exact absurd h (by decide : ¬ DocumentState.parsed ≤ .changed)
  | _ => exact ⟨_, rfl⟩

/-- What a linked document was resolved to can be kept. -/
def Progress.Settled (index : UriMap (List Description)) (p : Progress) : Prop :=
  ∀ result, p.result? = some result → .linked ≤ p.state → Linking.Settled index p.locals result.ast

namespace Progress.Faithful

variable {l : Language} {o : ValidationOptions} {uri : DocumentUri} {text : String}

theorem changed : Faithful l o uri text .changed :=
  ⟨nofun, nofun, nofun, nofun, nofun⟩

theorem exports_congr {a b : Ast} (same : a.unlink = b.unlink) :
    l.exports a uri = l.exports b uri := by
  have := l.scoping.exports_unlink a uri
  rw [same, l.scoping.exports_unlink b uri] at this
  exact this.symm

theorem localScopes_congr {a b : Ast} (same : a.unlink = b.unlink) :
    l.localScopes a uri = l.localScopes b uri := by
  have := l.scoping.localScopes_unlink a uri
  rw [same, l.scoping.localScopes_unlink b uri] at this
  exact this.symm

theorem unlink_parse (text : String) : (l.parse text).unlink = l.parse text :=
  l.parser.unlink_parse _

theorem of_scoped {result : ParseResult} {exports : List Description} {locals : LocalScopes}
    (parsed : result.unlink = l.parse text) (hexports : Yields (l.exports result.ast uri) exports)
    (hlocals : Yields (l.localScopes result.ast uri) locals) :
    Faithful l o uri text (.scoped result exports locals) where
  parsed _ eq := Option.some.inj eq ▸ parsed
  unlinked _ _ below := absurd below (by decide : ¬ DocumentState.scoped < .scoped)
  exports _ eq _ := Option.some.inj eq ▸ hexports
  locals _ eq _ := Option.some.inj eq ▸ hlocals
  diagnostics _ _ := nofun

theorem of_linked {result : ParseResult} {exports : List Description} {locals : LocalScopes}
    (parsed : result.unlink = l.parse text) (hexports : Yields (l.exports result.ast uri) exports)
    (hlocals : Yields (l.localScopes result.ast uri) locals) :
    Faithful l o uri text (.linked result exports locals) where
  parsed _ eq := Option.some.inj eq ▸ parsed
  unlinked _ _ below := absurd below (by decide : ¬ DocumentState.linked < .scoped)
  exports _ eq _ := Option.some.inj eq ▸ hexports
  locals _ eq _ := Option.some.inj eq ▸ hlocals
  diagnostics _ _ := nofun

/-- The facts about a tree do not change while it is linked or unlinked. -/
theorem relinked {p : Progress} (h : Faithful l o uri text p) {result result' : ParseResult}
    (before : p.result? = some result) (state : .scoped ≤ p.state)
    (same : result'.unlink = result.unlink) :
    result'.unlink = l.parse text ∧ Yields (l.exports result'.ast uri) p.exports ∧
      Yields (l.localScopes result'.ast uri) p.locals := by
  have trees : result'.ast.unlink = result.ast.unlink := congrArg ParseResult.ast same
  have indexed : DocumentState.indexed ≤ p.state := Nat.le_trans (by decide) state
  refine ⟨same.trans (h.parsed result before), ?_, ?_⟩
  · rw [exports_congr trees]
    exact h.exports result before indexed
  · rw [localScopes_congr trees]
    exact h.locals result before state

theorem unlink_unlink (result : ParseResult) : result.unlink.unlink = result.unlink := by
  unfold ParseResult.unlink
  rw [Ast.unlink_unlink]

theorem unlink {p : Progress} (h : Faithful l o uri text p) : Faithful l o uri text p.unlink := by
  cases p with
  | linked result exports locals =>
    obtain ⟨parsed, hexports, hlocals⟩ :=
      h.relinked rfl (by decide : DocumentState.scoped ≤ .linked) (unlink_unlink result)
    exact of_scoped parsed hexports hlocals
  | validated result exports locals diagnostics =>
    obtain ⟨parsed, hexports, hlocals⟩ :=
      h.relinked rfl (by decide : DocumentState.scoped ≤ .validated) (unlink_unlink result)
    exact of_scoped parsed hexports hlocals
  | _ => exact h

/-- A phase makes of the products of a text the next product of that text. -/
theorem moves {w : Workspace} (language : w.language = l) {phase : Phase} {p p' : Progress}
    {visit : Workspace.Visit} (h : Faithful l o uri text p)
    (moved : w.Moves o uri text phase p p' visit) : Faithful l o uri text p' := by
  subst language
  cases moved with
  | parse =>
    refine ⟨fun _ eq => ?_, fun _ eq _ => (Option.some.inj eq).symm, fun _ _ below => ?_,
      fun _ _ below => ?_, fun _ _ => nofun⟩
    · cases eq
      exact unlink_parse text
    · exact absurd below (by decide : ¬ DocumentState.indexed ≤ .parsed)
    · exact absurd below (by decide : ¬ DocumentState.scoped ≤ .parsed)
  | index yields =>
    refine ⟨h.parsed, fun _ eq _ => h.unlinked _ eq (by decide : DocumentState.parsed < .scoped),
      fun _ eq _ => ?_,
      fun _ _ below => ?_, fun _ _ => nofun⟩
    · cases eq
      exact yields
    · exact absurd below (by decide : ¬ DocumentState.scoped ≤ .indexed)
  | scope yields =>
    exact of_scoped (h.parsed _ rfl)
      (h.exports _ rfl (by decide : DocumentState.indexed ≤ .indexed)) yields
  | @link result exports locals =>
    have same : ParseResult.unlink { result with
        ast := resolveAll { locals, exported := w.exported } result.ast.unlink } = result.unlink := by
      unfold ParseResult.unlink
      rw [unlink_resolveAll, Ast.unlink_unlink]
    obtain ⟨parsed, hexports, hlocals⟩ :=
      h.relinked rfl (by decide : DocumentState.scoped ≤ .scoped) same
    exact of_linked parsed hexports hlocals
  | @linkStopped result exports locals a same =>
    have same : ParseResult.unlink { result with ast := a } = result.unlink := by
      unfold ParseResult.unlink
      rw [same]
    obtain ⟨parsed, hexports, hlocals⟩ :=
      h.relinked rfl (by decide : DocumentState.scoped ≤ .scoped) same
    exact of_scoped parsed hexports hlocals
  | validate yields =>
    refine ⟨h.parsed, fun _ _ below => ?_, fun _ eq _ => h.exports _ eq ?_,
      fun _ eq _ => h.locals _ eq ?_, fun _ eq _ => ?_⟩
    · exact absurd below (by decide : ¬ DocumentState.validated < .scoped)
    · exact (by decide : DocumentState.indexed ≤ .linked)
    · exact (by decide : DocumentState.scoped ≤ .linked)
    · cases eq
      exact yields
  | stopped => exact h

end Progress.Faithful

/-! ### Workspaces -/

/-- What holds of a workspace of a language under some options at all times. -/
structure Workspace.Sound (l : Language) (o : ValidationOptions) (w : Workspace) : Prop where
  language : w.language = l
  options : w.options = o
  faithful : ∀ uri d, w.documents.get? uri = some d → d.progress.Faithful l o uri d.text
  index : ∀ uri, w.index.get? uri = (w.documents.get? uri).bind Document.indexed?
  settled : ∀ uri d, w.documents.get? uri = some d → d.progress.Settled w.index
  /-- As long as some document is not indexed, all references of linked documents have targets. -/
  targets : (∃ uri d, w.documents.get? uri = some d ∧ d.state < .indexed) →
    ∀ uri d, w.documents.get? uri = some d → .linked ≤ d.state → d.hasUnresolved = false

/-- What is left of that when the documents `touched` have changed in any way. -/
structure Workspace.SoundOutside (l : Language) (o : ValidationOptions) (w : Workspace)
    (touched : List DocumentUri) : Prop where
  language : w.language = l
  options : w.options = o
  faithful : ∀ uri d, uri ∉ touched → w.documents.get? uri = some d →
    d.progress.Faithful l o uri d.text
  index : ∀ uri, uri ∉ touched → w.index.get? uri = (w.documents.get? uri).bind Document.indexed?
  settled : ∀ uri d, uri ∉ touched → w.documents.get? uri = some d → d.progress.Settled w.index

namespace Workspace

variable {l : Language} {o : ValidationOptions} {w : Workspace}

theorem Sound.opened : Sound l o { language := l, options := o } where
  language := rfl
  options := rfl
  faithful := nofun
  index _ := rfl
  settled := nofun
  targets _ := nofun

theorem Sound.outside (h : Sound l o w) (touched : List DocumentUri) :
    SoundOutside l o w touched where
  language := h.language
  options := h.options
  faithful uri d _ := h.faithful uri d
  index uri _ := h.index uri
  settled uri d _ := h.settled uri d

theorem SoundOutside.insert {uri : DocumentUri} (h : SoundOutside l o w [uri]) (d : Document) :
    SoundOutside l o { w with documents := w.documents.insert uri d } [uri] := by
  have elsewhere : ∀ k, k ∉ [uri] → (w.documents.insert uri d).get? k = w.documents.get? k := by
    intro k outside
    rw [UriMap.get?_insert, if_neg (by simpa using outside)]
  refine ⟨h.language, h.options, fun k e outside found => ?_, fun k outside => ?_,
    fun k e outside found => ?_⟩
  · exact h.faithful k e outside (elsewhere k outside ▸ found)
  · rw [elsewhere k outside]
    exact h.index k outside
  · exact h.settled k e outside (elsewhere k outside ▸ found)

/-- What an invalidation leaves of a document that it did not drop or reset. -/
theorem leftOf_eq_some {changed deleted : List DocumentUri} {uri : DocumentUri} {d e : Document}
    (h : leftOf changed deleted uri d = some e) :
    (uri ∈ changed ∧ e = d.reset) ∨
      uri ∉ changed ++ deleted ∧
        ((d.isAffectedBy (changed ++ deleted) = true ∧ e = d.unlink) ∨
          d.isAffectedBy (changed ++ deleted) = false ∧ e = d) := by
  unfold leftOf at h
  split at h
  · cases h
  · next kept =>
    split at h
    · next reset =>
      cases h
      exact .inl ⟨reset, rfl⟩
    · next notReset =>
      have outside : uri ∉ changed ++ deleted := by simp [notReset, kept]
      split at h
      · next hit =>
        cases h
        exact .inr ⟨outside, .inl ⟨hit, rfl⟩⟩
      · next unhit =>
        cases h
        exact .inr ⟨outside, .inr ⟨by simpa using unhit, rfl⟩⟩

/-- A linked document that an invalidation leaves is one that it did not affect. -/
theorem linked_left {changed deleted : List DocumentUri} (some_touched : changed ++ deleted ≠ [])
    {uri : DocumentUri} {e : Document}
    (found : (w.invalidate changed deleted).1.documents.get? uri = some e)
    (state : .linked ≤ e.state) :
    uri ∉ changed ++ deleted ∧ w.documents.get? uri = some e ∧
      e.isAffectedBy (changed ++ deleted) = false := by
  rw [w.get?_documents_invalidate changed deleted some_touched] at found
  obtain ⟨d, stored, left⟩ := Option.bind_eq_some_iff.1 found
  rcases leftOf_eq_some left with ⟨-, rfl⟩ | ⟨outside, ⟨-, rfl⟩ | ⟨unhit, rfl⟩⟩
  · exact absurd state (by decide : ¬ DocumentState.linked ≤ .changed)
  · exact absurd (Nat.le_trans state d.progress.state_unlink_le) (by decide)
  · exact ⟨outside, stored, unhit⟩

/-- What an invalidation leaves of a document has in the index what the document had, unless the
invalidation names it. -/
theorem indexed?_left {changed deleted : List DocumentUri} (uri : DocumentUri) (d : Document) :
    (leftOf changed deleted uri d).bind Document.indexed? =
      if uri ∈ changed ++ deleted then none else d.indexed? := by
  unfold leftOf
  by_cases gone : uri ∈ deleted
  · rw [if_pos gone, if_pos (List.mem_append_right _ gone)]
    rfl
  · by_cases reset : uri ∈ changed
    · rw [if_neg gone, if_pos reset, if_pos (List.mem_append_left _ reset)]
      rfl
    · have outside : uri ∉ changed ++ deleted := by simp [gone, reset]
      rw [if_neg gone, if_neg reset, if_neg outside]
      split
      · exact d.indexed?_unlink
      · rfl

/-- An invalidation makes a workspace sound again, whatever happened to the documents it names. -/
theorem SoundOutside.invalidate {changed deleted : List DocumentUri}
    (h : SoundOutside l o w (changed ++ deleted)) (some_touched : changed ++ deleted ≠ []) :
    Sound l o (w.invalidate changed deleted).1 := by
  have documents := w.get?_documents_invalidate changed deleted some_touched
  have index := w.get?_index_invalidate changed deleted
  refine ⟨h.language, h.options, fun uri e found => ?_, fun uri => ?_, fun uri e found => ?_,
    fun _ uri e found state => ?_⟩
  · rw [documents] at found
    obtain ⟨d, stored, left⟩ := Option.bind_eq_some_iff.1 found
    rcases leftOf_eq_some left with ⟨-, rfl⟩ | ⟨outside, ⟨-, rfl⟩ | ⟨-, rfl⟩⟩
    · exact .changed
    · exact (h.faithful uri d outside stored).unlink
    · exact h.faithful uri _ outside stored
  · rw [documents, index, Option.bind_assoc]
    simp only [indexed?_left]
    split
    · cases w.documents.get? uri <;> rfl
    · next outside => exact h.index uri outside
  · intro result eq state
    obtain ⟨outside, found, unhit⟩ := linked_left some_touched found state
    refine (h.settled uri e outside found result eq state).of_get? fun r mem placed x resolved => ?_
    have listed : r ∈ e.references := by
      rw [e.references_of_result eq, Ast.mem_map_snd_placed_iff]
      exact ⟨mem, placed⟩
    obtain ⟨d, rfl, away⟩ := e.isAffectedBy_eq_false (Nat.lt_of_succ_le state) unhit listed resolved
    exact ⟨d, rfl, fun ds exported => by rw [index, if_neg away, exported]⟩
  · obtain ⟨-, -, unhit⟩ := linked_left some_touched found state
    exact e.hasUnresolved_eq_false (Nat.lt_of_succ_le state) unhit

theorem Sound.invalidate (h : Sound l o w) (changed deleted : List DocumentUri) :
    Sound l o (w.invalidate changed deleted).1 := by
  by_cases touched : changed ++ deleted = []
  · obtain ⟨rfl, rfl⟩ := List.append_eq_nil_iff.1 touched
    rw [w.invalidate_nil]
    exact h
  · exact (h.outside _).invalidate touched

/-- What a document has in the index carries its address. -/
theorem Sound.addressed (h : Sound l o w) : Addressed w.index := by
  intro uri ds entry
  rw [h.index] at entry
  obtain ⟨d, found, indexed⟩ := Option.bind_eq_some_iff.1 entry
  unfold Document.indexed? at indexed
  split at indexed
  · next state =>
    cases indexed
    obtain ⟨result, eq⟩ := d.progress.exists_result (Nat.le_trans (by decide) state)
    have yields := (h.faithful uri d found).exports result eq state
    exact fun d mem => yields.of_ensures (l.scoping.uri_exports _ _) d mem
  · cases indexed

/-- A visit changes what is indexed of a document only where it indexes it. -/
theorem Moves.indexed? {options : ValidationOptions} {uri : DocumentUri} {phase : Phase}
    {d : Document} {progress : Progress} {visit : Visit}
    (h : w.Moves options uri d.text phase d.progress progress visit) :
    Document.indexed? { d with progress } =
      if phase = .index ∧ visit = .advanced then some progress.exports else d.indexed? := by
  obtain ⟨version, text, before⟩ := d
  dsimp only at h
  cases h with
  | stopped => simp
  | _ => rfl

/-- Outside of linking, a document that is linked after a visit was so before, with the same tree. -/
theorem Moves.linked_before {options : ValidationOptions} {uri : DocumentUri} {text : String}
    {phase : Phase} {p p' : Progress} {visit : Visit} (h : w.Moves options uri text phase p p' visit)
    (notLink : phase ≠ .link) (state : .linked ≤ p'.state) :
    .linked ≤ p.state ∧ p'.result? = p.result? ∧ p'.locals = p.locals := by
  cases h with
  | parse => exact absurd state (by decide : ¬ DocumentState.linked ≤ .parsed)
  | index => exact absurd state (by decide : ¬ DocumentState.linked ≤ .indexed)
  | scope => exact absurd state (by decide : ¬ DocumentState.linked ≤ .scoped)
  | link => exact absurd rfl notLink
  | linkStopped => exact absurd rfl notLink
  | validate => exact ⟨(by decide : DocumentState.linked ≤ .linked), rfl, rfl⟩
  | stopped => exact ⟨state, rfl, rfl⟩

theorem Moves.state_le {options : ValidationOptions} {uri : DocumentUri} {text : String}
    {phase : Phase} {p p' : Progress} {visit : Visit}
    (h : w.Moves options uri text phase p p' visit) : p.state ≤ p'.state := by
  cases h <;> exact Nat.le_of_ble_eq_true (by first | rfl | exact Nat.ble_self_eq_true _)

/-- A visit keeps a document settled, and linking settles it. -/
theorem Moves.settled {options : ValidationOptions} {uri : DocumentUri} {text : String}
    {phase : Phase} {p p' : Progress} {visit : Visit} (h : w.Moves options uri text phase p p' visit)
    (addressed : Addressed w.index) {index : UriMap (List Description)}
    (same : phase = .link → index = w.index) (settled : p.Settled index) : p'.Settled index := by
  intro result eq state
  by_cases link : phase = .link
  · cases same link
    cases h with
    | link =>
      cases eq
      exact settled_resolveAll addressed _ (Ast.unlinked_unlink _)
    | linkStopped => exact absurd state (by decide : ¬ DocumentState.linked ≤ .scoped)
    | stopped => exact settled result eq state
    | _ => cases link
  · obtain ⟨before, results, locals⟩ := h.linked_before link state
    rw [locals]
    exact settled result (results ▸ eq) before

section

variable {phase : Phase} {uri : DocumentUri} {d : Document} {progress : Progress} {visit : Visit}

/-- The index after a visit. -/
def indexAfter (w : Workspace) (phase : Phase) (uri : DocumentUri) (progress : Progress)
    (visit : Visit) : UriMap (List Description) :=
  if phase = .index ∧ visit = .advanced then w.index.insert uri progress.exports else w.index

/-- Documents that were settled stay so when a visit adds an entry to the index: it is added only while
no linked document has a reference without a target. -/
theorem Sound.settled_indexAfter (h : Sound l o w) (found : w.documents.get? uri = some d)
    (moves : w.Moves o uri d.text phase d.progress progress visit) {k : DocumentUri} {e : Document}
    (stored : w.documents.get? k = some e) :
    e.progress.Settled (w.indexAfter phase uri progress visit) := by
  unfold indexAfter
  split
  · next adds =>
    obtain ⟨rfl, rfl⟩ := adds
    have parsed : d.state = .parsed := moves.states.1
    have below : d.state < .indexed := by
      rw [parsed]
      decide
    have absent : w.index.get? uri = none := by
      rw [h.index, found, Option.bind_some, Document.indexed?, parsed]
      rfl
    intro result eq state
    have targets := h.targets ⟨uri, d, found, below⟩ k e stored state
    refine (h.settled k e stored result eq state).of_get? fun r mem placed x resolved => ?_
    have listed : r ∈ e.references := by
      rw [e.references_of_result eq, Ast.mem_map_snd_placed_iff]
      exact ⟨mem, placed⟩
    obtain ⟨target, rfl⟩ := e.resolved_of_hasUnresolved targets listed resolved
    refine ⟨target, rfl, fun ds exported => ?_⟩
    rw [UriMap.get?_insert, if_neg, exported]
    intro same
    rw [same, absent] at exported
    cases exported
  · exact h.settled k e stored

theorem Sound.index_indexAfter (h : Sound l o w) (found : w.documents.get? uri = some d)
    (moves : w.Moves o uri d.text phase d.progress progress visit) (k : DocumentUri) :
    (w.indexAfter phase uri progress visit).get? k =
      ((w.documents.insert uri { d with progress }).get? k).bind Document.indexed? := by
  unfold indexAfter
  rw [UriMap.get?_insert]
  by_cases same : k = uri
  · subst same
    rw [if_pos rfl, Option.bind_some, moves.indexed?]
    split
    · rw [UriMap.get?_insert, if_pos rfl]
    · rw [h.index, found, Option.bind_some]
  · rw [if_neg same]
    split
    · rw [UriMap.get?_insert, if_neg same, h.index]
    · rw [h.index]

/-- As long as some document is not indexed, nothing is linked, so no reference loses its target. -/
theorem Sound.targets_after (h : Sound l o w) (found : w.documents.get? uri = some d)
    (moves : w.Moves o uri d.text phase d.progress progress visit)
    (indexed : phase = .link → ∀ uri d, w.documents.get? uri = some d → .indexed ≤ d.state)
    (waiting : ∃ k e, (w.documents.insert uri { d with progress }).get? k = some e ∧
      e.state < .indexed) {k : DocumentUri} {e : Document}
    (stored : (w.documents.insert uri { d with progress }).get? k = some e)
    (state : .linked ≤ e.state) : e.hasUnresolved = false := by
  obtain ⟨k₀, e₀, stored₀, below⟩ := waiting
  rw [UriMap.get?_insert] at stored₀ stored
  -- a document that is not indexed now was not so before
  obtain ⟨k₁, e₁, stored₁, below₁⟩ : ∃ k e, w.documents.get? k = some e ∧ e.state < .indexed := by
    split at stored₀
    · cases stored₀
      exact ⟨uri, d, found, Nat.lt_of_le_of_lt moves.state_le below⟩
    · exact ⟨k₀, e₀, stored₀, below⟩
  have notLink : phase ≠ .link := fun link =>
    absurd below₁ (Nat.not_lt.2 (indexed link k₁ e₁ stored₁))
  have targets := h.targets ⟨k₁, e₁, stored₁, below₁⟩
  split at stored
  · cases stored
    obtain ⟨before, results, -⟩ := moves.linked_before notLink state
    have same : Document.references { d with progress } = d.references := by
      unfold Document.references
      rw [results]
    have before := targets uri d found before
    unfold Document.hasUnresolved at before ⊢
    rw [same]
    exact before
  · exact targets k e stored state

end

/-- A visit keeps a workspace sound, if no document is linked before all are indexed. -/
theorem Sound.visit (h : Sound l o w) {phase : Phase} {uri : DocumentUri} {token : Cancellation}
    {w' : Workspace} {visit : Visit} (visited : w.visit o phase uri token = (w', visit))
    (indexed : phase = .link → ∀ uri d, w.documents.get? uri = some d → .indexed ≤ d.state) :
    Sound l o w' := by
  rcases w.visit_cases visited with ⟨rfl, -⟩ | ⟨d, progress, found, moves, rfl⟩
  · exact h
  refine ⟨h.language, h.options, fun k e stored => ?_, h.index_indexAfter found moves,
    fun k e stored => ?_, fun waiting k e => h.targets_after found moves indexed waiting⟩
  · rw [UriMap.get?_insert] at stored
    split at stored
    · next same =>
      subst same
      cases stored
      exact (h.faithful k d found).moves h.language moves
    · exact h.faithful k e stored
  · rw [UriMap.get?_insert] at stored
    split at stored
    · cases stored
      refine moves.settled h.addressed (fun link => ?_) (h.settled_indexAfter found moves found)
      exact if_neg (by simp [link])
    · exact h.settled_indexAfter found moves stored

end Workspace

/-! ### Sites -/

namespace Site

/-- What holds of a site at all times. -/
structure Sound (l : Language) (o : ValidationOptions) (s : Site) : Prop where
  paced : s.Paced
  workspace : s.workspace.Sound l o

variable {l : Language} {o : ValidationOptions} {s : Site}

theorem Sound.step (h : s.Sound l o) {b : Build} (running : s.running = some b)
    {token : Cancellation} {w : Workspace} {outcome : BuildStep}
    (stepped : b.step s.workspace token = (w, outcome)) : w.Sound l o := by
  have paced := h.paced.running b running
  rcases Build.step_cases stepped with
    ⟨rfl, -⟩ | ⟨phase, agenda, -, rfl, -⟩ | ⟨phase, uri, agenda, visit, head, alive, visited, -⟩
  · exact h.workspace
  · exact h.workspace
  · rw [paced.options, h.workspace.options] at visited
    exact h.workspace.visit visited (paced.indexed_before_link alive head)

theorem Sound.act (h : s.Sound l o) (action : Action) : (s.act action).Sound l o := by
  refine ⟨h.paced.act action, ?_⟩
  have sound := h.workspace
  cases action with
  | apply uri change =>
    rw [Site.act]
    split
    · next w what applied =>
      obtain ⟨d, v, -, rfl, rfl, -⟩ := s.workspace.apply_cases applied
      have outside : Workspace.SoundOutside l o { s.workspace with fired := true } [uri] :=
        ⟨sound.language, sound.options, fun k e _ => sound.faithful k e, fun k _ => sound.index k,
          fun k e _ => sound.settled k e⟩
      exact (outside.insert d).invalidate (by simp)
    · exact sound
  | begin changed deleted =>
    rw [Site.act]
    split
    · next w what begun =>
      obtain ⟨v, rfl, rfl, -⟩ := s.workspace.begin_cases changed deleted begun
      have renewed : Workspace.Sound l o
          { s.workspace with generation := s.workspace.generation + 1, fired := false } :=
        ⟨sound.language, sound.options, sound.faithful, sound.index, sound.settled, sound.targets⟩
      exact renewed.invalidate changed deleted
    · exact sound
  | start generation =>
    rw [Site.act]
    split <;> exact sound
  | step token =>
    rw [Site.act]
    split
    · exact sound
    · next b running => exact h.step running rfl
  | abandon => exact sound
  | shutdown =>
    exact ⟨sound.language, sound.options, sound.faithful, sound.index, sound.settled, sound.targets⟩
  | reuse uri previous =>
    rw [Site.act]
    split <;> exact sound
  | report uri =>
    rw [Site.act]
    split
    · split <;> exact sound
    · exact sound

/-- Every run of a site is sound. -/
theorem sound_run (l : Language) (o : ValidationOptions) (actions : List Action) :
    ((opened l o).run actions).Sound l o := by
  refine run_induction ⟨⟨nofun, nofun⟩, .opened⟩ ?_ actions
  intro s action h
  exact h.act action

end Site

end Workbench
