import Workbench.Proofs.Linking.Resolution
import Workbench.Proofs.Workspace.Alone

/-!
**Own exports and those of others.**

An analysis is to look a reference up in the scopes around it, then among the exports of its own document,
and then among those of others. But own exports and others are asked together, and of all that fit the
smallest address wins. So a reference is led past the own exports exactly if no scope around it answers,
an own export fits, and so does one of a smaller address. By default the own exports stand in the scope of
the root, and then this happens only to references whose containers do not lead there.
-/

namespace Workbench

namespace Linking

open Cancellable

variable {a : Ast} {locals : LocalScopes} {own others : List Description} {r : Reference} {x : Resolution}
  {uri : DocumentUri} {d : Description}

/-- No scope around a reference has a description that fits. -/
def NotNear (a : Ast) (locals : LocalScopes) (r : Reference) : Prop :=
  ∀ k c, around a r k = some c → ∀ e ∈ locals.get c, ¬fits a.types r.text r.target e

/-- What a reference is to be resolved to: the nearest description in the scopes around it, or else one of the
own exports, or else the first one of the smallest address that others export. -/
inductive Documented (own others : List Description) (a : Ast) (locals : LocalScopes) (r : Reference) :
    Resolution → Prop
  | near {k : Nat} {c : NodeId} {d : Description} (container : around a r k = some c)
    (first : (locals.get c).find? (fits a.types r.text r.target) = some d)
    (nearest : ∀ j < k, ∀ b, around a r j = some b → ∀ e ∈ locals.get b, ¬fits a.types r.text r.target e) :
    Documented own others a locals r (.resolved d)
  | own {d : Description} (notNear : NotNear a locals r) (mem : d ∈ own)
    (answers : fits a.types r.text r.target d = true) : Documented own others a locals r (.resolved d)
  | others {d : Description} (notNear : NotNear a locals r)
    (notOwn : ∀ e ∈ own, ¬fits a.types r.text r.target e)
    (smallest : FirstSmallest (others.filter (fits a.types r.text r.target)) d) :
    Documented own others a locals r (.resolved d)
  | nowhere (notNear : NotNear a locals r) (notOwn : ∀ e ∈ own, ¬fits a.types r.text r.target e)
    (notOthers : ∀ e ∈ others, ¬fits a.types r.text r.target e) :
    Documented own others a locals r (.unresolved (unresolvedMessage a.types r))

/-- An own export fits, and no scope around the reference has one that does, but others export one that fits
and has a smaller address. -/
structure Preempted (own others : List Description) (a : Ast) (locals : LocalScopes) (r : Reference)
    (uri : DocumentUri) : Prop where
  notNear : NotNear a locals r
  own : ∃ d ∈ own, fits a.types r.text r.target d = true
  others : ∃ e ∈ others, fits a.types r.text r.target e = true ∧ e.uri < uri

/-! ### The smallest address -/

theorem FirstSmallest.mem {l : List Description} (h : FirstSmallest l d) : d ∈ l :=
  (List.mem_filter.1 (List.mem_of_head? h.first)).1

/-- Where an address is the only one of the first descriptions, these win unless a later one is smaller. -/
theorem FirstSmallest.mem_front {l m : List Description} (h : FirstSmallest (l ++ m) d)
    (addressed : ∀ e ∈ l, e.uri = uri) (some : l ≠ []) (least : ∀ e ∈ m, ¬e.uri < uri) : d ∈ l := by
  obtain ⟨e, rest, rfl⟩ := List.exists_cons_of_ne_nil some
  have same : d.uri = uri := by
    have notLess := h.smallest e (by simp)
    rw [addressed e List.mem_cons_self] at notLess
    rcases List.mem_append.1 h.mem with front | back
    · exact addressed d front
    · exact String.le_antisymm (String.not_lt.1 notLess) (String.not_lt.1 (least d back))
  have first := h.first
  rw [List.filter_append, same, List.filter_cons_of_pos (by simpa using addressed e List.mem_cons_self)] at first
  cases first
  exact List.mem_cons_self

theorem FirstSmallest.back {l m : List Description} (h : FirstSmallest (l ++ m) d)
    (addressed : ∀ e ∈ l, e.uri = uri) {e : Description} (mem : e ∈ m) (less : e.uri < uri) :
    FirstSmallest m d ∧ d.uri < uri := by
  have below : d.uri < uri :=
    Std.lt_of_le_of_lt (String.not_lt.1 (h.smallest e (List.mem_append_right _ mem))) less
  have none : l.filter (·.uri = d.uri) = [] := by
    refine List.filter_eq_nil_iff.2 fun f front same => ?_
    have same : f.uri = d.uri := by simpa using same
    rw [← same, addressed f front] at below
    exact String.lt_irrefl _ below
  have first := h.first
  rw [List.filter_append, none, List.nil_append] at first
  exact ⟨⟨first, fun f back => h.smallest f (List.mem_append_right _ back)⟩, below⟩

/-! ### The order of the scopes -/

theorem filter_named (own : List Description) (types : TypeHierarchy) (name : String) (target : TypeId) :
    (named own name).filter (fits types name target) = own.filter (fits types name target) := by
  rw [named, List.filter_filter]
  refine List.filter_congr fun d _ => ?_
  unfold fits
  cases d.name == name <;> simp

/-- A reference that is led past the own exports is not to be resolved to what it finds there. -/
theorem Preempted.not_documented (h : Preempted own others a locals r uri)
    (addressed : ∀ e ∈ own, e.uri = uri) (below : d.uri < uri) :
    ¬Documented own others a locals r (.resolved d) := by
  intro documented
  obtain ⟨e, isOwn, answers⟩ := h.own
  cases documented with
  | near container first _ =>
    exact h.notNear _ _ container d (List.mem_of_find?_eq_some first) (List.find?_some first)
  | own _ mem _ => exact String.lt_irrefl _ (addressed d mem ▸ below)
  | others _ notOwn _ => exact notOwn e isOwn answers

/-- Otherwise the smallest address among own exports and others is the own one, or there is no own export that
fits. -/
theorem documented_of_smallest (notNear : NotNear a locals r)
    (addressed : ∀ e ∈ own, e.uri = uri) (notPreempted : ¬Preempted own others a locals r uri)
    (smallest : FirstSmallest (own.filter (fits a.types r.text r.target) ++
      others.filter (fits a.types r.text r.target)) d) : Documented own others a locals r (.resolved d) := by
  by_cases some : own.filter (fits a.types r.text r.target) = []
  · rw [some, List.nil_append] at smallest
    exact .others notNear (List.filter_eq_nil_iff.1 some) smallest
  · have least : ∀ e ∈ others.filter (fits a.types r.text r.target), ¬e.uri < uri := by
      intro e mem less
      obtain ⟨f, first⟩ := List.exists_mem_of_ne_nil _ some
      obtain ⟨mem, answers⟩ := List.mem_filter.1 mem
      exact notPreempted ⟨notNear, ⟨f, List.mem_filter.1 first⟩, e, mem, answers, less⟩
    have front := smallest.mem_front (fun e mem => addressed e (List.mem_filter.1 mem).1) some least
    obtain ⟨mem, answers⟩ := List.mem_filter.1 front
    exact .own notNear mem answers

/-- What a reference is resolved to among own exports and others is what it is to be resolved to, unless it is
led past the own exports. -/
theorem documented_resolve (enclosed : Enclosed a r) (addressed : ∀ e ∈ own, e.uri = uri)
    (locals : LocalScopes) (exported : String → List Description) :
    (Documented own (exported r.text) a locals r
      (resolve a r ⟨locals, fun name => named own name ++ exported name⟩) ↔
        ¬Preempted own (exported r.text) a locals r uri) ∧
      (Preempted own (exported r.text) a locals r uri →
        ∃ d, resolve a r ⟨locals, fun name => named own name ++ exported name⟩ = .resolved d ∧
          FirstSmallest ((exported r.text).filter (fits a.types r.text r.target)) d ∧ d.uri < uri) := by
  unfold resolve
  cases near : nearest? a r locals with
  | some d =>
    obtain ⟨k, c, container, first, nearest⟩ := nearest?_eq_some enclosed near
    have notPreempted : ¬Preempted own (exported r.text) a locals r uri := fun preempted =>
      preempted.notNear k c container d (List.mem_of_find?_eq_some first) (List.find?_some first)
    exact ⟨iff_of_true (.near container first nearest) notPreempted, fun h => absurd h notPreempted⟩
  | none =>
    have notNear : NotNear a locals r := nearest?_eq_none enclosed near
    have listed : ((named own r.text ++ exported r.text).filter (fits a.types r.text r.target)) =
        own.filter (fits a.types r.text r.target) ++
          (exported r.text).filter (fits a.types r.text r.target) := by
      rw [List.filter_append, filter_named]
    dsimp only
    rw [listed]
    cases found : smallest (own.filter (fits a.types r.text r.target) ++
      (exported r.text).filter (fits a.types r.text r.target)) with
    | none =>
      have nothing := smallest_eq_none_iff.1 found
      have notOwn : ∀ e ∈ own, ¬fits a.types r.text r.target e :=
        List.filter_eq_nil_iff.1 (List.append_eq_nil_iff.1 nothing).1
      have notOthers : ∀ e ∈ exported r.text, ¬fits a.types r.text r.target e :=
        List.filter_eq_nil_iff.1 (List.append_eq_nil_iff.1 nothing).2
      have notPreempted : ¬Preempted own (exported r.text) a locals r uri := by
        rintro ⟨-, ⟨e, mem, answers⟩, -⟩
        exact notOwn e mem answers
      exact ⟨iff_of_true (.nowhere notNear notOwn notOthers) notPreempted, fun h => absurd h notPreempted⟩
    | some d =>
      have smallest := smallest_eq_some_iff.1 found
      by_cases preempted : Preempted own (exported r.text) a locals r uri
      · obtain ⟨e, mem, answers, less⟩ := preempted.others
        obtain ⟨among, below⟩ := smallest.back (fun e mem => addressed e (List.mem_filter.1 mem).1)
          (List.mem_filter.2 ⟨mem, answers⟩) less
        exact ⟨iff_of_false (preempted.not_documented addressed below) (not_not_intro preempted),
          fun _ => ⟨d, rfl, among, below⟩⟩
      · exact ⟨iff_of_true (documented_of_smallest notNear addressed preempted smallest) preempted,
          fun h => absurd h preempted⟩

/-! ### Analyses -/

/-- By default the own exports are in the scope of the root. -/
theorem Preempted.around_ne_root (rooted : a.Rooted)
    (isOwn : Yields (Scope.directExports a uri) own) (inScope : Yields (Scope.directLocal a uri) locals)
    (h : Preempted own others a locals r uri) (k : Nat) : around a r k ≠ some a.root := by
  intro isRoot
  obtain ⟨d, mem, answers⟩ := h.own
  obtain rfl := isOwn.of_ensures (Scope.ensures_directExports_eq a uri)
  obtain rfl := inScope.of_ensures (Scope.ensures_directLocal_eq a uri)
  refine h.notNear k a.root isRoot d ?_ answers
  rwa [Scope.get_localEntries a uri rooted .root]

/-- An analysis resolves a reference to what it is to be resolved to, unless it is led past the own exports. -/
theorem documented_outcome {l : Language} {text : String} {exported : String → List Description}
    {o : ValidationOptions} {found : Analysis} (outcome : l.Outcome uri text exported o found) {i : RefId}
    (mem : (i, r) ∈ (l.parse text).ast.placed) :
    ∃ y, found.parsed.ast.reference? i = some { r with resolution := some y } ∧
      (Documented found.exports (exported r.text) (l.parse text).ast found.locals r y ↔
        ¬Preempted found.exports (exported r.text) (l.parse text).ast found.locals r uri) ∧
      (Preempted found.exports (exported r.text) (l.parse text).ast found.locals r uri →
        ∃ d, y = .resolved d ∧ d.uri < uri ∧
          FirstSmallest ((exported r.text).filter (fits (l.parse text).ast.types r.text r.target)) d) := by
  obtain ⟨known, placed⟩ := (Ast.mem_placed_iff _ i r).1 mem
  have enclosed : Enclosed (l.parse text).ast r :=
    enclosed_of_wellFormed (l.parser.wellFormed_parse _) (Array.mem_of_getElem? known)
  have isOwn : Yields (l.exports (l.parse text).ast uri) (l.exportsOf uri text) :=
    ⟨_, l.exports_never uri text⟩
  have addressed : ∀ e ∈ l.exportsOf uri text, e.uri = uri := fun e mem =>
    isOwn.of_ensures (l.scoping.uri_exports _ uri) e mem
  obtain ⟨documented, preempted⟩ := documented_resolve enclosed addressed found.locals exported
  rw [outcome.exports]
  refine ⟨_, ?_, documented, fun h => ?_⟩
  · rw [outcome.tree]
    exact reference?_resolveAll _ known placed
  · obtain ⟨d, same, smallest, less⟩ := preempted h
    exact ⟨d, same, less, smallest⟩

/-- **An analysis resolves references in the documented order, unless others export a description of a smaller
address**: then that one wins over the own exports. By default this happens only to references whose
containers do not lead to the root. -/
theorem precedence_analyze (l : Language) (uri : DocumentUri) (text : String)
    (exported : String → List Description) (o : ValidationOptions) :
    (l.registry.Quiet → Ends (l.analyze uri text exported o)) ∧
    Ensures (l.analyze uri text exported o) fun x => ∀ i r, (i, r) ∈ (l.parse text).ast.placed →
      ∃ y, x.parsed.ast.reference? i = some { r with resolution := some y } ∧
        (Documented x.exports (exported r.text) (l.parse text).ast x.locals r y ↔
          ¬Preempted x.exports (exported r.text) (l.parse text).ast x.locals r uri) ∧
        (Preempted x.exports (exported r.text) (l.parse text).ast x.locals r uri →
          (∃ d, y = .resolved d ∧ d.uri < uri ∧
            FirstSmallest ((exported r.text).filter (fits (l.parse text).ast.types r.text r.target)) d) ∧
          (l.scoping = .direct → ∀ k, around (l.parse text).ast r k ≠ some (l.parse text).ast.root)) := by
  refine ⟨fun quiet => l.ends_analyze quiet uri text exported o, fun token x rest ok i r mem => ?_⟩
  have outcome := l.ensures_analyze uri text exported o token x rest ok
  obtain ⟨y, linked, documented, preempted⟩ := documented_outcome outcome mem
  refine ⟨y, linked, documented, fun h => ⟨preempted h, fun direct => ?_⟩⟩
  have isOwn : Yields (Scope.directExports (l.parse text).ast uri) x.exports := by
    have isOwn : Yields (l.exports (l.parse text).ast uri) (l.exportsOf uri text) :=
      ⟨_, l.exports_never uri text⟩
    unfold Language.exports at isOwn
    rwa [direct, ← outcome.exports] at isOwn
  have inScope : Yields (Scope.directLocal (l.parse text).ast uri) x.locals := by
    have inScope := outcome.locals
    unfold Language.localScopes at inScope
    rwa [direct] at inScope
  exact h.around_ne_root (l.parser.rooted_parse _) isOwn inScope

/-! ### A lost container -/

/-- The types of shelves. -/
def shelfTypes : TypeHierarchy :=
  (TypeHierarchy.build [⟨"Model", [], [("items", .array), ("last", .value)]⟩,
    ⟨"Item", [], [("name", .value)]⟩, ⟨"Use", [], [("target", .value)]⟩]).toOption.get (by decide +kernel)

/-- Items are kept, and of the uses only the last one. -/
def shelfBody : Element :=
  .repetition .zeroOrMore (.alternatives
    [.assign "items" .append (.call 1), .assign "last" .set (.call 2)])

/-- The grammar of shelves. -/
def shelfGrammar : Grammar where
  name := "Shelf"
  types := shelfTypes
  rules := #[
    ⟨"Model", .parser (some 0), shelfBody⟩,
    ⟨"Item", .parser (some 1), .group [.keyword "item", .assign "name" .set (.call 3)]⟩,
    ⟨"Use", .parser (some 2), .group [.keyword "use", .assign "target" .set (.crossRef 1 3)]⟩,
    ⟨"ID", .terminal .identifier .id, .group []⟩]
  entry := 0
  entryRule := ⟨"Model", .parser (some 0), shelfBody⟩
  entryType := 0
  entry_eq := rfl
  entry_kind := rfl
  faultless := by decide +kernel

/-- A language with the default scopes. -/
def shelf : Language where
  id := "shelf"
  extensions := []
  lexer := Lexer.tokenize shelfGrammar.keywords
  parser :=
    { grammar := shelfGrammar
      limits := {}
      lookahead := .of shelfGrammar
      lookahead_eq := rfl
      not_leftRecursive := by decide +kernel }
  scoping := .direct
  registry := .empty shelfTypes

/-- Two uses of an item. The first one is left without a container by the second one. -/
def usedTwice : String := "item X use X use X"

/-- An item of the same name in a document of a smaller address. -/
def itemBefore : Description := ⟨"X", 1, "file:///a.shelf", 1, none⟩

/-- The first use leads to the other document, though the item is exported by its own. -/
theorem precedence_analyze_usedTwice :
    ∃ x rest r, shelf.analyze "file:///b.shelf" usedTwice (named [itemBefore]) {} .never = .ok (x, rest) ∧
      (0, r) ∈ (shelf.parse usedTwice).ast.placed ∧
      x.parsed.ast.reference? 0 = some { r with resolution := some (.resolved itemBefore) } ∧
      Preempted x.exports (named [itemBefore] r.text) (shelf.parse usedTwice).ast x.locals r
        "file:///b.shelf" ∧
      ¬Documented x.exports (named [itemBefore] r.text) (shelf.parse usedTwice).ast x.locals r
        (.resolved itemBefore) := by
  obtain ⟨ends, ensured⟩ := precedence_analyze shelf "file:///b.shelf" usedTwice (named [itemBefore]) {}
  obtain ⟨x, ok⟩ := ends nofun
  have first : (shelf.parse usedTwice).ast.references[0]?.map (fun r => (r.text, r.target, r.place.isSome)) =
      some ("X", 1, true) := by decide +kernel
  obtain ⟨r, known, reads⟩ := Option.map_eq_some_iff.1 first
  obtain ⟨text, reads⟩ := Prod.mk.inj reads
  obtain ⟨target, placed⟩ := Prod.mk.inj reads
  have mem : (0, r) ∈ (shelf.parse usedTwice).ast.placed := (Ast.mem_placed_iff _ 0 r).2 ⟨known, placed⟩
  obtain ⟨y, linked, documented, -⟩ := ensured .never x _ ok 0 r mem
  have found : (shelf.analyze "file:///b.shelf" usedTwice (named [itemBefore]) {} .never).toOption.map
      (fun (x, _) => ((x.parsed.ast.reference? 0).map Reference.resolution,
        x.exports.any (fits shelfTypes "X" 1),
        (x.exports ++ x.locals.entries.map Prod.snd).contains itemBefore)) =
      some (some (some (.resolved itemBefore)), true, false) := by decide +kernel
  rw [ok] at found
  obtain ⟨resolution, found⟩ := Prod.mk.inj (Option.some.inj found)
  obtain ⟨answered, absent⟩ := Prod.mk.inj found
  rw [linked] at resolution
  obtain rfl : y = .resolved itemBefore := Option.some.inj (Option.some.inj resolution)
  obtain ⟨own, isOwn, answers⟩ := List.any_eq_true.1 answered
  have absent : itemBefore ∉ x.exports ++ x.locals.entries.map Prod.snd := fun mem =>
    Bool.false_ne_true (absent.symm.trans (List.contains_iff_mem.2 mem))
  have undocumented : ¬Documented x.exports (named [itemBefore] r.text) (shelf.parse usedTwice).ast x.locals r
      (.resolved itemBefore) := by
    intro documented
    cases documented with
    | near _ first _ =>
      obtain ⟨⟨c, d⟩, mem, eq⟩ := List.mem_filterMap.1 (List.mem_of_find?_eq_some first)
      dsimp only at eq
      split at eq
      · cases eq
        exact absent (List.mem_append_right _ (List.mem_map_of_mem mem))
      · cases eq
    | own _ mem _ => exact absent (List.mem_append_left _ mem)
    | others _ notOwn _ =>
      refine notOwn own isOwn ?_
      rw [text, target]
      exact answers
  exact ⟨x, _, r, ok, mem, linked, not_not.1 fun not => undocumented (documented.2 not), undocumented⟩

end Linking

end Workbench
