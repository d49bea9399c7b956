import Workbench.Proofs.DomainModel.Spelling
import Workbench.Proofs.Lexer
import Workbench.Proofs.Workspace.Documents
import Workbench.Server

/-!
**Where definitions stand.**

The definition of a reference is shown where the name of the declaration stands in the text as it is
now. Three facts meet: no resolution is stale, so the target was described from the current text of its
document; the description of a declaration knows the token of its name; and a token stands in its text
where its offset says.
-/

namespace Workbench

open Cancellable DomainModel

/-! ### Parts of a text and of a name -/

namespace Text

/-- `part` is what stands in a text between the ends of a byte range. -/
def Spans (cs : List Char) (range : TextRange) (part : List Char) : Prop :=
  ∃ before after, cs = before ++ part ++ after ∧ range.start = byteLength before ∧
    range.stop = byteLength (before ++ part)

/-- What follows the last point of a name; all of it if there is none. -/
def lastSegment (name : String) : String :=
  String.ofList (name.toList.reverse.takeWhile (· != '.')).reverse

theorem lastSegment_append (front : List Char) {name : List Char} (simple : '.' ∉ name)
    (ends : front = [] ∨ front.getLast? = some '.') :
    lastSegment (String.ofList (front ++ name)) = String.ofList name := by
  have whole : ∀ c ∈ name.reverse, (c != '.') = true := by
    intro c mem
    simp only [bne_iff_ne, ne_eq]
    rintro rfl
    exact simple (List.mem_reverse.1 mem)
  unfold lastSegment
  rw [String.toList_ofList, List.reverse_append, List.takeWhile_append_of_pos whole]
  have stop : front.reverse.takeWhile (· != '.') = [] := by
    rcases ends with rfl | last
    · rfl
    · rw [List.getLast?_eq_head?_reverse] at last
      cases reversed : front.reverse with
      | nil => rfl
      | cons c rest =>
        rw [reversed] at last
        cases last
        rfl
  rw [stop, List.append_nil, List.reverse_reverse]

theorem lastSegment_qualify (package : String) {name : String} (simple : '.' ∉ name.toList) :
    lastSegment (Scope.qualify package name) = name := by
  unfold Scope.qualify
  split
  · simpa using lastSegment_append [] simple (.inl rfl)
  · have pointed := lastSegment_append (package.toList ++ ['.']) simple (.inr (by simp))
    simpa [String.append_assoc] using pointed

theorem not_mem_stripCaret {image : String} (h : '.' ∉ image.toList) :
    '.' ∉ (stripCaret image).toList := by
  unfold stripCaret
  split
  · next rest eq =>
    rw [eq] at h
    rw [String.toList_ofList]
    exact fun mem => h (List.mem_cons_of_mem _ mem)
  · exact h

end Text

/-! ### Descriptions of declarations -/

namespace DomainModel

/-- A type below one that a reference may ask for is a declaration. -/
theorem isDeclaration_of_isSubtype {type target : TypeId} (below : types.isSubtype type target = true)
    (asked : types.isSubtype target typeType = true) : isDeclaration type = true := by
  have trans : ∀ a < 10, ∀ b < 10, types.isSubtype a b = true → types.isSubtype b typeType = true →
      types.isSubtype a typeType = true := by decide +kernel
  exact trans type (lt_of_isSubtype below) target (lt_of_isSubtype asked) below asked

/-- The name of a declaration stands in its text where its description says. -/
theorem spans_of_describes {a : Ast} {keywords : List String} {text : String}
    (spelled : ∀ (id : NodeId) (n : AstNode), a.nodes[id]? = some n →
      Spelled (Lexer.tokenize keywords text).tokens n)
    {uri : DocumentUri} {d : Description} (described : a.Describes uri d)
    (declared : isDeclaration d.type = true) :
    ∃ range part, d.nameRange = some range ∧ Text.Spans text.toList range part ∧
      Text.stripCaret (String.ofList part) = Text.lastSegment d.name := by
  obtain ⟨id, name, package, named, described⟩ := described
  obtain ⟨node, found, rfl⟩ := Option.map_eq_some_iff.1 described
  -- the name is the text of one token
  obtain ⟨node', found', named⟩ := Option.bind_eq_some_iff.1 named
  cases found.symm.trans found'
  obtain ⟨value, present, textual⟩ := Option.bind_eq_some_iff.1 named
  obtain ⟨source, sourced, token, mem, kind, rfl, head⟩ := spelled id node found declared value present
  cases textual
  obtain ⟨before, after, split, offset⟩ := Lexer.mem_tokenize mem
  refine ⟨token.range, token.image.toList, ?_, ⟨before, after, split, offset, ?_⟩, ?_⟩
  · have first : (source.assignedTo "name")[0]? = some (.leaf token (some "name")) := by
      rw [← List.head?_eq_getElem?, head]
    have range : a.propertyRange? id "name" none = some token.range := by
      unfold Ast.propertyRange? AstNode.propertyRange?
      rw [found]
      simp [sourced, first, SourceTree.range]
    unfold Ast.nameRange?
    rw [range]
    rfl
  · have size := Lexer.utf8ByteSize_ofList token.image.toList
    rw [String.ofList_toList] at size
    simp [Token.range, Token.stop, Lexer.byteLength_append, offset, size]
  · have simple := Lexer.not_mem_image_of_identifier mem kind
    rw [String.ofList_toList, Text.lastSegment_qualify _ (Text.not_mem_stripCaret simple)]

end DomainModel

/-! ### Definitions in a workspace -/

namespace Server

/-- The reference at a position of a linked document. -/
def referenceAt? (w : Workspace) (uri : DocumentUri) (p : Text.Position) : Option Reference := do
  let d ← w.documents.get? uri
  if d.state < .linked then none
  let result ← d.progress.result?
  let id ← result.ast.referenceAt? (Text.offsetOf d.text.toList p)
  result.ast.reference? id

theorem targetAt?_eq (w : Workspace) (uri : DocumentUri) (p : Text.Position) :
    targetAt? w uri p = (referenceAt? w uri p).bind Reference.target? := by
  unfold targetAt? referenceAt?
  cases w.documents.get? uri with
  | none => rfl
  | some d =>
    simp only [Option.bind_eq_bind, Option.bind_some]
    split
    · rfl
    · cases d.progress.result? with
      | none => rfl
      | some result =>
        simp only [Option.bind_some]
        cases result.ast.referenceAt? (Text.offsetOf d.text.toList p) with
        | none => rfl
        | some id => rfl

/-- A reference at a position is one of the references of a linked document. -/
theorem mem_of_referenceAt? {w : Workspace} {uri : DocumentUri} {p : Text.Position} {r : Reference}
    (h : referenceAt? w uri p = some r) :
    ∃ d, w.documents.get? uri = some d ∧ .linked ≤ d.state ∧ r ∈ d.references := by
  obtain ⟨d, found, h⟩ := Option.bind_eq_some_iff.1 h
  dsimp only at h
  split at h
  · cases h
  next linked =>
  obtain ⟨result, eq, h⟩ := Option.bind_eq_some_iff.1 h
  obtain ⟨id, hit, h⟩ := Option.bind_eq_some_iff.1 h
  obtain ⟨entry, first, rfl⟩ := Option.map_eq_some_iff.1 hit
  have listed := List.mem_of_find?_eq_some first
  obtain ⟨same, -⟩ := (result.ast.mem_placed_iff entry.1 entry.2).1 listed
  cases same.symm.trans h
  refine ⟨d, found, Nat.le_of_not_lt linked, ?_⟩
  rw [d.references_of_result eq]
  exact List.mem_map_of_mem listed

end Server

namespace Workspace.Sound

variable {limits : Limits} {o : ValidationOptions} {w : Workspace}

theorem tree (h : w.Sound (languageWith limits) o) {uri : DocumentUri} {d : Document}
    (found : w.documents.get? uri = some d) {result : ParseResult}
    (eq : d.progress.result? = some result) :
    result.ast.unlink = ((parser limits).parse ((parser limits).tokenize d.text)).ast := by
  have parsed := (h.faithful uri d found).parsed result eq
  rw [Language.parse] at parsed
  exact congrArg ParseResult.ast parsed

/-- What a document of domain models describes stands in its text. -/
theorem spans (h : w.Sound (languageWith limits) o) {uri : DocumentUri} {d : Document}
    (found : w.documents.get? uri = some d) {result : ParseResult}
    (eq : d.progress.result? = some result) {target : Description}
    (described : result.ast.unlink.Describes uri target)
    (declared : isDeclaration target.type = true) :
    ∃ range part, target.nameRange = some range ∧ Text.Spans d.text.toList range part ∧
      Text.stripCaret (String.ofList part) = Text.lastSegment target.name := by
  have spelled := (spelled_parse limits ((parser limits).tokenize d.text)).1
  rw [h.tree found eq] at described
  exact spans_of_describes spelled described declared

/-- A target that is vouched for is described by the document at its address. -/
theorem describes (h : w.Sound (languageWith limits) o) {uri : DocumentUri} {d : Document}
    (found : w.documents.get? uri = some d) {result : ParseResult}
    (eq : d.progress.result? = some result) (state : .linked ≤ d.state) {r : Reference}
    {target : Description} (vouched : w.Vouches result.ast d.progress.locals r (.resolved target)) :
    ∃ e result', w.documents.get? target.uri = some e ∧ e.progress.result? = some result' ∧
      result'.ast.unlink.Describes target.uri target := by
  obtain ⟨-, ⟨container, -, within⟩ | ⟨-, ds, exported, mem⟩⟩ := vouched
  · -- a local target is in the document itself
    have yields := (h.faithful uri d found).locals result eq (Nat.le_trans (by decide) state)
    rw [Language.localScopes, ← Scope.Scoping.localScopes_unlink] at yields
    obtain ⟨⟨c, d'⟩, listed, here⟩ := List.mem_filterMap.1 within
    have described : result.ast.unlink.Describes uri target := by
      have all := yields.of_ensures (Scope.ensures_qualifiedLocal _ uri) (c, d') listed
      dsimp only at here
      split at here
      · cases here
        exact all
      · cases here
    rw [described.uri]
    exact ⟨d, result, found, eq, described⟩
  · obtain ⟨e, stored, indexed, rfl⟩ := (h.get?_index_eq_some_iff target.uri ds).1 exported
    obtain ⟨result', eq'⟩ := e.progress.exists_result (Nat.le_trans (by decide) indexed)
    have yields := (h.faithful target.uri e stored).exports result' eq' indexed
    rw [Language.exports, ← Scope.Scoping.exports_unlink] at yields
    exact ⟨e, result', stored, eq', yields.of_ensures (Scope.ensures_qualifiedExports _ _) target mem⟩

/-- The references of a document ask for types. -/
theorem asks_type (h : w.Sound (languageWith limits) o) {uri : DocumentUri} {d : Document}
    (found : w.documents.get? uri = some d) {result : ParseResult}
    (eq : d.progress.result? = some result) {r : Reference} (mem : r ∈ d.references) :
    types.isSubtype r.target typeType = true ∧ result.ast.types = types := by
  have asked := (spelled_parse limits ((parser limits).tokenize d.text)).2
  have known := types_parse limits ((parser limits).tokenize d.text)
  rw [← h.tree found eq] at asked known
  rw [d.references_of_result eq, Ast.mem_map_snd_placed_iff, Array.mem_iff_getElem?] at mem
  obtain ⟨⟨id, at_id⟩, -⟩ := mem
  have there : result.ast.unlink.references[id]? = some { r with resolution := none } := by
    rw [Ast.unlink, Array.getElem?_map, at_id]
    rfl
  have asked := asked id _ there
  exact ⟨asked, known⟩

end Workspace.Sound

/-- **In every run, the definition of a reference is shown where its name stands now**: the target is in
a document of the workspace, and the range shown is that of its name in the text of that document. -/
theorem Site.definition_run (limits : Limits) (o : ValidationOptions) (actions : List Action)
    {uri : DocumentUri} {p : Text.Position} {target : Description} {location : Location} :
    let w := ((opened (languageWith limits) o).run actions).workspace
    Server.targetAt? w uri p = some target → Server.locationOf? w target = some location →
      ∃ r d range part, Server.referenceAt? w uri p = some r ∧ r.target? = some target ∧
        w.documents.get? target.uri = some d ∧
        location.range = Text.positionRangeOf d.text.toList range ∧
        Text.Spans d.text.toList range part ∧
        Text.stripCaret (String.ofList part) = Text.lastSegment r.text := by
  intro w targeted located
  have sound : w.Sound (languageWith limits) o := (sound_run _ o actions).workspace
  rw [Server.targetAt?_eq] at targeted
  obtain ⟨r, hit, leads⟩ := Option.bind_eq_some_iff.1 targeted
  obtain ⟨d, found, linked, mem⟩ := Server.mem_of_referenceAt? hit
  obtain ⟨result, eq, vouches⟩ := vouches_run (languageWith limits) o actions uri d found linked
  obtain ⟨x, resolved, vouched⟩ := vouches r mem
  have x_eq : x = .resolved target := by
    rw [Reference.target?, resolved, Option.bind_some] at leads
    cases x with
    | resolved t => exact congrArg Resolution.resolved (Option.some.inj leads)
    | unresolved => cases leads
  subst x_eq
  obtain ⟨asked, known⟩ := sound.asks_type found eq mem
  obtain ⟨e, result', stored, eq', described⟩ := sound.describes found eq linked vouched
  have asks : r.Asks result.ast.types target := vouched.1
  rw [known] at asks
  have declared := isDeclaration_of_isSubtype asks.2 asked
  obtain ⟨range, part, ranged, spans, named⟩ := sound.spans stored eq' described declared
  refine ⟨r, e, range, part, hit, leads, stored, ?_, spans, ?_⟩
  · obtain ⟨url, -, located⟩ := Option.bind_eq_some_iff.1 located
    obtain ⟨e', stored', located⟩ := Option.bind_eq_some_iff.1 located
    cases stored.symm.trans stored'
    cases located
    rw [ranged]
    rfl
  · rw [← asks.1]
    exact named

namespace Site

/-- A class in one document extends one of another, by its qualified name. -/
def qualifiedExtension : List Action :=
  [.apply "file:///b" (.set 1 "package p \x7b class ^X \x7b\x7d \x7d"),
    .apply "file:///c" (.set 1 "class C extends p.X \x7b\x7d"), .begin [] [], .start 1] ++
    List.replicate 12 (.step .never)

/-- The range shown is that of `^X`. -/
theorem definition_qualifiedExtension :
    ∃ target location r d range part,
      Server.targetAt? ((opened (languageWith {}) {}).run qualifiedExtension).workspace
        "file:///c" ⟨0, 18⟩ = some target ∧
      Server.locationOf? ((opened (languageWith {}) {}).run qualifiedExtension).workspace target =
        some location ∧
      location.range = ⟨⟨0, 18⟩, ⟨0, 20⟩⟩ ∧
      Server.referenceAt? ((opened (languageWith {}) {}).run qualifiedExtension).workspace
        "file:///c" ⟨0, 18⟩ = some r ∧ r.target? = some target ∧
      ((opened (languageWith {}) {}).run qualifiedExtension).workspace.documents.get? target.uri =
        some d ∧
      location.range = Text.positionRangeOf d.text.toList range ∧
      Text.Spans d.text.toList range part ∧
      Text.stripCaret (String.ofList part) = Text.lastSegment r.text := by
  have shown : ((Server.targetAt? ((opened (languageWith {}) {}).run qualifiedExtension).workspace
      "file:///c" ⟨0, 18⟩).bind
        (Server.locationOf? ((opened (languageWith {}) {}).run qualifiedExtension).workspace)).map
      (·.range) = some ⟨⟨0, 18⟩, ⟨0, 20⟩⟩ := by decide +kernel
  obtain ⟨location, located, range⟩ := Option.map_eq_some_iff.1 shown
  obtain ⟨target, targeted, located⟩ := Option.bind_eq_some_iff.1 located
  obtain ⟨r, d, range', part, facts⟩ :=
    definition_run {} {} qualifiedExtension targeted located
  exact ⟨target, location, r, d, range', part, targeted, located, range, facts⟩

end Site

end Workbench
