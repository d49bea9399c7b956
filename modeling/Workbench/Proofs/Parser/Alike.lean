import Workbench.Proofs.Parser.Finishing
import Workbench.Proofs.Parser.Input

/-!
**Parse states up to places in the text.**

Two states are `Alike` if they differ in source trees, ranges and hidden tokens at most. Every step of the
parser takes states that are alike to states that are alike. All that it asks of the source trees is
whether the invocation under way has taken a token, and hidden tokens are taken only together with a
visible one.
-/

namespace Workbench

/-! ### What is left without places in the text -/

/-- What the grammar sees of a token. -/
def Token.reading (t : Token) : TokenKind × String := (t.kind, t.image)

/-- What the grammar sees of a list of tokens. -/
def LexResult.reading (l : LexResult) : List (TokenKind × String) :=
  (l.tokens.filter Token.isVisible).map Token.reading

/-- The node without its source. -/
def AstNode.bare (n : AstNode) : AstNode := { n with source := none }

/-- The reference without its source. -/
def Reference.bare (r : Reference) : Reference := { r with source := default }

/-- The error without its range. -/
def ParseError.bare (e : ParseError) : ParseError := { e with range := default }

/-- The tree without sources. -/
def Ast.bare (a : Ast) : Ast :=
  { a with
    nodes := a.nodes.map AstNode.bare
    references := a.references.map Reference.bare
    source := default }

/-- What an error says, and about what. -/
def ParseError.wording (e : ParseError) : String × Option String × Option String :=
  (e.message, e.token, e.rule)

/-- The plan for a text of another length. -/
def Plan.endingAt (plan : Plan) (stop : Nat) : Plan := { plan with textEnd := stop }

/-! ### Tokens -/

namespace Token

variable {t u : Token}

theorem kind_of_reading (h : t.reading = u.reading) : t.kind = u.kind := congrArg Prod.fst h

theorem image_of_reading (h : t.reading = u.reading) : t.image = u.image := congrArg Prod.snd h

theorem isKeyword_of_reading (h : t.reading = u.reading) (text : String) :
    t.isKeyword text = u.isKeyword text := by
  unfold isKeyword
  rw [kind_of_reading h, image_of_reading h]

end Token

theorem FirstSet.contains_of_reading {t u : Token} (h : t.reading = u.reading) (first : FirstSet) :
    first.contains t = first.contains u := by
  unfold contains
  rw [Token.kind_of_reading h, Token.image_of_reading h]

section Predictions

variable {t u : Token} {N : RuleId → Bool} {P : RuleId → Token → Bool}

mutual

theorem predicts_of_reading (h : t.reading = u.reading) (hP : ∀ id, P id t = P id u) :
    ∀ e : Element, e.predicts N P t = e.predicts N P u
  | .keyword text => by
    rw [Element.predicts, Element.predicts]
    exact Token.isKeyword_of_reading h text
  | .call id | .crossRef _ id => by
    rw [Element.predicts, Element.predicts]
    exact hP id
  | .assign _ _ value => by
    rw [Element.predicts, Element.predicts]
    exact predicts_of_reading h hP value
  | .action _ _ => by rw [Element.predicts, Element.predicts]
  | .group items => by
    rw [Element.predicts, Element.predicts]
    exact predictsGroup_of_reading h hP items
  | .alternatives items => by
    rw [Element.predicts, Element.predicts]
    exact predictsAny_of_reading h hP items
  | .repetition _ item => by
    rw [Element.predicts, Element.predicts]
    exact predicts_of_reading h hP item

theorem predictsGroup_of_reading (h : t.reading = u.reading) (hP : ∀ id, P id t = P id u) :
    ∀ items : List Element, Element.predictsGroup N P t items = Element.predictsGroup N P u items
  | [] => by rw [Element.predictsGroup, Element.predictsGroup]
  | item :: rest => by
    rw [Element.predictsGroup, Element.predictsGroup, predicts_of_reading h hP item,
      predictsGroup_of_reading h hP rest]

theorem predictsAny_of_reading (h : t.reading = u.reading) (hP : ∀ id, P id t = P id u) :
    ∀ items : List Element, Element.predictsAny N P t items = Element.predictsAny N P u items
  | [] => by rw [Element.predictsAny, Element.predictsAny]
  | item :: rest => by
    rw [Element.predictsAny, Element.predictsAny, predicts_of_reading h hP item,
      predictsAny_of_reading h hP rest]

end

end Predictions

/-- Whether an element goes on with a token depends on what the grammar sees of it. -/
theorem Lookahead.predicts_of_reading {t u : Token} (h : t.reading = u.reading) (la : Lookahead)
    (e : Element) : la.predicts e t = la.predicts e u := by
  refine Workbench.predicts_of_reading h (fun id => ?_) e
  unfold callPredicts
  split
  · rw [Token.kind_of_reading h]
  · exact FirstSet.contains_of_reading h _

/-! ### Arenas -/

namespace Arena

/-- The arena without sources. -/
def bare (a : Arena) : Arena := ⟨a.nodes.map AstNode.bare, a.references.map Reference.bare⟩

variable {a b : Arena}

theorem map_modify {α : Type} {f g : α → α} (commute : ∀ x, g (f x) = f (g x)) (xs : Array α) (i : Nat) :
    (xs.modify i f).map g = (xs.map g).modify i f := by
  apply Array.ext_getElem?
  intro j
  rw [Array.getElem?_map, Array.getElem?_modify, Array.getElem?_modify, Array.getElem?_map]
  split
  · cases xs[j]? <;> simp [commute]
  · rfl

theorem bare_put (a : Arena) (link : Part × Place) : (a.put link).bare = a.bare.put link := by
  obtain ⟨part, place⟩ := link
  cases part with
  | node id =>
    unfold put bare
    dsimp only
    rw [map_modify]
    exact fun _ => rfl
  | reference id =>
    unfold put bare
    dsimp only
    rw [map_modify]
    exact fun _ => rfl

theorem bare_putAll (a : Arena) (links : List (Part × Place)) :
    (a.putAll links).bare = a.bare.putAll links := by
  induction links generalizing a with
  | nil => rfl
  | cons link rest ih =>
    have step := ih (a.put link)
    rw [bare_put] at step
    exact step

theorem bare_insert (a : Arena) (slot : Option NodeId) (n : AstNode) :
    (a.insert slot n).bare = a.bare.insert slot n.bare := by
  cases slot with
  | none => simp [bare, insert]
  | some id => simp [bare, insert]

theorem size_of_bare (h : a.bare = b.bare) : a.nodes.size = b.nodes.size := by
  simpa [bare] using congrArg (fun c => c.nodes.size) h

theorem size_references_of_bare (h : a.bare = b.bare) : a.references.size = b.references.size := by
  simpa [bare] using congrArg (fun c => c.references.size) h

theorem node_of_bare (h : a.bare = b.bare) (id : NodeId) :
    a.nodes[id]?.map AstNode.bare = b.nodes[id]?.map AstNode.bare := by
  simpa [bare] using congrArg (fun c => c.nodes[id]?) h

end Arena

/-! ### States -/

/-- Invocations that differ in their source trees at most. -/
structure Frame.Alike (f g : Frame) : Prop where
  rule : f.rule = g.rule
  content : f.content = g.content
  children : f.children = #[] ↔ g.children = #[]

namespace State

theorem any_of_reading {a b : Option Token} {accepts : Token → Bool}
    (sees : ∀ {a b : Token}, a.reading = b.reading → accepts a = accepts b)
    (h : a.map Token.reading = b.map Token.reading) : a.any accepts = b.any accepts := by
  cases a <;> cases b <;> simp_all
  exact sees h

/-- States that differ in source trees, ranges and hidden tokens at most. -/
structure Alike (s t : State) : Prop where
  visible : s.stream.visible.map Token.reading = t.stream.visible.map Token.reading
  frame : s.frame.Alike t.frame
  arena : s.arena.bare = t.arena.bare
  errors : s.errors.map ParseError.bare = t.errors.map ParseError.bare
  recovering : s.recovering = t.recovering
  incidents : s.incidents = t.incidents

namespace Alike

variable {s t : State}

/-! ### What the parser asks of a state -/

theorem count (h : Alike s t) : s.stream.count = t.stream.count := by
  have lengths := congrArg List.length h.visible
  simpa [TokenStream.count_eq_length] using lengths

theorem peek? (h : Alike s t) :
    s.stream.peek?.map Token.reading = t.stream.peek?.map Token.reading := by
  rw [TokenStream.peek?_eq_head?, TokenStream.peek?_eq_head?, ← List.head?_map, ← List.head?_map,
    h.visible]

theorem second? (h : Alike s t) :
    s.stream.second?.map Token.reading = t.stream.second?.map Token.reading := by
  rw [TokenStream.second?_eq_head?, TokenStream.second?_eq_head?, ← List.head?_map, ← List.head?_map,
    List.map_tail, List.map_tail, h.visible]

/-! ### Tokens and errors -/

theorem note (h : Alike s t) (incident : Incident) : Alike (s.note incident) (t.note incident) :=
  { h with incidents := congrArg (incident :: ·) h.incidents }

theorem recover (h : Alike s t) (recovering : Bool) :
    Alike { s with recovering } { t with recovering } :=
  { h with recovering := rfl }

theorem attach (h : Alike s t) {us vs : List SourceTree} (both : us = [] ↔ vs = []) :
    Alike (s.attach us) (t.attach vs) := by
  refine { h with frame := ⟨h.frame.rule, h.frame.content, ?_⟩ }
  have children := h.frame.children
  simp [State.attach, children, both]

/-- Taking a token takes a token on both sides, and both look the same. -/
theorem consume (h : Alike s t) (feature : Option String) :
    Alike (s.consume feature).1 (t.consume feature).1 ∧
      (s.consume feature).2.map Token.reading = (t.consume feature).2.map Token.reading := by
  have visible := h.visible
  cases left : s.stream.next? with
  | none =>
    have right : t.stream.next? = none := by
      rw [TokenStream.next?_eq_none_iff.1 left] at visible
      rw [TokenStream.next?_eq_none_iff, ← List.map_eq_nil_iff, ← visible]
      rfl
    unfold State.consume
    rw [left, right]
    exact ⟨h, rfl⟩
  | some taken =>
    obtain ⟨hidden, token, rest⟩ := taken
    cases right : t.stream.next? with
    | none =>
      rw [TokenStream.visible_of_next? left, TokenStream.next?_eq_none_iff.1 right] at visible
      cases visible
    | some taken' =>
      obtain ⟨hidden', token', rest'⟩ := taken'
      rw [TokenStream.visible_of_next? left, TokenStream.visible_of_next? right, List.map_cons,
        List.map_cons, List.cons.injEq] at visible
      rw [consume_of_next? left, consume_of_next? right]
      have moved : Alike { s with stream := rest } { t with stream := rest' } :=
        { h with visible := visible.2 }
      exact ⟨moved.attach (by simp), congrArg some visible.1⟩

theorem record (h : Alike s t) (plan : Plan) (stop : Nat) (problem : ParseProblem) :
    Alike (s.record plan problem) (t.record (plan.endingAt stop) problem) := by
  have image : s.stream.peek?.map (·.image) = t.stream.peek?.map (·.image) := by
    simpa [Function.comp_def, Token.reading] using congrArg (Option.map Prod.snd) h.peek?
  refine { h with errors := ?_ }
  have found : plan.grammar.rules[s.frame.rule]? = plan.grammar.rules[t.frame.rule]? := by
    rw [h.frame.rule]
  simp only [State.record, Array.map_push, h.errors, ParseError.bare, image, found, Plan.endingAt]

theorem raise (h : Alike s t) (plan : Plan) (stop : Nat) (problem : ParseProblem) :
    Alike (s.raise plan problem) (t.raise (plan.endingAt stop) problem) := by
  unfold State.raise
  rw [h.recovering]
  split
  · exact h
  · exact h.record plan stop problem

theorem report (h : Alike s t) (plan : Plan) (stop : Nat) (expected : FirstSet) :
    Alike (s.report plan expected) (t.report (plan.endingAt stop) expected) :=
  (h.raise plan stop _).recover true

theorem expect (h : Alike s t) (plan : Plan) (stop : Nat) (accepts : Token → Bool)
    (sees : ∀ {a b : Token}, a.reading = b.reading → accepts a = accepts b) (problem : ParseProblem)
    (feature : Option String) :
    Alike (s.expect plan accepts problem feature).1
        (t.expect (plan.endingAt stop) accepts problem feature).1 ∧
      (s.expect plan accepts problem feature).2.map Token.reading =
        (t.expect (plan.endingAt stop) accepts problem feature).2.map Token.reading := by
  have next := any_of_reading sees h.peek?
  have after := any_of_reading sees (h.raise plan stop problem).second?
  unfold State.expect
  dsimp only
  rw [next, after]
  split
  · exact (h.recover false).consume feature
  · split
    · exact (((h.raise plan stop problem).consume none).1.recover false).consume feature
    · exact ⟨(h.raise plan stop problem).recover true, rfl⟩

/-! ### Building -/

theorem withContent (h : Alike s t) (content : Content) :
    Alike { s with frame := { s.frame with content } } { t with frame := { t.frame with content } } :=
  { h with frame := ⟨h.frame.rule, rfl, h.frame.children⟩ }

theorem collect (h : Alike s t) (text : String) : Alike (s.collect text) (t.collect text) := by
  unfold State.collect
  rw [h.frame.content]
  split
  · exact h.withContent _
  · exact h

theorem assign (h : Alike s t) (feature : String) (op : AssignOp) (value : Value) :
    Alike (s.assign feature op value) (t.assign feature op value) := by
  unfold State.assign
  rw [h.frame.content]
  split
  · exact h.note _
  · exact h.withContent _

theorem retag (h : Alike s t) (type : TypeId) : Alike (s.retag type) (t.retag type) := by
  unfold State.retag
  rw [h.frame.content]
  split
  · exact h.note _
  · split
    · exact h
    · exact h.withContent _

theorem withFrame (h : Alike s t) {f g : Frame} (frames : f.Alike g) :
    Alike { s with frame := f } { t with frame := g } :=
  { h with frame := frames }

theorem foldl {β : Type} {f : State → β → State}
    (step : ∀ {s t : State}, Alike s t → ∀ b, Alike (f s b) (f t b)) (h : Alike s t) (l : List β) :
    Alike (l.foldl f s) (l.foldl f t) := by
  induction l generalizing s t with
  | nil => exact h
  | cons b l ih => exact ih (step h b)

theorem hold (h : Alike s t) (place : Place) (value : Value) :
    Alike (s.hold place value) (t.hold place value) := by
  have arena : (s.hold place value).arena.bare = (t.hold place value).arena.bare := by
    rw [arena_hold, arena_hold, Arena.bare_putAll, Arena.bare_putAll, h.arena]
  cases value <;> exact { h with arena }

theorem holdEntry (h : Alike s t) (holder : NodeId) (entry : String × Value) :
    Alike (s.holdEntry holder entry) (t.holdEntry holder entry) := by
  unfold State.holdEntry
  split
  · refine foldl (fun same item => ?_) h _
    exact same.hold _ _
  · exact h.hold _ _

theorem construct (h : Alike s t) (plan : Plan) (stop : Nat) (type : TypeId) (properties : Properties)
    (slot : Option NodeId) (source source' : Option SourceTree) :
    Alike (s.construct plan type properties slot source).1
        (t.construct (plan.endingAt stop) type properties slot source').1 ∧
      (s.construct plan type properties slot source).2 =
        (t.construct (plan.endingAt stop) type properties slot source').2 := by
  have size : s.nodes.size = t.nodes.size := Arena.size_of_bare h.arena
  have inserted : ∀ n n' : AstNode, n.bare = n'.bare →
      (s.arena.insert slot n).bare = (t.arena.insert slot n').bare := by
    intro n n' same
    rw [Arena.bare_insert, Arena.bare_insert, h.arena, same]
  unfold State.construct
  dsimp only
  rw [size]
  refine ⟨foldl (fun same entry => same.holdEntry _ entry) ?_ _, rfl⟩
  cases slot with
  | none => exact { h with arena := inserted _ _ rfl }
  | some id => exact { h with arena := inserted _ _ rfl }

theorem constructObject (h : Alike s t) (plan : Plan) (stop : Nat) (o : Object) (source source' : Option SourceTree) :
    Alike (s.constructObject plan o source).1
        (t.constructObject (plan.endingAt stop) o source').1 ∧
      (s.constructObject plan o source).2 = (t.constructObject (plan.endingAt stop) o source').2 := by
  unfold State.constructObject
  split
  · exact ⟨h, rfl⟩
  · obtain ⟨alike, same⟩ := h.construct plan stop _ o.properties o.slot source source'
    exact ⟨alike, congrArg some same⟩

theorem adopt (h : Alike s t) (id : NodeId) : Alike (s.adopt id) (t.adopt id) := by
  have same := Arena.node_of_bare h.arena id
  change s.nodes[id]?.map _ = t.nodes[id]?.map _ at same
  have emptied : ∀ n n' : AstNode, n.bare = n'.bare →
      (s.arena.insert (some id) n).bare = (t.arena.insert (some id) n').bare := by
    intro n n' same
    rw [Arena.bare_insert, Arena.bare_insert, h.arena, same]
  unfold State.adopt
  rw [h.frame.content]
  cases content : t.frame.content with
  | text acc => exact h.note _
  | object o =>
    cases left : s.nodes[id]? with
    | none =>
      rw [left] at same
      rw [Option.map_eq_none_iff.1 same.symm]
      exact h.note _
    | some n =>
      rw [left] at same
      obtain ⟨m, right, bare⟩ := Option.map_eq_some_iff.1 same.symm
      obtain ⟨type, place, properties⟩ :
          m.type = n.type ∧ m.place = n.place ∧ m.properties = n.properties := by
        simpa [AstNode.bare] using bare
      rw [right]
      dsimp only
      rw [type, properties]
      refine { h.withContent _ with arena := emptied _ _ ?_ }
      simp only [AstNode.bare, place]

/-- Wrapping asks only whether there are trees. -/
theorem children_wrappedTrees {f g : Frame} (h : f.children = #[] ↔ g.children = #[]) (feature : String)
    (built : Option NodeId) :
    wrappedTrees f feature built = #[] ↔ wrappedTrees g feature built = #[] := by
  have empty : ∀ f : Frame, wrappedTrees f feature built = #[] ↔ f.children = #[] := by
    intro f
    unfold wrappedTrees wrapChildren
    cases children : f.children.toList with
    | nil => rfl
    | cons tree rest =>
      have some : f.children ≠ #[] := by
        rintro none
        rw [none] at children
        cases children
      simp [some]
  rw [empty, empty, h]

theorem wrap (h : Alike s t) (plan : Plan) (stop : Nat) (type : TypeId) (feature : String) (op : AssignOp) :
    Alike (s.wrap plan type feature op) (t.wrap (plan.endingAt stop) type feature op) := by
  cases content : t.frame.content with
  | text acc =>
    unfold State.wrap
    rw [h.frame.content, content]
    exact h.note _
  | object o =>
    rw [wrap_of_object content, wrap_of_object (h.frame.content.trans content)]
    have built := h.constructObject plan stop o (wrapChildren feature s.frame)
      (wrapChildren feature t.frame)
    generalize s.constructObject plan o (wrapChildren feature s.frame) = left at built
    generalize t.constructObject (plan.endingAt stop) o (wrapChildren feature t.frame) = right at built
    obtain ⟨s', id⟩ := left
    obtain ⟨t', id'⟩ := right
    obtain ⟨alike, same⟩ := built
    obtain rfl : id = id' := same
    have restarted : Alike (s'.restarted type (wrappedTrees s.frame feature id))
        (t'.restarted type (wrappedTrees t.frame feature id)) :=
      alike.withFrame ⟨alike.frame.rule, rfl, children_wrappedTrees h.frame.children feature id⟩
    cases id with
    | none => exact restarted
    | some id => exact restarted.assign feature op _

theorem makeReference (h : Alike s t) (feature : String) (op : AssignOp) (target : TypeId)
    (text : String) (source source' : SourceTree) :
    Alike (Interpreter.makeReference feature op target text source s)
      (Interpreter.makeReference feature op target text source' t) := by
  have size : s.references.size = t.references.size := Arena.size_references_of_bare h.arena
  unfold Interpreter.makeReference
  dsimp only
  rw [size]
  apply assign
  refine { h with arena := ?_ }
  have nodes := congrArg Arena.nodes h.arena
  have references := congrArg Arena.references h.arena
  simp only [Arena.bare, State.arena] at nodes references ⊢
  simp [nodes, references, Reference.bare]

end Alike

end State

end Workbench
