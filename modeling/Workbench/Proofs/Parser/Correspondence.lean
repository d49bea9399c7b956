import Workbench.Proofs.Parser.Lossless
import Workbench.Proofs.Parser.Owning
import Workbench.Proofs.Parser.Ranges
import Workbench.Proofs.Parser.WellFormed

/-!
**Nodes correspond to branches.**

The source tree of a document is built in step with its nodes: branches are closed, put into other
branches and taken from one owner to the next, while nodes are finished, taken over by callers and held
by new nodes. In the end each branch stands at one place and has its range, every node with a source tree
owns the branch that it has as its source tree, and no other, and the branch of a node lies strictly
below that of its container. This holds whatever the grammar is, and whether the text has errors or not.
-/

namespace Workbench

open SourceTree

namespace Ast

/-- What it means that the nodes of a tree and the branches of its source tree correspond. A tree in the
source tree is told by its position. -/
structure Corresponds (a : Ast) : Prop where
  /-- One branch lists a tree, and lists it once. -/
  listedOnce : ∀ (p q : List Nat) (b c : SourceTree) (i j : Nat) (t : SourceTree),
    a.source.at? p = some b → b.children[i]? = some t →
    a.source.at? q = some c → c.children[j]? = some t → p = q ∧ i = j
  /-- A branch that is not the root goes from its first visible token to its last one; there is one. -/
  spans : ∀ p t, a.source.at? p = some t → p ≠ [] → t.isBranch = true → t.range.Spans t.visible
  /-- A node has a tree as its source tree if and only if it owns this tree in the source tree. -/
  source_iff : ∀ id t, (∃ n, a.node? id = some n ∧ n.source = some t) ↔
    ∃ p, a.source.at? p = some t ∧ t.owner = some id
  /-- A node owns one tree. -/
  ownsOnce : ∀ p q t u id, a.source.at? p = some t → a.source.at? q = some u →
    t.owner = some id → u.owner = some id → p = q
  /-- The source tree of a node lies strictly below that of its container, and within its range. -/
  below : ∀ id container n m t u, a.Reachable id → a.container? id = some container →
    a.node? id = some n → n.source = some t → a.node? container = some m → m.source = some u →
    ∃ p q, a.source.at? p = some u ∧ a.source.at? (p ++ q) = some t ∧ q ≠ [] ∧
      u.range.start ≤ t.range.start ∧ t.range.stop ≤ u.range.stop

/-! ### From linked nodes to corresponding ones -/

variable {a : Ast} {t u : SourceTree} {p q : List Nat}

theorem node_source_iff {id : NodeId} :
    (∃ n, a.node? id = some n ∧ n.source = some t) ↔ sourceOf? a.nodes id = some t :=
  Option.bind_eq_some_iff.symm

theorem occurs_source_iff : Occurs t [a.source] ↔ ∃ p, a.source.at? p = some t := by
  simp [Occurs]

/-- The range of a source tree as a whole. -/
structure Framed (a : Ast) : Prop where
  ordered : Token.InOrder a.source.leaves
  snug : ∀ child ∈ a.source.children, child.Snug
  start : a.source.range.start = 0
  stop : ∀ t ∈ a.source.leaves, t.stop ≤ a.source.range.stop

namespace Framed

theorem spans (h : a.Framed) (found : a.source.at? p = some t) (inner : p ≠ []) (branch : t.isBranch = true) :
    t.range.Spans t.visible := by
  cases p with
  | nil => exact absurd rfl inner
  | cons i p =>
    obtain ⟨child, mem, below⟩ := at?_cons_eq_some_iff.1 found
    exact h.snug child (List.mem_of_getElem? mem) p t below branch

theorem leaves_ne_nil (h : a.Framed) (found : a.source.at? p = some t) (inner : p ≠ []) : t.leaves ≠ [] := by
  cases t with
  | leaf token feature => simp [leaves]
  | branch rule feature range owner children =>
    intro empty
    refine (h.spans found inner rfl).ne_nil ?_
    rw [visible, empty]
    rfl

theorem listedOnce (h : a.Framed) {b c : SourceTree} {i j : Nat} (left : a.source.at? p = some b)
    (mem : b.children[i]? = some t) (right : a.source.at? q = some c) (mem' : c.children[j]? = some t) :
    p = q ∧ i = j := by
  have below : ∀ {p : List Nat} {b : SourceTree} {i : Nat}, a.source.at? p = some b →
      b.children[i]? = some t → a.source.at? (p ++ [i]) = some t := by
    intro p b i found mem
    rw [at?_append, found, Option.bind_some]
    exact at?_cons_eq_some_iff.2 ⟨t, mem, rfl⟩
  have some := h.leaves_ne_nil (below left mem) (by simp)
  have same := at?_unique_of_leaves h.ordered.nodup (below left mem) (below right mem') some
  simpa using same

/-- A branch lies within the range of a branch around it. -/
theorem within (h : a.Framed) (above : a.source.at? p = some u) (below : a.source.at? (p ++ q) = some t)
    (inner : q ≠ []) (branch : t.isBranch = true) (outer : u.isBranch = true) :
    u.range.start ≤ t.range.start ∧ t.range.stop ≤ u.range.stop := by
  obtain ⟨first, last, head, end_, start, stop⟩ :=
    h.spans below (fun none => inner (List.append_eq_nil_iff.1 none).2) branch
  have inside : u.at? q = some t := by
    rwa [at?_append, above, Option.bind_some] at below
  have memFirst := (visible_sublist_of_at? inside).subset (List.mem_of_head? head)
  have memLast := (visible_sublist_of_at? inside).subset (List.mem_of_getLast? end_)
  rw [start, stop]
  cases p with
  | nil =>
    obtain rfl := Option.some.inj above
    rw [h.start]
    exact ⟨Nat.zero_le _, h.stop last (List.mem_of_mem_filter memLast)⟩
  | cons i p =>
    have spans := h.spans above (List.cons_ne_nil i p) outer
    have ordered : Token.InOrder u.visible := h.ordered.sublist
      (List.filter_sublist.trans (sublist_of_at? leaves_children above))
    exact ⟨(spans.within ordered memFirst).1, (spans.within ordered memLast).2⟩

end Framed

/-- Where the nodes are linked with the source tree, the two correspond. -/
theorem corresponds_of_linked (rooted : a.Rooted) (framed : a.Framed) {parts : List Part}
    (linked : Arena.Linked 0 a.nodes { parts, trees := [a.source] }) : a.Corresponds where
  listedOnce p q b c i j t left mem right mem' := framed.listedOnce left mem right mem'
  spans p t found inner branch := framed.spans found inner branch
  source_iff id t := by
    rw [node_source_iff]
    constructor
    · intro has
      obtain ⟨occurs, own⟩ := linked.found id (Nat.zero_le _) t has
      obtain ⟨p, found⟩ := occurs_source_iff.1 occurs
      exact ⟨p, found, own⟩
    · rintro ⟨p, found, own⟩
      exact (linked.owned t (occurs_source_iff.2 ⟨p, found⟩) id own).2
  ownsOnce p q t u id left right ownLeft ownRight := by
    have once : a.source.owners.Nodup := by
      have once := linked.once
      rwa [ownersOf, ownersOf, List.append_nil] at once
    exact at?_unique_of_owner once left right ownLeft ownRight
  below id container n m t u reachable isContainer found has foundAbove hasAbove := by
    have held : .node id ∈ m.properties.parts := by
      cases reachable with
      | root =>
        rw [rooted.root] at isContainer
        cases isContainer
      | @child holder _ above mem =>
        obtain rfl := Option.some.inj ((rooted.container holder id mem).symm.trans isContainer)
        obtain ⟨m', found', mem⟩ := exists_node_of_mem_contents mem
        obtain rfl := Option.some.inj (foundAbove.symm.trans found')
        exact AstNode.mem_contents_iff.1 mem
    have source := node_source_iff.1 ⟨n, found, has⟩
    have sourceAbove := node_source_iff.1 ⟨m, foundAbove, hasAbove⟩
    obtain ⟨-, own⟩ := linked.found id (Nat.zero_le _) t source
    obtain ⟨occurs, ownAbove⟩ := linked.found container (Nat.zero_le _) u sourceAbove
    obtain ⟨p, above⟩ := occurs_source_iff.1 occurs
    obtain ⟨i, q, inside⟩ := occurs_children.1
      ((linked.below container (Nat.zero_le _) m u foundAbove hasAbove id held).2 t source)
    have below : a.source.at? (p ++ i :: q) = some t := by
      rw [at?_append, above]
      exact inside
    exact ⟨p, i :: q, above, below, List.cons_ne_nil i q, framed.within above below (List.cons_ne_nil i q)
      (isBranch_of_owner own) (isBranch_of_owner ownAbove)⟩

end Ast

namespace Parser

open State Interpreter

/-! ### Parses -/

theorem linked_opened (p : Parser) (lexed : LexResult) : (p.opened lexed).Linked 0 :=
  Arena.Linked.empty #[]

/-- The root node owns the source tree. -/
theorem linked_finish {plan : Plan} {s : State} (tidy : Tidy plan {} s) (linked : s.Linked 0) :
    Arena.Linked 0 (finish plan s).2.nodes
      { parts := [.node (finish plan s).2.root], trees := [(finish plan s).2.source] } := by
  have tidyEnd := tidy.flushHidden
  have linkedEnd : s.flushHidden.Linked 0 := linked.attach_leaves (ownersOf_leaves _ _)
  rw [finish_eq]
  generalize s.flushHidden = t at tidyEnd linkedEnd
  have trees : t.frame.loose.trees = t.frame.children.toList := t.frame.trees_loose
  have object : (currentObject t).loose.parts ⊆ t.frame.loose.parts ∧
      (currentObject t).loose.slots ⊆ t.frame.loose.slots := by
    unfold currentObject
    split
    · next o content => exact Frame.subset_loose content
    · exact ⟨List.nil_subset _, List.nil_subset _⟩
  exact (State.Linked.constructObject
    (o := { currentObject t with type := some ((currentObject t).type.getD plan.grammar.entryType) })
    (some (wholeTree plan t)) tidyEnd.sound (spare_currentObject tidyEnd) linkedEnd object.1 object.2
    (by rintro tree ⟨⟩; exact ⟨rfl, rfl, trees.symm⟩) nofun).1

/-- The branches of a document have their ranges, if its tokens stand one behind the other. -/
theorem framed_parse (p : Parser) {lexed : LexResult} (ordered : Token.InOrder lexed.tokens) :
    (p.parse lexed).ast.Framed := by
  have kept : (p.parse lexed).ast.source.leaves.Sublist lexed.tokens := by
    rw [leaves_source_parse]
    exact (sublist_cutAfter _ _)
  have start : Token.InOrder ((p.opened lexed).taken ++ (p.opened lexed).stream.tokens) :=
    ordered.sublist (sublist_cutAfter _ _)
  have ended := (p.reaches_ended lexed).snug start ⟨nofun, absurd rfl⟩
  refine ⟨ordered.sublist kept, ?_, rfl, fun t mem => ?_⟩
  · have children : (p.parse lexed).ast.source.children = (p.ended lexed).frame.children.toList ++
        (p.ended lexed).stream.hiddenFront.map (SourceTree.leaf · none) := by
      rw [parse_eq, finish_eq, children_withOwner]
      simp [wholeTree, SourceTree.children, State.flushHidden, State.attach]
    rw [children]
    refine List.forall_mem_append.2 ⟨ended.trees, fun tree mem => ?_⟩
    obtain ⟨token, -, rfl⟩ := List.mem_map.1 mem
    exact snug_leaf token none
  · have mem := kept.subset mem
    obtain ⟨last, isLast⟩ : ∃ last, lexed.tokens.getLast? = some last :=
      ⟨_, List.getLast?_eq_some_getLast (List.ne_nil_of_mem mem)⟩
    have stop : (p.parse lexed).ast.source.range.stop = last.stop := by
      change max 0 ((lexed.tokens.getLast?.map Token.stop).getD 0) = last.stop
      rw [isLast]
      exact Nat.max_eq_right (Nat.zero_le _)
    rw [stop]
    exact ordered.stop_le isLast mem

/-- **Nodes correspond to branches** in every parse of a text, whatever the grammar, the limits and the
keywords are. -/
theorem corresponds_parse (p : Parser) (keywords : List String) (text : String) :
    (p.parse (Lexer.tokenize keywords text)).ast.Corresponds := by
  have ordered := Lexer.inOrder_tokenize keywords text
  generalize Lexer.tokenize keywords text = lexed at ordered
  have straight : ¬ Astray (p.ended lexed) := by
    intro astray
    cases p.incidents_ended lexed _ astray
  have tidy := (p.reaches_ended lexed).tidy (p.tidy_opened lexed)
  have linked := ((p.reaches_ended lexed).linked straight (p.tidy_opened lexed) (p.linked_opened lexed)).1
  have framed := p.framed_parse ordered
  rw [parse_eq] at framed ⊢
  exact Ast.corresponds_of_linked (rooted_finish tidy) framed (linked_finish tidy linked)

end Parser

end Workbench
