import Workbench.Proofs.Parser.Checked
import Workbench.Proofs.Parser.Positions

/-!
**Nodes and the trees they own.**

A node is built from the tree of an invocation, and that tree gets the node as its owner. From then on
both move: an unassigned call takes the tree from the node and leaves the node to the object of the
caller, and an action puts the trees of an invocation into a branch of their own. Throughout, a node has
the tree that it owns, and what the node holds has its trees below that one.

An invocation makes nodes behind all others, from a *base* on, and takes over only such nodes. So what is
said of its nodes and its trees stands beside what is said of those of its callers, and nothing that it
does changes them.
-/

namespace Workbench

open SourceTree

/-! ### Nodes with their trees -/

/-- The source tree of a node. -/
def sourceOf? (nodes : Array AstNode) (id : NodeId) : Option SourceTree := nodes[id]?.bind (·.source)

/-- Both lists have the same node at an index, up to its place. -/
def SameAt (nodes nodes' : Array AstNode) (id : NodeId) : Prop :=
  nodes'[id]?.map AstNode.unplaced = nodes[id]?.map AstNode.unplaced

variable {nodes nodes' : Array AstNode} {id : NodeId} {n m : AstNode} {base : Nat}

theorem sourceOf?_of_found (found : nodes[id]? = some n) : sourceOf? nodes id = n.source := by
  rw [sourceOf?, found, Option.bind_some]

namespace SameAt

theorem trans {nodes'' : Array AstNode} (h : SameAt nodes nodes' id) (h' : SameAt nodes' nodes'' id) :
    SameAt nodes nodes'' id := Eq.trans h' h

theorem node (h : SameAt nodes nodes' id) (found : nodes'[id]? = some m) :
    ∃ n, nodes[id]? = some n ∧ m.unplaced = n.unplaced := by
  unfold SameAt at h
  rw [found, Option.map_some] at h
  obtain ⟨n, found, same⟩ := Option.map_eq_some_iff.1 h.symm
  exact ⟨n, found, same.symm⟩

theorem source (h : SameAt nodes nodes' id) : sourceOf? nodes' id = sourceOf? nodes id := by
  have forget : ∀ nodes : Array AstNode,
      sourceOf? nodes id = (nodes[id]?.map AstNode.unplaced).bind (·.source) := by
    intro nodes
    rw [sourceOf?]
    cases nodes[id]? <;> rfl
  rw [forget, forget, h]

end SameAt

/-! ### Trees that lose their owners -/

section Disowned

variable {xs : List SourceTree} {tree t : SourceTree} {owner : NodeId}

theorem owner_disowned (tree : SourceTree) : (tree.withOwner none).owner = none := by
  cases tree <;> rfl

theorem ownersOf_disowned (xs : List SourceTree) (tree : SourceTree) :
    ownersOf (xs ++ [tree.withOwner none]) = ownersOf xs ++ ownersOf tree.children := by
  rw [ownersOf_append, ownersOf_singleton, owner_disowned, children_withOwner]
  rfl

theorem occurs_of_disowned (occurs : Occurs t (xs ++ [tree.withOwner none])) (own : t.owner = some owner) :
    Occurs t (xs ++ [tree]) := by
  rcases occurs_append.1 occurs with before | last
  · exact occurs_append.2 (.inl before)
  · rcases occurs_singleton.1 last with rfl | below
    · rw [owner_disowned] at own
      cases own
    · rw [children_withOwner] at below
      exact occurs_append.2 (.inr (occurs_singleton.2 (.inr below)))

/-- A tree of another owner stands where it stood. -/
theorem occurs_disowned (occurs : Occurs t (xs ++ [tree])) (other : t.owner ≠ tree.owner) :
    Occurs t (xs ++ [tree.withOwner none]) := by
  rcases occurs_append.1 occurs with before | last
  · exact occurs_append.2 (.inl before)
  · rcases occurs_singleton.1 last with rfl | below
    · exact absurd rfl other
    · rw [← children_withOwner none tree] at below
      exact occurs_append.2 (.inr (occurs_singleton.2 (.inr below)))

end Disowned

namespace Arena

/-- The nodes among the parts are not before `base`, and their trees stand below the given ones. -/
def Covers (base : Nat) (nodes : Array AstNode) (parts : List Part) (trees : List SourceTree) : Prop :=
  ∀ c, .node c ∈ parts → base ≤ c ∧ ∀ t, sourceOf? nodes c = some t → Occurs t trees

namespace Covers

variable {parts parts' : List Part} {trees trees' : List SourceTree} {base' : Nat}

theorem mono (h : Covers base nodes parts trees) (less : base' ≤ base)
    (moved : ∀ t, Occurs t trees → Occurs t trees') : Covers base' nodes parts trees' := by
  intro c mem
  obtain ⟨behind, occurs⟩ := h c mem
  exact ⟨less.trans behind, fun t has => moved t (occurs t has)⟩

theorem congr (h : Covers base nodes parts trees)
    (same : ∀ c, .node c ∈ parts → sourceOf? nodes' c = sourceOf? nodes c) :
    Covers base nodes' parts trees := by
  intro c mem
  rw [same c mem]
  exact h c mem

theorem append (h : Covers base nodes parts trees) (h' : Covers base nodes parts' trees) :
    Covers base nodes (parts ++ parts') trees := by
  intro c mem
  rcases List.mem_append.1 mem with first | second
  · exact h c first
  · exact h' c second

end Covers

/-- From `base` on, the nodes have the trees that they own: these are the trees with an owner below the
loose ones, and each node with a tree has the trees of its parts below its own. -/
structure Linked (base : Nat) (nodes : Array AstNode) (l : Loose) : Prop where
  start : base ≤ nodes.size
  /-- No node owns two trees. -/
  once : (ownersOf l.trees).Nodup
  /-- A tree with an owner is the source tree of this node. -/
  owned : ∀ t, Occurs t l.trees → ∀ id, t.owner = some id → base ≤ id ∧ sourceOf? nodes id = some t
  /-- The source tree of a node stands among the trees, and the node owns it. -/
  found : ∀ id, base ≤ id → ∀ t, sourceOf? nodes id = some t → Occurs t l.trees ∧ t.owner = some id
  below : ∀ id, base ≤ id → ∀ n t, nodes[id]? = some n → n.source = some t →
    Covers base nodes n.properties.parts t.children
  parts : Covers base nodes l.parts l.trees
  /-- A node that waits to be finished again has given its tree away. -/
  slots : ∀ id ∈ l.slots, base ≤ id ∧ sourceOf? nodes id = none

namespace Linked

variable {l : Loose}

/-- In the beginning of an invocation there is nothing to say. -/
theorem empty (nodes : Array AstNode) : Linked nodes.size nodes {} where
  start := Nat.le_refl _
  once := List.nodup_nil
  owned t occurs := absurd occurs not_occurs_nil
  found id behind t source := by
    rw [sourceOf?, Array.getElem?_eq_none behind] at source
    cases source
  below id behind n t found := by
    rw [Array.getElem?_eq_none behind] at found
    cases found
  parts c mem := by cases mem
  slots id mem := by cases mem

/-- Fewer nodes may be loose. -/
theorem within {l' : Loose} (h : Linked base nodes l) (trees : l'.trees = l.trees)
    (parts : ∀ c, .node c ∈ l'.parts → .node c ∈ l.parts) (slots : l'.slots ⊆ l.slots) :
    Linked base nodes l' where
  start := h.start
  once := by
    rw [trees]
    exact h.once
  owned := by
    rw [trees]
    exact h.owned
  found := by
    rw [trees]
    exact h.found
  below := h.below
  parts c mem := by
    rw [trees]
    exact h.parts c (parts c mem)
  slots id mem := h.slots id (slots mem)

/-- Trees without owners may join. -/
theorem append {trees : List SourceTree} (h : Linked base nodes l) (none : ownersOf trees = []) :
    Linked base nodes { l with trees := l.trees ++ trees } where
  start := h.start
  once := by
    rw [ownersOf_append, none, List.append_nil]
    exact h.once
  owned t occurs id own := by
    rcases occurs_append.1 occurs with before | joined
    · exact h.owned t before id own
    · have mem := mem_ownersOf_of_occurs joined own
      rw [none] at mem
      cases mem
  found id behind t source := by
    obtain ⟨occurs, own⟩ := h.found id behind t source
    exact ⟨occurs_append.2 (.inl occurs), own⟩
  below := h.below
  parts := h.parts.mono (Nat.le_refl _) fun _ occurs => occurs_append.2 (.inl occurs)
  slots := h.slots

/-- The trees may be put into a branch without owner. -/
theorem group {tree : SourceTree} (h : Linked base nodes l) (unowned : tree.owner = none)
    (children : tree.children = l.trees) : Linked base nodes { l with trees := [tree] } where
  start := h.start
  once := by
    rw [ownersOf_singleton, unowned, children]
    exact h.once
  owned t occurs id own := by
    rcases occurs_singleton.1 occurs with rfl | inside
    · rw [unowned] at own
      cases own
    · rw [children] at inside
      exact h.owned t inside id own
  found id behind t source := by
    obtain ⟨occurs, own⟩ := h.found id behind t source
    rw [← children] at occurs
    exact ⟨occurs_singleton.2 (.inr occurs), own⟩
  below := h.below
  parts := by
    refine h.parts.mono (Nat.le_refl _) fun t occurs => occurs_singleton.2 (.inr ?_)
    rwa [children]
  slots := h.slots

/-- A new node `n` at `id` gets the loose parts, and owns a tree over the loose trees. -/
theorem construct (h : Linked base nodes l) (self : ∃ m, nodes'[id]? = some m ∧ m.unplaced = n.unplaced)
    (other : ∀ j, j ≠ id → SameAt nodes nodes' j) (behind : base ≤ id) (fresh : sourceOf? nodes id = none)
    (free : ∀ (j : NodeId) m, nodes[j]? = some m → .node id ∉ m.properties.parts)
    (apart : .node id ∉ n.properties.parts) (fewer : n.properties.parts ⊆ l.parts)
    (source : ∀ t, n.source = some t → t.owner = some id ∧ t.children = l.trees)
    (sourceless : n.source = none → l.trees = []) :
    Linked base nodes' { parts := [.node id], trees := n.source.toList } := by
  obtain ⟨m, foundSelf, same⟩ := self
  have sourceSelf : sourceOf? nodes' id = n.source := by
    rw [sourceOf?_of_found foundSelf, AstNode.source_of_unplaced same]
  have sources : ∀ {j}, j ≠ id → sourceOf? nodes' j = sourceOf? nodes j :=
    fun differ => (other _ differ).source
  have inside : ∀ {t}, Occurs t l.trees → Occurs t n.source.toList := by
    intro t occurs
    cases given : n.source with
    | none =>
      rw [sourceless given] at occurs
      exact absurd occurs not_occurs_nil
    | some tree =>
      rw [← (source tree given).2] at occurs
      exact occurs_singleton.2 (.inr occurs)
  -- the node owned no tree before, so it owns none below its own
  have unowned : ∀ {t}, Occurs t l.trees → t.owner ≠ some id := by
    intro t occurs own
    have has := (h.owned t occurs id own).2
    rw [fresh] at has
    cases has
  have covers : ∀ {parts trees}, .node id ∉ parts → Covers base nodes parts trees →
      Covers base nodes' parts trees := by
    intro parts trees absent covered
    exact covered.congr fun c mem => sources fun same => absent (same ▸ mem)
  refine ⟨?start, ?once, ?owned, ?found, ?below, ?parts, nofun⟩
  case start => exact behind.trans (Array.getElem?_eq_some_iff.1 foundSelf).1.le
  case once =>
    cases given : n.source with
    | none => exact List.nodup_nil
    | some tree =>
      obtain ⟨own, children⟩ := source tree given
      rw [Option.toList_some, ownersOf_singleton, own, children]
      refine List.nodup_cons.2 ⟨fun mem => ?_, h.once⟩
      obtain ⟨t, occurs, own⟩ := occurs_of_mem_ownersOf l.trees mem
      exact unowned occurs own
  case owned =>
    intro t occurs j own
    cases given : n.source with
    | none =>
      rw [given] at occurs
      exact absurd occurs not_occurs_nil
    | some tree =>
      rw [given] at occurs
      obtain ⟨ownSelf, children⟩ := source tree given
      rcases occurs_singleton.1 occurs with rfl | below
      · obtain rfl : id = j := Option.some.inj (ownSelf.symm.trans own)
        exact ⟨behind, sourceSelf.trans given⟩
      · rw [children] at below
        have differ : j ≠ id := fun same => unowned below (same ▸ own)
        rw [sources differ]
        exact h.owned t below j own
  case found =>
    intro j behind t has
    by_cases same : j = id
    · subst same
      rw [sourceSelf] at has
      refine ⟨?_, (source t has).1⟩
      rw [has]
      exact occurs_singleton.2 (.inl rfl)
    · rw [sources same] at has
      obtain ⟨occurs, own⟩ := h.found j behind t has
      exact ⟨inside occurs, own⟩
  case below =>
    intro j behind m' t found has
    by_cases differ : j = id
    · subst differ
      obtain rfl : m = m' := Option.some.inj (foundSelf.symm.trans found)
      rw [AstNode.properties_of_unplaced same]
      rw [AstNode.source_of_unplaced same] at has
      rw [(source t has).2]
      exact covers apart fun c mem => h.parts c (fewer mem)
    · obtain ⟨m₀, found₀, same₀⟩ := (other j differ).node found
      rw [AstNode.source_of_unplaced same₀] at has
      rw [AstNode.properties_of_unplaced same₀]
      exact covers (free j m₀ found₀) (h.below j behind m₀ t found₀ has)
  case parts =>
    rintro c mem
    obtain rfl : c = id := by simpa using mem
    refine ⟨behind, fun t has => ?_⟩
    rw [sourceSelf] at has
    rw [has]
    exact occurs_singleton.2 (.inl rfl)

/-- A node that is taken over gives away its parts and its tree, which has no owner then. -/
theorem reopen {tree : SourceTree}
    (h : Linked base nodes (l ++ { parts := [.node id], trees := [tree] })) (own : tree.owner = some id)
    (found : nodes[id]? = some n) (parts : List Part) (fewer : parts ⊆ n.properties.parts ++ l.parts) :
    Linked base (nodes.setIfInBounds id { n with properties := .empty, source := none })
      { parts, slots := [id], trees := l.trees ++ [tree.withOwner none] } := by
  have bound := (Array.getElem?_eq_some_iff.1 found).1
  generalize set : nodes.setIfInBounds id { n with properties := .empty, source := none } = nodes'
  have foundSelf : nodes'[id]? = some { n with properties := .empty, source := none } := by
    simp [← set, bound]
  have foundOther : ∀ {j}, j ≠ id → nodes'[j]? = nodes[j]? := by
    intro j differ
    simp [← set, Ne.symm differ]
  have sourceSelf : sourceOf? nodes' id = none := sourceOf?_of_found foundSelf
  have sources : ∀ {j}, j ≠ id → sourceOf? nodes' j = sourceOf? nodes j := by
    intro j differ
    rw [sourceOf?, sourceOf?, foundOther differ]
  have differs : ∀ {j t}, sourceOf? nodes' j = some t → j ≠ id := by
    rintro j t has rfl
    rw [sourceSelf] at has
    cases has
  have top : Occurs tree (l.trees ++ [tree]) := occurs_append.2 (.inr (occurs_singleton.2 (.inl rfl)))
  obtain ⟨behind, sourceBefore⟩ := h.owned tree top id own
  rw [sourceOf?_of_found found] at sourceBefore
  have kept : ∀ {t j}, Occurs t (l.trees ++ [tree]) → t.owner = some j → j ≠ id →
      Occurs t (l.trees ++ [tree.withOwner none]) := by
    intro t j occurs ownOther differ
    refine occurs_disowned occurs ?_
    rw [ownOther, own]
    exact fun same => differ (Option.some.inj same)
  have onceBefore := h.once
  rw [Loose.trees_append, ownersOf_append, ownersOf_singleton, own, Option.toList_some,
    List.singleton_append] at onceBefore
  refine ⟨?start, ?once, ?owned, ?found, ?below, ?parts, ?slots⟩
  case start =>
    rw [← set, Array.size_setIfInBounds]
    exact h.start
  case once =>
    rw [ownersOf_disowned]
    exact onceBefore.sublist ((List.Sublist.refl _).append (List.sublist_cons_self _ _))
  case owned =>
    intro t occurs j ownOther
    have differ : j ≠ id := by
      rintro rfl
      have mem := mem_ownersOf_of_occurs occurs ownOther
      rw [ownersOf_disowned] at mem
      exact (List.nodup_cons.1 (List.nodup_middle.1 onceBefore)).1 mem
    rw [sources differ]
    exact h.owned t (occurs_of_disowned occurs ownOther) j ownOther
  case found =>
    intro j behind t has
    have differ := differs has
    rw [sources differ] at has
    obtain ⟨occurs, ownOther⟩ := h.found j behind t has
    exact ⟨kept occurs ownOther differ, ownOther⟩
  case below =>
    intro j behind m t kept has
    rw [foundOther (differs ((sourceOf?_of_found kept).trans has))] at kept
    intro c mem
    obtain ⟨behind, occurs⟩ := h.below j behind m t kept has c mem
    refine ⟨behind, fun u has => occurs u ?_⟩
    rwa [sources (differs has)] at has
  case parts =>
    intro c mem
    have given : Covers base nodes n.properties.parts (l.trees ++ [tree]) :=
      (h.below id behind n tree found sourceBefore).mono (Nat.le_refl _) fun _ occurs =>
        occurs_append.2 (.inr (occurs_singleton.2 (.inr occurs)))
    have outer : Covers base nodes l.parts (l.trees ++ [tree]) := fun c mem =>
      h.parts c (List.mem_append_left _ mem)
    obtain ⟨behind, occurs⟩ := given.append outer c (fewer mem)
    refine ⟨behind, fun t has => ?_⟩
    have differ := differs has
    rw [sources differ] at has
    exact kept (occurs t has) (h.found c behind t has).2 differ
  case slots =>
    intro j mem
    obtain rfl : j = id := by simpa using mem
    exact ⟨behind, sourceSelf⟩

/-- What an invocation has made stands beside what there was before. -/
theorem join {l' : Loose} (outer : Linked base nodes l) (inner : Linked nodes.size nodes' l')
    (kept : ∀ j, j < nodes.size → SameAt nodes nodes' j)
    (bounded : ∀ (id : NodeId) n, nodes[id]? = some n →
      ∀ c, .node c ∈ n.properties.parts → c < nodes.size)
    (parts : ∀ c, .node c ∈ l.parts → c < nodes.size) (slots : ∀ id ∈ l.slots, id < nodes.size) :
    Linked base nodes' (l ++ l') := by
  have covers : ∀ {parts trees}, (∀ c, .node c ∈ parts → c < nodes.size) →
      Covers base nodes parts trees → Covers base nodes' parts trees := by
    intro parts trees old covered
    exact covered.congr fun c mem => (kept c (old c mem)).source
  have lt_size : ∀ {id : NodeId} {t}, sourceOf? nodes id = some t → id < nodes.size := by
    intro id t has
    obtain ⟨n, found, -⟩ := Option.bind_eq_some_iff.1 has
    exact (Array.getElem?_eq_some_iff.1 found).1
  refine ⟨outer.start.trans inner.start, ?once, ?owned, ?found, ?below, ?parts, ?slots⟩
  case once =>
    rw [Loose.trees_append, ownersOf_append]
    refine List.nodup_append.2 ⟨outer.once, inner.once, fun id left j right same => ?_⟩
    subst same
    obtain ⟨t, occurs, own⟩ := occurs_of_mem_ownersOf _ left
    obtain ⟨t', occurs', own'⟩ := occurs_of_mem_ownersOf _ right
    have before := lt_size (outer.owned t occurs id own).2
    have behind := (inner.owned t' occurs' id own').1
    exact absurd before (Nat.not_lt.2 behind)
  case owned =>
    intro t occurs id own
    rcases occurs_append.1 occurs with before | made
    · obtain ⟨behind, has⟩ := outer.owned t before id own
      rw [(kept id (lt_size has)).source]
      exact ⟨behind, has⟩
    · obtain ⟨behind, has⟩ := inner.owned t made id own
      exact ⟨outer.start.trans behind, has⟩
  case found =>
    intro id behind t has
    by_cases before : id < nodes.size
    · rw [(kept id before).source] at has
      obtain ⟨occurs, own⟩ := outer.found id behind t has
      exact ⟨occurs_append.2 (.inl occurs), own⟩
    · obtain ⟨occurs, own⟩ := inner.found id (Nat.le_of_not_lt before) t has
      exact ⟨occurs_append.2 (.inr occurs), own⟩
  case below =>
    intro id behind m t found has
    by_cases before : id < nodes.size
    · obtain ⟨n, foundBefore, same⟩ := (kept id before).node found
      rw [AstNode.source_of_unplaced same] at has
      rw [AstNode.properties_of_unplaced same]
      exact covers (bounded id n foundBefore) (outer.below id behind n t foundBefore has)
    · have covered := inner.below id (Nat.le_of_not_lt before) m t found has
      exact covered.mono outer.start fun _ occurs => occurs
  case parts =>
    refine .append ((covers parts outer.parts).mono (Nat.le_refl _) ?_) (inner.parts.mono outer.start ?_)
    · exact fun _ occurs => occurs_append.2 (.inl occurs)
    · exact fun _ occurs => occurs_append.2 (.inr occurs)
  case slots =>
    intro id mem
    rcases List.mem_append.1 mem with old | made
    · obtain ⟨behind, none⟩ := outer.slots id old
      rw [(kept id (slots id old)).source]
      exact ⟨behind, none⟩
    · obtain ⟨behind, none⟩ := inner.slots id made
      exact ⟨outer.start.trans behind, none⟩

end Linked

end Arena

end Workbench
