import Workbench.Proofs.Parser.Correspondence
import Workbench.Proofs.Parser.Lockstep

/-!
**Links between the trees.**

On the arenas, what belongs together knows each other by numbers: a composite lists its children, which have
it as their parent, and a node has a composite, which has the node. All of it can be read off the source tree
that the concrete tree shows. So the numbers are in range, every composite but the root lies around visible
leaves, and the composite of a node lies below that of its container.
-/

namespace Workbench

namespace Cst

open SourceTree

/-! ### Below the root -/

/-- A node has a parent. -/
def IsParent (a : Cst) (p c : CstId) : Prop := ∃ n, a.node? c = some n ∧ n.parent = some p

/-- The nodes that composites list, from the root on. -/
inductive Reachable (a : Cst) : CstId → Prop where
  | root : Reachable a a.root
  | child {c d : CstId} {n : CstNode} (above : Reachable a c) (found : a.node? c = some n)
    (mem : d ∈ n.children) : Reachable a d

/-! ### Leaves -/

/-- A walk to leaves with a stack: those found, and the nodes to go to, the next one in front. -/
structure LeafWalk where
  found : List CstId
  stack : List CstId

/-- A turn of the walk `leaves`: a leaf is found, and a composite is replaced by what it lists. -/
def LeafWalk.next (a : Cst) (w : LeafWalk) : Except Unit (Option LeafWalk) :=
  match w.stack with
  | [] => .ok none
  | c :: stack =>
    match a.node? c with
    | none => .error ()
    | some n =>
      if n.isLeaf then .ok (some ⟨w.found ++ [c], stack⟩)
      else .ok (some ⟨w.found, n.children ++ stack⟩)

/-- The walk from a node ends with these leaves. -/
def Leaves (a : Cst) (c : CstId) (leaves : List CstId) : Prop :=
  Loop.Ends (LeafWalk.next a) ⟨[], [c]⟩ (.ok ⟨leaves, []⟩)

/-- Where the visible ones among some nodes stand. -/
def visibleRanges (a : Cst) (ids : List CstId) : List TextRange :=
  ((ids.filterMap a.node?).filter (!·.isHidden)).map (·.range)

/-- A node has one list of leaves. -/
theorem Leaves.unique {a : Cst} {c : CstId} {xs ys : List CstId} (h : a.Leaves c xs) (h' : a.Leaves c ys) :
    xs = ys := by
  cases Loop.Ends.unique h h'
  rfl

theorem visibleRanges_append (a : Cst) (xs ys : List CstId) :
    a.visibleRanges (xs ++ ys) = a.visibleRanges xs ++ a.visibleRanges ys := by
  simp [visibleRanges]

namespace Shows

variable {a : Cst} {p : Option CstId} {c d : CstId} {n : CstNode} {cs ids : List CstId} {t u : SourceTree}
  {ts : List SourceTree}

/-- The walk finds the leaves of the trees that are shown. -/
theorem ends_leaves (h : Shows a p cs ts ids) : ∃ leaves,
    a.visibleRanges leaves = ((leavesOf ts).filter Token.isVisible).map Token.range ∧
    ∀ {found stack : List CstId} {r : Except Unit LeafWalk},
      Loop.Ends (LeafWalk.next a) ⟨found ++ leaves, stack⟩ r →
      Loop.Ends (LeafWalk.next a) ⟨found, cs ++ stack⟩ r := by
  induction h with
  | nil => exact ⟨[], rfl, fun ends => by simpa using ends⟩
  | @leaf p c cs ids token feature ts here rest ih =>
    obtain ⟨leaves, same, walk⟩ := ih
    refine ⟨c :: leaves, ?_, fun {found stack r} ends => ?_⟩
    · have single : a.visibleRanges [c] = (([token] : List Token).filter Token.isVisible).map Token.range := by
        cases hidden : token.kind.isHidden <;>
          simp [visibleRanges, here, CstNode.ofToken, CstNode.isHidden, Token.isVisible, hidden]
      rw [← List.singleton_append, visibleRanges_append, single, same, leavesOf, List.filter_append,
        List.map_append]
      rfl
    · refine .next (t := ⟨found ++ [c], cs ++ stack⟩) ?_ (walk (by simpa using ends))
      simp [LeafWalk.next, here, CstNode.ofToken, CstNode.isLeaf]
  | @branch p c cs ds inner ids rule feature range owner us ts here below rest ih ih' =>
    obtain ⟨first, same, walk⟩ := ih
    obtain ⟨second, same', walk'⟩ := ih'
    refine ⟨first ++ second, ?_, fun {found stack r} ends => ?_⟩
    · rw [visibleRanges_append, same, same', leavesOf, leaves, List.filter_append, List.map_append]
    · refine .next (t := ⟨found, ds ++ (cs ++ stack)⟩) ?_ (walk (walk' (by simpa using ends)))
      simp [LeafWalk.next, here, CstNode.isLeaf, CstNode.children]

/-- One tree that is shown among others. -/
theorem get (h : Shows a p cs ts ids) {i : Nat} (found : ts[i]? = some t) :
    ∃ c own, c ∈ cs ∧ Shows a p [c] [t] own := by
  induction h generalizing i with
  | nil => cases found
  | @leaf p c cs ids token feature ts here rest ih =>
    cases i with
    | zero =>
      obtain rfl := Option.some.inj found
      exact ⟨c, _, List.mem_cons_self, .leaf here .nil⟩
    | succ i =>
      obtain ⟨d, own, mem, shown⟩ := ih found
      exact ⟨d, own, List.mem_cons_of_mem _ mem, shown⟩
  | @branch p c cs ds inner ids rule feature range owner us ts here below rest ih ih' =>
    cases i with
    | zero =>
      obtain rfl := Option.some.inj found
      exact ⟨c, _, List.mem_cons_self, .branch here below .nil⟩
    | succ i =>
      obtain ⟨d, own, mem, shown⟩ := ih' found
      exact ⟨d, own, List.mem_cons_of_mem _ mem, shown⟩

/-- The tree at a position is shown by a node below. -/
theorem at? (h : Shows a p [c] [t] ids) {q : List Nat} (found : t.at? q = some u) :
    ∃ d o own, Shows a o [d] [u] own ∧ (q = [] ∧ d = c ∨ Relation.TransGen a.IsParent c d) := by
  induction q generalizing c t p ids with
  | nil =>
    obtain rfl := Option.some.inj found
    exact ⟨c, p, ids, h, .inl ⟨rfl, rfl⟩⟩
  | cons i q ih =>
    obtain ⟨child, isChild, further⟩ := at?_cons_eq_some_iff.1 found
    cases h with
    | leaf => cases isChild
    | branch here below =>
      obtain ⟨e, own, mem, shown⟩ := below.get isChild
      obtain ⟨n, isNode, parent, -⟩ := shown.single
      have up : a.IsParent c e := ⟨n, isNode, parent⟩
      obtain ⟨d, o, own, shown, path⟩ := ih shown further
      refine ⟨d, o, own, shown, .inr ?_⟩
      rcases path with ⟨-, rfl⟩ | path
      · exact .single up
      · exact .head up path

/-- A node of the footprint shows a tree at a position. -/
theorem exists_at? (h : Shows a p cs ts ids) (mem : d ∈ ids) :
    ∃ (i : Nat) (t : SourceTree) (q : List Nat) (u : SourceTree) (o : Option CstId) (own : List CstId),
      ts[i]? = some t ∧ t.at? q = some u ∧ Shows a o [d] [u] own ∧ (q = [] → cs[i]? = some d) := by
  induction h with
  | nil => cases mem
  | @leaf p c cs ids token feature ts here rest ih =>
    rcases List.mem_cons.1 mem with rfl | mem
    · exact ⟨0, _, [], _, p, _, rfl, rfl, .leaf here .nil, fun _ => rfl⟩
    · obtain ⟨i, found⟩ := ih mem
      exact ⟨i + 1, found⟩
  | @branch p c cs ds inner ids rule feature range owner us ts here below rest ih ih' =>
    rcases List.mem_cons.1 mem with rfl | mem
    · exact ⟨0, _, [], _, p, _, rfl, rfl, .branch here below .nil, fun _ => rfl⟩
    · rcases List.mem_append.1 mem with mem | mem
      · obtain ⟨i, t, q, u, o, own, isChild, found, shown, -⟩ := ih mem
        exact ⟨0, _, i :: q, u, o, own, rfl, at?_cons_eq_some_iff.2 ⟨t, isChild, found⟩, shown, nofun⟩
      · obtain ⟨i, found⟩ := ih' mem
        exact ⟨i + 1, found⟩

end Shows

end Cst

namespace Engine

open Cst SourceTree

namespace Tree

/-! ### Numbers in range -/

/-- All numbers that the trees store are in range: those of nodes, of references and of nodes of the concrete
tree, also where something hangs nowhere. -/
structure InRange (t : Tree) : Prop where
  root : t.root < t.nodes.size
  contents : ∀ n ∈ t.nodes, ∀ c ∈ n.properties.nodes, c < t.nodes.size
  references : ∀ n ∈ t.nodes, ∀ r ∈ n.properties.references, r < t.references.size
  holders : ∀ n ∈ t.nodes, ∀ place ∈ n.place, place.holder < t.nodes.size
  referenceHolders : ∀ q ∈ t.references, ∀ place ∈ q.place, place.holder < t.nodes.size
  cst : ∀ n ∈ t.nodes, ∀ c ∈ n.cst, c < t.cst.nodes.size
  referenceCst : ∀ q ∈ t.references, ∀ c ∈ q.cst, c < t.cst.nodes.size
  cstRoot : t.cst.root < t.cst.nodes.size
  children : ∀ n ∈ t.cst.nodes, ∀ c ∈ n.children, c < t.cst.nodes.size
  parents : ∀ n ∈ t.cst.nodes, ∀ c ∈ n.parent, c < t.cst.nodes.size
  asts : ∀ n ∈ t.cst.nodes, ∀ i ∈ n.ast, i < t.nodes.size

/-! ### Trees that correspond -/

/-- The nodes that hang in the abstract tree. -/
inductive Reachable (t : Tree) : NodeId → Prop where
  | root : Reachable t t.root
  | child {id c : NodeId} {n : Node} (above : Reachable t id) (found : t.nodes[id]? = some n)
    (mem : c ∈ n.properties.nodes) : Reachable t c

/-- What it means that the abstract and the concrete tree correspond. -/
structure Corresponds (t : Tree) : Prop where
  /-- What a composite lists has it as its parent. -/
  parent : ∀ c n, t.cst.Reachable c → t.cst.node? c = some n → ∀ d ∈ n.children,
    ∃ m, t.cst.node? d = some m ∧ m.parent = some c
  /-- One composite lists a node, and lists it once. -/
  listedOnce : ∀ (b c d : CstId) (n m : CstNode) (i j : Nat), t.cst.Reachable b → t.cst.Reachable c →
    t.cst.node? b = some n → t.cst.node? c = some m → n.children[i]? = some d → m.children[j]? = some d →
    b = c ∧ i = j
  /-- A composite that is not the root goes from its first visible leaf to its last one; there is one. -/
  spans : ∀ c n, t.cst.Reachable c → t.cst.node? c = some n → c ≠ t.cst.root → n.isLeaf = false →
    ∃ leaves first last, t.cst.Leaves c leaves ∧ (t.cst.visibleRanges leaves).head? = some first ∧
      (t.cst.visibleRanges leaves).getLast? = some last ∧
      n.range.start = first.start ∧ n.range.stop = last.stop
  /-- A node has a composite if and only if this has the node. -/
  cst_iff : ∀ id c, (∃ n, t.nodes[id]? = some n ∧ n.cst = some c) ↔
    ∃ n, t.cst.node? c = some n ∧ n.ast = some id
  /-- The composite of a node lies strictly below that of its container, and within its range. -/
  below : ∀ id n place m c d, t.Reachable id → t.nodes[id]? = some n → n.place = some place →
    t.nodes[place.holder]? = some m → n.cst = some c → m.cst = some d →
    Relation.TransGen t.cst.IsParent d c ∧
      ∃ inner outer, t.cst.node? c = some inner ∧ t.cst.node? d = some outer ∧
        outer.range.start ≤ inner.range.start ∧ inner.range.stop ≤ outer.range.stop

/-! ### Read off the source tree -/

namespace Draws

variable {t : Tree} {ast : Ast}

section

variable (h : t.Draws ast)

include h

theorem node {id : NodeId} {n : Node} (found : t.nodes[id]? = some n) :
    ∃ n', ast.nodes[id]? = some n' ∧ n'.properties = n.properties ∧ n'.place = n.place := by
  have same := h.alike.node id
  rw [found] at same
  obtain ⟨n', found', eq⟩ := Option.map_eq_some_iff.1 same.symm
  exact ⟨n', found', congrArg Node.properties eq, congrArg Node.place eq⟩

theorem reference {id : RefId} {q : Ref} (found : t.references[id]? = some q) :
    ∃ q', ast.references[id]? = some q' ∧ q'.place = q.place := by
  have same := h.alike.reference id
  rw [found] at same
  obtain ⟨q', found', eq⟩ := Option.map_eq_some_iff.1 same.symm
  exact ⟨q', found', congrArg Ref.place eq⟩

theorem reachable {id : NodeId} (reached : t.Reachable id) : ast.Reachable id := by
  induction reached with
  | root =>
    rw [h.root]
    exact .root
  | @child id c n above found mem ih =>
    obtain ⟨n', found', properties, -⟩ := h.node found
    refine .child ih ?_
    rw [Ast.contents, Ast.node?, found', Option.map_some, Option.getD_some, AstNode.contents, properties]
    exact mem

/-- What a node points at, it owns. -/
theorem pointed {id : NodeId} {n : Node} {c : CstId} (found : t.nodes[id]? = some n) (cst : n.cst = some c) :
    ∃ u p own, sourceOf? ast.nodes id = some u ∧ u.owner = some id ∧ Shows t.cst p [c] [u] own := by
  obtain ⟨ids, -, tied⟩ := h.drawn
  have points := tied.ofNode id
  rw [cstOf?, found, Option.bind_some, cst] at points
  cases source : sourceOf? ast.nodes id with
  | none =>
    rw [source] at points
    cases points
  | some u =>
    rw [source] at points
    cases points with
    | some points =>
      obtain ⟨owner, p, own, shown, -⟩ := points
      exact ⟨u, p, own, rfl, owner, shown⟩

theorem referencePointed {id : RefId} {q : Ref} {c : CstId} (found : t.references[id]? = some q)
    (cst : q.cst = some c) : ∃ u p own, Shows t.cst p [c] [u] own := by
  obtain ⟨ids, -, tied⟩ := h.drawn
  have points := tied.ofReference id
  rw [cstOfRef?, found, Option.bind_some, cst] at points
  generalize sourceOfRef? ast.references id = source at points
  cases points with
  | some points =>
    obtain ⟨-, p, own, shown, -⟩ := points
    exact ⟨_, p, own, shown⟩

/-- A composite that has a node is the one that the node has. -/
theorem linked {c : CstId} {n : CstNode} {id : NodeId} (found : t.cst.node? c = some n)
    (owner : n.ast = some id) : ∃ m, t.nodes[id]? = some m ∧ m.cst = some c := by
  obtain ⟨ids, -, tied⟩ := h.drawn
  exact Option.bind_eq_some_iff.1 (tied.linked c n id found owner)

/-- **All numbers in drawn trees are in range.** -/
theorem inRange (bounds : ast.InRange) : t.InRange := by
  obtain ⟨ids, whole, -⟩ := h.drawn
  have size : ast.nodes.size = t.nodes.size := h.alike.size_nodes.symm
  have sizeRefs : ast.references.size = t.references.size := h.alike.size_references.symm
  have isNode : ∀ n ∈ t.nodes, ∃ n' ∈ ast.nodes, n'.properties = n.properties ∧ n'.place = n.place := by
    intro n mem
    obtain ⟨id, found⟩ := Array.getElem?_of_mem mem
    obtain ⟨n', found', same⟩ := h.node found
    exact ⟨n', Array.mem_of_getElem? found', same⟩
  have root : t.cst.root ∈ ids := whole.shown.subset (List.mem_singleton_self _)
  refine ⟨?root, ?contents, ?references, ?holders, ?referenceHolders, ?cst, ?referenceCst,
    whole.shown.lt_size root, ?children, ?parents, ?asts⟩
  case root =>
    rw [h.root, ← size]
    exact bounds.root
  case contents =>
    intro n mem c held
    obtain ⟨n', mem', properties, -⟩ := isNode n mem
    rw [← properties] at held
    exact size ▸ bounds.contents n' mem' c held
  case references =>
    intro n mem r held
    obtain ⟨n', mem', properties, -⟩ := isNode n mem
    rw [← properties] at held
    exact sizeRefs ▸ bounds.references n' mem' r held
  case holders =>
    intro n mem place at_
    obtain ⟨n', mem', -, same⟩ := isNode n mem
    rw [← same] at at_
    exact size ▸ bounds.holders n' mem' place at_
  case referenceHolders =>
    intro q mem place at_
    obtain ⟨id, found⟩ := Array.getElem?_of_mem mem
    obtain ⟨q', found', same⟩ := h.reference found
    rw [← same] at at_
    exact size ▸ bounds.referenceHolders q' (Array.mem_of_getElem? found') place at_
  case cst =>
    intro n mem c cst
    obtain ⟨id, found⟩ := Array.getElem?_of_mem mem
    obtain ⟨u, p, own, -, -, shown⟩ := h.pointed found cst
    exact shown.lt_size (shown.subset (List.mem_singleton_self _))
  case referenceCst =>
    intro q mem c cst
    obtain ⟨id, found⟩ := Array.getElem?_of_mem mem
    obtain ⟨u, p, own, shown⟩ := h.referencePointed found cst
    exact shown.lt_size (shown.subset (List.mem_singleton_self _))
  case children =>
    intro n mem d listed
    obtain ⟨c, found⟩ := Array.getElem?_of_mem mem
    rcases whole.rest c n found with inside | gone
    · exact whole.shown.lt_size (whole.shown.listed inside found listed).1
    · rw [gone.children] at listed
      cases listed
  case parents =>
    intro n mem d parent
    obtain ⟨c, found⟩ := Array.getElem?_of_mem mem
    rcases whole.rest c n found with inside | gone
    · by_cases outermost : c ∈ [t.cst.root]
      · rw [whole.shown.parent_of_mem outermost found] at parent
        cases parent
      · obtain ⟨e, above, isParent⟩ := whole.shown.parent_mem inside outermost found
        obtain rfl := Option.some.inj (isParent.symm.trans parent)
        exact whole.shown.lt_size above
    · rw [gone.parent] at parent
      cases parent
  case asts =>
    intro n mem i ast
    obtain ⟨c, found⟩ := Array.getElem?_of_mem mem
    obtain ⟨m, isNode, -⟩ := h.linked found ast
    exact (Array.getElem?_eq_some_iff.1 isNode).1

/-- The composite of a node is the one that shows the tree which the node owns. -/
theorem cst_eq {id : NodeId} {n : Node} {c d : CstId} {p : Option CstId} {u : SourceTree} {own : List CstId}
    (found : t.nodes[id]? = some n) (cst : n.cst = some c) (shown : Shows t.cst p [d] [u] own)
    (owner : u.owner = some id) : d = c := by
  obtain ⟨m, isNode, -, -, ast, -⟩ := shown.single
  obtain ⟨n', found', linked⟩ := h.linked isNode (ast.trans owner)
  obtain rfl := Option.some.inj (found'.symm.trans found)
  exact Option.some.inj (linked.symm.trans cst)

omit h in
/-- A composite below the root goes from its first visible leaf to its last one. -/
theorem spans (framed : ast.Framed) {ids : List CstId} (whole : Whole t.cst ast.source ids) {c : CstId}
    {n : CstNode} (mem : c ∈ ids) (found : t.cst.node? c = some n) (inner : c ≠ t.cst.root)
    (isLeaf : n.isLeaf = false) :
    ∃ leaves first last, t.cst.Leaves c leaves ∧ (t.cst.visibleRanges leaves).head? = some first ∧
      (t.cst.visibleRanges leaves).getLast? = some last ∧
      n.range.start = first.start ∧ n.range.stop = last.stop := by
  obtain ⟨i, u, q, v, o, own, isSource, position, shown, outermost⟩ := whole.shown.exists_at? mem
  obtain ⟨rfl, rfl⟩ : i = 0 ∧ ast.source = u := by simpa [List.getElem?_singleton] using isSource
  have below : q ≠ [] := fun none => inner (by simpa using (outermost none).symm)
  obtain ⟨n', isNode, -, range, -⟩ := shown.single
  obtain rfl := Option.some.inj (found.symm.trans isNode)
  have branch : v.isBranch = true := by
    cases shown with
    | leaf here =>
      rw [found] at here
      cases here
      cases isLeaf
    | branch => rfl
  obtain ⟨first, last, head, end_, start, stop⟩ := framed.spans position below branch
  obtain ⟨leaves, same, walk⟩ := shown.ends_leaves
  have visible : t.cst.visibleRanges leaves = v.visible.map Token.range := by
    rw [same, leavesOf, leavesOf, List.append_nil]
    rfl
  refine ⟨leaves, first.range, last.range, walk (.stop rfl), ?_, ?_, ?_, ?_⟩
  · rw [visible, List.head?_map, head]
    rfl
  · rw [visible, List.getLast?_map, end_]
    rfl
  · exact (congrArg TextRange.start range).trans start
  · rw [range, stop]
    exact (Nat.max_eq_right (Nat.le_add_right _ _)).symm

/-- The composite of a node lies below that of its container, as the branch of the one lies below that of the
other. -/
theorem below (corresponds : ast.Corresponds) {id : NodeId} {n m : Node} {place : Place} {c d : CstId}
    (reached : t.Reachable id) (found : t.nodes[id]? = some n) (isPlace : n.place = some place)
    (foundAbove : t.nodes[place.holder]? = some m) (cst : n.cst = some c) (cstAbove : m.cst = some d) :
    Relation.TransGen t.cst.IsParent d c ∧
      ∃ inner outer, t.cst.node? c = some inner ∧ t.cst.node? d = some outer ∧
        outer.range.start ≤ inner.range.start ∧ inner.range.stop ≤ outer.range.stop := by
  obtain ⟨ids, whole, -⟩ := h.drawn
  obtain ⟨u, p, own, source, owner, shown⟩ := h.pointed found cst
  obtain ⟨v, -, -, sourceAbove, ownerAbove, -⟩ := h.pointed foundAbove cstAbove
  obtain ⟨n', found', has⟩ := Ast.node_source_iff.2 source
  obtain ⟨m', foundAbove', hasAbove⟩ := Ast.node_source_iff.2 sourceAbove
  have isContainer : ast.container? id = some place.holder := by
    obtain ⟨n'', again, -, same⟩ := h.node found
    rw [Ast.container?, Ast.node?, again, Option.bind_some, same, isPlace, Option.map_some]
  obtain ⟨position, path, above, further, inner, start, stop⟩ := corresponds.below id place.holder n' m' u v
    (h.reachable reached) isContainer found' has foundAbove' hasAbove
  have inside : v.at? path = some u := by rwa [at?_append, above, Option.bind_some] at further
  obtain ⟨e, o, own', outside, -⟩ := whole.shown.at? above
  obtain rfl := h.cst_eq foundAbove cstAbove outside ownerAbove
  obtain ⟨f, o', own'', shown', ⟨none, -⟩ | chain⟩ := outside.at? inside
  · exact absurd none inner
  obtain rfl := h.cst_eq found cst shown' owner
  obtain ⟨innerNode, isInner, -, range, -⟩ := shown.single
  obtain ⟨outerNode, isOuter, -, rangeAbove, -⟩ := outside.single
  refine ⟨chain, innerNode, outerNode, isInner, isOuter, ?_, ?_⟩
  · rw [range, rangeAbove]
    exact start
  · rw [range, rangeAbove]
    exact stop

/-- **Drawn trees correspond**, if nodes correspond to branches of the source tree. -/
theorem corresponds (framed : ast.Framed) (corresponds : ast.Corresponds) : t.Corresponds := by
  obtain ⟨ids, whole, -⟩ := h.drawn
  have footprint : ∀ c, t.cst.Reachable c → c ∈ ids := by
    intro c reached
    induction reached with
    | root => exact whole.shown.subset (List.mem_singleton_self _)
    | child above found mem ih => exact (whole.shown.listed ih found mem).1
  refine ⟨?parent, ?listedOnce, ?spans, ?cst_iff, ?below⟩
  case parent =>
    intro c n reached found d mem
    exact (whole.shown.listed (footprint c reached) found mem).2
  case listedOnce =>
    intro b c d n m i j reached reached' found found' left right
    obtain ⟨-, k, isNode, parent⟩ :=
      whole.shown.listed (footprint b reached) found (List.mem_of_getElem? left)
    obtain ⟨-, k', isNode', parent'⟩ :=
      whole.shown.listed (footprint c reached') found' (List.mem_of_getElem? right)
    obtain rfl := Option.some.inj (isNode.symm.trans isNode')
    obtain rfl := Option.some.inj (parent.symm.trans parent')
    obtain rfl := Option.some.inj (found.symm.trans found')
    have once := whole.shown.nodup_children whole.once (footprint b reached) found
    exact ⟨rfl, (List.getElem?_inj (List.getElem?_eq_some_iff.1 left).1 once).1 (left.trans right.symm)⟩
  case spans =>
    intro c n reached found inner isLeaf
    exact spans framed whole (footprint c reached) found inner isLeaf
  case cst_iff =>
    intro id c
    constructor
    · rintro ⟨n, found, cst⟩
      obtain ⟨u, p, own, -, owner, shown⟩ := h.pointed found cst
      obtain ⟨m, isNode, -, -, ast, -⟩ := shown.single
      exact ⟨m, isNode, ast.trans owner⟩
    · rintro ⟨n, found, owner⟩
      exact h.linked found owner
  case below =>
    intro id n place m c d reached found isPlace foundAbove cst cstAbove
    exact h.below corresponds reached found isPlace foundAbove cst cstAbove

end

end Draws

end Tree

/-! ### Parses -/

/-- **Every parse of a text yields trees that correspond**, whatever the grammar, the limits and the keywords
are: the abstract and the concrete tree on the arenas, which draw the document of the parse. -/
theorem corresponds_document (p : Parser) (keywords : List String) (text : String) :
    (parse p (Lexer.tokenize keywords text)).1.Corresponds ∧
      (parse p (Lexer.tokenize keywords text)).1.Draws (p.parse (Lexer.tokenize keywords text)).ast ∧
      (p.parse (Lexer.tokenize keywords text)).ast.Corresponds :=
  have corresponds := p.corresponds_parse keywords text
  have framed := p.framed_parse (Lexer.inOrder_tokenize keywords text)
  have draws := (draws_parse p (Lexer.tokenize keywords text)).1
  ⟨draws.corresponds framed corresponds, draws, corresponds⟩

/-- **Every parse yields well-formed trees**, whatever the grammar, the limits and the tokens are: all numbers
that the arenas store are in range, and the nodes and references are those of a well-formed tree. -/
theorem wellFormed_document (p : Parser) (lexed : LexResult) :
    (parse p lexed).1.InRange ∧ (parse p lexed).1.Draws (p.parse lexed).ast ∧ (p.parse lexed).ast.WellFormed :=
  have wellFormed := p.wellFormed_parse lexed
  have draws := (draws_parse p lexed).1
  ⟨draws.inRange wellFormed.inRange, draws, wellFormed⟩

end Engine

end Workbench
