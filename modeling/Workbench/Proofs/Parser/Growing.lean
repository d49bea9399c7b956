import Workbench.Parser.Engine
import Workbench.Proofs.Cst
import Workbench.Proofs.Parser.Ownership

/-!
**A concrete tree grows.**

While a document is parsed, the composites of the invocations under way are open: each lists what its frame
has so far, and behind it the composite of the invocation inside. The numbers of open composites and the
footprints of what they list have nothing in common, and a composite that is neither is detached. A token
is added at the innermost composite; a composite is opened there, closed and kept, or detached again; and
what it lists is wrapped. Each of these moves is told by what the frames hold afterwards, and by what stays:
the trees that nodes and references point at are shown as before.
-/

namespace Workbench

open Engine

/-- The place in the list of nodes that the object of a frame takes over. -/
def Frame.slot? (f : Frame) : Option NodeId :=
  match f.content with
  | .object o => o.slot
  | .text _ => none

/-- The frame with other trees. -/
def Frame.holding (f : Frame) (trees : List SourceTree) : Frame := { f with children := trees.toArray }

namespace Cst

/-- A composite that is open, and what it was opened with. -/
structure Opened where
  id : CstId
  range : TextRange
  feature : Option String

/-- An open composite as a node. -/
def Opened.node (o : Opened) (rule : RuleId) (children : List CstId) (parent : Option CstId) : CstNode :=
  ⟨.composite (some rule) children, parent, o.range, none, o.feature⟩

/-- The composite around the innermost one of a stack. -/
def outermost? (opened : List Opened) : Option CstId := opened.head?.map (·.id)

/-- The open composites, innermost first, list what their frames hold and then the composite inside;
`ids` is the footprint of all that they list, without themselves. -/
inductive Stacked (a : Cst) : List CstId → List Opened → List Frame → List CstId → Prop where
  | nil {inside : List CstId} : Stacked a inside [] [] []
  | cons {inside l k ids : List CstId} {o : Opened} {opened : List Opened} {f : Frame}
    {frames : List Frame} (here : a.node? o.id = some (o.node f.rule (l ++ inside) (outermost? opened)))
    (holds : Shows a (some o.id) l f.children.toList k) (outer : Stacked a [o.id] opened frames ids) :
    Stacked a inside (o :: opened) (f :: frames) (k ++ ids)

/-- A composite that was closed empty. -/
structure Detached (n : CstNode) : Prop where
  children : n.children = []
  parent : n.parent = none
  ast : n.ast = none

/-- A concrete tree with open composites. -/
structure Grown (a : Cst) (opened : List Opened) (frames : List Frame) (ids : List CstId) : Prop where
  stacked : Stacked a [] opened frames ids
  once : (opened.map (·.id) ++ ids).Nodup
  rest : ∀ c n, a.node? c = some n → c ∈ opened.map (·.id) ∨ c ∈ ids ∨ Detached n
  /-- The root is the outermost of the open composites. -/
  root : (opened.map (·.id)).getLast? = some a.root

/-- A node shows a tree, with a footprint out of `ids`. -/
def Pointed (a : Cst) (ids : List CstId) (c : CstId) (t : SourceTree) : Prop :=
  ∃ p own, Shows a p [c] [t] own ∧ own ⊆ ids ∧ own.Nodup

/-- What the nodes in `ids` show, they show in another concrete tree. -/
def Keeps (a b : Cst) (ids : List CstId) : Prop :=
  ∀ c t, Pointed a ids c t → Pointed b ids c t

/-- A finished concrete tree: all of it is a source tree, or was detached. -/
structure Whole (a : Cst) (t : SourceTree) (ids : List CstId) : Prop where
  shown : Shows a none [a.root] [t] ids
  once : ids.Nodup
  rest : ∀ c n, a.node? c = some n → c ∈ ids ∨ Detached n

/-- The second tree differs from the first one in the node that was built from one composite. -/
structure GivesAst (a b : Cst) (c : CstId) (ast : Option NodeId) : Prop where
  root : b.root = a.root
  node : ∀ d, b.node? d = if d = c then (a.node? d).map ({ · with ast }) else a.node? d

variable {a b : Cst} {c d : CstId} {n : CstNode} {o g : Opened} {opened : List Opened} {f h' : Frame}
  {frames : List Frame} {inside ids own : List CstId}

theorem mem_append_skip {front middle back : List CstId} (mem : d ∈ front ++ back) :
    d ∈ front ++ (middle ++ back) := by
  rcases List.mem_append.1 mem with mem | mem <;> simp [mem]

theorem Pointed.mono {ids' : List CstId} {t : SourceTree} (h : Pointed a ids c t) (within : ids ⊆ ids') :
    Pointed a ids' c t := by
  obtain ⟨p, own, shown, mem, once⟩ := h
  exact ⟨p, own, shown, List.Subset.trans mem within, once⟩

theorem Keeps.of_same (same : ∀ d ∈ ids, b.node? d = a.node? d) : Keeps a b ids := by
  rintro c t ⟨p, own, shown, within, once⟩
  exact ⟨p, own, shown.congr fun d mem => same d (within mem), within, once⟩

/-- Where nodes move away from an open composite, none of them is below another node that points at a
tree. -/
theorem Keeps.of_moved {top : CstId} {q : Option CstId} {cs own : List CstId} {ts : List SourceTree}
    (holds : Shows a (some top) cs ts own) (isOpen : top ∉ ids)
    (moved : ∀ d ∈ cs, b.node? d = (a.node? d).map (·.moveTo q))
    (same : ∀ d ∈ ids, d ∉ cs → b.node? d = a.node? d) : Keeps a b ids := by
  rintro e u ⟨p, foot, shown, within, once⟩
  have still : ∀ d ∈ foot, d ∉ [e] → b.node? d = a.node? d := by
    intro d mem inner
    refine same d (within mem) fun outermost => ?_
    obtain ⟨n, found⟩ := shown.exists_node mem
    obtain ⟨above, memAbove, parent⟩ := shown.parent_mem mem inner found
    rw [holds.parent_of_mem outermost found] at parent
    cases parent
    exact isOpen (within memAbove)
  by_cases outermost : e ∈ cs
  · refine ⟨q, foot, shown.move once (fun d mem => ?_) still, within, once⟩
    obtain rfl := List.mem_singleton.1 mem
    exact moved d outermost
  · refine ⟨p, foot, shown.congr fun d mem => ?_, within, once⟩
    by_cases self : d = e
    · subst self
      exact same d (within mem) outermost
    · exact still d mem (by simpa using self)

namespace Stacked

theorem congr (h : Stacked a inside opened frames ids)
    (same : ∀ d ∈ opened.map (·.id) ++ ids, b.node? d = a.node? d) :
    Stacked b inside opened frames ids := by
  induction h with
  | nil => exact .nil
  | @cons inside cs own ids o opened f frames here holds outer ih =>
    have self : b.node? o.id = a.node? o.id := same _ (by simp)
    refine .cons (self.trans here) (holds.congr fun d mem => same d (by simp [mem])) (ih fun d mem => ?_)
    exact same d (List.mem_cons_of_mem _ (mem_append_skip mem))

theorem lt_size (h : Stacked a inside opened frames ids) (mem : d ∈ opened.map (·.id) ++ ids) :
    d < a.nodes.size := by
  induction h with
  | nil => cases mem
  | cons here holds outer ih =>
    simp only [List.map_cons, List.cons_append, List.mem_cons, List.mem_append] at mem
    rcases mem with rfl | mem | mem | mem
    · exact lt_size_of_node? here
    · exact ih (List.mem_append_left _ mem)
    · exact holds.lt_size mem
    · exact ih (List.mem_append_right _ mem)

end Stacked

/-- Whatever node is built from a composite of the second tree was built from it in the first one; one
composite may be an exception. -/
def AstsFrom (a b : Cst) (but : Option CstId) : Prop :=
  ∀ c n i, but ≠ some c → b.node? c = some n → n.ast = some i → ∃ m, a.node? c = some m ∧ m.ast = some i

/-- The second tree has a new composite, below which all the nodes `cs` of an open one have moved. -/
structure Wraps (a b : Cst) (top : CstId) (cs : List CstId) (inner outer : CstNode) : Prop where
  root : b.root = a.root
  new : b.node? a.nodes.size = some inner
  listed : b.node? top = some outer
  moved : ∀ d ∈ cs, b.node? d = (a.node? d).map (·.moveTo (some a.nodes.size))
  same : ∀ d, d ≠ a.nodes.size → d ≠ top → d ∉ cs → b.node? d = a.node? d

namespace Wraps

variable {top : CstId} {cs : List CstId} {inner outer : CstNode}

/-- Wrapping changes the new composite, the open one and the nodes that move; a node that moves keeps the
node that was built from it. -/
theorem cases (h : Wraps a b top cs inner outer) (found : b.node? d = some n) :
    d = a.nodes.size ∨ (d = top ∧ n = outer) ∨ (d ∈ cs ∧ ∃ m, a.node? d = some m ∧ n.ast = m.ast) ∨
      a.node? d = some n := by
  by_cases isNew : d = a.nodes.size
  · exact .inl isNew
  by_cases isTop : d = top
  · subst isTop
    exact .inr (.inl ⟨rfl, Option.some.inj (found.symm.trans h.listed)⟩)
  by_cases inside : d ∈ cs
  · rw [h.moved d inside] at found
    obtain ⟨m, before, rfl⟩ := Option.map_eq_some_iff.1 found
    exact .inr (.inr (.inl ⟨inside, m, before, rfl⟩))
  · rw [h.same d isNew isTop inside] at found
    exact .inr (.inr (.inr found))

theorem astsFrom (h : Wraps a b top cs inner outer) (none : outer.ast = none) :
    AstsFrom a b (some a.nodes.size) := by
  intro d n i other found ast
  rcases h.cases found with rfl | ⟨-, rfl⟩ | ⟨-, m, before, same⟩ | before
  · exact absurd rfl other
  · rw [none] at ast
    cases ast
  · exact ⟨m, before, same ▸ ast⟩
  · exact ⟨n, before, ast⟩

end Wraps

namespace Grown

theorem lt_size (h : Grown a opened frames ids) (mem : d ∈ opened.map (·.id) ++ ids) : d < a.nodes.size :=
  h.stacked.lt_size mem

theorem not_mem_top (h : Grown a (o :: opened) frames ids) : o.id ∉ opened.map (·.id) ++ ids :=
  (List.nodup_cons.1 h.once).1

theorem ne_top (h : Grown a (o :: opened) frames ids) (mem : d ∈ opened.map (·.id) ++ ids) : d ≠ o.id :=
  fun eq => h.not_mem_top (eq ▸ mem)

theorem ne_size (h : Grown a opened frames ids) (mem : d ∈ opened.map (·.id) ++ ids) : d ≠ a.nodes.size :=
  Nat.ne_of_lt (h.lt_size mem)

theorem top_lt_size (h : Grown a (o :: opened) frames ids) : o.id < a.nodes.size :=
  h.lt_size (by simp)

/-- Only the rule and the trees of a frame matter. -/
theorem of_frame (h : Grown a (o :: opened) (f :: frames) ids) {f' : Frame} (rule : f'.rule = f.rule)
    (children : f'.children = f.children) : Grown a (o :: opened) (f' :: frames) ids where
  stacked := by
    cases h.stacked with
    | cons here holds outer => exact .cons (by rw [rule]; exact here) (by rw [children]; exact holds) outer
  once := h.once
  rest := h.rest
  root := h.root

/-- A number that is neither open nor in a footprint may be added to one. -/
theorem nodup_insert {open' front back : List CstId} (once : (open' ++ (front ++ back)).Nodup)
    (new : c ∉ open' ++ (front ++ back)) : (open' ++ ((front ++ [c]) ++ back)).Nodup := by
  have perm : (open' ++ ((front ++ [c]) ++ back)).Perm (c :: (open' ++ (front ++ back))) := by
    rw [← List.append_assoc, ← List.append_assoc, List.append_assoc, List.singleton_append,
      ← List.append_assoc]
    exact List.perm_middle
  exact perm.nodup_iff.2 (List.nodup_cons.2 ⟨new, once⟩)

/-! ### New nodes -/

section Push

variable (h : Grown a (o :: opened) (f :: frames) ids) (w : CstNode)

include h

theorem pushChild_same (mem : d ∈ opened.map (·.id) ++ ids) :
    (a.pushChild o.id w).1.node? d = a.node? d := by
  have mem' : d ∈ (o :: opened).map (·.id) ++ ids := List.mem_cons_of_mem _ mem
  rw [node?_pushChild h.top_lt_size, if_neg (h.ne_size mem'), if_neg (h.ne_top mem)]

theorem pushChild_keeps : Keeps a (a.pushChild o.id w).1 ids :=
  .of_same fun _ mem => h.pushChild_same w (List.mem_append_right _ mem)

theorem pushChild_top {n : CstNode} (here : a.node? o.id = some n) :
    (a.pushChild o.id w).1.node? o.id = some (n.list (· ++ [a.nodes.size])) := by
  have old : o.id ≠ a.nodes.size := Nat.ne_of_lt h.top_lt_size
  rw [node?_pushChild h.top_lt_size, if_neg old, if_pos rfl, here, Option.map_some]

theorem pushChild_new : (a.pushChild o.id w).1.node? a.nodes.size = some w := by
  rw [node?_pushChild h.top_lt_size, if_pos rfl]

theorem pushChild_cases (found : (a.pushChild o.id w).1.node? c = some n) :
    (c = a.nodes.size ∧ n = w) ∨ (c = o.id ∧ ∃ m, a.node? c = some m ∧ n = m.list (· ++ [a.nodes.size])) ∨
      a.node? c = some n := by
  rw [node?_pushChild h.top_lt_size] at found
  split at found
  · next new => exact .inl ⟨new, (Option.some.inj found).symm⟩
  · split at found
    · next top =>
      obtain ⟨m, isTop, rfl⟩ := Option.map_eq_some_iff.1 found
      exact .inr (.inl ⟨top, m, top ▸ isTop, rfl⟩)
    · exact .inr (.inr found)

theorem pushChild_astsFrom (none : w.ast = none) : AstsFrom a (a.pushChild o.id w).1 .none := by
  intro c n i _ found ast
  rcases h.pushChild_cases w found with ⟨-, rfl⟩ | ⟨-, m, isTop, rfl⟩ | old
  · rw [none] at ast
    cases ast
  · rw [CstNode.ast_list] at ast
    exact ⟨m, isTop, ast⟩
  · exact ⟨n, old, ast⟩

end Push

/-- A token is added to what the innermost frame holds. -/
theorem addLeaf (h : Grown a (o :: opened) (f :: frames) ids) (token : Token) (feature : Option String) :
    ∃ ids', Grown (a.addLeaf o.id token feature).1 (o :: opened)
        (f.holding (f.children.toList ++ [.leaf token feature]) :: frames) ids' ∧ ids ⊆ ids' ∧
      Pointed (a.addLeaf o.id token feature).1 ids' a.nodes.size (.leaf token feature) := by
  cases h.stacked with
  | @cons _ cs own rest _ _ _ _ here holds outer =>
    let w := CstNode.ofToken (some o.id) token feature
    have new : a.nodes.size ∉ (o :: opened).map (·.id) ++ (own ++ rest) :=
      fun mem => absurd rfl (h.ne_size mem)
    have same : ∀ d ∈ opened.map (·.id) ++ (own ++ rest), (a.pushChild o.id w).1.node? d = a.node? d :=
      fun d mem => h.pushChild_same w mem
    have leaf : Shows (a.pushChild o.id w).1 (some o.id) [a.nodes.size] [.leaf token feature]
        [a.nodes.size] := .leaf (h.pushChild_new w) .nil
    refine ⟨(own ++ [a.nodes.size]) ++ rest, ⟨.cons (l := cs ++ [a.nodes.size]) ?_ ?_ ?_, ?_, ?_, ?_⟩, ?_,
      _, _, leaf, by simp, List.nodup_singleton _⟩
    · rw [List.append_nil] at here ⊢
      exact h.pushChild_top w here
    · exact (holds.congr fun d mem => same d (by simp [mem])).append leaf
    · exact outer.congr fun d mem => same d (mem_append_skip mem)
    · exact nodup_insert h.once new
    · intro c n found
      rcases h.pushChild_cases w found with ⟨rfl, -⟩ | ⟨rfl, -⟩ | old
      · exact .inr (.inl (by simp))
      · exact .inl (by simp)
      · rcases h.rest c n old with mem | mem | gone
        · exact .inl mem
        · exact .inr (.inl (by rcases List.mem_append.1 mem with mem | mem <;> simp [mem]))
        · exact .inr (.inr gone)
    · exact h.root
    · intro d mem
      rcases List.mem_append.1 mem with mem | mem <;> simp [mem]

/-- A composite is opened at the innermost one. -/
theorem addComposite (h : Grown a (o :: opened) (f :: frames) ids) (rule : RuleId) (feature : Option String)
    (offset : Nat) {g : Frame} (isRule : g.rule = rule) (empty : g.children = #[]) :
    Grown (a.addComposite o.id (some rule) feature offset).1
      (⟨a.nodes.size, .empty offset, feature⟩ :: o :: opened) (g :: f :: frames) ids := by
  cases h.stacked with
  | @cons _ cs own rest _ _ _ _ here holds outer =>
    let w : CstNode := ⟨.composite (some rule) [], some o.id, .empty offset, none, feature⟩
    have same : ∀ d ∈ opened.map (·.id) ++ (own ++ rest), (a.pushChild o.id w).1.node? d = a.node? d :=
      fun d mem => h.pushChild_same w mem
    refine ⟨.cons (l := []) (k := []) ?_ ?_ (.cons (l := cs) ?_ ?_ ?_), ?_, ?_, ?_⟩
    · subst isRule
      exact h.pushChild_new w
    · rw [empty]
      exact .nil
    · rw [List.append_nil] at here
      exact h.pushChild_top w here
    · exact holds.congr fun d mem => same d (by simp [mem])
    · exact outer.congr fun d mem => same d (mem_append_skip mem)
    · exact List.nodup_cons.2 ⟨fun mem => absurd rfl (h.ne_size mem), h.once⟩
    · intro c n found
      rcases h.pushChild_cases w found with ⟨rfl, -⟩ | ⟨rfl, -⟩ | old
      · exact .inl (by simp)
      · exact .inl (by simp)
      · exact (h.rest c n old).imp_left fun mem => List.mem_cons_of_mem _ mem
    · rw [List.map_cons, List.getLast?_cons, h.root]
      rfl

/-! ### Closing composites -/

theorem root_tail (h : Grown a (o :: g :: opened) frames ids) :
    ((g :: opened).map (·.id)).getLast? = some a.root := by
  have last := h.root
  rw [List.map_cons, List.map_cons, List.getLast?_cons_cons] at last
  exact last

theorem top_ne_root (h : Grown a (o :: g :: opened) frames ids) : o.id ≠ a.root :=
  fun eq => h.not_mem_top (eq ▸ List.mem_append_left _ (List.mem_of_getLast? h.root_tail))

/-- A composite that lists nothing is detached. -/
theorem close_empty {f' : Frame} (h : Grown a (o :: g :: opened) (f :: f' :: frames) ids)
    (empty : f.children.toList = []) :
    (a.close o.id).2 = false ∧ Grown (a.close o.id).1 (g :: opened) (f' :: frames) ids ∧
      Keeps a (a.close o.id).1 ids ∧ AstsFrom a (a.close o.id).1 none := by
  cases h.stacked with
  | @cons _ cs own ids _ _ _ _ here holds outer =>
    rw [empty] at holds
    cases holds
    cases outer with
    | @cons _ cs own rest _ _ _ _ hereOuter holdsOuter beyond =>
      have apart : g.id ≠ o.id := h.ne_top (by simp)
      obtain ⟨dropped, nodes⟩ := close_of_nil (p := g.id) here rfl h.top_ne_root rfl apart
      rw [List.nil_append] at h ⊢
      have same : ∀ d ∈ opened.map (·.id) ++ (own ++ rest), (a.close o.id).1.node? d = a.node? d := by
        intro d mem
        have mem' : d ∈ (g :: opened).map (·.id) ++ (own ++ rest) := List.mem_cons_of_mem _ mem
        have other : d ≠ g.id := ne_of_mem_of_not_mem mem (List.nodup_cons.1 (List.nodup_cons.1 h.once).2).1
        rw [nodes, if_neg (h.ne_top mem'), if_neg other]
      refine ⟨dropped, ⟨.cons (l := cs) ?_ ?_ ?_, (List.nodup_cons.1 h.once).2, ?_, ?_⟩,
        .of_same fun d mem => same d (List.mem_append_right _ mem), ?_⟩
      · have unlisted : o.id ∉ cs := fun mem =>
          absurd rfl (h.ne_top (List.mem_append_right _ (List.mem_append_left _ (holdsOuter.subset mem))))
        rw [nodes, if_neg apart, if_pos rfl, hereOuter]
        simp [Opened.node, CstNode.list, List.filter_eq_self.2 fun d mem => bne_iff_ne.2
          (ne_of_mem_of_not_mem mem unlisted)]
      · exact holdsOuter.congr fun d mem => same d (by simp [mem])
      · exact beyond.congr fun d mem => same d (mem_append_skip mem)
      · intro c n found
        rw [nodes] at found
        split at found
        · cases found
          exact .inr (.inr ⟨rfl, rfl, rfl⟩)
        · next other =>
          split at found
          · next above => exact .inl (by simp [above])
          · rcases h.rest c n found with mem | mem | gone
            · exact .inl ((List.mem_cons.1 mem).resolve_left other)
            · exact .inr (.inl mem)
            · exact .inr (.inr gone)
      · rw [root_close]
        exact h.root_tail
      · intro c n i _ found ast
        rw [nodes] at found
        split at found
        · cases found
          cases ast
        · split at found
          · next above =>
            obtain ⟨m, isAbove, rfl⟩ := Option.map_eq_some_iff.1 found
            rw [CstNode.ast_list] at ast
            exact ⟨m, above ▸ isAbove, ast⟩
          · exact ⟨n, found, ast⟩

/-- No node is built from a composite by closing it. -/
theorem close_ast (h : Grown a (o :: opened) (f :: frames) ids) (some : f.children.toList ≠ []) :
    ∃ n, (a.close o.id).1.node? o.id = .some n ∧ n.ast = none := by
  cases h.stacked with
  | @cons _ cs own ids _ _ _ _ here holds outer =>
    rw [List.append_nil] at here
    have listed : cs ≠ [] := fun none => some (List.length_eq_zero_iff.1 (by
      rw [← holds.length_eq, none, List.length_nil]))
    obtain ⟨-, closed⟩ := close_of_cons here listed
    exact ⟨_, (closed o.id).trans (if_pos rfl), rfl⟩

/-- A composite that lists something is kept, as the last of what the composite around it lists. -/
theorem close_kept {f' : Frame} (h : Grown a (o :: g :: opened) (f :: f' :: frames) ids)
    (some : f.children.toList ≠ []) {owner : Option NodeId} {t : SourceTree}
    (tree : t = .branch f.rule o.feature
      (SourceTree.coverAll o.range (f.children.toList.filter SourceTree.isSubstantial)) owner f.children.toList)
    (gives : GivesAst (a.close o.id).1 b o.id owner) :
    (a.close o.id).2 = true ∧ Keeps a b ids ∧ AstsFrom a b (.some o.id) ∧ ∃ ids',
      Grown b (g :: opened) (f'.holding (f'.children.toList ++ [t]) :: frames) ids' ∧ ids ⊆ ids' ∧
      Pointed b ids' o.id t := by
  cases h.stacked with
  | @cons _ cs own ids _ _ _ _ here holds outer =>
    cases outer with
    | @cons _ cs' own' rest _ _ _ _ hereOuter holdsOuter beyond =>
      rw [List.append_nil] at here
      generalize cover : SourceTree.coverAll o.range _ = range at tree
      subst tree
      have listed : cs ≠ [] := fun none => some (List.length_eq_zero_iff.1 (by
        rw [← holds.length_eq, none, List.length_nil]))
      obtain ⟨kept, closed⟩ := close_of_cons here listed
      have nodes : ∀ d, b.node? d = if d = o.id then
          .some ⟨.composite (.some f.rule) cs, .some g.id, range, owner, o.feature⟩ else a.node? d := by
        intro d
        rw [gives.node, closed]
        split
        · rw [← cover, ← holds.coverOf_eq]
          rfl
        · rfl
      have same : ∀ d ∈ (g :: opened).map (·.id) ++ (own ++ (own' ++ rest)), b.node? d = a.node? d := by
        intro d mem
        rw [nodes, if_neg (h.ne_top mem)]
      have sameOuter : ∀ d ∈ opened.map (·.id) ++ (own ++ (own' ++ rest)), b.node? d = a.node? d :=
        fun d mem => same d (List.mem_cons_of_mem _ mem)
      have new : Shows b (.some g.id) [o.id]
          [.branch f.rule o.feature range owner f.children.toList] (o.id :: own) := by
        have inside : Shows b (.some o.id) cs f.children.toList own :=
          holds.congr fun d mem => same d (by simp [mem])
        have here := (nodes o.id).trans (if_pos rfl)
        simpa using Shows.branch here inside .nil
      refine ⟨kept, .of_same fun d mem => same d (List.mem_append_right _ mem), ?_,
        (own' ++ o.id :: own) ++ rest, ⟨.cons (l := cs' ++ [o.id]) ?_ ?_ ?_, ?_, ?_, ?_⟩, ?_,
        _, _, new, ?_, ?_⟩
      · intro c n i other found ast
        rw [nodes, if_neg fun eq => other (congrArg _ eq.symm)] at found
        exact ⟨n, found, ast⟩
      · rw [List.append_nil, same g.id (by simp), hereOuter]
        rfl
      · exact (holdsOuter.congr fun d mem => sameOuter d (by simp [mem])).append new
      · exact beyond.congr fun d mem => sameOuter d (mem_append_skip (mem_append_skip mem))
      · have perm : ((g :: opened).map (·.id) ++ ((own' ++ o.id :: own) ++ rest)).Perm
            ((o :: g :: opened).map (·.id) ++ (own ++ (own' ++ rest))) := by
          refine List.perm_iff_count.2 fun x => ?_
          simp only [List.map_cons, List.cons_append, List.count_cons, List.count_append]
          omega
        exact perm.nodup_iff.2 h.once
      · intro c n found
        rw [nodes] at found
        split at found
        · next top => exact .inr (.inl (by simp [top]))
        · next other =>
          rcases h.rest c n found with mem | mem | gone
          · exact .inl ((List.mem_cons.1 mem).resolve_left other)
          · exact .inr (.inl (by simp only [List.mem_append] at mem ⊢; tauto))
          · exact .inr (.inr gone)
      · rw [gives.root, root_close]
        exact h.root_tail
      · intro d mem
        simp only [List.mem_append, List.mem_cons] at mem ⊢
        tauto
      · intro d mem
        simp only [List.mem_append, List.mem_cons] at mem ⊢
        tauto
      · obtain ⟨fresh, once⟩ := List.nodup_cons.1 h.once
        exact List.nodup_cons.2 ⟨fun mem => fresh (by simp [mem]),
          (List.nodup_append'.1 (List.nodup_append'.1 once).2.1).1⟩

/-! ### Wrapping -/

/-- If the innermost composite lists nothing, there is nothing to wrap. -/
theorem wrap_nil (h : Grown a (o :: opened) (f :: frames) ids) (none : f.children.toList = [])
    (feature : Option String) : a.wrapChildren o.id feature = (a, .none) := by
  cases h.stacked with
  | cons here holds outer =>
    rw [none] at holds
    cases holds
    exact wrapChildren_of_nil here rfl feature

/-- Once all that the innermost composite lists has moved below a new one, the new one shows a branch. -/
theorem of_wraps {cs rest : List CstId} (h : Grown a (o :: opened) (f :: frames) (own ++ rest))
    (holds : Shows a (some o.id) cs f.children.toList own) (outer : Stacked a [o.id] opened frames rest)
    {range : TextRange} {owner : Option NodeId} {feature : Option String}
    (wraps : Wraps a b o.id cs ⟨.composite (some f.rule) cs, some o.id, range, owner, feature⟩
      (o.node f.rule [a.nodes.size] (outermost? opened))) :
    Keeps a b (own ++ rest) ∧
      Grown b (o :: opened) (f.holding [.branch f.rule feature range owner f.children.toList] :: frames)
        (a.nodes.size :: own ++ rest) ∧
      Pointed b (a.nodes.size :: own ++ rest) a.nodes.size
        (.branch f.rule feature range owner f.children.toList) := by
  obtain ⟨-, onceFoot, apart⟩ := List.nodup_append'.1 (List.nodup_cons.1 h.once).2
  obtain ⟨onceOwn, -, disjoint⟩ := List.nodup_append'.1 onceFoot
  have same : ∀ d ∈ opened.map (·.id) ++ (own ++ rest), d ∉ cs → b.node? d = a.node? d :=
    fun d mem => wraps.same d (h.ne_size (List.mem_cons_of_mem _ mem)) (h.ne_top mem)
  have unlisted : ∀ d ∈ opened.map (·.id) ++ rest, d ∉ cs := by
    intro d mem inner
    have inner := holds.subset inner
    rcases List.mem_append.1 mem with mem | mem
    · exact apart mem (List.mem_append_left _ inner)
    · exact disjoint inner mem
  have new : Shows b (some o.id) [a.nodes.size] [.branch f.rule feature range owner f.children.toList]
      (a.nodes.size :: own) := by
    have inside : Shows b (some a.nodes.size) cs f.children.toList own :=
      holds.move onceOwn wraps.moved fun d mem => same d (by simp [mem])
    simpa using Shows.branch wraps.new inside .nil
  have fresh : a.nodes.size ∉ (o :: opened).map (·.id) ++ (own ++ rest) :=
    fun mem => absurd rfl (h.ne_size mem)
  refine ⟨?keeps, ⟨.cons (l := [a.nodes.size]) wraps.listed new ?outer, ?once, ?rest, wraps.root ▸ h.root⟩,
    ⟨_, _, new, List.subset_append_left _ _, List.nodup_cons.2 ⟨fun mem => fresh (by simp [mem]), onceOwn⟩⟩⟩
  case keeps =>
    refine .of_moved holds (fun mem => h.not_mem_top (List.mem_append_right _ mem)) wraps.moved ?_
    exact fun d mem => same d (List.mem_append_right _ mem)
  case outer => exact outer.congr fun d mem => same d (mem_append_skip mem) (unlisted d mem)
  case once =>
    have perm : ((o :: opened).map (·.id) ++ ((a.nodes.size :: own) ++ rest)).Perm
        (a.nodes.size :: ((o :: opened).map (·.id) ++ (own ++ rest))) := List.perm_middle
    exact perm.nodup_iff.2 (List.nodup_cons.2 ⟨fresh, h.once⟩)
  case rest =>
    intro d n found
    rcases wraps.cases found with rfl | ⟨rfl, -⟩ | ⟨inner, -⟩ | before
    · exact .inr (.inl (by simp))
    · exact .inl (by simp)
    · exact .inr (.inl (by simp [holds.subset inner]))
    · exact (h.rest d n before).imp_right (Or.imp_left (List.mem_cons_of_mem _))

/-- All that the innermost composite lists is wrapped, by a composite that has no node at first. -/
theorem wrap (h : Grown a (o :: opened) (f :: frames) ids) {first : SourceTree} {others : List SourceTree}
    (some : f.children.toList = first :: others) (feature : Option String) :
    (a.wrapChildren o.id feature).2 = .some a.nodes.size ∧
      (∃ n, (a.wrapChildren o.id feature).1.node? a.nodes.size = .some n ∧ n.ast = none) ∧
      ∀ {b : Cst} {owner : Option NodeId} {t : SourceTree},
      t = .branch f.rule feature (SourceTree.coverAll (.empty first.range.start)
        ((first :: others).filter SourceTree.isSubstantial)) owner (first :: others) →
      GivesAst (a.wrapChildren o.id feature).1 b a.nodes.size owner →
      Keeps a b ids ∧ AstsFrom a b (.some a.nodes.size) ∧ ∃ ids',
        Grown b (o :: opened) (f.holding [t] :: frames) ids' ∧ ids ⊆ ids' ∧
        Pointed b ids' a.nodes.size t := by
  rw [← some]
  cases h.stacked with
  | @cons _ cs own rest _ _ _ _ here holds outer =>
    rw [List.append_nil] at here
    obtain ⟨c, ds, _, _, rfl, _, head, _⟩ := (some ▸ holds).of_cons
    obtain ⟨m, isFirst, -, start, -⟩ := head.single
    have top : o.id ∉ c :: ds := fun mem =>
      h.not_mem_top (List.mem_append_right _ (List.mem_append_left _ (holds.subset mem)))
    have onceOwn : own.Nodup :=
      (List.nodup_append'.1 (List.nodup_append'.1 (List.nodup_cons.1 h.once).2).2.1).1
    have old : ∀ d ∈ c :: ds, d ≠ a.nodes.size :=
      fun d mem => Nat.ne_of_lt (holds.lt_size (holds.subset mem))
    obtain ⟨new, -, root, wrapped⟩ := wrapChildren_of_cons here rfl isFirst (onceOwn.sublist holds.sublist) top
      (fun d mem => holds.lt_size (holds.subset mem)) feature
    refine ⟨new, ⟨_, (wrapped a.nodes.size).trans (if_pos rfl), rfl⟩, fun {b owner t} tree gives => ?_⟩
    rw [start, holds.coverOf_eq] at wrapped
    generalize SourceTree.coverAll _ _ = range at tree wrapped
    subst tree
    have nodes : ∀ d, d ≠ a.nodes.size → b.node? d = (a.wrapChildren o.id feature).1.node? d :=
      fun d other => by rw [gives.node, if_neg other]
    have wraps : Wraps a b o.id (c :: ds)
        ⟨.composite (.some f.rule) (c :: ds), .some o.id, range, owner, feature⟩
        (o.node f.rule [a.nodes.size] (outermost? opened)) := by
      refine ⟨gives.root.trans root, ?_, ?_, fun d mem => ?_, fun d isNew isTop inner => ?_⟩
      · rw [gives.node, if_pos rfl, wrapped, if_pos rfl]
        rfl
      · rw [nodes _ (Nat.ne_of_lt h.top_lt_size), wrapped, if_neg (Nat.ne_of_lt h.top_lt_size), if_pos rfl]
        rfl
      · rw [nodes d (old d mem), wrapped, if_neg (old d mem), if_neg (ne_of_mem_of_not_mem mem top), if_pos mem]
      · rw [nodes d isNew, wrapped, if_neg isNew, if_neg isTop, if_neg inner]
    obtain ⟨keeps, grown, point⟩ := h.of_wraps holds outer wraps
    exact ⟨keeps, wraps.astsFrom rfl, _, grown, List.subset_cons_self _ _, point⟩

/-! ### Taking over -/

/-- The last tree of the innermost frame loses its owner. -/
theorem disown (h : Grown a (o :: opened) (f :: frames) ids) {trees : List SourceTree} {t : SourceTree}
    {i : NodeId} (last : f.children.toList = trees ++ [t]) (owned : t.owner = some i) :
    ∃ c n, a.node? c = some n ∧ n.ast = some i ∧ ∀ b, GivesAst a b c none →
      Grown b (o :: opened) (f.holding (trees ++ [t.withOwner none]) :: frames) ids ∧
      ∀ d u, d ≠ c → Pointed a ids d u → Pointed b ids d u := by
  cases h.stacked with
  | @cons _ cs own rest _ _ _ _ here holds outer =>
    rw [last] at holds
    obtain ⟨cs', ds, own', js, rfl, rfl, front, back⟩ := holds.of_append
    obtain ⟨c, rfl⟩ := List.length_eq_one_iff.1 back.length_eq
    cases back with
    | leaf => cases owned
    | @branch _ _ _ es inner _ rule feature range _ us _ isLast below none =>
      cases none
      obtain rfl : _ = some i := owned
      refine ⟨c, _, isLast, rfl, fun b gives => ?_⟩
      have once := h.once
      have fresh : c ∉ (o :: opened).map (·.id) ++ (own' ++ inner ++ rest) := by
        have perm : ((o :: opened).map (·.id) ++ ((own' ++ c :: (inner ++ [])) ++ rest)).Perm
            (c :: ((o :: opened).map (·.id) ++ (own' ++ inner ++ rest))) := by
          refine List.perm_iff_count.2 fun x => ?_
          simp only [List.count_cons, List.count_append, List.count_nil]
          omega
        exact (List.nodup_cons.1 (perm.nodup_iff.1 once)).1
      have same : ∀ d, d ≠ c → b.node? d = a.node? d := fun d other => by rw [gives.node, if_neg other]
      have apart : ∀ d ∈ (o :: opened).map (·.id) ++ (own' ++ inner ++ rest), b.node? d = a.node? d :=
        fun d mem => same d (ne_of_mem_of_not_mem mem fresh)
      have disowned : b.node? c = some ⟨.composite (some rule) es, some o.id, range, .none, feature⟩ := by
        rw [gives.node, if_pos rfl, isLast]
        rfl
      refine ⟨⟨.cons (l := cs' ++ [c]) ?_ ?_ ?_, once, ?_, ?_⟩, ?_⟩
      · rw [apart o.id (by simp)]
        exact here
      · refine (front.congr fun d mem => apart d (by simp [mem])).append (.branch disowned ?_ .nil)
        exact below.congr fun d mem => apart d (by simp [mem])
      · exact outer.congr fun d mem => apart d (List.mem_cons_of_mem _ (mem_append_skip mem))
      · intro d n found
        by_cases self : d = c
        · exact .inr (.inl (by simp [self]))
        · rw [same d self] at found
          exact h.rest d n found
      · rw [gives.root]
        exact h.root
      · rintro d u other ⟨p, foot, shown, within, onceFoot⟩
        refine ⟨p, foot, shown.congr fun e mem => ?_, within, onceFoot⟩
        refine same e fun self => ?_
        -- the parent of the node is open, so the node is below no other one
        obtain ⟨above, memAbove, parent⟩ :=
          shown.parent_mem mem (by simpa [self] using Ne.symm other) (self ▸ isLast)
        cases parent
        exact h.not_mem_top (List.mem_append_right _ (within memAbove))

/-! ### The end -/

/-- The root gets its range and its node, and nothing is open any more. -/
theorem finish (h : Grown a [o] [f] ids) {range : TextRange} {owner : NodeId} (root : b.root = a.root)
    (nodes : ∀ d, b.node? d =
      if d = a.root then (a.node? d).map ({ · with range, ast := some owner }) else a.node? d) :
    Whole b (.branch f.rule o.feature range (some owner) f.children.toList) (a.root :: ids) ∧
      Keeps a b ids ∧ AstsFrom a b (some a.root) := by
  have isRoot : o.id = a.root := by simpa using h.root
  cases h.stacked with
  | @cons _ cs own rest _ _ _ _ here holds outer =>
    cases outer
    have fresh : o.id ∉ own ++ [] := (List.nodup_cons.1 h.once).1
    have same : ∀ d, d ≠ a.root → b.node? d = a.node? d := fun d other => by rw [nodes, if_neg other]
    have below : ∀ d ∈ own ++ [], b.node? d = a.node? d :=
      fun d mem => same d (isRoot ▸ ne_of_mem_of_not_mem mem fresh)
    rw [isRoot] at here holds fresh
    rw [List.append_nil] at here
    have top := (nodes a.root).trans (if_pos rfl)
    rw [here, Option.map_some] at top
    refine ⟨⟨?_, List.nodup_cons.2 ⟨fresh, (List.nodup_cons.1 h.once).2⟩, fun c n found => ?_⟩,
      .of_same below, fun c n i other found ast => ?_⟩
    · rw [root]
      exact .branch top (holds.congr fun d mem => below d (by simp [mem])) .nil
    · by_cases self : c = a.root
      · exact .inl (by simp [self])
      · rw [same c self] at found
        rcases h.rest c n found with mem | mem | gone
        · exact absurd ((List.mem_singleton.1 mem).trans isRoot) self
        · exact .inl (List.mem_cons_of_mem _ mem)
        · exact .inr gone
    · rw [same c fun eq => other (congrArg _ eq.symm)] at found
      exact ⟨n, found, ast⟩

end Grown

end Cst

end Workbench
