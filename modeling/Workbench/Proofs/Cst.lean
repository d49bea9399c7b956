import Mathlib.Data.List.Nodup
import Workbench.Cst
import Workbench.SourceTree

/-!
**What a concrete tree shows.**

The nodes of a concrete tree know each other by numbers. `Shows` says that some of them, listed one behind
the other, are given source trees, and collects the numbers of all nodes that belong to them: their
*footprint*. An operation on the tree is told by what it does to single nodes; what is shown survives it if
nothing in the footprint changes, and it may be moved to another parent as long as only the outermost nodes
change.
-/

namespace Workbench

namespace CstNode

/-- The leaf for a token. -/
def ofToken (parent : Option CstId) (token : Token) (feature : Option String) : CstNode where
  kind := .leaf token.kind token.image token.kind.isHidden
  parent
  range := token.range
  feature

/-- The leaf shows a token of the text that the grammar sees. -/
def isVisible (n : CstNode) : Bool := n.isLeaf && !n.isHidden

variable {n : CstNode} {f g : List CstId → List CstId}

theorem list_list : (n.list f).list g = n.list fun l => g (f l) := by
  cases n with
  | mk kind => cases kind <;> rfl

@[simp] theorem ast_list : (n.list f).ast = n.ast := by
  cases n with
  | mk kind => cases kind <;> rfl

end CstNode

namespace Cst

variable {a b : Cst} {c d p q : CstId} {n : CstNode} {f : CstNode → CstNode}

/-! ### Single nodes -/

theorem lt_size_of_node? (h : a.node? c = some n) : c < a.nodes.size :=
  (Array.getElem?_eq_some_iff.1 h).1

@[simp] theorem node?_size (a : Cst) : a.node? a.nodes.size = none := by
  simp [node?]

@[simp] theorem size_update : (a.update d f).nodes.size = a.nodes.size := by
  simp [update]

@[simp] theorem root_update : (a.update d f).root = a.root := rfl

theorem node?_update (a : Cst) (d : CstId) (f : CstNode → CstNode) (c : CstId) :
    (a.update d f).node? c = if d = c then (a.node? c).map f else a.node? c := by
  unfold node? update
  rw [Array.getElem?_modify]

theorem node?_update_self (h : a.node? c = some n) : (a.update c f).node? c = some (f n) := by
  rw [node?_update, if_pos rfl, h]
  rfl

theorem node?_update_ne (other : d ≠ c) : (a.update d f).node? c = a.node? c := by
  rw [node?_update, if_neg other]

@[simp] theorem size_pushChild : (a.pushChild p n).1.nodes.size = a.nodes.size + 1 := by
  simp [pushChild]

@[simp] theorem root_pushChild : (a.pushChild p n).1.root = a.root := rfl

@[simp] theorem pushChild_snd : (a.pushChild p n).2 = a.nodes.size := rfl

/-- A new node stands at the end of what its parent lists, and nothing else changes. -/
theorem node?_pushChild (below : p < a.nodes.size) (c : CstId) :
    (a.pushChild p n).1.node? c =
      if c = a.nodes.size then some n
      else if c = p then (a.node? p).map (·.list (· ++ [a.nodes.size]))
      else a.node? c := by
  have pushed : ∀ c, (Cst.mk (a.nodes.push n) a.root).node? c =
      if c = a.nodes.size then some n else a.node? c := fun c => Array.getElem?_push
  have apart : p ≠ a.nodes.size := Nat.ne_of_lt below
  unfold pushChild
  dsimp only
  rw [node?_update, pushed]
  by_cases new : c = a.nodes.size
  · rw [if_pos new, if_pos new, if_neg (new ▸ apart)]
  · by_cases self : c = p
    · subst self
      simp [apart]
    · simp [new, self, Ne.symm self]

/-- Changing several nodes one after the other. -/
theorem node?_foldl_update (cs : List CstId) (once : cs.Nodup) (c : CstId) :
    (cs.foldl (fun a d => a.update d f) a).node? c =
      if c ∈ cs then (a.node? c).map f else a.node? c := by
  induction cs generalizing a with
  | nil => rfl
  | cons d cs ih =>
    obtain ⟨fresh, once⟩ := List.nodup_cons.1 once
    rw [List.foldl_cons, ih once, node?_update]
    by_cases self : d = c
    · subst self
      simp [fresh]
    · have other : c ≠ d := Ne.symm self
      simp [self, other]

@[simp] theorem size_foldl_update (cs : List CstId) :
    (cs.foldl (fun a d => a.update d f) a).nodes.size = a.nodes.size := by
  induction cs generalizing a with
  | nil => rfl
  | cons d cs ih => rw [List.foldl_cons, ih, size_update]

@[simp] theorem root_foldl_update (cs : List CstId) :
    (cs.foldl (fun a d => a.update d f) a).root = a.root := by
  induction cs generalizing a with
  | nil => rfl
  | cons d cs ih => rw [List.foldl_cons, ih, root_update]

/-! ### Closing -/

theorem root_close (a : Cst) (c : CstId) : (a.close c).1.root = a.root := by
  unfold close
  split
  · rfl
  · split
    · dsimp only
      split <;> rfl
    · split <;> rfl

theorem size_close (a : Cst) (c : CstId) : (a.close c).1.nodes.size = a.nodes.size := by
  unfold close
  split
  · rfl
  · split
    · dsimp only
      split <;> simp
    · split <;> simp

/-- A composite that lists something gets its range. -/
theorem close_of_cons (here : a.node? c = some n) (some : n.children ≠ []) :
    (a.close c).2 = true ∧
      ∀ d, (a.close c).1.node? d =
        if d = c then .some { n with range := (a.coverOf n.children).getD n.range } else a.node? d := by
  have kept : (n.children.isEmpty && c != a.root) = false := by
    simp [List.isEmpty_eq_false_iff.2 some]
  unfold close
  rw [here]
  dsimp only
  rw [kept, if_neg Bool.false_ne_true]
  cases a.coverOf n.children with
  | none =>
    refine ⟨rfl, fun d => ?_⟩
    by_cases self : d = c
    · subst self
      simp [here]
    · simp [self]
  | some range =>
    refine ⟨rfl, fun d => ?_⟩
    dsimp only
    rw [node?_update]
    by_cases self : d = c
    · subst self
      simp [here]
    · simp [self, Ne.symm self]

/-- A composite that lists nothing is detached. -/
theorem close_of_nil (here : a.node? c = some n) (none : n.children = []) (inner : c ≠ a.root)
    (parent : n.parent = some p) (other : p ≠ c) :
    (a.close c).2 = false ∧
      ∀ d, (a.close c).1.node? d =
        if d = c then some (n.moveTo .none)
        else if d = p then (a.node? p).map (·.list (·.filter (· != c)))
        else a.node? d := by
  have detached : (n.children.isEmpty && c != a.root) = true := by simp [none, inner]
  unfold close
  rw [here]
  dsimp only
  rw [detached, if_pos rfl, parent]
  refine ⟨rfl, fun d => ?_⟩
  dsimp only
  rw [node?_update, node?_update]
  by_cases self : d = c
  · subst self
    simp [here, other]
  · simp only [self, Ne.symm self, if_false]
    by_cases above : d = p
    · subst above
      simp
    · simp [above, Ne.symm above]

/-! ### Wrapping -/

theorem coverWith_moved {cs : List CstId} {parent : Option CstId}
    (moved : ∀ c ∈ cs, b.node? c = (a.node? c).map (·.moveTo parent)) (range : Option TextRange) :
    cs.foldl b.coverWith range = cs.foldl a.coverWith range := by
  induction cs generalizing range with
  | nil => rfl
  | cons c cs ih =>
    obtain ⟨self, moved⟩ := List.forall_mem_cons.1 moved
    have same : b.coverWith range c = a.coverWith range c := by
      unfold coverWith
      rw [self]
      cases a.node? c <;> rfl
    rw [List.foldl_cons, List.foldl_cons, same, ih moved]

theorem wrapChildren_of_nil (here : a.node? p = some n) (none : n.children = []) (feature : Option String) :
    a.wrapChildren p feature = (a, .none) := by
  unfold wrapChildren
  rw [here]
  cases n with
  | mk kind =>
    cases kind with
    | leaf => rfl
    | composite rule children =>
      obtain rfl : children = [] := none
      rfl

/-- All that a composite lists moves into a new one, which has its range at once. -/
theorem wrapChildren_of_cons {rule : Option RuleId} {first : CstId} {rest : List CstId} {m : CstNode}
    (here : a.node? p = some n) (lists : n.kind = .composite rule (first :: rest))
    (isFirst : a.node? first = some m) (once : (first :: rest).Nodup) (other : p ∉ first :: rest)
    (below : ∀ c ∈ first :: rest, c < a.nodes.size) (feature : Option String) :
    (a.wrapChildren p feature).2 = some a.nodes.size ∧
      (a.wrapChildren p feature).1.nodes.size = a.nodes.size + 1 ∧
      (a.wrapChildren p feature).1.root = a.root ∧
      ∀ d, (a.wrapChildren p feature).1.node? d =
        if d = a.nodes.size then
          some ⟨.composite rule (first :: rest), some p,
            (a.coverOf (first :: rest)).getD (.empty m.range.start), none, feature⟩
        else if d = p then some (n.list fun _ => [a.nodes.size])
        else if d ∈ first :: rest then (a.node? d).map (·.moveTo (some a.nodes.size))
        else a.node? d := by
  generalize split : first :: rest = cs at lists once other below ⊢
  have listed : cs ≠ [] := split ▸ List.cons_ne_nil _ _
  -- the children are moved, and the new composite is listed in their place before it is closed
  let w : CstNode := ⟨.composite rule cs, some p, .empty m.range.start, none, feature⟩
  let emptied := a.update p (·.list fun _ => [])
  let moved := cs.foldl (fun tree d => tree.update d (·.moveTo (some a.nodes.size))) emptied
  have eq : a.wrapChildren p feature =
      (((moved.pushChild p w).1.close a.nodes.size).1, some a.nodes.size) := by
    subst split
    unfold wrapChildren
    rw [here, Option.map_some, lists]
    dsimp only
    rw [isFirst, Option.map_some, Option.getD_some]
  have size : moved.nodes.size = a.nodes.size := by
    rw [show moved.nodes.size = emptied.nodes.size from size_foldl_update cs, size_update]
  have node?_moved : ∀ d, moved.node? d =
      if d ∈ cs then (emptied.node? d).map (·.moveTo (some a.nodes.size)) else emptied.node? d :=
    node?_foldl_update cs once
  have pushed : ∀ d, (moved.pushChild p w).1.node? d =
      if d = a.nodes.size then some w
      else if d = p then some (n.list fun _ => [a.nodes.size])
      else if d ∈ cs then (a.node? d).map (·.moveTo (some a.nodes.size))
      else a.node? d := by
    intro d
    rw [node?_pushChild (size ▸ lt_size_of_node? here), size]
    split
    · rfl
    · split
      · rw [node?_moved, if_neg other, node?_update_self here, Option.map_some, CstNode.list_list]
        rfl
      · next apart => rw [node?_moved, node?_update_ne (Ne.symm apart)]
  have isNew : (moved.pushChild p w).1.node? a.nodes.size = some w := by rw [pushed, if_pos rfl]
  obtain ⟨-, closed⟩ := close_of_cons isNew listed
  have cover : (moved.pushChild p w).1.coverOf cs = a.coverOf cs := by
    have moved : ∀ c ∈ cs, (moved.pushChild p w).1.node? c = (a.node? c).map (·.moveTo (some a.nodes.size)) := by
      intro c mem
      rw [pushed, if_neg (Nat.ne_of_lt (below c mem)), if_neg (ne_of_mem_of_not_mem mem other), if_pos mem]
    exact coverWith_moved moved none
  rw [eq]
  refine ⟨rfl, ?_, ?_, fun d => ?_⟩
  · dsimp only
    rw [size_close, size_pushChild, size]
  · dsimp only
    rw [root_close, root_pushChild, root_foldl_update, root_update]
  · dsimp only
    rw [closed, pushed]
    split
    · rw [show w.children = cs from rfl, cover]
    · rfl

/-! ### What is shown -/

/-- The nodes `cs`, listed by `p`, show the trees `ts`; `ids` is their footprint. -/
inductive Shows (a : Cst) : Option CstId → List CstId → List SourceTree → List CstId → Prop where
  | nil {p : Option CstId} : Shows a p [] [] []
  | leaf {p : Option CstId} {c : CstId} {cs ids : List CstId} {token : Token} {feature : Option String}
    {ts : List SourceTree} (here : a.node? c = some (.ofToken p token feature))
    (rest : Shows a p cs ts ids) : Shows a p (c :: cs) (.leaf token feature :: ts) (c :: ids)
  | branch {p : Option CstId} {c : CstId} {cs ds inner ids : List CstId} {rule : RuleId}
    {feature : Option String} {range : TextRange} {owner : Option NodeId} {us ts : List SourceTree}
    (here : a.node? c = some ⟨.composite (some rule) ds, p, range, owner, feature⟩)
    (below : Shows a (some c) ds us inner) (rest : Shows a p cs ts ids) :
    Shows a p (c :: cs) (.branch rule feature range owner us :: ts) (c :: (inner ++ ids))

namespace Shows

variable {p q : Option CstId} {cs ds ids js : List CstId} {ts us : List SourceTree} {t : SourceTree}

theorem append (h : Shows a p cs ts ids) (h' : Shows a p ds us js) :
    Shows a p (cs ++ ds) (ts ++ us) (ids ++ js) := by
  induction h with
  | nil => exact h'
  | leaf here _ ih => exact .leaf here (ih h')
  | branch here below _ _ ih =>
    rw [List.cons_append, List.cons_append, List.cons_append, List.append_assoc]
    exact .branch here below (ih h')

theorem of_append (h : Shows a p cs (ts ++ us) ids) :
    ∃ cs' ds ids' js, cs = cs' ++ ds ∧ ids = ids' ++ js ∧ Shows a p cs' ts ids' ∧ Shows a p ds us js := by
  induction ts generalizing cs ids with
  | nil => exact ⟨[], cs, [], ids, rfl, rfl, .nil, h⟩
  | cons t ts ih =>
    cases h with
    | @leaf _ c _ _ _ _ _ here rest =>
      obtain ⟨cs', ds, ids', js, rfl, rfl, front, back⟩ := ih rest
      exact ⟨c :: cs', ds, c :: ids', js, rfl, rfl, .leaf here front, back⟩
    | @branch _ c _ _ inner _ _ _ _ _ _ _ here below rest =>
      obtain ⟨cs', ds, ids', js, rfl, rfl, front, back⟩ := ih rest
      exact ⟨c :: cs', ds, c :: (inner ++ ids'), js, rfl, by simp, .branch here below front, back⟩

theorem subset (h : Shows a p cs ts ids) : cs ⊆ ids := by
  induction h with
  | nil => exact List.nil_subset _
  | leaf _ _ ih => exact List.cons_subset_cons _ ih
  | branch _ _ _ _ ih => exact List.cons_subset_cons _ (List.Subset.trans ih (List.subset_append_right _ _))

theorem exists_node (h : Shows a p cs ts ids) (mem : d ∈ ids) : ∃ n, a.node? d = some n := by
  induction h with
  | nil => cases mem
  | leaf here _ ih =>
    rcases List.mem_cons.1 mem with rfl | mem
    · exact ⟨_, here⟩
    · exact ih mem
  | branch here _ _ ih ih' =>
    rcases List.mem_cons.1 mem with rfl | mem
    · exact ⟨_, here⟩
    · exact (List.mem_append.1 mem).elim ih ih'

theorem lt_size (h : Shows a p cs ts ids) (mem : d ∈ ids) : d < a.nodes.size := by
  obtain ⟨n, found⟩ := h.exists_node mem
  exact lt_size_of_node? found

/-- The outermost nodes have the parent that lists them. -/
theorem parent_of_mem (h : Shows a p cs ts ids) (mem : d ∈ cs) (found : a.node? d = some n) :
    n.parent = p := by
  induction h with
  | nil => cases mem
  | leaf here _ ih | branch here _ _ _ ih =>
    rcases List.mem_cons.1 mem with rfl | mem
    · rw [here] at found
      cases found
      rfl
    · exact ih mem

/-- The other nodes have a parent in the footprint. -/
theorem parent_mem (h : Shows a p cs ts ids) (mem : d ∈ ids) (inner : d ∉ cs) (found : a.node? d = some n) :
    ∃ e ∈ ids, n.parent = some e := by
  induction h with
  | nil => cases mem
  | leaf _ _ ih =>
    obtain ⟨other, inner⟩ := List.ne_and_not_mem_of_not_mem_cons inner
    obtain ⟨e, above, parent⟩ := ih ((List.mem_cons.1 mem).resolve_left other) inner
    exact ⟨e, List.mem_cons_of_mem _ above, parent⟩
  | @branch _ c _ ds _ _ _ _ _ _ _ _ _ below _ ih ih' =>
    obtain ⟨other, inner⟩ := List.ne_and_not_mem_of_not_mem_cons inner
    rcases List.mem_append.1 ((List.mem_cons.1 mem).resolve_left other) with mem | mem
    · by_cases direct : d ∈ ds
      · exact ⟨c, List.mem_cons_self, below.parent_of_mem direct found⟩
      · obtain ⟨e, above, parent⟩ := ih mem direct
        exact ⟨e, List.mem_cons_of_mem _ (List.mem_append_left _ above), parent⟩
    · obtain ⟨e, above, parent⟩ := ih' mem inner
      exact ⟨e, List.mem_cons_of_mem _ (List.mem_append_right _ above), parent⟩

/-- What is shown depends on the footprint only. -/
theorem congr (h : Shows a p cs ts ids) (same : ∀ d ∈ ids, b.node? d = a.node? d) :
    Shows b p cs ts ids := by
  induction h with
  | nil => exact .nil
  | leaf here _ ih =>
    obtain ⟨self, same⟩ := List.forall_mem_cons.1 same
    exact .leaf (self.trans here) (ih same)
  | branch here _ _ ih ih' =>
    obtain ⟨self, same⟩ := List.forall_mem_cons.1 same
    obtain ⟨inside, same⟩ := List.forall_mem_append.1 same
    exact .branch (self.trans here) (ih inside) (ih' same)

/-- Nodes may be moved to another parent. -/
theorem move (h : Shows a p cs ts ids) (once : ids.Nodup)
    (moved : ∀ d ∈ cs, b.node? d = (a.node? d).map (·.moveTo q))
    (same : ∀ d ∈ ids, d ∉ cs → b.node? d = a.node? d) : Shows b q cs ts ids := by
  induction h with
  | nil => exact .nil
  | leaf here rest ih =>
    obtain ⟨fresh, once⟩ := List.nodup_cons.1 once
    obtain ⟨self, moved⟩ := List.forall_mem_cons.1 moved
    rw [here] at self
    refine .leaf self (ih once moved fun d mem inner => same d (List.mem_cons_of_mem _ mem) ?_)
    exact List.not_mem_cons_of_ne_of_not_mem (fun eq => fresh (eq ▸ mem)) inner
  | @branch _ _ _ _ inner ids _ _ _ _ _ _ here below rest _ ih =>
    obtain ⟨fresh, once⟩ := List.nodup_cons.1 once
    obtain ⟨-, onceRest, apart⟩ := List.nodup_append'.1 once
    obtain ⟨self, moved⟩ := List.forall_mem_cons.1 moved
    rw [here] at self
    refine .branch self (below.congr fun d mem => ?_) (ih onceRest moved fun d mem deep => ?_)
    · have mem' := List.mem_append_left ids mem
      refine same d (List.mem_cons_of_mem _ mem') 
        (List.not_mem_cons_of_ne_of_not_mem (fun eq => fresh (eq ▸ mem')) ?_)
      exact fun outer => apart mem (rest.subset outer)
    · have mem' := List.mem_append_right inner mem
      exact same d (List.mem_cons_of_mem _ mem')
        (List.not_mem_cons_of_ne_of_not_mem (fun eq => fresh (eq ▸ mem')) deep)

/-- What a composite of the footprint lists is in the footprint, and has it as its parent. -/
theorem listed (h : Shows a p cs ts ids) (mem : d ∈ ids) (found : a.node? d = some n) (child : c ∈ n.children) :
    c ∈ ids ∧ ∃ m, a.node? c = some m ∧ m.parent = some d := by
  induction h with
  | nil => cases mem
  | leaf here _ ih =>
    rcases List.mem_cons.1 mem with rfl | mem
    · rw [here] at found
      cases found
      cases child
    · exact (ih mem).imp_left (List.mem_cons_of_mem _)
  | branch here below _ ih ih' =>
    rcases List.mem_cons.1 mem with rfl | mem
    · rw [here] at found
      cases found
      obtain ⟨m, found⟩ := below.exists_node (below.subset child)
      exact ⟨List.mem_cons_of_mem _ (List.mem_append_left _ (below.subset child)), m, found,
        below.parent_of_mem child found⟩
    · rcases List.mem_append.1 mem with mem | mem
      · exact (ih mem).imp_left fun mem => List.mem_cons_of_mem _ (List.mem_append_left _ mem)
      · exact (ih' mem).imp_left fun mem => List.mem_cons_of_mem _ (List.mem_append_right _ mem)

/-- The outermost nodes occur in the footprint in their order. -/
theorem sublist (h : Shows a p cs ts ids) : cs.Sublist ids := by
  induction h with
  | nil => exact .refl _
  | leaf _ _ ih => exact ih.cons_cons _
  | branch _ _ _ _ ih => exact (ih.trans (List.sublist_append_right _ _)).cons_cons _

/-- A composite of the footprint lists no node twice. -/
theorem nodup_children (h : Shows a p cs ts ids) (once : ids.Nodup) (mem : d ∈ ids)
    (found : a.node? d = some n) : n.children.Nodup := by
  induction h with
  | nil => cases mem
  | leaf here _ ih =>
    rcases List.mem_cons.1 mem with rfl | mem
    · rw [here] at found
      cases found
      exact List.nodup_nil
    · exact ih once.of_cons mem
  | branch here below _ ih ih' =>
    obtain ⟨onceInner, onceRest, -⟩ := List.nodup_append'.1 once.of_cons
    rcases List.mem_cons.1 mem with rfl | mem
    · rw [here] at found
      cases found
      exact onceInner.sublist below.sublist
    · exact (List.mem_append.1 mem).elim (ih onceInner) (ih' onceRest)

/-- One node that is shown. -/
theorem single (h : Shows a p [c] [t] ids) :
    ∃ n, a.node? c = some n ∧ n.parent = p ∧ n.range = t.range ∧ n.ast = t.owner ∧ n.feature = t.feature ∧
      n.isSubstantial = t.isSubstantial := by
  cases h with
  | leaf here =>
    exact ⟨_, here, rfl, rfl, rfl, rfl, by
      simp [CstNode.isSubstantial, CstNode.ofToken, CstNode.isHidden, CstNode.isLeaf,
        SourceTree.isSubstantial, Token.isVisible]⟩
  | branch here =>
    exact ⟨_, here, rfl, rfl, rfl, rfl, by
      simp [CstNode.isSubstantial, CstNode.isHidden, CstNode.isLeaf, SourceTree.isSubstantial]⟩

theorem length_eq (h : Shows a p cs ts ids) : cs.length = ts.length := by
  induction h with
  | nil => rfl
  | leaf _ _ ih | branch _ _ _ _ ih => rw [List.length_cons, List.length_cons, ih]

theorem of_cons (h : Shows a p cs (t :: ts) ids) :
    ∃ c ds own js, cs = c :: ds ∧ ids = own ++ js ∧ Shows a p [c] [t] own ∧ Shows a p ds ts js := by
  rw [← List.singleton_append] at h
  obtain ⟨cs', ds, own, js, rfl, rfl, first, rest⟩ := h.of_append
  obtain ⟨c, rfl⟩ := List.length_eq_one_iff.1 first.length_eq
  exact ⟨c, ds, own, js, rfl, rfl, first, rest⟩

/-! ### Ranges -/

theorem coverWith_single (h : Shows a p [c] [t] ids) (range : Option TextRange) :
    a.coverWith range c =
      if t.isSubstantial then some (range.elim t.range (·.cover t.range)) else range := by
  obtain ⟨n, found, -, isRange, -, -, substantial⟩ := h.single
  unfold coverWith
  rw [found]
  dsimp only
  rw [substantial, isRange]
  cases range <;> rfl

theorem foldl_coverWith (h : Shows a p cs ts ids) (range : TextRange) :
    cs.foldl a.coverWith (some range) =
      some ((ts.filter SourceTree.isSubstantial).foldl (fun r t => r.cover t.range) range) := by
  induction ts generalizing cs ids range with
  | nil =>
    cases h
    rfl
  | cons t ts ih =>
    obtain ⟨c, ds, own, js, rfl, rfl, first, rest⟩ := h.of_cons
    rw [List.foldl_cons, first.coverWith_single]
    cases substantial : t.isSubstantial with
    | false => rw [if_neg Bool.false_ne_true, ih rest, List.filter_cons_of_neg (by simp [substantial])]
    | true =>
      rw [if_pos rfl, Option.elim_some, ih rest, List.filter_cons_of_pos substantial, List.foldl_cons]

/-- A composite gets the range that a branch gets. -/
theorem coverOf_eq (h : Shows a p cs ts ids) (fallback : TextRange) :
    (a.coverOf cs).getD fallback = SourceTree.coverAll fallback (ts.filter SourceTree.isSubstantial) := by
  unfold coverOf
  induction ts generalizing cs ids with
  | nil =>
    cases h
    rfl
  | cons t ts ih =>
    obtain ⟨c, ds, own, js, rfl, rfl, first, rest⟩ := h.of_cons
    rw [List.foldl_cons, first.coverWith_single]
    cases substantial : t.isSubstantial with
    | false => rw [if_neg Bool.false_ne_true, ih rest, List.filter_cons_of_neg (by simp [substantial])]
    | true =>
      rw [if_pos rfl, Option.elim_none, rest.foldl_coverWith, List.filter_cons_of_pos substantial]
      rfl

end Shows

end Cst

end Workbench
