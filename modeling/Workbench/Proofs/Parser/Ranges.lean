import Workbench.Proofs.Lexer
import Workbench.Proofs.Parser.Distinct
import Workbench.Proofs.Parser.Positions

/-!
**Ranges of branches.**

A branch is closed over the trees of one invocation. An invocation that has any tree has taken a visible
token, since hidden tokens are only taken in front of one. So where the tokens stand one behind the
other, every branch goes from the start of its first visible token to the end of its last one.
-/

namespace Workbench

/-! ### Ranges over tokens -/

namespace Token.InOrder

variable {xs ys : List Token}

theorem sublist (h : InOrder ys) (sub : xs.Sublist ys) : InOrder xs :=
  ⟨fun t mem => h.solid t (sub.subset mem), h.apart.sublist sub⟩

theorem nodup (h : InOrder xs) : xs.Nodup := by
  refine h.apart.imp_of_mem fun {t u} memT memU behind => ?_
  rintro rfl
  have solid := h.solid t memT
  omega

/-- No token starts before the first one. -/
theorem offset_le {first t : Token} (h : Token.InOrder xs) (head : xs.head? = some first) (mem : t ∈ xs) :
    first.offset ≤ t.offset := by
  obtain ⟨rest, rfl⟩ := List.head?_eq_some_iff.1 head
  rcases List.mem_cons.1 mem with rfl | later
  · exact Nat.le_refl _
  · have behind := (List.pairwise_cons.1 h.apart).1 t later
    have solid := h.solid first List.mem_cons_self
    omega

/-- No token ends behind the last one. -/
theorem stop_le {last t : Token} (h : Token.InOrder xs) (end_ : xs.getLast? = some last) (mem : t ∈ xs) :
    t.stop ≤ last.stop := by
  obtain ⟨front, rfl⟩ := List.getLast?_eq_some_iff.1 end_
  rcases List.mem_append.1 mem with earlier | same
  · have behind := (List.pairwise_append.1 h.apart).2.2 t earlier last (List.mem_singleton_self last)
    have solid := h.solid last (List.mem_append_right _ (List.mem_singleton_self last))
    omega
  · rw [List.mem_singleton.1 same]

end Token.InOrder

namespace TextRange

/-- The range goes from the start of the first token to the end of the last one. -/
def Spans (r : TextRange) (tokens : List Token) : Prop :=
  ∃ first last, tokens.head? = some first ∧ tokens.getLast? = some last ∧
    r.start = first.offset ∧ r.stop = last.stop

variable {r r' : TextRange} {xs ys : List Token} {t : Token}

theorem spans_token (t : Token) : t.range.Spans [t] :=
  ⟨t, t, rfl, rfl, rfl, Nat.max_eq_right (Nat.le_add_right _ _)⟩

namespace Spans

theorem ne_nil (h : r.Spans xs) : xs ≠ [] := by
  rintro rfl
  obtain ⟨first, last, head, -⟩ := h
  cases head

/-- A token lies within a range that spans it. -/
theorem within (h : r.Spans xs) (ordered : Token.InOrder xs) (mem : t ∈ xs) :
    r.start ≤ t.offset ∧ t.stop ≤ r.stop := by
  obtain ⟨first, last, head, end_, start, stop⟩ := h
  rw [start, stop]
  exact ⟨ordered.offset_le head mem, ordered.stop_le end_ mem⟩

theorem lt (h : r.Spans xs) (ordered : Token.InOrder xs) : r.start < r.stop := by
  obtain ⟨t, mem⟩ := List.exists_mem_of_ne_nil _ h.ne_nil
  have within := h.within ordered mem
  have solid := ordered.solid t mem
  omega

/-- The ranges of tokens that follow one another cover all of them. -/
theorem cover (h : r.Spans xs) (h' : r'.Spans ys) (ordered : Token.InOrder (xs ++ ys)) :
    (r.cover r').Spans (xs ++ ys) := by
  obtain ⟨first, last, head, end_, start, stop⟩ := h
  obtain ⟨first', last', head', end', start', stop'⟩ := h'
  obtain ⟨-, -, apart⟩ := List.pairwise_append.1 ordered.apart
  have solid : ∀ {t}, t ∈ xs → t.offset < t.stop := fun mem => ordered.solid _ (List.mem_append_left _ mem)
  have solid' : ∀ {t}, t ∈ ys → t.offset < t.stop := fun mem => ordered.solid _ (List.mem_append_right _ mem)
  have memFirst := List.mem_of_head? head
  have memLast := List.mem_of_getLast? end_
  have memFirst' := List.mem_of_head? head'
  have memLast' := List.mem_of_getLast? end'
  refine ⟨first, last', ?_, ?_, ?_, ?_⟩
  · rw [List.head?_append, head, Option.some_or]
  · rw [List.getLast?_append, end', Option.some_or]
  · have behind := apart first memFirst first' memFirst'
    have positive := solid memFirst
    change min r.start r'.start = first.offset
    omega
  · have behind := apart last memLast last' memLast'
    have positive := solid' memLast'
    change max r.stop r'.stop = last'.stop
    omega

end Spans

end TextRange

/-! ### Ranges of trees -/

namespace SourceTree

variable {t u : SourceTree} {children : List SourceTree} {p : List Nat}

/-- The visible tokens below a tree, in order. -/
def visible (t : SourceTree) : List Token := t.leaves.filter Token.isVisible

/-- The visible tokens below some trees, in order. -/
def visibleOf (trees : List SourceTree) : List Token := (leavesOf trees).filter Token.isVisible

theorem visibleOf_cons (t : SourceTree) (rest : List SourceTree) :
    visibleOf (t :: rest) = t.visible ++ visibleOf rest := by
  rw [visibleOf, leavesOf, List.filter_append]
  rfl

@[simp] theorem visibleOf_append (xs ys : List SourceTree) :
    visibleOf (xs ++ ys) = visibleOf xs ++ visibleOf ys := by
  simp [visibleOf]

theorem visible_sublist_of_at? (h : t.at? p = some u) : u.visible.Sublist t.visible :=
  (sublist_of_at? leaves_children h).filter _

/-- Every branch in the tree spans its visible tokens. -/
def Snug (t : SourceTree) : Prop :=
  ∀ p u, t.at? p = some u → u.isBranch = true → u.range.Spans u.visible

theorem snug_leaf (token : Token) (feature : Option String) : (leaf token feature).Snug := by
  intro p u below branch
  cases p with
  | nil => cases below; cases branch
  | cons i p => cases below

namespace Snug

theorem of_children (inside : ∀ child ∈ t.children, child.Snug)
    (spans : t.isBranch = true → t.range.Spans t.visible) : t.Snug := by
  intro p u below branch
  cases p with
  | nil =>
    obtain rfl := Option.some.inj below
    exact spans branch
  | cons i p =>
    obtain ⟨child, found, below⟩ := at?_cons_eq_some_iff.1 below
    exact inside child (List.mem_of_getElem? found) p u below branch

theorem of_mem_children (h : t.Snug) {child : SourceTree} (mem : child ∈ t.children) : child.Snug := by
  intro p u below
  obtain ⟨i, found⟩ := List.mem_iff_getElem?.1 mem
  exact h (i :: p) u (at?_cons_eq_some_iff.2 ⟨child, found, below⟩)

theorem withOwner (h : t.Snug) (owner : Option NodeId) : (t.withOwner owner).Snug := by
  cases t with
  | leaf token feature => exact h
  | branch rule feature range previous children =>
    refine of_children (fun child mem => h.of_mem_children mem) fun _ => ?_
    rw [visible, leaves_withOwner]
    exact h [] (branch rule feature range previous children) rfl rfl

/-- A tree with a visible token spans its visible tokens, be it a token or a branch. -/
theorem spans (h : t.Snug) (some : t.visible ≠ []) : t.range.Spans t.visible := by
  cases t with
  | leaf token feature =>
    have shown : token.isVisible = true := by
      by_contra hidden
      exact some (by simp [visible, leaves, hidden])
    have self : (leaf token feature).visible = [token] := by simp [visible, leaves, shown]
    rw [self]
    exact TextRange.spans_token token
  | branch rule feature range owner children => exact h [] _ rfl rfl

theorem visible_ne_nil_iff (h : t.Snug) (ordered : Token.InOrder t.visible) :
    t.isSubstantial = true ↔ t.visible ≠ [] := by
  cases t with
  | leaf token feature => by_cases shown : token.isVisible = true <;> simp [visible, leaves, isSubstantial, shown]
  | branch rule feature range owner children =>
    have spans := h [] _ rfl rfl
    have extent : range.start ≠ range.stop := (spans.lt ordered).ne
    exact iff_of_true (by simpa [isSubstantial, TextRange.isEmpty] using extent) spans.ne_nil

end Snug

/-- Trees without a visible token do not count for the range around them. -/
theorem visibleOf_substantial (snug : ∀ t ∈ children, t.Snug) (ordered : Token.InOrder (visibleOf children)) :
    visibleOf (children.filter isSubstantial) = visibleOf children := by
  induction children with
  | nil => rfl
  | cons t rest ih =>
    rw [visibleOf_cons] at ordered
    have first := (snug t List.mem_cons_self).visible_ne_nil_iff
      (ordered.sublist (List.sublist_append_left _ _))
    have others := ih (fun u mem => snug u (List.mem_cons_of_mem _ mem))
      (ordered.sublist (List.sublist_append_right _ _))
    rw [List.filter_cons]
    split
    · rw [visibleOf_cons, visibleOf_cons, others]
    · next empty =>
      rw [first, not_not] at empty
      rw [visibleOf_cons, empty, others, List.nil_append]

theorem spans_foldl {r : TextRange} {seen : List Token} (first : r.Spans seen) {rest : List SourceTree}
    (spans : ∀ t ∈ rest, t.range.Spans t.visible) (ordered : Token.InOrder (seen ++ visibleOf rest)) :
    (rest.foldl (fun r t => r.cover t.range) r).Spans (seen ++ visibleOf rest) := by
  induction rest generalizing r seen with
  | nil => simpa [visibleOf, leavesOf] using first
  | cons t rest ih =>
    rw [visibleOf_cons, ← List.append_assoc] at ordered ⊢
    have both := first.cover (spans t List.mem_cons_self) (ordered.sublist (List.sublist_append_left _ _))
    exact ih both (fun u mem => spans u (List.mem_cons_of_mem _ mem)) ordered

/-- A closed branch spans the visible tokens of the trees in it. -/
theorem spans_coverAll (snug : ∀ t ∈ children, t.Snug) (ordered : Token.InOrder (visibleOf children))
    (some : visibleOf children ≠ []) (fallback : TextRange) :
    (coverAll fallback (children.filter isSubstantial)).Spans (visibleOf children) := by
  have counted := visibleOf_substantial snug ordered
  have spans : ∀ t ∈ children.filter isSubstantial, t.range.Spans t.visible := by
    intro t mem
    obtain ⟨mem, substantial⟩ := List.mem_filter.1 mem
    have within : t.visible.Sublist (visibleOf children) := by
      rw [visibleOf, leavesOf_eq, List.flatMap_def]
      exact (List.sublist_flatten_of_mem (List.mem_map_of_mem mem)).filter _
    exact (snug t mem).spans (((snug t mem).visible_ne_nil_iff (ordered.sublist within)).1 substantial)
  rw [← counted] at ordered some ⊢
  cases kept : children.filter isSubstantial with
  | nil => exact absurd (by rw [kept]; rfl) some
  | cons t rest =>
    rw [kept] at spans ordered
    rw [visibleOf_cons] at ordered ⊢
    exact spans_foldl (spans t List.mem_cons_self) (fun u mem => spans u (List.mem_cons_of_mem _ mem)) ordered

theorem snug_close (snug : ∀ t ∈ children, t.Snug) (ordered : Token.InOrder (visibleOf children))
    (some : visibleOf children ≠ []) (rule : RuleId) (feature : Option String) (offset : Nat) :
    (close rule feature offset children).Snug := by
  refine .of_children snug fun _ => ?_
  have same : (close rule feature offset children).visible = visibleOf children := by
    rw [visible, leaves_close, visibleOf]
  rw [same]
  exact spans_coverAll snug ordered some _

end SourceTree

/-! ### Runs -/

namespace State

open SourceTree

variable {plan : Plan} {s t : State}

theorem children_collect (text : String) : (s.collect text).frame.children = s.frame.children := by
  unfold collect
  split <;> rfl

theorem children_assign (feature : String) (op : AssignOp) (value : Value) :
    (s.assign feature op value).frame.children = s.frame.children := by
  unfold assign
  split <;> rfl

theorem children_retag (type : TypeId) : (s.retag type).frame.children = s.frame.children := by
  unfold retag
  split
  · rfl
  · split <;> rfl

theorem children_adopt (id : NodeId) : (s.adopt id).frame.children = s.frame.children := by
  unfold adopt
  split <;> rfl

/-- The trees of the invocation under way have their ranges, and among its tokens is a visible one if
there are any. -/
structure Snug (s : State) : Prop where
  trees : ∀ tree ∈ s.frame.children.toList, tree.Snug
  shown : s.frame.children.toList ≠ [] → visibleOf s.frame.children.toList ≠ []

namespace Snug

theorem of_children (h : s.Snug) (same : t.frame.children = s.frame.children) : t.Snug := by
  refine ⟨?_, ?_⟩
  · rw [same]
    exact h.trees
  · rw [same]
    exact h.shown

theorem attach {trees : List SourceTree} (h : s.Snug) (snug : ∀ tree ∈ trees, tree.Snug)
    (shown : trees ≠ [] → visibleOf trees ≠ []) : (s.attach trees).Snug := by
  have children : (s.attach trees).frame.children.toList = s.frame.children.toList ++ trees := by
    simp [State.attach]
  refine ⟨?_, ?_⟩
  · rw [children]
    exact List.forall_mem_append.2 ⟨h.trees, snug⟩
  · rw [children, visibleOf_append]
    intro some
    rw [ne_eq, List.append_eq_nil_iff, not_and_or] at some ⊢
    exact some.imp h.shown shown

theorem consume (h : s.Snug) (feature : Option String) : (s.consume feature).1.Snug := by
  cases found : s.stream.next? with
  | none =>
    unfold State.consume
    rw [found]
    exact h
  | some next =>
    obtain ⟨hidden, token, rest⟩ := next
    obtain ⟨-, -, shown⟩ := TokenStream.next?_eq_some found
    rw [consume_of_next? found]
    refine attach (h.of_children rfl) ?_ fun _ => ?_
    · simp only [List.forall_mem_append, List.forall_mem_map, List.mem_singleton, forall_eq]
      exact ⟨fun t _ => snug_leaf t none, snug_leaf token feature⟩
    · simp [visibleOf, shown]

/-- The trees of an invocation can be put into one branch. -/
theorem close (h : s.Snug) (ordered : Token.InOrder (s.taken ++ s.stream.tokens))
    (some : s.frame.children.toList ≠ []) (rule : RuleId) (feature : Option String) (offset : Nat) :
    (SourceTree.close rule feature offset s.frame.children.toList).Snug := by
  refine snug_close h.trees ?_ (h.shown some) rule feature offset
  exact ordered.sublist (List.filter_sublist.trans (List.sublist_append_left _ _))

theorem wrap (h : s.Snug) (ordered : Token.InOrder (s.taken ++ s.stream.tokens)) (type : TypeId)
    (feature : String) (op : AssignOp) : (s.wrap plan type feature op).Snug := by
  cases content : s.frame.content with
  | text acc =>
    unfold State.wrap
    rw [content]
    exact h.of_children rfl
  | object o =>
    have wrapped : ∀ built, (∀ tree ∈ (wrappedTrees s.frame feature built).toList, tree.Snug) ∧
        ((wrappedTrees s.frame feature built).toList ≠ [] →
          visibleOf (wrappedTrees s.frame feature built).toList ≠ []) := by
      intro built
      have leaves := leavesOf_wrappedTrees s.frame feature built
      refine ⟨?_, fun some => ?_⟩
      · unfold wrappedTrees wrapChildren
        cases children : s.frame.children.toList with
        | nil => exact h.trees
        | cons first rest =>
          have closed := h.close ordered (by rw [children]; exact List.cons_ne_nil _ _) s.frame.rule
            (some feature) first.range.start
          rw [children] at closed
          cases built with
          | none => simpa using closed
          | some id => simpa using closed.withOwner (some id)
      · rw [visibleOf, leaves]
        refine h.shown fun empty => some ?_
        unfold wrappedTrees wrapChildren
        rw [empty]
        exact empty
    rw [wrap_of_object content]
    split
    · refine of_children ?_ (children_assign _ _ _)
      exact ⟨(wrapped _).1, (wrapped _).2⟩
    · exact ⟨(wrapped _).1, (wrapped _).2⟩

end Snug

end State

namespace Interpreter

open State SourceTree

variable {plan : Plan} {s t : State}

/-- The tree of an invocation is closed over its trees. -/
theorem tree_of_leave {id : RuleId} {kind : RuleKind} {feature : Option String} {offset : Nat} {caller : Frame}
    {tree : SourceTree} (took : (leave plan id kind feature offset caller s).tree = some tree) :
    s.frame.children.toList ≠ [] ∧
      ∃ owner, tree = (close id feature offset s.frame.children.toList).withOwner owner := by
  unfold leave at took
  dsimp only at took
  split at took
  · cases took
  · next some =>
    refine ⟨by simpa using some, ?_⟩
    split at took
    · split at took
      · cases took
        exact ⟨_, rfl⟩
      · cases took
        exact ⟨none, rfl⟩
    · cases took
      exact ⟨none, rfl⟩
    · cases took
      exact ⟨none, rfl⟩

/-- The caller gets a branch that has its range. -/
theorem Returns.snug {out : Invoked} (back : Returns out t) (caller : out.state.Snug)
    (tree : ∀ tree ∈ out.tree, tree.Snug ∧ tree.visible ≠ []) : t.Snug := by
  have attached : ∀ owner : SourceTree → SourceTree, (∀ tree, tree.Snug → (owner tree).Snug) →
      (∀ tree, (owner tree).leaves = tree.leaves) →
      (out.state.attach (out.tree.toList.map owner)).Snug := by
    intro owner snug leaves
    cases took : out.tree with
    | none => exact caller.attach nofun (absurd rfl)
    | some inner =>
      obtain ⟨inside, shown⟩ := tree inner took
      refine caller.attach (by simpa using snug inner inside) fun _ => ?_
      rw [Option.toList_some, List.map_singleton, visibleOf, leavesOf_singleton, leaves]
      exact shown
  have kept : (out.state.attach out.tree.toList).Snug := by
    simpa using attached id (fun _ h => h) fun _ => rfl
  cases back with
  | keep => exact kept
  | assign => exact kept.of_children (children_assign _ _ _)
  | adopt =>
    refine .of_children ?_ (children_adopt _)
    exact attached _ (fun _ h => h.withOwner none) (leaves_withOwner none)
  | refer took =>
    rw [took] at kept
    exact kept.of_children (children_assign _ _ _)

/-- Every run gives the branches that it closes their ranges. -/
theorem Reaches.snug (h : Reaches plan s t) (ordered : Token.InOrder (s.taken ++ s.stream.tokens))
    (before : s.Snug) : t.Snug := by
  induction h with
  | refl => exact before
  | trans first _ ih ih' =>
    refine ih' ?_ (ih ordered before)
    rw [first.onward.tokens]
    exact ordered
  | note => exact before.of_children rfl
  | record => exact before.of_children rfl
  | fail problem => exact before.of_children (congrArg Frame.children (frame_raise problem))
  | settle => exact before.of_children rfl
  | consume feature => exact before.consume feature
  | collect text => exact before.of_children (children_collect text)
  | assign _ feature op => exact before.of_children (children_assign feature op _)
  | refer feature op => exact before.of_children (children_assign feature op _)
  | retag type => exact before.of_children (children_retag type)
  | wrap type feature op => exact before.wrap ordered type feature op
  | @call s ended t id rule feature offset known inner back ih =>
    have entered : (taken { s with frame := Frame.enter id rule.kind } ++ s.stream.tokens).Sublist
        (s.taken ++ s.stream.tokens) := by
      rw [taken_enter]
      exact List.sublist_append_right _ _
    have orderedInside := ordered.sublist entered
    have empty : (Frame.enter id rule.kind).children = #[] := by cases rule.kind <;> rfl
    have inside : ended.Snug := by
      refine ih orderedInside ⟨?_, ?_⟩ <;> simp [empty]
    have orderedEnd : Token.InOrder (ended.taken ++ ended.stream.tokens) := by
      rw [inner.onward.tokens]
      exact orderedInside
    refine back.snug (before.of_children (congrArg Frame.children (frame_leave ..))) fun tree took => ?_
    obtain ⟨some, owner, rfl⟩ := tree_of_leave took
    refine ⟨(inside.close orderedEnd some id feature offset).withOwner owner, ?_⟩
    rw [visible, leaves_withOwner, leaves_close]
    exact inside.shown some

end Interpreter

end Workbench
