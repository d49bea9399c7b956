import Workbench.Proofs.Grammar.Lookahead
import Workbench.Proofs.Parser.Alike
import Workbench.Proofs.Parser.Meaning

/-!
**What an undisturbed run builds.**

As long as the tokens ahead are those that the grammar asks for, a run takes them one by one, reports
nothing, and what it builds can be told in advance. There is a lemma for each kind of element that says how
the object under construction changes, and which meaning a node has that was called for. A rule body is
followed by applying them one after the other.
-/

namespace Workbench

namespace State

/-! ### Runs along the tokens that are asked for -/

/-- The tokens ahead, by kind and image. -/
def ahead (s : State) : List (TokenKind × String) := s.stream.visible.map Token.reading

/-- All that `s` has built is still there in `t`. -/
structure Grows (s t : State) : Prop where
  size : s.nodes.size ≤ t.nodes.size
  agrees : s.arena.Agrees s.nodes.size t.arena

namespace Grows

variable {s t u : State}

theorem refl (s : State) : Grows s s := ⟨Nat.le_refl _, .refl _ _⟩

theorem trans (h : Grows s t) (h' : Grows t u) : Grows s u :=
  ⟨Nat.le_trans h.size h'.size, h.agrees.trans (h'.agrees.mono h.size)⟩

theorem of_arena (same : t.arena = s.arena) : Grows s t := by
  refine ⟨Nat.le_of_eq (congrArg (·.nodes.size) same.symm), ?_⟩
  rw [same]
  exact .refl _ _

end Grows

/-- A state on the way through a rule that was entered in `base`: `rest` is ahead, nothing was reported,
what there was is still there, and once a token is taken it is in the trees of the invocation. -/
structure Along (base : State) (rest : List (TokenKind × String)) (content : Content) (s : State) :
    Prop where
  ahead : s.ahead = rest
  errors : s.errors = base.errors
  content : s.frame.content = content
  grows : Grows base s
  taken : rest.length < base.ahead.length → s.taken ≠ []

namespace Along

variable {plan : Plan} {base s t : State} {rest : List (TokenKind × String)} {c c' : Content}

/-- The frame and state of a step that takes no token. -/
theorem silent (h : Along base rest c s) (silent : Silent s t) (content : t.frame.content = c')
    (grows : Grows base t) : Along base rest c' t where
  ahead := by rw [State.ahead, silent.stream]; exact h.ahead
  errors := silent.errors.trans h.errors
  content := content
  grows := grows
  taken := by rw [silent.taken]; exact h.taken

/-- The token that is asked for is taken. -/
theorem expect {r : TokenKind × String} (h : Along base (r :: rest) c s) {accepts : Token → Bool}
    (accepted : ∀ t, t.reading = r → accepts t = true) (plan : Plan) (problem : ParseProblem)
    (feature : Option String) :
    ∃ t token, s.expect plan accepts problem feature = (t, some token) ∧ token.reading = r ∧
      Along base rest c t ∧ t.arena = s.arena := by
  obtain ⟨token, visible, split, reading, others⟩ := List.map_eq_cons_iff.1 h.ahead
  cases found : s.stream.next? with
  | none =>
    rw [TokenStream.next?_eq_none_iff.1 found] at split
    cases split
  | some next =>
    obtain ⟨hidden, token', stream⟩ := next
    rw [TokenStream.visible_of_next? found] at split
    obtain ⟨rfl, rfl⟩ := List.cons.inj split
    have peeked : s.stream.peek?.any accepts = true := by
      rw [TokenStream.peek?_eq_head?, TokenStream.visible_of_next? found]
      exact accepted token' reading
    have taken : s.expect plan accepts problem feature =
        (({ s with stream, recovering := false }).attach
          (hidden.map (SourceTree.leaf · none) ++ [SourceTree.leaf token' feature]), some token') := by
      unfold State.expect
      dsimp only
      rw [if_pos peeked]
      exact consume_of_next? (s := { s with recovering := false }) found feature
    refine ⟨_, token', taken, reading, ⟨others, h.errors, h.content, ?_, fun _ => ?_⟩, ?_⟩
    · exact h.grows.trans (.of_arena rfl)
    · rw [taken_attach]
      simp
    · rfl

end Along

end State

/-- The content after some text was added. Objects collect no text. -/
def Content.collected (text : String) : Content → Content
  | .text acc => .text (acc ++ text)
  | .object o => .object o

namespace State

variable {s : State}

theorem content_collect (s : State) (text : String) :
    (s.collect text).frame.content = s.frame.content.collected text := by
  unfold collect
  cases content : s.frame.content with
  | text acc => rfl
  | object o => exact content

@[simp] theorem arena_collect (s : State) (text : String) : (s.collect text).arena = s.arena := by
  unfold collect
  split <;> rfl

@[simp] theorem arena_assign (s : State) (feature : String) (op : AssignOp) (value : Value) :
    (s.assign feature op value).arena = s.arena := by
  unfold assign
  split <;> rfl

theorem grows_refer (s : State) (r : Reference) :
    Grows s { s with references := s.references.push r } := by
  refine ⟨Nat.le_refl _, fun _ _ => rfl, fun id r' found => ⟨r', ?_, rfl⟩⟩
  dsimp only [State.arena] at found ⊢
  obtain ⟨below, same⟩ := Array.getElem?_eq_some_iff.1 found
  rw [Array.getElem?_push_lt below, same]

end State

/-! ### Looking ahead -/

/-- Whether a token of this kind and image is in the set. -/
def FirstSet.accepts (first : FirstSet) (r : TokenKind × String) : Bool :=
  if r.1 = .keyword then first.keywords.contains r.2 else first.kinds.contains r.1

/-- If no terminal rule matches keywords, the tokens that start an element tell whether it goes on. -/
theorem Lookahead.predicts_eq_accepts {g : Grammar} (apart : ∀ id, g.terminal? id ≠ some .keyword)
    (e : Element) (t : Token) :
    (Lookahead.of g).predicts e t = ((Lookahead.of g).first e).accepts t.reading := by
  have noKeyword : ¬ ((Lookahead.of g).first e).Has (.kind .keyword) := by
    rw [first_has_iff]
    intro starts
    obtain ⟨id, terminal⟩ := exists_terminal_of_starts starts
    exact apart id terminal
  rw [Bool.eq_iff_iff, predicts_iff apart]
  simp only [← first_has_iff]
  exact (FirstSet.contains_iff noKeyword t).symm

/-! ### Invocations -/

namespace Interpreter

open State

/-- An invocation from `s` has left `rest`, and has taken a token. -/
structure Returned (s : State) (rest : List (TokenKind × String)) (out : Invoked) : Prop where
  ahead : out.state.ahead = rest
  errors : out.state.errors = s.errors
  frame : out.state.frame = s.frame
  grows : Grows s out.state
  tree : ∃ tree, out.tree = some tree ∧ tree.leaves ≠ []

/-- The invocation has built a node with a meaning. -/
structure Makes (types : TypeHierarchy) (M : Meaning) (s : State) (rest : List (TokenKind × String))
    (out : Invoked) : Prop extends Returned s rest out where
  node : ∃ id n, out.value = some (.node id) ∧ s.nodes.size ≤ id ∧ out.state.nodes[id]? = some n ∧
    withDefaults types n.type n.properties = n.properties ∧
    M out.state.arena n.type n.properties.get? id

/-- The rule reads `w` in front of `rest` as a node with a meaning. -/
def Gives (plan : Plan) (depth : Nat) (id : RuleId) (w : List (TokenKind × String)) (M : Meaning)
    (rest : List (TokenKind × String)) : Prop :=
  ∀ ⦃s : State⦄ (feature : Option String), s.ahead = w ++ rest →
    Makes plan.grammar.types M s rest (Interpreter.invoke plan depth id feature s)

/-- The invocation has read a text. -/
structure Spells (text : String) (s : State) (rest : List (TokenKind × String)) (out : Invoked) :
    Prop extends Returned s rest out where
  value : out.value = some (.value (.text text))

/-- An object that will be a node with a meaning once it is finished. -/
structure Becomes (types : TypeHierarchy) (M : Meaning) (base s : State) (o : Object) : Prop where
  slot : ∀ id ∈ o.slot, base.nodes.size ≤ id ∧ id < s.nodes.size
  holds : ∃ type, o.type = some type ∧
    M s.arena type (withDefaults types type o.properties).get? (o.slot.getD s.nodes.size)

theorem Becomes.of_arena {types : TypeHierarchy} {M : Meaning} {base s t : State} {o : Object}
    (h : Becomes types M base s o) (same : t.arena = s.arena) : Becomes types M base t o := by
  have size : t.nodes.size = s.nodes.size := congrArg (·.nodes.size) same
  refine ⟨?_, ?_⟩
  · rw [size]
    exact h.slot
  · rw [same, size]
    exact h.holds

variable {plan : Plan} {invoke : Invocation} {base s t : State} {rest w : List (TokenKind × String)}
  {c : Content} {o : Object} {M : Meaning} {id : RuleId} {rule : Rule} {feature : String}
  {op : AssignOp}

theorem Returned.attach {out : Invoked} (back : Returned s rest out) (h : Along base w c s)
    (trees : List SourceTree) (leaves : SourceTree.leavesOf trees ≠ []) :
    Along base rest c (out.state.attach trees) where
  ahead := back.ahead
  errors := back.errors.trans h.errors
  content := by
    change out.state.frame.content = c
    rw [back.frame]
    exact h.content
  grows := h.grows.trans (back.grows.trans (.of_arena rfl))
  taken _ := by
    rw [taken_attach]
    simp [leaves]

/-! ### Tokens -/

theorem run_keyword {text : String} (h : Along base ((.keyword, text) :: rest) c s) :
    ∃ t, run plan invoke (.keyword text) s = { state := t } ∧ Along base rest (c.collected text) t ∧
      t.arena = s.arena := by
  have accepted : ∀ t : Token, t.reading = (.keyword, text) → t.isKeyword text = true := by
    intro t reading
    obtain ⟨kind, image⟩ := Prod.mk.inj reading
    simp [Token.isKeyword, kind, image]
  obtain ⟨t, token, taken, -, along, same⟩ := h.expect accepted plan (.missingKeyword text) none
  refine ⟨t.collect text, ?_, along.silent (.collect t text) ?_ ?_, (arena_collect t text).trans same⟩
  · rw [run, State.expectKeyword, taken]
    rfl
  · rw [content_collect, along.content]
  · exact along.grows.trans (.of_arena (arena_collect t text))

theorem Along.assign (h : Along base rest (.object o) s) (feature : String) (op : AssignOp)
    (value : Value) :
    Along base rest (.object { o with properties := o.properties.assigned feature op value })
      (s.assign feature op value) := by
  refine h.silent (.assign s feature op value) ?_
    (h.grows.trans (.of_arena (arena_assign s feature op value)))
  rw [assign_of_object h.content]

theorem run_assign_keyword {text : String} (h : Along base ((.keyword, text) :: rest) (.object o) s)
    (feature : String) (op : AssignOp) :
    ∃ t, runAssigned plan invoke feature op (.keyword text) s = { state := t } ∧
      Along base rest (.object { o with properties := o.properties.assigned feature op (.text text) })
        t ∧ t.arena = s.arena := by
  have accepted : ∀ t : Token, t.reading = (.keyword, text) → t.isKeyword text = true := by
    intro t reading
    obtain ⟨kind, image⟩ := Prod.mk.inj reading
    simp [Token.isKeyword, kind, image]
  obtain ⟨t, token, taken, -, along, same⟩ :=
    h.expect accepted plan (.missingKeyword text) (some feature)
  refine ⟨t.assign feature op (.text text), ?_, Along.assign along _ _ _,
    (arena_assign t _ _ _).trans same⟩
  rw [runAssigned, State.expectKeyword, taken]
  rfl

/-- A token of a terminal rule, taken for a feature or for the text under construction. -/
theorem expectKind_of_ahead {kind : TokenKind} {image : String}
    (h : Along base ((kind, image) :: rest) c s) (plan : Plan) (name : String)
    (feature : Option String) :
    ∃ t token, s.expectKind plan kind name feature = (t, some token) ∧ token.image = image ∧
      Along base rest c t ∧ t.arena = s.arena := by
  have accepted : ∀ t : Token, t.reading = (kind, image) → (t.kind == kind) = true := by
    intro t reading
    simpa [Token.reading] using congrArg Prod.fst reading
  obtain ⟨t, token, taken, reading, along, same⟩ :=
    h.expect accepted plan (.missingToken name) feature
  exact ⟨t, token, taken, congrArg Prod.snd reading, along, same⟩

theorem run_assign_token {kind : TokenKind} {image : String} {value : ValueKind}
    (known : plan.grammar.rules[id]? = some rule) (terminal : rule.kind = .terminal kind value)
    (h : Along base ((kind, image) :: rest) (.object o) s) (feature : String) (op : AssignOp) :
    ∃ t, run plan invoke (.assign feature op (.call id)) s = { state := t } ∧
      Along base rest
        (.object { o with properties := o.properties.assigned feature op (value.convert image) }) t ∧
      t.arena = s.arena := by
  obtain ⟨t, token, taken, rfl, along, same⟩ :=
    expectKind_of_ahead h plan rule.name (some feature)
  refine ⟨t.assign feature op (value.convert token.image), ?_, Along.assign along _ _ _,
    (arena_assign t _ _ _).trans same⟩
  rw [run, runAssigned, call, known]
  simp only [terminal, Option.map_some, taken]

theorem run_collect_token {kind : TokenKind} {image : String} {value : ValueKind}
    (known : plan.grammar.rules[id]? = some rule) (terminal : rule.kind = .terminal kind value)
    (h : Along base ((kind, image) :: rest) c s) :
    ∃ t, run plan invoke (.call id) s = { state := t } ∧
      Along base rest (c.collected (value.convertText image)) t ∧ t.arena = s.arena := by
  obtain ⟨t, token, taken, rfl, along, same⟩ := expectKind_of_ahead h plan rule.name none
  refine ⟨t.collect (value.convertText token.image), ?_, along.silent (.collect t _) ?_ ?_,
    (arena_collect t _).trans same⟩
  · rw [run, call, known]
    simp only [terminal, Option.map_none, taken]
  · rw [content_collect, along.content]
  · exact along.grows.trans (.of_arena (arena_collect t _))

/-! ### Finishing an object -/

theorem constructObject_of_becomes (becomes : Becomes plan.grammar.types M base s o) (stable : M.Stable)
    (grows : Grows base s) (source : Option SourceTree) :
    ∃ t id n, s.constructObject plan o source = (t, some id) ∧ Grows base t ∧ base.nodes.size ≤ id ∧
      t.nodes[id]? = some n ∧ withDefaults plan.grammar.types n.type n.properties = n.properties ∧
      M t.arena n.type n.properties.get? id := by
  obtain ⟨type, typed, holds⟩ := becomes.holds
  have above : base.nodes.size ≤ o.slot.getD s.nodes.size := by
    cases slot : o.slot with
    | none => exact grows.size
    | some id => exact (becomes.slot id slot).1
  have gains := gains_construct plan type o.properties source fun id mem => (becomes.slot id mem).2
  obtain ⟨n, found, same⟩ := gains.self
  -- the new node is the first about which both arenas may differ, so its meaning carries over
  have agrees := Arena.Agrees.of_gains gains (Nat.le_refl _)
  refine ⟨_, _, n, by rw [constructObject, typed]; rfl, ⟨?_, ?_⟩, above, found, ?_, ?_⟩
  · exact Nat.le_trans grows.size (size_le_construct plan _ _ _ _ s)
  · exact grows.agrees.trans (agrees.mono above)
  · rw [AstNode.type_of_unplaced same, AstNode.properties_of_unplaced same]
    exact withDefaults_idem _ _ _
  · rw [AstNode.type_of_unplaced same, AstNode.properties_of_unplaced same]
    exact stable agrees holds

theorem isEmpty_children_of_taken (h : s.taken ≠ []) : s.frame.children.isEmpty = false := by
  rw [Bool.eq_false_iff]
  intro empty
  simp [State.taken, Array.isEmpty_iff.1 empty, SourceTree.leavesOf] at h

/-- A rule is entered with nothing taken and nothing built. -/
theorem along_enter (s : State) (id : RuleId) (kind : RuleKind) :
    Along { s with frame := Frame.enter id kind } s.ahead (Frame.enter id kind).content
      { s with frame := Frame.enter id kind } :=
  ⟨rfl, rfl, rfl, .refl _, fun less => absurd less (Nat.lt_irrefl _)⟩

theorem makes_leave {kind : RuleKind}
    (h : Along { s with frame := Frame.enter id kind } rest (.object o) t)
    (took : rest.length < s.ahead.length) (stable : M.Stable)
    (becomes : Becomes plan.grammar.types M { s with frame := Frame.enter id kind } t o)
    (feature : Option String) (offset : Nat) :
    Makes plan.grammar.types M s rest (leave plan id kind feature offset s.frame t) := by
  have leaves : SourceTree.leavesOf t.frame.children.toList ≠ [] := h.taken took
  have children := isEmpty_children_of_taken leaves
  have returned : Becomes plan.grammar.types M s { t with frame := s.frame } o :=
    ⟨becomes.slot, becomes.holds⟩
  have grown : Grows s { t with frame := s.frame } := ⟨h.grows.size, h.grows.agrees⟩
  obtain ⟨u, n, node, built, grows, above, found, complete, holds⟩ :=
    constructObject_of_becomes returned stable grown
      (some (.close id feature offset t.frame.children.toList))
  have finished := Finishing.constructObject plan { t with frame := s.frame } o
    (some (.close id feature offset t.frame.children.toList))
  rw [built] at finished
  have left : leave plan id kind feature offset s.frame t =
      { state := u
        tree := some ((SourceTree.close id feature offset t.frame.children.toList).withOwner (some n))
        value := some (.node n) } := by
    unfold leave
    simp only [children, h.content, built]
    rfl
  rw [left]
  refine ⟨⟨?_, ?_, finished.frame, grows, ⟨_, rfl, by simpa using leaves⟩⟩,
    n, node, rfl, above, found, complete, holds⟩
  · rw [State.ahead, finished.stream]
    exact h.ahead
  · exact finished.errors.trans h.errors

theorem spells_leave {acc : String}
    (h : Along { s with frame := Frame.enter id (.dataType .text) } rest (.text acc) t)
    (took : rest.length < s.ahead.length) (feature : Option String) (offset : Nat) :
    Spells acc s rest (leave plan id (.dataType .text) feature offset s.frame t) := by
  have leaves : SourceTree.leavesOf t.frame.children.toList ≠ [] := h.taken took
  have children := isEmpty_children_of_taken leaves
  have left : leave plan id (.dataType .text) feature offset s.frame t =
      { state := { t with frame := s.frame }
        tree := some (SourceTree.close id feature offset t.frame.children.toList)
        value := some (.value (.text acc)) } := by
    unfold leave
    simp only [children, h.content]
    rfl
  rw [left]
  exact ⟨⟨h.ahead, h.errors, rfl, ⟨h.grows.size, h.grows.agrees⟩, ⟨_, rfl, by simpa using leaves⟩⟩, rfl⟩

theorem invoke_succ {depth : Nat} (known : plan.grammar.rules[id]? = some rule)
    (ran : run plan (Interpreter.invoke plan depth) rule.body
      { s with frame := Frame.enter id rule.kind } = { state := t }) (feature : Option String) :
    Interpreter.invoke plan (depth + 1) id feature s =
      leave plan id rule.kind feature (s.nextOffset plan) s.frame t := by
  rw [Interpreter.invoke, known]
  dsimp only
  rw [runReported, ran]

/-- A rule is read by following its body. -/
theorem gives_of_run {depth : Nat} {name : String} {returns : Option TypeId} {body : Element}
    (known : plan.grammar.rules[id]? = some ⟨name, .parser returns, body⟩) (stable : M.Stable)
    (visible : w ≠ [])
    (runs : ∀ base s, Along base (w ++ rest) (.object { type := returns }) s →
      ∃ t o, run plan (Interpreter.invoke plan depth) body s = { state := t } ∧
        Along base rest (.object o) t ∧ Becomes plan.grammar.types M base t o) :
    Gives plan (depth + 1) id w M rest := by
  intro s feature ahead
  have entered := along_enter s id (.parser returns)
  rw [ahead] at entered
  obtain ⟨t, o, ran, along, becomes⟩ := runs _ _ entered
  have took : rest.length < s.ahead.length := by
    have := List.length_pos_of_ne_nil visible
    rw [ahead, List.length_append]
    omega
  rw [invoke_succ known ran]
  exact makes_leave along took stable becomes feature _

/-! ### Calls -/

/-- The call of a rule that is no terminal rule. -/
theorem call_of_rule (known : plan.grammar.rules[id]? = some rule) (rules : rule.kind.terminal? = none)
    (target : Option (String × AssignOp)) (s : State) :
    call plan invoke id target s =
      match (invoke id (target.map (·.1)) s).value, target with
      | none, _ =>
        (invoke id (target.map (·.1)) s).state.attach (invoke id (target.map (·.1)) s).tree.toList
      | some (.node n), some (feature, op) =>
        ((invoke id (target.map (·.1)) s).state.attach
          (invoke id (target.map (·.1)) s).tree.toList).assign feature op (.node n)
      | some (.value v), some (feature, op) =>
        ((invoke id (target.map (·.1)) s).state.attach
          (invoke id (target.map (·.1)) s).tree.toList).assign feature op v
      | some (.node n), none =>
        ((invoke id (target.map (·.1)) s).state.attach
          ((invoke id (target.map (·.1)) s).tree.toList.map (·.withOwner none))).adopt n
      | some (.value v), none =>
        ((invoke id (target.map (·.1)) s).state.attach
          (invoke id (target.map (·.1)) s).tree.toList).collect v.asText := by
  rw [call, known]
  dsimp only
  split
  · next kind =>
    rw [kind] at rules
    cases rules
  · rfl

theorem run_assign_call (known : plan.grammar.rules[id]? = some rule) (rules : rule.kind.terminal? = none)
    (h : Along base w (.object o) s)
    (made : Makes plan.grammar.types M s rest (invoke id (some feature) s)) (op : AssignOp) :
    ∃ t n, run plan invoke (.assign feature op (.call id)) s = { state := t } ∧
      Along base rest (.object { o with properties := o.properties.assigned feature op (.node n) }) t ∧
      Grows s t ∧ M.At t.arena n := by
  obtain ⟨tree, took, leaves⟩ := made.tree
  obtain ⟨n, node, value, -, found, -, holds⟩ := made.node
  have along := made.attach h [tree] (by simpa using leaves)
  refine ⟨_, n, ?_, Along.assign along feature op (.node n), ?_, ?_⟩
  · rw [run, runAssigned, call_of_rule known rules, Option.map_some, value, took]
    rfl
  · exact made.grows.trans (.of_arena (arena_assign _ _ _ _))
  · rw [arena_assign]
    exact ⟨node, found, holds⟩

theorem run_assign_text (known : plan.grammar.rules[id]? = some rule)
    (rules : rule.kind.terminal? = none) (h : Along base w (.object o) s) {text : String}
    (spelled : Spells text s rest (invoke id (some feature) s)) (op : AssignOp) :
    ∃ t, run plan invoke (.assign feature op (.call id)) s = { state := t } ∧
      Along base rest (.object { o with properties := o.properties.assigned feature op (.text text) })
        t ∧ Grows s t := by
  obtain ⟨tree, took, leaves⟩ := spelled.tree
  have along := spelled.attach h [tree] (by simpa using leaves)
  refine ⟨_, ?_, Along.assign along feature op (.text text), ?_⟩
  · rw [run, runAssigned, call_of_rule known rules, Option.map_some, spelled.value, took]
    rfl
  · exact spelled.grows.trans (.of_arena (arena_assign _ _ _ _))

/-- Adopting a node wipes it, and it will be finished again in its slot. -/
theorem becomes_adopt {types : TypeHierarchy} {n : NodeId} {node : AstNode}
    (h : Along base rest (.object o) s) (empty : o.properties = .empty) (above : base.nodes.size ≤ n)
    (found : s.nodes[n]? = some node)
    (complete : withDefaults types node.type node.properties = node.properties)
    (holds : M s.arena node.type node.properties.get? n) (stable : M.Stable) :
    ∃ o', Along base rest (.object o') (s.adopt n) ∧ Becomes types M base (s.adopt n) o' := by
  have below : n < s.nodes.size := (Array.getElem?_eq_some_iff.1 found).1
  have silent := Silent.adopt s n
  rw [adopt_of_object h.content found] at silent ⊢
  -- only the slot of the node itself is wiped, and no meaning looks at its own slot
  generalize wiped : s.nodes.setIfInBounds n { node with properties := .empty, source := none } = nodes
    at silent ⊢
  have size : nodes.size = s.nodes.size := by rw [← wiped, Array.size_setIfInBounds]
  have agrees : s.arena.Agrees n ⟨nodes, s.references⟩ := by
    refine ⟨fun j less => ?_, fun j r mem => ⟨r, mem, rfl⟩⟩
    dsimp only [State.arena]
    rw [← wiped, Array.getElem?_setIfInBounds_ne (Nat.ne_of_gt less)]
  have filled : node.properties.fillFrom o.properties = node.properties := by
    rw [empty]
    rfl
  refine ⟨_, h.silent silent rfl ⟨?_, h.grows.agrees.trans (agrees.mono above)⟩, ?_, node.type, rfl, ?_⟩
  · exact Nat.le_trans h.grows.size (Nat.le_of_eq size.symm)
  · rintro _ ⟨⟩
    exact ⟨above, Nat.lt_of_lt_of_eq below size.symm⟩
  · dsimp only
    rw [filled, complete]
    exact stable agrees holds

/-- A node without an assignment becomes the object under construction. -/
theorem run_call (known : plan.grammar.rules[id]? = some rule) (rules : rule.kind.terminal? = none)
    (h : Along base w (.object o) s) (empty : o.properties = .empty)
    (made : Makes plan.grammar.types M s rest (invoke id none s)) (stable : M.Stable) :
    ∃ t o', run plan invoke (.call id) s = { state := t } ∧ Along base rest (.object o') t ∧
      Becomes plan.grammar.types M base t o' := by
  obtain ⟨tree, took, leaves⟩ := made.tree
  obtain ⟨n, node, value, above, found, complete, holds⟩ := made.node
  have along := made.attach h [tree.withOwner none] (by simpa using leaves)
  obtain ⟨o', along', becomes⟩ := becomes_adopt along empty (Nat.le_trans h.grows.size above) found
    complete holds stable
  refine ⟨_, o', ?_, along', becomes⟩
  rw [run, call_of_rule known rules, Option.map_none, value, took]
  rfl

/-- A rule that stands for another one gives back the node of the other. -/
theorem gives_adopted {depth : Nat} {name : String} {body : Element} {callee : RuleId}
    (known : plan.grammar.rules[id]? = some ⟨name, .parser none, body⟩)
    (known' : plan.grammar.rules[callee]? = some rule) (rules : rule.kind.terminal? = none)
    (stable : M.Stable) (visible : w ≠ [])
    (chosen : ∀ s : State, s.ahead = w ++ rest →
      run plan (Interpreter.invoke plan depth) body s =
        run plan (Interpreter.invoke plan depth) (.call callee) s)
    (gives : Gives plan depth callee w M rest) : Gives plan (depth + 1) id w M rest := by
  refine gives_of_run known stable visible fun base s entered => ?_
  obtain ⟨t, o, ran, along, becomes⟩ :=
    run_call known' rules entered rfl (gives none entered.ahead) stable
  exact ⟨t, o, (chosen s entered.ahead).trans ran, along, becomes⟩

/-! ### Actions -/

/-- An action that wraps the object under construction finishes it and starts a new one. -/
theorem run_wrap (h : Along base rest (.object o) s) (becomes : Becomes plan.grammar.types M base s o)
    (stable : M.Stable) (type : TypeId) (feature : String) (op : AssignOp) :
    ∃ t n, run plan invoke (.action type (some (feature, op))) s = { state := t } ∧
      Along base rest (.object {
        type := some type
        retagged := true
        properties := Properties.empty.assigned feature op (.node n) }) t ∧ M.At t.arena n := by
  obtain ⟨u, n, node, built, grows, -, found, -, holds⟩ :=
    constructObject_of_becomes becomes stable h.grows (wrapChildren feature s.frame)
  have wrapped : s.wrap plan type feature op =
      (u.restarted type (wrappedTrees s.frame feature (some n))).assign feature op (.node n) := by
    rw [wrap_of_object h.content, built]
  refine ⟨s.wrap plan type feature op, n, by rw [run], ?_, ?_⟩
  · refine h.silent (.wrap plan s type feature op) ?_ ?_
    · rw [wrapped, assign_of_object (o := { type := some type, retagged := true }) rfl]
    · rw [wrapped]
      exact grows.trans (.of_arena (arena_assign _ _ _ _))
  · rw [wrapped, arena_assign]
    exact ⟨node, found, holds⟩

/-- An action that gives the object under construction its type. -/
theorem run_retag (h : Along base rest (.object o) s) (fresh : o.retagged = false) (type : TypeId) :
    ∃ t, run plan invoke (.action type none) s = { state := t } ∧
      Along base rest (.object { o with type := some type, retagged := true }) t ∧
      t.arena = s.arena := by
  have retagged : s.retag type =
      { s with
        frame := {
          s.frame with content := .object { o with type := some type, retagged := true } } } := by
    unfold retag
    rw [h.content]
    simp [fresh]
  refine ⟨s.retag type, by rw [run], h.silent (.retag s type) ?_ ?_, ?_⟩
  · rw [retagged]
  · rw [retagged]
    exact h.grows.trans (.of_arena rfl)
  · rw [retagged]
    rfl

/-! ### Cross-references -/

theorem run_assign_reference (known : plan.grammar.rules[id]? = some rule)
    (rules : rule.kind.terminal? = none) (h : Along base w (.object o) s) {text : String}
    (spelled : Spells text s rest (invoke id (some feature) s)) (op : AssignOp) (target : TypeId) :
    ∃ t r, run plan invoke (.assign feature op (.crossRef target id)) s = { state := t } ∧
      Along base rest
        (.object { o with properties := o.properties.assigned feature op (.reference r) }) t ∧
      Grows s t ∧ Refers t.arena (some (.reference r)) text := by
  obtain ⟨tree, took, leaves⟩ := spelled.tree
  have along := spelled.attach h [tree] (by simpa using leaves)
  have ran : run plan invoke (.assign feature op (.crossRef target id)) s =
      { state := makeReference feature op target text tree
          ((invoke id (some feature) s).state.attach [tree]) } := by
    rw [run, runAssigned, crossReference, known]
    cases kind : rule.kind with
    | terminal token value => simp [kind, RuleKind.terminal?] at rules
    | parser returns =>
      simp only [kind, spelled.value, took]
      rfl
    | dataType value =>
      simp only [kind, spelled.value, took]
      rfl
  have grows : Grows s ((invoke id (some feature) s).state.attach [tree]) :=
    spelled.grows.trans (.of_arena rfl)
  generalize (invoke id (some feature) s).state.attach [tree] = u at along ran grows
  have pushed := grows_refer u { text, target, source := tree }
  have refers : Along base rest (.object o)
      { u with references := u.references.push { text, target, source := tree } } :=
    along.silent ⟨rfl, rfl, rfl, rfl⟩ along.content (along.grows.trans pushed)
  refine ⟨_, u.references.size, ran, Along.assign refers feature op (.reference u.references.size),
    grows.trans (pushed.trans (.of_arena (arena_assign _ _ _ _))), u.references.size,
    { text, target, source := tree }, rfl, ?_, rfl⟩
  rw [makeReference, arena_assign]
  exact Array.getElem?_push_size

/-! ### Groups and choices -/

/-- The plan looks ahead as its grammar says, and no terminal rule matches keywords. -/
structure Foresees (plan : Plan) : Prop where
  lookahead : plan.lookahead = .of plan.grammar
  apart : ∀ id, plan.grammar.terminal? id ≠ some .keyword

theorem ready_eq (foresees : Foresees plan) (e : Element) (s : State) :
    ready plan e s = s.ahead.head?.any (plan.lookahead.first e).accepts := by
  rw [ready, TokenStream.peek?_eq_head?, State.ahead, List.head?_map, Option.any_map, foresees.lookahead]
  congr 1
  funext t
  exact Lookahead.predicts_eq_accepts foresees.apart e t

theorem runAll_cons {item : Element} {items : List Element} {out : Outcome}
    (first : run plan invoke item s = { state := t }) (others : runAll plan invoke items t = out) :
    runAll plan invoke (item :: items) s = out := by
  rw [runAll, first]
  exact others

theorem run_group {items : List Element} {out : Outcome} (ran : runAll plan invoke items s = out) :
    run plan invoke (.group items) s = out := by
  rw [run]
  exact ran

theorem run_first {e : Element} {others : List Element} (isReady : ready plan e s = true) :
    run plan invoke (.alternatives (e :: others)) s = run plan invoke e s := by
  have chosen : choose plan (e :: others) s = some 0 := by
    simp [choose, List.findIdx?_cons, isReady]
  rw [run, chosen]
  simp only [runNth]

theorem run_second {e e' : Element} {others : List Element} (notReady : ready plan e s = false)
    (isReady : ready plan e' s = true) :
    run plan invoke (.alternatives (e :: e' :: others)) s = run plan invoke e' s := by
  have chosen : choose plan (e :: e' :: others) s = some 1 := by
    simp [choose, List.findIdx?_cons, notReady, isReady]
  rw [run, chosen]
  simp only [runNth]

theorem runAssigned_first {e : Element} {others : List Element} (isReady : ready plan e s = true) :
    runAssigned plan invoke feature op (.alternatives (e :: others)) s =
      runAssigned plan invoke feature op e s := by
  have chosen : choose plan (e :: others) s = some 0 := by
    simp [choose, List.findIdx?_cons, isReady]
  rw [runAssigned, chosen]
  simp only [runAssignedNth]

theorem runAssigned_second {e e' : Element} {others : List Element} (notReady : ready plan e s = false)
    (isReady : ready plan e' s = true) :
    runAssigned plan invoke feature op (.alternatives (e :: e' :: others)) s =
      runAssigned plan invoke feature op e' s := by
  have chosen : choose plan (e :: e' :: others) s = some 1 := by
    simp [choose, List.findIdx?_cons, notReady, isReady]
  rw [runAssigned, chosen]
  simp only [runAssignedNth]

theorem run_present {e : Element} (isReady : ready plan e s = true) :
    run plan invoke (.repetition .optional e) s = run plan invoke e s := by
  rw [run, repeated]
  simp only [isReady]
  rfl

theorem run_absent {e : Element} (notReady : ready plan e s = false) :
    run plan invoke (.repetition .optional e) s = { state := s } := by
  rw [run, repeated]
  simp only [notReady]
  rfl

/-! ### Repetitions -/

/-- A turn that takes a token is followed by the next one. -/
theorem turns_succ {canStart : State → Bool} {body : State → Outcome} {fuel : Nat}
    (starts : canStart s = true) (ran : body s = { state := t })
    (progress : t.ahead.length < s.ahead.length) :
    turns plan canStart body (fuel + 1) s = turns plan canStart body fuel t := by
  have less : t.stream.count < s.stream.count := by
    rw [TokenStream.count_eq_length, TokenStream.count_eq_length]
    simpa [State.ahead] using progress
  rw [turns, if_pos starts, ran]
  simp [less]

theorem turns_stop {canStart : State → Bool} {body : State → Outcome} (fuel : Nat)
    (stops : canStart s = false) : turns plan canStart body fuel s = { state := s } := by
  cases fuel with
  | zero => rfl
  | succ fuel =>
    rw [turns, stops]
    rfl

/-- A property that is a list, or is to become one. -/
theorem get?_append_self {p : Properties} {name : String} {items : List Value}
    (held : (p.get? name).or (some (.list [])) = some (.list items)) (value : Value) :
    (p.append name value).get? name = some (.list (items ++ [value])) := by
  rw [Properties.get?, Properties.append, Properties.lookup_upsert_self]
  rw [Properties.get?] at held
  cases found : p.entries.lookup name with
  | none =>
    rw [found] at held
    cases held
    rfl
  | some v =>
    rw [found] at held
    cases held
    rfl

/-- Appends nodes to a list, one after the other. -/
def appended (p : Properties) (feature : String) (ids : List NodeId) : Properties :=
  ids.foldl (fun p id => p.append feature (.node id)) p

theorem get?_appended_ne (p : Properties) {feature other : String} (differ : other ≠ feature)
    (ids : List NodeId) : (appended p feature ids).get? other = p.get? other := by
  induction ids generalizing p with
  | nil => rfl
  | cons id ids ih => exact (ih _).trans (p.get?_append_ne differ _)

/-- Nodes that are appended to nothing, or to the empty list that a property starts with. -/
theorem get?_appended (p : Properties) {feature : String} (absent : p.get? feature = none)
    (ids : List NodeId) :
    ((appended p feature ids).get? feature).or (some (.list [])) = some (.list (ids.map .node)) := by
  induction ids using List.reverseRecOn with
  | nil =>
    rw [appended, List.foldl_nil, absent]
    rfl
  | append_singleton ids id ih =>
    rw [appended, List.foldl_append, List.map_append]
    exact congrArg (Option.or · _) (get?_append_self ih (.node id))

section Appending

variable {α : Type} {words : α → List (TokenKind × String)} {meaning : α → Meaning}
  {follows : List (TokenKind × String) → Prop}

/-- Children are read one after the other and appended to a list, up to a token that starts none. -/
theorem run_append (foresees : Foresees plan) {depth : Nat} {first : FirstSet}
    (known : plan.grammar.rules[id]? = some rule) (rules : rule.kind.terminal? = none)
    (starting : plan.lookahead.first (.assign feature .append (.call id)) = first)
    (stable : ∀ x, (meaning x).Stable) {xs : List α}
    (each : ∀ x ∈ xs, ∀ rest, follows rest → Gives plan depth id (words x) (meaning x) rest)
    (starts : ∀ x ∈ xs, (words x).head?.any first.accepts = true)
    (next : ∀ x ∈ xs, ∀ w, follows (words x ++ w)) (last : follows rest)
    (stops : rest.head?.any first.accepts = false)
    (h : Along base (xs.flatMap words ++ rest) (.object o) s) :
    ∃ t ids, run plan (Interpreter.invoke plan depth)
          (.repetition .zeroOrMore (.assign feature .append (.call id))) s = { state := t } ∧
      Along base rest (.object { o with properties := appended o.properties feature ids }) t ∧
      Grows s t ∧ List.Forall₂ (fun x id => (meaning x).At t.arena id) xs ids := by
  have enough : s.ahead.length ≤ s.stream.count := by
    rw [TokenStream.count_eq_length, State.ahead, List.length_map]
  rw [run, repeated]
  -- each child takes a token, so the tokens ahead are fuel enough for one turn each
  generalize s.stream.count = fuel at enough
  induction xs generalizing s o fuel with
  | nil =>
    have notReady : ready plan (.assign feature .append (.call id)) s = false := by
      rw [ready_eq foresees, h.ahead, starting]
      exact stops
    exact ⟨s, [], turns_stop fuel notReady, h, .refl s, .nil⟩
  | cons x xs ih =>
    have accepted := starts x List.mem_cons_self
    obtain ⟨r, w, spelled⟩ : ∃ r w, words x = r :: w := by
      cases spelled : words x with
      | nil =>
        rw [spelled] at accepted
        cases accepted
      | cons r w => exact ⟨r, w, rfl⟩
    rw [List.flatMap_cons, List.append_assoc] at h
    have isReady : ready plan (.assign feature .append (.call id)) s = true := by
      rw [spelled] at accepted
      rw [ready_eq foresees, h.ahead, starting, spelled]
      exact accepted
    have between : follows (xs.flatMap words ++ rest) := by
      cases xs with
      | nil => exact last
      | cons y ys =>
        rw [List.flatMap_cons, List.append_assoc]
        exact next y (by simp) _
    have made := each x List.mem_cons_self _ between (some feature) h.ahead
    obtain ⟨t, n, ran, along, grows, holds⟩ := run_assign_call known rules h made .append
    have progress : t.ahead.length < s.ahead.length := by
      rw [along.ahead, h.ahead, spelled]
      simp only [List.cons_append, List.length_cons, List.length_append]
      omega
    obtain ⟨fuel, rfl⟩ : ∃ less, fuel = less + 1 := ⟨fuel - 1, by omega⟩
    obtain ⟨u, ids, looped, along', grows', children⟩ := ih
      (fun y mem => each y (List.mem_cons_of_mem _ mem))
      (fun y mem => starts y (List.mem_cons_of_mem _ mem))
      (fun y mem => next y (List.mem_cons_of_mem _ mem)) along fuel (by omega)
    refine ⟨u, n :: ids, ?_, along', grows.trans grows', .cons ?_ children⟩
    · rw [turns_succ isReady ran progress, looped]
    · exact holds.agrees (stable x) grows'.agrees holds.lt_size

end Appending

end Interpreter

end Workbench
