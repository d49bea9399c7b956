import Workbench.Proofs.Parser.Building

/-!
**Trees of a feature.**

What was assigned to a feature of a node can be found again in its source tree. An invocation under way
has, for every feature, the value in its object and the trees that were assigned to it. Taking a token
and building other features leave both alone.
-/

namespace Workbench

/-! ### Searching trees -/

namespace SourceTree

variable {feature : String}

@[simp] theorem withFeatureOf_nil : withFeatureOf feature [] = [] := by
  rw [withFeatureOf]

@[simp] theorem withFeatureOf_cons (t : SourceTree) (rest : List SourceTree) :
    withFeatureOf feature (t :: rest) = withFeature feature t ++ withFeatureOf feature rest := by
  rw [withFeatureOf]

@[simp] theorem withFeatureOf_append (xs ys : List SourceTree) :
    withFeatureOf feature (xs ++ ys) = withFeatureOf feature xs ++ withFeatureOf feature ys := by
  induction xs with
  | nil => simp
  | cons x xs ih => simp [ih]

@[simp] theorem withFeature_leaf_self (t : Token) :
    withFeature feature (leaf t (some feature)) = [leaf t (some feature)] := by
  simp [withFeature]

theorem withFeature_leaf_ne (t : Token) {assigned : Option String} (other : assigned ≠ some feature) :
    withFeature feature (leaf t assigned) = [] := by
  simp [withFeature, other]

@[simp] theorem withFeatureOf_leaves (tokens : List Token) :
    withFeatureOf feature (tokens.map (leaf · none)) = [] := by
  induction tokens with
  | nil => simp
  | cons t rest ih => simp [withFeature, ih]

/-- A branch that belongs to no node is searched through. -/
theorem withFeature_close {assigned : Option String} (other : assigned ≠ some feature) (rule : RuleId)
    (offset : Nat) (children : List SourceTree) :
    withFeature feature (close rule assigned offset children) = withFeatureOf feature children := by
  simp [close, withFeature, other]

/-- A branch that belongs to a node is not searched through. -/
theorem withFeature_owned {assigned : Option String} (other : assigned ≠ some feature) (rule : RuleId)
    (offset : Nat) (children : List SourceTree) (id : NodeId) :
    withFeature feature ((close rule assigned offset children).withOwner (some id)) = [] := by
  simp [close, withOwner, withFeature, other]

@[simp] theorem children_close (rule : RuleId) (assigned : Option String) (offset : Nat)
    (children : List SourceTree) : (close rule assigned offset children).children = children := rfl

@[simp] theorem children_withOwner (owner : Option NodeId) (t : SourceTree) :
    (t.withOwner owner).children = t.children := by
  cases t <;> rfl

end SourceTree

open SourceTree

theorem Properties.get?_assigned_ne (p : Properties) {feature other : String} (differ : other ≠ feature)
    (op : AssignOp) (value : Value) : (p.assigned feature op value).get? other = p.get? other := by
  cases op with
  | set => exact p.get?_set_ne differ value
  | flag => exact p.get?_set_ne differ _
  | append => exact p.get?_append_ne differ value

/-! ### Features of an invocation -/

namespace Frame

/-- The type of the object under construction, if there is an object. The object itself may not have
learnt its type yet. -/
def objectType (f : Frame) : Option (Option TypeId) :=
  match f.content with
  | .object o => some o.type
  | .text _ => none

/-- The value of a feature in the object under construction. -/
def value? (f : Frame) (feature : String) : Option Value :=
  match f.content with
  | .object o => o.properties.get? feature
  | .text _ => none

/-- The trees that the invocation has assigned to a feature. -/
def assigned (f : Frame) (feature : String) : List SourceTree :=
  withFeatureOf feature f.children.toList

theorem objectType_of_object {f : Frame} {o : Object} (content : f.content = .object o) :
    f.objectType = some o.type := by
  rw [objectType, content]

theorem objectType_of_text {f : Frame} {text : String} (content : f.content = .text text) :
    f.objectType = none := by
  rw [objectType, content]

theorem value?_of_object {f : Frame} {o : Object} (content : f.content = .object o)
    (feature : String) : f.value? feature = o.properties.get? feature := by
  rw [value?, content]

theorem value?_of_text {f : Frame} {text : String} (content : f.content = .text text)
    (feature : String) : f.value? feature = none := by
  rw [value?, content]

/-- Two states of an invocation that differ in other features only. -/
structure SameFor (feature : String) (f g : Frame) : Prop where
  type : g.objectType = f.objectType
  value : g.value? feature = f.value? feature
  assigned : g.assigned feature = f.assigned feature

variable {feature : String} {f g h : Frame}

theorem SameFor.refl (f : Frame) : SameFor feature f f := ⟨rfl, rfl, rfl⟩

theorem SameFor.trans (fg : SameFor feature f g) (gh : SameFor feature g h) : SameFor feature f h :=
  ⟨gh.type.trans fg.type, gh.value.trans fg.value, gh.assigned.trans fg.assigned⟩

theorem SameFor.of_content (content : g.content = f.content)
    (assigned : g.assigned feature = f.assigned feature) : SameFor feature f g := by
  refine ⟨?_, ?_, assigned⟩
  · rw [objectType, content]
    rfl
  · rw [value?, content]
    rfl

end Frame

namespace State

open Workbench.Frame

variable {plan : Plan} {s t : State} {feature : String}

theorem assigned_attach (s : State) (trees : List SourceTree) :
    (s.attach trees).frame.assigned feature =
      s.frame.assigned feature ++ withFeatureOf feature trees := by
  simp [Frame.assigned, attach]

theorem sameFor_attach {trees : List SourceTree} (none : withFeatureOf feature trees = []) :
    SameFor feature s.frame (s.attach trees).frame :=
  .of_content rfl (by rw [assigned_attach, none, List.append_nil])

theorem sameFor_collect (text : String) : SameFor feature s.frame (s.collect text).frame := by
  unfold State.collect
  split
  · next content =>
    refine ⟨?_, ?_, rfl⟩
    · rw [objectType, objectType, content]
    · rw [value?, value?, content]
  · exact .refl _

theorem sameFor_assign {other : String} (differ : feature ≠ other) (op : AssignOp) (value : Value) :
    SameFor feature s.frame (s.assign other op value).frame := by
  cases content : s.frame.content with
  | text acc =>
    unfold State.assign
    rw [content]
    exact .refl _
  | object o =>
    rw [assign_of_object content]
    refine ⟨?_, ?_, rfl⟩
    · rw [objectType, objectType, content]
    · rw [value?, value?, content]
      exact o.properties.get?_assigned_ne differ op value

theorem objectType_assign (other : String) (op : AssignOp) (value : Value) :
    (s.assign other op value).frame.objectType = s.frame.objectType := by
  cases content : s.frame.content with
  | text acc =>
    unfold State.assign
    rw [content]
    rfl
  | object o =>
    rw [assign_of_object content, objectType, objectType, content]

theorem assigned_assign (other : String) (op : AssignOp) (value : Value) :
    (s.assign other op value).frame.assigned feature = s.frame.assigned feature := by
  cases content : s.frame.content with
  | text acc =>
    unfold State.assign
    rw [content]
    rfl
  | object o =>
    rw [assign_of_object content]
    rfl

@[simp] theorem frame_raise (problem : ParseProblem) : (s.raise plan problem).frame = s.frame := by
  unfold raise
  split <;> rfl

@[simp] theorem frame_report (expected : FirstSet) : (s.report plan expected).frame = s.frame :=
  frame_raise _

/-! ### Expecting tokens -/

/-- What expecting a token does: it may pass over tokens, and it may take one, which goes to a
feature. -/
structure Takes (assigned : Option String) (s t : State) (taken : Option Token) : Prop where
  content : t.frame.content = s.frame.content
  nodes : t.nodes = s.nodes
  references : t.references = s.references
  stream : ∀ u ∈ t.stream.tokens, u ∈ s.stream.tokens
  children : ∃ passed : List Token, t.frame.children.toList =
    s.frame.children.toList ++ passed.map (leaf · none) ++ taken.toList.map (leaf · assigned)
  mem : ∀ u ∈ taken, u ∈ s.stream.tokens

namespace Takes

variable {assigned : Option String} {taken : Option Token}

theorem nothing (content : t.frame = s.frame) (nodes : t.nodes = s.nodes)
    (references : t.references = s.references) (stream : t.stream = s.stream) :
    Takes assigned s t none := by
  refine ⟨by rw [content], nodes, references, by rw [stream]; exact fun _ mem => mem, ⟨[], ?_⟩, nofun⟩
  simp [content]

theorem raise (plan : Plan) (s : State) (problem : ParseProblem) :
    Takes none s (s.raise plan problem) none := by
  unfold State.raise
  split <;> exact nothing rfl rfl rfl rfl

theorem consume (s : State) (assigned : Option String) :
    Takes assigned s (s.consume assigned).1 (s.consume assigned).2 := by
  cases found : s.stream.next? with
  | none =>
    unfold State.consume
    rw [found]
    exact nothing rfl rfl rfl rfl
  | some next =>
    obtain ⟨hidden, token, rest⟩ := next
    obtain ⟨tokens, -, -⟩ := TokenStream.next?_eq_some found
    rw [consume_of_next? found]
    refine ⟨rfl, rfl, rfl, fun u mem => ?_, ⟨hidden, by simp [attach]⟩, ?_⟩
    · rw [tokens]
      exact List.mem_append_right _ (List.mem_cons_of_mem _ mem)
    · rintro _ ⟨⟩
      rw [tokens]
      simp

/-- A token that is passed over, and then another step. -/
theorem after {skipped u : State} {passed : Option Token} (first : Takes none s skipped passed)
    (next : Takes assigned skipped u taken) : Takes assigned s u taken := by
  obtain ⟨front, children⟩ := first.children
  obtain ⟨more, children'⟩ := next.children
  refine ⟨next.content.trans first.content, next.nodes.trans first.nodes,
    next.references.trans first.references, fun v mem => first.stream v (next.stream v mem),
    ⟨front ++ passed.toList ++ more, ?_⟩, fun v mem => first.stream v (next.mem v mem)⟩
  rw [children', children]
  simp

theorem expect (plan : Plan) (s : State) (accepts : Token → Bool) (problem : ParseProblem)
    (assigned : Option String) :
    Takes assigned s (s.expect plan accepts problem assigned).1
      (s.expect plan accepts problem assigned).2 := by
  have settled : ∀ s : State, Takes none s { s with recovering := false } none := fun s =>
    nothing rfl rfl rfl rfl
  unfold State.expect
  dsimp only
  split
  · exact (settled s).after (consume _ assigned)
  · split
    · have skipped := (raise plan s problem).after (consume _ none)
      exact skipped.after ((settled _).after (consume _ assigned))
    · refine (raise plan s problem).after ?_
      exact nothing rfl rfl rfl rfl

theorem objectType_eq (h : Takes assigned s t taken) : t.frame.objectType = s.frame.objectType := by
  rw [objectType, h.content]
  rfl

theorem value?_eq (h : Takes assigned s t taken) : t.frame.value? feature = s.frame.value? feature := by
  rw [value?, h.content]
  rfl

theorem assigned_eq (h : Takes assigned s t taken) :
    t.frame.assigned feature =
      s.frame.assigned feature ++ withFeatureOf feature (taken.toList.map (leaf · assigned)) := by
  obtain ⟨passed, children⟩ := h.children
  rw [Frame.assigned, children]
  simp [Frame.assigned]

theorem sameFor (h : Takes assigned s t taken) (other : assigned ≠ some feature) :
    SameFor feature s.frame t.frame := by
  refine .of_content h.content ?_
  rw [h.assigned_eq]
  cases taken with
  | none => simp
  | some token => simp [withFeature_leaf_ne token other]

end Takes

/-- A token that is taken is one that was expected. -/
theorem accepts_of_expect {accepts : Token → Bool} {problem : ParseProblem} {assigned : Option String}
    {token : Token} (taken : (s.expect plan accepts problem assigned).2 = some token) :
    accepts token = true := by
  have next : ∀ {s : State}, s.stream.peek?.any accepts = true →
      (s.consume assigned).2 = some token → accepts token = true := by
    intro s accepted taken
    cases found : s.stream.next? with
    | none =>
      rw [State.consume, found] at taken
      cases taken
    | some next =>
      obtain ⟨hidden, t, rest⟩ := next
      rw [consume_of_next? found] at taken
      cases taken
      rw [TokenStream.peek?_eq_head?, TokenStream.visible_of_next? found] at accepted
      simpa using accepted
  unfold State.expect at taken
  dsimp only at taken
  split at taken
  · next accepted => exact next (s := { s with recovering := false }) accepted taken
  · split at taken
    · next second =>
      refine next (s := { ((s.raise plan problem).consume none).1 with recovering := false }) ?_ taken
      rw [TokenStream.second?_eq_head?] at second
      dsimp only
      rwa [TokenStream.peek?_eq_head?, visible_consume]
    · cases taken

/-! ### Nodes of a state -/

/-- A property that gets no default stays as it is. -/
theorem get?_withDefaults {types : TypeHierarchy} {type : TypeId} {name : String}
    (plain : ∀ entry ∈ types.allProperties type, entry.1 = name → entry.2 = .value) (p : Properties) :
    (withDefaults types type p).get? name = p.get? name := by
  unfold withDefaults
  generalize types.allProperties type = entries at plain
  induction entries generalizing p with
  | nil => rfl
  | cons entry rest ih =>
    obtain ⟨other, kind⟩ := entry
    have here := plain (other, kind) List.mem_cons_self
    rw [List.foldl_cons, ih _ fun e mem => plain e (List.mem_cons_of_mem _ mem)]
    dsimp only
    split
    · rfl
    · cases kind with
      | value => rfl
      | array => exact p.get?_set_ne (fun same => nomatch here same.symm) _
      | bool => exact p.get?_set_ne (fun same => nomatch here same.symm) _

/-- In `t` there is a new node `n` at `id`, and all else is as in `s`, up to places. -/
structure Gains (s t : State) (id : NodeId) (n : AstNode) : Prop where
  self : ∃ m, t.nodes[id]? = some m ∧ m.unplaced = n.unplaced
  other : ∀ j, j ≠ id → t.nodes[j]?.map AstNode.unplaced = s.nodes[j]?.map AstNode.unplaced
  references : ∀ j : RefId,
    t.references[j]?.map Reference.unplaced = s.references[j]?.map Reference.unplaced

theorem gains_construct (plan : Plan) (type : TypeId) (p : Properties) {slot : Option NodeId}
    (source : Option SourceTree) (inRange : ∀ id ∈ slot, id < s.nodes.size) :
    Gains s (s.construct plan type p slot source).1 (s.construct plan type p slot source).2
      (builtNode plan.grammar.types type p (s.construct plan type p slot source).2 source) := by
  have same := Arena.alike_putAll
    (s.arena.insert slot (builtNode plan.grammar.types type p (slot.getD s.nodes.size) source))
    ((withDefaults plan.grammar.types type p).links (slot.getD s.nodes.size))
  rw [← arena_construct] at same
  have id : (s.construct plan type p slot source).2 = slot.getD s.nodes.size := rfl
  rw [id]
  refine ⟨same.node (Arena.getElem?_insert_self inRange _), fun j other => ?_, fun j => ?_⟩
  · refine (same.nodes j).trans ?_
    rw [Arena.getElem?_insert_ne _ other]
    rfl
  · refine (same.references j).trans ?_
    rw [Arena.references_insert]
    rfl

theorem size_le_construct (plan : Plan) (type : TypeId) (p : Properties) (slot : Option NodeId)
    (source : Option SourceTree) (s : State) :
    s.nodes.size ≤ (s.construct plan type p slot source).1.nodes.size := by
  have same := Arena.alike_putAll
    (s.arena.insert slot (builtNode plan.grammar.types type p (slot.getD s.nodes.size) source))
    ((withDefaults plan.grammar.types type p).links (slot.getD s.nodes.size))
  rw [← arena_construct] at same
  refine Nat.le_of_not_lt fun less => ?_
  have last := Nat.lt_of_lt_of_le less (Arena.size_le_insert s.arena slot
    (builtNode plan.grammar.types type p (slot.getD s.nodes.size) source))
  obtain ⟨m, found, -⟩ := same.node (Array.getElem?_eq_getElem last)
  exact Nat.lt_irrefl _ (Array.getElem?_eq_some_iff.1 found).1

theorem size_le_constructObject (plan : Plan) (o : Object) (source : Option SourceTree) (s : State) :
    s.nodes.size ≤ (s.constructObject plan o source).1.nodes.size := by
  unfold constructObject
  split
  · exact Nat.le_refl _
  · exact size_le_construct plan _ _ _ _ _

@[simp] theorem nodes_attach (trees : List SourceTree) : (s.attach trees).nodes = s.nodes := rfl

@[simp] theorem nodes_assign (feature : String) (op : AssignOp) (value : Value) :
    (s.assign feature op value).nodes = s.nodes := by
  unfold assign
  split <;> rfl

theorem size_adopt (id : NodeId) : (s.adopt id).nodes.size = s.nodes.size := by
  unfold adopt
  split
  · exact Array.size_setIfInBounds
  · rfl

theorem size_le_wrap (type : TypeId) (feature : String) (op : AssignOp) :
    s.nodes.size ≤ (s.wrap plan type feature op).nodes.size := by
  cases content : s.frame.content with
  | text acc =>
    unfold wrap
    rw [content]
    exact Nat.le_refl _
  | object o =>
    have finished := size_le_constructObject plan o (wrapChildren feature s.frame) s
    rw [wrap_of_object content]
    generalize s.constructObject plan o (wrapChildren feature s.frame) = out at finished
    obtain ⟨t, built⟩ := out
    cases built with
    | none => exact finished
    | some id =>
      dsimp only
      rw [nodes_assign]
      exact finished

end State

namespace Interpreter

open State

variable {plan : Plan} {s t : State}

@[simp] theorem nodes_makeReference (feature : String) (op : AssignOp) (target : TypeId) (text : String)
    (source : SourceTree) : (makeReference feature op target text source s).nodes = s.nodes := by
  unfold makeReference
  rw [nodes_assign]

theorem size_le_leave (id : RuleId) (kind : RuleKind) (feature : Option String) (offset : Nat)
    (caller : Frame) (s : State) :
    s.nodes.size ≤ (leave plan id kind feature offset caller s).state.nodes.size := by
  unfold leave
  dsimp only
  split
  · exact Nat.le_refl _
  · split
    · next o _ =>
      have finished := size_le_constructObject plan o
        (some (.close id feature offset s.frame.children.toList)) { s with frame := caller }
      split <;> exact finished
    · exact Nat.le_refl _
    · exact Nat.le_refl _

theorem Returns.size_eq {out : Invoked} (back : Returns out t) :
    t.nodes.size = out.state.nodes.size := by
  cases back with
  | keep => rfl
  | assign => simp
  | adopt => rw [size_adopt]; rfl
  | refer => simp

/-- No node is ever taken out of the list. -/
theorem Reaches.size_le (h : Reaches plan s t) : s.nodes.size ≤ t.nodes.size := by
  induction h with
  | refl => exact Nat.le_refl _
  | trans _ _ ih ih' => exact Nat.le_trans ih ih'
  | note => exact Nat.le_refl _
  | record => exact Nat.le_refl _
  | @fail s problem => exact Nat.le_of_eq (congrArg _ (Takes.raise plan s problem).nodes.symm)
  | settle => exact Nat.le_refl _
  | @consume s feature => exact Nat.le_of_eq (congrArg _ (Takes.consume s feature).nodes.symm)
  | collect =>
    unfold State.collect
    split <;> exact Nat.le_refl _
  | assign => simp
  | refer => simp
  | retag =>
    unfold State.retag
    split
    · exact Nat.le_refl _
    · split <;> exact Nat.le_refl _
  | wrap => exact size_le_wrap _ _ _
  | call _ _ back ih =>
    rw [back.size_eq]
    exact Nat.le_trans ih (size_le_leave _ _ _ _ _ _)

end Interpreter

end Workbench
