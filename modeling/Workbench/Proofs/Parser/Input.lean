import Workbench.Proofs.Parser.Runs
import Workbench.Proofs.Parser.Stream

/-!
**What a run takes and reports.**

A step that only builds is `Silent`: it takes no token, reports no error and moves no token of the
invocation. From this and from the one step that takes a token follows what every run keeps: the
tokens taken so far and the tokens left are together always the same list, visible tokens only become
fewer, recorded errors stay, and a state that is recovering has an error to recover from.
-/

namespace Workbench

/-! ### Leaves -/

namespace SourceTree

@[simp] theorem leavesOf_append (xs ys : List SourceTree) :
    leavesOf (xs ++ ys) = leavesOf xs ++ leavesOf ys := by
  induction xs with
  | nil => rfl
  | cons x xs ih => simp [leavesOf, ih]

@[simp] theorem leavesOf_singleton (t : SourceTree) : leavesOf [t] = t.leaves := by
  simp [leavesOf]

@[simp] theorem leaves_leaf (t : Token) (feature : Option String) : (leaf t feature).leaves = [t] := by
  simp [leaves]

@[simp] theorem leavesOf_leaf (tokens : List Token) (feature : Option String) :
    leavesOf (tokens.map (leaf · feature)) = tokens := by
  induction tokens with
  | nil => rfl
  | cons t rest ih => simp [leavesOf, ih]

@[simp] theorem leaves_withOwner (owner : Option NodeId) (t : SourceTree) :
    (t.withOwner owner).leaves = t.leaves := by
  cases t <;> simp [withOwner, leaves]

@[simp] theorem leaves_close (rule : RuleId) (feature : Option String) (offset : Nat)
    (children : List SourceTree) : (close rule feature offset children).leaves = leavesOf children := by
  simp [close, leaves]

end SourceTree

namespace State

open SourceTree

/-- The tokens taken by the invocation under way. -/
def taken (s : State) : List Token := leavesOf s.frame.children.toList

@[simp] theorem taken_attach (s : State) (trees : List SourceTree) :
    (s.attach trees).taken = s.taken ++ leavesOf trees := by
  simp [taken, attach]

/-! ### Steps that only build -/

/-- A step that takes no token and reports nothing. -/
structure Silent (s t : State) : Prop where
  stream : t.stream = s.stream
  errors : t.errors = s.errors
  recovering : t.recovering = s.recovering
  taken : t.taken = s.taken

variable {s t u : State} {plan : Plan}

namespace Silent

theorem refl (s : State) : Silent s s := ⟨rfl, rfl, rfl, rfl⟩

theorem trans (h : Silent s t) (h' : Silent t u) : Silent s u :=
  ⟨h'.stream.trans h.stream, h'.errors.trans h.errors, h'.recovering.trans h.recovering,
    h'.taken.trans h.taken⟩

theorem note (s : State) (incident : Incident) : Silent s (s.note incident) := ⟨rfl, rfl, rfl, rfl⟩

theorem collect (s : State) (text : String) : Silent s (s.collect text) := by
  unfold State.collect
  split <;> exact ⟨rfl, rfl, rfl, rfl⟩

theorem assign (s : State) (feature : String) (op : AssignOp) (value : Value) :
    Silent s (s.assign feature op value) := by
  unfold State.assign
  split <;> exact ⟨rfl, rfl, rfl, rfl⟩

theorem retag (s : State) (type : TypeId) : Silent s (s.retag type) := by
  unfold State.retag
  split
  · exact ⟨rfl, rfl, rfl, rfl⟩
  · split <;> exact ⟨rfl, rfl, rfl, rfl⟩

theorem adopt (s : State) (id : NodeId) : Silent s (s.adopt id) := by
  unfold State.adopt
  split <;> exact ⟨rfl, rfl, rfl, rfl⟩

theorem makeReference (feature : String) (op : AssignOp) (target : TypeId) (text : String)
    (source : SourceTree) (s : State) :
    Silent s (Interpreter.makeReference feature op target text source s) := by
  unfold Interpreter.makeReference
  refine trans ?_ (assign _ feature op _)
  exact ⟨rfl, rfl, rfl, rfl⟩

end Silent

/-! ### Finishing nodes -/

/-- A step that changes nothing but the nodes and references. -/
structure Finishing (s t : State) : Prop where
  stream : t.stream = s.stream
  frame : t.frame = s.frame
  errors : t.errors = s.errors
  recovering : t.recovering = s.recovering

namespace Finishing

theorem refl (s : State) : Finishing s s := ⟨rfl, rfl, rfl, rfl⟩

theorem trans (h : Finishing s t) (h' : Finishing t u) : Finishing s u :=
  ⟨h'.stream.trans h.stream, h'.frame.trans h.frame, h'.errors.trans h.errors,
    h'.recovering.trans h.recovering⟩

theorem silent (h : Finishing s t) : Silent s t :=
  ⟨h.stream, h.errors, h.recovering, by rw [State.taken, h.frame]; rfl⟩

theorem foldl {β : Type} {f : State → β → State} (step : ∀ s b, Finishing s (f s b)) (s : State)
    (l : List β) : Finishing s (l.foldl f s) := by
  induction l generalizing s with
  | nil => exact refl s
  | cons b l ih => exact (step s b).trans (ih (f s b))

theorem hold (s : State) (place : Place) (value : Value) : Finishing s (s.hold place value) := by
  cases value <;> exact ⟨rfl, rfl, rfl, rfl⟩

theorem holdEntry (holder : NodeId) (s : State) (entry : String × Value) :
    Finishing s (s.holdEntry holder entry) := by
  unfold State.holdEntry
  split
  · exact foldl (fun s item => hold s _ _) s _
  · exact hold s _ _

theorem construct (plan : Plan) (s : State) (type : TypeId) (properties : Properties)
    (slot : Option NodeId) (source : Option SourceTree) :
    Finishing s (s.construct plan type properties slot source).1 := by
  unfold State.construct
  refine trans ?_ (foldl (fun s entry => holdEntry _ s entry) _ _)
  exact ⟨rfl, rfl, rfl, rfl⟩

theorem constructObject (plan : Plan) (s : State) (o : Object) (source : Option SourceTree) :
    Finishing s (s.constructObject plan o source).1 := by
  unfold State.constructObject
  split
  · exact refl s
  · exact construct plan s _ _ _ _

end Finishing

/-! ### Wrapping -/

/-- The state in which an action has started a new object. -/
def restarted (s : State) (type : TypeId) (children : Array SourceTree) : State :=
  { s with
    frame := {
      s.frame with
      content := .object { type := some type, retagged := true }
      children } }

/-- The trees of an invocation whose object has been wrapped into the node `built`. -/
def wrappedTrees (frame : Frame) (feature : String) (built : Option NodeId) : Array SourceTree :=
  match wrapChildren feature frame with
  | none => frame.children
  | some tree => #[match built with | some id => tree.withOwner (some id) | none => tree]

theorem wrap_of_object {o : Object} (content : s.frame.content = .object o) (type : TypeId)
    (feature : String) (op : AssignOp) :
    s.wrap plan type feature op =
      match s.constructObject plan o (wrapChildren feature s.frame) with
      | (t, some id) =>
        (t.restarted type (wrappedTrees s.frame feature (some id))).assign feature op (.node id)
      | (t, none) => t.restarted type (wrappedTrees s.frame feature none) := by
  have same : (s.constructObject plan o (wrapChildren feature s.frame)).1.frame = s.frame :=
    (Finishing.constructObject plan s o _).frame
  unfold wrap wrappedTrees restarted
  rw [content]
  dsimp only
  generalize s.constructObject plan o (wrapChildren feature s.frame) = finished at same
  obtain ⟨⟨stream, frame, nodes, references, errors, recovering, incidents⟩, built⟩ := finished
  obtain rfl : frame = s.frame := same
  cases built <;> rfl

theorem leavesOf_wrappedTrees (frame : Frame) (feature : String) (built : Option NodeId) :
    leavesOf (wrappedTrees frame feature built).toList = leavesOf frame.children.toList := by
  unfold wrappedTrees wrapChildren
  cases children : frame.children.toList with
  | nil => simp [children]
  | cons t rest => cases built <;> simp

/-- Wrapping moves the tokens of the invocation into one branch, in the same order. -/
theorem Silent.wrap (plan : Plan) (s : State) (type : TypeId) (feature : String) (op : AssignOp) :
    Silent s (s.wrap plan type feature op) := by
  cases content : s.frame.content with
  | text acc =>
    unfold State.wrap
    rw [content]
    exact note s _
  | object o =>
    have finished := Finishing.constructObject plan s o (wrapChildren feature s.frame)
    rw [wrap_of_object content]
    generalize s.constructObject plan o (wrapChildren feature s.frame) = out at finished
    obtain ⟨t, built⟩ := out
    have restart : Silent s (t.restarted type (wrappedTrees s.frame feature built)) :=
      ⟨finished.stream, finished.errors, finished.recovering, leavesOf_wrappedTrees _ _ _⟩
    cases built with
    | none => exact restart
    | some id => exact restart.trans (assign _ _ _ _)

/-! ### Taking tokens -/

theorem consume_of_next? {hidden : List Token} {token : Token} {rest : TokenStream}
    (h : s.stream.next? = some (hidden, token, rest)) (feature : Option String) :
    s.consume feature =
      (({ s with stream := rest }).attach
        (hidden.map (SourceTree.leaf · none) ++ [SourceTree.leaf token feature]), some token) := by
  unfold consume
  rw [h]

theorem taken_consume (s : State) (feature : Option String) :
    (s.consume feature).1.taken ++ (s.consume feature).1.stream.tokens =
      s.taken ++ s.stream.tokens := by
  cases found : s.stream.next? with
  | none =>
    unfold consume
    rw [found]
  | some next =>
    obtain ⟨hidden, token, rest⟩ := next
    obtain ⟨tokens, -, -⟩ := TokenStream.next?_eq_some found
    rw [consume_of_next? found, taken_attach, tokens]
    simp [State.taken, State.attach]

theorem visible_consume (s : State) (feature : Option String) :
    (s.consume feature).1.stream.visible = s.stream.visible.tail := by
  cases found : s.stream.next? with
  | none =>
    have empty := TokenStream.next?_eq_none_iff.1 found
    unfold consume
    rw [found]
    simp [empty]
  | some next =>
    obtain ⟨hidden, token, rest⟩ := next
    rw [consume_of_next? found, TokenStream.visible_of_next? found]
    rfl

@[simp] theorem errors_consume (s : State) (feature : Option String) :
    (s.consume feature).1.errors = s.errors := by
  unfold consume
  split <;> rfl

@[simp] theorem recovering_consume (s : State) (feature : Option String) :
    (s.consume feature).1.recovering = s.recovering := by
  unfold consume
  split <;> rfl

@[simp] theorem stream_raise (problem : ParseProblem) :
    (s.raise plan problem).stream = s.stream := by
  unfold raise
  split <;> rfl

@[simp] theorem taken_raise (problem : ParseProblem) : (s.raise plan problem).taken = s.taken := by
  unfold raise
  split <;> rfl

/-- A state that is recovering has recorded an error. -/
def Candid (s : State) : Prop := s.recovering = true → s.errors ≠ #[]

theorem errors_record_ne (problem : ParseProblem) : (s.record plan problem).errors ≠ #[] := by
  simp [record]

/-- An error that is not recorded is one that follows from another. -/
theorem Candid.errors_raise_ne (h : s.Candid) (problem : ParseProblem) :
    (s.raise plan problem).errors ≠ #[] := by
  unfold raise
  split
  · next recovering => exact h recovering
  · exact errors_record_ne problem

theorem errors_raise_ne_of (h : s.errors ≠ #[]) (problem : ParseProblem) :
    (s.raise plan problem).errors ≠ #[] := by
  unfold raise
  split
  · exact h
  · exact errors_record_ne problem

end State

namespace Interpreter

open State SourceTree

variable {plan : Plan} {s t : State}

/-! ### Entering and leaving a rule -/

@[simp] theorem taken_enter (s : State) (id : RuleId) (kind : RuleKind) :
    State.taken { s with frame := Frame.enter id kind } = [] := by
  cases kind <;> rfl

/-- What leaving a rule gives back to the caller: the tokens of the invocation in a tree of their own,
or no tree if there are none. -/
theorem leave_spec (plan : Plan) (id : RuleId) (kind : RuleKind) (feature : Option String) (offset : Nat)
    (caller : Frame) (s : State) :
    Finishing { s with frame := caller } (leave plan id kind feature offset caller s).state ∧
      leavesOf (leave plan id kind feature offset caller s).tree.toList = s.taken := by
  unfold leave
  dsimp only
  split
  · next empty =>
    have noChildren : s.frame.children = #[] := by simpa using empty
    exact ⟨.refl _, by simp [State.taken, noChildren]⟩
  · split
    · next o _ =>
      have finished := fun tree =>
        Finishing.constructObject plan { s with frame := caller } o (some tree)
      split
      · exact ⟨finished _, by simp [State.taken]⟩
      · exact ⟨finished _, by simp [State.taken]⟩
    · exact ⟨.refl _, by simp [State.taken]⟩
    · exact ⟨.refl _, by simp [State.taken]⟩

/-- Taking over the result of an invocation adds its tree to the calling frame. -/
theorem Returns.spec {out : Invoked} (h : Returns out t) :
    t.stream = out.state.stream ∧ t.errors = out.state.errors ∧
      t.recovering = out.state.recovering ∧
      t.taken = out.state.taken ++ leavesOf out.tree.toList := by
  have attached : ∀ trees : List SourceTree, leavesOf trees = leavesOf out.tree.toList →
      Silent (out.state.attach trees) t →
      t.stream = out.state.stream ∧ t.errors = out.state.errors ∧
        t.recovering = out.state.recovering ∧
        t.taken = out.state.taken ++ leavesOf out.tree.toList := by
    intro trees same silent
    refine ⟨silent.stream, silent.errors, silent.recovering, ?_⟩
    rw [silent.taken, taken_attach, same]
  cases h with
  | keep => exact attached _ rfl (.refl _)
  | assign _ feature op => exact attached _ rfl (.assign _ _ _ _)
  | adopt _ =>
    refine attached _ ?_ (.adopt _ _)
    cases out.tree <;> simp
  | refer took feature op target text =>
    exact attached _ (by rw [took]; rfl) (.makeReference _ _ _ _ _ _)

/-! ### Runs -/

/-- How a run goes on with the input: no token gets lost, and no error. -/
structure Onward (s t : State) : Prop where
  tokens : t.taken ++ t.stream.tokens = s.taken ++ s.stream.tokens
  visible : t.stream.visible <:+ s.stream.visible
  errors : s.errors ≠ #[] → t.errors ≠ #[]
  candid : s.Candid → t.Candid

namespace Onward

theorem trans {u : State} (h : Onward s t) (h' : Onward t u) : Onward s u where
  tokens := h'.tokens.trans h.tokens
  visible := h'.visible.trans h.visible
  errors := fun some => h'.errors (h.errors some)
  candid := fun candid => h'.candid (h.candid candid)

theorem of_silent (h : Silent s t) : Onward s t where
  tokens := by rw [h.taken, h.stream]
  visible := ⟨[], congrArg TokenStream.visible h.stream⟩
  errors := by rw [h.errors]; exact id
  candid := by
    unfold Candid
    rw [h.recovering, h.errors]
    exact id

theorem record (s : State) (problem : ParseProblem) : Onward s (s.record plan problem) where
  tokens := rfl
  visible := List.suffix_rfl
  errors := fun _ => errors_record_ne problem
  candid := fun _ _ => errors_record_ne problem

theorem fail (s : State) (problem : ParseProblem) :
    Onward s { s.raise plan problem with recovering := true } where
  tokens := by
    change (s.raise plan problem).taken ++ (s.raise plan problem).stream.tokens = _
    rw [taken_raise, stream_raise]
  visible := ⟨[], congrArg TokenStream.visible (stream_raise problem)⟩
  errors := fun some => errors_raise_ne_of some problem
  candid := fun candid _ => candid.errors_raise_ne problem

theorem consume (s : State) (feature : Option String) : Onward s (s.consume feature).1 where
  tokens := taken_consume s feature
  visible := by
    rw [visible_consume]
    exact List.tail_suffix _
  errors := by rw [errors_consume]; exact id
  candid := by
    unfold Candid
    rw [recovering_consume, errors_consume]
    exact id

/-- The tokens that an invocation takes are added to those of its caller. -/
theorem call {ended : State} {id : RuleId} {kind : RuleKind} {feature : Option String}
    {offset : Nat} (inside : Onward { s with frame := Frame.enter id kind } ended)
    (back : Returns (leave plan id kind feature offset s.frame ended) t) : Onward s t := by
  obtain ⟨finished, tree⟩ := leave_spec plan id kind feature offset s.frame ended
  obtain ⟨stream, errors, recovering, taken⟩ := back.spec
  have sameStream : t.stream = ended.stream := stream.trans finished.stream
  have sameErrors : t.errors = ended.errors := errors.trans finished.errors
  have sameMode : t.recovering = ended.recovering := recovering.trans finished.recovering
  refine ⟨?tokens, ?visible, ?errors, ?candid⟩
  case tokens =>
    have tokens : ended.taken ++ ended.stream.tokens = s.stream.tokens := by
      rw [inside.tokens, taken_enter, List.nil_append]
    rw [taken, sameStream, tree, finished.silent.taken, List.append_assoc, tokens]
    rfl
  case visible =>
    rw [sameStream]
    exact inside.visible
  case errors =>
    rw [sameErrors]
    exact inside.errors
  case candid =>
    intro candid
    have candidInside := inside.candid candid
    unfold Candid at candidInside ⊢
    rw [sameMode, sameErrors]
    exact candidInside

end Onward

theorem Reaches.onward (h : Reaches plan s t) : Onward s t := by
  induction h with
  | refl => exact .of_silent (.refl _)
  | trans _ _ ih ih' => exact ih.trans ih'
  | note i => exact .of_silent (.note _ i)
  | record problem => exact .record _ problem
  | fail problem => exact .fail _ problem
  | settle => exact ⟨rfl, List.suffix_rfl, id, fun _ recovering => by cases recovering⟩
  | consume feature => exact .consume _ feature
  | collect text => exact .of_silent (.collect _ text)
  | assign _ feature op => exact .of_silent (.assign _ feature op _)
  | refer feature op target text token => exact .of_silent (.makeReference _ _ _ _ _ _)
  | retag type => exact .of_silent (.retag _ type)
  | wrap type feature op => exact .of_silent (.wrap plan _ type feature op)
  | call known inner back ih => exact ih.call back

theorem Reaches.count_le (h : Reaches plan s t) : t.stream.count ≤ s.stream.count := by
  rw [TokenStream.count_eq_length, TokenStream.count_eq_length]
  exact h.onward.visible.length_le

end Interpreter

end Workbench
