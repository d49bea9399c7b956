import Workbench.Proofs.Parser.Alike

/-!
**States that have built the same.**

Two runs may be at different places of different texts, with different errors behind them, and have built
the same all the same. Then `Level` says that what they have finished is the same up to places in the text,
and `Beside` that so is what their invocations have built. No step that builds something looks at the tokens
ahead or at the errors, so each takes states that are beside each other to states that are. This follows from
what is known of states that are alike: forget the tokens and errors, and both relations are one of alikeness.
-/

namespace Workbench

namespace State

variable {plan : Plan} {stop : Nat} {s t : State}

/-- The state without its tokens and errors, in the given invocation. -/
def within (f : Frame) (s : State) : State := { s with stream := .of [], errors := #[], frame := f }

/-- What has been finished is the same in both states, up to places in the text. -/
structure Level (s t : State) : Prop where
  arena : s.arena.bare = t.arena.bare
  recovering : s.recovering = t.recovering
  incidents : s.incidents = t.incidents

/-- And so is what the invocation under way has built. -/
structure Beside (s t : State) : Prop extends Level s t where
  frame : s.frame.Alike t.frame

theorem Level.within (h : s.Level t) {f g : Frame} (frames : f.Alike g) :
    (s.within f).Alike (t.within g) :=
  ⟨rfl, frames, h.arena, rfl, h.recovering, h.incidents⟩

theorem Level.of_within {f g : Frame} (h : (s.within f).Alike (t.within g)) : s.Level t :=
  ⟨h.arena, h.recovering, h.incidents⟩

theorem Level.trans {u : State} (h : s.Level t) (h' : t.Level u) : s.Level u :=
  ⟨h.arena.trans h'.arena, h.recovering.trans h'.recovering, h.incidents.trans h'.incidents⟩

theorem within_foldl {β : Type} {step : State → β → State} {f : Frame}
    (commutes : ∀ s b, (step s b).within f = step (s.within f) b) (l : List β) (s : State) :
    (l.foldl step s).within f = l.foldl step (s.within f) := by
  induction l generalizing s with
  | nil => rfl
  | cons b l ih => rw [List.foldl_cons, List.foldl_cons, ih, commutes]

theorem within_hold (f : Frame) (place : Place) (value : Value) (s : State) :
    (s.hold place value).within f = (s.within f).hold place value := by
  cases value <;> rfl

theorem within_holdEntry (f : Frame) (holder : NodeId) (s : State) (entry : String × Value) :
    (holdEntry holder s entry).within f = holdEntry holder (s.within f) entry := by
  unfold holdEntry
  split
  · have commutes : ∀ (s : State) (item : Value × Nat),
        (s.hold ⟨holder, entry.1, some item.2⟩ item.1).within f =
          (s.within f).hold ⟨holder, entry.1, some item.2⟩ item.1 :=
      fun s item => within_hold f _ item.1 s
    exact within_foldl commutes _ s
  · exact within_hold f _ _ s

/-- Finishing an object does not touch the tokens, the errors and the invocation under way. -/
theorem within_constructObject (f : Frame) (o : Object) (source : Option SourceTree) (s : State) :
    (s.within f).constructObject plan o source =
      ((s.constructObject plan o source).1.within f, (s.constructObject plan o source).2) := by
  unfold constructObject construct
  split
  · rfl
  · dsimp only
    rw [within_foldl (fun s entry => within_holdEntry f _ s entry)]
    rfl

theorem Level.constructObject (h : s.Level t) (plan : Plan) (stop : Nat) (o : Object)
    (source source' : Option SourceTree) :
    (s.constructObject plan o source).1.Level (t.constructObject (plan.endingAt stop) o source').1 ∧
      (s.constructObject plan o source).2 = (t.constructObject (plan.endingAt stop) o source').2 := by
  have still := h.within (f := default) (g := default) ⟨rfl, rfl, .rfl⟩
  obtain ⟨alike, same⟩ := still.constructObject plan stop o source source'
  rw [within_constructObject, within_constructObject] at alike same
  exact ⟨.of_within alike, same⟩

namespace Beside

/-- The state without its tokens and errors. -/
abbrev still (s : State) : State := s.within s.frame

theorem alike (h : s.Beside t) : (still s).Alike (still t) := h.toLevel.within h.frame

theorem of_alike (h : (still s).Alike (still t)) : s.Beside t := ⟨.of_within h, h.frame⟩

theorem note (h : s.Beside t) (incident : Incident) : (s.note incident).Beside (t.note incident) :=
  of_alike (h.alike.note incident)

theorem attach (h : s.Beside t) {us vs : List SourceTree} (both : us = [] ↔ vs = []) :
    (s.attach us).Beside (t.attach vs) :=
  of_alike (h.alike.attach both)

theorem still_collect (text : String) (s : State) : still (s.collect text) = (still s).collect text := by
  obtain ⟨stream, ⟨rule, content, children⟩⟩ := s
  cases content <;> rfl

theorem collect (h : s.Beside t) (text : String) : (s.collect text).Beside (t.collect text) := by
  apply of_alike
  rw [still_collect, still_collect]
  exact h.alike.collect text

theorem still_assign (feature : String) (op : AssignOp) (value : Value) (s : State) :
    still (s.assign feature op value) = (still s).assign feature op value := by
  obtain ⟨stream, ⟨rule, content, children⟩⟩ := s
  cases content <;> rfl

theorem assign (h : s.Beside t) (feature : String) (op : AssignOp) (value : Value) :
    (s.assign feature op value).Beside (t.assign feature op value) := by
  apply of_alike
  rw [still_assign, still_assign]
  exact h.alike.assign feature op value

theorem still_retag (type : TypeId) (s : State) : still (s.retag type) = (still s).retag type := by
  obtain ⟨stream, ⟨rule, content, children⟩⟩ := s
  cases content with
  | text acc => rfl
  | object o =>
    obtain ⟨_, _, _, retagged⟩ := o
    cases retagged <;> rfl

theorem retag (h : s.Beside t) (type : TypeId) : (s.retag type).Beside (t.retag type) := by
  apply of_alike
  rw [still_retag, still_retag]
  exact h.alike.retag type

theorem still_adopt (id : NodeId) (s : State) : still (s.adopt id) = (still s).adopt id := by
  have content : (still s).frame.content = s.frame.content := rfl
  have nodes : (still s).nodes = s.nodes := rfl
  unfold adopt
  rw [content, nodes]
  cases s.frame.content <;> cases s.nodes[id]? <;> rfl

theorem adopt (h : s.Beside t) (id : NodeId) : (s.adopt id).Beside (t.adopt id) := by
  apply of_alike
  rw [still_adopt, still_adopt]
  exact h.alike.adopt id

theorem still_wrap (type : TypeId) (feature : String) (op : AssignOp) (s : State) :
    still (s.wrap plan type feature op) = (still s).wrap plan type feature op := by
  cases content : s.frame.content with
  | text acc =>
    have content' : (still s).frame.content = .text acc := content
    unfold wrap
    rw [content, content']
    rfl
  | object o =>
    have content' : (still s).frame.content = .object o := content
    have frame := (Finishing.constructObject plan s o (wrapChildren feature s.frame)).frame
    have same : (still s).frame = s.frame := rfl
    rw [wrap_of_object content, wrap_of_object content', same, within_constructObject]
    generalize s.constructObject plan o (wrapChildren feature s.frame) = out at frame
    obtain ⟨u, built⟩ := out
    dsimp only at frame ⊢
    rw [← frame]
    cases built with
    | none => rfl
    | some id => exact still_assign feature op (.node id) _

theorem wrap (h : s.Beside t) (type : TypeId) (feature : String) (op : AssignOp) :
    (s.wrap plan type feature op).Beside (t.wrap (plan.endingAt stop) type feature op) := by
  apply of_alike
  rw [still_wrap, still_wrap]
  exact h.alike.wrap plan stop type feature op

theorem makeReference (h : s.Beside t) (feature : String) (op : AssignOp) (target : TypeId)
    (text : String) (source source' : SourceTree) :
    (Interpreter.makeReference feature op target text source s).Beside
      (Interpreter.makeReference feature op target text source' t) := by
  apply of_alike
  unfold Interpreter.makeReference
  rw [still_assign, still_assign]
  exact h.alike.makeReference feature op target text source source'

end Beside

end State

end Workbench
