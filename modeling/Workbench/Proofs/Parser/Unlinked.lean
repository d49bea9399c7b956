import Workbench.Proofs.Parser.Runs

/-!
**A parsed tree is not linked.**

The parser makes references and tells them where they are held, but never resolves one. So the tree of
a parse is the same before and after all resolutions are forgotten.
-/

namespace Workbench

/-- No reference of a state has been resolved. -/
def State.Unlinked (s : State) : Prop := ∀ r ∈ s.references, r.resolution = none

namespace State

variable {s : State} {plan : Plan}

/-! ### Steps that leave the references alone -/

@[simp] theorem references_attach (trees : List SourceTree) :
    (s.attach trees).references = s.references := rfl

@[simp] theorem references_consume (feature : Option String) :
    (s.consume feature).1.references = s.references := by
  unfold consume
  split <;> rfl

@[simp] theorem references_raise (problem : ParseProblem) :
    (s.raise plan problem).references = s.references := by
  unfold raise
  split <;> rfl

@[simp] theorem references_collect (text : String) :
    (s.collect text).references = s.references := by
  unfold collect
  split <;> rfl

@[simp] theorem references_assign (feature : String) (op : AssignOp) (value : Value) :
    (s.assign feature op value).references = s.references := by
  unfold assign
  split <;> rfl

@[simp] theorem references_adopt (id : NodeId) : (s.adopt id).references = s.references := by
  unfold adopt
  split <;> rfl

@[simp] theorem references_retag (type : TypeId) : (s.retag type).references = s.references := by
  unfold retag
  split
  · rfl
  · split <;> rfl

/-! ### Finishing nodes -/

theorem Unlinked.of_references {s t : State} (h : s.Unlinked) (eq : t.references = s.references) :
    t.Unlinked := by
  intro r mem
  exact h r (eq ▸ mem)

theorem Unlinked.hold (h : s.Unlinked) (place : Place) (value : Value) :
    (s.hold place value).Unlinked := by
  cases value with
  | reference id =>
    intro r mem
    obtain ⟨i, inBounds, rfl⟩ := Array.mem_iff_getElem.1 mem
    rw [State.hold] at inBounds
    simp only [Array.size_modify] at inBounds
    simp only [State.hold, Array.getElem_modify]
    split
    · exact h s.references[i] (Array.getElem_mem inBounds)
    · exact h _ (Array.getElem_mem inBounds)
  | _ => exact h

theorem Unlinked.foldl {β : Type} {f : State → β → State}
    (step : ∀ s b, s.Unlinked → (f s b).Unlinked) {s : State} (h : s.Unlinked) (l : List β) :
    (l.foldl f s).Unlinked := by
  induction l generalizing s with
  | nil => exact h
  | cons b l ih => exact ih (step s b h)

theorem Unlinked.holdEntry (holder : NodeId) (h : s.Unlinked) (entry : String × Value) :
    (s.holdEntry holder entry).Unlinked := by
  unfold State.holdEntry
  split
  · exact h.foldl (fun s item hs => hs.hold _ _) _
  · exact h.hold _ _

theorem Unlinked.construct (h : s.Unlinked) (type : TypeId) (properties : Properties)
    (slot : Option NodeId) (source : Option SourceTree) :
    (s.construct plan type properties slot source).1.Unlinked := by
  refine Unlinked.foldl (fun s entry hs => hs.holdEntry _ entry) ?_ _
  exact h.of_references rfl

theorem Unlinked.constructObject (h : s.Unlinked) (o : Object) (source : Option SourceTree) :
    (s.constructObject plan o source).1.Unlinked := by
  unfold State.constructObject
  split
  · exact h
  · exact h.construct _ _ _ _

theorem Unlinked.wrap (h : s.Unlinked) (type : TypeId) (feature : String) (op : AssignOp) :
    (s.wrap plan type feature op).Unlinked := by
  unfold State.wrap
  split
  · exact h.of_references rfl
  · next o _ =>
    dsimp only
    have built : (s.constructObject plan o (wrapChildren feature s.frame)).1.Unlinked :=
      h.constructObject o _
    split
    · exact built.of_references (by simp)
    · exact built.of_references rfl

end State

namespace Interpreter

open State

variable {plan : Plan} {s t : State}

theorem unlinked_makeReference (feature : String) (op : AssignOp) (target : TypeId) (text : String)
    (source : SourceTree) (s : State) (h : s.Unlinked) :
    (makeReference feature op target text source s).Unlinked := by
  intro r mem
  rw [makeReference, references_assign] at mem
  rcases Array.mem_push.1 mem with mem | rfl
  · exact h r mem
  · rfl

theorem unlinked_leave (id : RuleId) (kind : RuleKind) (feature : Option String) (offset : Nat)
    (caller : Frame) (s : State) (h : s.Unlinked) :
    (leave plan id kind feature offset caller s).state.Unlinked := by
  have back : State.Unlinked { s with frame := caller } := h
  unfold leave
  dsimp only
  split
  · exact back
  · split
    · next o _ =>
      have built : ∀ tree, (State.constructObject plan o tree { s with frame := caller }).1.Unlinked :=
        back.constructObject o
      split <;> exact built _
    · exact back
    · exact back

theorem Returns.unlinked {out : Invoked} (back : Returns out t) (h : out.state.Unlinked) :
    t.Unlinked := by
  cases back with
  | keep => exact h.of_references (references_attach _)
  | assign _ feature op => exact h.of_references (by simp)
  | adopt _ => exact h.of_references (by simp)
  | refer _ feature op target text =>
    exact unlinked_makeReference _ _ _ _ _ _ (h.of_references (references_attach _))

theorem Reaches.unlinked (h : Reaches plan s t) (before : s.Unlinked) : t.Unlinked := by
  induction h with
  | refl => exact before
  | trans _ _ ih ih' => exact ih' (ih before)
  | note | record | settle => exact before
  | fail problem => exact before.of_references (references_raise problem)
  | consume feature => exact before.of_references (references_consume feature)
  | collect text => exact before.of_references (references_collect text)
  | assign _ feature op => exact before.of_references (references_assign feature op _)
  | refer feature op target text token => exact unlinked_makeReference _ _ _ _ _ _ before
  | retag type => exact before.of_references (references_retag type)
  | wrap type feature op => exact before.wrap type feature op
  | call _ _ back ih => exact back.unlinked (unlinked_leave _ _ _ _ _ _ (ih before))

end Interpreter

/-! ### Whole texts -/

theorem Ast.unlink_eq_self {a : Ast} (h : ∀ r ∈ a.references, r.resolution = none) :
    a.unlink = a := by
  have same : a.references.map (fun r => { r with resolution := none }) = a.references := by
    apply Array.ext
    · exact Array.size_map
    · intro i _ inBounds
      have none_at := h a.references[i] (Array.getElem_mem inBounds)
      rw [Array.getElem_map]
      cases eq : a.references[i]
      rw [eq] at none_at
      cases none_at
      rfl
  unfold Ast.unlink
  rw [same]

theorem Parser.unlinked_parse (p : Parser) (lexed : LexResult) :
    ∀ r ∈ (p.parse lexed).ast.references, r.resolution = none := by
  have opened : (p.opened lexed).Unlinked := by
    intro r mem
    simp [Parser.opened] at mem
  have ended := (p.reaches_ended lexed).unlinked opened
  exact (ended.of_references (State.references_attach _)).construct _ _ _ _

/-- Forgetting the resolutions of a parsed text changes nothing. -/
theorem Parser.unlink_parse (p : Parser) (lexed : LexResult) :
    (p.parse lexed).unlink = p.parse lexed := by
  unfold ParseResult.unlink
  rw [Ast.unlink_eq_self (p.unlinked_parse lexed)]

end Workbench
