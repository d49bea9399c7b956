import Workbench.Proofs.Parser.Features
import Workbench.Proofs.Parser.Growing
import Workbench.Proofs.Parser.Owning

/-!
**One parse on two kinds of states.**

A run of the parser on its arenas mirrors a state of the interpreter with the frames of its callers: the
stacks hold the same, the nodes and references are the same up to how they point at the source tree, and the
concrete tree shows what the frames hold. A node has the composite that shows its source tree, and no other
composite says that it belongs to this node. Whatever a step does to the one, it does to the other.

There is one thing that the two do not treat alike: a node that is handed to an invocation which builds a
text. It is noted as an incident, and a state with this incident is not mirrored.
-/

namespace Workbench

open Cst State Interpreter

/-- The node that a rule stands for. -/
def RuleValue.node? : RuleValue → Option NodeId
  | .node id => some id
  | .value _ => none

namespace Engine

/-! ### Nodes and references without their source trees -/

/-- A node without its composite. -/
def Node.bare (n : Node) : Node := { n with cst := none }

/-- A node of the interpreter without its source tree. -/
def Node.of (n : AstNode) : Node := { type := n.type, place := n.place, properties := n.properties }

def Ref.bare (q : Ref) : Ref := { q with cst := none }

def Ref.of (q : Reference) : Ref := { text := q.text, target := q.target, place := q.place }

/-- The composite of a node. -/
def cstOf? (nodes : Array Node) (id : NodeId) : Option CstId := nodes[id]?.bind (·.cst)

/-- The leaf or composite of a reference. -/
def cstOfRef? (references : Array Ref) (id : RefId) : Option CstId := references[id]?.bind (·.cst)

/-- The source tree of a reference. -/
def sourceOfRef? (references : Array Reference) (id : RefId) : Option SourceTree :=
  references[id]?.map (·.source)

/-- The nodes and references of two arenas are the same but for their source trees. -/
structure Alike (nodes : Array Node) (references : Array Ref) (nodes' : Array AstNode)
    (references' : Array Reference) : Prop where
  nodes : nodes.map Node.bare = nodes'.map Node.of
  references : references.map Ref.bare = references'.map Ref.of

theorem map_modify {α β : Type} {f : α → α} {k : β → β} {g : α → β} (commute : ∀ x, g (f x) = k (g x))
    (xs : Array α) (i : Nat) : (xs.modify i f).map g = (xs.map g).modify i k := by
  refine Array.ext_getElem? fun j => ?_
  rw [Array.getElem?_map, Array.getElem?_modify, Array.getElem?_modify, Array.getElem?_map]
  split
  · cases xs[j]? with
    | none => rfl
    | some x => exact congrArg some (commute x)
  · rfl

section Arenas

variable {nodes : Array Node} {references : Array Ref} {nodes' : Array AstNode}
  {references' : Array Reference} {i : Nat}

namespace Alike

variable (h : Alike nodes references nodes' references')

include h

theorem size_nodes : nodes.size = nodes'.size := by
  simpa using congrArg Array.size h.nodes

theorem size_references : references.size = references'.size := by
  simpa using congrArg Array.size h.references

theorem node (i : NodeId) : nodes[i]?.map Node.bare = nodes'[i]?.map Node.of := by
  rw [← Array.getElem?_map, h.nodes, Array.getElem?_map]

theorem reference (i : RefId) : references[i]?.map Ref.bare = references'[i]?.map Ref.of := by
  rw [← Array.getElem?_map, h.references, Array.getElem?_map]

theorem push_node {n : Node} {n' : AstNode} (same : n.bare = Node.of n') :
    Alike (nodes.push n) references (nodes'.push n') references' where
  nodes := by rw [Array.map_push, Array.map_push, h.nodes, same]
  references := h.references

theorem set_node {n : Node} {n' : AstNode} (same : n.bare = Node.of n') (id : NodeId) :
    Alike (nodes.setIfInBounds id n) references (nodes'.setIfInBounds id n') references' where
  nodes := by rw [Array.map_setIfInBounds, Array.map_setIfInBounds, h.nodes, same]
  references := h.references

theorem push_reference {q : Ref} {q' : Reference} (same : q.bare = Ref.of q') :
    Alike nodes (references.push q) nodes' (references'.push q') where
  nodes := h.nodes
  references := by rw [Array.map_push, Array.map_push, h.references, same]

end Alike

end Arenas

/-! ### Pointing at the source tree -/

/-- Every node and every reference points at a composite or leaf that shows its source tree, and composites
belong to the nodes that point at them. -/
structure Tied (a : Cst) (ids : List CstId) (nodes : Array Node) (references : Array Ref)
    (nodes' : Array AstNode) (references' : Array Reference) : Prop where
  ofNode : ∀ i, Option.Rel (fun c t => t.owner = some i ∧ Pointed a ids c t) (cstOf? nodes i)
    (sourceOf? nodes' i)
  ofReference : ∀ i, Option.Rel (fun c t => t.owner = none ∧ Pointed a ids c t) (cstOfRef? references i)
    (sourceOfRef? references' i)
  linked : ∀ c n i, a.node? c = some n → n.ast = some i → cstOf? nodes i = some c

theorem rel_mono {α β : Type} {R S : α → β → Prop} {x : Option α} {y : Option β} (h : Option.Rel R x y)
    (imp : ∀ a b, x = some a → R a b → S a b) : Option.Rel S x y := by
  cases h with
  | some rel => exact .some (imp _ _ rfl rel)
  | none => exact .none

theorem ast_of_pointed {a : Cst} {ids : List CstId} {c : CstId} {t : SourceTree} (h : Pointed a ids c t) :
    ∃ n, a.node? c = some n ∧ n.ast = t.owner := by
  obtain ⟨p, own, shown, -, -⟩ := h
  obtain ⟨n, found, -, -, ast, -⟩ := shown.single
  exact ⟨n, found, ast⟩

namespace Tied

variable {a b : Cst} {ids ids' : List CstId} {nodes nodes₂ : Array Node} {references references₂ : Array Ref}
  {nodes' nodes₂' : Array AstNode} {references' references₂' : Array Reference} {c : CstId} {t : SourceTree}

theorem congr (h : Tied a ids nodes references nodes' references')
    (same : ∀ i, cstOf? nodes₂ i = cstOf? nodes i ∧ sourceOf? nodes₂' i = sourceOf? nodes' i)
    (sameRefs : ∀ i, cstOfRef? references₂ i = cstOfRef? references i ∧
      sourceOfRef? references₂' i = sourceOfRef? references' i) :
    Tied a ids nodes₂ references₂ nodes₂' references₂' where
  ofNode i := by
    rw [(same i).1, (same i).2]
    exact h.ofNode i
  ofReference i := by
    rw [(sameRefs i).1, (sameRefs i).2]
    exact h.ofReference i
  linked c n i found ast := by
    rw [(same i).1]
    exact h.linked c n i found ast

/-- The concrete tree has grown, and no composite has got a node. -/
theorem grow (h : Tied a ids nodes references nodes' references') (keeps : Keeps a b ids)
    (within : ids ⊆ ids') (asts : AstsFrom a b none) : Tied b ids' nodes references nodes' references' where
  ofNode i := rel_mono (h.ofNode i) fun c t _ => fun ⟨own, point⟩ => ⟨own, (keeps c t point).mono within⟩
  ofReference i := rel_mono (h.ofReference i) fun c t _ => fun ⟨own, point⟩ => ⟨own, (keeps c t point).mono within⟩
  linked c n i found ast := by
    obtain ⟨m, before, ast⟩ := asts c n i nofun found ast
    exact h.linked c m i before ast

/-- A composite was closed, and perhaps a node was built from it. -/
theorem construct (h : Tied a ids nodes references nodes' references') (keeps : Keeps a b ids)
    (within : ids ⊆ ids') (asts : AstsFrom a b (some c)) (point : Pointed b ids' c t)
    (free : ∀ i, t.owner = some i → cstOf? nodes i = none)
    (built : ∀ i, cstOf? nodes₂ i = (if t.owner = some i then some c else cstOf? nodes i) ∧
      sourceOf? nodes₂' i = if t.owner = some i then some t else sourceOf? nodes' i)
    (sameRefs : ∀ i, cstOfRef? references₂ i = cstOfRef? references i ∧
      sourceOfRef? references₂' i = sourceOfRef? references' i) :
    Tied b ids' nodes₂ references₂ nodes₂' references₂' where
  ofNode i := by
    rw [(built i).1, (built i).2]
    split
    · next owner => exact .some ⟨owner, point⟩
    · exact rel_mono (h.ofNode i) fun c t _ => fun ⟨own, point⟩ => ⟨own, (keeps c t point).mono within⟩
  ofReference i := by
    rw [(sameRefs i).1, (sameRefs i).2]
    exact rel_mono (h.ofReference i) fun c t _ => fun ⟨own, point⟩ => ⟨own, (keeps c t point).mono within⟩
  linked d n i found ast := by
    rw [(built i).1]
    by_cases self : d = c
    · subst self
      obtain ⟨m, isLast, owner⟩ := ast_of_pointed point
      obtain rfl : n = m := Option.some.inj (found.symm.trans isLast)
      rw [if_pos (owner.symm.trans ast)]
    · obtain ⟨m, before, ast⟩ := asts d n i (fun eq => self (Option.some.inj eq).symm) found ast
      have linked := h.linked d m i before ast
      rw [if_neg fun owner => ?_]
      · exact linked
      · rw [free i owner] at linked
        cases linked

/-- A node is taken over: its composite belongs to no node any more. -/
theorem adopt (h : Tied a ids nodes references nodes' references') {i : NodeId} {n : CstNode}
    (found : a.node? c = some n) (ast : n.ast = some i) (gives : GivesAst a b c none)
    (others : ∀ d u, d ≠ c → Pointed a ids d u → Pointed b ids d u)
    (taken : ∀ j, cstOf? nodes₂ j = (if j = i then none else cstOf? nodes j) ∧
      sourceOf? nodes₂' j = if j = i then none else sourceOf? nodes' j) :
    Tied b ids nodes₂ references nodes₂' references' := by
  have apart : ∀ {d u j}, Pointed a ids d u → u.owner = j → j ≠ some i → d ≠ c := by
    rintro d u j point owner other rfl
    obtain ⟨m, isNode, astOwner⟩ := ast_of_pointed point
    obtain rfl : n = m := Option.some.inj (found.symm.trans isNode)
    exact other (owner.symm.trans (astOwner.symm.trans ast))
  refine ⟨fun j => ?_, fun j => ?_, fun d m j isNode astJ => ?_⟩
  · rw [(taken j).1, (taken j).2]
    split
    · exact .none
    · next other =>
      refine rel_mono (h.ofNode j) fun d u _ => fun ⟨own, point⟩ => ⟨own, others d u ?_ point⟩
      exact apart point own fun eq => other (Option.some.inj eq)
  · exact rel_mono (h.ofReference j) fun d u _ => fun ⟨own, point⟩ =>
      ⟨own, others d u (apart point own nofun) point⟩
  · rw [gives.node] at isNode
    split at isNode
    · obtain ⟨m', -, rfl⟩ := Option.map_eq_some_iff.1 isNode
      cases astJ
    · next other =>
      have linked := h.linked d m j isNode astJ
      have differ : j ≠ i := by
        rintro rfl
        exact other (Option.some.inj (linked.symm.trans (h.linked c n j found ast)))
      rw [(taken j).1, if_neg differ]
      exact linked

end Tied

/-! ### Finishing nodes -/

/-- A step that changes nothing but where nodes and references are held. -/
structure Rehangs (r r' : Run) : Prop where
  rest : r' = { r with nodes := r'.nodes, references := r'.references }
  size : r'.nodes.size = r.nodes.size
  nodes : ∀ i, cstOf? r'.nodes i = cstOf? r.nodes i
  references : ∀ i, cstOfRef? r'.references i = cstOfRef? r.references i

namespace Rehangs

variable {r r' r'' : Run}

theorem refl (r : Run) : Rehangs r r := ⟨rfl, rfl, fun _ => rfl, fun _ => rfl⟩

theorem trans (h : Rehangs r r') (h' : Rehangs r' r'') : Rehangs r r'' where
  rest := by
    rw [h'.rest, h.rest]
  size := h'.size.trans h.size
  nodes i := (h'.nodes i).trans (h.nodes i)
  references i := (h'.references i).trans (h.references i)

theorem hold (r : Run) (place : Place) (v : Value) : Rehangs r (r.hold place v) := by
  cases v with
  | node id =>
    refine ⟨rfl, Array.size_modify, fun i => ?_, fun _ => rfl⟩
    simp only [Run.hold, cstOf?, Array.getElem?_modify]
    split
    · cases r.nodes[i]? <;> rfl
    · rfl
  | reference id =>
    refine ⟨rfl, rfl, fun _ => rfl, fun i => ?_⟩
    simp only [Run.hold, cstOfRef?, Array.getElem?_modify]
    split
    · cases r.references[i]? <;> rfl
    · rfl
  | _ => exact refl r

theorem foldl {β : Type} {f : Run → β → Run} (step : ∀ r b, Rehangs r (f r b)) (r : Run) (l : List β) :
    Rehangs r (l.foldl f r) := by
  induction l generalizing r with
  | nil => exact refl r
  | cons b l ih => exact (step r b).trans (ih (f r b))

theorem holdEntry (holder : NodeId) (r : Run) (entry : String × Value) :
    Rehangs r (r.holdEntry holder entry) := by
  unfold Run.holdEntry
  split
  · exact foldl (fun r item => hold r _ _) r _
  · exact hold r _ _

end Rehangs

namespace Alike

variable {r : Run} {s : State}

theorem hold (h : Alike r.nodes r.references s.nodes s.references) (place : Place) (v : Value) :
    Alike (r.hold place v).nodes (r.hold place v).references (s.hold place v).nodes
      (s.hold place v).references := by
  cases v with
  | node id =>
    let put : Node → Node := fun n => { n with place := some place }
    refine ⟨?_, h.references⟩
    simp only [Run.hold, State.hold]
    rw [map_modify (g := Node.bare) (k := put) (fun _ => rfl),
      map_modify (g := Node.of) (k := put) (fun _ => rfl), h.nodes]
  | reference id =>
    let put : Ref → Ref := fun q => { q with place := some place }
    refine ⟨h.nodes, ?_⟩
    simp only [Run.hold, State.hold]
    rw [map_modify (g := Ref.bare) (k := put) (fun _ => rfl),
      map_modify (g := Ref.of) (k := put) (fun _ => rfl), h.references]
  | _ => exact h

theorem foldl {β : Type} {f : Run → β → Run} {g : State → β → State}
    (step : ∀ (r : Run) (s : State) b, Alike r.nodes r.references s.nodes s.references →
      Alike (f r b).nodes (f r b).references (g s b).nodes (g s b).references)
    (h : Alike r.nodes r.references s.nodes s.references) (l : List β) :
    Alike (l.foldl f r).nodes (l.foldl f r).references (l.foldl g s).nodes (l.foldl g s).references := by
  induction l generalizing r s with
  | nil => exact h
  | cons b l ih => exact ih (step r s b h)

theorem holdEntry (h : Alike r.nodes r.references s.nodes s.references) (holder : NodeId)
    (entry : String × Value) :
    Alike (r.holdEntry holder entry).nodes (r.holdEntry holder entry).references
      (s.holdEntry holder entry).nodes (s.holdEntry holder entry).references := by
  obtain ⟨name, v⟩ := entry
  cases v with
  | list items => exact h.foldl (fun r s (item : Value × Nat) h => h.hold ⟨holder, name, some item.2⟩ item.1) _
  | _ => exact h.hold _ _

/-- Both make the same node. -/
theorem construct (h : Alike r.nodes r.references s.nodes s.references) (plan : Plan) (type : TypeId)
    (p : Properties) (slot : Option NodeId) (composite : Option CstId) (source : Option SourceTree) :
    Alike (r.construct plan type p slot composite).1.nodes (r.construct plan type p slot composite).1.references
      (s.construct plan type p slot source).1.nodes (s.construct plan type p slot source).1.references ∧
    (r.construct plan type p slot composite).2 = (s.construct plan type p slot source).2 := by
  have same : (r.construct plan type p slot composite).2 = (s.construct plan type p slot source).2 := by
    change slot.getD r.nodes.size = slot.getD s.nodes.size
    rw [h.size_nodes]
  refine ⟨?_, same⟩
  unfold Run.construct State.construct
  rw [h.size_nodes]
  refine foldl (fun r s entry h => h.holdEntry _ entry) ?_ _
  cases slot with
  | none => exact h.push_node rfl
  | some id => exact h.set_node rfl id

end Alike

/-- A node is constructed from a composite, or from nothing. -/
structure Constructs (r r' : Run) (id : NodeId) (composite : Option CstId) : Prop where
  rest : r' = { r with cst := r'.cst, nodes := r'.nodes, references := r'.references }
  cst : r'.cst = composite.elim r.cst fun c => r.cst.setAst c (some id)
  size : r.nodes.size ≤ r'.nodes.size
  references : ∀ i, cstOfRef? r'.references i = cstOfRef? r.references i

/-- A node in its slot, or behind the others. -/
def insertNode (nodes : Array Node) (slot : Option NodeId) (n : Node) : Array Node :=
  match slot with
  | some slot => nodes.setIfInBounds slot n
  | none => nodes.push n

theorem size_le_insertNode (nodes : Array Node) (slot : Option NodeId) (n : Node) :
    nodes.size ≤ (insertNode nodes slot n).size := by
  cases slot <;> simp [insertNode]

theorem cstOf?_insertNode {nodes : Array Node} {slot : Option NodeId} (inRange : ∀ id ∈ slot, id < nodes.size)
    (n : Node) (i : NodeId) :
    cstOf? (insertNode nodes slot n) i = if i = slot.getD nodes.size then n.cst else cstOf? nodes i := by
  cases slot with
  | none =>
    simp only [insertNode, cstOf?, Array.getElem?_push, Option.getD_none]
    split <;> rfl
  | some id =>
    have inRange := inRange id rfl
    simp only [insertNode, cstOf?, Array.getElem?_setIfInBounds, Option.getD_some]
    by_cases self : id = i
    · subst self
      simp [inRange]
    · simp [self, Ne.symm self]

theorem exists_construct (r : Run) (plan : Plan) (type : TypeId) (p : Properties) (slot : Option NodeId)
    (composite : Option CstId) :
    ∃ filled, Rehangs { r with
        nodes := insertNode r.nodes slot {
          type, properties := withDefaults plan.grammar.types type p, cst := composite } } filled ∧
      r.construct plan type p slot composite =
        ({ filled with
            cst := composite.elim filled.cst fun c => filled.cst.setAst c (some (slot.getD r.nodes.size)) },
          slot.getD r.nodes.size) := by
  refine ⟨_, Rehangs.foldl (fun run entry => Rehangs.holdEntry (slot.getD r.nodes.size) run entry) _
    (withDefaults plan.grammar.types type p).entries, ?_⟩
  cases slot <;> cases composite <;> rfl

theorem constructs (r : Run) (plan : Plan) (type : TypeId) (p : Properties) (slot : Option NodeId)
    (composite : Option CstId) :
    Constructs r (r.construct plan type p slot composite).1 (r.construct plan type p slot composite).2
      composite := by
  obtain ⟨filled, hung, eq⟩ := exists_construct r plan type p slot composite
  rw [eq]
  have cst : filled.cst = r.cst := by rw [hung.rest]
  refine ⟨?_, ?_, ?_, fun i => hung.references i⟩
  · dsimp only
    rw [hung.rest]
  · dsimp only
    rw [cst]
  · dsimp only
    rw [hung.size]
    exact size_le_insertNode _ _ _

/-- The new node has the composite, and the others have theirs. -/
theorem cstOf?_construct {r : Run} {slot : Option NodeId} (inRange : ∀ id ∈ slot, id < r.nodes.size)
    (plan : Plan) (type : TypeId) (p : Properties) (composite : Option CstId) (i : NodeId) :
    cstOf? (r.construct plan type p slot composite).1.nodes i =
      if i = slot.getD r.nodes.size then composite else cstOf? r.nodes i := by
  obtain ⟨filled, hung, eq⟩ := exists_construct r plan type p slot composite
  rw [eq]
  exact (hung.nodes i).trans (cstOf?_insertNode inRange _ i)

/-- The new node has the source tree, which it owns, and the others have theirs. -/
theorem sourceOf?_construct {s : State} {slot : Option NodeId} (inRange : ∀ id ∈ slot, id < s.nodes.size)
    (plan : Plan) (type : TypeId) (p : Properties) (source : Option SourceTree) (i : NodeId) :
    sourceOf? (s.construct plan type p slot source).1.nodes i =
      if i = slot.getD s.nodes.size then source.map (·.withOwner (some (slot.getD s.nodes.size)))
      else sourceOf? s.nodes i := by
  have gains := gains_construct plan type p source inRange
  split
  · next self =>
    obtain ⟨m, found, same⟩ := gains.self
    rw [self]
    exact (sourceOf?_of_found found).trans (AstNode.source_of_unplaced same)
  · next other => exact SameAt.source (gains.other i other)

theorem sourceOfRef?_construct {s : State} {slot : Option NodeId} (inRange : ∀ id ∈ slot, id < s.nodes.size)
    (plan : Plan) (type : TypeId) (p : Properties) (source : Option SourceTree) (i : RefId) :
    sourceOfRef? (s.construct plan type p slot source).1.references i = sourceOfRef? s.references i := by
  have same := (gains_construct plan type p source inRange).references i
  unfold sourceOfRef?
  have sources : ∀ q : Option Reference, q.map (·.source) = (q.map Reference.unplaced).map (·.source) := by
    intro q
    cases q <;> rfl
  rw [sources, same, ← sources]

/-- Both arenas get a node for the tree `t`, which the composite `c` shows, if the tree has an owner. The
node was free, and none of the frames waits for it. -/
structure Builds (frames : List Frame) (s s₂ : State) (r r₂ : Run) (c : CstId) (t : SourceTree) : Prop where
  arenas : Alike r₂.nodes r₂.references s₂.nodes s₂.references
  nodes : ∀ i, cstOf? r₂.nodes i = (if t.owner = some i then some c else cstOf? r.nodes i) ∧
    sourceOf? s₂.nodes i = if t.owner = some i then some t else sourceOf? s.nodes i
  references : ∀ i, cstOfRef? r₂.references i = cstOfRef? r.references i ∧
    sourceOfRef? s₂.references i = sourceOfRef? s.references i
  free : ∀ i, t.owner = some i → cstOf? r.nodes i = none ∧ i ∉ frames.flatMap (·.slot?.toList)
  size : r.nodes.size ≤ r₂.nodes.size

theorem Builds.refl {frames : List Frame} {s : State} {r : Run} {t : SourceTree}
    (alike : Alike r.nodes r.references s.nodes s.references) (unowned : t.owner = none) (c : CstId) :
    Builds frames s s r r c t where
  arenas := alike
  nodes i := by
    rw [unowned]
    exact ⟨rfl, rfl⟩
  references _ := ⟨rfl, rfl⟩
  free i owner := by
    rw [unowned] at owner
    cases owner
  size := Nat.le_refl _

/-! ### Mirroring -/

/-- The objects under construction take over nodes that have no composite, each its own. -/
structure Waiting (nodes : Array Node) (frames : List Frame) : Prop where
  once : (frames.flatMap (·.slot?.toList)).Nodup
  free : ∀ id ∈ frames.flatMap (·.slot?.toList), id < nodes.size ∧ cstOf? nodes id = none

namespace Waiting

variable {nodes nodes₂ : Array Node} {f : Frame} {frames : List Frame} {o : Object}

theorem tail (h : Waiting nodes (f :: frames)) : Waiting nodes frames where
  once := (List.nodup_append'.1 (List.flatMap_cons ▸ h.once)).2.1
  free id mem := h.free id (by
    rw [List.flatMap_cons]
    exact List.mem_append_right _ mem)

/-- The place that an object takes over is free, and no other object waits for it. -/
theorem fresh (h : Waiting nodes (f :: frames)) (content : f.content = .object o) :
    (∀ id ∈ o.slot, id < nodes.size) ∧ cstOf? nodes (o.slot.getD nodes.size) = none ∧
      o.slot.getD nodes.size ∉ frames.flatMap (·.slot?.toList) := by
  have slot : f.slot? = o.slot := by simp [Frame.slot?, content]
  have once := h.once
  have free := h.free
  rw [List.flatMap_cons, slot] at once free
  cases isSlot : o.slot with
  | none =>
    refine ⟨nofun, by simp [cstOf?], fun mem => ?_⟩
    exact Nat.lt_irrefl _ (free _ (List.mem_append_right _ mem)).1
  | some id =>
    rw [isSlot] at once free
    obtain ⟨inRange, noCst⟩ := free id (by simp)
    refine ⟨by rintro _ ⟨⟩; exact inRange, noCst, ?_⟩
    simpa using (List.nodup_cons.1 once).1

theorem mono (h : Waiting nodes frames) (size : nodes.size ≤ nodes₂.size)
    (same : ∀ id ∈ frames.flatMap (·.slot?.toList), cstOf? nodes₂ id = cstOf? nodes id) :
    Waiting nodes₂ frames where
  once := h.once
  free id mem := ⟨(h.free id mem).1.trans_le size, (same id mem).trans (h.free id mem).2⟩

/-- A node that loses its composite becomes the place of one more object. -/
theorem takeOver (h : Waiting nodes frames) {n : NodeId} (inRange : n < nodes.size)
    (used : cstOf? nodes n ≠ none) (size : nodes₂.size = nodes.size)
    (freed : ∀ j, cstOf? nodes₂ j = if j = n then none else cstOf? nodes j) (slot : f.slot? = some n) :
    Waiting nodes₂ (f :: frames) := by
  have apart : n ∉ frames.flatMap (·.slot?.toList) := fun mem => used (h.free n mem).2
  refine ⟨?_, ?_⟩
  · rw [List.flatMap_cons, slot]
    exact List.nodup_cons.2 ⟨apart, h.once⟩
  · intro id mem
    rw [List.flatMap_cons, slot] at mem
    rw [freed, size]
    rcases List.mem_cons.1 mem with rfl | mem
    · exact ⟨inRange, if_pos rfl⟩
    · rw [if_neg (ne_of_mem_of_not_mem mem apart)]
      exact h.free id mem

end Waiting

/-- The concrete tree of a run shows what the frames hold, and nodes and references point at it. -/
structure Drawn (opened : List Opened) (frames : List Frame) (nodes' : Array AstNode)
    (references' : Array Reference) (a : Cst) (nodes : Array Node) (references : Array Ref)
    (ids : List CstId) : Prop where
  grown : Grown a opened frames ids
  tied : Tied a ids nodes references nodes' references'
  waiting : Waiting nodes frames

theorem Waiting.of_slot {nodes : Array Node} {f f' : Frame} {frames : List Frame}
    (h : Waiting nodes (f :: frames)) (slot : f'.slot? = f.slot?) : Waiting nodes (f' :: frames) := by
  refine ⟨?_, ?_⟩
  · rw [List.flatMap_cons, slot]
    exact h.once
  · rw [List.flatMap_cons, slot]
    exact h.free

/-- The content of a frame may change, as long as its object takes over the same node. -/
theorem Drawn.frame {o : Opened} {opened : List Opened} {f f' : Frame} {frames : List Frame}
    {nodes' : Array AstNode} {references' : Array Reference} {a : Cst} {nodes : Array Node}
    {references : Array Ref} {ids : List CstId}
    (h : Drawn (o :: opened) (f :: frames) nodes' references' a nodes references ids) (rule : f'.rule = f.rule)
    (children : f'.children = f.children) (slot : f'.slot? = f.slot?) :
    Drawn (o :: opened) (f' :: frames) nodes' references' a nodes references ids :=
  ⟨h.grown.of_frame rule children, h.tied, h.waiting.of_slot slot⟩

/-- A run mirrors a state of the interpreter, with the frames of the callers below. -/
structure Mirrors (opened : List Opened) (below : List Frame) (s : State) (r : Run) : Prop where
  stream : r.stream = s.stream
  composites : r.composites = opened.map (·.id)
  frames : r.frames = s.frame.content :: below.map (·.content)
  rules : r.rules = s.frame.rule :: below.map (·.rule)
  arenas : Alike r.nodes r.references s.nodes s.references
  errors : r.errors = s.errors
  recovering : r.recovering = s.recovering
  straight : ¬ Astray s
  drawn : ∃ ids, Drawn opened (s.frame :: below) s.nodes s.references r.cst r.nodes r.references ids

/-- Besides, a composite or leaf shows a source tree. -/
structure Hands (opened : List Opened) (below : List Frame) (s : State) (r : Run) (c : CstId)
    (t : SourceTree) : Prop extends Mirrors opened below s r where
  handed : ∃ ids, Pointed r.cst ids c t ∧
    Drawn opened (s.frame :: below) s.nodes s.references r.cst r.nodes r.references ids

namespace Mirrors

variable {plan : Plan} {o : Opened} {opened : List Opened} {below : List Frame} {s : State} {r : Run}

section Steps

variable (h : Mirrors (o :: opened) below s r)

include h

theorem note {incident : Incident} (harmless : incident ≠ .adoptionOutsideObject) :
    Mirrors (o :: opened) below (s.note incident) r :=
  { h with straight := fun astray => h.straight ((List.mem_cons.1 astray).resolve_left harmless.symm) }

theorem settle (recovering : Bool) :
    Mirrors (o :: opened) below { s with recovering } { r with recovering } :=
  { h with recovering := rfl }

theorem record (problem : ParseProblem) :
    Mirrors (o :: opened) below (s.record plan problem) (r.record plan problem) := by
  refine { h with errors := ?_ }
  unfold State.record Run.record State.currentRange Run.currentRange
  rw [h.stream, h.rules, h.errors]
  rfl

theorem raise (problem : ParseProblem) :
    Mirrors (o :: opened) below (s.raise plan problem) (r.raise plan problem) := by
  unfold State.raise Run.raise
  rw [h.recovering]
  split
  · exact h
  · exact h.record problem

theorem report (expected : FirstSet) :
    Mirrors (o :: opened) below (s.report plan expected) (r.report plan expected) :=
  (h.raise _).settle true

theorem nextOffset : r.nextOffset plan = s.nextOffset plan := by
  cases next : s.stream.peek? <;> simp only [Run.nextOffset, State.nextOffset, h.stream, next]

/-- The content of the invocation under way may change, as long as its object takes over the same node. -/
theorem content (c : Content) (slot : (Frame.slot? { s.frame with content := c }) = s.frame.slot?) :
    Mirrors (o :: opened) below { s with frame := { s.frame with content := c } }
      { r with frames := c :: r.frames.tail } where
  stream := h.stream
  composites := h.composites
  frames := by
    rw [h.frames]
    rfl
  rules := h.rules
  arenas := h.arenas
  errors := h.errors
  recovering := h.recovering
  straight := h.straight
  drawn := by
    obtain ⟨ids, drawn⟩ := h.drawn
    exact ⟨ids, drawn.frame rfl rfl slot⟩

theorem collect (text : String) : Mirrors (o :: opened) below (s.collect text) (r.collect text) := by
  have frames := h.frames
  unfold State.collect Run.collect
  rw [frames]
  cases content : s.frame.content with
  | object o => exact h
  | text acc =>
    have changed := h.content (.text (acc ++ text)) (by simp [Frame.slot?, content])
    rw [frames] at changed
    exact changed

theorem assign (feature : String) (op : AssignOp) (value : Value) :
    Mirrors (o :: opened) below (s.assign feature op value) (r.assign feature op value) := by
  have frames := h.frames
  unfold State.assign Run.assign
  rw [frames]
  cases content : s.frame.content with
  | text acc => exact h.note nofun
  | object o =>
    have changed := h.content (.object { o with properties := o.properties.assigned feature op value })
      (by simp [Frame.slot?, content])
    rw [frames] at changed
    exact changed

theorem retag (type : TypeId) : Mirrors (o :: opened) below (s.retag type) (r.retag type) := by
  have frames := h.frames
  unfold State.retag Run.retag
  rw [frames]
  cases content : s.frame.content with
  | text acc => exact h.note nofun
  | object o =>
    dsimp only
    split
    · exact h
    · have changed := h.content (.object { o with type := some type, retagged := true })
        (by simp [Frame.slot?, content])
      rw [frames] at changed
      exact changed

end Steps

/-! ### Tokens -/

theorem top (h : Mirrors (o :: opened) below s r) : r.top = o.id := by
  unfold Run.top
  rw [h.composites]
  rfl

theorem frame_attach (s : State) (trees : List SourceTree) :
    (s.attach trees).frame = s.frame.holding (s.frame.children.toList ++ trees) := by
  simp [State.attach, Frame.holding]

/-- A token becomes a leaf of the invocation under way. -/
theorem addLeaf (h : Mirrors (o :: opened) below s r) (token : Token) (feature : Option String) :
    Hands (o :: opened) below (s.attach [.leaf token feature]) (r.addLeaf token feature) r.cst.nodes.size
      (.leaf token feature) := by
  have grows : ∃ ids, Pointed (r.addLeaf token feature).cst ids r.cst.nodes.size (.leaf token feature) ∧
      Drawn (o :: opened) ((s.attach [.leaf token feature]).frame :: below) s.nodes s.references
        (r.addLeaf token feature).cst r.nodes r.references ids := by
    obtain ⟨ids, drawn⟩ := h.drawn
    obtain ⟨ids', grown, within, point⟩ := drawn.grown.addLeaf token feature
    rw [frame_attach]
    have cst : (r.addLeaf token feature).cst = (r.cst.addLeaf o.id token feature).1 := by
      rw [← h.top]
      rfl
    rw [cst]
    exact ⟨ids', point, grown, drawn.tied.grow (drawn.grown.pushChild_keeps _) within
      (drawn.grown.pushChild_astsFrom _ rfl), drawn.waiting.of_slot rfl⟩
  exact { h with
    drawn := grows.imp fun _ => And.right
    handed := grows }

theorem addLeaves (h : Mirrors (o :: opened) below s r) (tokens : List Token) :
    Mirrors (o :: opened) below (s.attach (tokens.map (.leaf · none)))
      (tokens.foldl (fun r token => r.addLeaf token none) r) := by
  induction tokens generalizing s r with
  | nil =>
    rw [List.map_nil, attach_nil]
    exact h
  | cons token tokens ih =>
    have rest := ih (h.addLeaf token none).toMirrors
    have eq : (s.attach [.leaf token none]).attach (tokens.map (.leaf · none)) =
        s.attach ((token :: tokens).map (.leaf · none)) := by
      simp [State.attach]
    rw [eq] at rest
    exact rest

theorem flushHidden (h : Mirrors (o :: opened) below s r) :
    Mirrors (o :: opened) below s.flushHidden r.flushHidden := by
  unfold State.flushHidden Run.flushHidden
  rw [h.stream]
  exact h.addLeaves _

end Mirrors

/-- What is left after a token was to be taken. -/
structure Taken (opened : List Opened) (below : List Frame) (feature : Option String)
    (out : State × Option Token) (out' : Run × Option (Token × CstId)) : Prop where
  mirrors : Mirrors opened below out.1 out'.1
  token : out.2 = out'.2.map (·.1)
  handed : ∀ t c, out'.2 = some (t, c) → Hands opened below out.1 out'.1 c (.leaf t feature)

namespace Mirrors

variable {plan : Plan} {o : Opened} {opened : List Opened} {below : List Frame} {s : State} {r : Run}

theorem consume (h : Mirrors (o :: opened) below s r) (feature : Option String) :
    Taken (o :: opened) below feature (s.consume feature) (r.consume feature) := by
  unfold State.consume Run.consume
  rw [h.stream]
  cases next : s.stream.next? with
  | none => exact ⟨h, rfl, nofun⟩
  | some taken =>
    obtain ⟨hidden, token, rest⟩ := taken
    obtain rfl := TokenStream.hidden_of_next? next
    have last := h.flushHidden.addLeaf token feature
    have eq : { s.flushHidden.attach [.leaf token feature] with stream := rest } =
        State.attach (s.stream.hiddenFront.map (.leaf · none) ++ [.leaf token feature])
          { s with stream := rest } := by
      simp [State.flushHidden, State.attach]
    have moved : Hands (o :: opened) below { s.flushHidden.attach [.leaf token feature] with stream := rest }
        { r.flushHidden.addLeaf token feature with stream := rest } r.flushHidden.cst.nodes.size
        (.leaf token feature) := { last with stream := rfl }
    rw [eq] at moved
    refine ⟨moved.toMirrors, rfl, ?_⟩
    rintro t c ⟨⟩
    exact moved

theorem expect (h : Mirrors (o :: opened) below s r) (accepts : Token → Bool) (problem : ParseProblem)
    (feature : Option String) :
    Taken (o :: opened) below feature (s.expect plan accepts problem feature)
      (r.expect plan accepts problem feature) := by
  have raised : Mirrors _ _ _ (r.raise plan problem) := h.raise problem
  unfold State.expect Run.expect
  rw [congrArg TokenStream.peek? h.stream]
  dsimp only
  split
  · exact (h.settle false).consume feature
  · rw [congrArg TokenStream.second? raised.stream]
    split
    · exact ((raised.consume none).mirrors.settle false).consume feature
    · exact ⟨raised.settle true, rfl, nofun⟩

/-! ### References -/

/-- A reference is made to what has been shown last. -/
theorem makeReference {c : CstId} {t : SourceTree} (h : Hands (o :: opened) below s r c t)
    (unowned : t.owner = none) (feature : String) (op : AssignOp) (target : TypeId) (text : String) :
    Mirrors (o :: opened) below (Interpreter.makeReference feature op target text t s)
      (Engine.makeReference feature op target text c r) := by
  unfold Interpreter.makeReference Engine.makeReference
  dsimp only
  rw [h.arenas.size_references]
  refine assign ?_ feature op _
  refine { h with arenas := h.arenas.push_reference rfl, drawn := ?_ }
  obtain ⟨ids, point, drawn⟩ := h.handed
  refine ⟨ids, drawn.grown, ⟨drawn.tied.ofNode, fun i => ?_, drawn.tied.linked⟩, drawn.waiting⟩
  have old := drawn.tied.ofReference i
  simp only [cstOfRef?, sourceOfRef?, Array.getElem?_push] at old ⊢
  rw [← h.arenas.size_references]
  split
  · exact .some ⟨unowned, point⟩
  · exact old

/-! ### Invocations -/

/-- A composite and a frame are opened. -/
theorem enter (h : Mirrors (o :: opened) below s r) (id : RuleId) (kind : RuleKind) (feature : Option String) :
    Mirrors (⟨r.cst.nodes.size, .empty (s.nextOffset plan), feature⟩ :: o :: opened) (s.frame :: below)
      { s with frame := Frame.enter id kind } (enter plan id kind feature r) := by
  have rule : (Frame.enter id kind).rule = id := by cases kind <;> rfl
  have children : (Frame.enter id kind).children = #[] := by cases kind <;> rfl
  have slot : (Frame.enter id kind).slot? = none := by cases kind <;> rfl
  unfold Engine.enter
  rw [h.top, h.nextOffset]
  refine { h with
    composites := congrArg _ h.composites
    frames := congrArg _ h.frames
    rules := ?_
    drawn := ?_ }
  · dsimp only
    rw [rule, h.rules]
    rfl
  · obtain ⟨ids, drawn⟩ := h.drawn
    refine ⟨ids, drawn.grown.addComposite id feature _ rule children,
      drawn.tied.grow (drawn.grown.pushChild_keeps _) (List.Subset.refl _)
        (drawn.grown.pushChild_astsFrom _ rfl), ?_⟩
    refine ⟨?_, ?_⟩
    · rw [List.flatMap_cons, slot]
      exact drawn.waiting.once
    · rw [List.flatMap_cons, slot]
      exact drawn.waiting.free

end Mirrors

/-- A finished object is built from its tree. -/
theorem builds_constructObject {s : State} {r : Run} {f : Frame} {frames : List Frame} {o : Object}
    (plan : Plan) (alike : Alike r.nodes r.references s.nodes s.references)
    (waiting : Waiting r.nodes (f :: frames)) (content : f.content = .object o) {t : SourceTree}
    (branch : t.isBranch = true) (unowned : t.owner = none) (c : CstId) :
    (r.constructObject plan o (some c)).2 = (s.constructObject plan o (some t)).2 ∧
      Builds frames s (s.constructObject plan o (some t)).1 r (r.constructObject plan o (some c)).1 c
        (t.withOwner (s.constructObject plan o (some t)).2) ∧
      (r.constructObject plan o (some c)).1.cst =
        (s.constructObject plan o (some t)).2.elim r.cst fun id => r.cst.setAst c (some id) := by
  unfold Run.constructObject State.constructObject
  cases o.type with
  | none =>
    refine ⟨rfl, .refl alike ?_ c, rfl⟩
    rw [SourceTree.withOwner_owner unowned]
    exact unowned
  | some type =>
    obtain ⟨inRange, free, other⟩ := waiting.fresh content
    have inRange' : ∀ id ∈ o.slot, id < s.nodes.size := by
      rw [← alike.size_nodes]
      exact inRange
    obtain ⟨arenas, same⟩ := alike.construct plan type o.properties o.slot (some c) (some t)
    have built := constructs r plan type o.properties o.slot (some c)
    have isId : (s.construct plan type o.properties o.slot (some t)).2 = o.slot.getD r.nodes.size := by
      rw [alike.size_nodes]
      rfl
    have owner : (t.withOwner (some (o.slot.getD r.nodes.size))).owner = some (o.slot.getD r.nodes.size) :=
      SourceTree.owner_withOwner branch _
    refine ⟨congrArg some same, ?_, ?_⟩
    · dsimp only
      rw [isId]
      refine ⟨arenas, fun i => ⟨?_, ?_⟩, fun i => ⟨built.references i, ?_⟩, ?_, built.size⟩
      · rw [cstOf?_construct inRange, owner]
        simp only [Option.some.injEq, eq_comm]
      · rw [sourceOf?_construct inRange', owner, ← alike.size_nodes]
        simp only [Option.some.injEq, eq_comm]
        rfl
      · exact sourceOfRef?_construct inRange' plan type o.properties (some t) i
      · intro i isOwner
        obtain rfl := Option.some.inj (owner.symm.trans isOwner)
        exact ⟨free, other⟩
    · dsimp only
      rw [built.cst, same]
      rfl

/-- A finished object without a tree changes no source tree. -/
theorem constructObject_none {s : State} {r : Run} {f : Frame} {frames : List Frame} {o : Object} {a : Cst}
    {ids : List CstId} (plan : Plan) (alike : Alike r.nodes r.references s.nodes s.references)
    (waiting : Waiting r.nodes (f :: frames)) (content : f.content = .object o)
    (tied : Tied a ids r.nodes r.references s.nodes s.references) :
    (r.constructObject plan o none).2 = (s.constructObject plan o none).2 ∧
      Alike (r.constructObject plan o none).1.nodes (r.constructObject plan o none).1.references
        (s.constructObject plan o none).1.nodes (s.constructObject plan o none).1.references ∧
      (r.constructObject plan o none).1.cst = r.cst ∧
      Tied a ids (r.constructObject plan o none).1.nodes (r.constructObject plan o none).1.references
        (s.constructObject plan o none).1.nodes (s.constructObject plan o none).1.references ∧
      Waiting (r.constructObject plan o none).1.nodes frames := by
  unfold Run.constructObject State.constructObject
  cases o.type with
  | none => exact ⟨rfl, alike, rfl, tied, waiting.tail⟩
  | some type =>
    obtain ⟨inRange, free, other⟩ := waiting.fresh content
    have inRange' : ∀ id ∈ o.slot, id < s.nodes.size := by
      rw [← alike.size_nodes]
      exact inRange
    have noSource : sourceOf? s.nodes (o.slot.getD r.nodes.size) = none := by
      have rel := tied.ofNode (o.slot.getD r.nodes.size)
      rw [free] at rel
      cases source : sourceOf? s.nodes (o.slot.getD r.nodes.size) with
      | none => rfl
      | some t =>
        rw [source] at rel
        cases rel
    obtain ⟨arenas, same⟩ := alike.construct plan type o.properties o.slot none none
    have built := constructs r plan type o.properties o.slot none
    have nodes : ∀ i, cstOf? (r.construct plan type o.properties o.slot none).1.nodes i = cstOf? r.nodes i := by
      intro i
      rw [cstOf?_construct inRange]
      split
      · next self => rw [self, free]
      · rfl
    refine ⟨congrArg some same, arenas, built.cst, tied.congr (fun i => ⟨nodes i, ?_⟩)
      (fun i => ⟨built.references i, sourceOfRef?_construct inRange' plan type o.properties none i⟩),
      waiting.tail.mono built.size fun id _ => nodes id⟩
    rw [sourceOf?_construct inRange', ← alike.size_nodes]
    split
    · next self =>
      rw [self, noSource]
      rfl
    · rfl

theorem rest_constructObject (plan : Plan) (o : Object) (composite : Option CstId) (r : Run) :
    (r.constructObject plan o composite).1 = { r with
      cst := (r.constructObject plan o composite).1.cst
      nodes := (r.constructObject plan o composite).1.nodes
      references := (r.constructObject plan o composite).1.references } := by
  unfold Run.constructObject
  cases o.type with
  | none => rfl
  | some type => exact (constructs r plan type o.properties o.slot composite).rest

theorem givesAst_setAst (a : Cst) (c : CstId) (ast : Option NodeId) : GivesAst a (a.setAst c ast) c ast := by
  refine ⟨rfl, fun d => ?_⟩
  rw [setAst, node?_update]
  simp only [eq_comm]

theorem givesAst_elim {a b : Cst} {c : CstId} {n : CstNode} (found : a.node? c = some n) (none : n.ast = none)
    (built : Option NodeId) (eq : b = built.elim a fun id => a.setAst c (some id)) : GivesAst a b c built := by
  subst eq
  cases built with
  | none =>
    refine ⟨rfl, fun d => ?_⟩
    split
    · next self =>
      rw [self, Option.elim_none, found, Option.map_some, ← none]
    · rfl
  | some id => exact givesAst_setAst a c (some id)

namespace Mirrors

variable {plan : Plan} {o g : Opened} {opened : List Opened} {caller : Frame} {below : List Frame}
  {s s₂ : State} {r r₂ : Run}

/-- The invocation under way is over, its composite is kept, and perhaps a node was built from it. -/
theorem closed (h : Mirrors (o :: g :: opened) (caller :: below) s r) (some : s.frame.children.toList ≠ [])
    {owner : Option NodeId} {t : SourceTree}
    (tree : t = .branch s.frame.rule o.feature (SourceTree.coverAll o.range
      (s.frame.children.toList.filter SourceTree.isSubstantial)) owner s.frame.children.toList)
    (left : Finishing { s with frame := caller } s₂) (incidents : s₂.incidents = s.incidents)
    (rest : r₂ = { r with
      cst := r₂.cst, composites := r.composites.tail, frames := r.frames.tail, rules := r.rules.tail
      nodes := r₂.nodes, references := r₂.references })
    (cst : r₂.cst = owner.elim (r.cst.close o.id).1 fun id => (r.cst.close o.id).1.setAst o.id (.some id))
    (builds : Builds (caller :: below) s s₂ r r₂ o.id t) :
    (r.cst.close o.id).2 = true ∧ Hands (g :: opened) below (s₂.attach [t]) r₂ o.id t := by
  obtain ⟨ids, drawn⟩ := h.drawn
  obtain ⟨n, isTop, none⟩ := drawn.grown.close_ast some
  have gives := givesAst_elim isTop none owner cst
  obtain ⟨kept, keeps, asts, ids', grown, within, point⟩ := drawn.grown.close_kept some tree gives
  have owner : t.owner = owner := tree ▸ rfl
  have frame : (s₂.attach [t]).frame = caller.holding (caller.children.toList ++ [t]) := by
    rw [frame_attach, left.frame]
  have handed : ∃ ids, Pointed r₂.cst ids o.id t ∧ Drawn (g :: opened) ((s₂.attach [t]).frame :: below)
      s₂.nodes s₂.references r₂.cst r₂.nodes r₂.references ids := by
    rw [frame]
    refine ⟨ids', point, grown, drawn.tied.construct keeps within asts point (fun i own => (builds.free i own).1)
      builds.nodes builds.references, ?_⟩
    refine (drawn.waiting.tail.mono builds.size fun id mem => ?_).of_slot rfl
    rw [(builds.nodes id).1, if_neg fun own => (builds.free id own).2 mem]
  refine ⟨kept, ⟨?_, ?_, ?_, ?_, builds.arenas, ?_, ?_, ?_, handed.imp fun _ => And.right⟩, handed⟩
  · rw [rest]
    exact h.stream.trans left.stream.symm
  · rw [rest]
    exact congrArg List.tail h.composites
  · rw [rest, frame]
    exact congrArg List.tail h.frames
  · rw [rest, frame]
    exact congrArg List.tail h.rules
  · rw [rest]
    exact h.errors.trans left.errors.symm
  · rw [rest]
    exact h.recovering.trans left.recovering.symm
  · intro astray
    refine h.straight ?_
    unfold Astray at astray ⊢
    rwa [incidents_attach, incidents] at astray

/-- The invocation under way is over, and it has taken no token. -/
theorem dropped (h : Mirrors (o :: g :: opened) (caller :: below) s r) (empty : s.frame.children.toList = []) :
    (r.cst.close o.id).2 = false ∧ Mirrors (g :: opened) below { s with frame := caller }
      { r with
        cst := (r.cst.close o.id).1, composites := r.composites.tail, frames := r.frames.tail
        rules := r.rules.tail } := by
  obtain ⟨ids, drawn⟩ := h.drawn
  obtain ⟨detached, grown, keeps, asts⟩ := drawn.grown.close_empty empty
  refine ⟨detached, { h with
    composites := congrArg List.tail h.composites
    frames := congrArg List.tail h.frames
    rules := congrArg List.tail h.rules
    drawn := ⟨ids, grown, drawn.tied.grow keeps (List.Subset.refl _) asts, drawn.waiting.tail⟩ }⟩

end Mirrors

/-- What comes of an invocation: the tree is attached, and the value is the same. -/
structure Returned (opened : List Opened) (below : List Frame) (out : Invoked)
    (back : Run × Option (RuleValue × CstId)) : Prop where
  mirrors : Mirrors opened below (out.state.attach out.tree.toList) back.1
  value : out.value = back.2.map (·.1)
  handed : ∀ v c, back.2 = some (v, c) → ∃ t, out.tree = some t ∧ t.owner = v.node? ∧
    Hands opened below (out.state.attach [t]) back.1 c t

/-- An invocation has left nothing behind. -/
theorem Returned.nothing {opened : List Opened} {below : List Frame} {s : State} {r : Run}
    (h : Mirrors opened below s r) : Returned opened below { state := s } (r, none) where
  mirrors := by
    rw [Option.toList_none, attach_nil]
    exact h
  value := rfl
  handed v c found := by cases found

/-! ### Leaving rules -/

section Leaving

variable {plan : Plan} {s : State} {r : Run} {caller : Frame} {object : Object} {acc : String}

/-- What a collected text stands for when a rule is left. -/
def textValue (acc : String) : RuleKind → Option RuleValue
  | .dataType value => some (.value (value.ofCollected acc))
  | _ => none

theorem leave_of_text (taken : s.frame.children.toList ≠ []) (content : s.frame.content = .text acc)
    (id : RuleId) (kind : RuleKind) (feature : Option String) (offset : Nat) :
    Interpreter.leave plan id kind feature offset caller s = {
      state := { s with frame := caller }
      tree := some (SourceTree.close id feature offset s.frame.children.toList)
      value := textValue acc kind } := by
  unfold Interpreter.leave
  dsimp only
  rw [if_neg (by simpa using taken), content]
  cases kind <;> rfl

/-- Leaving a rule that has taken tokens builds what its object has collected. -/
theorem leave_of_object (taken : s.frame.children.toList ≠ []) (content : s.frame.content = .object object)
    (id : RuleId) (kind : RuleKind) (feature : Option String) (offset : Nat) :
    Interpreter.leave plan id kind feature offset caller s =
      let tree := SourceTree.close id feature offset s.frame.children.toList
      let built := { s with frame := caller }.constructObject plan object (some tree)
      { state := built.1, tree := some (tree.withOwner built.2), value := built.2.map .node } := by
  unfold Interpreter.leave
  dsimp only
  rw [if_neg (by simpa using taken), content]
  dsimp only
  generalize State.constructObject plan object _ _ = out
  obtain ⟨t, built⟩ := out
  cases built <;> rfl

/-- What is left of a run once the invocation under way is over and its composite is closed. -/
def Run.closed (r : Run) (composite : CstId) : Run :=
  { r with
    cst := (r.cst.close composite).1
    composites := r.composites.tail
    frames := r.frames.tail
    rules := r.rules.tail }

theorem leave_of_dropped {c : CstId} {composites : List CstId} {content : Content} {frames : List Content}
    (isTop : r.composites = c :: composites) (under : r.frames = content :: frames)
    (dropped : (r.cst.close c).2 = false) (kind : RuleKind) :
    Engine.leave plan kind r = (r.closed c, none) := by
  unfold Engine.leave Run.closed
  rw [isTop, under]
  dsimp only
  rw [if_neg (by rw [dropped]; exact Bool.false_ne_true)]
  rfl

theorem leave_of_kept_text {c : CstId} {composites : List CstId} {frames : List Content}
    (isTop : r.composites = c :: composites) (under : r.frames = .text acc :: frames)
    (kept : (r.cst.close c).2 = true) (kind : RuleKind) :
    Engine.leave plan kind r = (r.closed c, (textValue acc kind).map (·, c)) := by
  unfold Engine.leave Run.closed
  rw [isTop, under]
  dsimp only
  rw [if_pos kept]
  cases kind <;> rfl

theorem leave_of_kept_object {c : CstId} {composites : List CstId} {frames : List Content}
    (isTop : r.composites = c :: composites) (under : r.frames = .object object :: frames)
    (kept : (r.cst.close c).2 = true) (kind : RuleKind) :
    Engine.leave plan kind r =
      let built := (r.closed c).constructObject plan object (some c)
      (built.1, built.2.map fun n => (.node n, c)) := by
  unfold Engine.leave Run.closed
  rw [isTop, under]
  dsimp only
  rw [if_pos kept]
  rfl

end Leaving

namespace Mirrors

variable {plan : Plan} {o g : Opened} {opened : List Opened} {caller : Frame} {below : List Frame}
  {s s₂ : State} {r r₂ : Run}

theorem leave (h : Mirrors (o :: g :: opened) (caller :: below) s r) {id : RuleId} (rule : s.frame.rule = id)
    {offset : Nat} (range : o.range = .empty offset) {feature : Option String} (isFeature : o.feature = feature)
    (kind : RuleKind) :
    Returned (g :: opened) below (Interpreter.leave plan id kind feature offset caller s)
      (Engine.leave plan kind r) := by
  subst rule isFeature
  have composites : r.composites = o.id :: (g :: opened).map (·.id) := h.composites
  have frames : r.frames = s.frame.content :: (caller :: below).map (·.content) := h.frames
  by_cases empty : s.frame.children.toList = []
  · obtain ⟨detached, mirrors⟩ := h.dropped empty
    have left : Interpreter.leave plan s.frame.rule kind o.feature offset caller s =
        { state := { s with frame := caller } } := by
      unfold Interpreter.leave
      dsimp only
      rw [if_pos (by simpa using empty)]
    rw [left, leave_of_dropped composites frames detached]
    exact .nothing mirrors
  have isBranch : ∀ owner,
      (SourceTree.close s.frame.rule o.feature offset s.frame.children.toList).withOwner owner =
        .branch s.frame.rule o.feature (SourceTree.coverAll o.range
          (s.frame.children.toList.filter SourceTree.isSubstantial)) owner s.frame.children.toList := by
    intro owner
    rw [range]
    rfl
  cases content : s.frame.content with
  | text acc =>
    rw [content] at frames
    have builds : Builds (caller :: below) s { s with frame := caller } r (r.closed o.id) o.id
        (SourceTree.close s.frame.rule o.feature offset s.frame.children.toList) :=
      { Builds.refl h.arenas rfl o.id with }
    obtain ⟨kept, hands⟩ := h.closed empty (isBranch none) (.refl _) rfl rfl rfl builds
    rw [leave_of_text empty content, leave_of_kept_text composites frames kept]
    refine ⟨hands.toMirrors, ?_, fun v c found => ?_⟩
    · cases kind <;> rfl
    · cases kind <;> cases found
      exact ⟨_, rfl, rfl, hands⟩
  | object object =>
    rw [content] at frames
    obtain ⟨ids, drawn⟩ := h.drawn
    let tree := SourceTree.close s.frame.rule o.feature offset s.frame.children.toList
    have finishing := Finishing.constructObject plan { s with frame := caller } object (some tree)
    have incidents := incidents_constructObject plan { s with frame := caller } object (some tree)
    have rest := rest_constructObject plan object (some o.id) (r.closed o.id)
    obtain ⟨same, builds, cst⟩ := builds_constructObject (s := { s with frame := caller }) (r := r.closed o.id)
      plan h.arenas drawn.waiting content (t := tree) rfl rfl o.id
    obtain ⟨kept, hands⟩ := h.closed empty (isBranch _) finishing incidents rest cst { builds with }
    rw [leave_of_object empty content, leave_of_kept_object composites frames kept]
    refine ⟨hands.toMirrors, ?_, fun v c found => ?_⟩
    · dsimp only
      rw [same, Option.map_map]
      rfl
    · obtain ⟨n, isBuilt, ⟨⟩⟩ := Option.map_eq_some_iff.1 found
      refine ⟨_, rfl, ?_, hands⟩
      rw [isBranch, ← same, isBuilt]
      rfl

end Mirrors

/-! ### Adoption -/

/-- A run adopts a node into the object of the invocation under way. -/
theorem adopt_of_held {r : Run} {object : Object} {frames : List Content} {n : NodeId} {node : Node}
    {c : CstId} (under : r.frames = .object object :: frames) (found : r.nodes[n]? = some node)
    (cst : node.cst = some c) :
    r.adopt n = { r with
      frames := .object {
        object with
        type := some node.type
        properties := node.properties.fillFrom object.properties
        slot := some n } :: frames
      nodes := r.nodes.setIfInBounds n { node with properties := .empty, cst := none }
      cst := r.cst.setAst c none } := by
  unfold Run.adopt
  rw [under, found]
  dsimp only
  rw [cst]

/-- A node that loses its composite loses its tree. -/
theorem sources_setIfInBounds {s : State} {r : Run} {n : NodeId} (inRange : n < r.nodes.size)
    (inRange' : n < s.nodes.size) (node : Node) (node' : AstNode) (noCst : node.cst = none)
    (noSource : node'.source = none) (j : NodeId) :
    cstOf? (r.nodes.setIfInBounds n node) j = (if j = n then none else cstOf? r.nodes j) ∧
      sourceOf? (s.nodes.setIfInBounds n node') j = if j = n then none else sourceOf? s.nodes j := by
  simp only [cstOf?, sourceOf?, Array.getElem?_setIfInBounds]
  by_cases self : n = j
  · subst self
    simp [inRange, inRange', noCst, noSource]
  · simp [self, Ne.symm self]

namespace Mirrors

variable {plan : Plan} {o : Opened} {opened : List Opened} {below : List Frame} {s s₂ : State} {r r₂ : Run}

/-- A node is made the object of the invocation under way, and its composite forgets it. -/
theorem adopt {n : NodeId} {c : CstId} {t : SourceTree}
    (h : Hands (o :: opened) below (s.attach [t]) r c t) (owned : t.owner = some n)
    (straight : ¬ Astray ((s.attach [t.withOwner none]).adopt n)) :
    Mirrors (o :: opened) below ((s.attach [t.withOwner none]).adopt n) (r.adopt n) := by
  have frames : r.frames = s.frame.content :: below.map (·.content) := h.frames
  obtain ⟨ids, point, drawn⟩ := h.handed
  obtain ⟨m, isNode, ast⟩ := ast_of_pointed point
  have linked := drawn.tied.linked c m n isNode (ast.trans owned)
  obtain ⟨node, found, cst⟩ := Option.bind_eq_some_iff.1 linked
  have alike := h.arenas.node n
  rw [found] at alike
  obtain ⟨node', found', same⟩ := Option.map_eq_some_iff.1 alike.symm
  cases content : s.frame.content with
  | text acc =>
    refine absurd ?_ straight
    have content : (s.attach [t.withOwner none]).frame.content = .text acc := content
    unfold State.adopt
    rw [content]
    exact List.mem_cons_self
  | object object =>
    have adopted := adopt_of_object (s := s.attach [t.withOwner none]) content found'
    rw [adopted] at straight ⊢
    rw [adopt_of_held (by rw [frames, content]) found cst]
    have type : node.type = node'.type := (congrArg Node.type same).symm
    have properties : node.properties = node'.properties := (congrArg Node.properties same).symm
    have place : node.place = node'.place := (congrArg Node.place same).symm
    have last : (s.attach [t]).frame.children.toList = s.frame.children.toList ++ [t] := by
      simp [frame_attach, Frame.holding]
    obtain ⟨c', m', isLast, ast', disown⟩ := drawn.grown.disown last owned
    obtain rfl : c = c' := Option.some.inj (linked.symm.trans (drawn.tied.linked c' m' n isLast ast'))
    have gives : GivesAst r.cst (r.cst.setAst c none) c none := givesAst_setAst _ _ _
    obtain ⟨grown, others⟩ := disown _ gives
    have inRange : n < r.nodes.size := (Array.getElem?_eq_some_iff.1 found).1
    have taken := sources_setIfInBounds (s := s) inRange (Array.getElem?_eq_some_iff.1 found').1
      { node with properties := .empty, cst := none } { node' with properties := .empty, source := none }
      rfl rfl
    refine { h with
      frames := ?_
      arenas := h.arenas.set_node ?_ n
      straight := straight
      drawn := ⟨ids, grown.of_frame rfl ?_, drawn.tied.adopt isNode (ast.trans owned) gives others taken, ?_⟩ }
    · rw [type, properties]
    · simp [Node.bare, Node.of, type, place]
    · have children := congrArg Frame.children (frame_attach s [t.withOwner none])
      exact children
    · refine drawn.waiting.tail.takeOver inRange ?_ (Array.size_setIfInBounds ..) (fun j => (taken j).1) rfl
      rw [linked]
      exact Option.some_ne_none c

/-- A new object has been started once the node of the one before it is built. -/
theorem restarted (h : Mirrors (o :: opened) below s r) (left : Finishing s s₂)
    (incidents : s₂.incidents = s.incidents) (type : TypeId) (trees : Array SourceTree)
    (rest : r₂ = { r with
      cst := r₂.cst, frames := .object { type := some type, retagged := true } :: r.frames.tail
      nodes := r₂.nodes, references := r₂.references })
    (arenas : Alike r₂.nodes r₂.references s₂.nodes s₂.references) {ids : List CstId}
    (grown : Grown r₂.cst (o :: opened) (s.frame.holding trees.toList :: below) ids)
    (tied : Tied r₂.cst ids r₂.nodes r₂.references s₂.nodes s₂.references)
    (waiting : Waiting r₂.nodes below) :
    Mirrors (o :: opened) below (s₂.restarted type trees) r₂ := by
  have rule : (s₂.restarted type trees).frame.rule = s.frame.rule := by
    change s₂.frame.rule = s.frame.rule
    rw [left.frame]
  refine ⟨?_, ?_, ?_, ?_, arenas, ?_, ?_, ?_, ids, grown.of_frame rule rfl, tied,
    ⟨waiting.once, waiting.free⟩⟩
  · rw [rest]
    exact h.stream.trans left.stream.symm
  · rw [rest]
    exact h.composites
  · rw [rest]
    exact congrArg _ (congrArg List.tail h.frames)
  · rw [rest, rule]
    exact h.rules
  · rw [rest]
    exact h.errors.trans left.errors.symm
  · rw [rest]
    exact h.recovering.trans left.recovering.symm
  · intro astray
    refine h.straight ?_
    unfold Astray at astray ⊢
    rw [← incidents]
    exact astray

end Mirrors

/-! ### Actions -/

section Actions

variable {plan : Plan} {object : Object}

/-- The trees of an invocation are wrapped, and a new object is started. -/
def Run.unwound (r : Run) (composite : CstId) (type : TypeId) (feature : String) : Run :=
  { r with
    cst := (r.cst.wrapChildren composite (some feature)).1
    frames := .object { type := some type, retagged := true } :: r.frames.tail }

theorem wrap_eq_elim {r : Run} {frames : List Content} (under : r.frames = .object object :: frames)
    {c : CstId} (isTop : r.top = c) (type : TypeId) (feature : String) (op : AssignOp) :
    r.wrap plan type feature op =
      let built := (r.unwound c type feature).constructObject plan object
        (r.cst.wrapChildren c (some feature)).2
      built.2.elim built.1 fun id => built.1.assign feature op (.node id) := by
  unfold Run.wrap Run.unwound
  rw [under, isTop]
  dsimp only [List.tail_cons]
  generalize Run.constructObject _ _ _ _ = out
  obtain ⟨t, built⟩ := out
  cases built <;> rfl

theorem wrap_eq_restarted {s : State} (content : s.frame.content = .object object) (type : TypeId)
    (feature : String) (op : AssignOp) :
    s.wrap plan type feature op =
      let built := s.constructObject plan object (State.wrapChildren feature s.frame)
      let started := built.1.restarted type (wrappedTrees s.frame feature built.2)
      built.2.elim started fun id => started.assign feature op (.node id) := by
  rw [wrap_of_object content]
  generalize State.constructObject plan object _ s = out
  obtain ⟨t, built⟩ := out
  cases built <;> rfl

end Actions

namespace Mirrors

variable {plan : Plan} {o : Opened} {opened : List Opened} {below : List Frame} {s : State} {r : Run}
  {object : Object}

/-- There are no trees to wrap. -/
theorem unwrapped (h : Mirrors (o :: opened) below s r) (plan : Plan)
    (content : s.frame.content = .object object) (none : s.frame.children.toList = []) (type : TypeId)
    (feature : String) :
    let built := s.constructObject plan object (State.wrapChildren feature s.frame)
    let built' := (r.unwound o.id type feature).constructObject plan object
      (r.cst.wrapChildren o.id (some feature)).2
    built'.2 = built.2 ∧
      Mirrors (o :: opened) below (built.1.restarted type (wrappedTrees s.frame feature built.2)) built'.1 := by
  obtain ⟨ids, drawn⟩ := h.drawn
  have nothing : State.wrapChildren feature s.frame = .none := by
    unfold State.wrapChildren
    rw [none]
  have kept : ∀ built, wrappedTrees s.frame feature built = s.frame.children := by
    intro built
    unfold wrappedTrees
    rw [nothing]
  have same := drawn.grown.wrap_nil none (some feature)
  obtain ⟨equal, arenas, cst, tied, waiting⟩ := constructObject_none plan
    (r := r.unwound o.id type feature) h.arenas drawn.waiting content drawn.tied
  rw [nothing, same]
  refine ⟨equal, ?_⟩
  have isCst : (r.unwound o.id type feature).cst = r.cst := congrArg Prod.fst same
  rw [kept]
  rw [← isCst, ← cst] at tied
  refine h.restarted (Finishing.constructObject plan s object .none)
    (incidents_constructObject plan s object .none) type _ (rest_constructObject plan object .none _) arenas
    ?_ tied waiting
  rw [cst, isCst]
  exact drawn.grown

/-- The trees of the invocation under way are wrapped, and perhaps a node is built from them. -/
theorem wrapped (h : Mirrors (o :: opened) below s r) (plan : Plan)
    (content : s.frame.content = .object object) {first : SourceTree} {others : List SourceTree}
    (some : s.frame.children.toList = first :: others)
    (type : TypeId) (feature : String) :
    let built := s.constructObject plan object (State.wrapChildren feature s.frame)
    let built' := (r.unwound o.id type feature).constructObject plan object
      (r.cst.wrapChildren o.id (.some feature)).2
    built'.2 = built.2 ∧
      Mirrors (o :: opened) below (built.1.restarted type (wrappedTrees s.frame feature built.2)) built'.1 := by
  obtain ⟨ids, drawn⟩ := h.drawn
  let tree := SourceTree.close s.frame.rule (.some feature) first.range.start (first :: others)
  have wrapped : State.wrapChildren feature s.frame = .some tree := by
    unfold State.wrapChildren
    rw [some]
  have moved : ∀ built, wrappedTrees s.frame feature built = #[tree.withOwner built] := by
    intro built
    unfold wrappedTrees
    rw [wrapped]
    cases built <;> rfl
  obtain ⟨new, ⟨n, isNew, none⟩, wraps⟩ := drawn.grown.wrap some (.some feature)
  obtain ⟨equal, builds, cst⟩ := builds_constructObject (r := r.unwound o.id type feature) plan h.arenas
    drawn.waiting content (t := tree) rfl rfl r.cst.nodes.size
  rw [wrapped, new]
  refine ⟨equal, ?_⟩
  obtain ⟨keeps, asts, ids', grown, within, point⟩ := wraps (t := tree.withOwner _) rfl
    (givesAst_elim isNew none _ cst)
  rw [moved]
  refine h.restarted (Finishing.constructObject plan s object (.some tree))
    (incidents_constructObject plan s object (.some tree)) type _ (rest_constructObject plan object _ _)
    builds.arenas grown (drawn.tied.construct keeps within asts point (fun i own => (builds.free i own).1)
      builds.nodes builds.references) ?_
  refine drawn.waiting.tail.mono builds.size fun id mem => ?_
  rw [(builds.nodes id).1, if_neg fun own => (builds.free id own).2 mem]
  rfl

/-- A finished object is put below a new one. -/
theorem wrap (h : Mirrors (o :: opened) below s r) (type : TypeId) (feature : String) (op : AssignOp) :
    Mirrors (o :: opened) below (s.wrap plan type feature op) (r.wrap plan type feature op) := by
  have frames : r.frames = s.frame.content :: below.map (·.content) := h.frames
  cases content : s.frame.content with
  | text acc =>
    unfold State.wrap Run.wrap
    rw [frames, content]
    exact h.note nofun
  | object object =>
    rw [content] at frames
    rw [wrap_eq_restarted content, wrap_eq_elim frames h.top]
    obtain ⟨equal, mirrors⟩ : _ ∧ _ := by
      cases trees : s.frame.children.toList with
      | nil => exact h.unwrapped plan content trees type feature
      | cons first others => exact h.wrapped plan content trees type feature
    dsimp only
    rw [equal]
    generalize (s.constructObject plan object (State.wrapChildren feature s.frame)).2 = built at mirrors ⊢
    cases built with
    | none => exact mirrors
    | some id => exact mirrors.assign feature op _

end Mirrors

end Engine

end Workbench
