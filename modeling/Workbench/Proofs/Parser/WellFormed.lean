import Workbench.Proofs.Ast
import Workbench.Proofs.Parser.Building

/-!
**Every parse yields a well-formed tree.**

Nodes are built from the bottom up, but they are also opened again: an unassigned call takes over the node
of the called rule, a tree-rewriting action finishes the current object and holds it in a new one, an
assignment may overwrite a child, and after an error the entry rule is run once more on the same object.
Whatever happens, all numbers in the tree are in range, every node and reference is held at one place at
most and knows it, the containers of every node come to an end, and for nodes of the tree that end is the
root.
-/

namespace Workbench

/-! ### Well-formed trees -/

/-- The value stands in a property of the node, at an index if the property is a list. -/
inductive AstNode.HasAt (n : AstNode) (v : Value) : String → Option Nat → Prop where
  | single {property : String} (mem : (property, v) ∈ n.properties.entries) : HasAt n v property none
  | item {property : String} {items : List Value} {i : Nat}
    (mem : (property, .list items) ∈ n.properties.entries) (at_i : items[i]? = some v) :
    HasAt n v property (some i)

namespace Ast

/-- All numbers of nodes and references that a tree stores are in range, also those of nodes that hang
nowhere. -/
structure InRange (a : Ast) : Prop where
  root : a.root < a.nodes.size
  contents : ∀ n ∈ a.nodes, ∀ c ∈ n.contents, c < a.nodes.size
  references : ∀ n ∈ a.nodes, ∀ r ∈ n.references, r < a.references.size
  holders : ∀ n ∈ a.nodes, ∀ place ∈ n.place, place.holder < a.nodes.size
  referenceHolders : ∀ r ∈ a.references, ∀ place ∈ r.place, place.holder < a.nodes.size
  owners : a.source.OwnedBelow a.nodes.size
  nodeOwners : ∀ n ∈ a.nodes, ∀ tree ∈ n.source, tree.OwnedBelow a.nodes.size
  referenceOwners : ∀ r ∈ a.references, r.source.OwnedBelow a.nodes.size

/-- What it means for a tree to be well-formed. -/
structure WellFormed (a : Ast) : Prop where
  inRange : a.InRange
  /-- A node that is held knows where. -/
  nodePlace : ∀ (p : NodeId) n, a.node? p = some n → ∀ c property index,
    n.HasAt (.node c) property index →
    ∃ m, a.node? c = some m ∧ m.place = some ⟨p, property, index⟩
  /-- A reference that is held knows where. -/
  referencePlace : ∀ (p : NodeId) n, a.node? p = some n → ∀ r property index,
    n.HasAt (.reference r) property index →
    ∃ q, a.reference? r = some q ∧ q.place = some ⟨p, property, index⟩
  /-- No node is held at two places. -/
  heldOnce : (a.nodes.toList.flatMap AstNode.contents).Nodup
  /-- No reference is held at two places. -/
  referencedOnce : (a.nodes.toList.flatMap AstNode.references).Nodup
  rootPlace : a.container? a.root = none
  /-- The containers of every node come to an end. -/
  ends : ∀ id, ∃ k, a.climb k id = none
  /-- The containers of a node of the tree end at the root. -/
  endsAtRoot : ∀ id, a.Reachable id → ∃ k, a.climb k id = some a.root
  /-- The walk from the root meets every node of the tree, and meets it once. -/
  walk : a.preorder.Nodup ∧ ∀ id, id ∈ a.preorder ↔ a.Reachable id
  /-- A stream from a node of the tree ends, and it meets what a walk from there meets. -/
  streams : ∀ start, a.Reachable start → ∀ r,
    Loop.Ends (Stream.next a) (.start start) r ↔ r = .ok ⟨a.preorderFrom a.nodes.size start, []⟩
  /-- Nodes of the tree have the lists and truth values that their type declares. -/
  defaults : ∀ id, a.Reachable id → ∃ n, a.node? id = some n ∧
    ∀ entry ∈ a.types.allProperties n.type, entry.2 = .array ∨ entry.2 = .bool →
      (n.get? entry.1).isSome = true

end Ast

/-! ### From sound arenas to well-formed trees -/

namespace Part

def node? : Part → Option NodeId
  | node id => some id
  | reference _ => none

def reference? : Part → Option RefId
  | node _ => none
  | reference id => some id

end Part

theorem Value.nodes_eq (v : Value) : v.nodes = v.parts.filterMap Part.node? := by
  cases v with
  | list items =>
    rw [nodes, parts, List.filterMap_filterMap]
    congr 1
    funext v
    cases v <;> rfl
  | _ => rfl

theorem Value.references_eq (v : Value) : v.references = v.parts.filterMap Part.reference? := by
  cases v with
  | list items =>
    rw [references, parts, List.filterMap_filterMap]
    congr 1
    funext v
    cases v <;> rfl
  | _ => rfl

namespace AstNode

variable {n : AstNode}

theorem contents_eq (n : AstNode) : n.contents = n.properties.parts.filterMap Part.node? := by
  simp [contents, Properties.nodes, Properties.parts, List.filterMap_flatMap, Value.nodes_eq]

theorem references_eq (n : AstNode) :
    n.references = n.properties.parts.filterMap Part.reference? := by
  simp [references, Properties.references, Properties.parts, List.filterMap_flatMap,
    Value.references_eq]

theorem mem_contents_iff {c : NodeId} : c ∈ n.contents ↔ .node c ∈ n.properties.parts := by
  rw [contents_eq, List.mem_filterMap]
  constructor
  · rintro ⟨x, mem, eq⟩
    cases x <;> cases eq
    exact mem
  · exact fun mem => ⟨_, mem, rfl⟩

theorem mem_references_iff {r : RefId} : r ∈ n.references ↔ .reference r ∈ n.properties.parts := by
  rw [references_eq, List.mem_filterMap]
  constructor
  · rintro ⟨x, mem, eq⟩
    cases x <;> cases eq
    exact mem
  · exact fun mem => ⟨_, mem, rfl⟩

theorem nodup_contents (once : n.properties.parts.Nodup) : n.contents.Nodup := by
  rw [contents_eq]
  refine once.filterMap fun x y id left right => ?_
  cases x <;> cases y <;> simp_all [Part.node?]

theorem nodup_references (once : n.properties.parts.Nodup) : n.references.Nodup := by
  rw [references_eq]
  refine once.filterMap fun x y id left right => ?_
  cases x <;> cases y <;> simp_all [Part.reference?]

theorem HasAt.link {v : Value} {x : Part} {property : String} {index : Option Nat}
    (h : n.HasAt v property index) (part : v.part? = some x) (id : NodeId) :
    (x, ⟨id, property, index⟩) ∈ n.properties.links id := by
  cases h with
  | single mem => exact List.mem_flatMap.2 ⟨_, mem, Value.mem_links_iff.2 (.inl ⟨part, rfl⟩)⟩
  | item mem at_i =>
    exact List.mem_flatMap.2 ⟨_, mem,
      Value.mem_links_iff.2 (.inr ⟨_, _, _, rfl, at_i, part, rfl⟩)⟩

end AstNode

namespace Ast

open Arena

def arena (a : Ast) : Arena := ⟨a.nodes, a.references⟩

variable {a : Ast} {types : TypeHierarchy}

/-- What a node of a sound arena holds has its place there. -/
theorem place?_of_mem_parts (sound : a.arena.Sound types) {id : NodeId} {n : AstNode}
    (found : a.nodes[id]? = some n) {x : Part} (mem : x ∈ n.properties.parts) :
    ∃ place, a.arena.place? x = some place ∧ place.holder = id := by
  obtain ⟨place, link⟩ := (Properties.mem_parts_iff id).1 mem
  exact ⟨place, (sound.nodes id n found).linked _ link, Properties.holder_of_mem_links link⟩

theorem exists_node_of_mem_contents {id c : NodeId} (mem : c ∈ a.contents id) :
    ∃ n, a.nodes[id]? = some n ∧ c ∈ n.contents := by
  unfold contents node? at mem
  cases found : a.nodes[id]? with
  | none => simp [found] at mem
  | some n => exact ⟨n, rfl, by simpa [found] using mem⟩

theorem container?_eq (a : Ast) (id : NodeId) :
    a.container? id = (a.arena.place? (.node id)).map (·.holder) := rfl

theorem rooted_of_sound (sound : a.arena.Sound types) (bound : a.root < a.nodes.size)
    (top : a.arena.place? (.node a.root) = none) : a.Rooted where
  container := by
    intro id c mem
    obtain ⟨n, found, mem⟩ := exists_node_of_mem_contents mem
    obtain ⟨place, isPlace, rfl⟩ :=
      place?_of_mem_parts sound found (AstNode.mem_contents_iff.1 mem)
    rw [container?_eq, isPlace]
    rfl
  once := by
    intro id
    unfold contents node?
    cases found : a.nodes[id]? with
    | none => exact List.nodup_nil
    | some n => exact AstNode.nodup_contents (sound.nodes id n found).once
  root_lt := bound
  root := by
    rw [container?_eq, top]
    rfl

/-- Lists of what the nodes hold have no item in common, as it could have one place only. -/
theorem nodup_flatMap_of_sound {α : Type} (sound : a.arena.Sound types) (f : AstNode → List α)
    (part : α → Part) (mem_iff : ∀ n i, i ∈ f n → part i ∈ n.properties.parts)
    (once : ∀ n : AstNode, n.properties.parts.Nodup → (f n).Nodup) :
    (a.nodes.toList.flatMap f).Nodup := by
  rw [List.nodup_flatMap]
  refine ⟨fun n mem => ?_, ?_⟩
  · obtain ⟨id, found⟩ := List.mem_iff_getElem?.1 mem
    rw [Array.getElem?_toList] at found
    exact once n (sound.nodes id n found).once
  · rw [List.pairwise_iff_getElem]
    intro i j bound bound' less x left right
    have found : a.nodes[i]? = some a.nodes.toList[i] := by simp [Array.length_toList ▸ bound]
    have found' : a.nodes[j]? = some a.nodes.toList[j] := by simp [Array.length_toList ▸ bound']
    obtain ⟨place, isPlace, holder⟩ := place?_of_mem_parts sound found (mem_iff _ x left)
    obtain ⟨place', isPlace', holder'⟩ := place?_of_mem_parts sound found' (mem_iff _ x right)
    obtain rfl : place = place' := Option.some.inj (isPlace.symm.trans isPlace')
    have same : i = j := holder.symm.trans holder'
    omega

theorem climb_ends (grounded : ∀ id, a.arena.Grounded id) (id : NodeId) :
    ∃ k, a.climb k id = none := by
  induction grounded id with
  | @intro id above ih =>
    cases isPlace : a.arena.place? (.node id) with
    | none => exact ⟨1, by rw [climb, container?_eq, isPlace]; rfl⟩
    | some place =>
      obtain ⟨k, ends⟩ := ih place isPlace
      exact ⟨k + 1, by rw [climb, container?_eq, isPlace]; exact ends⟩

theorem inRange_of_sound (sound : a.arena.Sound types) (bound : a.root < a.nodes.size)
    (owned : a.source.OwnedBelow a.nodes.size) : a.InRange where
  root := bound
  contents := by
    intro n mem c child
    obtain ⟨id, found⟩ := Array.mem_iff_getElem?.1 mem
    obtain ⟨place, isPlace, -⟩ := place?_of_mem_parts sound found (AstNode.mem_contents_iff.1 child)
    exact has_of_place? isPlace
  references := by
    intro n mem r held
    obtain ⟨id, found⟩ := Array.mem_iff_getElem?.1 mem
    obtain ⟨place, isPlace, -⟩ := place?_of_mem_parts sound found (AstNode.mem_references_iff.1 held)
    exact has_of_place? isPlace
  holders := by
    intro n mem place isPlace
    obtain ⟨id, found⟩ := Array.mem_iff_getElem?.1 mem
    refine sound.holders (.node id) place ?_
    change a.nodes[id]?.bind (·.place) = some place
    rw [found]
    exact isPlace
  referenceHolders := by
    intro r mem place isPlace
    obtain ⟨id, found⟩ := Array.mem_iff_getElem?.1 mem
    refine sound.holders (.reference id) place ?_
    change a.references[id]?.bind (·.place) = some place
    rw [found]
    exact isPlace
  owners := owned
  nodeOwners := by
    intro n mem
    obtain ⟨id, found⟩ := Array.mem_iff_getElem?.1 mem
    exact (sound.nodes id n found).owned
  referenceOwners := by
    intro r mem
    obtain ⟨id, found⟩ := Array.mem_iff_getElem?.1 mem
    exact sound.owned id r found

/-- A sound arena with a complete root that is held nowhere is a well-formed tree. -/
theorem wellFormed_of_sound (sound : a.arena.Sound a.types)
    (complete : a.arena.Complete a.types a.root) (top : a.arena.place? (.node a.root) = none)
    (owned : a.source.OwnedBelow a.nodes.size) : a.WellFormed := by
  have bound : a.root < a.nodes.size := by
    obtain ⟨n, found, -⟩ := complete
    exact (Array.getElem?_eq_some_iff.1 found).1
  have rooted := rooted_of_sound sound bound top
  refine ⟨inRange_of_sound sound bound owned, ?nodePlace, ?referencePlace, ?heldOnce, ?referencedOnce,
    rooted.root, ?ends, ?endsAtRoot, rooted.preorder_spec,
    fun start reachable r => rooted.ends_stream_iff reachable, ?defaults⟩
  case nodePlace =>
    intro p n found c property index held
    have told := (sound.nodes p n found).linked _ (held.link rfl p)
    obtain ⟨m, isNode, place⟩ := Option.bind_eq_some_iff.1 told
    exact ⟨m, isNode, place⟩
  case referencePlace =>
    intro p n found r property index held
    have told := (sound.nodes p n found).linked _ (held.link rfl p)
    obtain ⟨q, isReference, place⟩ := Option.bind_eq_some_iff.1 told
    exact ⟨q, isReference, place⟩
  case heldOnce =>
    exact nodup_flatMap_of_sound sound _ .node (fun n c => AstNode.mem_contents_iff.1)
      fun n => AstNode.nodup_contents
  case referencedOnce =>
    exact nodup_flatMap_of_sound sound _ .reference (fun n r => AstNode.mem_references_iff.1)
      fun n => AstNode.nodup_references
  case ends => exact climb_ends sound.grounded
  case endsAtRoot => exact fun id => rooted.climb_of_reachable
  case defaults =>
    intro id reachable
    have filled : a.arena.Complete a.types id := by
      cases reachable with
      | root => exact complete
      | child above mem =>
        obtain ⟨n, found, mem⟩ := exists_node_of_mem_contents mem
        exact (sound.nodes _ n found).complete id (AstNode.mem_contents_iff.1 mem)
    obtain ⟨n, found, defaults⟩ := filled
    refine ⟨n, found, fun entry mem needed => ?_⟩
    exact Properties.get?_isSome_iff.2 (defaults entry mem needed)

end Ast

namespace Parser

open State Interpreter Arena

/-! ### Parses -/

theorem tidy_opened (p : Parser) (lexed : LexResult) :
    Tidy (p.planFor lexed) {} (p.opened lexed) := by
  have noNodes : (p.opened lexed).arena = ⟨#[], #[]⟩ := rfl
  have noLoose : (p.opened lexed).frame.loose = {} := rfl
  have unplaced : ∀ x, Arena.place? ⟨#[], #[]⟩ x = none := by
    intro x
    cases x <;> simp [Arena.place?]
  refine ⟨?_, ?_⟩
  · rw [noNodes]
    refine ⟨by simp, by simp, fun x place found => ?_, fun id => ⟨fun place found => ?_⟩⟩
    · rw [unplaced] at found
      cases found
    · rw [unplaced] at found
      cases found
  · rw [noNodes, noLoose]
    refine ⟨fun x => Nat.zero_le _, fun x some => ?_, fun x some => ?_, fun c mem => ?_,
      fun tree mem => ?_⟩
    · cases some
    · cases some
    · cases mem
    · cases mem

/-- The object of the invocation under way. -/
def currentObject (s : State) : Object :=
  match s.frame.content with
  | .object o => o
  | .text _ => { type := none }

theorem spare_currentObject {plan : Plan} {s : State} {outer : Loose} (h : Tidy plan outer s) :
    s.arena.Spare plan.grammar.types ((currentObject s).loose ++ outer) := by
  unfold currentObject
  split
  · next o content => exact h.object content
  · exact h.spare.within (Loose.within_append_right _ _)

/-- The source tree of a whole document. -/
def wholeTree (plan : Plan) (s : State) : SourceTree :=
  .branch s.frame.rule none (TextRange.of 0 plan.textEnd) none s.frame.children.toList

/-- The root as it is constructed in the end. -/
def constructRoot (plan : Plan) (s : State) : State × NodeId :=
  s.construct plan ((currentObject s).type.getD plan.grammar.entryType) (currentObject s).properties
    (currentObject s).slot (some (wholeTree plan s))

theorem finish_eq (plan : Plan) (s : State) :
    finish plan s = ((constructRoot plan s.flushHidden).1, {
      types := plan.grammar.types
      nodes := (constructRoot plan s.flushHidden).1.nodes
      references := (constructRoot plan s.flushHidden).1.references
      source := (wholeTree plan s.flushHidden).withOwner (some (constructRoot plan s.flushHidden).2)
      root := (constructRoot plan s.flushHidden).2 }) := rfl

/-- The tree that a tidy state is finished into has a sound arena, with a complete root that is held nowhere. -/
theorem sound_finish {plan : Plan} {s : State} (h : Tidy plan {} s) :
    (finish plan s).2.arena.Sound plan.grammar.types ∧
      (finish plan s).2.arena.Complete plan.grammar.types (finish plan s).2.root ∧
      (finish plan s).2.arena.place? (.node (finish plan s).2.root) = none ∧
      (finish plan s).2.source.OwnedBelow (finish plan s).2.nodes.size := by
  have flushed := h.flushHidden
  rw [finish_eq]
  generalize s.flushHidden = t at flushed
  have whole : (wholeTree plan t).OwnedBelow t.nodes.size := .branch (by simp) flushed.children
  have whole' : ∀ tree ∈ some (wholeTree plan t), tree.OwnedBelow t.nodes.size := by
    rintro _ ⟨⟩
    exact whole
  obtain ⟨built, sound, spare⟩ := construct_spec
    ((currentObject t).type.getD plan.grammar.entryType) flushed.sound (spare_currentObject flushed)
    whole'
  refine ⟨sound, spare.complete _ (List.mem_singleton_self _), built.top, ?_⟩
  refine (whole.mono built.size).withOwner ?_
  rintro _ ⟨⟩
  exact built.bound

/-- The tree that a tidy state is finished into is well-formed. -/
theorem wellFormed_finish {plan : Plan} {s : State} (h : Tidy plan {} s) :
    (finish plan s).2.WellFormed := by
  obtain ⟨sound, complete, top, owned⟩ := sound_finish h
  exact Ast.wellFormed_of_sound sound complete top owned

/-- In the tree that a tidy state is finished into, containers lead to the root. -/
theorem rooted_finish {plan : Plan} {s : State} (h : Tidy plan {} s) : (finish plan s).2.Rooted := by
  obtain ⟨sound, ⟨n, found, -⟩, top, -⟩ := sound_finish h
  exact Ast.rooted_of_sound sound (Array.getElem?_eq_some_iff.1 found).1 top

/-- **Every parse yields a well-formed tree**, whatever the grammar, the limits and the tokens are. -/
theorem wellFormed_parse (p : Parser) (lexed : LexResult) : (p.parse lexed).ast.WellFormed := by
  rw [parse_eq]
  exact wellFormed_finish ((p.reaches_ended lexed).tidy (p.tidy_opened lexed))

/-- In every parsed tree, containers lead to the root. -/
theorem rooted_parse (p : Parser) (lexed : LexResult) : (p.parse lexed).ast.Rooted := by
  rw [parse_eq]
  exact rooted_finish ((p.reaches_ended lexed).tidy (p.tidy_opened lexed))

end Parser

end Workbench
