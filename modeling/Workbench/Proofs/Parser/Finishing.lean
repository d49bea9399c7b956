import Workbench.Proofs.Parser.Arena

/-!
**Finishing a node.**

A finished node takes over the parts of its object and tells each of them where it is held. If these parts
are spare, then it holds nothing that another node holds, the arena stays sound, and the node is spare
itself.
-/

namespace Workbench

namespace Arena

variable {a b : Arena} {x : Part} {id : NodeId} {n : AstNode}

/-! ### Building a node -/

section Insert

variable {slot : Option NodeId}

theorem getElem?_insert_self (inRange : ∀ id ∈ slot, id < a.nodes.size) (n : AstNode) :
    (a.insert slot n).nodes[slot.getD a.nodes.size]? = some n := by
  cases slot with
  | none => simp [insert]
  | some id =>
    have bound : id < a.nodes.size := inRange id rfl
    simp [insert, bound]

theorem getElem?_insert_ne (n : AstNode) {j : NodeId} (other : j ≠ slot.getD a.nodes.size) :
    (a.insert slot n).nodes[j]? = a.nodes[j]? := by
  cases slot with
  | none =>
    have notLast : j ≠ a.nodes.size := other
    simp only [insert, Array.getElem?_push]
    rw [if_neg notLast]
  | some id =>
    have notSlot : id ≠ j := fun same => other same.symm
    simp [insert, notSlot]

theorem size_le_insert (a : Arena) (slot : Option NodeId) (n : AstNode) :
    a.nodes.size ≤ (a.insert slot n).nodes.size := by
  cases slot <;> simp [insert]

theorem references_insert (a : Arena) (slot : Option NodeId) (n : AstNode) :
    (a.insert slot n).references = a.references := by
  cases slot <;> rfl

end Insert

/-- In `b` there is a new node `n` at `id`, told to all that it holds, and all else is as in `a`. -/
structure Built (a b : Arena) (id : NodeId) (n : AstNode) : Prop where
  self : ∃ m, b.nodes[id]? = some m ∧ m.unplaced = n.unplaced
  other : ∀ j, j ≠ id → b.nodes[j]?.map AstNode.unplaced = a.nodes[j]?.map AstNode.unplaced
  references : ∀ j : RefId,
    b.references[j]?.map Reference.unplaced = a.references[j]?.map Reference.unplaced
  size : a.nodes.size ≤ b.nodes.size
  linked : ∀ link ∈ n.properties.links id, b.place? link.1 = some link.2
  kept : ∀ x, x ∉ n.properties.parts → x ≠ .node id → b.place? x = a.place? x
  top : b.place? (.node id) = none

theorem built_insert {slot : Option NodeId} (inRange : ∀ id ∈ slot, id < a.nodes.size)
    (unplaced : n.place = none) (once : n.properties.parts.Nodup)
    (has : ∀ x ∈ n.properties.parts, a.Has x)
    (apart : .node (slot.getD a.nodes.size) ∉ n.properties.parts) :
    Built a ((a.insert slot n).putAll (n.properties.links (slot.getD a.nodes.size)))
      (slot.getD a.nodes.size) n := by
  generalize idEq : slot.getD a.nodes.size = id at apart ⊢
  have self : (a.insert slot n).nodes[id]? = some n := idEq ▸ getElem?_insert_self inRange n
  have others : ∀ j, j ≠ id → (a.insert slot n).nodes[j]? = a.nodes[j]? :=
    fun j other => getElem?_insert_ne n (idEq ▸ other)
  have alike := alike_putAll (a.insert slot n) (n.properties.links id)
  have keys := Properties.map_fst_links id n.properties
  refine ⟨?self, ?other, ?references, ?size, ?linked, ?kept, ?top⟩
  case self => exact alike.node self
  case other =>
    intro j other
    rw [alike.nodes j, others j other]
  case references =>
    intro j
    rw [alike.references j, references_insert]
  case size =>
    refine Nat.le_trans (size_le_insert a slot n) ?_
    by_contra less
    have last : (a.insert slot n).Has
        (.node ((a.insert slot n).putAll (n.properties.links id)).nodes.size) := by
      simpa [Has] using less
    exact Nat.lt_irrefl _ (alike.has last)
  case linked =>
    intro link mem
    refine place?_putAll_of_mem (by rwa [keys]) mem ?_
    have held : link.1 ∈ n.properties.parts := by
      rw [← keys]
      exact List.mem_map_of_mem mem
    have before := has _ held
    cases part : link.1 with
    | node j =>
      rw [part] at before
      exact Nat.lt_of_lt_of_le before (size_le_insert a slot n)
    | reference j =>
      rw [part] at before
      simpa [Has, references_insert] using before
  case kept =>
    intro x notHeld other
    rw [place?_putAll_of_not_mem _ (by rwa [keys])]
    cases x with
    | node j =>
      have ne : j ≠ id := fun same => other (congrArg _ same)
      simp only [place?, others j ne]
    | reference j => simp only [place?, references_insert]
  case top =>
    rw [place?_putAll_of_not_mem _ (by rwa [keys]), place?, self]
    exact unplaced

namespace Built

variable {types : TypeHierarchy}

theorem has (h : Built a b id n) (has : a.Has x) : b.Has x := by
  cases x with
  | node j => exact Nat.lt_of_lt_of_le has h.size
  | reference j =>
    have same := h.references j
    rw [Array.getElem?_eq_getElem (show j < a.references.size from has), Option.map_some,
      Option.map_eq_some_iff] at same
    obtain ⟨r, found, -⟩ := same
    exact (Array.getElem?_eq_some_iff.1 found).1

theorem bound (h : Built a b id n) : id < b.nodes.size := by
  obtain ⟨m, found, -⟩ := h.self
  exact (Array.getElem?_eq_some_iff.1 found).1

theorem node (h : Built a b id n) {j : NodeId} (other : j ≠ id) {m : AstNode}
    (found : b.nodes[j]? = some m) : ∃ m', a.nodes[j]? = some m' ∧ m.unplaced = m'.unplaced := by
  have same := h.other j other
  rw [found, Option.map_some] at same
  obtain ⟨m', found', eq⟩ := Option.map_eq_some_iff.1 same.symm
  exact ⟨m', found', eq.symm⟩

theorem complete_other (h : Built a b id n) {c : NodeId} (other : c ≠ id)
    (complete : a.Complete types c) : b.Complete types c := by
  obtain ⟨m, found, defaults⟩ := complete
  have same := h.other c other
  rw [found, Option.map_some] at same
  obtain ⟨m', found', eq⟩ := Option.map_eq_some_iff.1 same
  refine ⟨m', found', ?_⟩
  rwa [AstNode.type_of_unplaced eq, AstNode.properties_of_unplaced eq]

theorem holds (h : Built a b id n) (held : b.Holds x) : x ∈ n.properties.parts ∨ a.Holds x := by
  obtain ⟨j, m, found, mem⟩ := held
  by_cases same : j = id
  · subst same
    obtain ⟨m', found', eq⟩ := h.self
    obtain rfl : m' = m := Option.some.inj (found'.symm.trans found)
    rw [AstNode.properties_of_unplaced eq] at mem
    exact .inl mem
  · obtain ⟨m', found', eq⟩ := h.node same found
    rw [AstNode.properties_of_unplaced eq] at mem
    exact .inr ⟨j, m', found', mem⟩

theorem holder (h : Built a b id n) {place : Place} (mem : x ∈ n.properties.parts)
    (found : b.place? x = some place) : place.holder = id := by
  obtain ⟨place', link⟩ := (Properties.mem_parts_iff id).1 mem
  have told := h.linked _ link
  obtain rfl : place' = place := Option.some.inj (told.symm.trans found)
  exact Properties.holder_of_mem_links link

theorem grounded (h : Built a b id n) {j : NodeId} (grounded : a.Grounded j) : b.Grounded j := by
  have top : b.Grounded id := ⟨fun place found => by rw [h.top] at found; cases found⟩
  -- the containers of a node lead where they did, until they meet the new node, which has none
  induction grounded with
  | @intro j above ih =>
    refine ⟨fun place found => ?_⟩
    by_cases held : Part.node j ∈ n.properties.parts
    · rw [h.holder held found]
      exact top
    · by_cases same : j = id
      · subst same
        rw [h.top] at found
        cases found
      · rw [h.kept _ held (by simpa using same)] at found
        exact ih place found

/-- A finished node holds what was loose, and is loose itself. -/
theorem sound (h : Built a b id n) (before : a.Sound types)
    (once : n.properties.parts.Nodup) (free : ∀ x ∈ n.properties.parts, ¬ a.Holds x)
    (freeSelf : ¬ a.Holds (.node id)) (apart : .node id ∉ n.properties.parts)
    (complete : ∀ c, .node c ∈ n.properties.parts → a.Complete types c)
    (owned : ∀ tree ∈ n.source, tree.OwnedBelow b.nodes.size) : b.Sound types where
  nodes := by
    intro j m found
    by_cases same : j = id
    · subst same
      obtain ⟨m', found', eq⟩ := h.self
      obtain rfl : m' = m := Option.some.inj (found'.symm.trans found)
      have properties := AstNode.properties_of_unplaced eq
      refine ⟨?once, ?linked, ?complete, ?owned⟩
      case once => rwa [properties]
      case linked =>
        rw [properties]
        exact h.linked
      case complete =>
        rw [properties]
        intro c mem
        have other : c ≠ j := fun same => apart (same ▸ mem)
        exact h.complete_other other (complete c mem)
      case owned =>
        rw [AstNode.source_of_unplaced eq]
        exact owned
    · obtain ⟨m', found', eq⟩ := h.node same found
      have sound := before.nodes j m' found'
      have properties := AstNode.properties_of_unplaced eq
      refine ⟨?once, ?linked, ?complete, ?owned⟩
      case once =>
        rw [properties]
        exact sound.once
      case linked =>
        -- what another node holds was not loose, so it was not told of the new place
        rw [properties]
        intro link mem
        have held : a.Holds link.1 := ⟨j, m', found', (Properties.mem_parts_iff j).2 ⟨_, mem⟩⟩
        rw [h.kept _ (fun given => free _ given held) (fun self => freeSelf (self ▸ held))]
        exact sound.linked link mem
      case complete =>
        rw [properties]
        intro c mem
        have held : a.Holds (.node c) := ⟨j, m', found', mem⟩
        have other : c ≠ id := fun same => freeSelf (same ▸ held)
        exact h.complete_other other (sound.complete c mem)
      case owned =>
        rw [AstNode.source_of_unplaced eq]
        exact fun tree mem => (sound.owned tree mem).mono h.size
  owned := by
    intro j r found
    have same := h.references j
    rw [found, Option.map_some] at same
    obtain ⟨r', found', eq⟩ := Option.map_eq_some_iff.1 same.symm
    rw [← Reference.source_of_unplaced eq]
    exact (before.owned j r' found').mono h.size
  holders := by
    intro x place found
    by_cases held : x ∈ n.properties.parts
    · rw [h.holder held found]
      exact h.bound
    · by_cases same : x = .node id
      · subst same
        rw [h.top] at found
        cases found
      · rw [h.kept x held same] at found
        exact Nat.lt_of_lt_of_le (before.holders x place found) h.size
  grounded := fun j => h.grounded (before.grounded j)

/-- What the node does not hold stays spare. -/
theorem spare_others (h : Built a b id n) {l : Loose} (before : a.Spare types l)
    (others : ∀ x, 0 < l.count x → x ∉ n.properties.parts ∧ x ≠ .node id) : b.Spare types l where
  once := before.once
  free := by
    intro x some held
    rcases h.holds held with given | held
    · exact (others x some).1 given
    · exact before.free x some held
  has := fun x some => h.has (before.has x some)
  complete := by
    intro c mem
    have other : c ≠ id :=
      fun same => (others _ (Loose.count_pos_of_mem mem)).2 (congrArg Part.node same)
    exact h.complete_other other (before.complete c mem)
  owned := fun tree mem => (before.owned tree mem).mono h.size

theorem spare (h : Built a b id n) {l : Loose} (before : a.Spare types l)
    (freeSelf : ¬ a.Holds (.node id)) (apart : .node id ∉ n.properties.parts)
    (others : ∀ x, 0 < l.count x → x ∉ n.properties.parts ∧ x ≠ .node id)
    (complete : ∀ entry ∈ types.allProperties n.type,
      entry.2 = .array ∨ entry.2 = .bool → n.properties.contains entry.1 = true) :
    b.Spare types ({ parts := [.node id] } ++ l) := by
  have new : l.count (.node id) = 0 := by
    by_contra some
    exact (others _ (Nat.pos_of_ne_zero some)).2 rfl
  refine (h.spare_others before others).push new (fun held => ?_) h.bound ?_
  · exact (h.holds held).elim apart freeSelf
  · rintro c ⟨⟩
    obtain ⟨m, found, eq⟩ := h.self
    refine ⟨m, found, ?_⟩
    rwa [AstNode.type_of_unplaced eq, AstNode.properties_of_unplaced eq]

end Built

end Arena

/-- What is loose in an object: its parts and its slot. -/
def Object.loose (o : Object) : Arena.Loose where
  parts := o.properties.parts
  slots := o.slot.toList

namespace State

open Arena

variable {plan : Plan} {s : State} {types : TypeHierarchy} {p : Properties}

/-! ### Constructing -/

theorem arena_hold (s : State) (place : Place) (v : Value) :
    (s.hold place v).arena = s.arena.putAll (v.part?.toList.map (·, place)) := by
  cases v <;> rfl

theorem arena_holdEntry (holder : NodeId) (s : State) (entry : String × Value) :
    (s.holdEntry holder entry).arena = s.arena.putAll (entry.2.links holder entry.1) := by
  have items : ∀ (pairs : List (Value × Nat)) (s : State),
      (pairs.foldl (fun s pair => s.hold ⟨holder, entry.1, some pair.2⟩ pair.1) s).arena =
        s.arena.putAll (pairs.filterMap fun pair =>
          pair.1.part?.map (·, ⟨holder, entry.1, some pair.2⟩)) := by
    intro pairs
    induction pairs with
    | nil => exact fun _ => rfl
    | cons pair rest ih =>
      intro s
      rw [List.foldl_cons, ih, arena_hold]
      cases h : pair.1.part? <;> simp [h, putAll]
  obtain ⟨name, v⟩ := entry
  cases v with
  | list values => exact items values.zipIdx s
  | _ => exact arena_hold s _ _

theorem arena_foldl_holdEntry (holder : NodeId) (p : Properties) (s : State) :
    (p.entries.foldl (holdEntry holder) s).arena = s.arena.putAll (p.links holder) := by
  obtain ⟨entries⟩ := p
  induction entries generalizing s with
  | nil => rfl
  | cons entry rest ih =>
    rw [List.foldl_cons, ih, arena_holdEntry]
    simp [Properties.links, putAll]

/-- The node that is built from an object. -/
def builtNode (types : TypeHierarchy) (type : TypeId) (p : Properties) (id : NodeId)
    (source : Option SourceTree) : AstNode :=
  { type, properties := withDefaults types type p, source := source.map (·.withOwner (some id)) }

/-- Constructing a node puts it into the arena and tells its parts. -/
theorem arena_construct (plan : Plan) (type : TypeId) (p : Properties) (slot : Option NodeId)
    (source : Option SourceTree) (s : State) :
    (s.construct plan type p slot source).1.arena =
      (s.arena.insert slot
        (builtNode plan.grammar.types type p (slot.getD s.nodes.size) source)).putAll
      ((withDefaults plan.grammar.types type p).links (slot.getD s.nodes.size)) := by
  unfold construct
  rw [arena_foldl_holdEntry]
  cases slot <;> rfl

/-! ### Defaults -/

theorem count_withDefaults_le (types : TypeHierarchy) (type : TypeId) (p : Properties) (x : Part) :
    (withDefaults types type p).parts.count x ≤ p.parts.count x := by
  unfold withDefaults
  induction types.allProperties type generalizing p with
  | nil => exact Nat.le_refl _
  | cons entry rest ih =>
    obtain ⟨name, kind⟩ := entry
    refine Nat.le_trans (ih _) ?_
    dsimp only
    split
    · exact Nat.le_refl _
    · cases kind with
      | array => exact p.count_set_le name _ x
      | bool => exact p.count_set_le name _ x
      | value => exact Nat.le_refl _

theorem contains_foldl {β : Type} {f : Properties → β → Properties} {name : String}
    (keeps : ∀ p b, p.contains name = true → (f p b).contains name = true) (l : List β)
    (p : Properties) (h : p.contains name = true) : (l.foldl f p).contains name = true := by
  induction l generalizing p with
  | nil => exact h
  | cons b rest ih => exact ih (f p b) (keeps p b h)

/-- The lists and truth values of the type are there. -/
theorem contains_withDefaults (types : TypeHierarchy) (type : TypeId) (p : Properties) :
    ∀ entry ∈ types.allProperties type, entry.2 = .array ∨ entry.2 = .bool →
      (withDefaults types type p).contains entry.1 = true := by
  unfold withDefaults
  induction types.allProperties type generalizing p with
  | nil => simp
  | cons first rest ih =>
    obtain ⟨name, kind⟩ := first
    intro entry mem needed
    rcases List.mem_cons.1 mem with rfl | mem
    · refine contains_foldl (fun p b present => ?_) rest _ ?_
      · -- a property that is there stays
        split
        split
        · exact present
        · split
          · exact Properties.contains_set _ (.inl present)
          · exact Properties.contains_set _ (.inl present)
          · exact present
      · dsimp only
        split
        · next present => exact present
        · rcases needed with rfl | rfl
          · exact Properties.contains_set _ (.inr rfl)
          · exact Properties.contains_set _ (.inr rfl)
    · exact ih _ entry mem needed

/-! ### Spare parts make a node -/

/-- What it takes to build a node of properties `p` at `id`, with `l` left over. -/
structure Ready (types : TypeHierarchy) (a : Arena) (id : NodeId) (p : Properties) (l : Loose) :
    Prop where
  once : p.parts.Nodup
  free : ∀ x ∈ p.parts, ¬ a.Holds x
  has : ∀ x ∈ p.parts, a.Has x
  complete : ∀ c, .node c ∈ p.parts → a.Complete types c
  apart : .node id ∉ p.parts
  freeSelf : ¬ a.Holds (.node id)
  others : ∀ x, 0 < l.count x → x ∉ p.parts ∧ x ≠ .node id

/-- Spare parts with a spare or a new slot are ready. -/
theorem Ready.of_spare {a : Arena} {slot : Option NodeId} {l : Loose} {q : Properties}
    (sound : a.Sound types)
    (spare : a.Spare types ({ parts := p.parts, slots := slot.toList } ++ l))
    (fewer : ∀ x, q.parts.count x ≤ p.parts.count x) :
    Ready types a (slot.getD a.nodes.size) q l := by
  have total : ∀ x, p.parts.count x + (slot.toList.map Part.node).count x + l.count x ≤ 1 := by
    intro x
    have atMost := spare.once x
    rwa [Loose.count_append] at atMost
  have loose : ∀ x, 0 < p.parts.count x + (slot.toList.map Part.node).count x + l.count x →
      ¬ a.Holds x ∧ a.Has x := by
    intro x some
    have counted : 0 < (({ parts := p.parts, slots := slot.toList } : Loose) ++ l).count x := by
      rwa [Loose.count_append]
    exact ⟨spare.free x counted, spare.has x counted⟩
  have given : ∀ x ∈ q.parts, 0 < p.parts.count x := by
    intro x mem
    exact Nat.lt_of_lt_of_le (List.count_pos_iff.2 mem) (fewer x)
  -- the slot of the node is loose itself, or nothing has its number yet
  have self : ∀ x, x = .node (slot.getD a.nodes.size) →
      0 < (slot.toList.map Part.node).count x ∨ ¬ a.Has x := by
    rintro x rfl
    cases slot with
    | none => exact .inr (Nat.lt_irrefl _)
    | some id => exact .inl (by simp)
  refine ⟨?once, ?free, ?has, ?complete, ?apart, ?freeSelf, ?others⟩
  case once =>
    rw [List.nodup_iff_count_le_one]
    intro x
    have le := fewer x
    have atMost := total x
    omega
  case free =>
    intro x mem
    have some := given x mem
    exact (loose x (by omega)).1
  case has =>
    intro x mem
    have some := given x mem
    exact (loose x (by omega)).2
  case complete =>
    intro c mem
    refine spare.complete c (List.mem_append_left _ ?_)
    exact List.count_pos_iff.1 (given _ mem)
  case apart =>
    intro mem
    have some := given _ mem
    have atMost := total (.node (slot.getD a.nodes.size))
    rcases self _ rfl with slotted | new
    · omega
    · exact new (loose _ (by omega)).2
  case freeSelf =>
    intro held
    rcases self _ rfl with slotted | new
    · exact (loose _ (by omega)).1 held
    · exact new (sound.has_of_holds held)
  case others =>
    intro x some
    have atMost := total x
    refine ⟨fun mem => ?_, fun same => ?_⟩
    · have counted := given x mem
      omega
    · rcases self x same with slotted | new
      · omega
      · exact new (loose x (by omega)).2

/-- A node that is made of spare parts leaves the arena sound, and is spare. -/
theorem construct_spec (type : TypeId) {slot : Option NodeId} {source : Option SourceTree} {l : Loose}
    (sound : s.arena.Sound plan.grammar.types)
    (spare : s.arena.Spare plan.grammar.types ({ parts := p.parts, slots := slot.toList } ++ l))
    (owned : ∀ tree ∈ source, tree.OwnedBelow s.nodes.size) :
    Built s.arena (s.construct plan type p slot source).1.arena
        (s.construct plan type p slot source).2
        (builtNode plan.grammar.types type p (s.construct plan type p slot source).2 source) ∧
      (s.construct plan type p slot source).1.arena.Sound plan.grammar.types ∧
      (s.construct plan type p slot source).1.arena.Spare plan.grammar.types
        ({ parts := [.node (s.construct plan type p slot source).2] } ++ l) := by
  have ready := Ready.of_spare (q := withDefaults plan.grammar.types type p) sound spare
    (count_withDefaults_le _ type p)
  have inRange : ∀ id ∈ slot, id < s.arena.nodes.size := by
    rintro id rfl
    refine spare.has (.node id) ?_
    simp only [Loose.count, Loose.slots_append, List.map_append, List.count_append,
      Option.toList_some, List.map_cons, List.count_cons_self]
    omega
  have built := built_insert
    (n := builtNode plan.grammar.types type p (slot.getD s.nodes.size) source) inRange rfl
    ready.once ready.has ready.apart
  have rest := spare.within (Loose.within_append_right _ l)
  rw [arena_construct]
  refine ⟨built, ?_, ?_⟩
  · refine built.sound sound ready.once ready.free ready.freeSelf ready.apart ready.complete ?_
    intro tree mem
    obtain ⟨tree, given, rfl⟩ := Option.map_eq_some_iff.1 mem
    refine ((owned tree given).mono built.size).withOwner ?_
    rintro id ⟨⟩
    exact built.bound
  · exact built.spare rest ready.freeSelf ready.apart ready.others
      (contains_withDefaults plan.grammar.types type p)

/-- Finishing an object makes its parts the parts of a node, which is spare. -/
theorem constructObject_spec {o : Object} (source : Option SourceTree) {l : Loose}
    (sound : s.arena.Sound plan.grammar.types)
    (spare : s.arena.Spare plan.grammar.types (o.loose ++ l))
    (owned : ∀ tree ∈ source, tree.OwnedBelow s.nodes.size) :
    (s.constructObject plan o source).1.arena.Sound plan.grammar.types ∧
      (s.constructObject plan o source).1.arena.Spare plan.grammar.types
        ({ parts := (s.constructObject plan o source).2.toList.map .node } ++ l) ∧
      s.nodes.size ≤ (s.constructObject plan o source).1.nodes.size := by
  unfold constructObject
  cases o.type with
  | none =>
    refine ⟨sound, spare.within ⟨fun x => ?_, ?_, ?_⟩, Nat.le_refl _⟩
    · rw [Loose.count_append, Loose.count_append]
      exact Nat.le_trans (Nat.le_of_eq (Nat.zero_add _)) (Nat.le_add_left _ _)
    · simp
    · simp
  | some type =>
    obtain ⟨built, sound, spare⟩ := construct_spec type sound spare owned
    exact ⟨sound, spare, built.size⟩

end State

end Workbench
