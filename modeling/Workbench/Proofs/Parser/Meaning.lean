import Workbench.Proofs.Parser.Features

/-!
**What nodes mean.**

The *meaning* of a node is a statement about its type, its properties and the nodes that were finished
before it. It outlasts everything that is built later: a finished node is only told its place, or is
reopened and finished again in the same slot by the rule that adopts it. What a node is for its holder is
said by the meaning of the nodes in its properties, each finished before the holder is.
-/

namespace Workbench

/-! ### Meanings -/

namespace Arena

/-- `b` has what `a` has below a bound, up to places. -/
structure Agrees (bound : NodeId) (a b : Arena) : Prop where
  nodes : ∀ id < bound, b.nodes[id]?.map AstNode.unplaced = a.nodes[id]?.map AstNode.unplaced
  references : ∀ (id : RefId) (r : Reference), a.references[id]? = some r →
    ∃ r', b.references[id]? = some r' ∧ r'.unplaced = r.unplaced

namespace Agrees

variable {a b c : Arena} {bound less : NodeId}

theorem refl (bound : NodeId) (a : Arena) : Agrees bound a a :=
  ⟨fun _ _ => rfl, fun _ r found => ⟨r, found, rfl⟩⟩

theorem trans (h : Agrees bound a b) (h' : Agrees bound b c) : Agrees bound a c := by
  refine ⟨fun id below => (h'.nodes id below).trans (h.nodes id below), fun id r found => ?_⟩
  obtain ⟨r', found', same⟩ := h.references id r found
  obtain ⟨r'', found'', same'⟩ := h'.references id r' found'
  exact ⟨r'', found'', same'.trans same⟩

theorem mono (h : Agrees bound a b) (le : less ≤ bound) : Agrees less a b :=
  ⟨fun id below => h.nodes id (Nat.lt_of_lt_of_le below le), h.references⟩

theorem node (h : Agrees bound a b) {id : NodeId} {n : AstNode} (below : id < bound)
    (found : a.nodes[id]? = some n) :
    ∃ m, b.nodes[id]? = some m ∧ m.type = n.type ∧ m.properties = n.properties := by
  have same := h.nodes id below
  rw [found, Option.map_some, Option.map_eq_some_iff] at same
  obtain ⟨m, found', eq⟩ := same
  exact ⟨m, found', AstNode.type_of_unplaced eq, AstNode.properties_of_unplaced eq⟩

/-- A node that is put in behind the bound. -/
theorem of_gains {s t : State} {id : NodeId} {n : AstNode} (h : s.Gains t id n) (above : bound ≤ id) :
    Agrees bound s.arena t.arena := by
  refine ⟨fun j below => h.other j (Nat.ne_of_lt (Nat.lt_of_lt_of_le below above)), fun j r found => ?_⟩
  have same := h.references j
  rw [show s.references[j]? = some r from found, Option.map_some, Option.map_eq_some_iff] at same
  exact same

end Agrees

end Arena

/-- A statement about a node: about its type, what its properties give for a name, its number, and the
arena around it. -/
def Meaning := Arena → TypeId → (String → Option Value) → NodeId → Prop

namespace Meaning

variable {M : Meaning} {a b : Arena} {bound id : NodeId}

/-- Nodes that are built later do not matter. -/
def Stable (M : Meaning) : Prop :=
  ∀ ⦃a b : Arena⦄ ⦃type : TypeId⦄ ⦃look : String → Option Value⦄ ⦃id : NodeId⦄,
    a.Agrees id b → M a type look id → M b type look id

/-- The statement holds of a finished node. -/
def At (M : Meaning) (a : Arena) (id : NodeId) : Prop :=
  ∃ n, a.nodes[id]? = some n ∧ M a n.type n.properties.get? id

theorem At.lt_size (h : M.At a id) : id < a.nodes.size := by
  obtain ⟨n, found, -⟩ := h
  exact (Array.getElem?_eq_some_iff.1 found).1

theorem At.agrees (h : M.At a id) (stable : M.Stable) (same : a.Agrees bound b) (below : id < bound) :
    M.At b id := by
  obtain ⟨n, found, holds⟩ := h
  obtain ⟨m, found', type, properties⟩ := same.node below found
  refine ⟨m, found', ?_⟩
  rw [type, properties]
  exact stable (same.mono (Nat.le_of_lt below)) holds

/-- A property holds a node with the meaning, which was finished before the node `id`. -/
def Held (M : Meaning) (a : Arena) (id : NodeId) (value : Option Value) : Prop :=
  ∃ c, c < id ∧ value = some (.node c) ∧ M.At a c

theorem Held.agrees {value : Option Value} (h : M.Held a id value) (stable : M.Stable)
    (same : a.Agrees id b) : M.Held b id value := by
  obtain ⟨c, below, eq, holds⟩ := h
  exact ⟨c, below, eq, holds.agrees stable same below⟩

/-- A property holds a node if there is something to mean, and is absent if not. -/
def MayHold {α : Type} (meaning : α → Meaning) (a : Arena) (id : NodeId) (value : Option Value) :
    Option α → Prop
  | some x => (meaning x).Held a id value
  | none => value = none

theorem MayHold.agrees {α : Type} {meaning : α → Meaning} {value : Option Value} {x? : Option α}
    (h : MayHold meaning a id value x?) (stable : ∀ x, (meaning x).Stable) (same : a.Agrees id b) :
    MayHold meaning b id value x? := by
  cases x? with
  | none => exact h
  | some x => exact Held.agrees h (stable x) same

/-- A property holds a list of nodes, one for each item, which were finished before the node `id`. -/
def HeldAll {α : Type} (meaning : α → Meaning) (a : Arena) (id : NodeId) (value : Option Value)
    (xs : List α) : Prop :=
  ∃ ids, value = some (.list (ids.map .node)) ∧
    List.Forall₂ (fun x c => c < id ∧ (meaning x).At a c) xs ids

theorem HeldAll.agrees {α : Type} {meaning : α → Meaning} {value : Option Value} {xs : List α}
    (h : HeldAll meaning a id value xs) (stable : ∀ x ∈ xs, (meaning x).Stable) (same : a.Agrees id b) :
    HeldAll meaning b id value xs := by
  obtain ⟨ids, eq, holds⟩ := h
  refine ⟨ids, eq, ?_⟩
  clear eq
  induction holds with
  | nil => exact .nil
  | cons first _ ih =>
    refine .cons ⟨first.1, first.2.agrees (stable _ List.mem_cons_self) same first.1⟩ (ih ?_)
    exact fun x mem => stable x (List.mem_cons_of_mem _ mem)

/-- A list of finished nodes is held by a node that comes after all of them. -/
theorem heldAll_of_at {α β : Type} {meaning : α → Meaning} {f : β → α} {xs : List β}
    {ids : List NodeId} {value : Option Value}
    (h : List.Forall₂ (fun x c => (meaning (f x)).At a c) xs ids)
    (held : value = some (.list (ids.map .node))) :
    HeldAll meaning a a.nodes.size value (xs.map f) := by
  refine ⟨ids, held, ?_⟩
  rw [List.forall₂_map_left_iff]
  exact h.imp fun _ _ holds => ⟨holds.lt_size, holds⟩

end Meaning

/-- A property that refers to something by a text. -/
def Refers (a : Arena) (value : Option Value) (text : String) : Prop :=
  ∃ id r, value = some (.reference id) ∧ a.references[id]? = some r ∧ r.text = text

theorem Refers.agrees {a b : Arena} {bound : NodeId} {value : Option Value} {text : String}
    (h : Refers a value text) (same : a.Agrees bound b) : Refers b value text := by
  obtain ⟨id, r, eq, found, rfl⟩ := h
  obtain ⟨r', found', unplaced⟩ := same.references id r found
  have text : r'.unplaced.text = r.unplaced.text := by rw [unplaced]
  exact ⟨id, r', eq, found', text⟩

/-- A property that refers to something by a text, or is absent if there is no text. -/
def MayRefer (a : Arena) (value : Option Value) : Option String → Prop
  | some text => Refers a value text
  | none => value = none

theorem MayRefer.agrees {a b : Arena} {bound : NodeId} {value : Option Value} {text? : Option String}
    (h : MayRefer a value text?) (same : a.Agrees bound b) : MayRefer b value text? := by
  cases text? with
  | none => exact h
  | some text => exact Refers.agrees h same

/-! ### Defaults -/

namespace State

/-- A property that is complete gets no defaults. -/
theorem withDefaults_of_complete {types : TypeHierarchy} {type : TypeId} {p : Properties}
    (complete : ∀ entry ∈ types.allProperties type, entry.2 = .array ∨ entry.2 = .bool →
      p.contains entry.1 = true) : withDefaults types type p = p := by
  unfold withDefaults
  generalize types.allProperties type = entries at complete
  induction entries with
  | nil => rfl
  | cons entry rest ih =>
    obtain ⟨name, kind⟩ := entry
    have further := ih fun e mem => complete e (List.mem_cons_of_mem _ mem)
    rw [List.foldl_cons]
    dsimp only
    cases kind with
    | value =>
      rw [ite_self]
      exact further
    | array =>
      rw [if_pos (complete (name, .array) List.mem_cons_self (.inl rfl))]
      exact further
    | bool =>
      rw [if_pos (complete (name, .bool) List.mem_cons_self (.inr rfl))]
      exact further

theorem withDefaults_idem (types : TypeHierarchy) (type : TypeId) (p : Properties) :
    withDefaults types type (withDefaults types type p) = withDefaults types type p :=
  withDefaults_of_complete (contains_withDefaults types type p)

end State

/-- The value that a property has if it is never set. -/
def PropertyKind.initial? : PropertyKind → Option Value
  | array => some (.list [])
  | bool => some (.bool false)
  | value => none

namespace State

theorem get?_withDefaults_eq {types : TypeHierarchy} {type : TypeId}
    (once : ((types.allProperties type).map Prod.fst).Nodup) (p : Properties) (name : String) :
    (withDefaults types type p).get? name =
      (p.get? name).or ((types.propertyKind type name).bind PropertyKind.initial?) := by
  unfold withDefaults TypeHierarchy.propertyKind
  generalize types.allProperties type = entries at once
  induction entries generalizing p with
  | nil => simp
  | cons entry rest ih =>
    obtain ⟨other, kind⟩ := entry
    obtain ⟨absent, once⟩ := List.nodup_cons.1 once
    rw [List.foldl_cons, ih _ once]
    dsimp only
    -- the first entry decides about its own name, and the others know nothing of it
    by_cases same : name = other
    · subst same
      have later : rest.lookup name = none := by
        rw [List.lookup_eq_none_iff]
        intro e mem
        rw [bne_iff_ne]
        intro same
        exact absent (List.mem_map.2 ⟨e, mem, same.symm⟩)
      have present : (p.get? name).isSome = true ↔ p.contains name = true := Properties.get?_isSome_iff
      rw [later, Option.bind_none, Option.or_none, List.lookup_cons_self, Option.bind_some]
      split
      · next has =>
        rw [Option.or_of_isSome (present.2 has)]
      · next lacks =>
        have none : p.get? name = none := by
          rw [← Option.not_isSome_iff_eq_none, present]
          exact lacks
        rw [none, Option.none_or]
        cases kind with
        | array => exact p.get?_set_self name _
        | bool => exact p.get?_set_self name _
        | value => exact none
    · have skipped : ((other, kind) :: rest).lookup name = rest.lookup name := by
        rw [List.lookup_cons, beq_eq_false_iff_ne.2 same]
      rw [skipped]
      congr 1
      split
      · rfl
      · cases kind with
        | array => exact p.get?_set_ne same _
        | bool => exact p.get?_set_ne same _
        | value => rfl

end State

end Workbench
