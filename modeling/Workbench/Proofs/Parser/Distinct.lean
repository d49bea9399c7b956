import Workbench.Proofs.Parser.Features

/-!
**Every name comes up once.**

The properties of a node are a list of entries, in which every name comes up once: writing, appending and
filling gaps add an entry only for a new name. So after a gap is filled from other properties, a name has what
the two have under it, merged. Every run keeps this up for the nodes and for the object under construction.
-/

namespace Workbench

/-! ### Filling gaps -/

namespace Properties

/-- What a feature holds if the object has `mine` and its gap is filled from `theirs`: lists are joined with
the other one in front, and else the present value stays. -/
def merged : Option Value → Option Value → Option Value
  | theirs, none => theirs
  | some (.list theirs), some (.list mine) => some (.list (theirs ++ mine))
  | _, some mine => some mine

/-- Every name comes up once. -/
def Distinct (p : Properties) : Prop := (p.entries.map Prod.fst).Nodup

variable {p q : Properties} {name : String}

theorem merged_none_left (mine : Option Value) : merged none mine = mine := by
  cases mine with
  | none => rfl
  | some v => cases v <;> rfl

theorem get?_fill_self (p : Properties) (name : String) (value : Value) :
    (p.fill (name, value)).get? name = merged (some value) (p.get? name) := by
  rw [get?, fill, lookup_upsert_self, get?]
  cases p.entries.lookup name with
  | none => rfl
  | some mine => cases mine <;> cases value <;> rfl

theorem get?_fill_ne {other : String} (differ : other ≠ name) (value : Value) :
    (p.fill (name, value)).get? other = p.get? other :=
  lookup_upsert_ne differ _ _ _

theorem get?_fillFrom (p : Properties) (distinct : q.Distinct) (name : String) :
    (p.fillFrom q).get? name = merged (q.get? name) (p.get? name) := by
  obtain ⟨entries⟩ := q
  unfold fillFrom
  induction entries generalizing p with
  | nil =>
    change p.get? name = merged none (p.get? name)
    rw [merged_none_left]
  | cons entry rest ih =>
    obtain ⟨other, value⟩ := entry
    obtain ⟨fresh, distinct⟩ := List.nodup_cons.1 distinct
    rw [List.foldl_cons, ih _ distinct]
    by_cases same : name = other
    · -- the name does not come up again
      subst same
      have absent : get? ⟨rest⟩ name = none := by
        rw [get?, List.lookup_eq_none_iff]
        intro entry mem
        have differ : entry.1 ≠ name := fun eq => fresh (List.mem_map.2 ⟨entry, mem, eq⟩)
        simpa using differ.symm
      have here : get? ⟨(name, value) :: rest⟩ name = some value := by simp [get?]
      rw [absent, merged_none_left, get?_fill_self, here]
    · have differ : (name == other) = false := beq_eq_false_iff_ne.2 same
      have there : get? ⟨(other, value) :: rest⟩ name = get? ⟨rest⟩ name := by
        rw [get?, get?, List.lookup_cons, differ]
      rw [there, get?_fill_ne same]

theorem map_fst_upsert (name : String) (f : Value → Value) (fresh : Value) (l : List (String × Value)) :
    (upsert name f fresh l).map Prod.fst =
      if name ∈ l.map Prod.fst then l.map Prod.fst else l.map Prod.fst ++ [name] := by
  induction l with
  | nil => rfl
  | cons entry rest ih =>
    obtain ⟨n, v⟩ := entry
    unfold upsert
    by_cases same : n = name
    · simp [same]
    · rw [if_neg (by simpa using same), List.map_cons, ih]
      have differ : name ≠ n := fun eq => same eq.symm
      by_cases mem : name ∈ rest.map Prod.fst <;> simp [mem, differ]

theorem distinct_upsert {l : List (String × Value)} (distinct : (l.map Prod.fst).Nodup) (name : String)
    (f : Value → Value) (fresh : Value) : ((upsert name f fresh l).map Prod.fst).Nodup := by
  rw [map_fst_upsert]
  split
  · exact distinct
  · next new =>
    refine List.nodup_append.2 ⟨distinct, List.nodup_singleton _, ?_⟩
    rintro a mem b one rfl
    exact new (List.mem_singleton.1 one ▸ mem)

theorem distinct_empty : empty.Distinct := List.nodup_nil

namespace Distinct

theorem get?_of_mem (h : p.Distinct) {v : Value} (mem : (name, v) ∈ p.entries) : p.get? name = some v := by
  obtain ⟨entries⟩ := p
  induction entries with
  | nil => cases mem
  | cons entry rest ih =>
    obtain ⟨fresh, distinct⟩ := List.nodup_cons.1 h
    rcases List.mem_cons.1 mem with rfl | later
    · exact List.lookup_cons_self
    · have differ : (name == entry.1) = false :=
        beq_eq_false_iff_ne.2 fun same => fresh (List.mem_map.2 ⟨_, later, same⟩)
      rw [get?, List.lookup_cons, differ]
      exact ih distinct later

/-- If only one feature has nodes, these are all. -/
theorem nodes_eq (h : p.Distinct) (only : ∀ entry ∈ p.entries, entry.1 ≠ name → entry.2.nodes = []) :
    p.nodes = ((p.get? name).map Value.nodes).getD [] := by
  cases found : p.get? name with
  | none =>
    refine List.flatMap_eq_nil_iff.2 fun entry mem => only entry mem ?_
    rintro rfl
    rw [h.get?_of_mem mem] at found
    cases found
  | some v =>
    obtain ⟨front, back, eq, -⟩ := List.lookup_eq_some_iff.1 found
    have distinct : (p.entries.map Prod.fst).Nodup := h
    have others : ∀ entry ∈ front ++ back, entry.2.nodes = [] := by
      rintro ⟨n, w⟩ mem
      refine only (n, w) (by rw [eq]; grind) ?_
      rintro rfl
      rw [eq, List.map_append, List.map_cons] at distinct
      have apart := List.nodup_middle.1 distinct
      rw [← List.map_append] at apart
      exact (List.nodup_cons.1 apart).1 (List.mem_map.2 ⟨_, mem, rfl⟩)
    have none : ∀ l : List (String × Value), (∀ entry ∈ l, entry.2.nodes = []) →
        l.flatMap (·.2.nodes) = [] := fun l h => List.flatMap_eq_nil_iff.2 h
    rw [nodes, eq, List.flatMap_append, List.flatMap_cons,
      none front fun entry mem => others entry (List.mem_append_left _ mem),
      none back fun entry mem => others entry (List.mem_append_right _ mem)]
    simp

theorem set (h : p.Distinct) (name : String) (value : Value) : (p.set name value).Distinct :=
  distinct_upsert h _ _ _

theorem assigned (h : p.Distinct) (feature : String) (op : AssignOp) (value : Value) :
    (p.assigned feature op value).Distinct := by
  cases op <;> exact distinct_upsert h _ _ _

theorem fillFrom (h : p.Distinct) (q : Properties) : (p.fillFrom q).Distinct := by
  obtain ⟨entries⟩ := q
  unfold Properties.fillFrom
  induction entries generalizing p with
  | nil => exact h
  | cons entry rest ih => exact ih (distinct_upsert h _ _ _)

theorem withDefaults (h : p.Distinct) (types : TypeHierarchy) (type : TypeId) :
    (State.withDefaults types type p).Distinct := by
  unfold State.withDefaults
  generalize types.allProperties type = entries
  induction entries generalizing p with
  | nil => exact h
  | cons entry rest ih =>
    obtain ⟨name, kind⟩ := entry
    refine ih ?_
    dsimp only
    split
    · exact h
    · cases kind with
      | value => exact h
      | array => exact h.set _ _
      | bool => exact h.set _ _

end Distinct

end Properties

namespace State

/-! ### States in which every name comes up once -/

/-- In the nodes and in the object under construction every name comes up once, and the object takes over the
place of a node that exists. -/
structure Sane (s : State) : Prop where
  nodes : ∀ j : NodeId, ∀ n ∈ s.nodes[j]?, n.properties.Distinct
  object : ∀ o, s.frame.content = .object o → o.properties.Distinct
  slot : ∀ o, s.frame.content = .object o → ∀ id ∈ o.slot, id < s.nodes.size

variable {plan : Plan} {s t : State}

namespace Sane

theorem of_same (h : s.Sane) (content : t.frame.content = s.frame.content) (nodes : t.nodes = s.nodes) :
    t.Sane := by
  refine ⟨?_, ?_, ?_⟩
  · rw [nodes]
    exact h.nodes
  · rw [content]
    exact h.object
  · rw [content, nodes]
    exact h.slot

theorem of_text {text : String} (nodes : ∀ j : NodeId, ∀ n ∈ t.nodes[j]?, n.properties.Distinct)
    (content : t.frame.content = .text text) : t.Sane := by
  refine ⟨nodes, fun o object => ?_, fun o object => ?_⟩ <;> rw [content] at object <;> cases object

theorem of_object {o : Object} (nodes : ∀ j : NodeId, ∀ n ∈ t.nodes[j]?, n.properties.Distinct)
    (content : t.frame.content = .object o) (distinct : o.properties.Distinct)
    (slot : ∀ id ∈ o.slot, id < t.nodes.size) : t.Sane := by
  refine ⟨nodes, fun o' object => ?_, fun o' object => ?_⟩ <;> rw [content] at object <;> cases object
  · exact distinct
  · exact slot

theorem takes {assigned : Option String} {taken : Option Token} (h : s.Sane)
    (took : Takes assigned s t taken) : t.Sane :=
  h.of_same took.content took.nodes

theorem raise (h : s.Sane) (problem : ParseProblem) : (s.raise plan problem).Sane :=
  h.takes (Takes.raise plan s problem)

theorem collect (h : s.Sane) (text : String) : (s.collect text).Sane := by
  unfold State.collect
  split
  · exact .of_text h.nodes rfl
  · exact h

theorem assign (h : s.Sane) (feature : String) (op : AssignOp) (value : Value) :
    (s.assign feature op value).Sane := by
  cases content : s.frame.content with
  | text acc =>
    unfold State.assign
    rw [content]
    exact h.of_same rfl rfl
  | object o =>
    rw [assign_of_object content]
    exact .of_object h.nodes rfl ((h.object o content).assigned _ _ _) (h.slot o content)

theorem retag (h : s.Sane) (type : TypeId) : (s.retag type).Sane := by
  unfold State.retag
  split
  · exact h.of_same rfl rfl
  · next o content =>
    split
    · exact h
    · exact .of_object h.nodes rfl (h.object o content) (h.slot o content)

theorem makeReference (h : s.Sane) (feature : String) (op : AssignOp) (target : TypeId) (text : String)
    (source : SourceTree) : (Interpreter.makeReference feature op target text source s).Sane := by
  unfold Interpreter.makeReference
  refine assign ?_ feature op _
  exact h.of_same rfl rfl

theorem adopt (h : s.Sane) (id : NodeId) : (s.adopt id).Sane := by
  unfold State.adopt
  split
  · next o n content found =>
    refine .of_object (fun j m mem => ?_) rfl ((h.nodes id n found).fillFrom _) ?_
    · -- the node has handed over its properties
      dsimp only at mem
      rw [Array.getElem?_setIfInBounds] at mem
      split at mem
      · split at mem
        · cases mem
          exact Properties.distinct_empty
        · cases mem
      · exact h.nodes j m mem
    · rintro _ ⟨⟩
      exact Nat.lt_of_lt_of_eq (Array.getElem?_eq_some_iff.1 found).1 Array.size_setIfInBounds.symm
  · exact h.of_same rfl rfl

theorem nodes_construct (nodes : ∀ j : NodeId, ∀ n ∈ s.nodes[j]?, n.properties.Distinct) (type : TypeId)
    {p : Properties} (distinct : p.Distinct) {slot : Option NodeId} (inRange : ∀ id ∈ slot, id < s.nodes.size)
    (source : Option SourceTree) :
    ∀ j : NodeId, ∀ n ∈ (s.construct plan type p slot source).1.nodes[j]?, n.properties.Distinct := by
  intro j n mem
  have gains := gains_construct plan type p source inRange
  by_cases self : j = (s.construct plan type p slot source).2
  · obtain ⟨m, found, same⟩ := gains.self
    rw [self, found] at mem
    cases mem
    rw [AstNode.properties_of_unplaced same]
    exact distinct.withDefaults _ _
  · have kept := gains.other j self
    rw [mem, Option.map_some] at kept
    obtain ⟨m, found, same⟩ := Option.map_eq_some_iff.1 kept.symm
    rw [← AstNode.properties_of_unplaced same]
    exact nodes j m found

/-- Finishing the object under construction, whatever frame the new state has. -/
theorem nodes_constructObject (plan : Plan) (h : s.Sane) {o : Object} (content : s.frame.content = .object o)
    {base : State} (same : base.nodes = s.nodes) (source : Option SourceTree) :
    ∀ j : NodeId, ∀ n ∈ (base.constructObject plan o source).1.nodes[j]?, n.properties.Distinct := by
  have nodes : ∀ j : NodeId, ∀ n ∈ base.nodes[j]?, n.properties.Distinct := by
    rw [same]
    exact h.nodes
  unfold State.constructObject
  split
  · exact nodes
  · exact nodes_construct nodes _ (h.object o content) (by rw [same]; exact h.slot o content) source

theorem wrap (h : s.Sane) (type : TypeId) (feature : String) (op : AssignOp) :
    (s.wrap plan type feature op).Sane := by
  cases content : s.frame.content with
  | text acc =>
    unfold State.wrap
    rw [content]
    exact h.of_same rfl rfl
  | object o =>
    have nodes := h.nodes_constructObject plan content rfl (wrapChildren feature s.frame)
    rw [wrap_of_object content]
    generalize s.constructObject plan o (wrapChildren feature s.frame) = out at nodes
    obtain ⟨t, built⟩ := out
    have restart : (t.restarted type (wrappedTrees s.frame feature built)).Sane :=
      .of_object nodes rfl Properties.distinct_empty nofun
    cases built with
    | none => exact restart
    | some id => exact restart.assign _ _ _

theorem enter (h : s.Sane) (id : RuleId) (kind : RuleKind) :
    State.Sane { s with frame := Frame.enter id kind } := by
  cases kind with
  | parser returns => exact .of_object h.nodes rfl Properties.distinct_empty nofun
  | dataType value => exact .of_text h.nodes rfl
  | terminal token value => exact .of_text h.nodes rfl

end Sane

end State

namespace Interpreter

open State

variable {plan : Plan} {s t : State}

theorem frame_leave (plan : Plan) (id : RuleId) (kind : RuleKind) (feature : Option String) (offset : Nat)
    (caller : Frame) (s : State) : (leave plan id kind feature offset caller s).state.frame = caller :=
  (leave_spec plan id kind feature offset caller s).1.frame

/-- The caller goes on with its own object. -/
theorem sane_leave {ended : State} (caller : s.Sane) (inner : ended.Sane)
    (size : s.nodes.size ≤ ended.nodes.size) (id : RuleId) (kind : RuleKind) (feature : Option String)
    (offset : Nat) : (leave plan id kind feature offset s.frame ended).state.Sane := by
  have bound : s.nodes.size ≤ (leave plan id kind feature offset s.frame ended).state.nodes.size :=
    size.trans (size_le_leave id kind feature offset s.frame ended)
  have nodes : ∀ j : NodeId, ∀ n ∈ (leave plan id kind feature offset s.frame ended).state.nodes[j]?,
      n.properties.Distinct := by
    unfold leave
    dsimp only
    split
    · exact inner.nodes
    · split
      · next o content =>
        have same : ({ ended with frame := s.frame } : State).nodes = ended.nodes := rfl
        have built := inner.nodes_constructObject plan content same
          (some (.close id feature offset ended.frame.children.toList))
        split <;> exact built
      · exact inner.nodes
      · exact inner.nodes
  refine ⟨nodes, ?_, ?_⟩
  · rw [frame_leave]
    exact caller.object
  · rw [frame_leave]
    exact fun o content slot mem => (caller.slot o content slot mem).trans_le bound

theorem Returns.sane {out : Invoked} (back : Returns out t) (sane : out.state.Sane) : t.Sane := by
  have attached : ∀ trees, (out.state.attach trees).Sane := fun trees => sane.of_same rfl rfl
  cases back with
  | keep => exact attached _
  | assign => exact (attached _).assign _ _ _
  | adopt => exact (attached _).adopt _
  | refer => exact (attached _).makeReference _ _ _ _ _

/-- Every run keeps this up. -/
theorem Reaches.sane (h : Reaches plan s t) (sane : s.Sane) : t.Sane := by
  induction h with
  | refl => exact sane
  | trans _ _ ih ih' => exact ih' (ih sane)
  | note => exact sane.of_same rfl rfl
  | record => exact sane.of_same rfl rfl
  | fail problem => exact (sane.raise problem).of_same rfl rfl
  | settle => exact sane.of_same rfl rfl
  | consume feature => exact sane.takes (Takes.consume _ feature)
  | collect text => exact sane.collect text
  | assign _ feature op => exact sane.assign feature op _
  | refer feature op target text token => exact sane.makeReference feature op target text _
  | retag type => exact sane.retag type
  | wrap type feature op => exact sane.wrap type feature op
  | call _ inner back ih =>
    exact back.sane (sane_leave sane (ih (sane.enter _ _)) inner.size_le _ _ _ _)

/-- The node of an invocation is what its frame has built, with the defaults of its type. -/
theorem node_of_leave {id : RuleId} {kind : RuleKind} {feature : Option String} {offset : Nat}
    {caller : Frame} {n : NodeId} (sane : s.Sane)
    (value : (leave plan id kind feature offset caller s).value = some (.node n)) :
    ∃ o node, s.frame.content = .object o ∧ o.type = some node.type ∧
      (leave plan id kind feature offset caller s).state.nodes[n]? = some node ∧
      node.properties = withDefaults plan.grammar.types node.type o.properties := by
  unfold leave at value ⊢
  dsimp only at value ⊢
  split at value
  · cases value
  · next nonempty =>
    rw [if_neg nonempty]
    split at value
    · next o content =>
      rw [content]
      unfold State.constructObject at value ⊢
      cases typed : o.type with
      | none =>
        rw [typed] at value
        cases value
      | some type =>
        rw [typed] at value
        dsimp only at value ⊢
        cases value
        have gains := gains_construct (s := { s with frame := caller }) plan type o.properties
          (some (.close id feature offset s.frame.children.toList)) (sane.slot o content)
        obtain ⟨m, found, same⟩ := gains.self
        have type_eq : m.type = type := AstNode.type_of_unplaced same
        refine ⟨o, m, rfl, by rw [typed, type_eq], found, ?_⟩
        rw [AstNode.properties_of_unplaced same, type_eq]
        rfl
    · cases value
    · cases value

end Interpreter

namespace Parser

open State

/-- In the beginning there are no entries. -/
theorem sane_opened (p : Parser) (lexed : LexResult) : (p.opened lexed).Sane := by
  refine .of_object (o := { type := some p.grammar.entryType }) (fun j n mem => ?_) rfl
    Properties.distinct_empty nofun
  cases mem

end Parser

end Workbench
