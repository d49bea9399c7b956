import Workbench.DomainModel.Grammar
import Workbench.Proofs.Parser.Construction
import Workbench.Proofs.Parser.Distinct

/-!
**What an unassigned call keeps.**

A call without an assignment makes the node of the callee the object under construction, and what the caller
had collected fills the gaps. The callee is finished first, however, and a finished node has the defaults of
its type: lists and truth values that were never written are there, as `[]` and `false`. Such a default is no
gap any more. A list of the caller survives it, since lists are joined, but a flag that the caller has set is
lost behind a `false`, and so is any other value behind a default.

What a run does to the object under construction is said by its *deeds*: it writes features, and it takes over
nodes from unassigned calls, together with the deeds of the callee. A feature that no deed writes can have
nothing but the default of a type that was taken over; a feature that is only appended to has a list or such
a default.
-/

namespace Workbench

/-! ### Lists and defaults -/

/-- What is appended to becomes a list. -/
theorem Properties.get?_append_list (p : Properties) (name : String) (value : Value) :
    ∃ items, (p.append name value).get? name = some (.list items) := by
  rw [get?, append, lookup_upsert_self]
  cases p.entries.lookup name with
  | none => exact ⟨_, rfl⟩
  | some previous => cases previous <;> exact ⟨_, rfl⟩

namespace State

/-- The value is the one given, or a default in the place of none. -/
def Defaulted (given value : Option Value) : Prop :=
  value = given ∨ given = none ∧ (value = some (.bool false) ∨ value = some (.list []))

theorem Defaulted.trans {u v w : Option Value} (h : Defaulted u v) (h' : Defaulted v w) : Defaulted u w := by
  rcases h with rfl | ⟨rfl, rfl | rfl⟩
  · exact h'
  · rcases h' with rfl | ⟨absurd, -⟩
    · exact .inr ⟨rfl, .inl rfl⟩
    · cases absurd
  · rcases h' with rfl | ⟨absurd, -⟩
    · exact .inr ⟨rfl, .inr rfl⟩
    · cases absurd

theorem defaulted_set {p : Properties} {other : String} (absent : ¬ p.contains other = true) (name : String)
    {value : Value} (default : value = .bool false ∨ value = .list []) :
    Defaulted (p.get? name) ((p.set other value).get? name) := by
  by_cases same : name = other
  · subst same
    rw [← Properties.get?_isSome_iff, Option.not_isSome_iff_eq_none] at absent
    rw [Properties.get?_set_self]
    exact .inr ⟨absent, default.imp (congrArg some) (congrArg some)⟩
  · exact .inl (p.get?_set_ne same value)

/-- A finished node has a default for a feature only if the feature was not set. -/
theorem defaulted_withDefaults (types : TypeHierarchy) (type : TypeId) (p : Properties) (name : String) :
    Defaulted (p.get? name) ((withDefaults types type p).get? name) := by
  unfold withDefaults
  generalize types.allProperties type = entries
  induction entries generalizing p with
  | nil => exact .inl rfl
  | cons entry rest ih =>
    obtain ⟨other, kind⟩ := entry
    rw [List.foldl_cons]
    refine Defaulted.trans ?_ (ih _)
    dsimp only
    split
    · exact .inl rfl
    · next absent =>
      cases kind with
      | value => exact .inl rfl
      | array => exact defaulted_set absent name (.inr rfl)
      | bool => exact defaulted_set absent name (.inl rfl)

end State

namespace Interpreter

open State

variable {plan : Plan} {s t : State}

/-! ### Deeds -/

/-- What a run does to the object under construction: it writes a feature, or it takes over a node of a
type. -/
inductive Deed where
  | write (feature : String) (op : AssignOp)
  | take (type : TypeId)

/-- The deeds of a run, in order. What a callee does is a deed of the caller only if its node is taken over,
and a node that an action finishes takes its features with it. -/
inductive Writes (plan : Plan) : State → List Deed → State → Prop where
  | refl {s : State} : Writes plan s [] s
  | trans {s t u : State} {first next : List Deed} :
    Writes plan s first t → Writes plan t next u → Writes plan s (first ++ next) u
  | note {s : State} (incident : Incident) : Writes plan s [] (s.note incident)
  | record {s : State} (problem : ParseProblem) : Writes plan s [] (s.record plan problem)
  | fail {s : State} (problem : ParseProblem) :
    Writes plan s [] { s.raise plan problem with recovering := true }
  | settle {s : State} : Writes plan s [] { s with recovering := false }
  | consume {s : State} (feature : Option String) : Writes plan s [] (s.consume feature).1
  | collect {s : State} (text : String) : Writes plan s [] (s.collect text)
  | assign {s : State} {value : Value} (plain : value.IsPlain) (feature : String) (op : AssignOp) :
    Writes plan s [.write feature op] (s.assign feature op value)
  | refer {s : State} (feature : String) (op : AssignOp) (target : TypeId) (text : String)
    (token : Token) :
    Writes plan s [.write feature op]
      (makeReference feature op target text (.leaf token (some feature)) s)
  | retag {s : State} (type : TypeId) : Writes plan s [] (s.retag type)
  | wrap {s : State} (type : TypeId) (feature : String) (op : AssignOp) :
    Writes plan s [.write feature op] (s.wrap plan type feature op)
  /-- An object without a type is dropped and written nowhere. -/
  | drop {s : State} (type : TypeId) (feature : String) (op : AssignOp)
    (untyped : ∀ o, s.frame.content = .object o → o.type = none) :
    Writes plan s [] (s.wrap plan type feature op)
  | keep {s ended : State} {id : RuleId} {rule : Rule} {feature : Option String} {offset : Nat}
    (known : plan.grammar.rules[id]? = some rule)
    (inner : Reaches plan { s with frame := Frame.enter id rule.kind } ended)
    {out : Invoked} (left : out = leave plan id rule.kind feature offset s.frame ended) :
    Writes plan s [] (out.state.attach out.tree.toList)
  | give {s ended : State} {id : RuleId} {rule : Rule} {feature : Option String} {offset : Nat}
    (known : plan.grammar.rules[id]? = some rule)
    (inner : Reaches plan { s with frame := Frame.enter id rule.kind } ended)
    {out : Invoked} (left : out = leave plan id rule.kind feature offset s.frame ended) {n : NodeId}
    (value : out.value = some (.node n)) (feature : String) (op : AssignOp) :
    Writes plan s [.write feature op] ((out.state.attach out.tree.toList).assign feature op (.node n))
  | take {s ended : State} {id : RuleId} {rule : Rule} {feature : Option String} {offset : Nat}
    {deeds : List Deed} (known : plan.grammar.rules[id]? = some rule)
    (inner : Writes plan { s with frame := Frame.enter id rule.kind } deeds ended)
    {out : Invoked} (left : out = leave plan id rule.kind feature offset s.frame ended) {n : NodeId}
    {node : AstNode} (value : out.value = some (.node n)) (found : out.state.nodes[n]? = some node) :
    Writes plan s (deeds ++ [.take node.type])
      ((out.state.attach (out.tree.toList.map (·.withOwner none))).adopt n)
  | quote {s ended : State} {id : RuleId} {rule : Rule} {feature : Option String} {offset : Nat}
    (known : plan.grammar.rules[id]? = some rule)
    (inner : Reaches plan { s with frame := Frame.enter id rule.kind } ended)
    {out : Invoked} (left : out = leave plan id rule.kind feature offset s.frame ended)
    {tree : SourceTree} (took : out.tree = some tree) (feature : String) (op : AssignOp)
    (target : TypeId) (text : String) :
    Writes plan s [.write feature op]
      (makeReference feature op target text tree (out.state.attach [tree]))

theorem Writes.reaches {deeds : List Deed} (h : Writes plan s deeds t) : Reaches plan s t := by
  induction h with
  | refl => exact .refl
  | trans _ _ ih ih' => exact .trans ih ih'
  | note incident => exact .note incident
  | record problem => exact .record problem
  | fail problem => exact .fail problem
  | settle => exact .settle
  | consume feature => exact .consume feature
  | collect text => exact .collect text
  | assign plain feature op => exact .assign plain feature op
  | refer feature op target text token => exact .refer feature op target text token
  | retag type => exact .retag type
  | wrap type feature op => exact .wrap type feature op
  | drop type feature op => exact .wrap type feature op
  | keep known inner left =>
    subst left
    exact .call known inner .keep
  | give known inner left value feature op =>
    subst left
    exact .call known inner (.assign value feature op)
  | take known _ left value _ ih =>
    subst left
    exact .call known ih (.adopt value)
  | quote known inner left took feature op target text =>
    subst left
    exact .call known inner (.refer took feature op target text)

/-- Every run has its deeds. -/
theorem Reaches.exists_writes (h : Reaches plan s t) (sane : s.Sane) : ∃ deeds, Writes plan s deeds t := by
  induction h with
  | refl => exact ⟨_, .refl⟩
  | trans first _ ih ih' =>
    obtain ⟨deeds, done⟩ := ih sane
    obtain ⟨more, further⟩ := ih' (first.sane sane)
    exact ⟨_, done.trans further⟩
  | note incident => exact ⟨_, .note incident⟩
  | record problem => exact ⟨_, .record problem⟩
  | fail problem => exact ⟨_, .fail problem⟩
  | settle => exact ⟨_, .settle⟩
  | consume feature => exact ⟨_, .consume feature⟩
  | collect text => exact ⟨_, .collect text⟩
  | assign plain feature op => exact ⟨_, .assign plain feature op⟩
  | refer feature op target text token => exact ⟨_, .refer feature op target text token⟩
  | retag type => exact ⟨_, .retag type⟩
  | @wrap s type feature op =>
    by_cases untyped : ∀ o, s.frame.content = .object o → o.type = none
    · exact ⟨_, .drop type feature op untyped⟩
    · exact ⟨_, .wrap type feature op⟩
  | call known inner back ih =>
    obtain ⟨deeds, done⟩ := ih (sane.enter _ _)
    cases back with
    | keep => exact ⟨_, .keep known inner rfl⟩
    | assign value feature op => exact ⟨_, .give known inner rfl value feature op⟩
    | adopt value =>
      obtain ⟨o, node, -, -, found, -⟩ := node_of_leave (inner.sane (sane.enter _ _)) value
      exact ⟨_, .take known done rfl value found⟩
    | refer took feature op target text =>
      exact ⟨_, .quote known inner rfl took feature op target text⟩

/-! ### What a feature shows of the deeds -/

/-- No default is declared for the feature in the type. -/
def Undefaulted (types : TypeHierarchy) (feature : String) (type : TypeId) : Prop :=
  ∀ entry ∈ types.allProperties type, entry.1 = feature → entry.2 = .value

/-- What the value of a feature shows of the deeds. Without a deed that writes it, it has a default of a type
that was taken over, if there is one; if it is only appended to, it has a list or a default. -/
structure Shows (types : TypeHierarchy) (feature : String) (deeds : List Deed) (v : Option Value) : Prop where
  unwritten : (∀ op, .write feature op ∉ deeds) →
    v = none ∨ v = some (.bool false) ∨ v = some (.list [])
  undeclared : (∀ op, .write feature op ∉ deeds) →
    (∀ type, .take type ∈ deeds → Undefaulted types feature type) → v = none
  appended : (∀ op, .write feature op ∈ deeds → op = .append) →
    v = none ∨ v = some (.bool false) ∨ ∃ items, v = some (.list items)

namespace Shows

variable {types : TypeHierarchy} {feature : String} {deeds more : List Deed} {v w : Option Value}

theorem none (deeds : List Deed) : Shows types feature deeds none :=
  ⟨fun _ => .inl rfl, fun _ _ => rfl, fun _ => .inl rfl⟩

theorem mono (h : Shows types feature deeds v) (subset : ∀ d ∈ deeds, d ∈ more) :
    Shows types feature more v where
  unwritten none := h.unwritten fun op mem => none op (subset _ mem)
  undeclared none plain :=
    h.undeclared (fun op mem => none op (subset _ mem)) fun type mem => plain type (subset _ mem)
  appended only := h.appended fun op mem => only op (subset _ mem)

/-- Where nothing is done and the value stays, nothing else shows. -/
theorem unchanged (h : Shows types feature deeds v) (same : w = v) : Shows types feature (deeds ++ []) w := by
  rw [List.append_nil, same]
  exact h

/-- What is written shows in the deeds. -/
theorem write {p : Properties} (h : Shows types feature deeds (p.get? feature)) (other : String)
    (op : AssignOp) (value : Value) :
    Shows types feature (deeds ++ [.write other op]) ((p.assigned other op value).get? feature) := by
  have subset : ∀ d ∈ deeds, d ∈ deeds ++ [.write other op] := fun d => List.mem_append_left _
  by_cases same : feature = other
  · subst same
    have written : .write feature op ∈ deeds ++ [.write feature op] := by simp
    refine ⟨fun none => absurd written (none op), fun none => absurd written (none op), fun only => ?_⟩
    obtain rfl : op = .append := only op written
    exact .inr (.inr (p.get?_append_list feature value))
  · rw [p.get?_assigned_ne same]
    exact h.mono subset

/-- Where one value fills the gap of another one, both show. -/
theorem merge (theirs : Shows types feature deeds v) (mine : Shows types feature more w) :
    Shows types feature (deeds ++ more) (Properties.merged v w) := by
  have left : ∀ d ∈ deeds, d ∈ deeds ++ more := fun d => List.mem_append_left _
  have right : ∀ d ∈ more, d ∈ deeds ++ more := fun d => List.mem_append_right _
  have theirs := theirs.mono left
  have mine := mine.mono right
  refine ⟨fun none => ?_, fun none plain => ?_, fun only => ?_⟩
  · have hv := theirs.unwritten none
    have hw := mine.unwritten none
    rcases hv with rfl | rfl | rfl <;> rcases hw with rfl | rfl | rfl <;> simp [Properties.merged]
  · rw [theirs.undeclared none plain, mine.undeclared none plain]
    rfl
  · have hv := theirs.appended only
    have hw := mine.appended only
    rcases hv with rfl | rfl | ⟨items, rfl⟩ <;> rcases hw with rfl | rfl | ⟨items', rfl⟩ <;>
      simp [Properties.merged]

/-- A finished node shows the deeds of its frame and the defaults of its type. -/
theorem finish {p : Properties} (h : Shows types feature deeds (p.get? feature)) (type : TypeId) :
    Shows types feature (deeds ++ [.take type]) ((withDefaults types type p).get? feature) := by
  have h : Shows types feature (deeds ++ [.take type]) (p.get? feature) :=
    h.mono fun d => List.mem_append_left _
  have given := defaulted_withDefaults types type p feature
  refine ⟨fun none => ?_, fun none plain => ?_, fun only => ?_⟩
  · rcases given with same | ⟨-, isFalse | isNil⟩
    · rw [same]
      exact h.unwritten none
    · exact .inr (.inl isFalse)
    · exact .inr (.inr isNil)
  · rw [get?_withDefaults (plain type (by simp))]
    exact h.undeclared none plain
  · rcases given with same | ⟨-, isFalse | isNil⟩
    · rw [same]
      exact h.appended only
    · exact .inr (.inl isFalse)
    · exact .inr (.inr ⟨[], isNil⟩)

end Shows

/-- An object takes over a node with what it had collected in the gaps. -/
theorem content_adopt {o : Object} {n : NodeId} {node : AstNode} (content : s.frame.content = .object o)
    (distinct : o.properties.Distinct) (found : s.nodes[n]? = some node) :
    ∃ o', (s.adopt n).frame.content = .object o' ∧ ∀ feature,
      o'.properties.get? feature =
        Properties.merged (o.properties.get? feature) (node.properties.get? feature) := by
  rw [adopt_of_object content found]
  exact ⟨_, rfl, fun feature => Properties.get?_fillFrom _ distinct feature⟩

/-! ### What a step does to a feature -/

theorem value?_retag (s : State) (type : TypeId) (feature : String) :
    (s.retag type).frame.value? feature = s.frame.value? feature := by
  unfold State.retag
  split
  · rfl
  · next o content =>
    split
    · rfl
    · rw [Frame.value?_of_object content]
      rfl

/-- Back from a call, with the trees that it brings, every feature has the value that it had in the frame of
the caller. -/
theorem value?_leave (plan : Plan) (id : RuleId) (kind : RuleKind) (assigned : Option String) (offset : Nat)
    (caller : Frame) (s : State) (trees : List SourceTree) (feature : String) :
    ((leave plan id kind assigned offset caller s).state.attach trees).frame.value? feature =
      caller.value? feature := by
  change (leave plan id kind assigned offset caller s).state.frame.value? feature = _
  rw [frame_leave]

/-- An action that finds an object without a type leaves an object without features. -/
theorem value?_wrap_of_untyped (untyped : ∀ o, s.frame.content = .object o → o.type = none)
    (type : TypeId) (other : String) (op : AssignOp) (feature : String) :
    (s.wrap plan type other op).frame.value? feature = none := by
  cases content : s.frame.content with
  | text acc =>
    unfold State.wrap
    rw [content]
    exact Frame.value?_of_text content feature
  | object o =>
    rw [wrap_of_object content, constructObject, untyped o content]
    rfl

namespace Shows

variable {types : TypeHierarchy} {feature : String} {before deeds : List Deed}

/-- A frame starts without deeds and without a value for any feature. -/
theorem entered (types : TypeHierarchy) (feature : String) (id : RuleId) (kind : RuleKind) :
    Shows types feature [] ((Frame.enter id kind).value? feature) := by
  have absent : (Frame.enter id kind).value? feature = .none := by
    cases kind <;> rfl
  rw [absent]
  exact .none _

/-- A frame without an object has a value for no feature. -/
theorem of_text {f : Frame} {text : String} (content : f.content = .text text) (deeds : List Deed) :
    Shows types feature deeds (f.value? feature) := by
  rw [Frame.value?_of_text content]
  exact .none deeds

/-- An assignment shows in the deeds. Outside of an object it is not made. -/
theorem assign (h : Shows types feature before (s.frame.value? feature)) (other : String) (op : AssignOp)
    (value : Value) :
    Shows types feature (before ++ [.write other op]) ((s.assign other op value).frame.value? feature) := by
  cases content : s.frame.content with
  | text acc =>
    unfold State.assign
    rw [content]
    exact .of_text content _
  | object o =>
    rw [assign_of_object content]
    rw [Frame.value?_of_object content] at h
    exact h.write other op value

theorem refer (h : Shows types feature before (s.frame.value? feature)) (other : String) (op : AssignOp)
    (target : TypeId) (text : String) (source : SourceTree) :
    Shows types feature (before ++ [.write other op])
      ((makeReference other op target text source s).frame.value? feature) :=
  assign (s := { s with references := s.references.push { text, target, source } }) h other op
    (.reference s.references.size)

/-- The object that an action starts holds the finished one and nothing else. -/
theorem wrap (s : State) (type : TypeId) (other : String) (op : AssignOp) :
    Shows types feature (before ++ [.write other op]) ((s.wrap plan type other op).frame.value? feature) := by
  cases content : s.frame.content with
  | text acc =>
    unfold State.wrap
    rw [content]
    exact .of_text content _
  | object o =>
    rw [wrap_of_object content]
    generalize s.constructObject plan o (wrapChildren other s.frame) = out
    obtain ⟨t, built⟩ := out
    have fresh : ∀ deeds, Shows types feature deeds
        ((t.restarted type (wrappedTrees s.frame other built)).frame.value? feature) :=
      fun deeds => .none deeds
    cases built with
    | none => exact fresh _
    | some id => exact (fresh before).assign other op (.node id)

/-- The node that a callee returns shows the deeds of the callee and the defaults of its type. -/
theorem returned {id : RuleId} {kind : RuleKind} {assigned : Option String} {offset : Nat}
    {caller : Frame} {n : NodeId} {node : AstNode} (sane : s.Sane)
    (h : Shows plan.grammar.types feature deeds (s.frame.value? feature))
    (value : (leave plan id kind assigned offset caller s).value = some (.node n))
    (found : (leave plan id kind assigned offset caller s).state.nodes[n]? = some node) :
    Shows plan.grammar.types feature (deeds ++ [.take node.type]) (node.properties.get? feature) := by
  obtain ⟨o, node', content, -, found', properties⟩ := node_of_leave sane value
  obtain rfl : node = node' := Option.some.inj (found.symm.trans found')
  rw [Frame.value?_of_object content] at h
  rw [properties]
  exact h.finish node.type

/-- An object that takes over a node shows what it had and what the node brings. -/
theorem adopt {n : NodeId} {node : AstNode} (theirs : Shows types feature before (s.frame.value? feature))
    (mine : Shows types feature deeds (node.properties.get? feature))
    (distinct : ∀ o, s.frame.content = .object o → o.properties.Distinct)
    (found : s.nodes[n]? = some node) :
    Shows types feature (before ++ deeds) ((s.adopt n).frame.value? feature) := by
  cases content : s.frame.content with
  | text acc =>
    unfold State.adopt
    rw [content]
    exact .of_text content _
  | object o =>
    obtain ⟨after, taken, merges⟩ := content_adopt content (distinct o content) found
    rw [Frame.value?_of_object taken, merges]
    rw [Frame.value?_of_object content] at theirs
    exact theirs.merge mine

end Shows

/-- In any frame the deeds show in every feature. -/
theorem Writes.shows {deeds : List Deed} (h : Writes plan s deeds t) (sane : s.Sane) (feature : String)
    {before : List Deed} (start : Shows plan.grammar.types feature before (s.frame.value? feature)) :
    Shows plan.grammar.types feature (before ++ deeds) (t.frame.value? feature) := by
  induction h generalizing before with
  | refl => exact start.unchanged rfl
  | trans first _ ih ih' =>
    rw [← List.append_assoc]
    exact ih' (first.reaches.sane sane) (ih sane start)
  | note => exact start.unchanged rfl
  | record => exact start.unchanged rfl
  | @fail s problem => exact start.unchanged (Takes.raise plan s problem).value?_eq
  | settle => exact start.unchanged rfl
  | @consume s assigned => exact start.unchanged (Takes.consume s assigned).value?_eq
  | collect text => exact start.unchanged (sameFor_collect text).value
  | assign _ other op => exact start.assign other op _
  | refer other op target text token => exact start.refer other op target text _
  | @retag s type => exact start.unchanged (value?_retag s type feature)
  | @wrap s type other op => exact .wrap s type other op
  | drop type other op untyped =>
    rw [value?_wrap_of_untyped untyped]
    exact .none _
  | @keep s ended id rule assigned offset _ _ _ left =>
    subst left
    exact start.unchanged (value?_leave plan id rule.kind assigned offset s.frame ended _ feature)
  | @give s ended id rule assigned offset _ _ out left n _ other op =>
    subst left
    rw [← value?_leave plan id rule.kind assigned offset s.frame ended _ feature] at start
    exact start.assign other op (.node n)
  | @quote s ended id rule assigned offset _ _ out left tree _ other op target text =>
    subst left
    rw [← value?_leave plan id rule.kind assigned offset s.frame ended [tree] feature] at start
    exact start.refer other op target text tree
  | @take s ended id rule assigned offset deeds known inner out left n node value found ih =>
    subst left
    have entered := sane.enter id rule.kind
    have brought := (ih entered (.entered _ feature id rule.kind)).returned (inner.reaches.sane entered) value
      found
    have back := congrArg Frame.content (frame_leave plan id rule.kind assigned offset s.frame ended)
    rw [← value?_leave plan id rule.kind assigned offset s.frame ended _ feature] at start
    exact start.adopt brought (fun o content => sane.object o (back.symm.trans content)) found

/-! ### The caller after the call -/

/-- What an unassigned call leaves of a feature: the caller had `theirs`, the node of the callee has `mine`
after the deeds of the callee, and then the object of the caller has `after`. -/
structure Adopted (types : TypeHierarchy) (feature : String) (deeds : List Deed) (type : TypeId)
    (theirs mine after : Option Value) : Prop where
  merges : after = Properties.merged theirs mine
  /-- Without a deed that writes the feature, the node has at most a default for it. -/
  unwritten : (∀ op, .write feature op ∉ deeds) →
    mine = none ∨ mine = some (.bool false) ∨ mine = some (.list [])
  /-- The value of the caller is kept where no type that comes in declares a default. -/
  kept : (∀ op, .write feature op ∉ deeds) →
    (∀ type', type' = type ∨ .take type' ∈ deeds → Undefaulted types feature type') → after = theirs
  /-- In general it is kept unless a default hides it. -/
  kept_iff : (∀ op, .write feature op ∉ deeds) → ∀ v, theirs = some v →
    (after = some v ↔
      mine = none ∨ mine = some v ∨ mine = some (.list []) ∧ ∃ items, v = .list items)
  /-- If both only appended, the items of the callee come behind those of the caller, unless a `false` hides
  them. -/
  joined : (∀ op, .write feature op ∈ deeds → op = .append) → ∀ items, theirs = some (.list items) →
    mine = some (.bool false) ∧ after = some (.bool false) ∨
      ∃ more, (mine = some (.list more) ∨ mine = none ∧ more = []) ∧
        after = some (.list (items ++ more))

theorem Shows.adopted {types : TypeHierarchy} {feature : String} {deeds : List Deed} {type : TypeId}
    {theirs mine : Option Value} (h : Shows types feature (deeds ++ [.take type]) mine) :
    Adopted types feature deeds type theirs mine (Properties.merged theirs mine) := by
  have writes : ∀ op, .write feature op ∈ deeds ++ [.take type] → .write feature op ∈ deeds := by
    intro op mem
    simpa using mem
  have unwritten := fun none : ∀ op, .write feature op ∉ deeds =>
    h.unwritten fun op mem => none op (writes op mem)
  refine ⟨rfl, unwritten, fun none plain => ?_, fun none v given => ?_, fun only items given => ?_⟩
  · have absent := h.undeclared (fun op mem => none op (writes op mem)) fun type' mem => by
      rcases List.mem_append.1 mem with inside | last
      · exact plain type' (.inr inside)
      · obtain rfl : type' = type := by simpa using last
        exact plain type' (.inl rfl)
    rw [absent]
    cases theirs with
    | none => rfl
    | some v => cases v <;> rfl
  · subst given
    rcases unwritten none with rfl | rfl | rfl
    · cases v <;> simp [Properties.merged]
    · cases v <;> simp [Properties.merged]
    · cases v <;> simp [Properties.merged]
  · subst given
    rcases h.appended fun op mem => only op (writes op mem) with rfl | rfl | ⟨more, rfl⟩
    · exact .inr ⟨[], .inr ⟨rfl, rfl⟩, by simp [Properties.merged]⟩
    · exact .inl ⟨rfl, rfl⟩
    · exact .inr ⟨more, .inl rfl, rfl⟩

/-- The run of a callee in a frame of its own. -/
def runCallee (plan : Plan) (depth : Nat) (id : RuleId) (rule : Rule) (s : State) : State :=
  runReported plan (Interpreter.invoke plan depth) rule.body { s with frame := Frame.enter id rule.kind }

theorem exists_adopted {depth : Nat} {id : RuleId} {rule : Rule} {returns : Option TypeId} {o : Object}
    {n : NodeId} (sane : s.Sane) (known : plan.grammar.rules[id]? = some rule)
    (kind : rule.kind = .parser returns) (content : s.frame.content = .object o)
    (value : (Interpreter.invoke plan (depth + 1) id none s).value = some (.node n)) :
    ∃ node o', (Interpreter.invoke plan (depth + 1) id none s).state.nodes[n]? = some node ∧
      (call plan (Interpreter.invoke plan (depth + 1)) id none s).frame.content = .object o' ∧
      ∀ deeds, Writes plan { s with frame := Frame.enter id rule.kind } deeds
          (runCallee plan depth id rule s) →
        ∀ feature, Adopted plan.grammar.types feature deeds node.type (o.properties.get? feature)
          (node.properties.get? feature) (o'.properties.get? feature) := by
  have entered := sane.enter id rule.kind
  have ran : Reaches plan { s with frame := Frame.enter id rule.kind } (runCallee plan depth id rule s) :=
    reaches_runReported (proper_invoke depth) _ _
  have called : call plan (Interpreter.invoke plan (depth + 1)) id none s =
      ((Interpreter.invoke plan (depth + 1) id none s).state.attach
        ((Interpreter.invoke plan (depth + 1) id none s).tree.toList.map (·.withOwner none))).adopt n := by
    rw [call, known]
    simp only [kind, Option.map_none, value]
  rw [called]
  have left : Interpreter.invoke plan (depth + 1) id none s =
      leave plan id rule.kind none (s.nextOffset plan) s.frame (runCallee plan depth id rule s) := by
    rw [Interpreter.invoke, known]
    rfl
  rw [left] at value ⊢
  obtain ⟨-, node, -, -, found, -⟩ := node_of_leave (ran.sane entered) value
  have back := congrArg Frame.content
    (frame_leave plan id rule.kind none (s.nextOffset plan) s.frame (runCallee plan depth id rule s))
  obtain ⟨o', taken, merges⟩ := content_adopt
    (s := (leave plan id rule.kind none (s.nextOffset plan) s.frame
      (runCallee plan depth id rule s)).state.attach _) (back.trans content) (sane.object o content) found
  refine ⟨node, o', found, taken, fun deeds done feature => ?_⟩
  have mine := done.shows entered feature (.entered _ feature id rule.kind)
  rw [merges]
  exact (mine.returned (ran.sane entered) value found).adopted

end Interpreter

/-- The node that an invocation returns, if it returns one. -/
def Invoked.nodeId? (out : Invoked) : Option NodeId :=
  match out.value with
  | some (.node n) => some n
  | _ => none

namespace Parser

open Interpreter State

/-- The states that the frames of a parse go through. -/
inductive Visits (p : Parser) (lexed : LexResult) : State → Prop where
  | start : Visits p lexed (p.opened lexed)
  | run {s t : State} (visited : Visits p lexed s) (reached : Reaches (p.planFor lexed) s t) :
    Visits p lexed t
  | enter {s : State} {id : RuleId} {rule : Rule} (visited : Visits p lexed s)
    (known : p.grammar.rules[id]? = some rule) :
    Visits p lexed { s with frame := Frame.enter id rule.kind }

theorem Visits.sane {p : Parser} {lexed : LexResult} {s : State} (h : p.Visits lexed s) : s.Sane := by
  induction h with
  | start => exact p.sane_opened lexed
  | run _ reached ih => exact reached.sane ih
  | enter _ _ ih => exact ih.enter _ _

/-- **What an unassigned call keeps.** A frame that builds an object makes an unassigned call of a parser
rule, which returns a node. The callee has its deeds, and whatever they are, each feature of the caller's
object is afterwards what the caller had merged behind what the node has. So a value of the caller is kept if
the callee did not write the feature, unless the finished node has a default for it; and lists that both have
only appended to are joined, the caller's in front. -/
theorem adopted_of_call (p : Parser) (lexed : LexResult) {s : State} (visited : p.Visits lexed s)
    {depth : Nat} {id : RuleId} {rule : Rule} {returns : Option TypeId} {o : Object} {n : NodeId}
    (known : p.grammar.rules[id]? = some rule) (kind : rule.kind = .parser returns)
    (content : s.frame.content = .object o)
    (value : (Interpreter.invoke (p.planFor lexed) (depth + 1) id none s).value = some (.node n)) :
    (∃ deeds, Writes (p.planFor lexed) { s with frame := Frame.enter id rule.kind } deeds
      (runCallee (p.planFor lexed) depth id rule s)) ∧
    ∃ node o', (Interpreter.invoke (p.planFor lexed) (depth + 1) id none s).state.nodes[n]? = some node ∧
      (call (p.planFor lexed) (Interpreter.invoke (p.planFor lexed) (depth + 1)) id none s).frame.content =
        .object o' ∧
      ∀ deeds, Writes (p.planFor lexed) { s with frame := Frame.enter id rule.kind } deeds
          (runCallee (p.planFor lexed) depth id rule s) →
        ∀ feature, Adopted p.grammar.types feature deeds node.type (o.properties.get? feature)
          (node.properties.get? feature) (o'.properties.get? feature) := by
  have ran : Reaches (p.planFor lexed) { s with frame := Frame.enter id rule.kind }
      (runCallee (p.planFor lexed) depth id rule s) :=
    reaches_runReported (proper_invoke depth) _ _
  exact ⟨ran.exists_writes (visited.sane.enter id rule.kind),
    exists_adopted visited.sane known kind content value⟩

/-- A rule that writes no feature. -/
def attributeRule : Rule :=
  ⟨"Attribute", .parser (some DomainModel.propertyType), .keyword "attribute"⟩

abbrev attributeId : RuleId := 1

/-- A flag in front of an unassigned call. -/
def flaggedBody : Element :=
  .group [.repetition .optional (.assign "many" .flag (.keyword "many")), .call attributeId]

/-- Rules for an attribute that may have a flag. -/
def flagRules : Array Rule := #[
  ⟨"Flagged", .parser (some DomainModel.propertyType), flaggedBody⟩,
  attributeRule]

/-- The grammar of these rules. -/
def flagGrammar : Grammar where
  name := "Flags"
  types := DomainModel.types
  rules := flagRules
  entry := 0
  entryRule := ⟨"Flagged", .parser (some DomainModel.propertyType), flaggedBody⟩
  entryType := DomainModel.propertyType
  entry_eq := rfl
  entry_kind := rfl
  faultless := by decide +kernel

/-- The parser of this grammar. -/
def flagParser : Parser where
  grammar := flagGrammar
  limits := {}
  lookahead := .of flagGrammar
  lookahead_eq := rfl
  not_leftRecursive := by decide +kernel

/-- An attribute with its flag. -/
def flagText : LexResult := Lexer.tokenize ["many", "attribute"] "many attribute"

/-- The state in which the flag is set and the call comes next. -/
def flagState : State :=
  ((flagParser.opened flagText).consume (some "many")).1.assign "many" .flag (.text "many")

theorem visits_flagState : flagParser.Visits flagText flagState := by
  have plain : (Value.text "many").IsPlain := trivial
  exact .run .start (.trans (.consume (some "many")) (.assign plain "many" .flag))

theorem content_flagState :
    ∃ o, flagState.frame.content = .object o ∧ o.properties.get? "many" = some (.bool true) := by
  have content : ((flagParser.opened flagText).consume (some "many")).1.frame.content =
      .object { type := some DomainModel.propertyType } :=
    (Takes.consume (flagParser.opened flagText) (some "many")).content
  refine ⟨{ type := some DomainModel.propertyType,
            properties := Properties.empty.assigned "many" .flag (.text "many") }, ?_, ?_⟩
  · rw [flagState, assign_of_object content]
  · exact Properties.get?_set_self _ _ _

/-- A keyword alone is no deed. -/
theorem writes_keyword {plan : Plan} {invoke : Invocation} (text : String) (s : State) :
    Writes plan s [] (runReported plan invoke (.keyword text) s) := by
  have taken : Writes plan s [] (s.expectKeyword plan text none).1 := by
    unfold State.expectKeyword State.expect
    dsimp only
    have raised : ∀ problem, Writes plan s [] (s.raise plan problem) := by
      intro problem
      unfold State.raise
      split
      · exact .refl
      · exact .record problem
    split
    · exact Writes.settle.trans (.consume none)
    · split
      · exact ((raised _).trans (.consume none)).trans (Writes.settle.trans (.consume none))
      · exact .fail _
  unfold runReported
  rw [Interpreter.run]
  dsimp only
  split
  · exact taken.trans (.collect text)
  · exact taken

/-- A flag that the caller has set is lost: the callee writes nothing, but its type declares the flag, so its
finished node has `false`. -/
theorem adopted_flag :
    ∃ o node o', flagState.frame.content = .object o ∧
      o.properties.get? "many" = some (.bool true) ∧
      Writes (flagParser.planFor flagText) { flagState with frame := Frame.enter attributeId attributeRule.kind } []
        (runCallee (flagParser.planFor flagText) 0 attributeId attributeRule flagState) ∧
      (call (flagParser.planFor flagText) (Interpreter.invoke (flagParser.planFor flagText) 1) attributeId none
        flagState).frame.content = .object o' ∧
      Adopted DomainModel.types "many" [] (AstNode.type node) (o.properties.get? "many")
        (node.properties.get? "many") (o'.properties.get? "many") ∧
      o'.properties.get? "many" = some (.bool false) := by
  obtain ⟨o, content, set⟩ := content_flagState
  have returned : (Interpreter.invoke (flagParser.planFor flagText) 1 attributeId none flagState).nodeId? =
      some 0 := by
    decide +kernel
  have value : (Interpreter.invoke (flagParser.planFor flagText) 1 attributeId none flagState).value =
      some (.node 0) := by
    unfold Invoked.nodeId? at returned
    split at returned
    · next n same =>
      cases returned
      exact same
    · cases returned
  have after : ((call (flagParser.planFor flagText)
      (Interpreter.invoke (flagParser.planFor flagText) 1) attributeId none flagState).frame.value? "many").bind
        Value.bool? = some false := by
    decide +kernel
  have done : Writes (flagParser.planFor flagText)
      { flagState with frame := Frame.enter attributeId attributeRule.kind } []
      (runCallee (flagParser.planFor flagText) 0 attributeId attributeRule flagState) := by
    unfold runCallee
    exact writes_keyword "attribute" _
  have known : flagParser.grammar.rules[attributeId]? = some attributeRule := rfl
  have kind : attributeRule.kind = .parser (some DomainModel.propertyType) := rfl
  obtain ⟨-, node, o', -, taken, adopted⟩ :=
    adopted_of_call flagParser flagText visits_flagState known kind content value
  rw [Nat.zero_add] at taken
  refine ⟨o, node, o', content, set, done, taken, adopted [] done "many", ?_⟩
  rw [Frame.value?_of_object taken] at after
  obtain ⟨v, has, isFalse⟩ := Option.bind_eq_some_iff.1 after
  rw [has]
  cases v <;> cases isFalse
  rfl

end Parser

end Workbench
