import Workbench.DomainModel.Grammar
import Workbench.Proofs.Parser.Features

/-!
**A logic for names.**

A class or datatype takes its name from one token, and the source tree of the finished node is to lead
back to that token, whatever errors the text has. This is shown by a small program logic for rule bodies.
An assertion is about the frame of the invocation, and a triple `Leads P body Q` says that `body` takes a
frame with `P` to one with `Q`, whether it got stuck or not, while what holds of the whole state is kept.
There is a rule for each kind of element.
-/

namespace Workbench.DomainModel

open Interpreter State SourceTree

/-- Classes and datatypes are declarations. -/
def isDeclaration (type : TypeId) : Bool := types.isSubtype type typeType

/-- A value is the name that an identifier among `tokens` spells, and the first of the trees is that
token. -/
def SpelledBy (tokens : List Token) (value : Value) (trees : List SourceTree) : Prop :=
  ∃ token ∈ tokens, token.kind = .identifier ∧ value = .text (Text.stripCaret token.image) ∧
    trees.head? = some (.leaf token (some "name"))

/-- A declaration that has a name has the token of it in its source. -/
def Spelled (tokens : List Token) (n : AstNode) : Prop :=
  isDeclaration n.type = true → ∀ value, n.properties.get? "name" = some value →
    ∃ source, n.source = some source ∧ SpelledBy tokens value (source.assignedTo "name")

/-! ### Assertions -/

/-- The object has no name yet. -/
structure Fresh (type : Option TypeId) (f : Frame) : Prop where
  type : f.objectType = some type
  value : f.value? "name" = none
  assigned : f.assigned "name" = []

/-- The object has a type that is none of a declaration. -/
def Undeclared (f : Frame) : Prop :=
  ∃ type, f.objectType = some (some type) ∧ isDeclaration type = false

/-- A text is collected. -/
structure Collecting (f : Frame) : Prop where
  type : f.objectType = none
  assigned : f.assigned "name" = []

/-- If the object is a declaration that has a name, then the first tree assigned to the name is the
token of it. Without a type, no tree is assigned to the name. -/
structure Named (tokens : List Token) (f : Frame) : Prop where
  untyped : (∀ type, f.objectType ≠ some (some type)) → f.assigned "name" = []
  typed : ∀ type, f.objectType = some (some type) → isDeclaration type = true →
    ∀ value, f.value? "name" = some value → SpelledBy tokens value (f.assigned "name")

variable {tokens : List Token} {f g : Frame}

/-- A named object. -/
structure NamedObject (tokens : List Token) (f : Frame) : Prop extends Named tokens f where
  object : f.objectType ≠ none

theorem Fresh.named {type : Option TypeId} (h : Fresh type f) : Named tokens f where
  untyped _ := h.assigned
  typed _ _ _ value found := by
    rw [h.value] at found
    cases found

theorem Undeclared.named (h : Undeclared f) : Named tokens f := by
  obtain ⟨type, typed, undeclared⟩ := h
  refine ⟨fun untyped => absurd typed (untyped type), fun type' typed' declared => ?_⟩
  rw [typed] at typed'
  cases typed'
  rw [undeclared] at declared
  cases declared

theorem Undeclared.namedObject (h : Undeclared f) : NamedObject tokens f := by
  refine ⟨h.named, ?_⟩
  obtain ⟨type, typed, -⟩ := h
  rw [typed]
  nofun

theorem Collecting.named (h : Collecting f) : Named tokens f where
  untyped _ := h.assigned
  typed type typed := by
    rw [h.type] at typed
    cases typed

/-- An assertion that says nothing of other features than the name. -/
def AboutName (P : Frame → Prop) : Prop :=
  ∀ f g, Frame.SameFor "name" f g → P f → P g

theorem aboutName_fresh (type : Option TypeId) : AboutName (Fresh type) := fun _ _ same h =>
  ⟨same.type.trans h.type, same.value.trans h.value, same.assigned.trans h.assigned⟩

theorem aboutName_undeclared : AboutName Undeclared := by
  rintro f g same ⟨type, typed, undeclared⟩
  exact ⟨type, same.type.trans typed, undeclared⟩

theorem aboutName_collecting : AboutName Collecting := fun _ _ same h =>
  ⟨same.type.trans h.type, same.assigned.trans h.assigned⟩

theorem aboutName_named : AboutName (Named tokens) := by
  intro f g same h
  refine ⟨fun untyped => ?_, fun type typed declared value found => ?_⟩
  · rw [same.assigned]
    exact h.untyped fun type typed => untyped type (same.type.trans typed)
  · rw [same.assigned]
    exact h.typed type (same.type.symm.trans typed) declared value (same.value.symm.trans found)

theorem aboutName_namedObject : AboutName (NamedObject tokens) := fun f g same h =>
  ⟨aboutName_named f g same h.toNamed, same.type ▸ h.object⟩

/-! ### States -/

/-- What holds of a state at all times: the tokens left are tokens of the text, the nodes built so far
are spelled in it, references ask for types, and the object under construction replaces a node that is
there. -/
structure Clean (tokens : List Token) (s : State) : Prop where
  stream : ∀ t ∈ s.stream.tokens, t ∈ tokens
  nodes : ∀ (id : NodeId) (n : AstNode), s.nodes[id]? = some n → Spelled tokens n
  references : ∀ (id : RefId) (r : Reference), s.references[id]? = some r →
    types.isSubtype r.target typeType = true
  slot : ∀ o id, s.frame.content = .object o → o.slot = some id → id < s.nodes.size

theorem Spelled.of_unplaced {m n : AstNode} (h : Spelled tokens n) (same : m.unplaced = n.unplaced) :
    Spelled tokens m := by
  unfold Spelled
  rw [AstNode.type_of_unplaced same, AstNode.properties_of_unplaced same,
    AstNode.source_of_unplaced same]
  exact h

namespace Clean

variable {plan : Plan} {s t : State}

theorem takes {assigned : Option String} {taken : Option Token} (h : Clean tokens s)
    (takes : Takes assigned s t taken) : Clean tokens t where
  stream u mem := h.stream u (takes.stream u mem)
  nodes := by
    rw [takes.nodes]
    exact h.nodes
  references := by
    rw [takes.references]
    exact h.references
  slot o id content := by
    rw [takes.nodes]
    exact h.slot o id (takes.content.symm.trans content)

theorem attach (h : Clean tokens s) (trees : List SourceTree) : Clean tokens (s.attach trees) :=
  ⟨h.stream, h.nodes, h.references, h.slot⟩

theorem note (h : Clean tokens s) (incident : Incident) : Clean tokens (s.note incident) :=
  ⟨h.stream, h.nodes, h.references, h.slot⟩

theorem report (h : Clean tokens s) (expected : FirstSet) : Clean tokens (s.report plan expected) := by
  have raised := h.takes (Takes.raise plan s (.noAlternative expected))
  exact ⟨raised.stream, raised.nodes, raised.references, raised.slot⟩

theorem collect (h : Clean tokens s) (text : String) : Clean tokens (s.collect text) := by
  unfold State.collect
  split
  · exact ⟨h.stream, h.nodes, h.references, nofun⟩
  · exact h

theorem assign (h : Clean tokens s) (feature : String) (op : AssignOp) (value : Value) :
    Clean tokens (s.assign feature op value) := by
  cases content : s.frame.content with
  | text acc =>
    unfold State.assign
    rw [content]
    exact h.note _
  | object o =>
    rw [assign_of_object content]
    refine ⟨h.stream, h.nodes, h.references, fun o' id eq => ?_⟩
    cases eq
    exact h.slot o id content

theorem makeReference (h : Clean tokens s) (feature : String) (op : AssignOp) {target : TypeId}
    (asked : types.isSubtype target typeType = true) (text : String) (source : SourceTree) :
    Clean tokens (makeReference feature op target text source s) := by
  have grown : Clean tokens { s with references := s.references.push { text, target, source } } := by
    refine ⟨h.stream, h.nodes, fun id r found => ?_, h.slot⟩
    rw [Array.getElem?_push] at found
    split at found
    · cases found
      exact asked
    · exact h.references id r found
  exact grown.assign feature op _

/-- A node that is taken over gives all its features away. -/
theorem adopt (h : Clean tokens s) {n : NodeId} {m : AstNode} {o : Object}
    (content : s.frame.content = .object o) (found : s.nodes[n]? = some m) : Clean tokens (s.adopt n) := by
  have bound : n < s.nodes.size := (Array.getElem?_eq_some_iff.1 found).1
  rw [adopt_of_object content found]
  refine ⟨h.stream, fun j m' found' => ?_, h.references, ?_⟩
  · by_cases same : n = j
    · subst same
      have emptied : m' = { m with properties := .empty, source := none } := by
        simpa [bound, eq_comm] using found'
      subst emptied
      intro _ value present
      cases present
    · refine h.nodes j m' ?_
      simpa [same] using found'
  · rintro o' k ⟨⟩ ⟨⟩
    simpa using bound

/-- What another frame needs to take the place of the present one. -/
theorem withFrame (h : Clean tokens s) {frame : Frame}
    (slot : ∀ o id, frame.content = .object o → o.slot = some id → id < s.nodes.size) :
    Clean tokens { s with frame } :=
  ⟨h.stream, h.nodes, h.references, slot⟩

theorem gains {id : NodeId} {n : AstNode} (h : Clean tokens s) (gains : Gains s t id n)
    (stream : t.stream = s.stream) (frame : t.frame = s.frame)
    (size : s.nodes.size ≤ t.nodes.size) (spelled : Spelled tokens n) : Clean tokens t := by
  refine ⟨by rw [stream]; exact h.stream, fun j m found => ?_, fun j r found => ?_,
    fun o j content slot => ?_⟩
  · by_cases same : j = id
    · subst same
      obtain ⟨m', found', eq⟩ := gains.self
      rw [found] at found'
      cases found'
      exact spelled.of_unplaced eq
    · have eq := gains.other j same
      rw [found, Option.map_some] at eq
      obtain ⟨m', found', eq⟩ := Option.map_eq_some_iff.1 eq.symm
      exact (h.nodes j m' found').of_unplaced eq.symm
  · have eq := gains.references j
    rw [found, Option.map_some] at eq
    obtain ⟨r', found', eq⟩ := Option.map_eq_some_iff.1 eq.symm
    have target : r.unplaced.target = r'.unplaced.target := by rw [eq]
    rw [show r.target = r'.target from target]
    exact h.references j r' found'
  · exact Nat.lt_of_lt_of_le (h.slot o j (frame ▸ content) slot) size

end Clean

/-! ### Triples -/

/-- Takes every clean state with `P` to a clean state with `Q`, stuck or not. -/
def Leads (tokens : List Token) (P : Frame → Prop) (body : State → Outcome) (Q : Frame → Prop) : Prop :=
  ∀ s, Clean tokens s → P s.frame → Clean tokens (body s).state ∧ Q (body s).state.frame

/-- Leaves the name alone. -/
def Spares (tokens : List Token) (body : State → Outcome) : Prop :=
  ∀ s, Clean tokens s →
    Clean tokens (body s).state ∧ Frame.SameFor "name" s.frame (body s).state.frame

section Triples

variable {plan : Plan} {invoke : Invocation} {P Q R : Frame → Prop} {body : State → Outcome}

theorem Spares.leads (h : Spares tokens body) (about : AboutName P) : Leads tokens P body P := by
  intro s clean holds
  obtain ⟨clean', same⟩ := h s clean
  exact ⟨clean', about _ _ same holds⟩

theorem Leads.weaken (h : Leads tokens P body Q) (weaker : ∀ f, Q f → R f) : Leads tokens P body R := by
  intro s clean holds
  obtain ⟨clean', holds'⟩ := h s clean holds
  exact ⟨clean', weaker _ holds'⟩

theorem leads_nil : Leads tokens P (runAll plan invoke []) P := by
  intro s clean holds
  rw [runAll]
  exact ⟨clean, holds⟩

/-- Where the first item gets stuck, the others do not run. -/
theorem leads_cons {item : Element} {rest : List Element} (first : Leads tokens P (run plan invoke item) Q)
    (others : Leads tokens Q (runAll plan invoke rest) R) (stuck : ∀ f, Q f → R f) :
    Leads tokens P (runAll plan invoke (item :: rest)) R := by
  intro s clean holds
  obtain ⟨clean', holds'⟩ := first s clean holds
  rw [runAll]
  split
  · exact ⟨clean', stuck _ holds'⟩
  · exact others _ clean' holds'

theorem leads_all {items : List Element} (h : ∀ item ∈ items, Leads tokens P (run plan invoke item) P) :
    Leads tokens P (runAll plan invoke items) P := by
  induction items with
  | nil => exact leads_nil
  | cons item rest ih =>
    refine leads_cons (h item List.mem_cons_self) (ih fun item mem => ?_) fun _ holds => holds
    exact h item (List.mem_cons_of_mem _ mem)

theorem leads_group {items : List Element} (h : Leads tokens P (runAll plan invoke items) Q) :
    Leads tokens P (run plan invoke (.group items)) Q := by
  intro s
  rw [run]
  exact h s

theorem leads_turns {canStart : State → Bool} (h : Leads tokens P body P) (fuel : Nat) :
    Leads tokens P (turns plan canStart body fuel) P := by
  induction fuel with
  | zero => exact fun s clean holds => ⟨clean, holds⟩
  | succ fuel ih =>
    intro s clean holds
    obtain ⟨clean', holds'⟩ := h s clean holds
    unfold turns
    dsimp only
    split
    · split
      · split
        · refine ih _ (clean'.report _) ?_
          rwa [frame_report]
        · exact ⟨clean', holds'⟩
      · split
        · exact ih _ clean' holds'
        · exact ⟨clean', holds'⟩
    · exact ⟨clean, holds⟩

theorem leads_repetition {item : Element} (h : Leads tokens P (run plan invoke item) P)
    (cardinality : Cardinality) :
    Leads tokens P (run plan invoke (.repetition cardinality item)) P := by
  intro s clean holds
  rw [run]
  cases cardinality with
  | optional =>
    unfold repeated
    dsimp only
    split
    · exact h s clean holds
    · exact ⟨clean, holds⟩
  | zeroOrMore => exact leads_turns h _ s clean holds
  | oneOrMore =>
    obtain ⟨clean', holds'⟩ := h s clean holds
    unfold repeated
    dsimp only
    split
    · exact ⟨clean', holds'⟩
    · split
      · exact leads_turns h _ _ clean' holds'
      · exact ⟨clean', holds'⟩

theorem leads_nth {items : List Element} (h : ∀ item ∈ items, Leads tokens P (run plan invoke item) Q)
    (none : ∀ f, P f → Q f) (i : Nat) : Leads tokens P (runNth plan invoke items i) Q := by
  induction items generalizing i with
  | nil =>
    intro s clean holds
    rw [runNth]
    exact ⟨clean, none _ holds⟩
  | cons item rest ih =>
    intro s
    cases i with
    | zero =>
      rw [runNth]
      exact h item List.mem_cons_self s
    | succ i =>
      rw [runNth]
      exact ih (fun item mem => h item (List.mem_cons_of_mem _ mem)) i s

theorem leads_alternatives {items : List Element}
    (h : ∀ item ∈ items, Leads tokens P (run plan invoke item) Q) (none : ∀ f, P f → Q f) :
    Leads tokens P (run plan invoke (.alternatives items)) Q := by
  intro s clean holds
  rw [run]
  split
  · exact leads_nth h none _ s clean holds
  · exact ⟨clean, none _ holds⟩

theorem spares_keyword (text : String) : Spares tokens (run plan invoke (.keyword text)) := by
  intro s clean
  have takes := Takes.expect plan s (·.isKeyword text) (.missingKeyword text) none
  have same : Frame.SameFor "name" s.frame _ := takes.sameFor nofun
  rw [run]
  dsimp only [State.expectKeyword]
  split
  · exact ⟨(clean.takes takes).collect text, same.trans (sameFor_collect text)⟩
  · exact ⟨clean.takes takes, same⟩

end Triples

/-! ### Invocations -/

/-- What an invocation gives back. Its tree shows no name to the outside, and a node comes with its
source. -/
structure Delivers (tokens : List Token) (s : State) (feature : Option String) (out : Invoked) :
    Prop where
  clean : Clean tokens out.state
  frame : out.state.frame = s.frame
  tree : feature ≠ some "name" → withFeatureOf "name" out.tree.toList = []
  node : ∀ n, out.value = some (.node n) → ∃ m rule offset children,
    out.state.nodes[n]? = some m ∧ m.source = out.tree ∧
      out.tree = some ((close rule feature offset children).withOwner (some n))

/-- Invocations that always deliver. -/
def Obeys (tokens : List Token) (invoke : Invocation) : Prop :=
  ∀ id feature s, Clean tokens s → Delivers tokens s feature (invoke id feature s)

/-- What an assignment to a feature keeps: the type of the object, and the name if the feature is
another one. -/
structure Keeps (tokens : List Token) (feature : String) (s t : State) : Prop where
  clean : Clean tokens t
  type : t.frame.objectType = s.frame.objectType
  same : feature ≠ "name" → Frame.SameFor "name" s.frame t.frame

namespace Keeps

variable {feature : String} {s t : State}

theorem of_same (clean : Clean tokens t) (same : Frame.SameFor "name" s.frame t.frame) :
    Keeps tokens feature s t :=
  ⟨clean, same.type, fun _ => same⟩

theorem of_takes {taken : Option Token} (clean : Clean tokens s)
    (takes : Takes (some feature) s t taken) : Keeps tokens feature s t :=
  ⟨clean.takes takes, takes.objectType_eq, fun other => takes.sameFor (by simpa using other)⟩

theorem attach {out : Invoked} (delivers : Delivers tokens s (some feature) out) :
    Keeps tokens feature s (out.state.attach out.tree.toList) := by
  refine ⟨delivers.clean.attach _, ?_, fun other => ?_⟩
  · show out.state.frame.objectType = _
    rw [delivers.frame]
  · rw [← delivers.frame]
    exact sameFor_attach (delivers.tree (by simpa using other))

theorem assign (h : Keeps tokens feature s t) (op : AssignOp) (value : Value) :
    Keeps tokens feature s (t.assign feature op value) :=
  ⟨h.clean.assign feature op value, (objectType_assign feature op value).trans h.type,
    fun other => (h.same other).trans (sameFor_assign (Ne.symm other) op value)⟩

theorem makeReference (h : Keeps tokens feature s t) (op : AssignOp) {target : TypeId}
    (asked : types.isSubtype target typeType = true) (text : String) (source : SourceTree) :
    Keeps tokens feature s (makeReference feature op target text source t) := by
  refine ⟨h.clean.makeReference feature op asked text source, ?_, fun other => ?_⟩
  · exact (objectType_assign (s := { t with references := t.references.push { text, target, source } })
      feature op _).trans h.type
  · exact (h.same other).trans (sameFor_assign
      (s := { t with references := t.references.push { text, target, source } }) (Ne.symm other) op _)

end Keeps

section Assignments

variable {plan : Plan} {invoke : Invocation} {feature : String} {s : State}

theorem keeps_call (obeys : Obeys tokens invoke) (clean : Clean tokens s) (id : RuleId)
    (op : AssignOp) : Keeps tokens feature s (runAssigned plan invoke feature op (.call id) s).state := by
  rw [runAssigned]
  dsimp only
  unfold call
  split
  · exact .of_same (clean.note _) (.refl _)
  · next rule _ =>
    split
    · next token value _ =>
      have taken := Keeps.of_takes clean (Takes.expect plan s (·.kind == token)
        (.missingToken rule.name) (some feature))
      dsimp only [State.expectKind, Option.map_some]
      split
      · exact taken
      · next eq =>
        cases eq
        exact taken.assign op _
      · next eq => cases eq
    · have attached := Keeps.attach (obeys id (some feature) s clean)
      dsimp only [Option.map_some]
      split
      · exact attached
      · next eq =>
        cases eq
        exact attached.assign op _
      · next eq =>
        cases eq
        exact attached.assign op _
      · next eq => cases eq
      · next eq => cases eq

theorem keeps_crossReference (obeys : Obeys tokens invoke) (clean : Clean tokens s) (op : AssignOp)
    {target : TypeId} (asked : types.isSubtype target typeType = true) (id : RuleId) :
    Keeps tokens feature s (runAssigned plan invoke feature op (.crossRef target id) s).state := by
  rw [runAssigned]
  dsimp only
  unfold crossReference
  split
  · exact .of_same (clean.note _) (.refl _)
  · next rule _ =>
    split
    · next token value _ =>
      have taken := Keeps.of_takes clean (Takes.expect plan s (·.kind == token)
        (.missingToken rule.name) (some feature))
      dsimp only [State.expectKind]
      split
      · exact taken
      · exact taken.makeReference op asked _ _
    · have attached := Keeps.attach (obeys id (some feature) s clean)
      dsimp only
      split
      · exact attached.makeReference op asked _ _
      · exact ⟨attached.clean.note _, attached.type, attached.same⟩
      · exact attached

theorem keeps_keyword (clean : Clean tokens s) (op : AssignOp) (text : String) :
    Keeps tokens feature s (runAssigned plan invoke feature op (.keyword text) s).state := by
  have taken := Keeps.of_takes clean
    (Takes.expect plan s (·.isKeyword text) (.missingKeyword text) (some feature))
  rw [runAssigned]
  dsimp only [State.expectKeyword]
  split
  · exact taken.assign op _
  · exact taken

theorem keeps_nthKeyword (clean : Clean tokens s) (op : AssignOp) (texts : List String) (i : Nat) :
    Keeps tokens feature s
      (runAssignedNth plan invoke feature op (texts.map .keyword) i s).state := by
  induction texts generalizing i with
  | nil =>
    rw [List.map_nil, runAssignedNth]
    exact .of_same clean (.refl _)
  | cons text rest ih =>
    rw [List.map_cons]
    cases i with
    | zero =>
      rw [runAssignedNth]
      exact keeps_keyword clean op text
    | succ i =>
      rw [runAssignedNth]
      exact ih i

theorem keeps_keywords (clean : Clean tokens s) (op : AssignOp) (texts : List String) :
    Keeps tokens feature s
      (runAssigned plan invoke feature op (.alternatives (texts.map .keyword)) s).state := by
  rw [runAssigned]
  split
  · exact keeps_nthKeyword clean op texts _
  · exact .of_same clean (.refl _)

theorem spares_assign {op : AssignOp} {value : Element} (other : feature ≠ "name")
    (h : ∀ s, Clean tokens s →
      Keeps tokens feature s (runAssigned plan invoke feature op value s).state) :
    Spares tokens (run plan invoke (.assign feature op value)) := by
  intro s clean
  rw [run]
  exact ⟨(h s clean).clean, (h s clean).same other⟩

theorem leads_assign_undeclared {op : AssignOp} {value : Element}
    (h : ∀ s, Clean tokens s →
      Keeps tokens feature s (runAssigned plan invoke feature op value s).state) :
    Leads tokens Undeclared (run plan invoke (.assign feature op value)) Undeclared := by
  rintro s clean ⟨type, typed, undeclared⟩
  rw [run]
  exact ⟨(h s clean).clean, type, (h s clean).type.trans typed, undeclared⟩

end Assignments

/-! ### Names and adoptions -/

section Rules

variable {plan : Plan} {invoke : Invocation} {s : State}

theorem object_of_objectType {type : Option TypeId} (h : f.objectType = some type) :
    ∃ o, f.content = .object o ∧ o.type = type := by
  unfold Frame.objectType at h
  split at h
  · next o content => exact ⟨o, content, Option.some.inj h⟩
  · cases h

/-- The name of a declaration is taken from one token. -/
theorem leads_name (domain : plan.grammar = grammar) {type : TypeId} :
    Leads tokens (Fresh (some type)) (run plan invoke (.assign "name" .set (.call nameRule)))
      (Named tokens) := by
  intro s clean fresh
  have takes := Takes.expect plan s (·.kind == .identifier) (.missingToken "ID") (some "name")
  have accepted := @accepts_of_expect plan s (·.kind == .identifier) (.missingToken "ID") (some "name")
  have rule : plan.grammar.rules[nameRule]? = some ⟨"ID", .terminal .identifier .id, .group []⟩ := by
    rw [domain]
    rfl
  rw [run, runAssigned, call, rule]
  dsimp only [State.expectKind, Option.map_some]
  generalize s.expect plan (·.kind == .identifier) (.missingToken "ID") (some "name") = out
    at takes accepted
  obtain ⟨t, taken⟩ := out
  dsimp only at takes accepted ⊢
  cases taken with
  | none =>
    have kept : Fresh (some type) t.frame := by
      refine ⟨takes.objectType_eq.trans fresh.type, takes.value?_eq.trans fresh.value, ?_⟩
      rw [takes.assigned_eq, fresh.assigned]
      simp
    exact ⟨clean.takes takes, kept.named⟩
  | some token =>
    obtain ⟨o, content, typed⟩ := object_of_objectType (takes.objectType_eq.trans fresh.type)
    have kind : token.kind = .identifier := by simpa using accepted rfl
    dsimp only
    refine ⟨(clean.takes takes).assign _ _ _, ?_⟩
    refine ⟨fun untyped => absurd ?_ (untyped type), fun type' _ _ value found => ?_⟩
    · rw [objectType_assign]
      exact takes.objectType_eq.trans fresh.type
    · refine ⟨token, clean.stream token (takes.mem token rfl), kind, ?_, ?_⟩
      · rw [assign_of_object content] at found
        have set := o.properties.get?_set_self "name" (ValueKind.id.convert token.image)
        exact Option.some.inj (found.symm.trans set)
      · rw [assigned_assign, takes.assigned_eq, fresh.assigned]
        simp

/-- An object without a name that takes over a node has the name of the node. -/
theorem namedObject_adopt {n : NodeId} {m : AstNode} {o : Object} {source : SourceTree}
    (content : s.frame.content = .object o) (found : s.nodes[n]? = some m)
    (unnamed : o.properties.get? "name" = none) (spelled : Spelled tokens m) (tree : m.source = some source)
    (assigned : s.frame.assigned "name" = source.assignedTo "name") :
    NamedObject tokens (s.adopt n).frame := by
  rw [adopt_of_object content found]
  refine ⟨⟨fun untyped => absurd rfl (untyped m.type), fun type typed declared value present => ?_⟩, ?_⟩
  · cases typed
    have present : (m.properties.fillFrom o.properties).get? "name" = some value := present
    rw [Properties.get?_fillFrom_of_none _ _ unnamed] at present
    obtain ⟨source', same, by_token⟩ := spelled declared value present
    obtain rfl : source = source' := Option.some.inj (tree.symm.trans same)
    change SpelledBy tokens value (s.frame.assigned "name")
    rwa [assigned]
  · intro none
    cases none

/-- What an adopted node was spelled by is in the tree that is taken over with it. -/
theorem leads_adopt (obeys : Obeys tokens invoke) {type : Option TypeId} {id : RuleId} {rule : Rule}
    (known : plan.grammar.rules[id]? = some rule) (parser : rule.kind.terminal? = none) :
    Leads tokens (Fresh type) (run plan invoke (.call id)) (NamedObject tokens) := by
  intro s clean fresh
  have delivers := obeys id none s clean
  have keep : NamedObject tokens s.frame := ⟨fresh.named, by rw [fresh.type]; intro none; cases none⟩
  have attached : Frame.SameFor "name" s.frame
      ((invoke id none s).state.attach (invoke id none s).tree.toList).frame := by
    rw [← delivers.frame]
    exact sameFor_attach (delivers.tree (by simp))
  rw [run, call, known]
  dsimp only [Option.map_none]
  split
  · next kind =>
    rw [kind] at parser
    cases parser
  generalize invoke id none s = out at delivers attached
  split
  · exact ⟨delivers.clean.attach _, aboutName_namedObject _ _ attached keep⟩
  · next eq => cases eq
  · next eq => cases eq
  · next n value _ =>
    obtain ⟨m, rule, offset, children, found, source, tree⟩ := delivers.node n value
    obtain ⟨o, content, -⟩ := object_of_objectType fresh.type
    have unnamed : o.properties.get? "name" = none :=
      (Frame.value?_of_object content "name").symm.trans fresh.value
    have content : (out.state.attach (out.tree.toList.map (·.withOwner none))).frame.content =
        .object o := by
      rw [← content, ← delivers.frame]
      rfl
    have assigned : (out.state.attach (out.tree.toList.map (·.withOwner none))).frame.assigned "name" =
        ((close rule none offset children).withOwner (some n)).assignedTo "name" := by
      rw [assigned_attach, delivers.frame, fresh.assigned, tree, assignedTo, children_withOwner,
        children_close]
      simp [close, withOwner, withFeature]
    exact ⟨(delivers.clean.attach _).adopt content found,
      namedObject_adopt content found unnamed (delivers.clean.nodes n m found) (source.trans tree) assigned⟩
  · exact ⟨(delivers.clean.attach _).collect _,
      aboutName_namedObject _ _ (attached.trans (sameFor_collect _)) keep⟩

/-- A token taken for a text is no name. -/
theorem spares_token {id : RuleId} {rule : Rule} {kind : TokenKind} {value : ValueKind}
    (known : plan.grammar.rules[id]? = some rule) (terminal : rule.kind = .terminal kind value) :
    Spares tokens (run plan invoke (.call id)) := by
  intro s clean
  have takes := Takes.expect plan s (·.kind == kind) (.missingToken rule.name) none
  have same : Frame.SameFor "name" s.frame _ := takes.sameFor nofun
  rw [run, call, known]
  dsimp only [Option.map_none]
  rw [terminal]
  dsimp only [State.expectKind]
  split
  · exact ⟨clean.takes takes, same⟩
  · next eq => cases eq
  · exact ⟨(clean.takes takes).collect _, same.trans (sameFor_collect _)⟩

theorem leads_retag {type new : TypeId} (undeclared : isDeclaration type = false)
    (undeclared' : isDeclaration new = false) :
    Leads tokens (Fresh (some type)) (run plan invoke (.action new none)) Undeclared := by
  intro s clean fresh
  obtain ⟨o, content, typed⟩ := object_of_objectType fresh.type
  rw [run, State.retag, content]
  dsimp only
  split
  · exact ⟨clean, type, fresh.type, undeclared⟩
  · refine ⟨clean.withFrame ?_, new, rfl, undeclared'⟩
    rintro o' id ⟨⟩ slot
    exact clean.slot o id content slot

/-! ### Finishing nodes -/

theorem lt_of_isSubtype {type sup : TypeId} (h : types.isSubtype type sup = true) : type < 10 := by
  have size : types.ancestors.size = 10 := by decide +kernel
  unfold TypeHierarchy.isSubtype at h
  split at h
  · next found => exact size ▸ (Array.getElem?_eq_some_iff.1 found).1
  · cases h

/-- The name of a declaration gets no default. -/
theorem get?_withDefaults_name {type : TypeId} (h : isDeclaration type = true) (p : Properties) :
    (withDefaults types type p).get? "name" = p.get? "name" := by
  have plain : ∀ type < 10, isDeclaration type = true →
      ∀ entry ∈ types.allProperties type, entry.1 = "name" → entry.2 = .value := by
    decide +kernel
  exact get?_withDefaults (plain type (lt_of_isSubtype h) h) p

/-- The node made of a named object is spelled by what the object was. -/
theorem spelled_builtNode (named : Named tokens f) {o : Object} (content : f.content = .object o)
    {type : TypeId} (typed : o.type = some type) (id : NodeId) {source : Option SourceTree}
    (kept : f.children.toList ≠ [] → ∃ tree, source = some tree ∧ tree.children = f.children.toList) :
    Spelled tokens (builtNode types type o.properties id source) := by
  intro declared value present
  have declared : isDeclaration type = true := declared
  have present : (withDefaults types type o.properties).get? "name" = some value := present
  rw [get?_withDefaults_name declared] at present
  have spelled := named.typed type (by rw [Frame.objectType_of_object content, typed]) declared value
    (by rw [Frame.value?_of_object content, present])
  have some_children : f.children.toList ≠ [] := by
    obtain ⟨token, -, -, -, head⟩ := spelled
    intro empty
    rw [Frame.assigned, empty] at head
    simp at head
  obtain ⟨tree, rfl, children⟩ := kept some_children
  refine ⟨tree.withOwner (some id), rfl, ?_⟩
  rw [assignedTo, children_withOwner, children]
  exact spelled

/-- Finishing a named object keeps the state clean. -/
theorem clean_constructObject (domain : plan.grammar = grammar) (clean : Clean tokens s)
    (named : Named tokens f) {o : Object} (content : f.content = .object o)
    (slot : ∀ id, o.slot = some id → id < s.nodes.size) (source : Option SourceTree)
    (kept : f.children.toList ≠ [] → ∃ tree, source = some tree ∧ tree.children = f.children.toList) :
    Clean tokens (s.constructObject plan o source).1 := by
  have finishing := Finishing.constructObject plan s o source
  have size := size_le_constructObject plan o source s
  unfold constructObject at finishing size ⊢
  cases typed : o.type with
  | none => exact clean
  | some type =>
    simp only [typed] at finishing size ⊢
    have gains := gains_construct plan type o.properties source slot
    refine clean.gains gains finishing.stream finishing.frame size ?_
    have types : plan.grammar.types = types := by rw [domain]; rfl
    rw [types]
    exact spelled_builtNode named content typed _ kept

theorem leads_wrap (domain : plan.grammar = grammar) {type : TypeId} {feature : String} {op : AssignOp}
    (undeclared : isDeclaration type = false) :
    Leads tokens (NamedObject tokens) (run plan invoke (.action type (some (feature, op))))
      Undeclared := by
  intro s clean named
  obtain ⟨t, typed⟩ := Option.ne_none_iff_exists'.1 named.object
  obtain ⟨o, content, -⟩ := object_of_objectType typed
  have wrapped : s.frame.children.toList ≠ [] → ∃ tree, wrapChildren feature s.frame = some tree ∧
      tree.children = s.frame.children.toList := by
    intro nonempty
    unfold wrapChildren
    split
    · next empty => exact absurd empty nonempty
    · next first rest eq => exact ⟨_, rfl, by rw [children_close, eq]⟩
  have built := clean_constructObject domain clean named.toNamed content
    (fun id slot => clean.slot o id content slot) _ wrapped
  rw [run, wrap_of_object content]
  generalize s.constructObject plan o (wrapChildren feature s.frame) = out at built
  obtain ⟨u, id⟩ := out
  have restarted : ∀ trees, Clean tokens (u.restarted type trees) := by
    intro trees
    refine built.withFrame ?_
    rintro o' id ⟨⟩ ⟨⟩
  cases id with
  | none => exact ⟨restarted _, type, rfl, undeclared⟩
  | some id =>
    refine ⟨(restarted _).assign _ _ _, type, ?_, undeclared⟩
    dsimp only
    rw [objectType_assign]
    rfl

/-- What has collected a text has no type. -/
theorem untyped_text {acc : String} (content : f.content = .text acc) (type : TypeId) :
    f.objectType ≠ some (some type) := by
  rw [Frame.objectType_of_text content]
  nofun

/-- A rule that is left with a named object delivers. -/
theorem delivers_leave (domain : plan.grammar = grammar) {ended : State} {kind : RuleKind}
    (before : Clean tokens s) (clean : Clean tokens ended) (named : Named tokens ended.frame)
    (size : s.nodes.size ≤ ended.nodes.size) (id : RuleId) (feature : Option String) (offset : Nat) :
    Delivers tokens s feature (leave plan id kind feature offset s.frame ended) := by
  have back : Clean tokens { ended with frame := s.frame } := by
    refine clean.withFrame fun o id content slot => ?_
    exact Nat.lt_of_lt_of_le (before.slot o id content slot) size
  -- without a node, the tree is searched through
  have bare : feature ≠ some "name" → (∀ type, ended.frame.objectType ≠ some (some type)) →
      withFeature "name" (close id feature offset ended.frame.children.toList) = [] := by
    intro other untyped
    rw [withFeature_close other]
    exact named.untyped untyped
  unfold leave
  dsimp only
  split
  · exact ⟨back, rfl, fun _ => by simp, nofun⟩
  · split
    · next o content =>
      have slot : ∀ id, o.slot = some id → id < ended.nodes.size := fun id => clean.slot o id content
      have built := clean_constructObject domain back named content slot
        (some (close id feature offset ended.frame.children.toList)) fun _ => ⟨_, rfl, rfl⟩
      have frame := (Finishing.constructObject plan { ended with frame := s.frame } o
        (some (close id feature offset ended.frame.children.toList))).frame
      cases typed : o.type with
      | none =>
        have untyped : ∀ type, ended.frame.objectType ≠ some (some type) := by
          intro type eq
          rw [Frame.objectType_of_object content, typed] at eq
          cases eq
        simp only [constructObject, typed]
        exact ⟨back, rfl, fun other => by simpa using bare other untyped, nofun⟩
      | some type =>
        have gains := gains_construct plan (s := { ended with frame := s.frame }) type o.properties
          (some (close id feature offset ended.frame.children.toList)) slot
        simp only [constructObject, typed] at built frame ⊢
        refine ⟨built, frame, fun other => ?_, ?_⟩
        · rw [Option.toList_some, withFeatureOf_cons, withFeature_owned other]
          simp
        · rintro n ⟨⟩
          obtain ⟨m, found, same⟩ := gains.self
          exact ⟨m, id, offset, _, found, AstNode.source_of_unplaced same, rfl⟩
    · next content => exact ⟨back, rfl, fun other => by simpa using bare other (untyped_text content), nofun⟩
    · next content _ => exact ⟨back, rfl, fun other => by simpa using bare other (untyped_text content), nofun⟩

end Rules

end Workbench.DomainModel
