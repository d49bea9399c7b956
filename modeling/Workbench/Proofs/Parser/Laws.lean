import Workbench.Proofs.Grammar.Predictive
import Workbench.Proofs.Parser.Checked
import Workbench.Proofs.Parser.Owning
import Workbench.Proofs.Parser.Unlinked

/-!
**A feature and the trees assigned to it.**

An assignment takes a token or calls a rule, marks its tree with the feature, and changes the value of the
feature by what the tree stands for. So in an invocation the value and the marked trees change side by side.
An unassigned call joins both with those of the callee, an action that wraps the object starts both anew,
and a finished node may get a default for its value. A *law* is a relation between values and lists of trees
that all these steps keep.
-/

namespace Workbench

open SourceTree

/-! ### Elements of a grammar -/

namespace Grammar

variable {g : Grammar} {e : Element} {items : List Element}

/-- The element stands in the body of some rule. -/
def Contains (g : Grammar) (e : Element) : Prop := ∃ id after, g.OccursIn id e after

/-- An assignment of the grammar can write the feature by the element. -/
inductive Assigns (g : Grammar) (feature : String) (op : AssignOp) : Element → Prop where
  | value {e : Element} (stands : g.Contains (.assign feature op e)) : Assigns g feature op e
  | alternative {items : List Element} {e : Element}
    (among : Assigns g feature op (.alternatives items)) (mem : e ∈ items) : Assigns g feature op e

/-- Every parser rule declares a type. -/
def Typed (g : Grammar) : Prop := ∀ rule ∈ g.rules, rule.kind ≠ .parser none

instance (g : Grammar) : Decidable g.Typed :=
  inferInstanceAs (Decidable (∀ rule ∈ g.rules, rule.kind ≠ .parser none))

namespace Contains

theorem of_body {id : RuleId} {rule : Rule} (known : g.rules[id]? = some rule)
    (nonterminal : rule.kind.terminal? = none) : g.Contains rule.body :=
  ⟨id, [], rule.body, body?_of_rule known nonterminal, .body⟩

theorem item (h : g.Contains (.group items)) (mem : e ∈ items) : g.Contains e := by
  obtain ⟨id, after, body, found, occurs⟩ := h
  obtain ⟨front, back, rfl⟩ := List.append_of_mem mem
  exact ⟨id, _, body, found, .item occurs⟩

theorem alternative (h : g.Contains (.alternatives items)) (mem : e ∈ items) : g.Contains e := by
  obtain ⟨id, after, body, found, occurs⟩ := h
  exact ⟨id, _, body, found, .alternative occurs mem⟩

theorem turn {cardinality : Cardinality} (h : g.Contains (.repetition cardinality e)) : g.Contains e := by
  obtain ⟨id, after, body, found, occurs⟩ := h
  by_cases single : cardinality = .optional
  · subst single
    exact ⟨id, _, body, found, .optional occurs⟩
  · exact ⟨id, _, body, found, .turn single occurs⟩

/-- Whether an element has a property can be checked at all places of the grammar. -/
theorem checked {check : Element → Bool}
    (h : (g.rules.all fun rule => (rule.body.places []).all fun place => check place.1) = true)
    (contains : g.Contains e) : check e = true := by
  obtain ⟨id, after, body, found, occurs⟩ := contains
  obtain ⟨rule, known, -, rfl⟩ := rule_of_body? found
  have all := Array.all_eq_true'.1 h rule (Array.mem_of_getElem? known)
  exact List.all_eq_true.1 all _ (Element.mem_places_of_occurs occurs)

end Contains

/-- Whatever an element of a value can be assigned by, an assignment with that value stands somewhere. -/
theorem Assigns.exists_assign {feature : String} {op : AssignOp} (h : g.Assigns feature op e) :
    ∃ value, g.Contains (.assign feature op value) := by
  induction h with
  | value stands => exact ⟨_, stands⟩
  | alternative _ _ ih => exact ih

end Grammar

/-! ### What trees stand for -/

/-- The references of the first list are in the second one, up to where they are held. -/
def Reference.Kept (before after : Array Reference) : Prop :=
  ∀ (id : RefId) (r : Reference), before[id]? = some r →
    ∃ q, after[id]? = some q ∧ q.unplaced = r.unplaced

theorem Reference.Kept.refl (references : Array Reference) : Kept references references :=
  fun _ r found => ⟨r, found, rfl⟩

theorem Reference.Kept.trans {before between after : Array Reference} (h : Kept before between)
    (h' : Kept between after) : Kept before after := by
  intro id r found
  obtain ⟨q, found, same⟩ := h id r found
  obtain ⟨q', found, same'⟩ := h' id q found
  exact ⟨q', found, same'.trans same⟩

theorem Reference.Kept.push (references : Array Reference) (r : Reference) :
    Kept references (references.push r) := by
  intro id q found
  have bound := (Array.getElem?_eq_some_iff.1 found).1
  exact ⟨q, by rw [Array.getElem?_push_lt bound, ← Array.getElem?_eq_getElem bound, found], rfl⟩

/-- The text that a data-type rule collects from its trees: keywords and rules that are matched add theirs,
and tokens that are hidden or skipped add nothing. -/
inductive Collected (g : Grammar) : List SourceTree → String → Prop where
  | nothing : Collected g [] ""
  | passed {trees : List SourceTree} {text : String} (before : Collected g trees text) (t : Token) :
    Collected g (trees ++ [.leaf t none]) text
  | keyword {trees : List SourceTree} {text word : String} {t : Token} (before : Collected g trees text)
    (matched : t.isKeyword word = true) : Collected g (trees ++ [.leaf t none]) (text ++ word)
  | token {trees : List SourceTree} {text : String} {t : Token} {id : RuleId} {rule : Rule}
    {kind : TokenKind} {value : ValueKind} (before : Collected g trees text)
    (known : g.rules[id]? = some rule) (terminal : rule.kind = .terminal kind value)
    (matched : t.kind = kind) :
    Collected g (trees ++ [.leaf t none]) (text ++ value.convertText t.image)
  | data {trees children : List SourceTree} {text inner : String} {id : RuleId} {rule : Rule}
    {value : ValueKind} {range : TextRange} (before : Collected g trees text)
    (known : g.rules[id]? = some rule) (data : rule.kind = .dataType value)
    (below : Collected g children inner) :
    Collected g (trees ++ [.branch id none range none children])
      (text ++ (value.ofCollected inner).asText)

/-- The tree, marked with the feature, spells the text by the rule. -/
inductive ReadsAs (g : Grammar) (feature : String) : RuleId → SourceTree → String → Prop where
  | token {t : Token} {id : RuleId} {rule : Rule} {kind : TokenKind} {value : ValueKind}
    (known : g.rules[id]? = some rule) (terminal : rule.kind = .terminal kind value)
    (matched : t.kind = kind) :
    ReadsAs g feature id (.leaf t (some feature)) (value.convertText t.image)
  | data {children : List SourceTree} {text : String} {id : RuleId} {rule : Rule} {value : ValueKind}
    {range : TextRange} (known : g.rules[id]? = some rule) (data : rule.kind = .dataType value)
    (below : Collected g children text) :
    ReadsAs g feature id (.branch id (some feature) range none children)
      (value.ofCollected text).asText

/-- The tree, marked with the feature, stands for the value by the element: a keyword or a token for a text
or a number, a branch for its node or for the text that it collects, and the tree of a cross-reference for
the reference that was made from it. -/
inductive StandsFor (g : Grammar) (references : Array Reference) (feature : String) :
    Element → SourceTree → Value → Prop where
  | keyword {word : String} {t : Token} (matched : t.isKeyword word = true) :
    StandsFor g references feature (.keyword word) (.leaf t (some feature)) (.text word)
  | token {t : Token} {id : RuleId} {rule : Rule} {kind : TokenKind} {value : ValueKind}
    (known : g.rules[id]? = some rule) (terminal : rule.kind = .terminal kind value)
    (matched : t.kind = kind) :
    StandsFor g references feature (.call id) (.leaf t (some feature)) (value.convert t.image)
  | node {id : RuleId} {rule : Rule} {range : TextRange} {n : NodeId} {children : List SourceTree}
    (known : g.rules[id]? = some rule) (parser : rule.kind.isParser = true) :
    StandsFor g references feature (.call id) (.branch id (some feature) range (some n) children) (.node n)
  | data {children : List SourceTree} {text : String} {id : RuleId} {rule : Rule} {value : ValueKind}
    {range : TextRange} (known : g.rules[id]? = some rule) (data : rule.kind = .dataType value)
    (below : Collected g children text) :
    StandsFor g references feature (.call id) (.branch id (some feature) range none children)
      (value.ofCollected text)
  | reference {target : TypeId} {id : RuleId} {tree : SourceTree} {r : RefId} {q : Reference}
    (made : references[r]? = some q) (asks : q.target = target) (source : q.source = tree)
    (spells : ReadsAs g feature id tree q.text) :
    StandsFor g references feature (.crossRef target id) tree (.reference r)

section Trees

variable {g : Grammar} {references after : Array Reference} {feature other : String} {e : Element}
  {tree : SourceTree} {trees : List SourceTree} {text : String} {x : Value}

theorem Collected.passes (h : Collected g trees text) (tokens : List Token) :
    Collected g (trees ++ tokens.map (.leaf · none)) text := by
  induction tokens generalizing trees with
  | nil => simpa using h
  | cons t rest ih =>
    have passed := ih (h.passed t)
    rwa [List.append_assoc] at passed

/-- No tree of a data-type rule is assigned to a feature. -/
theorem Collected.withFeatureOf_eq (h : Collected g trees text) (feature : String) :
    withFeatureOf feature trees = [] := by
  induction h with
  | nothing => exact withFeatureOf_nil
  | passed _ t ih => simp [ih, withFeature_leaf_ne t]
  | keyword _ _ ih => simp [ih, withFeature]
  | token _ _ _ _ ih => simp [ih, withFeature]
  | data _ _ _ _ ih ih' => simp [ih, withFeature, ih']

theorem ReadsAs.withFeature_ne {id : RuleId} (h : ReadsAs g other id tree text) (differ : other ≠ feature) :
    withFeature feature tree = [] := by
  cases h with
  | token => exact withFeature_leaf_ne _ (by simpa using differ)
  | data _ _ below => simp [withFeature, differ, below.withFeatureOf_eq]

theorem ReadsAs.withFeature_self {id : RuleId} (h : ReadsAs g feature id tree text) :
    withFeature feature tree = [tree] := by
  cases h <;> simp [withFeature]

namespace StandsFor

theorem withFeature_self (h : StandsFor g references feature e tree x) :
    withFeature feature tree = [tree] := by
  cases h with
  | reference _ _ _ spells => exact spells.withFeature_self
  | _ => simp [withFeature]

/-- A tree that is assigned to one feature shows none of another. -/
theorem withFeature_ne (h : StandsFor g references other e tree x) (differ : other ≠ feature) :
    withFeature feature tree = [] := by
  cases h with
  | keyword => exact withFeature_leaf_ne _ (by simpa using differ)
  | token => exact withFeature_leaf_ne _ (by simpa using differ)
  | node => simp [withFeature, differ]
  | data _ _ below => simp [withFeature, differ, below.withFeatureOf_eq]
  | reference _ _ _ spells => exact spells.withFeature_ne differ

theorem mono (h : StandsFor g references feature e tree x) (kept : Reference.Kept references after) :
    StandsFor g after feature e tree x := by
  cases h with
  | keyword matched => exact .keyword matched
  | token known terminal matched => exact .token known terminal matched
  | node known parser => exact .node known parser
  | data known data below => exact .data known data below
  | @reference _ _ _ _ q made asks source spells =>
    obtain ⟨q', made', same⟩ := kept _ _ made
    have target : q'.unplaced.target = q.unplaced.target := by rw [same]
    have text : q'.unplaced.text = q.unplaced.text := by rw [same]
    refine .reference made' (target.trans asks) ((Reference.source_of_unplaced same).trans source) ?_
    rwa [show q'.text = q.text from text]

/-- A branch that stands for a node belongs to it. -/
theorem owner_of_node (h : StandsFor g references feature e tree x) {n : NodeId} (isNode : x = .node n) :
    tree.owner = some n := by
  cases h with
  | keyword => cases isNode
  | @token t _ _ _ value =>
    have plain := Interpreter.isPlain_convert value t.image
    rw [isNode] at plain
    exact plain.elim
  | node =>
    cases isNode
    rfl
  | @data _ text _ _ value =>
    have plain := Interpreter.isPlain_ofCollected value text
    rw [isNode] at plain
    exact plain.elim
  | reference => cases isNode

/-- A reference was made from the tree that stands for it. -/
theorem exists_reference (h : StandsFor g references feature e tree x) {r : RefId}
    (isReference : x = .reference r) : ∃ q, references[r]? = some q ∧ q.source = tree := by
  cases h with
  | keyword => cases isReference
  | @token t _ _ _ value =>
    have plain := Interpreter.isPlain_convert value t.image
    rw [isReference] at plain
    exact plain.elim
  | node => cases isReference
  | @data _ text _ _ value =>
    have plain := Interpreter.isPlain_ofCollected value text
    rw [isReference] at plain
    exact plain.elim
  | reference made _ source =>
    cases isReference
    exact ⟨_, made, source⟩

end StandsFor

end Trees

/-! ### Laws -/

/-- The value of a feature after an assignment. -/
def AssignOp.written (op : AssignOp) (value : Value) (before : Option Value) : Option Value :=
  match op, before with
  | .set, _ => some value
  | .flag, _ => some (.bool true)
  | .append, none => some (.list [value])
  | .append, some (.list items) => some (.list (items ++ [value]))
  | .append, some previous => some (.list [previous, value])

theorem Properties.get?_assigned_self (p : Properties) (feature : String) (op : AssignOp) (value : Value) :
    (p.assigned feature op value).get? feature = op.written value (p.get? feature) := by
  cases op with
  | set => exact p.get?_set_self feature value
  | flag => exact p.get?_set_self feature (.bool true)
  | append =>
    rw [assigned, get?, append, lookup_upsert_self, get?]
    cases p.entries.lookup feature with
    | none => rfl
    | some previous => cases previous <;> rfl

/-- The trees that are found for a feature of a node. -/
def AstNode.assigned (n : AstNode) (feature : String) : List SourceTree :=
  (n.source.map (·.assignedTo feature)).getD []

/-- A relation between the value of a feature and the trees assigned to it. It may refer to the references
made so far. -/
abbrev FeatureRelation := Array Reference → Option Value → List SourceTree → Prop

/-- The relation is one that every step keeps. -/
structure Law (g : Grammar) (feature : String) (R : FeatureRelation) : Prop where
  grows : ∀ {before after v trees}, Reference.Kept before after → R before v trees → R after v trees
  nothing : ∀ {references}, R references none []
  writes : ∀ {references v trees op e tree x}, g.Assigns feature op e →
    StandsFor g references feature e tree x → R references v trees →
    R references (op.written x v) (trees ++ [tree])
  /-- What the caller has collected is joined with what the callee has. -/
  joins : ∀ {references v w trees more}, R references v trees → R references w more →
    R references (Properties.merged v w) (trees ++ more)
  defaults : ∀ {references p trees} (type : TypeId), R references (Properties.get? p feature) trees →
    R references ((State.withDefaults g.types type p).get? feature) trees
  /-- An object without a type is dropped, but its trees are not. -/
  drops : ¬ g.Typed → ∀ {references v w trees more}, R references v trees → R references w more →
    R references v (trees ++ more)
  /-- Nor is the tree of the object that was to be assigned. -/
  fulfils : ¬ g.Typed → ∀ {op id rule}, g.Assigns feature op (.call id) → g.rules[id]? = some rule →
    rule.kind.isParser = false
  unwrapped : ∀ type op, ¬ g.Contains (.action type (some (feature, op)))

namespace State

variable {R : FeatureRelation} {feature : String} {g : Grammar}
  {plan : Plan} {s t : State}

/-- The law holds for all nodes. -/
def NodesAbide (R : FeatureRelation) (feature : String)
    (s : State) : Prop :=
  ∀ (id : NodeId) (n : AstNode), s.nodes[id]? = some n →
    R s.references (n.get? feature) (n.assigned feature)

/-- The law holds for all nodes and for the object under construction. A text under construction is
collected from the trees of the invocation. -/
structure Abides (g : Grammar) (R : FeatureRelation)
    (feature : String) (s : State) : Prop where
  nodes : NodesAbide R feature s
  object : ∀ o, s.frame.content = .object o →
    R s.references (o.properties.get? feature) (s.frame.assigned feature)
  typed : g.Typed → ∀ o, s.frame.content = .object o → o.type ≠ none
  text : ∀ acc, s.frame.content = .text acc → Collected g s.frame.children.toList acc

/-- Trees were added to the invocation under way, and nodes and references to the document; the object or
text is as before. -/
structure Grown (R : FeatureRelation) (feature : String)
    (s t : State) : Prop where
  content : t.frame.content = s.frame.content
  nodes : NodesAbide R feature t
  references : Reference.Kept s.references t.references

namespace Abides

theorem grown (h : Abides g R feature s) (frame : t.frame.content = s.frame.content)
    (nodes : t.nodes = s.nodes) (references : t.references = s.references) : Grown R feature s t := by
  refine ⟨frame, ?_, by rw [references]; exact .refl _⟩
  unfold NodesAbide
  rw [nodes, references]
  exact h.nodes

theorem takes {assigned : Option String} {taken : Option Token} (h : Abides g R feature s)
    (took : Takes assigned s t taken) : Grown R feature s t :=
  h.grown took.content took.nodes took.references

/-- Trees are added that are not assigned to the feature. -/
theorem pass (h : Abides g R feature s) (law : Law g feature R) (grown : Grown R feature s t)
    (assigned : t.frame.assigned feature = s.frame.assigned feature)
    (text : ∀ acc, s.frame.content = .text acc → Collected g t.frame.children.toList acc) :
    Abides g R feature t where
  nodes := grown.nodes
  object o content := by
    rw [assigned]
    exact law.grows grown.references (h.object o (grown.content.symm.trans content))
  typed all o content := h.typed all o (grown.content.symm.trans content)
  text acc content := text acc (grown.content.symm.trans content)

/-- Trees are added, and their text is collected. -/
theorem gather (h : Abides g R feature s) (law : Law g feature R) (grown : Grown R feature s t)
    (assigned : t.frame.assigned feature = s.frame.assigned feature) {piece : String}
    (text : ∀ acc, s.frame.content = .text acc → Collected g t.frame.children.toList (acc ++ piece)) :
    Abides g R feature (t.collect piece) := by
  cases content : t.frame.content with
  | object o =>
    have same : t.collect piece = t := by
      unfold State.collect
      rw [content]
    rw [same]
    refine h.pass law grown assigned fun acc isText => ?_
    rw [grown.content.symm.trans content] at isText
    cases isText
  | text acc =>
    unfold State.collect
    rw [content]
    refine ⟨grown.nodes, nofun, nofun, ?_⟩
    rintro _ ⟨⟩
    exact text acc (grown.content.symm.trans content)

/-- A tree is added, and the value it stands for is assigned. -/
theorem write (h : Abides g R feature s) (law : Law g feature R) (grown : Grown R feature s t)
    (isObject : s.frame.isObject = true) {other : String} {op : AssignOp} {e : Element} {tree : SourceTree}
    {x : Value} (assigned : t.frame.assigned feature = s.frame.assigned feature ++ withFeature feature tree)
    (assigns : g.Assigns other op e) (yields : StandsFor g t.references other e tree x) :
    Abides g R feature (t.assign other op x) := by
  obtain ⟨o, content⟩ := Frame.isObject_iff.1 isObject
  have before := law.grows grown.references (h.object o content)
  rw [assign_of_object (grown.content.trans content)]
  refine ⟨grown.nodes, ?_, ?_, nofun⟩
  · rintro _ ⟨⟩
    change R t.references ((o.properties.assigned other op x).get? feature) (t.frame.assigned feature)
    rw [assigned]
    by_cases same : other = feature
    · subst same
      rw [o.properties.get?_assigned_self, yields.withFeature_self]
      exact law.writes assigns yields before
    · rw [o.properties.get?_assigned_ne (Ne.symm same), yields.withFeature_ne same, List.append_nil]
      exact before
  · rintro all _ ⟨⟩
    exact h.typed all o content

/-- No token was taken. -/
theorem miss {other : Option String} (h : Abides g R feature s) (law : Law g feature R)
    (took : Takes other s t none) : Abides g R feature t := by
  obtain ⟨passed, children⟩ := took.children
  refine h.pass law (h.takes took) (by simp [took.assigned_eq]) fun acc content => ?_
  rw [children]
  simpa using (h.text acc content).passes passed

/-- A token was taken, and what it stands for is assigned. -/
theorem take (h : Abides g R feature s) (law : Law g feature R) (isObject : s.frame.isObject = true)
    {other : String} {op : AssignOp} {e : Element} {u : Token} {x : Value}
    (took : Takes (some other) s t (some u)) (assigns : g.Assigns other op e)
    (yields : StandsFor g s.references other e (.leaf u (some other)) x) :
    Abides g R feature (t.assign other op x) := by
  have yields : StandsFor g t.references other e (.leaf u (some other)) x := by
    rwa [took.references]
  exact h.write law (h.takes took) isObject (by simp [took.assigned_eq]) assigns yields

/-- Trees are added that come from an object without a type. -/
theorem drop (h : Abides g R feature s) (law : Law g feature R) (grown : Grown R feature s t)
    (isObject : s.frame.isObject = true) (untyped : ¬ g.Typed) {v : Option Value} {trees : List SourceTree}
    (assigned : t.frame.assigned feature = s.frame.assigned feature ++ trees)
    (holds : R t.references v trees) : Abides g R feature t := by
  obtain ⟨o, content⟩ := Frame.isObject_iff.1 isObject
  have content' := grown.content.trans content
  refine ⟨grown.nodes, fun o' object => ?_, fun all => absurd all untyped, fun acc text => ?_⟩
  · rw [content'] at object
    cases object
    rw [assigned]
    exact law.drops untyped (law.grows grown.references (h.object o content)) holds
  · rw [content'] at text
    cases text

/-- The object under construction takes over a node, and the trees that are assigned in it. -/
theorem adopt (h : Abides g R feature s) (law : Law g feature R) (grown : Grown R feature s t)
    (sane : s.Sane) (isObject : s.frame.isObject = true) {n : NodeId} {m : AstNode}
    (found : t.nodes[n]? = some m)
    (assigned : t.frame.assigned feature = s.frame.assigned feature ++ m.assigned feature) :
    Abides g R feature (t.adopt n) := by
  obtain ⟨o, content⟩ := Frame.isObject_iff.1 isObject
  rw [adopt_of_object (grown.content.trans content) found]
  refine ⟨fun j n' found' => ?_, ?_, ?_, nofun⟩
  · -- the node that is taken over is emptied
    dsimp only at found'
    rw [Array.getElem?_setIfInBounds] at found'
    split at found'
    · split at found'
      · cases found'
        exact law.nothing
      · cases found'
    · exact grown.nodes j n' found'
  · rintro _ ⟨⟩
    change R t.references ((m.properties.fillFrom o.properties).get? feature) (t.frame.assigned feature)
    rw [Properties.get?_fillFrom _ (sane.object o content), assigned]
    exact law.joins (law.grows grown.references (h.object o content)) (grown.nodes n m found)
  · rintro - _ ⟨⟩
    exact Option.some_ne_none m.type

theorem of_same (h : Abides g R feature s) (frame : t.frame = s.frame) (nodes : t.nodes = s.nodes)
    (references : t.references = s.references) : Abides g R feature t := by
  obtain ⟨stream, frame', nodes', references', errors, recovering, incidents⟩ := t
  subst frame
  subst nodes
  subst references
  exact ⟨h.nodes, h.object, h.typed, h.text⟩

theorem report (h : Abides g R feature s) (expected : FirstSet) :
    Abides g R feature (s.report plan expected) :=
  h.of_same (frame_report expected) (Takes.raise plan s _).nodes (Takes.raise plan s _).references

theorem retag (h : Abides g R feature s) (isObject : s.frame.isObject = true) (type : TypeId) :
    Abides g R feature (s.retag type) := by
  obtain ⟨o, content⟩ := Frame.isObject_iff.1 isObject
  unfold State.retag
  rw [content]
  dsimp only
  split
  · exact h
  · refine ⟨h.nodes, ?_, ?_, nofun⟩
    · rintro _ ⟨⟩
      exact h.object o content
    · rintro - _ ⟨⟩
      exact Option.some_ne_none type

end Abides

/-! ### Finishing nodes -/

theorem kept_construct (plan : Plan) (type : TypeId) (p : Properties) (slot : Option NodeId)
    (source : Option SourceTree) (s : State) :
    Reference.Kept s.references (s.construct plan type p slot source).1.references := by
  have same := Arena.alike_putAll
    (s.arena.insert slot (builtNode plan.grammar.types type p (slot.getD s.nodes.size) source))
    ((withDefaults plan.grammar.types type p).links (slot.getD s.nodes.size))
  rw [← arena_construct] at same
  intro r q found
  have eq := same.references r
  rw [Arena.references_insert, show s.arena.references[r]? = some q from found, Option.map_some] at eq
  exact Option.map_eq_some_iff.1 eq

theorem kept_constructObject (plan : Plan) (o : Object) (source : Option SourceTree) (s : State) :
    Reference.Kept s.references (s.constructObject plan o source).1.references := by
  unfold constructObject
  split
  · exact .refl _
  · exact kept_construct plan _ _ _ _ s

/-- An object is only dropped if it has no type. -/
theorem type_eq_none_of_dropped {o : Object} {source : Option SourceTree}
    (dropped : (s.constructObject plan o source).2 = none) : o.type = none := by
  unfold constructObject at dropped
  cases type : o.type with
  | none => rfl
  | some type =>
    rw [type] at dropped
    cases dropped

theorem kept_wrap (type : TypeId) (other : String) (op : AssignOp) :
    Reference.Kept s.references (s.wrap plan type other op).references := by
  cases content : s.frame.content with
  | text acc =>
    unfold State.wrap
    rw [content]
    exact .refl _
  | object o =>
    have finished := kept_constructObject plan o (wrapChildren other s.frame) s
    rw [wrap_of_object content]
    generalize s.constructObject plan o (wrapChildren other s.frame) = out at finished
    obtain ⟨t, built⟩ := out
    cases built with
    | none => exact finished
    | some id =>
      dsimp only
      rw [references_assign]
      exact finished

/-- What a finished object leaves behind. -/
structure Finished (R : FeatureRelation) (feature : String)
    (source : Option SourceTree) (out : State × Option NodeId) : Prop where
  nodes : NodesAbide R feature out.1
  built : ∀ id ∈ out.2, ∃ m, out.1.nodes[id]? = some m ∧ m.source = source.map (·.withOwner (some id))

theorem finished_constructObject (law : Law plan.grammar feature R) (abides : NodesAbide R feature s)
    {o : Object} {source : Option SourceTree}
    (holds : R s.references (o.properties.get? feature) ((source.map (·.assignedTo feature)).getD []))
    (slot : ∀ id ∈ o.slot, id < s.nodes.size) :
    Finished R feature source (s.constructObject plan o source) := by
  unfold constructObject
  cases o.type with
  | none => exact ⟨abides, nofun⟩
  | some type =>
    have gains := gains_construct (s := s) plan type o.properties source slot
    have kept := kept_construct plan type o.properties o.slot source s
    dsimp only
    generalize s.construct plan type o.properties o.slot source = out at gains kept
    obtain ⟨t, id⟩ := out
    refine ⟨fun j n found => ?_, ?_⟩
    · by_cases self : j = id
      · subst self
        obtain ⟨m, here, same⟩ := gains.self
        obtain rfl := Option.some.inj (here.symm.trans found)
        have given := law.grows kept (law.defaults type holds)
        rw [AstNode.get?, AstNode.properties_of_unplaced same, AstNode.assigned,
          AstNode.source_of_unplaced same]
        simpa [builtNode, assignedTo, Option.map_map, Function.comp_def] using given
      · have same := gains.other j self
        rw [found, Option.map_some] at same
        obtain ⟨m, before, same⟩ := Option.map_eq_some_iff.1 same.symm
        have held := law.grows kept (abides j m before)
        rwa [AstNode.get?, AstNode.properties_of_unplaced same, AstNode.assigned,
          AstNode.source_of_unplaced same] at held
    · rintro _ ⟨⟩
      obtain ⟨m, here, same⟩ := gains.self
      exact ⟨m, here, AstNode.source_of_unplaced same⟩

/-! ### Wrapping -/

/-- The tree of a wrapped object has all that was assigned so far below it. -/
theorem assignedTo_wrapChildren (frame : Frame) (other : String) :
    ((wrapChildren other frame).map (·.assignedTo feature)).getD [] = frame.assigned feature := by
  unfold wrapChildren Frame.assigned
  split
  · next empty => simp [empty]
  · next eq => simp [assignedTo, eq]

/-- The tree of a wrapped node shows nothing of the feature, and that of a dropped object all. -/
theorem withFeatureOf_wrappedTrees {other : String} (differ : other ≠ feature) (frame : Frame)
    (built : Option NodeId) :
    withFeatureOf feature (wrappedTrees frame other built).toList =
      if built.isSome then [] else frame.assigned feature := by
  have differ : some other ≠ some feature := by simpa using differ
  rw [Linked.toList_wrappedTrees]
  unfold wrapChildren Frame.assigned
  split
  · next empty => cases built <;> simp [empty]
  · next eq =>
    cases built with
    | none => simp [close, withOwner, withFeature, differ, eq]
    | some id => simp [withFeature_owned differ]

theorem Abides.wrap (h : Abides plan.grammar R feature s) (law : Law plan.grammar feature R)
    (sane : s.Sane) (isObject : s.frame.isObject = true) {type : TypeId} {other : String} {op : AssignOp}
    (stands : plan.grammar.Contains (.action type (some (other, op)))) :
    Abides plan.grammar R feature (s.wrap plan type other op) := by
  obtain ⟨o, content⟩ := Frame.isObject_iff.1 isObject
  have differ : other ≠ feature := by
    rintro rfl
    exact law.unwrapped type op stands
  have held := h.object o content
  have finished : Finished R feature (wrapChildren other s.frame)
      (s.constructObject plan o (wrapChildren other s.frame)) :=
    finished_constructObject law h.nodes (by rwa [assignedTo_wrapChildren]) (sane.slot o content)
  have untyped : (s.constructObject plan o (wrapChildren other s.frame)).2 = none → o.type = none :=
    type_eq_none_of_dropped
  have kept := kept_constructObject plan o (wrapChildren other s.frame) s
  rw [wrap_of_object content]
  generalize s.constructObject plan o (wrapChildren other s.frame) = out at finished untyped kept
  obtain ⟨t, built⟩ := out
  have trees := withFeatureOf_wrappedTrees differ s.frame built
  have restarted : Abides plan.grammar R feature (t.restarted type (wrappedTrees s.frame other built)) := by
    refine ⟨finished.nodes, ?_, ?_, nofun⟩
    · rintro _ ⟨⟩
      change R t.references none (withFeatureOf feature (wrappedTrees s.frame other built).toList)
      rw [trees]
      cases built with
      | none =>
        exact law.drops (fun all => h.typed all o content (untyped rfl)) law.nothing
          (law.grows kept held)
      | some id => exact law.nothing
    · rintro - _ ⟨⟩
      exact Option.some_ne_none type
  cases built with
  | none => exact restarted
  | some id =>
    dsimp only
    rw [assign_of_object (o := { type := some type, retagged := true }) rfl]
    refine ⟨restarted.nodes, ?_, ?_, nofun⟩
    · rintro _ ⟨⟩
      have kept := Properties.get?_assigned_ne .empty (Ne.symm differ) op (.node id)
      have start := restarted.object _ rfl
      rwa [← kept] at start
    · rintro - _ ⟨⟩
      exact Option.some_ne_none type

end State

end Workbench
