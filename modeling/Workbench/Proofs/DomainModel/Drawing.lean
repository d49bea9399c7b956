import Workbench.Proofs.DomainModel.Finished
import Workbench.Proofs.DomainModel.Reading

/-!
**A logic for drafts.**

A triple `Draws plan P body Q` says that `body` takes an intact state with `P` to one with `Q`, whatever lies
outside of the invocation, and does not get stuck. In a domain model only the alternatives of a whole rule can
get stuck, and these are dealt with where the rules are. There is a rule for each kind of element, under the
assumption that invocations hand over nodes of the types of their rules.
-/

namespace Workbench.DomainModel

open Arena State Interpreter SourceTree

variable {plan : Plan} {invoke : Invocation} {outer : Loose} {s t : State} {type : TypeId}
  {pending present : List String} {feature : String} {P Q R : State → Prop} {body : State → Outcome}

theorem Carries.trans {u : State} (h : Carries plan outer s t) (h' : Carries plan outer t u) :
    Carries plan outer s u :=
  ⟨h'.intact, h.grows.trans h'.grows⟩

theorem Carries.refl (h : Intact plan outer s) : Carries plan outer s s := ⟨h, .refl _⟩

theorem Carries.of_takes {assigned : Option String} {taken : Option Token} (intact : Intact plan outer s)
    (tidy : Tidy plan outer t) (takes : Takes assigned s t taken) : Carries plan outer s t :=
  ⟨intact.takes tidy takes, (Calm.of_takes takes).grows⟩

/-! ### Triples -/

/-- Takes every intact state with `P` to an intact state with `Q`, and does not get stuck. -/
def Draws (plan : Plan) (P : State → Prop) (body : State → Outcome) (Q : State → Prop) : Prop :=
  ∀ outer s, Intact plan outer s → P s →
    (body s).stuck = none ∧ Carries plan outer s (body s).state ∧ Q (body s).state

theorem Draws.weaken {P' : State → Prop} (h : Draws plan P body Q) (before : ∀ s, P' s → P s)
    (after : ∀ s, Q s → R s) : Draws plan P' body R := by
  intro outer s intact holds
  obtain ⟨steady, carries, holds'⟩ := h outer s intact (before s holds)
  exact ⟨steady, carries, after _ holds'⟩

theorem draws_nil : Draws plan P (runAll plan invoke []) P := by
  intro outer s intact holds
  rw [runAll]
  exact ⟨rfl, .refl intact, holds⟩

theorem draws_cons {item : Element} {rest : List Element} (first : Draws plan P (run plan invoke item) Q)
    (others : Draws plan Q (runAll plan invoke rest) R) :
    Draws plan P (runAll plan invoke (item :: rest)) R := by
  intro outer s intact holds
  obtain ⟨steady, carries, holds'⟩ := first outer s intact holds
  obtain ⟨steady', carries', holds''⟩ := others outer _ carries.intact holds'
  rw [runAll, if_neg (by simp [steady])]
  exact ⟨steady', carries.trans carries', holds''⟩

theorem draws_group {items : List Element} (h : Draws plan P (runAll plan invoke items) Q) :
    Draws plan P (run plan invoke (.group items)) Q := by
  intro outer s
  rw [run]
  exact h outer s

/-- The body of a repetition can count on a token with which it goes on. -/
theorem draws_optional {item : Element}
    (h : Draws plan (fun s => P s ∧ ready plan item s = true) (run plan invoke item) Q)
    (without : ∀ s, P s → Q s) : Draws plan P (run plan invoke (.repetition .optional item)) Q := by
  intro outer s intact holds
  rw [run, repeated]
  split
  · next starts => exact h outer s intact ⟨holds, starts⟩
  · exact ⟨rfl, .refl intact, without s holds⟩

theorem draws_turns {canStart : State → Bool}
    (h : Draws plan (fun s => P s ∧ canStart s = true) body P) (fuel : Nat) :
    Draws plan P (turns plan canStart body fuel) P := by
  induction fuel with
  | zero => exact fun outer s intact holds => ⟨rfl, .refl intact, holds⟩
  | succ fuel ih =>
    intro outer s intact holds
    unfold turns
    dsimp only
    split
    · next starts =>
      obtain ⟨steady, carries, holds'⟩ := h outer s intact ⟨holds, starts⟩
      rw [steady]
      dsimp only
      split
      · obtain ⟨steady', carries', holds''⟩ := ih outer _ carries.intact holds'
        exact ⟨steady', carries.trans carries', holds''⟩
      · exact ⟨steady, carries, holds'⟩
    · exact ⟨rfl, .refl intact, holds⟩

theorem draws_many {item : Element}
    (h : Draws plan (fun s => P s ∧ ready plan item s = true) (run plan invoke item) P) :
    Draws plan P (run plan invoke (.repetition .zeroOrMore item)) P := by
  intro outer s
  rw [run, repeated]
  exact draws_turns h _ outer s

/-! ### Tokens -/

/-- An assertion about an object that does not depend on trees without a feature. -/
structure Lasting (P : State → Prop) : Prop where
  calm : ∀ {s t}, Calm none s t → P s → P t
  object : ∀ {s}, P s → ∃ o, s.frame.content = .object o

theorem lasting_draft : Lasting (Draft type pending present) where
  calm calm h := h.calm calm nofun
  object h := by
    obtain ⟨o, sketch, -⟩ := h
    exact ⟨o, sketch.content⟩

theorem lasting_blank {type : Option TypeId} : Lasting (Blank type) where
  calm calm h := h.calm calm
  object h := ⟨_, h.content⟩

/-- Whether the token that is expected comes or not, nothing gets lost. -/
theorem carries_expect (intact : Intact plan outer s) (accepts : Token → Bool) (problem : ParseProblem)
    (assigned : Option String) : Carries plan outer s (s.expect plan accepts problem assigned).1 :=
  .of_takes intact ((reaches_expect plan s accepts problem assigned).tidy intact.toTidy)
    (Takes.expect plan s accepts problem assigned)

/-- A keyword that is not assigned leaves the object alone. -/
theorem draws_keyword (lasting : Lasting P) (text : String) :
    Draws plan P (run plan invoke (.keyword text)) P := by
  intro outer s intact holds
  have takes := Takes.expect plan s (·.isKeyword text) (.missingKeyword text) none
  have after := lasting.calm (.of_takes takes) holds
  have carries := carries_expect intact (·.isKeyword text) (.missingKeyword text) none
  obtain ⟨o, content⟩ := lasting.object after
  have same : ∀ t : State, t.frame.content = .object o → t.collect text = t := by
    intro t content
    unfold State.collect
    rw [content]
  rw [run]
  dsimp only [State.expectKeyword]
  rw [same _ content, ite_self]
  exact ⟨rfl, carries, after⟩

/-- A token that is looked for and is next is taken. -/
theorem expect_of_peek {accepts : Token → Bool} {problem : ParseProblem} {assigned : Option String}
    (next : s.stream.peek?.any accepts = true) :
    ∃ token, (s.expect plan accepts problem assigned).2 = some token := by
  rw [State.expect, if_pos next, State.consume]
  dsimp only
  cases found : s.stream.next? with
  | none =>
    rw [TokenStream.peek?_eq_head?, TokenStream.next?_eq_none_iff.1 found] at next
    cases next
  | some taken => exact ⟨_, rfl⟩

theorem parts_of_plain {v : Value} (plain : v.IsPlain) (h : Intact plan outer s) :
    Intact plan ({ parts := v.parts } ++ outer) s := by
  rw [Value.parts_of_isPlain plain]
  exact h

/-- A token is taken for a pending feature, at least if it is next. -/
theorem token_spec (invoke : Invocation) (fits : Fits plan) {id : RuleId} {name : String}
    {kind : TokenKind} {value : ValueKind}
    (known : rules[id]? = some ⟨name, .terminal kind value, .group []⟩) (intact : Intact plan outer s)
    (draft : Draft type (feature :: pending) present s) (apart : feature ∉ pending) {holds : FeatureKind}
    (listed : (features type).lookup feature = some holds)
    (admits : ∀ t, Legible t → t.kind = kind → ∀ a, holds.Admits a (value.convert t.image)) :
    ∃ t, run plan invoke (.assign feature .set (.call id)) s = { state := t } ∧ Carries plan outer s t ∧
      (Draft type pending (feature :: present) t ∨
        s.stream.peek?.any (·.kind == kind) = false ∧ Draft type pending present t) := by
  have takes := Takes.expect plan s (·.kind == kind) (.missingToken name) (some feature)
  have accepted := @accepts_of_expect plan s (·.kind == kind) (.missingToken name) (some feature)
  have carries := carries_expect intact (·.kind == kind) (.missingToken name) (some feature)
  have next := @expect_of_peek plan s (·.kind == kind) (.missingToken name) (some feature)
  rw [run, runAssigned, call, fits.known known]
  dsimp only [State.expectKind, Option.map_some]
  generalize s.expect plan (·.kind == kind) (.missingToken name) (some feature) = out
    at takes accepted carries next
  obtain ⟨t, taken⟩ := out
  dsimp only at takes accepted carries next ⊢
  cases taken with
  | none =>
    refine ⟨t, rfl, carries, .inr ⟨?_, draft.skip (.of_takes takes) apart⟩⟩
    rw [Bool.eq_false_iff]
    intro isNext
    obtain ⟨token, absurd⟩ := next isNext
    cases absurd
  | some token =>
    obtain ⟨o, sketch, -⟩ := draft
    have ofKind : token.kind = kind := by simpa using accepted rfl
    have legible := intact.legible token (takes.mem token rfl)
    have plain := isPlain_convert value token.image
    obtain ⟨carries', draft⟩ := settle .set sketch apart listed (.of_takes takes)
      (parts_of_plain plain carries.intact) (children_ne_of_takes takes) (.inl ⟨rfl, rfl⟩)
      (admits token legible ofKind _) fun id same => by rw [same] at plain; cases plain
    exact ⟨_, rfl, carries', .inl draft⟩

/-- A simple name. -/
theorem draws_name (fits : Fits plan) (apart : "name" ∉ pending)
    (listed : (features type).lookup "name" = some .name) :
    Draws plan (Draft type ("name" :: pending) present)
      (run plan invoke (.assign "name" .set (.call nameRule))) (Draft type pending present) := by
  intro outer s intact draft
  obtain ⟨t, ran, carries, drawn⟩ := token_spec invoke fits rules_name intact draft apart listed
    fun t legible kind _ => ⟨_, rfl, legible.name kind⟩
  rw [ran]
  refine ⟨rfl, carries, drawn.elim (fun drawn => ?_) fun drawn => drawn.2⟩
  exact drawn.weaken fun _ => List.mem_cons_of_mem _

/-- A number that is next. -/
theorem draws_number (fits : Fits plan) :
    Draws plan (fun s => Draft numberLiteralType ["value"] [] s ∧
        s.stream.peek?.any (·.kind == .number) = true)
      (run plan invoke (.assign "value" .set (.call numberRule)))
      (Draft numberLiteralType [] ["value"]) := by
  rintro outer s intact ⟨draft, next⟩
  obtain ⟨t, ran, carries, drawn⟩ := token_spec invoke fits rules_number intact draft nofun
    (show (features numberLiteralType).lookup "value" = some .number from rfl)
    fun t legible kind _ => legible.number kind
  rw [ran]
  refine ⟨rfl, carries, drawn.resolve_right fun missing => ?_⟩
  rw [next] at missing
  cases missing.1

/-- A keyword sets a flag. -/
theorem draws_flag (text : String) (apart : feature ∉ pending)
    (listed : (features type).lookup feature = some .flag) :
    Draws plan (Draft type (feature :: pending) present)
      (run plan invoke (.assign feature .flag (.keyword text))) (Draft type pending present) := by
  intro outer s intact draft
  have takes := Takes.expect plan s (·.isKeyword text) (.missingKeyword text) (some feature)
  have carries := carries_expect intact (·.isKeyword text) (.missingKeyword text) (some feature)
  rw [run, runAssigned]
  dsimp only [State.expectKeyword]
  generalize s.expect plan (·.isKeyword text) (.missingKeyword text) (some feature) = out at takes carries
  obtain ⟨t, taken⟩ := out
  dsimp only at takes carries ⊢
  cases taken with
  | none => exact ⟨rfl, carries, draft.skip (.of_takes takes) apart⟩
  | some token =>
    obtain ⟨o, sketch, -⟩ := draft
    have plain : (Value.text text).IsPlain := trivial
    obtain ⟨carries', draft⟩ := settle .flag sketch apart listed (.of_takes takes)
      (parts_of_plain plain carries.intact) (children_ne_of_takes takes)
      (.inr ⟨rfl, Value.parts_of_isPlain plain, rfl⟩) ⟨true, rfl⟩ nofun
    exact ⟨rfl, carries', draft.weaken fun _ => List.mem_cons_of_mem _⟩

/-! ### Calls -/

/-- Invocations that hand over nodes of the types that a rule is for. -/
structure Supplied (plan : Plan) (invoke : Invocation) (id : RuleId) (types : List TypeId) : Prop where
  rule : ∃ name returns body, rules[id]? = some ⟨name, .parser returns, body⟩
  hands : ∀ outer s feature, Intact plan outer s → Hands plan outer types s feature (invoke id feature s)

namespace Hands

variable {types : List TypeId} {out : Invoked} {assigned : Option String}

theorem owned (h : Hands plan outer types s assigned out) :
    ∀ tree ∈ out.tree.toList, tree.OwnedBelow out.state.nodes.size := by
  intro tree mem
  refine h.intact.spare.owned tree ?_
  rw [Loose.trees_append, List.mem_append, Loose.trees_append, List.mem_append]
  exact .inr (.inl mem)

/-- An invocation that hands over nothing leaves the caller as it was. -/
theorem nothing (h : Hands plan outer types s assigned out) (value : out.value = none)
    (tree : out.tree = none) : Carries plan outer s out.state ∧ Calm assigned s out.state := by
  have same : out.loose = {} := by simp [Invoked.loose, value, tree]
  have intact := h.intact
  rw [same] at intact
  exact ⟨⟨intact, h.grows⟩, .of_frame h.frame h.grows⟩

/-- A node that is handed over is loose, apart from its tree. -/
theorem returned (h : Hands plan outer types s assigned out) {n : NodeId}
    (value : out.value = some (.node n)) : Intact plan ({ parts := [.node n] } ++ outer) out.state := by
  have same : out.loose = { parts := [.node n], trees := out.tree.toList } := by
    simp [Invoked.loose, value]
  have intact := h.intact
  have tidy : Tidy plan ({ parts := [.node n] } ++ outer) out.state := by
    refine intact.toTidy.within rfl ⟨fun x => ?_, ?_, ?_⟩
    · simp [same, Loose.count]
    · simp [same]
    · intro tree mem
      simp only [same, Loose.trees_append, List.mem_append, List.not_mem_nil] at mem ⊢
      tauto
  refine ⟨tidy, intact.legible, intact.sturdy.mono (fun x some => ?_) fun id => ?_⟩
  · rw [same] at some
    simpa [Loose.count] using some
  · rw [same]
    simp

end Hands

/-- A call for a feature gives it nothing, or a node to be assigned. -/
theorem call_spec (fits : Fits plan) {id : RuleId} {types : List TypeId}
    (supplied : Supplied plan invoke id types) (intact : Intact plan outer s) (feature : String)
    (op : AssignOp) :
    (Carries plan outer s (call plan invoke id (some (feature, op)) s) ∧
        Calm (some feature) s (call plan invoke id (some (feature, op)) s)) ∨
      ∃ t n, call plan invoke id (some (feature, op)) s = t.assign feature op (.node n) ∧
        Intact plan ({ parts := [.node n] } ++ outer) t ∧ Calm (some feature) s t ∧
        t.frame.children ≠ #[] ∧ HasType t.arena types n := by
  obtain ⟨name, returns, body, known⟩ := supplied.rule
  have hands := supplied.hands outer s (some feature) intact
  rw [call, fits.known known]
  dsimp only [Option.map_some]
  rcases hands.result with ⟨value, tree⟩ | ⟨n, m, rule, offset, children, value, found, typed, -, tree⟩
  · rw [value, tree]
    simp only [Option.toList_none, attach_nil]
    exact .inl (hands.nothing value tree)
  · right
    have returned := hands.returned value
    have owned := hands.owned
    rw [value]
    rw [tree] at owned ⊢
    refine ⟨_, n, rfl, returned.attach owned, ?_, children_attach_ne, m, found, typed⟩
    refine .trans (.of_frame hands.frame hands.grows) (.attach fun other differ => ?_)
    rw [Option.toList_some, withFeatureOf_cons, withFeature_owned differ]
    rfl

/-- A node is called for a pending feature. -/
theorem draws_node (fits : Fits plan) {id : RuleId} {types : List TypeId}
    (supplied : Supplied plan invoke id types) (apart : feature ∉ pending)
    (listed : (features type).lookup feature = some (.node types)) :
    Draws plan (Draft type (feature :: pending) present)
      (run plan invoke (.assign feature .set (.call id))) (Draft type pending present) := by
  intro outer s intact draft
  rw [run, runAssigned]
  refine ⟨rfl, ?_⟩
  dsimp only
  rcases call_spec fits supplied intact feature .set with
    ⟨carries, calm⟩ | ⟨t, n, ran, intact', calm, taken, typed⟩
  · exact ⟨carries, draft.skip calm apart⟩
  · obtain ⟨o, sketch, -⟩ := draft
    obtain ⟨carries, draft⟩ := settle .set sketch apart listed calm intact' taken (.inl ⟨rfl, rfl⟩)
      ⟨n, rfl, typed⟩ nofun
    rw [ran]
    exact ⟨carries, draft.weaken fun _ => List.mem_cons_of_mem _⟩

/-- Nodes are called one after the other for a list. -/
theorem draws_nodes (fits : Fits plan) {id : RuleId} {types : List TypeId}
    (supplied : Supplied plan invoke id types) (apart : feature ∉ pending)
    (listed : (features type).lookup feature = some (.nodes types)) :
    Draws plan (Draft type pending present)
      (run plan invoke (.repetition .zeroOrMore (.assign feature .append (.call id))))
      (Draft type pending present) := by
  refine draws_many ?_
  rintro outer s intact ⟨draft, -⟩
  rw [run, runAssigned]
  refine ⟨rfl, ?_⟩
  dsimp only
  rcases call_spec fits supplied intact feature .append with
    ⟨carries, calm⟩ | ⟨t, n, ran, intact', calm, taken, typed⟩
  · refine ⟨carries, draft.calm calm ?_⟩
    rintro _ ⟨⟩
    refine ⟨apart, fun target same => ?_⟩
    rw [listed] at same
    cases same
  · obtain ⟨o, sketch, -⟩ := draft
    rw [ran]
    exact settle_append sketch apart listed calm intact' taken typed

/-- A complete draft of a node of one of the types. -/
def Drawn (types : List TypeId) (s : State) : Prop := ∃ type ∈ types, Draft type [] (needs type) s

theorem lasting_drawn {types : List TypeId} : Lasting (Drawn types) where
  calm := fun calm ⟨type, mem, draft⟩ => ⟨type, mem, lasting_draft.calm calm draft⟩
  object := fun ⟨_, _, draft⟩ => lasting_draft.object draft

/-- A node that is called for without a feature is taken over by an object to which nothing has happened. -/
theorem draws_adopt (fits : Fits plan) {id : RuleId} {types : List TypeId}
    (supplied : Supplied plan invoke id types) {type : Option TypeId} (C : Frame → Prop) :
    Draws plan (fun s => Blank type s ∧ C s.frame) (run plan invoke (.call id))
      (fun s => (Blank type s ∧ C s.frame) ∨ Drawn types s) := by
  rintro outer s intact ⟨blank, holds⟩
  obtain ⟨name, returns, body, known⟩ := supplied.rule
  have hands := supplied.hands outer s none intact
  rw [run, call, fits.known known]
  dsimp only [Option.map_none]
  refine ⟨rfl, ?_⟩
  rcases hands.result with ⟨value, tree⟩ | ⟨n, m, rule, offset, children, value, found, typed, source, tree⟩
  · obtain ⟨carries, calm⟩ := hands.nothing value tree
    rw [value, tree]
    simp only [Option.toList_none, attach_nil]
    exact ⟨carries, .inl ⟨blank.calm calm, by rwa [hands.frame]⟩⟩
  · have returned := hands.returned value
    have owned := hands.owned
    rw [tree] at owned source
    rw [value, tree]
    dsimp only [Option.toList_some, List.map_cons, List.map_nil]
    have bare : ∀ tree ∈ [((close rule none offset children).withOwner (some n)).withOwner none],
        tree.OwnedBelow (invoke id none s).state.nodes.size := by
      intro tree mem
      rw [List.mem_singleton.1 mem]
      exact (owned _ (by simp)).withOwner (by simp)
    have attached := returned.attach bare
    have content := (congrArg Frame.content hands.frame).trans blank.content
    obtain ⟨carries, draft⟩ := adopt_spec attached content children_attach_ne found fun f => by
      rw [assigned_attach, hands.frame, blank.unassigned, source]
      simp [treesOf, assignedTo, close, withOwner, withFeature, SourceTree.children]
    exact ⟨⟨carries.intact, hands.grows.trans carries.grows⟩, .inr ⟨_, typed, draft⟩⟩

/-! ### Qualified names -/

/-- What the rule for qualified names hands to its caller: nothing, or a text that is not empty, with a tree
that shows no features. -/
structure Spells (plan : Plan) (outer : Loose) (s : State) (feature : Option String) (out : Invoked) :
    Prop where
  intact : Intact plan (out.loose ++ outer) out.state
  grows : s.arena.Preserves out.state.arena
  frame : out.state.frame = s.frame
  result : out.value = none ∧ out.tree = none ∨
    ∃ text offset children, out.value = some (.value (.text text)) ∧ text ≠ "" ∧
      out.tree = some (close qualifiedNameRule feature offset children) ∧
      ∀ other, withFeatureOf other children = []

/-- Invocations that hand over qualified names. -/
def Words (plan : Plan) (invoke : Invocation) : Prop :=
  ∀ outer s feature, Intact plan outer s → Spells plan outer s feature (invoke qualifiedNameRule feature s)

namespace Spells

variable {out : Invoked} {assigned : Option String}

theorem unloose (h : Spells plan outer s assigned out) :
    Carries plan outer s (out.state.attach out.tree.toList) := by
  have intact := h.intact
  have noParts : out.loose.parts = [] := by
    unfold Invoked.loose
    rcases h.result with ⟨value, -⟩ | ⟨text, _, _, value, -⟩ <;> rw [value]
  have owned : ∀ tree ∈ out.tree.toList, tree.OwnedBelow out.state.nodes.size := by
    intro tree mem
    refine intact.spare.owned tree ?_
    rw [Loose.trees_append, List.mem_append, Loose.trees_append, List.mem_append]
    exact .inr (.inl mem)
  have same : out.loose = { trees := out.tree.toList } := by
    have eq : out.loose = { parts := out.loose.parts, trees := out.tree.toList } := rfl
    rw [eq, noParts]
  have dropped : Intact plan outer out.state := by
    refine ⟨intact.toTidy.drop, intact.legible, intact.sturdy.mono (fun x some => ?_) fun id => ?_⟩
    · rw [same] at some
      simpa [Loose.count] using some
    · rw [same]
      simp
  exact ⟨dropped.attach owned, h.grows⟩

/-- The tree of a qualified name is assigned to the feature for which it was called, and to no other. -/
theorem calm {feature : String} (h : Spells plan outer s (some feature) out) :
    Calm (some feature) s (out.state.attach out.tree.toList) := by
  refine .trans (.of_frame h.frame h.grows) (.attach fun other differ => ?_)
  rcases h.result with ⟨-, tree⟩ | ⟨_, _, children, -, -, tree, bare⟩
  · rw [tree]
    simp
  · rw [tree, Option.toList_some, withFeatureOf_cons, withFeature_close differ, bare]
    rfl

end Spells

/-- A package is named by a qualified name. -/
theorem draws_path (fits : Fits plan) (spelling : Words plan invoke) (apart : "name" ∉ pending)
    (listed : (features type).lookup "name" = some .path) :
    Draws plan (Draft type ("name" :: pending) present)
      (run plan invoke (.assign "name" .set (.call qualifiedNameRule))) (Draft type pending present) := by
  intro outer s intact draft
  have spells := spelling outer s (some "name") intact
  have calm := spells.calm
  have carries := spells.unloose
  rw [run, runAssigned, call, fits.known rules_qualifiedName]
  refine ⟨rfl, ?_⟩
  dsimp only [Option.map_some]
  rcases spells.result with ⟨value, tree⟩ | ⟨text, offset, children, value, some, tree, -⟩
  · rw [value]
    exact ⟨carries, draft.skip calm apart⟩
  · obtain ⟨o, sketch, -⟩ := draft
    have plain : (Value.text text).IsPlain := trivial
    have taken : (((invoke qualifiedNameRule (.some "name") s).state.attach
        (invoke qualifiedNameRule (.some "name") s).tree.toList)).frame.children ≠ #[] := by
      rw [tree]
      exact children_attach_ne
    obtain ⟨carries', draft⟩ := settle .set sketch apart listed calm (parts_of_plain plain carries.intact)
      taken (.inl ⟨rfl, rfl⟩) ⟨text, rfl, some⟩ fun _ same => by cases same
    rw [value]
    exact ⟨carries', draft.weaken fun _ => List.mem_cons_of_mem _⟩

/-- A pending feature is set to a new reference, whose source is the tree just assigned to it. -/
theorem settle_reference {o : Object} {source : SourceTree} {target : TypeId} {text : String}
    (sketch : Sketch type (feature :: pending) present s o) (apart : feature ∉ pending)
    (listed : (features type).lookup feature = some (.reference target)) (calm : Calm (some feature) s t)
    (intact : Intact plan outer t) (taken : t.frame.children ≠ #[])
    (own : t.frame.assigned feature = [source]) (owned : source.OwnedBelow t.nodes.size) :
    Carries plan outer s (makeReference feature .set target text source t) ∧
      Draft type pending (feature :: present) (makeReference feature .set target text source t) := by
  have grown : Calm (some feature) t
      { t with references := t.references.push { text, target, source } } :=
    .of_frame rfl (preserves_refer t.arena { text, target, source })
  have found : (t.references.push { text, target, source })[t.references.size]? =
      some { text, target, source } := Array.getElem?_push_size
  refine settle .set sketch apart listed (calm.trans grown) (intact.refer owned text target) taken
    (.inl ⟨rfl, rfl⟩) ⟨_, _, rfl, found, rfl⟩ ?_
  rintro _ ⟨⟩
  exact ⟨_, found, congrArg List.head? own⟩

/-- A reference gets a qualified name as its text, and the tree of it as its source. -/
theorem draws_reference (fits : Fits plan) (spelling : Words plan invoke) {target : TypeId}
    (apart : feature ∉ pending) (listed : (features type).lookup feature = some (.reference target)) :
    Draws plan (Draft type (feature :: pending) present)
      (run plan invoke (.assign feature .set (.crossRef target qualifiedNameRule)))
      (Draft type pending present) := by
  intro outer s intact draft
  have spells := spelling outer s (some feature) intact
  have calm := spells.calm
  have carries := spells.unloose
  rw [run, runAssigned, crossReference, fits.known rules_qualifiedName]
  refine ⟨rfl, ?_⟩
  dsimp only
  rcases spells.result with ⟨value, tree⟩ | ⟨text, offset, children, value, -, tree, -⟩
  · rw [value]
    exact ⟨carries, draft.skip calm apart⟩
  · obtain ⟨o, sketch, -⟩ := draft
    have unassigned := (sketch.pending feature List.mem_cons_self).2
    rw [tree] at calm carries
    rw [value, tree]
    dsimp only [Option.toList_some, Value.asText] at calm carries ⊢
    have own : ((invoke qualifiedNameRule (some feature) s).state.attach
        [close qualifiedNameRule (some feature) offset children]).frame.assigned feature =
          [close qualifiedNameRule (some feature) offset children] := by
      rw [assigned_attach, spells.frame, unassigned]
      simp [close, withFeature]
    have owned := carries.intact.toTidy.children (close qualifiedNameRule (some feature) offset children)
      (by simp [State.attach])
    obtain ⟨carries', draft⟩ := settle_reference sketch apart listed calm carries.intact
      children_attach_ne own owned
    exact ⟨carries', draft.weaken fun _ => List.mem_cons_of_mem _⟩

/-! ### The text of a qualified name -/

/-- A text is collected that is not empty once a token has been taken, and nothing is assigned. -/
structure Worded (s : State) : Prop where
  text : ∃ acc, s.frame.content = .text acc ∧ (s.frame.children ≠ #[] → acc ≠ "")
  unassigned : ∀ feature, s.frame.assigned feature = []

/-- Where no token is taken, none is skipped. -/
theorem frame_expect_of_none {accepts : Token → Bool} {problem : ParseProblem} {assigned : Option String}
    (missing : (s.expect plan accepts problem assigned).2 = none) :
    (s.expect plan accepts problem assigned).1.frame = s.frame := by
  have some : ∀ {s : State}, s.stream.peek?.any accepts = true → (s.consume assigned).2 ≠ none := by
    intro s next none
    unfold State.consume at none
    cases found : s.stream.next? with
    | none =>
      rw [TokenStream.peek?_eq_head?, TokenStream.next?_eq_none_iff.1 found] at next
      cases next
    | some taken =>
      rw [found] at none
      cases none
  unfold State.expect at missing ⊢
  dsimp only at missing ⊢
  split at missing
  · next next => exact absurd missing (some (s := { s with recovering := false }) next)
  · split at missing
    · next second =>
      refine absurd missing (some (s := { ((s.raise plan problem).consume none).1 with
        recovering := false }) ?_)
      rw [TokenStream.second?_eq_head?] at second
      dsimp only
      rwa [TokenStream.peek?_eq_head?, visible_consume]
    · next first second =>
      rw [if_neg first, if_neg second]
      exact frame_raise problem

/-- What a text frame is after a token has been expected: as before, or the text has grown. -/
theorem worded_expect {accepts : Token → Bool} {problem : ParseProblem} {taken : Option Token}
    (intact : Intact plan outer s) (worded : Worded s)
    (expected : s.expect plan accepts problem none = (t, taken)) :
    (taken = none → Carries plan outer s t ∧ Worded t) ∧
      ∀ token, taken = some token → accepts token = true ∧ Legible token ∧
        ∀ text, text ≠ "" → Carries plan outer s (t.collect text) ∧ Worded (t.collect text) := by
  have takes := Takes.expect plan s accepts problem none
  have accepted := @accepts_of_expect plan s accepts problem none
  have missing := @frame_expect_of_none plan s accepts problem none
  have carries := carries_expect intact accepts problem none
  rw [expected] at takes accepted missing carries
  obtain ⟨⟨acc, content, some⟩, unassigned⟩ := worded
  dsimp only at takes accepted missing carries
  refine ⟨?_, ?_⟩
  · rintro rfl
    have frame := missing rfl
    refine ⟨carries, ⟨acc, ?_, ?_⟩, ?_⟩
    · rw [frame, content]
    · rw [frame]
      exact some
    · rw [frame]
      exact unassigned
  · rintro token rfl
    refine ⟨accepted rfl, intact.legible token (takes.mem token rfl), fun text nonempty => ?_⟩
    have content := takes.content.trans content
    refine ⟨⟨carries.intact.collect text, ?_⟩, ⟨acc ++ text, ?_, fun _ => ?_⟩, fun feature => ?_⟩
    · rw [arena_collect]
      exact carries.grows
    · rw [State.collect, content]
    · rw [← String.toList_inj.ne, String.toList_append]
      have letters : text.toList ≠ [] := fun empty => nonempty (String.toList_injective empty)
      simp [letters]
    · rw [(sameFor_collect text).assigned, (Calm.of_takes takes).assigned feature nofun]
      exact unassigned feature

/-- A point is part of a qualified name. -/
theorem draws_point : Draws plan Worded (run plan invoke (.keyword ".")) Worded := by
  intro outer s intact worded
  rw [run]
  dsimp only [State.expectKeyword]
  cases expected : s.expect plan (·.isKeyword ".") (.missingKeyword ".") none with
  | mk t taken =>
    obtain ⟨missing, found⟩ := worded_expect intact worded expected
    cases taken with
    | none => exact ⟨rfl, missing rfl⟩
    | some token => exact ⟨rfl, (found token rfl).2.2 _ (by decide)⟩

/-- A simple name is part of a qualified name. -/
theorem draws_word (fits : Fits plan) : Draws plan Worded (run plan invoke (.call nameRule)) Worded := by
  intro outer s intact worded
  rw [run, call, fits.known rules_name]
  dsimp only [State.expectKind, Option.map_none]
  cases expected : s.expect plan (·.kind == .identifier) (.missingToken "ID") none with
  | mk t taken =>
    obtain ⟨missing, found⟩ := worded_expect intact worded expected
    cases taken with
    | none => exact ⟨rfl, missing rfl⟩
    | some token =>
      obtain ⟨isName, legible, grows⟩ := found token rfl
      exact ⟨rfl, grows _ (legible.name (by simpa using isName)).1⟩

/-! ### Expressions -/

/-- An operator of the chain is next. -/
theorem peek_of_ready_link (fits : Fits plan) {k : Nat} (chained : k = 1 ∨ k = 2)
    (starts : ready plan (link k) s = true) :
    ∃ text ∈ symbolsAt k, s.stream.peek?.any (·.isKeyword text) = true := by
  rw [fits.isReady (first_link chained) rfl, State.ahead, List.head?_map, Option.any_map,
    ← TokenStream.peek?_eq_head?, Option.any_eq_true] at starts
  obtain ⟨token, next, accepted⟩ := starts
  change FirstSet.accepts ⟨symbolsAt k, []⟩ (token.kind, token.image) = true at accepted
  rw [FirstSet.accepts] at accepted
  split at accepted
  · next isKeyword =>
    refine ⟨token.image, List.contains_iff_mem.1 accepted, ?_⟩
    rw [next]
    simpa [Token.isKeyword] using isKeyword
  · cases accepted

theorem symbolsAt_subset (k : Nat) : symbolsAt k ⊆ ["+", "-", "*", "/"] := by
  unfold symbolsAt
  split <;> simp

/-- The alternative of a keyword that is next is chosen. -/
theorem choose_keyword (plan : Plan) {texts : List String} {text : String} (mem : text ∈ texts)
    (next : s.stream.peek?.any (·.isKeyword text) = true) :
    ∃ i text', choose plan (texts.map .keyword) s = some i ∧ texts[i]? = some text' ∧
      s.stream.peek?.any (·.isKeyword text') = true := by
  have isReady : ∀ text, ready plan (.keyword text) s = s.stream.peek?.any (·.isKeyword text) :=
    fun _ => rfl
  unfold choose
  cases found : (texts.map Element.keyword).findIdx? (ready plan · s) with
  | none =>
    have none := List.findIdx?_eq_none_iff.1 found _ (List.mem_map_of_mem mem)
    rw [isReady, next] at none
    cases none
  | some i =>
    obtain ⟨inside, starts, -⟩ := List.findIdx?_eq_some_iff_getElem.1 found
    rw [List.length_map] at inside
    rw [List.getElem_map, isReady] at starts
    exact ⟨i, texts[i], rfl, List.getElem?_eq_getElem inside, starts⟩

theorem runAssignedNth_keyword {op : AssignOp} {texts : List String} {i : Nat} {text : String}
    (found : texts[i]? = some text) :
    runAssignedNth plan invoke feature op (texts.map .keyword) i s =
      runAssigned plan invoke feature op (.keyword text) s := by
  induction texts generalizing i with
  | nil => cases found
  | cons first rest ih =>
    rw [List.map_cons]
    cases i with
    | zero =>
      cases found
      rw [runAssignedNth]
    | succ i =>
      rw [runAssignedNth]
      exact ih found

/-- The operator that is next is taken. -/
theorem operator_spec (invoke : Invocation) {k : Nat} {o : Object} (intact : Intact plan outer s)
    (sketch : Sketch binaryType ["op", "right"] ["left"] s o)
    (next : ∃ text ∈ symbolsAt k, s.stream.peek?.any (·.isKeyword text) = true) :
    ∃ t, run plan invoke (.assign "op" .set (.alternatives ((symbolsAt k).map .keyword))) s =
        { state := t } ∧
      Carries plan outer s t ∧ Draft binaryType ["right"] ["op", "left"] t := by
  obtain ⟨text, mem, isNext⟩ := next
  obtain ⟨i, text, chosen, found, isNext⟩ := choose_keyword plan mem isNext
  have takes := Takes.expect plan s (·.isKeyword text) (.missingKeyword text) (some "op")
  have carries := carries_expect intact (·.isKeyword text) (.missingKeyword text) (some "op")
  obtain ⟨token, took⟩ := @expect_of_peek plan s (·.isKeyword text) (.missingKeyword text) (some "op") isNext
  rw [run, runAssigned, chosen]
  dsimp only
  rw [runAssignedNth_keyword found, runAssigned]
  dsimp only [State.expectKeyword]
  rw [took] at takes ⊢
  have plain : (Value.text text).IsPlain := trivial
  obtain ⟨carries', draft⟩ := settle .set sketch (by decide)
    (show (features binaryType).lookup "op" = some .operator from rfl) (.of_takes takes)
    (parts_of_plain plain carries.intact) (children_ne_of_takes takes) (.inl ⟨rfl, rfl⟩)
    ⟨text, symbolsAt_subset k (List.mem_of_getElem? found), rfl⟩ nofun
  exact ⟨_, rfl, carries', draft⟩

/-- A turn of a chain makes the operand so far the left one of an operation. -/
theorem draws_link (fits : Fits plan) {k : Nat} (chained : k = 1 ∨ k = 2)
    (supplied : Supplied plan invoke (ruleAt (k + 1)) expressionTypes) :
    Draws plan (fun s => Drawn expressionTypes s ∧ ready plan (link k) s = true)
      (run plan invoke (link k)) (Drawn expressionTypes) := by
  rintro outer s intact ⟨⟨type, mem, o, sketch, -⟩, starts⟩
  have declared : type < 10 := by
    have small : ∀ type ∈ expressionTypes, type < 10 := by decide
    exact small type mem
  obtain ⟨carries, o', wrapped⟩ := wrap_spec fits binaryType "left" ["op", "right"] intact sketch
    declared (List.Subset.refl _) mem rfl (by decide)
  have next := peek_of_ready_link fits chained starts
  rw [← (Silent.wrap plan s binaryType "left" .set).stream] at next
  obtain ⟨t, ran, carries', draft⟩ := operator_spec invoke carries.intact wrapped next
  have right : Draws plan (Draft binaryType ["right"] ["op", "left"])
      (runAll plan invoke [.assign "right" .set (.call (ruleAt (k + 1)))])
      (Draft binaryType [] ["op", "left"]) :=
    draws_cons (draws_node fits supplied nofun rfl) draws_nil
  obtain ⟨steady, carries'', drawn⟩ := right outer t carries'.intact draft
  have binary : binaryType ∈ expressionTypes := by decide
  rw [link, run, runAll, run]
  dsimp only [Option.isSome_none]
  rw [if_neg (by decide), runAll, ran]
  dsimp only [Option.isSome_none]
  rw [if_neg (by decide)]
  refine ⟨steady, (carries.trans carries').trans carries'', binaryType, binary, ?_⟩
  exact drawn.weaken (by decide)

end Workbench.DomainModel
