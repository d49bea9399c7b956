import Workbench.Proofs.Parser.Beside
import Workbench.Proofs.Parser.Blanks
import Workbench.Proofs.Parser.Predictive

/-!
**What is read does not depend on what comes behind.**

A sequence is read in the same way whatever follows it, as long as the parser does not look beyond its last
token, or what it sees there does not start any part that may still come. It does not look beyond the end of
a *closed* element, one that ends with a keyword or a token of a terminal rule on every way. So two runs
of an element, in front of the same sequence but with different tokens behind it, both take exactly the
sequence, and build the same. The argument goes along the derivation of the sequence, for both runs at once:
what stands behind a part of the sequence is the same in both, or the part is the last one.
-/

namespace Workbench

/-! ### Closed elements -/

namespace Grammar

variable {g : Grammar} {id called : RuleId} {e v item body : Element} {items after : List Element}
  {depth : Nat} {w rest : List Token}

/-- Whatever the element derives ends with a keyword or with the token of a terminal rule, so that nothing
that comes behind can belong to it. -/
inductive Closed (g : Grammar) : Element → Prop where
  | keyword {text : String} : Closed g (.keyword text)
  | token {e : Element} {id : RuleId} {kind : TokenKind} (calls : e.callee? = some id)
    (terminal : g.terminal? id = some kind) : Closed g e
  | rule {e body : Element} {id : RuleId} (calls : e.callee? = some id)
    (known : g.body? id = some body) (inside : Closed g body) : Closed g e
  | assign {feature : String} {op : AssignOp} {value : Element} (inside : Closed g value) :
    Closed g (.assign feature op value)
  | last {item : Element} (inside : Closed g item) : Closed g (.group [item])
  | item {item : Element} {rest : List Element} (behind : Closed g (.group rest)) :
    Closed g (.group (item :: rest))
  | alternatives {items : List Element} (all : ∀ item ∈ items, Closed g item) :
    Closed g (.alternatives items)

namespace Closed

theorem value {feature : String} {op : AssignOp} (h : g.Closed (.assign feature op v)) : g.Closed v := by
  cases h with
  | assign inside => exact inside
  | token calls => cases calls
  | rule calls => cases calls

theorem alternative (h : g.Closed (.alternatives items)) (mem : item ∈ items) : g.Closed item := by
  cases h with
  | alternatives all => exact all item mem
  | token calls => cases calls
  | rule calls => cases calls

theorem not_repetition {cardinality : Cardinality} (h : g.Closed (.repetition cardinality item)) :
    False := by
  cases h with
  | token calls => cases calls
  | rule calls => cases calls

/-- The last item of a closed group is closed, and the items behind any other one are. -/
theorem of_cons (h : g.Closed (.group (item :: items))) :
    items = [] ∧ g.Closed item ∨ g.Closed (.group items) := by
  cases h with
  | last inside => exact .inl ⟨rfl, inside⟩
  | item behind => exact .inr behind
  | token calls => cases calls
  | rule calls => cases calls

theorem of_callee? (h : g.Closed e) (calls : e.callee? = some called) (known : g.body? called = some body) :
    g.Closed body := by
  cases h with
  | token calls' terminal =>
    obtain rfl := Option.some.inj (calls'.symm.trans calls)
    rw [Lookahead.terminal?_of_body? known] at terminal
    cases terminal
  | rule calls' known' inside =>
    obtain rfl := Option.some.inj (calls'.symm.trans calls)
    obtain rfl := Option.some.inj (known'.symm.trans known)
    exact inside
  | _ => cases calls

/-- What a closed element derives has a last token. -/
theorem ne_nil (h : g.Closed e) (derived : g.Derives depth e w) : w ≠ [] := by
  induction h generalizing depth w with
  | keyword =>
    obtain ⟨t, -, rfl⟩ := derives_keyword.1 derived
    simp
  | token calls terminal =>
    rcases derived.of_callee? calls with ⟨t, -, rfl⟩ | ⟨body, less, known, -⟩
    · simp
    · rw [Lookahead.terminal?_of_body? known] at terminal
      cases terminal
  | rule calls known _ ih =>
    rcases derived.of_callee? calls with ⟨t, -, rfl⟩ | ⟨body, less, known', -, inside⟩
    · simp
    · obtain rfl := Option.some.inj (known'.symm.trans known)
      exact ih inside
  | assign _ ih => exact ih (derives_assign.1 derived)
  | last _ ih =>
    obtain ⟨u, v, rfl, head, -⟩ := derives_cons.1 derived
    simp [ih head]
  | item _ ih =>
    obtain ⟨u, v, rfl, -, tail⟩ := derives_cons.1 derived
    simp [ih tail]
  | alternatives _ ih =>
    obtain ⟨item, mem, inside⟩ := derives_alternatives.1 derived
    exact ih item mem inside

end Closed

/-! ### What comes behind -/

/-- Reading an element stops in front of `rest`: it is complete, or what comes does not continue it. -/
def Stops (g : Grammar) (id : RuleId) (e : Element) (after : List Element) (rest : List Token) : Prop :=
  g.Closed e ∨ Continues (g.FollowsAt id after) rest

namespace Stops

theorem continues_of_nil (h : g.Stops id e after rest) (derived : g.Derives depth e []) :
    Continues (g.FollowsAt id after) rest :=
  h.resolve_left fun closed => closed.ne_nil derived rfl

theorem value {feature : String} {op : AssignOp} (h : g.Stops id (.assign feature op v) after rest) :
    g.Stops id v after rest :=
  h.imp_left Closed.value

theorem alternative (h : g.Stops id (.alternatives items) after rest) (mem : item ∈ items) :
    g.Stops id item after rest :=
  h.imp_left fun closed => closed.alternative mem

theorem repetition {cardinality : Cardinality}
    (h : g.Stops id (.repetition cardinality item) after rest) : Continues (g.FollowsAt id after) rest :=
  h.resolve_left Closed.not_repetition

/-- Behind an item of a group come the others, which are not empty if the group is closed by them. -/
theorem head (h : g.Stops id (.group (item :: items)) after rest) (tail : g.Derives depth (.group items) w) :
    g.Stops id item (items ++ after) (w ++ rest) := by
  rcases h with closed | continues
  · rcases closed.of_cons with ⟨-, last⟩ | behind
    · exact .inl last
    · right
      intro t mem
      obtain ⟨u, v, rfl⟩ := List.exists_cons_of_ne_nil (behind.ne_nil tail)
      obtain rfl : u = t := by simpa using mem
      obtain ⟨x, starts, fits⟩ := tail.starts
      exact ⟨x, .inl starts.append_left, fits⟩
  · exact .inr (.append tail continues)

theorem tail (h : g.Stops id (.group (item :: items)) after rest) (more : items ≠ []) :
    g.Stops id (.group items) after rest := by
  rcases h with closed | continues
  · exact .inl (closed.of_cons.resolve_left fun last => more last.1)
  · exact .inr continues

/-- At the end of a rule that is called, what comes is what follows the call. -/
theorem callee (h : g.Stops id e after rest) (stands : g.Stands id e after)
    (calls : e.callee? = some called) (known : g.body? called = some body) :
    g.Stops called body [] rest :=
  h.imp (fun closed => closed.of_callee? calls known)
    fun continues => continues.mono fun _ follows => (follows.follows stands calls).at_end

end Stops

end Grammar

namespace Interpreter

open State Grammar

variable {plan : Plan} {stop : Nat} {invoke invoke' : Invocation} {depth : Nat} {s t s' t' u v : State}
  {w rest rest' between between' : List Token} {e item : Element} {items after : List Element}
  {id callee : RuleId}

/-! ### Runs side by side -/

/-- Two runs, from `s` to `s'` and from `t` to `t'`, have reported nothing and built the same, and each has
left what stood behind the sequence. -/
structure Abreast (s t : State) (rest rest' : List Token) (s' t' : State) : Prop where
  left : Passes s rest s'
  right : Passes t rest' t'
  beside : s'.Beside t'

namespace Abreast

theorem refl (visible : s.stream.visible = rest) (visible' : t.stream.visible = rest')
    (beside : s.Beside t) : Abreast s t rest rest' s t :=
  ⟨.refl visible, .refl visible', beside⟩

theorem then_silent (h : Abreast s t rest rest' s' t') (silent : Silent s' u) (silent' : Silent t' v)
    (beside : u.Beside v) : Abreast s t rest rest' u v :=
  ⟨h.left.then_silent silent, h.right.then_silent silent', beside⟩

theorem trans (h : Abreast s t between between' s' t') (h' : Abreast s' t' rest rest' u v) :
    Abreast s t rest rest' u v :=
  ⟨h.left.trans h'.left, h.right.trans h'.right, h'.beside⟩

theorem collect (h : Abreast s t rest rest' s' t') (text : String) :
    Abreast s t rest rest' (s'.collect text) (t'.collect text) :=
  h.then_silent (.collect _ _) (.collect _ _) (h.beside.collect text)

theorem assign (h : Abreast s t rest rest' s' t') (feature : String) (op : AssignOp) (value : Value) :
    Abreast s t rest rest' (s'.assign feature op value) (t'.assign feature op value) :=
  h.then_silent (.assign _ _ _ _) (.assign _ _ _ _) (h.beside.assign feature op value)

theorem adopt (h : Abreast s t rest rest' s' t') (n : NodeId) :
    Abreast s t rest rest' (s'.adopt n) (t'.adopt n) :=
  h.then_silent (.adopt _ _) (.adopt _ _) (h.beside.adopt n)

theorem note (h : Abreast s t rest rest' s' t') (incident : Incident) :
    Abreast s t rest rest' (s'.note incident) (t'.note incident) :=
  h.then_silent (.note _ _) (.note _ _) (h.beside.note incident)

theorem makeReference (h : Abreast s t rest rest' s' t') (feature : String) (op : AssignOp)
    (target : TypeId) (text : String) (source source' : SourceTree) :
    Abreast s t rest rest' (Interpreter.makeReference feature op target text source s')
      (Interpreter.makeReference feature op target text source' t') :=
  h.then_silent (.makeReference _ _ _ _ _ _) (.makeReference _ _ _ _ _ _)
    (h.beside.makeReference feature op target text source source')

end Abreast

/-- Two runs of an element have come to their ends. -/
structure InStep (s t : State) (rest rest' : List Token) (a b : Outcome) : Prop where
  ends : a.stuck = none
  ends' : b.stuck = none
  abreast : Abreast s t rest rest' a.state b.state

/-- A run goes on behind another one. -/
theorem Abreast.before {a b : Outcome} (h : Abreast s t between between' s' t')
    (h' : InStep s' t' rest rest' a b) : InStep s t rest rest' a b :=
  ⟨h'.ends, h'.ends', h.trans h'.abreast⟩

theorem InStep.refl (visible : s.stream.visible = rest) (visible' : t.stream.visible = rest')
    (beside : s.Beside t) : InStep s t rest rest' { state := s } { state := t } :=
  ⟨rfl, rfl, .refl visible visible' beside⟩

/-- A token that is accepted is taken, and what stood behind it is left. -/
theorem expect_of_accepted (plan : Plan) {accepts : Token → Bool} {token : Token}
    (accepted : accepts token = true) (visible : s.stream.visible = token :: rest)
    (problem : ParseProblem) (feature : Option String) :
    ∃ trees stream, trees ≠ [] ∧ s.expect plan accepts problem feature =
      (({ s with stream, recovering := false }).attach trees, some token) := by
  have next : s.stream.peek?.any accepts = true := by
    rw [TokenStream.peek?_eq_head?, visible]
    exact accepted
  cases taken : s.stream.next? with
  | none =>
    rw [TokenStream.next?_eq_none_iff.1 taken] at visible
    cases visible
  | some out =>
    obtain ⟨hidden, first, stream⟩ := out
    rw [TokenStream.visible_of_next? taken, List.cons.injEq] at visible
    obtain ⟨rfl, -⟩ := visible
    refine ⟨hidden.map (SourceTree.leaf · none) ++ [SourceTree.leaf first feature], stream, by simp, ?_⟩
    unfold State.expect
    rw [if_pos next]
    exact consume_of_next? (s := { s with recovering := false }) taken feature

/-- Both runs take the token ahead. -/
theorem abreast_expect (plan : Plan) (stop : Nat) {accepts : Token → Bool} {token : Token}
    (accepted : accepts token = true) (visible : s.stream.visible = token :: rest)
    (visible' : t.stream.visible = token :: rest') (beside : s.Beside t) (problem : ParseProblem)
    (feature : Option String) :
    ∃ s' t', s.expect plan accepts problem feature = (s', some token) ∧
      t.expect (plan.endingAt stop) accepts problem feature = (t', some token) ∧
      Abreast s t rest rest' s' t' := by
  have left := passes_expect plan accepted visible problem feature
  have right := passes_expect (plan.endingAt stop) accepted visible' problem feature
  obtain ⟨trees, stream, some_, eq⟩ := expect_of_accepted plan accepted visible problem feature
  obtain ⟨trees', stream', some_', eq'⟩ :=
    expect_of_accepted (plan.endingAt stop) accepted visible' problem feature
  rw [eq] at left ⊢
  rw [eq'] at right ⊢
  have moved : Beside { s with stream, recovering := false }
      { t with stream := stream', recovering := false } :=
    ⟨⟨beside.arena, rfl, beside.incidents⟩, beside.frame⟩
  exact ⟨_, _, rfl, rfl, left, right, moved.attach (by simp [some_, some_'])⟩

/-! ### Calls -/

/-- What two invocations give back to their callers. -/
structure Answered (s t : State) (rest rest' : List Token) (a b : Invoked) : Prop where
  left : Passes s rest a.state
  right : Passes t rest' b.state
  frame : a.state.frame = s.frame
  frame' : b.state.frame = t.frame
  level : a.state.Level b.state
  tree : a.tree.toList = [] ↔ b.tree.toList = []
  value : a.value = b.value

/-- Invocations that take what their rules derive, and build the same whatever comes behind. -/
def Companions (plan : Plan) (invoke invoke' : Invocation) (depth : Nat) : Prop :=
  ∀ {e body : Element} {id : RuleId} {w rest rest' : List Token}, e.callee? = some id →
    plan.grammar.body? id = some body → plan.grammar.Reachable id → plan.grammar.Derives depth e w →
    plan.grammar.Stops id body [] rest → plan.grammar.Stops id body [] rest' →
    ∀ feature s t, s.stream.visible = w ++ rest → t.stream.visible = w ++ rest' → s.Level t →
    Answered s t rest rest' (invoke id feature s) (invoke' id feature t)

theorem Answered.attach {a b : Invoked} (h : Answered s t rest rest' a b) (beside : s.Beside t)
    {us vs : List SourceTree} (both : us = [] ↔ vs = []) :
    Abreast s t rest rest' (a.state.attach us) (b.state.attach vs) := by
  have back : a.state.Beside b.state := ⟨h.level, by rw [h.frame, h.frame']; exact beside.frame⟩
  exact ⟨h.left.of_same rfl rfl, h.right.of_same rfl rfl, back.attach both⟩

/-- A rule for tokens takes the token that is derived. -/
theorem abreast_token (stop : Nat) {rule : Rule} {token : TokenKind} {value : ValueKind}
    (derived : plan.grammar.Derives depth e w) (calls : e.callee? = some id)
    (known : plan.grammar.rules[id]? = some rule) (kind : rule.kind = .terminal token value)
    (visible : s.stream.visible = w ++ rest) (visible' : t.stream.visible = w ++ rest')
    (beside : s.Beside t) (feature : Option String) :
    ∃ first s' t', s.expectKind plan token rule.name feature = (s', some first) ∧
      t.expectKind (plan.endingAt stop) token rule.name feature = (t', some first) ∧
      Abreast s t rest rest' s' t' := by
  rcases derived.of_callee? calls with ⟨first, terminal, rfl⟩ | ⟨body, less, known', -⟩
  · have same : token = first.kind := by
      simpa [Grammar.terminal?, known, kind, RuleKind.terminal?] using terminal
    exact ⟨first, abreast_expect plan stop (by simp [same]) visible visible' beside _ _⟩
  · have nonterminal := Lookahead.terminal?_of_body? known'
    simp [Grammar.terminal?, known, kind, RuleKind.terminal?] at nonterminal

theorem abreast_call (hinvoke : Companions plan invoke invoke' depth)
    (stands : plan.grammar.Stands id e after) (calls : e.callee? = some callee)
    (checked : Element.callFault plan.grammar.rules callee = none)
    (derived : plan.grammar.Derives depth e w) (stops : plan.grammar.Stops id e after rest)
    (stops' : plan.grammar.Stops id e after rest') (visible : s.stream.visible = w ++ rest)
    (visible' : t.stream.visible = w ++ rest') (beside : s.Beside t)
    (target : Option (String × AssignOp)) :
    Abreast s t rest rest' (call plan invoke callee target s)
      (call (plan.endingAt stop) invoke' callee target t) := by
  obtain ⟨rule, known⟩ := exists_rule checked
  unfold call
  rw [grammar_endingAt, known]
  dsimp only
  split
  · next token value kind =>
    obtain ⟨first, s', t', eq, eq', taken⟩ := abreast_token stop derived calls known kind visible visible'
      beside (target.map (·.1))
    rw [eq, eq']
    cases target with
    | none => exact taken.collect _
    | some target => exact taken.assign _ _ _
  · next notTerminal =>
    have body := body?_of_rule known (RuleKind.terminal?_eq_none notTerminal)
    have inside := hinvoke calls body (stands.reachable_callee calls) derived
      (stops.callee stands calls body) (stops'.callee stands calls body) (target.map (·.1)) s t visible
      visible' beside.toLevel
    have attached := inside.attach beside inside.tree
    rw [inside.value]
    split
    · exact attached
    · exact attached.assign _ _ _
    · exact attached.assign _ _ _
    · exact (inside.attach beside (by simpa using inside.tree)).adopt _
    · exact attached.collect _

theorem abreast_crossReference (hinvoke : Companions plan invoke invoke' depth)
    (stands : plan.grammar.Stands id e after) (calls : e.callee? = some callee)
    (checked : Element.callFault plan.grammar.rules callee = none)
    (derived : plan.grammar.Derives depth e w) (stops : plan.grammar.Stops id e after rest)
    (stops' : plan.grammar.Stops id e after rest') (visible : s.stream.visible = w ++ rest)
    (visible' : t.stream.visible = w ++ rest') (beside : s.Beside t) (feature : String) (op : AssignOp)
    (target : TypeId) :
    Abreast s t rest rest' (crossReference plan invoke feature op target callee s)
      (crossReference (plan.endingAt stop) invoke' feature op target callee t) := by
  obtain ⟨rule, known⟩ := exists_rule checked
  unfold crossReference
  rw [grammar_endingAt, known]
  dsimp only
  split
  · next token value kind =>
    obtain ⟨first, s', t', eq, eq', taken⟩ := abreast_token stop derived calls known kind visible visible'
      beside (some feature)
    rw [eq, eq']
    exact taken.makeReference _ _ _ _ _ _
  · next notTerminal =>
    have body := body?_of_rule known (RuleKind.terminal?_eq_none notTerminal)
    have inside := hinvoke calls body (stands.reachable_callee calls) derived
      (stops.callee stands calls body) (stops'.callee stands calls body) (some feature) s t visible
      visible' beside.toLevel
    have attached := inside.attach beside inside.tree
    have trees := inside.tree
    rw [inside.value]
    cases left : (invoke callee (some feature) s).tree with
    | none =>
      have right : (invoke' callee (some feature) t).tree = none := by simpa [left] using trees
      rw [left, right] at attached
      rw [right]
      split
      · next taken => cases taken
      · exact attached.note _
      · exact attached
    | some tree =>
      obtain ⟨tree', right⟩ : ∃ tree', (invoke' callee (some feature) t).tree = some tree' := by
        rw [← Option.ne_none_iff_exists']
        simpa [left] using trees
      rw [left, right] at attached
      rw [right]
      cases (invoke' callee (some feature) t).value with
      | none => exact attached
      | some value =>
        cases value with
        | node n => exact attached.note _
        | value v => exact attached.makeReference _ _ _ _ _ _

/-! ### Choices and repetitions -/

/-- Both runs take the same alternative: the next token is the same, or none of them starts with it. -/
theorem choose_abreast (h : Predicting plan) (stop : Nat)
    (decides : plan.grammar.DecidesAmong (plan.grammar.FollowsAt id after) items)
    (mem : item ∈ items) (derived : plan.grammar.Derives depth item w)
    (stops : plan.grammar.Stops id item after rest) (stops' : plan.grammar.Stops id item after rest')
    (visible : s.stream.visible = w ++ rest) (visible' : t.stream.visible = w ++ rest') :
    ∃ i, choose plan items s = some i ∧ choose (plan.endingAt stop) items t = some i ∧
      items[i]? = some item := by
  have nothing : w = [] → Continues (plan.grammar.FollowsAt id after) rest := by
    rintro rfl
    exact stops.continues_of_nil derived
  obtain ⟨i, chosen, at_i⟩ := choose_of_derives h decides mem derived visible nothing
  refine ⟨i, chosen, ?_, at_i⟩
  rw [← chosen]
  have same : items.findIdx? (ready plan · t) = items.findIdx? (ready plan · s) := by
    cases w with
    | cons first w =>
      have sees : (ready plan · t) = (ready plan · s) := by
        funext other
        rw [ready, ready, TokenStream.peek?_eq_head?, TokenStream.peek?_eq_head?, visible, visible']
        rfl
      rw [sees]
    | nil =>
      have apart := decides.apart ⟨item, mem, derived.generates⟩
      rw [List.findIdx?_eq_none_iff.2 fun other mem' => Bool.eq_false_iff.2
          (not_ready h visible' (stops'.continues_of_nil derived) (apart other mem')),
        List.findIdx?_eq_none_iff.2 fun other mem' => Bool.eq_false_iff.2
          (not_ready h visible (nothing rfl) (apart other mem'))]
  exact congrArg (Option.or · _) same

/-- Runs that take what an element derives, and build the same whatever comes behind. -/
def Alongside (plan : Plan) (depth : Nat) (id : RuleId) (e : Element) (after : List Element)
    (body body' : State → Outcome) : Prop :=
  ∀ ⦃w rest rest' : List Token⦄ ⦃s t : State⦄, plan.grammar.Derives depth e w →
    plan.grammar.Stops id e after rest → plan.grammar.Stops id e after rest' →
    s.stream.visible = w ++ rest → t.stream.visible = w ++ rest' → s.Beside t →
    InStep s t rest rest' (body s) (body' t)

section Repetitions

variable {body body' : State → Outcome}

theorem turns_of_not_ready {canStart : State → Bool} (ended : ¬ canStart s = true) (fuel : Nat) :
    turns plan canStart body fuel s = { state := s } := by
  cases fuel with
  | zero => rfl
  | succ fuel => rw [turns, if_neg ended]

/-- A turn that takes a token is followed by the others. -/
theorem turns_of_ready {canStart : State → Bool} (starts : canStart s = true) (ends : (body s).stuck = none)
    (less : (body s).state.stream.count < s.stream.count) (fuel : Nat) :
    turns plan canStart body (fuel + 1) s = turns plan canStart body fuel (body s).state := by
  rw [turns, if_pos starts]
  dsimp only
  rw [ends]
  dsimp only
  rw [if_pos (by simpa using less)]

theorem inStep_turns (h : Predicting plan) (stop : Nat)
    (decides : plan.grammar.DecidesRepeating (plan.grammar.FollowsAt id after) item)
    (turn : Alongside plan depth id item (.repetition .zeroOrMore item :: after) body body')
    (fuel fuel' : Nat) (derived : plan.grammar.Derives depth (.repetition .zeroOrMore item) w)
    (continues : Continues (plan.grammar.FollowsAt id after) rest)
    (continues' : Continues (plan.grammar.FollowsAt id after) rest')
    (visible : s.stream.visible = w ++ rest) (visible' : t.stream.visible = w ++ rest')
    (beside : s.Beside t) (enough : s.stream.count ≤ fuel) (enough' : t.stream.count ≤ fuel') :
    InStep s t rest rest' (turns plan (ready plan item) body fuel s)
      (turns (plan.endingAt stop) (ready plan item) body' fuel' t) := by
  induction fuel generalizing s t w fuel' with
  | zero =>
    have nothing : w ++ rest = [] := by
      rw [← visible, ← TokenStream.count_eq_zero_iff]
      omega
    obtain ⟨rfl, rfl⟩ := List.append_eq_nil_iff.1 nothing
    have stopped : turns (plan.endingAt stop) (ready plan item) body' fuel' t = { state := t } :=
      turns_of_not_ready (not_ready h visible' continues' decides.apart) fuel'
    rw [stopped]
    exact .refl visible visible' beside
  | succ fuel ih =>
    cases derived with
    | token calls => cases calls
    | rule calls => cases calls
    | done =>
      rw [turns_of_not_ready (not_ready h visible continues decides.apart),
        turns_of_not_ready (not_ready h visible' continues' decides.apart)]
      exact .refl visible visible' beside
    | @again _ _ v w head tail =>
      obtain ⟨t₀, v, rfl⟩ := exists_cons_of_derives decides head
      rw [List.append_assoc] at visible visible'
      have first := turn head (.inr (.cons tail continues)) (.inr (.cons tail continues')) visible visible'
        beside
      have less := count_lt_of_passes visible first.abreast.left
      have less' := count_lt_of_passes visible' first.abreast.right
      obtain ⟨fuel', rfl⟩ : ∃ n, fuel' = n + 1 := ⟨fuel' - 1, by omega⟩
      rw [turns_of_ready (ready_of_derives h head visible) first.ends less,
        turns_of_ready (ready_of_derives h head visible') first.ends' less']
      have further := ih fuel' tail first.abreast.left.visible first.abreast.right.visible
        first.abreast.beside (by omega) (by omega)
      exact first.abreast.before further

theorem alongside_repeated (h : Predicting plan) (stop : Nat) {cardinality : Cardinality}
    (stands : plan.grammar.Stands id (.repetition cardinality item) after)
    (turn : ∀ behind, plan.grammar.Stands id item behind →
      Alongside plan depth id item behind body body') :
    Alongside plan depth id (.repetition cardinality item) after
      (repeated plan cardinality (ready plan item) body)
      (repeated (plan.endingAt stop) cardinality (ready plan item) body') := by
  intro w rest rest' s t derived stops stops' visible visible' beside
  have decides := h.predictive.repetitions id cardinality item after stands
  have continues := stops.repetition
  have continues' := stops'.repetition
  cases derived with
  | token calls => cases calls
  | rule calls => cases calls
  | absent =>
    have left := not_ready h visible continues decides.apart
    have right : ¬ ready plan item t = true :=
      not_ready h visible' continues' decides.apart
    unfold repeated
    dsimp only
    rw [if_neg left, if_neg right]
    exact .refl visible visible' beside
  | present inside =>
    obtain ⟨t₀, w, rfl⟩ := exists_cons_of_derives decides inside
    have left := ready_of_derives h inside visible
    have right : ready plan item t = true := ready_of_derives h inside visible'
    unfold repeated
    dsimp only
    rw [if_pos left, if_pos right]
    exact turn after (stands.within fun _ => .optional) inside (.inr continues) (.inr continues') visible
      visible' beside
  | done =>
    have several := stands.within fun _ => .turn (by decide)
    exact inStep_turns h stop decides (turn _ several) _ _ .done continues continues' visible visible' beside
      le_rfl le_rfl
  | again head tail =>
    have several := stands.within fun _ => .turn (by decide)
    exact inStep_turns h stop decides (turn _ several) _ _ (.again head tail) continues continues' visible
      visible' beside le_rfl le_rfl
  | atLeast head tail =>
    have several := stands.within fun _ => .turn (by decide)
    obtain ⟨t₀, v, rfl⟩ := exists_cons_of_derives decides head
    rw [List.append_assoc] at visible visible'
    have first := turn _ several head (.inr (.cons tail continues)) (.inr (.cons tail continues')) visible
      visible' beside
    have less := count_lt_of_passes visible first.abreast.left
    have less' := count_lt_of_passes visible' first.abreast.right
    unfold repeated
    dsimp only
    rw [first.ends, first.ends', Option.isSome_none, if_neg Bool.false_ne_true, if_neg Bool.false_ne_true,
      if_pos less, if_pos less']
    have further := inStep_turns h stop decides (turn _ several) _ _ tail continues continues'
      first.abreast.left.visible first.abreast.right.visible first.abreast.beside le_rfl le_rfl
    exact first.abreast.before further

end Repetitions

/-! ### Elements -/

theorem abreast_keyword (stop : Nat) {text : String} (derived : plan.grammar.Derives depth (.keyword text) w)
    (visible : s.stream.visible = w ++ rest) (visible' : t.stream.visible = w ++ rest')
    (beside : s.Beside t) (feature : Option String) :
    ∃ first s' t', s.expectKeyword plan text feature = (s', some first) ∧
      t.expectKeyword (plan.endingAt stop) text feature = (t', some first) ∧
      Abreast s t rest rest' s' t' := by
  obtain ⟨first, fits, rfl⟩ := derives_keyword.1 derived
  exact ⟨first, abreast_expect plan stop fits visible visible' beside _ _⟩

mutual

theorem alongside_run (h : Predicting plan) (hinvoke : Companions plan invoke invoke' depth)
    {inData : Bool} : ∀ (e : Element) (after : List Element),
      e.fault? plan.grammar.rules plan.grammar.types inData = none →
      plan.grammar.Stands id e after →
      Alongside plan depth id e after (run plan invoke e) (run (plan.endingAt stop) invoke' e)
  | .keyword text, after, _, _ => by
    intro w rest rest' s t derived _ _ visible visible' beside
    obtain ⟨first, s', t', eq, eq', taken⟩ := abreast_keyword stop derived visible visible' beside none
    rw [run, run, eq, eq']
    exact ⟨rfl, rfl, taken.collect text⟩
  | .call callee, after, checked, stands => by
    intro w rest rest' s t derived stops stops' visible visible' beside
    rw [Element.fault?, Option.or_eq_none_iff] at checked
    rw [run, run]
    exact ⟨rfl, rfl, abreast_call hinvoke stands rfl checked.1 derived stops stops' visible visible' beside
      none⟩
  | .assign feature op value, after, checked, stands => by
    intro w rest rest' s t derived stops stops' visible visible' beside
    rw [Element.fault?] at checked
    rw [run, run]
    split at checked
    · cases checked
    · exact alongside_runAssigned h hinvoke feature op value after checked
        (stands.within fun _ => .assign) (derives_assign.1 derived) stops.value stops'.value visible visible'
        beside
  | .crossRef _ _, after, checked, _ => by
    rw [Element.fault?] at checked
    cases checked
  | .action type into, after, _, _ => by
    intro w rest rest' s t derived _ _ visible visible' beside
    obtain rfl := derives_action.1 derived
    have none : Abreast s t rest rest' s t := .refl visible visible' beside
    rcases into with _ | ⟨feature, op⟩
    · rw [run, run]
      exact ⟨rfl, rfl, none.then_silent (.retag s type) (.retag t type) (beside.retag type)⟩
    · rw [run, run]
      exact ⟨rfl, rfl, none.then_silent (.wrap plan s type feature op) (.wrap _ t type feature op)
        (beside.wrap type feature op)⟩
  | .group items, after, checked, stands => by
    intro w rest rest' s t derived stops stops' visible visible' beside
    rw [Element.fault?] at checked
    rw [run, run]
    exact alongside_runAll h hinvoke items [] after checked stands derived (fun _ => stops)
      (fun _ => stops') visible visible' beside
  | .alternatives items, after, checked, stands => by
    intro w rest rest' s t derived stops stops' visible visible' beside
    rw [Element.fault?] at checked
    rw [run, run]
    split at checked
    · cases checked
    · obtain ⟨item, mem, inside⟩ := derives_alternatives.1 derived
      have decides := h.predictive.alternatives id items after stands
      obtain ⟨i, chosen, chosen', at_i⟩ := choose_abreast h stop decides mem inside (stops.alternative mem)
        (stops'.alternative mem) visible visible'
      rw [chosen, chosen']
      have stands' := stands.within fun _ around => .alternative around mem
      exact alongside_runNth h hinvoke items i after checked at_i stands' inside (stops.alternative mem)
        (stops'.alternative mem) visible visible' beside
  | .repetition cardinality item, after, checked, stands => by
    intro w rest rest' s t derived stops stops' visible visible' beside
    rw [Element.fault?] at checked
    rw [run, run]
    exact alongside_repeated h stop stands (fun behind => alongside_run h hinvoke item behind checked)
      derived stops stops' visible visible' beside

/-- The items of a group from some item on. If there is none, it does not matter what comes behind. -/
theorem alongside_runAll (h : Predicting plan) (hinvoke : Companions plan invoke invoke' depth)
    {inData : Bool} : ∀ (items front after : List Element),
      Element.listFault? plan.grammar.rules plan.grammar.types inData items = none →
      plan.grammar.Stands id (.group (front ++ items)) after →
      ∀ ⦃w rest rest' : List Token⦄ ⦃s t : State⦄, plan.grammar.Derives depth (.group items) w →
        (items ≠ [] → plan.grammar.Stops id (.group items) after rest) →
        (items ≠ [] → plan.grammar.Stops id (.group items) after rest') →
        s.stream.visible = w ++ rest → t.stream.visible = w ++ rest' → s.Beside t →
        InStep s t rest rest' (runAll plan invoke items s) (runAll (plan.endingAt stop) invoke' items t)
  | [], front, after, _, _ => by
    intro w rest rest' s t derived _ _ visible visible' beside
    rw [runAll, runAll]
    obtain rfl := derives_nil.1 derived
    exact .refl visible visible' beside
  | item :: items, front, after, checked, stands => by
    intro w rest rest' s t derived stops stops' visible visible' beside
    rw [Element.listFault?, Option.or_eq_none_iff] at checked
    rw [runAll, runAll]
    obtain ⟨u, v, rfl, head, tail⟩ := derives_cons.1 derived
    rw [List.append_assoc] at visible visible'
    replace stops := stops (by simp)
    replace stops' := stops' (by simp)
    have first := alongside_run h hinvoke item (items ++ after) checked.1
      (stands.within fun _ => .item) head (stops.head tail) (stops'.head tail) visible visible' beside
    have stands' : plan.grammar.Stands id (.group ((front ++ [item]) ++ items)) after := by
      simpa using stands
    have further := alongside_runAll h hinvoke items (front ++ [item]) after checked.2
      stands' tail stops.tail stops'.tail first.abreast.left.visible first.abreast.right.visible
      first.abreast.beside
    rw [first.ends, first.ends']
    exact first.abreast.before further

theorem alongside_runNth (h : Predicting plan) (hinvoke : Companions plan invoke invoke' depth)
    {inData : Bool} {item : Element} :
    ∀ (items : List Element) (i : Nat) (after : List Element),
      Element.listFault? plan.grammar.rules plan.grammar.types inData items = none →
      items[i]? = some item → plan.grammar.Stands id item after →
      Alongside plan depth id item after (runNth plan invoke items i)
        (runNth (plan.endingAt stop) invoke' items i)
  | [], _, _, _, at_i, _ => by cases at_i
  | first :: _, 0, after, checked, at_i, stands => by
    intro w rest rest' s t derived stops stops' visible visible' beside
    rw [Element.listFault?, Option.or_eq_none_iff] at checked
    obtain rfl : first = item := by simpa using at_i
    rw [runNth, runNth]
    exact alongside_run h hinvoke first after checked.1 stands derived stops stops' visible visible' beside
  | _ :: others, i + 1, after, checked, at_i, stands => by
    intro w rest rest' s t derived stops stops' visible visible' beside
    rw [Element.listFault?, Option.or_eq_none_iff] at checked
    rw [runNth, runNth]
    exact alongside_runNth h hinvoke others i after checked.2 (by simpa using at_i) stands derived stops
      stops' visible visible' beside

theorem alongside_runAssigned (h : Predicting plan) (hinvoke : Companions plan invoke invoke' depth)
    (feature : String) (op : AssignOp) : ∀ (e : Element) (after : List Element),
      e.assignedFault? plan.grammar.rules plan.grammar.types = none →
      plan.grammar.Stands id e after →
      Alongside plan depth id e after (runAssigned plan invoke feature op e)
        (runAssigned (plan.endingAt stop) invoke' feature op e)
  | .keyword text, after, _, _ => by
    intro w rest rest' s t derived _ _ visible visible' beside
    obtain ⟨first, s', t', eq, eq', taken⟩ := abreast_keyword stop derived visible visible' beside
      (some feature)
    rw [runAssigned, runAssigned, eq, eq']
    exact ⟨rfl, rfl, taken.assign feature op _⟩
  | .call callee, after, checked, stands => by
    intro w rest rest' s t derived stops stops' visible visible' beside
    rw [Element.assignedFault?] at checked
    rw [runAssigned, runAssigned]
    exact ⟨rfl, rfl, abreast_call hinvoke stands rfl checked derived stops stops' visible visible' beside _⟩
  | .crossRef target callee, after, checked, stands => by
    intro w rest rest' s t derived stops stops' visible visible' beside
    rw [Element.assignedFault?, Option.or_eq_none_iff, Option.or_eq_none_iff] at checked
    rw [runAssigned, runAssigned]
    exact ⟨rfl, rfl, abreast_crossReference hinvoke stands rfl checked.2.1 derived stops stops' visible
      visible' beside feature op target⟩
  | .alternatives items, after, checked, stands => by
    intro w rest rest' s t derived stops stops' visible visible' beside
    rw [Element.assignedFault?] at checked
    rw [runAssigned, runAssigned]
    split at checked
    · cases checked
    · obtain ⟨item, mem, inside⟩ := derives_alternatives.1 derived
      have decides := h.predictive.alternatives id items after stands
      obtain ⟨i, chosen, chosen', at_i⟩ := choose_abreast h stop decides mem inside (stops.alternative mem)
        (stops'.alternative mem) visible visible'
      rw [chosen, chosen']
      have stands' := stands.within fun _ around => .alternative around mem
      exact alongside_runAssignedNth h hinvoke feature op items i after checked at_i stands' inside
        (stops.alternative mem) (stops'.alternative mem) visible visible' beside
  | .assign .., after, checked, _ => by simp [Element.assignedFault?] at checked
  | .action .., after, checked, _ => by simp [Element.assignedFault?] at checked
  | .group _, after, checked, _ => by simp [Element.assignedFault?] at checked
  | .repetition .., after, checked, _ => by simp [Element.assignedFault?] at checked

theorem alongside_runAssignedNth (h : Predicting plan) (hinvoke : Companions plan invoke invoke' depth)
    (feature : String) (op : AssignOp) {item : Element} :
    ∀ (items : List Element) (i : Nat) (after : List Element),
      Element.assignedListFault? plan.grammar.rules plan.grammar.types items = none →
      items[i]? = some item → plan.grammar.Stands id item after →
      Alongside plan depth id item after (runAssignedNth plan invoke feature op items i)
        (runAssignedNth (plan.endingAt stop) invoke' feature op items i)
  | [], _, _, _, at_i, _ => by cases at_i
  | first :: _, 0, after, checked, at_i, stands => by
    intro w rest rest' s t derived stops stops' visible visible' beside
    rw [Element.assignedListFault?, Option.or_eq_none_iff] at checked
    obtain rfl : first = item := by simpa using at_i
    rw [runAssignedNth, runAssignedNth]
    exact alongside_runAssigned h hinvoke feature op first after checked.1 stands derived stops stops'
      visible visible' beside
  | _ :: others, i + 1, after, checked, at_i, stands => by
    intro w rest rest' s t derived stops stops' visible visible' beside
    rw [Element.assignedListFault?, Option.or_eq_none_iff] at checked
    rw [runAssignedNth, runAssignedNth]
    exact alongside_runAssignedNth h hinvoke feature op others i after checked.2 (by simpa using at_i)
      stands derived stops stops' visible visible' beside

end

/-! ### Rules -/

/-- Two invocations that have built the same give back the same. -/
theorem level_leave (plan : Plan) (stop : Nat) (id : RuleId) (kind : RuleKind) (feature : Option String)
    (offset offset' : Nat) (caller caller' : Frame) (beside : s.Beside t) :
    (leave plan id kind feature offset caller s).state.Level
        (leave (plan.endingAt stop) id kind feature offset' caller' t).state ∧
      ((leave plan id kind feature offset caller s).tree.toList = [] ↔
        (leave (plan.endingAt stop) id kind feature offset' caller' t).tree.toList = []) ∧
      (leave plan id kind feature offset caller s).value =
        (leave (plan.endingAt stop) id kind feature offset' caller' t).value := by
  have back : Level { s with frame := caller } { t with frame := caller' } :=
    ⟨beside.arena, beside.recovering, beside.incidents⟩
  have empty : s.frame.children.isEmpty = t.frame.children.isEmpty := by
    rw [Bool.eq_iff_iff, Array.isEmpty_iff, Array.isEmpty_iff]
    exact beside.frame.children
  unfold leave
  dsimp only
  rw [empty, beside.frame.content]
  split
  · exact ⟨back, .rfl, rfl⟩
  · split
    · next o _ =>
      obtain ⟨level, same⟩ := back.constructObject plan stop o
        (some (SourceTree.close id feature offset s.frame.children.toList))
        (some (SourceTree.close id feature offset' t.frame.children.toList))
      rw [same]
      split
      · exact ⟨level, by simp, rfl⟩
      · exact ⟨level, by simp, rfl⟩
    · exact ⟨back, by simp, rfl⟩
    · exact ⟨back, by simp, rfl⟩

theorem abreast_runReported (h : Predicting plan) (hinvoke : Companions plan invoke invoke' depth)
    {body : Element} (reachable : plan.grammar.Reachable id) (known : plan.grammar.body? id = some body)
    (derived : plan.grammar.Derives depth body w) (stops : plan.grammar.Stops id body [] rest)
    (stops' : plan.grammar.Stops id body [] rest') (visible : s.stream.visible = w ++ rest)
    (visible' : t.stream.visible = w ++ rest') (beside : s.Beside t) :
    Abreast s t rest rest' (runReported plan invoke body s)
      (runReported (plan.endingAt stop) invoke' body t) := by
  obtain ⟨inData, checked⟩ := checked_of_body? known
  have together : Alongside plan depth id body [] (run plan invoke body)
      (run (plan.endingAt stop) invoke' body) :=
    alongside_run h hinvoke body [] checked (.body reachable known)
  have ran := together derived stops stops' visible visible' beside
  unfold runReported
  dsimp only
  rw [ran.ends, ran.ends']
  exact ran.abreast

/-- **What is read does not depend on what comes behind.** Two invocations of a rule, in front of the same
sequence that the rule derives and each with tokens behind it in front of which reading stops, take the
sequence, report nothing and build the same. -/
theorem companions_invoke (h : Predicting plan) (stop depth : Nat) :
    Companions plan (Interpreter.invoke plan depth) (Interpreter.invoke (plan.endingAt stop) depth)
      depth := by
  induction depth with
  | zero =>
    -- without an invocation no rule derives anything
    intro e body id w rest rest' calls known _ derived
    rcases derived.of_callee? calls with ⟨t, terminal, -⟩ | ⟨_, _, -, absurd, -⟩
    · rw [Lookahead.terminal?_of_body? known] at terminal
      cases terminal
    · cases absurd
  | succ depth ih =>
    intro e body id w rest rest' calls known reachable derived stops stops' feature s t visible visible' level
    rcases derived.of_callee? calls with ⟨t, terminal, -⟩ | ⟨body', less, known', same, inside⟩
    · rw [Lookahead.terminal?_of_body? known] at terminal
      cases terminal
    · obtain rfl : depth = less := by omega
      obtain rfl := Option.some.inj (known'.symm.trans known)
      obtain ⟨rule, found, -, rfl⟩ := rule_of_body? known'
      have entered : Beside { s with frame := Frame.enter id rule.kind }
          { t with frame := Frame.enter id rule.kind } :=
        ⟨⟨level.arena, level.recovering, level.incidents⟩, ⟨rfl, rfl, .rfl⟩⟩
      have ran : Abreast _ _ rest rest'
          (runReported plan (Interpreter.invoke plan depth) rule.body
            { s with frame := Frame.enter id rule.kind })
          (runReported (plan.endingAt stop) (Interpreter.invoke (plan.endingAt stop) depth) rule.body
            { t with frame := Frame.enter id rule.kind }) :=
        abreast_runReported h ih reachable known' inside stops stops' visible visible' entered
      rw [Interpreter.invoke, Interpreter.invoke, grammar_endingAt, found]
      dsimp only
      obtain ⟨levels, trees, values⟩ := level_leave plan stop id rule.kind feature (s.nextOffset plan)
        (t.nextOffset (plan.endingAt stop)) s.frame t.frame ran.beside
      obtain ⟨finished, -⟩ := leave_spec plan id rule.kind feature (s.nextOffset plan) s.frame
        (runReported plan (Interpreter.invoke plan depth) rule.body
          { s with frame := Frame.enter id rule.kind })
      obtain ⟨finished', -⟩ := leave_spec (plan.endingAt stop) id rule.kind feature
        (t.nextOffset (plan.endingAt stop)) t.frame
        (runReported (plan.endingAt stop) (Interpreter.invoke (plan.endingAt stop) depth) rule.body
          { t with frame := Frame.enter id rule.kind })
      have left : Passes s rest _ :=
        ⟨by rw [finished.stream]; exact ran.left.visible, finished.errors.trans ran.left.errors⟩
      have right : Passes t rest' _ :=
        ⟨by rw [finished'.stream]; exact ran.right.visible, finished'.errors.trans ran.right.errors⟩
      exact ⟨left, right, finished.frame, finished'.frame, levels, trees, values⟩

end Interpreter

end Workbench
