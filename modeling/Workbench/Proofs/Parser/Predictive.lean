import Workbench.Proofs.Grammar.Predictive
import Workbench.Proofs.Parser.Sentences

/-!
**Every sentence of a predictive grammar is accepted.**

A run of an element follows the derivation of a sequence: if the tokens ahead are the sequence and then
something that can come after the element, then the run takes exactly the sequence, reports nothing and
does not get stuck. At each choice the next token is either the first of the sequence, and then stands
behind one alternative only, or the sequence is empty and the token is one that follows, and then stands
behind no alternative. The argument goes along the elements as the interpreter does; what follows an
element is what the rest of its group, its repetition or its caller starts with.
-/

namespace Workbench

namespace Grammar

variable {g : Grammar} {id callee : RuleId} {e : Element} {after : List Element} {x y : Symbol}

/-! ### Places in a grammar -/

namespace Stands

theorem body {body : Element} (reachable : g.Reachable id) (known : g.body? id = some body) :
    g.Stands id body [] :=
  ⟨reachable, body, known, .body⟩

theorem within {inner : Element} {behind : List Element} (h : g.Stands id e after)
    (step : ∀ body, Occurs body e after → Occurs body inner behind) : g.Stands id inner behind := by
  obtain ⟨reachable, body, known, occurs⟩ := h
  exact ⟨reachable, body, known, step body occurs⟩

theorem reachable_callee (h : g.Stands id e after) (calls : e.callee? = some callee) : g.Reachable callee :=
  .call h.reachable h.occurs calls

end Stands

theorem FollowsAt.follows (h : g.FollowsAt id after x) (stands : g.Stands id e after)
    (calls : e.callee? = some callee) : g.Follows callee x := by
  rcases h with starts | ⟨empty, follows⟩
  · exact .next stands calls starts
  · exact .last stands calls empty follows

theorem Follows.at_end (h : g.Follows id x) : g.FollowsAt id [] x :=
  .inr ⟨⟨0, .nil⟩, h⟩

/-! ### Tokens and their symbols -/

/-- No terminal rule matches keywords. -/
def KeywordsApart (g : Grammar) : Prop := ∀ id, g.terminal? id ≠ some .keyword

theorem Starts.ne_keyword (apart : g.KeywordsApart) (h : g.Starts e x) : x ≠ .kind .keyword := by
  rintro rfl
  obtain ⟨id, terminal⟩ := Lookahead.exists_terminal_of_starts h
  exact apart id terminal

theorem Follows.ne_keyword (apart : g.KeywordsApart) (h : g.Follows id x) : x ≠ .kind .keyword := by
  induction h with
  | next _ _ starts => exact starts.ne_keyword apart
  | last _ _ _ _ ih => exact ih

theorem FollowsAt.ne_keyword (apart : g.KeywordsApart) (h : g.FollowsAt id after x) :
    x ≠ .kind .keyword := by
  rcases h with starts | ⟨-, follows⟩
  · exact starts.ne_keyword apart
  · exact follows.ne_keyword apart

/-- Apart from the kind of keywords, a token has one symbol. -/
theorem Symbol.eq_of_matches {t : Token} (left : x.Matches t) (right : y.Matches t)
    (notKind : x ≠ .kind .keyword) (notKind' : y ≠ .kind .keyword) : x = y := by
  cases x <;> cases y <;> simp_all [Symbol.Matches, Token.isKeyword]

/-- The next token, if there is one, is one that follows. -/
def Continues (follows : Symbol → Prop) (rest : List Token) : Prop :=
  ∀ t ∈ rest.head?, ∃ x, follows x ∧ x.Matches t

theorem Continues.mono {follows follows' : Symbol → Prop} {rest : List Token}
    (h : Continues follows rest) (imp : ∀ x, follows x → follows' x) : Continues follows' rest := by
  intro t mem
  obtain ⟨x, holds, fits⟩ := h t mem
  exact ⟨x, imp x holds, fits⟩

/-- In front of what follows a group stands what the group derives. -/
theorem Continues.append {depth : Nat} {items : List Element} {w rest : List Token}
    (derived : g.Derives depth (.group items) w) (h : Continues (g.FollowsAt id after) rest) :
    Continues (g.FollowsAt id (items ++ after)) (w ++ rest) := by
  intro t mem
  cases w with
  | nil =>
    obtain ⟨x, follows, fits⟩ := h t mem
    refine ⟨x, ?_, fits⟩
    rcases follows with starts | ⟨empty, follows⟩
    · exact .inl (starts.append_right derived.generates)
    · exact .inr ⟨derived.generates.append empty, follows⟩
  | cons u w =>
    obtain rfl : u = t := by simpa using mem
    obtain ⟨x, starts, fits⟩ := derived.starts
    exact ⟨x, .inl starts.append_left, fits⟩

theorem Continues.cons {depth : Nat} {w rest : List Token} (derived : g.Derives depth e w)
    (h : Continues (g.FollowsAt id after) rest) :
    Continues (g.FollowsAt id (e :: after)) (w ++ rest) := by
  have single : g.Derives depth (.group [e]) w := by simpa using Derives.cons derived .nil
  exact .append single h

end Grammar

namespace Interpreter

open State Grammar

/-- The interpreter looks ahead as its grammar says, and the grammar is predictive. -/
structure Predicting (plan : Plan) : Prop where
  lookahead : plan.lookahead = Lookahead.of plan.grammar
  apart : plan.grammar.KeywordsApart
  predictive : plan.grammar.Predictive

variable {plan : Plan} {invoke : Invocation} {depth : Nat} {s t u : State} {w rest : List Token}
  {e item : Element} {items after : List Element} {id callee : RuleId}

/-! ### Looking ahead -/

theorem ready_iff (h : Predicting plan) :
    ready plan e s = true ↔
      ∃ t x, s.stream.visible.head? = some t ∧ plan.grammar.Starts e x ∧ x.Matches t := by
  rw [ready, TokenStream.peek?_eq_head?, Option.any_eq_true, h.lookahead]
  simp only [Lookahead.predicts_iff h.apart, exists_and_left]

theorem ready_of_derives (h : Predicting plan) {t : Token}
    (derived : plan.grammar.Derives depth e (t :: w)) (visible : s.stream.visible = t :: w ++ rest) :
    ready plan e s = true := by
  obtain ⟨x, starts, fits⟩ := derived.starts
  exact (ready_iff h).2 ⟨t, x, by rw [visible]; rfl, starts, fits⟩

/-- An element that cannot start with what follows is not entered. -/
theorem not_ready (h : Predicting plan) (visible : s.stream.visible = rest)
    (continues : Continues (plan.grammar.FollowsAt id after) rest)
    (apart : ∀ x, plan.grammar.Starts e x → ¬ plan.grammar.FollowsAt id after x) :
    ¬ ready plan e s = true := by
  intro isReady
  obtain ⟨t, x, head, starts, fits⟩ := (ready_iff h).1 isReady
  rw [visible] at head
  obtain ⟨y, follows, fits'⟩ := continues t head
  have same := Symbol.eq_of_matches fits fits' (starts.ne_keyword h.apart)
    (follows.ne_keyword h.apart)
  exact apart x starts (same ▸ follows)

theorem findIdx?_of_unique {α : Type} {p : α → Bool} {items : List α} {item : α} (mem : item ∈ items)
    (holds : p item = true) (unique : items.Pairwise fun a b => p a = true → ¬ p b = true) :
    ∃ i, items.findIdx? p = some i ∧ items[i]? = some item := by
  induction items with
  | nil => cases mem
  | cons other rest ih =>
    obtain ⟨first, unique⟩ := List.pairwise_cons.1 unique
    rcases List.mem_cons.1 mem with rfl | mem
    · exact ⟨0, by simp [List.findIdx?_cons, holds], rfl⟩
    · obtain ⟨i, found, at_i⟩ := ih mem unique
      have skipped : p other = false := by
        by_contra taken
        exact first item mem (by simpa using taken) holds
      exact ⟨i + 1, by simp [List.findIdx?_cons, skipped, found], at_i⟩

/-- The alternative chosen is the one that derives the tokens ahead. -/
theorem choose_of_derives (h : Predicting plan)
    (decides : plan.grammar.DecidesAmong (plan.grammar.FollowsAt id after) items)
    (mem : item ∈ items) (derived : plan.grammar.Derives depth item w)
    (visible : s.stream.visible = w ++ rest)
    (continues : w = [] → Continues (plan.grammar.FollowsAt id after) rest) :
    ∃ i, choose plan items s = some i ∧ items[i]? = some item := by
  unfold choose
  cases w with
  | cons t w =>
    -- the token ahead stands behind one alternative only, whichever is tried first
    have chosen := ready_of_derives h derived visible
    obtain ⟨i, found, at_i⟩ := findIdx?_of_unique (p := (ready plan · s)) mem chosen <| by
      refine decides.disjoint.imp fun {a b} disjoint readyLeft readyRight => ?_
      obtain ⟨t, x, head, starts, fits⟩ := (ready_iff h).1 readyLeft
      obtain ⟨t', y, head', starts', fits'⟩ := (ready_iff h).1 readyRight
      obtain rfl : t = t' := Option.some.inj (head.symm.trans head')
      have same := Symbol.eq_of_matches fits fits' (starts.ne_keyword h.apart)
        (starts'.ne_keyword h.apart)
      exact disjoint x starts (same ▸ starts')
    exact ⟨i, by rw [found]; rfl, at_i⟩
  | nil =>
    -- the token ahead follows, so no alternative starts with it and the empty one is taken
    have empty := derived.generates
    have noneReady : items.findIdx? (ready plan · s) = none := by
      rw [List.findIdx?_eq_none_iff]
      intro other mem'
      exact Bool.eq_false_iff.2
        (not_ready h visible (continues rfl) (decides.apart ⟨item, mem, empty⟩ other mem'))
    rw [noneReady, Option.none_or, h.lookahead]
    refine findIdx?_of_unique mem ((Lookahead.nullable_iff _ _).2 empty) ?_
    refine decides.oneEmpty.imp fun {a b} one left right => ?_
    rw [Lookahead.nullable_iff] at left right
    exact one left right

/-! ### Passing -/

/-- A run from `s` to `t` has left `rest` and reported nothing. -/
structure Passes (s : State) (rest : List Token) (t : State) : Prop where
  visible : t.stream.visible = rest
  errors : t.errors = s.errors

/-- An element has come to its end, left `rest` and reported nothing. -/
structure Succeeds (s : State) (rest : List Token) (out : Outcome) : Prop where
  ends : out.stuck = none
  passes : Passes s rest out.state

namespace Passes

theorem refl (visible : s.stream.visible = rest) : Passes s rest s := ⟨visible, rfl⟩

theorem of_same (h : Passes s rest t) (stream : u.stream = t.stream) (errors : u.errors = t.errors) :
    Passes s rest u :=
  ⟨by rw [stream]; exact h.visible, errors.trans h.errors⟩

theorem then_silent (h : Passes s rest t) (silent : Silent t u) : Passes s rest u :=
  h.of_same silent.stream silent.errors

theorem trans {between : List Token} (h : Passes s between t) (h' : Passes t rest u) :
    Passes s rest u :=
  ⟨h'.visible, h'.errors.trans h.errors⟩

end Passes

theorem passes_expect (plan : Plan) {accepts : Token → Bool} {token : Token}
    (accepted : accepts token = true) (visible : s.stream.visible = token :: rest)
    (problem : ParseProblem) (feature : Option String) :
    Passes s rest (s.expect plan accepts problem feature).1 := by
  have next : s.stream.peek?.any accepts = true := by
    rw [TokenStream.peek?_eq_head?, visible]
    exact accepted
  unfold State.expect
  dsimp only
  rw [if_pos next]
  refine ⟨?_, errors_consume _ _⟩
  rw [visible_consume]
  change s.stream.visible.tail = rest
  rw [visible]
  rfl

/-! ### Calls -/

/-- Invocations that take what their rules derive. -/
def Taking (plan : Plan) (invoke : Invocation) (depth : Nat) : Prop :=
  ∀ {e body : Element} {id : RuleId} {w rest : List Token}, e.callee? = some id →
    plan.grammar.body? id = some body → plan.grammar.Reachable id → plan.grammar.Derives depth e w →
    Continues (plan.grammar.Follows id) rest → ∀ feature s, s.stream.visible = w ++ rest →
    Passes s rest (invoke id feature s).state

theorem passes_token {rule : Rule} {token : TokenKind} {value : ValueKind}
    (derived : plan.grammar.Derives depth e w) (calls : e.callee? = some id)
    (known : plan.grammar.rules[id]? = some rule) (kind : rule.kind = .terminal token value)
    (visible : s.stream.visible = w ++ rest) (feature : Option String) :
    Passes s rest (s.expectKind plan token rule.name feature).1 := by
  rcases derived.of_callee? calls with ⟨t, terminal, rfl⟩ | ⟨body, less, known', -⟩
  · refine passes_expect plan ?_ visible _ _
    have same : token = t.kind := by
      simpa [Grammar.terminal?, known, kind, RuleKind.terminal?] using terminal
    simp [same]
  · have nonterminal := Lookahead.terminal?_of_body? known'
    simp [Grammar.terminal?, known, kind, RuleKind.terminal?] at nonterminal

theorem passes_call (hinvoke : Taking plan invoke depth) (stands : plan.grammar.Stands id e after)
    (calls : e.callee? = some callee)
    (checked : Element.callFault plan.grammar.rules callee = none)
    (derived : plan.grammar.Derives depth e w) (visible : s.stream.visible = w ++ rest)
    (continues : Continues (plan.grammar.FollowsAt id after) rest)
    (target : Option (String × AssignOp)) : Passes s rest (call plan invoke callee target s) := by
  obtain ⟨rule, known⟩ := exists_rule checked
  unfold call
  rw [known]
  dsimp only
  split
  · next token value kind =>
    have taken := passes_token derived calls known kind visible (target.map (·.1))
    split
    · exact taken
    · exact taken.then_silent (.assign _ _ _ _)
    · exact taken.then_silent (.collect _ _)
  · next notTerminal =>
    have body := body?_of_rule known (RuleKind.terminal?_eq_none notTerminal)
    have inside := hinvoke calls body (stands.reachable_callee calls) derived
      (continues.mono fun x follows => follows.follows stands calls) (target.map (·.1)) s visible
    have attached := fun trees =>
      inside.of_same (u := (invoke callee (target.map (·.1)) s).state.attach trees) rfl rfl
    split
    · exact attached _
    · exact (attached _).then_silent (.assign _ _ _ _)
    · exact (attached _).then_silent (.assign _ _ _ _)
    · exact (attached _).then_silent (.adopt _ _)
    · exact (attached _).then_silent (.collect _ _)

theorem passes_crossReference (hinvoke : Taking plan invoke depth)
    (stands : plan.grammar.Stands id e after) (calls : e.callee? = some callee)
    (checked : Element.callFault plan.grammar.rules callee = none)
    (derived : plan.grammar.Derives depth e w) (visible : s.stream.visible = w ++ rest)
    (continues : Continues (plan.grammar.FollowsAt id after) rest) (feature : String) (op : AssignOp)
    (target : TypeId) : Passes s rest (crossReference plan invoke feature op target callee s) := by
  obtain ⟨rule, known⟩ := exists_rule checked
  unfold crossReference
  rw [known]
  dsimp only
  split
  · next token value kind =>
    have taken := passes_token derived calls known kind visible (some feature)
    split
    · exact taken
    · exact taken.then_silent (.makeReference _ _ _ _ _ _)
  · next notTerminal =>
    have body := body?_of_rule known (RuleKind.terminal?_eq_none notTerminal)
    have inside := hinvoke calls body (stands.reachable_callee calls) derived
      (continues.mono fun x follows => follows.follows stands calls) (some feature) s visible
    have attached := fun trees =>
      inside.of_same (u := (invoke callee (some feature) s).state.attach trees) rfl rfl
    split
    · exact (attached _).then_silent (.makeReference _ _ _ _ _ _)
    · exact (attached _).then_silent (.note _ _)
    · exact attached _

/-! ### Repetitions -/

/-- Runs that take what an element derives, in front of what follows it. -/
def Takes (plan : Plan) (depth : Nat) (id : RuleId) (e : Element) (after : List Element)
    (body : State → Outcome) : Prop :=
  ∀ ⦃w rest : List Token⦄ ⦃s : State⦄, plan.grammar.Derives depth e w →
    Continues (plan.grammar.FollowsAt id after) rest → s.stream.visible = w ++ rest →
    Succeeds s rest (body s)

section Repetitions

variable {body : State → Outcome}

theorem count_lt_of_passes {t₀ : Token} (visible : s.stream.visible = t₀ :: w ++ rest)
    (passes : Passes s rest t) : t.stream.count < s.stream.count := by
  rw [TokenStream.count_eq_length, TokenStream.count_eq_length, passes.visible, visible,
    List.length_append, List.length_cons]
  omega

theorem exists_cons_of_derives {follows : Symbol → Prop}
    (decides : plan.grammar.DecidesRepeating follows item)
    (derived : plan.grammar.Derives depth item w) : ∃ t v, w = t :: v := by
  cases w with
  | nil => exact absurd derived.generates decides.nonempty
  | cons t v => exact ⟨t, v, rfl⟩

/-- Each turn takes one part of the sequence, and the last is followed by a token that starts no
further turn. -/
theorem takes_turns (h : Predicting plan)
    (decides : plan.grammar.DecidesRepeating (plan.grammar.FollowsAt id after) item)
    (turn : Takes plan depth id item (.repetition .zeroOrMore item :: after) body) (fuel : Nat)
    (derived : plan.grammar.Derives depth (.repetition .zeroOrMore item) w)
    (continues : Continues (plan.grammar.FollowsAt id after) rest)
    (visible : s.stream.visible = w ++ rest) (enough : s.stream.count ≤ fuel) :
    Succeeds s rest (turns plan (ready plan item) body fuel s) := by
  induction fuel generalizing s w with
  | zero =>
    have nothing : w ++ rest = [] := by
      rw [← visible, ← TokenStream.count_eq_zero_iff]
      omega
    obtain ⟨rfl, rfl⟩ := List.append_eq_nil_iff.1 nothing
    exact ⟨rfl, .refl visible⟩
  | succ fuel ih =>
    rw [turns]
    cases derived with
    | token calls => cases calls
    | rule calls => cases calls
    | done =>
      -- what follows does not start like a turn
      rw [if_neg (not_ready h visible continues decides.apart)]
      exact ⟨rfl, .refl visible⟩
    | @again _ _ v w head tail =>
      obtain ⟨t₀, v, rfl⟩ := exists_cons_of_derives decides head
      rw [List.append_assoc] at visible
      -- behind a turn comes another one, or what follows
      have next := Continues.cons tail continues
      obtain ⟨ends, passes⟩ := turn head next visible
      have less := count_lt_of_passes visible passes
      rw [if_pos (ready_of_derives h head visible)]
      dsimp only
      rw [ends]
      dsimp only
      rw [if_pos (by simpa using less)]
      have further := ih tail passes.visible (by omega)
      exact ⟨further.ends, passes.trans further.passes⟩

theorem takes_repeated (h : Predicting plan) {cardinality : Cardinality}
    (stands : plan.grammar.Stands id (.repetition cardinality item) after)
    (turn : ∀ behind, plan.grammar.Stands id item behind → Takes plan depth id item behind body) :
    Takes plan depth id (.repetition cardinality item) after
      (repeated plan cardinality (ready plan item) body) := by
  intro w rest s derived continues visible
  have decides := h.predictive.repetitions id cardinality item after stands
  cases derived with
  | token calls => cases calls
  | rule calls => cases calls
  | absent =>
    unfold repeated
    dsimp only
    rw [if_neg (not_ready h visible continues decides.apart)]
    exact ⟨rfl, .refl visible⟩
  | present inside =>
    obtain ⟨t₀, w, rfl⟩ := exists_cons_of_derives decides inside
    unfold repeated
    dsimp only
    rw [if_pos (ready_of_derives h inside visible)]
    exact turn after (stands.within fun _ => .optional) inside continues visible
  | done =>
    have several := stands.within fun _ => .turn (by decide)
    exact takes_turns h decides (turn _ several) _ .done continues visible le_rfl
  | again head tail =>
    have several := stands.within fun _ => .turn (by decide)
    exact takes_turns h decides (turn _ several) _ (.again head tail) continues visible le_rfl
  | atLeast head tail =>
    have several := stands.within fun _ => .turn (by decide)
    obtain ⟨t₀, v, rfl⟩ := exists_cons_of_derives decides head
    rw [List.append_assoc] at visible
    obtain ⟨ends, passes⟩ := turn _ several head (.cons tail continues) visible
    have less := count_lt_of_passes visible passes
    unfold repeated
    dsimp only
    rw [ends, if_neg (by simp), if_pos less]
    have further := takes_turns h decides (turn _ several) _ tail continues passes.visible le_rfl
    exact ⟨further.ends, passes.trans further.passes⟩

end Repetitions

/-! ### Elements -/

theorem passes_keyword {text : String} (derived : plan.grammar.Derives depth (.keyword text) w)
    (visible : s.stream.visible = w ++ rest) (feature : Option String) :
    Passes s rest (s.expectKeyword plan text feature).1 := by
  obtain ⟨t, fits, rfl⟩ := derives_keyword.1 derived
  exact passes_expect plan fits visible _ _

mutual

theorem takes_run (h : Predicting plan) (hinvoke : Taking plan invoke depth) {inData : Bool} :
    ∀ (e : Element) (after : List Element),
      e.fault? plan.grammar.rules plan.grammar.types inData = none →
      plan.grammar.Stands id e after → Takes plan depth id e after (run plan invoke e)
  | .keyword text, after, _, _ => by
    intro w rest s derived _ visible
    have taken := passes_keyword derived visible none
    rw [run]
    refine ⟨rfl, ?_⟩
    dsimp only
    split
    · exact taken.then_silent (.collect _ _)
    · exact taken
  | .call callee, after, checked, stands => by
    intro w rest s derived continues visible
    rw [Element.fault?, Option.or_eq_none_iff] at checked
    rw [run]
    exact ⟨rfl, passes_call hinvoke stands rfl checked.1 derived visible continues none⟩
  | .assign feature op value, after, checked, stands => by
    intro w rest s derived continues visible
    rw [Element.fault?] at checked
    rw [run]
    split at checked
    · cases checked
    · exact takes_runAssigned h hinvoke feature op value after checked
        (stands.within fun _ => .assign) (derives_assign.1 derived) continues visible
  | .crossRef _ _, after, checked, _ => by
    rw [Element.fault?] at checked
    cases checked
  | .action type into, after, _, _ => by
    intro w rest s derived _ visible
    obtain rfl := derives_action.1 derived
    have passed : Passes s rest s := .refl visible
    rcases into with _ | ⟨feature, op⟩
    · rw [run]
      exact ⟨rfl, passed.then_silent (.retag s type)⟩
    · rw [run]
      exact ⟨rfl, passed.then_silent (.wrap plan s type feature op)⟩
  | .group items, after, checked, stands => by
    intro w rest s derived continues visible
    rw [Element.fault?] at checked
    rw [run]
    exact takes_runAll h hinvoke items [] after checked stands derived continues visible
  | .alternatives items, after, checked, stands => by
    intro w rest s derived continues visible
    rw [Element.fault?] at checked
    rw [run]
    split at checked
    · cases checked
    · obtain ⟨item, mem, inside⟩ := derives_alternatives.1 derived
      have decides := h.predictive.alternatives id items after stands
      obtain ⟨i, chosen, at_i⟩ := choose_of_derives h decides mem inside visible fun _ => continues
      rw [chosen]
      have stands' := stands.within fun _ around => .alternative around mem
      exact takes_runNth h hinvoke items i after checked at_i stands' inside continues visible
  | .repetition cardinality item, after, checked, stands => by
    intro w rest s derived continues visible
    rw [Element.fault?] at checked
    rw [run]
    exact takes_repeated h stands (fun behind => takes_run h hinvoke item behind checked) derived
      continues visible

/-- The items of a group from some item on. -/
theorem takes_runAll (h : Predicting plan) (hinvoke : Taking plan invoke depth) {inData : Bool} :
    ∀ (items front after : List Element),
      Element.listFault? plan.grammar.rules plan.grammar.types inData items = none →
      plan.grammar.Stands id (.group (front ++ items)) after →
      Takes plan depth id (.group items) after (runAll plan invoke items)
  | [], front, after, _, _ => by
    intro w rest s derived _ visible
    rw [runAll]
    obtain rfl := derives_nil.1 derived
    exact ⟨rfl, .refl visible⟩
  | item :: items, front, after, checked, stands => by
    intro w rest s derived continues visible
    rw [Element.listFault?, Option.or_eq_none_iff] at checked
    rw [runAll]
    obtain ⟨u, v, rfl, head, tail⟩ := derives_cons.1 derived
    rw [List.append_assoc] at visible
    -- behind an item come the items after it, and behind these what follows the group
    have first := takes_run h hinvoke item (items ++ after) checked.1
      (stands.within fun _ => .item) head (.append tail continues) visible
    have stands' : plan.grammar.Stands id (.group ((front ++ [item]) ++ items)) after := by
      simpa using stands
    have further := takes_runAll h hinvoke items (front ++ [item]) after checked.2 stands' tail
      continues first.passes.visible
    rw [first.ends]
    exact ⟨further.ends, first.passes.trans further.passes⟩

theorem takes_runNth (h : Predicting plan) (hinvoke : Taking plan invoke depth) {inData : Bool}
    {item : Element} :
    ∀ (items : List Element) (i : Nat) (after : List Element),
      Element.listFault? plan.grammar.rules plan.grammar.types inData items = none →
      items[i]? = some item → plan.grammar.Stands id item after →
      Takes plan depth id item after (runNth plan invoke items i)
  | [], _, _, _, at_i, _ => by cases at_i
  | first :: _, 0, after, checked, at_i, stands => by
    intro w rest s derived continues visible
    rw [Element.listFault?, Option.or_eq_none_iff] at checked
    obtain rfl : first = item := by simpa using at_i
    rw [runNth]
    exact takes_run h hinvoke first after checked.1 stands derived continues visible
  | _ :: others, i + 1, after, checked, at_i, stands => by
    intro w rest s derived continues visible
    rw [Element.listFault?, Option.or_eq_none_iff] at checked
    rw [runNth]
    exact takes_runNth h hinvoke others i after checked.2 (by simpa using at_i) stands derived continues
      visible

theorem takes_runAssigned (h : Predicting plan) (hinvoke : Taking plan invoke depth)
    (feature : String) (op : AssignOp) :
    ∀ (e : Element) (after : List Element),
      e.assignedFault? plan.grammar.rules plan.grammar.types = none →
      plan.grammar.Stands id e after →
      Takes plan depth id e after (runAssigned plan invoke feature op e)
  | .keyword text, after, _, _ => by
    intro w rest s derived _ visible
    have taken := passes_keyword derived visible (some feature)
    rw [runAssigned]
    refine ⟨rfl, ?_⟩
    dsimp only
    split
    · exact taken.then_silent (.assign _ _ _ _)
    · exact taken
  | .call callee, after, checked, stands => by
    intro w rest s derived continues visible
    rw [Element.assignedFault?] at checked
    rw [runAssigned]
    exact ⟨rfl, passes_call hinvoke stands rfl checked derived visible continues _⟩
  | .crossRef target callee, after, checked, stands => by
    intro w rest s derived continues visible
    rw [Element.assignedFault?, Option.or_eq_none_iff, Option.or_eq_none_iff] at checked
    rw [runAssigned]
    exact ⟨rfl, passes_crossReference hinvoke stands rfl checked.2.1 derived visible continues feature
      op target⟩
  | .alternatives items, after, checked, stands => by
    intro w rest s derived continues visible
    rw [Element.assignedFault?] at checked
    rw [runAssigned]
    split at checked
    · cases checked
    · obtain ⟨item, mem, inside⟩ := derives_alternatives.1 derived
      have decides := h.predictive.alternatives id items after stands
      obtain ⟨i, chosen, at_i⟩ := choose_of_derives h decides mem inside visible fun _ => continues
      rw [chosen]
      have stands' := stands.within fun _ around => .alternative around mem
      exact takes_runAssignedNth h hinvoke feature op items i after checked at_i stands' inside
        continues visible
  | .assign .., after, checked, _ => by simp [Element.assignedFault?] at checked
  | .action .., after, checked, _ => by simp [Element.assignedFault?] at checked
  | .group _, after, checked, _ => by simp [Element.assignedFault?] at checked
  | .repetition .., after, checked, _ => by simp [Element.assignedFault?] at checked

theorem takes_runAssignedNth (h : Predicting plan) (hinvoke : Taking plan invoke depth)
    (feature : String) (op : AssignOp) {item : Element} :
    ∀ (items : List Element) (i : Nat) (after : List Element),
      Element.assignedListFault? plan.grammar.rules plan.grammar.types items = none →
      items[i]? = some item → plan.grammar.Stands id item after →
      Takes plan depth id item after (runAssignedNth plan invoke feature op items i)
  | [], _, _, _, at_i, _ => by cases at_i
  | first :: _, 0, after, checked, at_i, stands => by
    intro w rest s derived continues visible
    rw [Element.assignedListFault?, Option.or_eq_none_iff] at checked
    obtain rfl : first = item := by simpa using at_i
    rw [runAssignedNth]
    exact takes_runAssigned h hinvoke feature op first after checked.1 stands derived continues visible
  | _ :: others, i + 1, after, checked, at_i, stands => by
    intro w rest s derived continues visible
    rw [Element.assignedListFault?, Option.or_eq_none_iff] at checked
    rw [runAssignedNth]
    exact takes_runAssignedNth h hinvoke feature op others i after checked.2 (by simpa using at_i)
      stands derived continues visible

end

/-! ### Rules and documents -/

theorem passes_runReported (h : Predicting plan) (hinvoke : Taking plan invoke depth) {body : Element}
    (reachable : plan.grammar.Reachable id) (known : plan.grammar.body? id = some body)
    (derived : plan.grammar.Derives depth body w)
    (continues : Continues (plan.grammar.Follows id) rest) (visible : s.stream.visible = w ++ rest) :
    Passes s rest (runReported plan invoke body s) := by
  obtain ⟨inData, checked⟩ := checked_of_body? known
  have ran := takes_run h hinvoke body [] checked (.body reachable known) derived
    (continues.mono fun x follows => follows.at_end) visible
  unfold runReported
  dsimp only
  rw [ran.ends]
  exact ran.passes

theorem taking_invoke (h : Predicting plan) (depth : Nat) :
    Taking plan (Interpreter.invoke plan depth) depth := by
  induction depth with
  | zero =>
    -- without an invocation no rule derives anything
    intro e body id w rest calls known _ derived
    rcases derived.of_callee? calls with ⟨t, terminal, -⟩ | ⟨_, _, -, absurd, -⟩
    · rw [Lookahead.terminal?_of_body? known] at terminal
      cases terminal
    · cases absurd
  | succ depth ih =>
    intro e body id w rest calls known reachable derived continues feature s visible
    rcases derived.of_callee? calls with ⟨t, terminal, -⟩ | ⟨body', less, known', same, inside⟩
    · rw [Lookahead.terminal?_of_body? known] at terminal
      cases terminal
    · obtain rfl : depth = less := by omega
      obtain ⟨rule, found, -, rfl⟩ := rule_of_body? known'
      have ran := passes_runReported h ih (s := { s with frame := Frame.enter id rule.kind })
        reachable known' inside continues visible
      rw [Interpreter.invoke, found]
      dsimp only
      obtain ⟨finished, -⟩ := leave_spec plan id rule.kind feature (s.nextOffset plan) s.frame
        (runReported plan (Interpreter.invoke plan depth) rule.body
          { s with frame := Frame.enter id rule.kind })
      exact ⟨by rw [finished.stream]; exact ran.visible, finished.errors.trans ran.errors⟩

end Interpreter

namespace Parser

open Interpreter Grammar

theorem predicting_planFor (p : Parser) (lexed : LexResult)
    (apart : ∀ rule ∈ p.grammar.rules, rule.kind.terminal? ≠ some .keyword)
    (predictive : p.grammar.Predictive) : Predicting (p.planFor lexed) := by
  refine ⟨p.lookahead_eq, fun id terminal => ?_, predictive⟩
  obtain ⟨rule, known, kind⟩ := Option.bind_eq_some_iff.1 terminal
  exact apart rule (Array.mem_of_getElem? known) kind

/-- **Every sentence of a predictive grammar is accepted.** If no terminal rule matches keywords, one
symbol always tells how to go on, and the visible tokens are in the language of the body of the entry
rule, by a derivation that stays within the limits, then a parse reports no error. -/
theorem parse_of_derives (p : Parser) (lexed : LexResult) (depth : Nat)
    (apart : ∀ rule ∈ p.grammar.rules, rule.kind.terminal? ≠ some .keyword)
    (predictive : p.grammar.Predictive)
    (derived : p.grammar.Derives depth p.grammar.entryRule.body (lexed.tokens.filter Token.isVisible))
    (nesting : depth + 1 ≤ p.limits.maxRuleDepth)
    (size : visibleCount lexed.tokens ≤ p.limits.maxTokens) : (p.parse lexed).parseErrors = [] := by
  have predicting := p.predicting_planFor lexed apart predictive
  have all : (p.opened lexed).stream.visible = lexed.tokens.filter Token.isVisible := by
    rw [opened, cutAfter_of_le size]
    rfl
  have noErrors : (p.opened lexed).errors = #[] := by
    rw [opened, cutAfter_of_le size]
    rfl
  have derived' := derived.mono (Nat.le_sub_one_of_lt nesting)
  have ran : Passes (p.opened lexed) [] (runReported (p.planFor lexed)
      (Interpreter.invoke (p.planFor lexed) (p.limits.maxRuleDepth - 1))
      (p.planFor lexed).grammar.entryRule.body (p.opened lexed)) :=
    passes_runReported predicting (taking_invoke predicting _) .entry
      p.grammar.body?_entry derived' (fun t mem => by cases mem) (by rw [all, List.append_nil])
  have nothingLeft := TokenStream.count_eq_zero_iff.2 ran.visible
  have ended : (p.ended lexed).errors = #[] := by
    rw [ended, runEntry]
    dsimp only
    rw [if_pos nothingLeft]
    exact ran.errors.trans noErrors
  rw [parse_eq]
  dsimp only
  rw [errors_finish, ended]

/-- A class with one property is derived through five nested invocations. -/
theorem derives_smallClass :
    DomainModel.grammar.Derives 5 DomainModel.grammar.entryRule.body
      (smallClass.tokens.filter Token.isVisible) := by
  have tokens : smallClass.tokens.filter Token.isVisible =
      [⟨.keyword, "class", 0⟩, ⟨.identifier, "A", 6⟩, ⟨.keyword, "\x7b", 8⟩, ⟨.keyword, "many", 10⟩,
        ⟨.identifier, "b", 25⟩, ⟨.keyword, ":", 27⟩, ⟨.identifier, "C", 29⟩, ⟨.keyword, ".", 30⟩,
        ⟨.identifier, "D", 31⟩, ⟨.keyword, "\x7d", 33⟩] := by decide +kernel
  have type : DomainModel.grammar.Derives 1
      (.crossRef DomainModel.typeType DomainModel.qualifiedNameRule)
      [⟨.identifier, "C", 29⟩, ⟨.keyword, ".", 30⟩, ⟨.identifier, "D", 31⟩] :=
    .rule rfl rfl (.cons (v := [_]) (.token rfl rfl) (.cons (v := [_, _])
      (.again (v := [_, _]) (.cons (v := [_]) (.keyword rfl) (.cons (v := [_]) (.token rfl rfl) .nil))
        .done) .nil))
  have member : DomainModel.grammar.Derives 2 (.call DomainModel.propertyRule)
      [⟨.keyword, "many", 10⟩, ⟨.identifier, "b", 25⟩, ⟨.keyword, ":", 27⟩, ⟨.identifier, "C", 29⟩,
        ⟨.keyword, ".", 30⟩, ⟨.identifier, "D", 31⟩] :=
    .rule rfl rfl (.cons (v := [_]) (.present (.assign (.keyword rfl)))
      (.cons (v := [_]) (.assign (.token rfl rfl)) (.cons (v := [_]) (.keyword rfl)
        (.cons (v := [_, _, _]) (.assign type) (.cons (v := []) .absent .nil)))))
  have declared : DomainModel.grammar.Derives 3 (.call DomainModel.classRule)
      (smallClass.tokens.filter Token.isVisible) := by
    rw [tokens]
    exact .rule rfl rfl (.cons (v := [_]) (.keyword rfl) (.cons (v := [_]) (.assign (.token rfl rfl))
      (.cons (v := []) .absent (.cons (v := [_]) (.keyword rfl)
        (.cons (v := [_, _, _, _, _, _]) (.again (v := [_, _, _, _, _, _]) (.assign member) .done)
          (.cons (v := [_]) (.keyword rfl) .nil))))))
  have element : DomainModel.grammar.Derives 5 (.call DomainModel.elementRule)
      (smallClass.tokens.filter Token.isVisible) :=
    .rule rfl rfl (.alternative (.tail _ (.head _))
      (.rule rfl rfl (.alternative (.tail _ (.head _)) declared)))
  rw [← List.append_nil (smallClass.tokens.filter _)]
  exact .again (.assign element) .done

theorem parse_smallClass :
    DomainModel.grammar.Derives 5 DomainModel.grammar.entryRule.body
      (smallClass.tokens.filter Token.isVisible) ∧
    ((DomainModel.parser {}).parse smallClass).parseErrors = [] :=
  ⟨derives_smallClass, parse_of_derives (DomainModel.parser {}) smallClass 5 (by decide +kernel)
    DomainModel.grammar_predictive derives_smallClass (by decide) (by decide +kernel)⟩

end Parser

end Workbench
