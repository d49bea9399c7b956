import Workbench.Proofs.Grammar.Ranks
import Workbench.Proofs.Parser.Ahead
import Workbench.Proofs.Parser.Limits
import Workbench.Proofs.Parser.Lossless
import Workbench.Proofs.Parser.Sentences

/-!
**How deep rules are nested.**

While no token is taken, a parser calls one rule inside another for two reasons only. Either the call is
needed: the parser makes it although nothing that the rule starts with is there. Needed calls do not go
around in a circle if every rule derives some sequence. Or the element that makes the call is *apt*: it
goes on with the next token or can match nothing. An apt element makes its calls in leftmost position to
apt bodies, or takes a token first, and in a grammar without left recursion leftmost calls do not go around
in a circle. So between two tokens there are at most as many needed calls as there are rules and then at
most as many leftmost calls, and no input, however broken, leads deeper than twice the number of rules for
each token and twice more.

An invocation *fits* if it does not meet the limit on the depth. To say that the stack of rules never grows
past the bound, an invocation is compared with one that may nest deeper: if it fits, both do the same.
-/

namespace Workbench

namespace Interpreter

open State Grammar

variable {plan : Plan} {s t : State} {e inner item body : Element} {items rest : List Element}
  {id : RuleId} {w v : List Token}

/-! ### Calls that may be made -/

/-- The plan under other limits. -/
def under (plan : Plan) (limits : Limits) : Plan := { plan with limits }

/-- With the tokens `w` ahead the invocation does not meet the limit, and one that may nest deeper does the
same. It takes a token if the body of the rule goes on with the next one. -/
structure Fits (plan : Plan) (invoke deeper : Invocation) (id : RuleId) (w : List Token) : Prop where
  same : ∀ s feature, s.stream.visible = w → deeper id feature s = invoke id feature s
  within : ∀ s feature, s.stream.visible = w → Within s (invoke id feature s).state
  takes : ∀ s feature body, s.stream.visible = w → plan.grammar.body? id = some body →
    Ahead plan body w → (invoke id feature s).state.stream.count < s.stream.count

/-- Every invocation fits that a run of the element can come to with the tokens `w` ahead. Once a token is
taken any rule may be called. Before that, an apt element calls apt bodies in leftmost position, and another
one calls apt bodies or rules that it needs. -/
structure Provided (plan : Plan) (invoke deeper : Invocation) (e : Element) (w : List Token) : Prop where
  later : ∀ id body v, plan.grammar.body? id = some body → v.length < w.length →
    Fits plan invoke deeper id v
  now :
    (Apt plan e w ∧ ∀ id body, plan.grammar.body? id = some body → plan.grammar.CallsFirst e id →
      Apt plan body w → Fits plan invoke deeper id w) ∨
    ∀ id body, plan.grammar.body? id = some body → Apt plan body w ∨ plan.grammar.Needs e id →
      Fits plan invoke deeper id w

variable {invoke deeper : Invocation}

namespace Provided

theorem less (h : Provided plan invoke deeper e w) (shorter : v.length < w.length) :
    Provided plan invoke deeper inner v where
  later id body u known less := h.later id body u known (less.trans shorter)
  now := .inr fun id body known _ => h.later id body v known shorter

/-- What an element leads to if it is apt. -/
theorem apt (h : Provided plan invoke deeper e w) (isApt : Apt plan inner w)
    (first : ∀ id, plan.grammar.CallsFirst inner id → plan.grammar.CallsFirst e id) :
    Provided plan invoke deeper inner w where
  later := h.later
  now := by
    refine .inl ⟨isApt, fun id body known calls aptBody => ?_⟩
    rcases h.now with ⟨-, fits⟩ | fits
    · exact fits id body known (first id calls) aptBody
    · exact fits id body known (.inl aptBody)

/-- What an element comes to whatever the input is. -/
theorem needed (h : Provided plan invoke deeper e w) (isApt : Apt plan e w → Apt plan inner w)
    (first : Apt plan e w → ∀ id, plan.grammar.CallsFirst inner id → plan.grammar.CallsFirst e id)
    (needs : ∀ id, plan.grammar.Needs inner id → plan.grammar.Needs e id) :
    Provided plan invoke deeper inner w := by
  rcases h.now with ⟨aptHere, -⟩ | fits
  · exact h.apt (isApt aptHere) (first aptHere)
  · refine ⟨h.later, .inr fun id body known either => ?_⟩
    exact fits id body known (either.imp_right (needs id))

theorem fits (exact : plan.lookahead = Lookahead.of plan.grammar) (h : Provided plan invoke deeper e w)
    (calls : e.callee? = some id) (known : plan.grammar.body? id = some body) :
    Fits plan invoke deeper id w := by
  have nonterminal := Lookahead.terminal?_of_body? known
  rcases h.now with ⟨isApt, fits⟩ | fits
  · exact fits id body known (.call calls nonterminal) (isApt.of_call exact calls known)
  · exact fits id body known (.inr (.call calls nonterminal))

end Provided

/-! ### Runs that meet no limit -/

/-- A run of an element has not met the limit, and did the same as one that may nest deeper. It has taken a
token if the element goes on with the next one, or if the element was apt and got stuck. -/
structure Settles (plan : Plan) (e : Element) (s : State) (out deep : Outcome) : Prop where
  same : deep = out
  within : Within s out.state
  takes : Ahead plan e s.stream.visible → out.state.stream.count < s.stream.count
  ends : out.stuck.isSome = true → Apt plan e s.stream.visible →
    out.state.stream.count < s.stream.count

/-- A run either takes nothing or takes a token. -/
theorem Reaches.stays_or_takes (h : Reaches plan s t) :
    t.stream.visible = s.stream.visible ∨ t.stream.count < s.stream.count := by
  rw [TokenStream.count_eq_length, TokenStream.count_eq_length]
  rcases Nat.lt_or_ge t.stream.visible.length s.stream.visible.length with less | ge
  · exact .inr less
  · exact .inl (h.onward.visible.eq_of_length (le_antisymm h.onward.visible.length_le ge))

/-- From `s` to `t` the limit has not been met, and a token has been taken if the element goes on with the
next one. -/
structure Proceeds (plan : Plan) (e : Element) (s t : State) : Prop where
  within : Within s t
  takes : Ahead plan e s.stream.visible → t.stream.count < s.stream.count

theorem Proceeds.then_silent {u : State} (h : Proceeds plan e s t) (silent : Silent t u)
    (within : Within t u) : Proceeds plan e s u where
  within := h.within.trans within
  takes ahead := by
    rw [silent.stream]
    exact h.takes ahead

theorem Proceeds.settles (h : Proceeds plan e s t) : Settles plan e s { state := t } { state := t } where
  same := rfl
  within := h.within
  takes := h.takes
  ends stuck := by cases stuck

namespace Settles

variable {out deep : Outcome}

/-- An element that is not apt may do nothing. -/
theorem nothing (notAhead : ¬ Ahead plan e s.stream.visible) :
    Settles plan e s { state := s } { state := s } :=
  Proceeds.settles ⟨.refl s, fun ahead => absurd ahead notAhead⟩

/-- What the deeper invocation did the same does not matter any more. -/
theorem both (h : Settles plan e s out deep) : Settles plan e s out out := { h with same := rfl }

/-- Once a token is taken, all that counts is what comes after it. -/
theorem later (h : Settles plan inner t out deep) (within : Within s t)
    (less : t.stream.count < s.stream.count) (reached : Reaches plan t out.state) :
    Settles plan e s out deep where
  same := h.same
  within := within.trans h.within
  takes _ := lt_of_le_of_lt reached.count_le less
  ends _ _ := lt_of_le_of_lt reached.count_le less

theorem mono (h : Settles plan inner s out deep)
    (ahead : Ahead plan e s.stream.visible → Ahead plan inner s.stream.visible)
    (apt : Apt plan e s.stream.visible → Apt plan inner s.stream.visible) :
    Settles plan e s out deep where
  same := h.same
  within := h.within
  takes isAhead := h.takes (ahead isAhead)
  ends stuck isApt := h.ends stuck (apt isApt)

end Settles

/-! ### Tokens and calls -/

theorem count_expect_lt (plan : Plan) {accepts : Token → Bool} (problem : ParseProblem)
    (feature : Option String) (accepted : s.stream.visible.head?.any accepts = true) :
    (s.expect plan accepts problem feature).1.stream.count < s.stream.count := by
  have left : s.stream.count ≠ 0 := by
    intro none
    rw [TokenStream.count_eq_zero_iff.1 none] at accepted
    cases accepted
  unfold State.expect
  rw [TokenStream.peek?_eq_head?, if_pos accepted, count_consume]
  exact Nat.sub_lt (Nat.pos_of_ne_zero left) Nat.one_pos

theorem count_expectKeyword_lt {text : String} (feature : Option String)
    (ahead : Ahead plan (.keyword text) s.stream.visible) :
    (s.expectKeyword plan text feature).1.stream.count < s.stream.count :=
  count_expect_lt plan _ feature (ahead_keyword_iff.1 ahead)

theorem count_expectKind_lt (exact : plan.lookahead = Lookahead.of plan.grammar) {rule : Rule}
    {token : TokenKind} {value : ValueKind} (calls : e.callee? = some id)
    (known : plan.grammar.rules[id]? = some rule) (kind : rule.kind = .terminal token value)
    (feature : Option String) (ahead : Ahead plan e s.stream.visible) :
    (s.expectKind plan token rule.name feature).1.stream.count < s.stream.count := by
  have terminal : plan.grammar.terminal? id = some token := by
    simp [Grammar.terminal?, known, kind, RuleKind.terminal?]
  exact count_expect_lt plan _ feature (ahead.of_terminal exact calls terminal)

theorem settles_call (exact : plan.lookahead = Lookahead.of plan.grammar) (limits : Limits)
    (calls : e.callee? = some id) (checked : Element.callFault plan.grammar.rules id = none)
    (provided : Provided plan invoke deeper e s.stream.visible) (target : Option (String × AssignOp)) :
    Settles plan e s { state := call plan invoke id target s }
      { state := call (under plan limits) deeper id target s } := by
  obtain ⟨rule, known⟩ := exists_rule checked
  have known' : (under plan limits).grammar.rules[id]? = some rule := known
  unfold call
  rw [known, known']
  dsimp only
  split
  · next token value kind =>
    have taken : Proceeds plan e s (s.expectKind plan token rule.name (target.map (·.1))).1 :=
      ⟨.expect plan s _ _ _, count_expectKind_lt exact calls known kind _⟩
    refine Proceeds.settles ?_
    split
    · exact taken
    · exact taken.then_silent (.assign _ _ _ _) (.assign _ _ _ _)
    · exact taken.then_silent (.collect _ _) (.collect _ _)
  · next notTerminal =>
    have body := body?_of_rule known (RuleKind.terminal?_eq_none notTerminal)
    have fits := provided.fits exact calls body
    have inside : ∀ trees, Proceeds plan e s ((invoke id (target.map (·.1)) s).state.attach trees) :=
      fun trees => ⟨fits.within s _ rfl, fun ahead =>
        fits.takes s _ rule.body rfl body (ahead.of_call exact calls body)⟩
    rw [fits.same s _ rfl]
    refine Proceeds.settles ?_
    split
    · exact inside _
    · exact (inside _).then_silent (.assign _ _ _ _) (.assign _ _ _ _)
    · exact (inside _).then_silent (.assign _ _ _ _) (.assign _ _ _ _)
    · exact (inside _).then_silent (.adopt _ _) (.adopt _ _)
    · exact (inside _).then_silent (.collect _ _) (.collect _ _)

theorem settles_crossReference (exact : plan.lookahead = Lookahead.of plan.grammar) (limits : Limits)
    (calls : e.callee? = some id) (checked : Element.callFault plan.grammar.rules id = none)
    (provided : Provided plan invoke deeper e s.stream.visible) (feature : String) (op : AssignOp)
    (target : TypeId) :
    Settles plan e s { state := crossReference plan invoke feature op target id s }
      { state := crossReference (under plan limits) deeper feature op target id s } := by
  obtain ⟨rule, known⟩ := exists_rule checked
  have known' : (under plan limits).grammar.rules[id]? = some rule := known
  unfold crossReference
  rw [known, known']
  dsimp only
  split
  · next token value kind =>
    have taken : Proceeds plan e s (s.expectKind plan token rule.name (some feature)).1 :=
      ⟨.expect plan s _ _ _, count_expectKind_lt exact calls known kind _⟩
    refine Proceeds.settles ?_
    split
    · exact taken
    · exact taken.then_silent (.makeReference _ _ _ _ _ _) (.makeReference _ _ _ _ _ _)
  · next notTerminal =>
    have body := body?_of_rule known (RuleKind.terminal?_eq_none notTerminal)
    have fits := provided.fits exact calls body
    have inside : ∀ trees, Proceeds plan e s ((invoke id (some feature) s).state.attach trees) :=
      fun trees => ⟨fits.within s _ rfl, fun ahead =>
        fits.takes s _ rule.body rfl body (ahead.of_call exact calls body)⟩
    rw [fits.same s _ rfl]
    refine Proceeds.settles ?_
    split
    · exact (inside _).then_silent (.makeReference _ _ _ _ _ _) (.makeReference _ _ _ _ _ _)
    · exact (inside _).then_silent (.note _ _) (.note _ (by decide))
    · exact inside _

/-! ### Repetitions -/

section Repetitions

variable {run deep : State → Outcome}

/-- As long as each turn goes on with the next token, it takes it. -/
theorem settles_turns (reaches : ∀ s, Reaches plan s (run s).state) (limits : Limits) (fuel : Nat)
    (enough : s.stream.count ≤ fuel)
    (turn : ∀ t : State, t.stream.visible = s.stream.visible ∨ t.stream.count < s.stream.count →
      Ahead plan item t.stream.visible → Settles plan item t (run t) (deep t)) :
    Settles plan (.repetition .zeroOrMore item) s (turns plan (ready plan item) run fuel s)
      (turns (under plan limits) (ready plan item) deep fuel s) := by
  induction fuel generalizing s with
  | zero =>
    have empty := TokenStream.count_eq_zero_iff.1 (Nat.le_zero.1 enough)
    exact .nothing (by rw [empty]; exact not_ahead_nil)
  | succ fuel ih =>
    rw [turns, turns]
    by_cases isReady : ready plan item s = true
    · have ahead := ready_iff_ahead.1 isReady
      have first := turn s (.inl rfl) ahead
      have less := first.takes ahead
      have within := first.within
      rw [if_pos isReady, if_pos isReady, first.same]
      generalize run s = out at first less within
      -- the turns that follow have fewer tokens ahead
      have further : ∀ t : State, t.stream = out.state.stream →
          Settles plan (.repetition .zeroOrMore item) t (turns plan (ready plan item) run fuel t)
            (turns (under plan limits) (ready plan item) deep fuel t) := by
        intro t same
        have fewer : t.stream.count < s.stream.count := by rw [same]; exact less
        refine ih (by omega) fun u either isAhead => turn u (.inr ?_) isAhead
        rcases either with visible | fewer'
        · rwa [TokenStream.count_eq_length, visible, ← TokenStream.count_eq_length]
        · exact fewer'.trans fewer
      dsimp only
      split
      · next expected _ =>
        rw [if_pos (decide_eq_true less), if_pos (decide_eq_true less)]
        have reported : (out.state.report plan expected).stream = out.state.stream :=
          stream_raise (.noAlternative expected)
        refine (further _ reported).later (within.trans (.report plan _ expected)) ?_
          (reaches_turns reaches fuel _)
        rw [reported]
        exact less
      · rw [if_pos (decide_eq_true less), if_pos (decide_eq_true less)]
        exact (further _ rfl).later within less (reaches_turns reaches fuel _)
    · rw [if_neg isReady, if_neg isReady]
      exact .nothing fun ahead => isReady (ready_iff_ahead.2 (ahead_repetition.1 ahead))

theorem settles_repeated (reaches : ∀ s, Reaches plan s (run s).state) (limits : Limits)
    (settles : ∀ t : State, Provided plan invoke deeper item t.stream.visible →
      Settles plan item t (run t) (deep t))
    {cardinality : Cardinality}
    (provided : Provided plan invoke deeper (.repetition cardinality item) s.stream.visible) :
    Settles plan (.repetition cardinality item) s (repeated plan cardinality (ready plan item) run s)
      (repeated (under plan limits) cardinality (ready plan item) deep s) := by
  have turn : ∀ t : State, t.stream.visible = s.stream.visible ∨ t.stream.count < s.stream.count →
      Ahead plan item t.stream.visible → Settles plan item t (run t) (deep t) := by
    intro t either ahead
    refine settles t ?_
    rcases either with visible | less
    · rw [visible] at ahead ⊢
      exact provided.apt (.inl ahead) fun _ => .repetition
    · rw [TokenStream.count_eq_length, TokenStream.count_eq_length] at less
      exact provided.less less
  cases cardinality with
  | optional =>
    unfold repeated
    dsimp only
    split
    · next isReady =>
      have ahead := ready_iff_ahead.1 isReady
      exact (turn s (.inl rfl) ahead).mono ahead_repetition.1 fun _ => .inl ahead
    · next notReady =>
      exact .nothing fun ahead => notReady (ready_iff_ahead.2 (ahead_repetition.1 ahead))
  | zeroOrMore => exact settles_turns reaches limits _ le_rfl turn
  | oneOrMore =>
    have isApt : Apt plan (.repetition .oneOrMore item) s.stream.visible →
        Apt plan item s.stream.visible := Or.imp ahead_repetition.1 id
    have first := (settles s (provided.needed isApt (fun _ _ => .repetition) fun _ => .turn)).mono
      ahead_repetition.1 isApt
    unfold repeated
    dsimp only
    rw [first.same]
    split
    · exact first.both
    · split
      · next less =>
        refine Settles.later (settles_turns reaches limits _ le_rfl fun t either => turn t (.inr ?_))
          first.within less (reaches_turns reaches _ _)
        rcases either with visible | fewer
        · rwa [TokenStream.count_eq_length, visible, ← TokenStream.count_eq_length]
        · exact fewer.trans less
      · exact first.both

end Repetitions

/-! ### Elements -/

theorem settles_none (chosen : choose plan items s = none) (expected : FirstSet) :
    Settles plan (.alternatives items) s { state := s, stuck := some expected }
      { state := s, stuck := some expected } where
  same := rfl
  within := .refl s
  takes ahead := absurd (.inl ahead) (not_apt_of_choose chosen)
  ends _ apt := absurd apt (not_apt_of_choose chosen)

/-- A run of a group goes on with the rest of it when its first item is through. -/
theorem settles_cons {first further deepFurther : Outcome}
    (first_settles : Settles plan item s first first)
    (provided : Provided plan invoke deeper (.group (item :: rest)) s.stream.visible)
    (exact : plan.lookahead = Lookahead.of plan.grammar)
    (reached : Reaches plan s first.state) (reached' : Reaches plan first.state further.state)
    (settles : Provided plan invoke deeper (.group rest) first.state.stream.visible →
      Settles plan (.group rest) first.state further deepFurther) :
    Settles plan (.group (item :: rest)) s further deepFurther := by
  rcases reached.stays_or_takes with visible | less
  · -- an item that has taken nothing does not go on with the next token, so it can match nothing
    have notAhead : ¬ Ahead plan item s.stream.visible := by
      intro ahead
      have less := first_settles.takes ahead
      rw [TokenStream.count_eq_length, TokenStream.count_eq_length, visible] at less
      exact Nat.lt_irrefl _ less
    have same : first.state.stream.count = s.stream.count := by
      rw [TokenStream.count_eq_length, visible, ← TokenStream.count_eq_length]
    have aheadRest : Ahead plan (.group (item :: rest)) s.stream.visible →
        plan.lookahead.nullable item = true ∧ Ahead plan (.group rest) s.stream.visible := fun ahead =>
      (ahead_group_iff.1 ahead).resolve_left notAhead
    have aptRest : Apt plan (.group (item :: rest)) s.stream.visible →
        plan.lookahead.nullable item = true ∧ Apt plan (.group rest) s.stream.visible := by
      rintro (ahead | empty)
      · exact ⟨(aheadRest ahead).1, .inl (aheadRest ahead).2⟩
      · obtain ⟨emptyItem, emptyRest⟩ := Bool.and_eq_true_iff.1 empty
        exact ⟨emptyItem, .inr emptyRest⟩
    have needs : ∀ id, plan.grammar.Needs (.group rest) id →
        plan.grammar.Needs (.group (item :: rest)) id := by
      intro id needs
      cases needs with
      | call calls => cases calls
      | item mem inside => exact .item (List.mem_cons_of_mem _ mem) inside
    have next := settles <| by
      rw [visible]
      refine provided.needed (fun apt => (aptRest apt).2) (fun apt id calls => .tail ?_ calls) needs
      rw [← Lookahead.nullable_iff, ← exact]
      exact (aptRest apt).1
    refine ⟨next.same, first_settles.within.trans next.within, fun ahead => ?_, fun stuck apt => ?_⟩
    · rw [← same]
      exact next.takes (by rw [visible]; exact (aheadRest ahead).2)
    · rw [← same]
      exact next.ends stuck (by rw [visible]; exact (aptRest apt).2)
  · have fewer := less
    rw [TokenStream.count_eq_length, TokenStream.count_eq_length] at fewer
    exact (settles (provided.less fewer)).later first_settles.within less reached'

mutual

theorem settles_run (exact : plan.lookahead = Lookahead.of plan.grammar) (hinvoke : Proper plan invoke)
    (limits : Limits) {inData : Bool} :
    ∀ (e : Element) (s : State), e.fault? plan.grammar.rules plan.grammar.types inData = none →
      Provided plan invoke deeper e s.stream.visible →
      Settles plan e s (run plan invoke e s) (run (under plan limits) deeper e s)
  | .keyword text, s, _, _ => by
    have taken : Proceeds plan (.keyword text) s (s.expectKeyword plan text none).1 :=
      ⟨.expect plan s _ _ _, count_expectKeyword_lt none⟩
    rw [run, run]
    refine Proceeds.settles ?_
    split
    · exact taken.then_silent (.collect _ _) (.collect _ _)
    · exact taken
  | .call id, s, checked, provided => by
    rw [Element.fault?, Option.or_eq_none_iff] at checked
    rw [run, run]
    exact settles_call exact limits rfl checked.1 provided none
  | .assign feature op value, s, checked, provided => by
    rw [Element.fault?] at checked
    rw [run, run]
    split at checked
    · cases checked
    · have inner : Provided plan invoke deeper value _ :=
        provided.needed id (fun _ _ => .assign) fun _ => .assign
      exact (settles_runAssigned exact hinvoke limits feature op value s checked inner).mono id id
  | .crossRef _ _, s, checked, _ => by
    rw [Element.fault?] at checked
    cases checked
  | .action type none, s, _, _ => by
    rw [run, run]
    exact Proceeds.settles ⟨.retag s type, fun ahead => absurd ahead not_ahead_action⟩
  | .action type (some (feature, op)), s, _, _ => by
    rw [run, run]
    exact Proceeds.settles ⟨.wrap plan s type feature op, fun ahead => absurd ahead not_ahead_action⟩
  | .group items, s, checked, provided => by
    rw [Element.fault?] at checked
    rw [run, run]
    exact settles_runAll exact hinvoke limits items s checked provided
  | .alternatives items, s, checked, provided => by
    rw [Element.fault?] at checked
    rw [run, run]
    split at checked
    · cases checked
    · cases chosen : choose plan items s with
      | some i =>
        rw [show choose (under plan limits) items s = some i from chosen]
        obtain ⟨item, at_i, apt, ahead⟩ := apt_of_choose chosen
        have inner := provided.apt apt fun _ => .alternative (List.mem_of_getElem? at_i)
        exact (settles_runNth exact hinvoke limits items i s checked at_i inner).mono ahead fun _ => apt
      | none =>
        rw [show choose (under plan limits) items s = none from chosen]
        exact settles_none chosen _
  | .repetition cardinality item, s, checked, provided => by
    rw [Element.fault?] at checked
    rw [run, run]
    exact settles_repeated (reaches_run hinvoke item) limits
      (fun t inner => settles_run exact hinvoke limits item t checked inner) provided

theorem settles_runAll (exact : plan.lookahead = Lookahead.of plan.grammar) (hinvoke : Proper plan invoke)
    (limits : Limits) {inData : Bool} :
    ∀ (items : List Element) (s : State),
      Element.listFault? plan.grammar.rules plan.grammar.types inData items = none →
      Provided plan invoke deeper (.group items) s.stream.visible →
      Settles plan (.group items) s (runAll plan invoke items s)
        (runAll (under plan limits) deeper items s)
  | [], s, _, _ => by
    rw [runAll, runAll]
    exact .nothing not_ahead_empty_group
  | item :: rest, s, checked, provided => by
    rw [Element.listFault?, Option.or_eq_none_iff] at checked
    rw [runAll, runAll]
    have isApt : Apt plan (.group (item :: rest)) s.stream.visible →
        Apt plan item s.stream.visible := by
      rintro (ahead | empty)
      · exact (ahead_group_iff.1 ahead).imp id And.left
      · exact .inr (Bool.and_eq_true_iff.1 empty).1
    have first := settles_run exact hinvoke limits item s checked.1
      (provided.needed isApt (fun _ _ => .head) fun _ => .item List.mem_cons_self)
    have reached := reaches_run hinvoke item s
    rw [first.same]
    split
    · next stuck =>
      refine ⟨rfl, first.within, fun ahead => ?_, fun stuck apt => first.ends stuck (isApt apt)⟩
      exact first.ends stuck (isApt (.inl ahead))
    · exact settles_cons first.both provided exact reached (reaches_runAll hinvoke rest _)
        (settles_runAll exact hinvoke limits rest _ checked.2)

theorem settles_runNth (exact : plan.lookahead = Lookahead.of plan.grammar) (hinvoke : Proper plan invoke)
    (limits : Limits) {inData : Bool} {item : Element} :
    ∀ (items : List Element) (i : Nat) (s : State),
      Element.listFault? plan.grammar.rules plan.grammar.types inData items = none →
      items[i]? = some item → Provided plan invoke deeper item s.stream.visible →
      Settles plan item s (runNth plan invoke items i s) (runNth (under plan limits) deeper items i s)
  | [], _, _, _, at_i, _ => by cases at_i
  | first :: _, 0, s, checked, at_i, provided => by
    rw [Element.listFault?, Option.or_eq_none_iff] at checked
    obtain rfl : first = item := by simpa using at_i
    rw [runNth, runNth]
    exact settles_run exact hinvoke limits first s checked.1 provided
  | _ :: others, i + 1, s, checked, at_i, provided => by
    rw [Element.listFault?, Option.or_eq_none_iff] at checked
    rw [runNth, runNth]
    exact settles_runNth exact hinvoke limits others i s checked.2 (by simpa using at_i) provided

theorem settles_runAssigned (exact : plan.lookahead = Lookahead.of plan.grammar)
    (hinvoke : Proper plan invoke) (limits : Limits) (feature : String) (op : AssignOp) :
    ∀ (e : Element) (s : State), e.assignedFault? plan.grammar.rules plan.grammar.types = none →
      Provided plan invoke deeper e s.stream.visible →
      Settles plan e s (runAssigned plan invoke feature op e s)
        (runAssigned (under plan limits) deeper feature op e s)
  | .keyword text, s, _, _ => by
    have taken : Proceeds plan (.keyword text) s (s.expectKeyword plan text (some feature)).1 :=
      ⟨.expect plan s _ _ _, count_expectKeyword_lt _⟩
    rw [runAssigned, runAssigned]
    refine Proceeds.settles ?_
    split
    · exact taken.then_silent (.assign _ _ _ _) (.assign _ _ _ _)
    · exact taken
  | .call id, s, checked, provided => by
    rw [Element.assignedFault?] at checked
    rw [runAssigned, runAssigned]
    exact settles_call exact limits rfl checked provided _
  | .crossRef target id, s, checked, provided => by
    rw [Element.assignedFault?, Option.or_eq_none_iff, Option.or_eq_none_iff] at checked
    rw [runAssigned, runAssigned]
    exact settles_crossReference exact limits rfl checked.2.1 provided feature op target
  | .alternatives items, s, checked, provided => by
    rw [Element.assignedFault?] at checked
    rw [runAssigned, runAssigned]
    split at checked
    · cases checked
    · cases chosen : choose plan items s with
      | some i =>
        rw [show choose (under plan limits) items s = some i from chosen]
        obtain ⟨item, at_i, apt, ahead⟩ := apt_of_choose chosen
        have inner := provided.apt apt fun _ => .alternative (List.mem_of_getElem? at_i)
        exact (settles_runAssignedNth exact hinvoke limits feature op items i s checked at_i inner).mono
          ahead fun _ => apt
      | none =>
        rw [show choose (under plan limits) items s = none from chosen]
        exact settles_none chosen _
  | .assign .., _, checked, _ => by simp [Element.assignedFault?] at checked
  | .action .., _, checked, _ => by simp [Element.assignedFault?] at checked
  | .group _, _, checked, _ => by simp [Element.assignedFault?] at checked
  | .repetition .., _, checked, _ => by simp [Element.assignedFault?] at checked

theorem settles_runAssignedNth (exact : plan.lookahead = Lookahead.of plan.grammar)
    (hinvoke : Proper plan invoke) (limits : Limits) (feature : String) (op : AssignOp) {item : Element} :
    ∀ (items : List Element) (i : Nat) (s : State),
      Element.assignedListFault? plan.grammar.rules plan.grammar.types items = none →
      items[i]? = some item → Provided plan invoke deeper item s.stream.visible →
      Settles plan item s (runAssignedNth plan invoke feature op items i s)
        (runAssignedNth (under plan limits) deeper feature op items i s)
  | [], _, _, _, at_i, _ => by cases at_i
  | first :: _, 0, s, checked, at_i, provided => by
    rw [Element.assignedListFault?, Option.or_eq_none_iff] at checked
    obtain rfl : first = item := by simpa using at_i
    rw [runAssignedNth, runAssignedNth]
    exact settles_runAssigned exact hinvoke limits feature op first s checked.1 provided
  | _ :: others, i + 1, s, checked, at_i, provided => by
    rw [Element.assignedListFault?, Option.or_eq_none_iff] at checked
    rw [runAssignedNth, runAssignedNth]
    exact settles_runAssignedNth exact hinvoke limits feature op others i s checked.2
      (by simpa using at_i) provided

end

/-! ### Rules -/

theorem proceeds_runReported (exact : plan.lookahead = Lookahead.of plan.grammar)
    (hinvoke : Proper plan invoke) (limits : Limits) (known : plan.grammar.body? id = some body)
    (provided : Provided plan invoke deeper body s.stream.visible) :
    runReported (under plan limits) deeper body s = runReported plan invoke body s ∧
      Proceeds plan body s (runReported plan invoke body s) := by
  obtain ⟨inData, checked⟩ := checked_of_body? known
  have ran := settles_run exact hinvoke limits body s checked provided
  unfold runReported
  rw [ran.same]
  refine ⟨rfl, ?_⟩
  generalize run plan invoke body s = out at ran
  dsimp only
  split
  · next expected _ =>
    refine ⟨ran.within.trans (.report plan _ expected), fun ahead => ?_⟩
    rw [show (out.state.report plan expected).stream = out.state.stream from
      stream_raise (.noAlternative expected)]
    exact ran.takes ahead
  · exact ⟨ran.within, ran.takes⟩

/-- The depth is enough for the rule with the tokens `w` ahead. A rule that is called because it is needed
may go through all needed calls below it and then through all leftmost ones, an apt one only through the
leftmost calls below it. -/
def Enough (plan : Plan) (depth : Nat) (id : RuleId) (body : Element) (w : List Token) : Prop :=
  2 * plan.grammar.ruleCount * w.length + plan.grammar.ruleCount +
      plan.grammar.rank plan.grammar.NeedCall id ≤ depth ∨
    Apt plan body w ∧
      2 * plan.grammar.ruleCount * w.length + plan.grammar.rank plan.grammar.LeftCall id ≤ depth

/-- Neither needed calls nor leftmost calls go around in a circle. -/
structure Acyclic (g : Grammar) : Prop where
  need : ∀ id, ¬ Relation.TransGen g.NeedCall id id
  left : ∀ id, ¬ Relation.TransGen g.LeftCall id id

theorem not_enough_zero (known : plan.grammar.body? id = some body) : ¬ Enough plan 0 id body w := by
  rintro (enough | ⟨-, enough⟩)
  · have positive := plan.grammar.rank_pos plan.grammar.NeedCall known
    omega
  · have positive := plan.grammar.rank_pos plan.grammar.LeftCall known
    omega

/-- If the depth is enough for a rule, then one level less is enough for every call that it makes. -/
theorem provided_of_enough (acyclic : Acyclic plan.grammar) {depth : Nat}
    (fits : ∀ id body w, plan.grammar.body? id = some body → Enough plan depth id body w →
      Fits plan invoke deeper id w)
    (known : plan.grammar.body? id = some body) (enough : Enough plan (depth + 1) id body w) :
    Provided plan invoke deeper body w := by
  have needPos := plan.grammar.rank_pos plan.grammar.NeedCall known
  have leftPos := plan.grammar.rank_pos plan.grammar.LeftCall known
  have needLe := plan.grammar.rank_le plan.grammar.NeedCall
  have leftLe := plan.grammar.rank_le plan.grammar.LeftCall
  refine ⟨fun callee inner v known' less => fits callee inner v known' (.inl ?_), ?_⟩
  · -- every token taken makes room for two more rounds through all rules
    have room : 2 * plan.grammar.ruleCount * v.length + 2 * plan.grammar.ruleCount ≤
        2 * plan.grammar.ruleCount * w.length := by
      rw [← Nat.mul_succ]
      exact Nat.mul_le_mul_left _ less
    have calleeLe := needLe callee
    rcases enough with enough | ⟨-, enough⟩ <;> omega
  · rcases enough with enough | ⟨apt, enough⟩
    · refine .inr fun callee inner known' either => fits callee inner w known' ?_
      rcases either with apt | needs
      · have calleeLe := leftLe callee
        exact .inr ⟨apt, by omega⟩
      · have falls := rank_lt acyclic.need known ⟨body, known, needs⟩
        exact .inl (by omega)
    · refine .inl ⟨apt, fun callee inner known' calls aptInner => fits callee inner w known' ?_⟩
      have falls := rank_lt acyclic.left known ⟨body, known, calls⟩
      exact .inr ⟨aptInner, by omega⟩

theorem fits_invoke (exact : plan.lookahead = Lookahead.of plan.grammar) (acyclic : Acyclic plan.grammar)
    (limits : Limits) {depth more : Nat} (le : depth ≤ more) (known : plan.grammar.body? id = some body)
    (enough : Enough plan depth id body w) :
    Fits plan (Interpreter.invoke plan depth) (Interpreter.invoke (under plan limits) more) id w := by
  induction depth generalizing more id body w with
  | zero => exact absurd enough (not_enough_zero known)
  | succ depth ih =>
    obtain ⟨more, rfl⟩ : ∃ less, more = less + 1 := ⟨more - 1, by omega⟩
    obtain ⟨rule, found, nonterminal, rfl⟩ := rule_of_body? known
    have found' : (under plan limits).grammar.rules[id]? = some rule := found
    have provided := provided_of_enough acyclic
      (fun _ _ _ known enough => ih (Nat.le_of_succ_le_succ le) known enough) known enough
    -- the frame of the rule has the tokens of the caller ahead
    have inside : ∀ s : State, s.stream.visible = w →
        runReported (under plan limits) (Interpreter.invoke (under plan limits) more) rule.body
            { s with frame := Frame.enter id rule.kind } =
          runReported plan (Interpreter.invoke plan depth) rule.body
            { s with frame := Frame.enter id rule.kind } ∧
        Proceeds plan rule.body s (runReported plan (Interpreter.invoke plan depth) rule.body
          { s with frame := Frame.enter id rule.kind }) := by
      rintro s rfl
      obtain ⟨same, proceeds⟩ := proceeds_runReported exact (proper_invoke depth) limits known
        (s := { s with frame := Frame.enter id rule.kind }) provided
      exact ⟨same, proceeds.within, proceeds.takes⟩
    refine ⟨fun s feature visible => ?_, fun s feature visible => ?_,
      fun s feature body visible known' ahead => ?_⟩
    · rw [Interpreter.invoke, Interpreter.invoke, found, found']
      dsimp only
      rw [(inside s visible).1]
      rfl
    · rw [Interpreter.invoke, found]
      exact (inside s visible).2.within.trans (within_leave plan _ _ _ _ _ _)
    · obtain rfl : rule.body = body := Option.some.inj (known.symm.trans known')
      rw [Interpreter.invoke, found]
      obtain ⟨finished, -⟩ := leave_spec plan id rule.kind feature (s.nextOffset plan) s.frame
        (runReported plan (Interpreter.invoke plan depth) rule.body
          { s with frame := Frame.enter id rule.kind })
      dsimp only
      rw [finished.stream]
      exact (inside s visible).2.takes (visible ▸ ahead)

/-! ### Documents -/

theorem skip_under (limits : Limits) (fuel : Nat) (stalled : Bool) (s : State) :
    skip (under plan limits) fuel stalled s = skip plan fuel stalled s := by
  induction fuel generalizing stalled s with
  | zero => rfl
  | succ fuel ih =>
    rw [skip, skip, ih]
    rfl

theorem within_runEntry (exact : plan.lookahead = Lookahead.of plan.grammar)
    (hinvoke : Proper plan invoke) (limits : Limits) (fuel : Nat) {n : Nat}
    (provided : ∀ w : List Token, w.length ≤ n →
      Provided plan invoke deeper plan.grammar.entryRule.body w)
    (few : s.stream.count ≤ n) :
    runEntry (under plan limits) deeper fuel s = runEntry plan invoke fuel s ∧
      Within s (runEntry plan invoke fuel s) := by
  induction fuel generalizing s with
  | zero => exact ⟨rfl, .refl s⟩
  | succ fuel ih =>
    obtain ⟨same, proceeds⟩ := proceeds_runReported exact hinvoke limits plan.grammar.body?_entry
      (provided s.stream.visible (by rwa [← TokenStream.count_eq_length]))
    have reached := reaches_runReported hinvoke plan.grammar.entryRule.body s
    have same' : runReported (under plan limits) deeper (under plan limits).grammar.entryRule.body s =
        runReported plan invoke plan.grammar.entryRule.body s := same
    rw [runEntry, runEntry, same']
    generalize runReported plan invoke plan.grammar.entryRule.body s = ran at proceeds reached
    dsimp only
    split
    · exact ⟨rfl, proceeds.within⟩
    · rw [show ran.record (under plan limits) .trailingInput = ran.record plan .trailingInput from rfl,
        skip_under]
      have failed : Within s (ran.record plan .trailingInput) := proceeds.within.trans (.of_eq rfl)
      have further := reaches_skip plan (ran.record plan .trailingInput).stream.count
        (ran.stream.count == s.stream.count) (ran.record plan .trailingInput)
      have skipped := within_skip plan (ran.record plan .trailingInput).stream.count
        (ran.stream.count == s.stream.count) (ran.record plan .trailingInput)
      generalize skip plan _ _ (ran.record plan .trailingInput) = resumed at further skipped
      have fewer : resumed.stream.count ≤ n := (further.count_le.trans reached.count_le).trans few
      split
      · exact ⟨rfl, failed.trans skipped⟩
      · obtain ⟨again, within⟩ := ih (s := { resumed with recovering := false }) fewer
        exact ⟨again, (failed.trans skipped).trans within⟩

end Interpreter

namespace Parser

open Interpreter Grammar State

/-- The parser under another limit on the nesting. -/
def nestingAtMost (p : Parser) (depth : Nat) : Parser :=
  { p with limits := { p.limits with maxRuleDepth := depth } }

theorem not_leftCall_circle (p : Parser) (id : RuleId) :
    ¬ Relation.TransGen p.grammar.LeftCall id id := by
  intro circle
  obtain ⟨first, rule, known, recursive, earlier⟩ := exists_first circle
  have found := Lookahead.leftRecursive?_eq_some_iff.2 ⟨first, known, recursive, earlier⟩
  rw [← p.lookahead_eq, p.not_leftRecursive] at found
  cases found

theorem visibleCount_cutAfter_le (limit : Nat) (tokens : List Token) :
    visibleCount (cutAfter limit tokens).1 ≤ visibleCount tokens := by
  rcases Nat.lt_or_ge limit (visibleCount tokens) with beyond | within
  · obtain ⟨_, _, -, -, -, full⟩ := cutAfter_of_lt beyond
    rw [full]
    exact beyond.le
  · rw [cutAfter_of_le within]

/-- **Malformed input does not drive a grammar into deep recursion.** If every rule derives some sequence,
then a parser that may nest twice as many invocations as there are rules, for each visible token and once
more, never meets its limit, whatever the tokens are. Nor does the stack ever grow past this bound if it
may: the parser that must stay within the bound gives the same result. -/
theorem nesting_bounded (p : Parser) (lexed : LexResult) (productive : p.grammar.Productive)
    (enough : 2 * p.grammar.ruleCount * (visibleCount lexed.tokens + 1) ≤ p.limits.maxRuleDepth) :
    Incident.depthLimit ∉ (p.parse lexed).incidents ∧
      p.parse lexed =
        (p.nestingAtMost (2 * p.grammar.ruleCount * (visibleCount lexed.tokens + 1))).parse lexed := by
  set bound := 2 * p.grammar.ruleCount * (visibleCount lexed.tokens + 1) with bound_eq
  set q := p.nestingAtMost bound with q_eq
  have acyclic : Acyclic (q.planFor lexed).grammar := ⟨productive.acyclic, p.not_leftCall_circle⟩
  have known := p.grammar.body?_entry
  have few : (p.opened lexed).stream.count ≤ visibleCount lexed.tokens :=
    visibleCount_cutAfter_le _ _
  have provided : ∀ w : List Token, w.length ≤ visibleCount lexed.tokens →
      Provided (q.planFor lexed) (Interpreter.invoke (q.planFor lexed) (bound - 1))
        (Interpreter.invoke (under (q.planFor lexed) p.limits) (p.limits.maxRuleDepth - 1))
        p.grammar.entryRule.body w := by
    intro w short
    have positive := p.grammar.rank_pos p.grammar.NeedCall known
    have atMost := p.grammar.rank_le p.grammar.NeedCall p.grammar.entry
    have room := Nat.mul_le_mul_left (2 * p.grammar.ruleCount) short
    rw [Nat.mul_succ] at bound_eq
    refine provided_of_enough acyclic (fun _ _ _ known below =>
      fits_invoke p.lookahead_eq acyclic p.limits (Nat.sub_le_sub_right enough 1) known below) known
      (.inl ?_)
    change 2 * p.grammar.ruleCount * w.length + p.grammar.ruleCount +
      p.grammar.rank p.grammar.NeedCall p.grammar.entry ≤ bound - 1 + 1
    omega
  have exact : (q.planFor lexed).lookahead = Lookahead.of (q.planFor lexed).grammar := p.lookahead_eq
  obtain ⟨same, within⟩ := within_runEntry exact (proper_invoke _) p.limits
    ((p.opened lexed).stream.count + 1) provided few
  have ended : p.ended lexed = q.ended lexed := same
  have agree : p.parse lexed = q.parse lexed := by
    rw [parse_eq, parse_eq, ended]
    rfl
  refine ⟨?_, agree⟩
  rw [agree, parse_eq]
  intro met
  have start : Incident.depthLimit ∈ (q.opened lexed).incidents :=
    within (within_finish (q.planFor lexed) (q.ended lexed) met)
  cases start

/-- A bracketed term. -/
def termBody : Element := .alternatives [.keyword "x", .group [.keyword "(", .call 1, .keyword ")"]]

/-- Rules for a model that is such a term. -/
def bracketRules : Array Rule := #[
  ⟨"Model", .parser (some DomainModel.modelType), .call 1⟩,
  ⟨"Term", .parser (some DomainModel.modelType), termBody⟩]

/-- The grammar of these rules. -/
def bracketGrammar : Grammar where
  name := "Brackets"
  types := DomainModel.types
  rules := bracketRules
  entry := 0
  entryRule := ⟨"Model", .parser (some DomainModel.modelType), .call 1⟩
  entryType := DomainModel.modelType
  entry_eq := rfl
  entry_kind := rfl
  faultless := by decide +kernel

/-- The parser of this grammar. -/
def bracketParser : Parser where
  grammar := bracketGrammar
  limits := {}
  lookahead := .of bracketGrammar
  lookahead_eq := rfl
  not_leftRecursive := by decide +kernel

/-- Three brackets that are never closed. -/
def openBrackets : LexResult := Lexer.tokenize ["x", "(", ")"] "( ( ("

theorem bracketGrammar_productive : bracketGrammar.Productive := by
  have term : bracketGrammar.Generates termBody [⟨.keyword, "x", 0⟩] :=
    ⟨0, .alternative List.mem_cons_self (.keyword rfl)⟩
  intro id body known
  match id, known with
  | 0, known =>
    obtain rfl : Element.call 1 = body := Option.some.inj known
    exact ⟨_, .rule rfl rfl term⟩
  | 1, known =>
    obtain rfl : termBody = body := Option.some.inj known
    exact ⟨_, term⟩
  | _ + 2, known => cases known

/-- Brackets that are never closed nest one rule for each of them. That is well within the bound, but more
than three levels. -/
theorem nesting_openBrackets :
    bracketGrammar.Productive ∧
    2 * bracketGrammar.ruleCount * (visibleCount openBrackets.tokens + 1) = 16 ∧
    Incident.depthLimit ∉ (bracketParser.parse openBrackets).incidents ∧
    bracketParser.parse openBrackets = (bracketParser.nestingAtMost 16).parse openBrackets ∧
    Incident.depthLimit ∈ ((bracketParser.nestingAtMost 3).parse openBrackets).incidents := by
  have bound : 2 * bracketGrammar.ruleCount * (visibleCount openBrackets.tokens + 1) = 16 := by
    decide +kernel
  have enough : 2 * bracketParser.grammar.ruleCount * (visibleCount openBrackets.tokens + 1) ≤
      bracketParser.limits.maxRuleDepth := by
    decide +kernel
  obtain ⟨notMet, same⟩ :=
    nesting_bounded bracketParser openBrackets bracketGrammar_productive enough
  exact ⟨bracketGrammar_productive, bound, notMet, bound ▸ same, by decide +kernel⟩

end Parser

end Workbench
