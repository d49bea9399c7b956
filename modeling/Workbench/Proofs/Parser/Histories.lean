import Workbench.Proofs.Parser.Limits

/-!
**Histories of runs.**

The state to which a run leads does not tell what came first on the way: an error that is recorded in front
of a token, or the token. The history of a run is the list of what happens in it, in order: tokens are taken,
errors are recorded, an element fails since none of its alternatives is viable, an invocation is refused
since rules are nested too deeply, and a repetition is left after a turn that took nothing.

There is a history for each function of the interpreter. It goes through the same cases and reads the states
in between off the interpreter. `Retells` ties it to what the run has done to the input, to the errors and to
the incidents, and each error to the token that was next when it was recorded.
-/

namespace Workbench

namespace Interpreter

/-- Something that happens while an element is run. -/
inductive Happening where
  /-- The next visible token is taken. -/
  | take
  /-- An error is recorded. -/
  | error (problem : ParseProblem)
  /-- None of the alternatives is viable, and the element fails. -/
  | stuck
  /-- An invocation is refused: rules are nested too deeply. -/
  | limit
  /-- A repetition that could start is left, since its turn took no token. -/
  | idle
deriving DecidableEq, Repr

/-- What happens in a run, in order. -/
abbrev History := List Happening

/-- The errors of a history, each with the text of the token that is next when the error is recorded. The
visible tokens `w` are ahead at the start. -/
def History.found : History → List Token → List (ParseProblem × Option String)
  | [], _ => []
  | .take :: rest, w => found rest w.tail
  | .error problem :: rest, w => (problem, w.head?.map (·.image)) :: found rest w
  | .stuck :: rest, w | .limit :: rest, w | .idle :: rest, w => found rest w

/-! ### The history of each function -/

/-- While recovering, no error is recorded. -/
def raising (problem : ParseProblem) (s : State) : History :=
  if s.recovering then [] else [.error problem]

def expecting (accepts : Token → Bool) (problem : ParseProblem) (s : State) : History :=
  if s.stream.peek?.any accepts then [.take]
  else raising problem s ++ if s.stream.second?.any accepts then [.take, .take] else []

def reporting (out : Outcome) : History :=
  match out.stuck with
  | some expected => raising (.noAlternative expected) out.state
  | none => []

/-- `inner` gives the histories of invocations. -/
def calling (plan : Plan) (inner : RuleId → State → History) (id : RuleId) (s : State) : History :=
  match plan.grammar.rules[id]? with
  | none => []
  | some rule =>
    match rule.kind.terminal? with
    | some token => expecting (·.kind == token) (.missingToken rule.name) s
    | none => inner id s

/-- `inside` gives the histories of the turns. -/
def turning (plan : Plan) (canStart : State → Bool) (body : State → Outcome) (inside : State → History) :
    Nat → State → History
  | 0, _ => []
  | fuel + 1, s =>
    if canStart s then
      let out := body s
      inside s ++
        if out.state.stream.count < s.stream.count then
          reporting out ++
            match out.stuck with
            | some expected =>
              turning plan canStart body inside fuel (out.state.report plan expected)
            | none => turning plan canStart body inside fuel out.state
        else [.idle]
    else []

def repeating (plan : Plan) (cardinality : Cardinality) (canStart : State → Bool)
    (body : State → Outcome) (inside : State → History) (s : State) : History :=
  match cardinality with
  | .optional => if canStart s then inside s else []
  | .zeroOrMore => turning plan canStart body inside s.stream.count s
  | .oneOrMore =>
    let out := body s
    inside s ++
      if out.stuck.isSome then []
      else if out.state.stream.count < s.stream.count then
        turning plan canStart body inside out.state.stream.count out.state
      else if canStart s then [.idle] else []

mutual

def running (plan : Plan) (invoke : Invocation) (inner : RuleId → State → History) :
    Element → State → History
  | .keyword text, s => expecting (·.isKeyword text) (.missingKeyword text) s
  | .call id, s => calling plan inner id s
  | .assign _ _ value, s => runningAssigned plan inner value s
  | .crossRef _ _, _ => []
  | .action _ _, _ => []
  | .group items, s => runningAll plan invoke inner items s
  | .alternatives items, s =>
    match choose plan items s with
    | some i => runningNth plan invoke inner items i s
    | none => [.stuck]
  | .repetition cardinality item, s =>
    repeating plan cardinality (ready plan item) (run plan invoke item) (running plan invoke inner item) s

def runningAll (plan : Plan) (invoke : Invocation) (inner : RuleId → State → History) :
    List Element → State → History
  | [], _ => []
  | item :: rest, s =>
    let out := run plan invoke item s
    running plan invoke inner item s ++
      if out.stuck.isSome then [] else runningAll plan invoke inner rest out.state

def runningNth (plan : Plan) (invoke : Invocation) (inner : RuleId → State → History) :
    List Element → Nat → State → History
  | [], _, _ => []
  | item :: _, 0, s => running plan invoke inner item s
  | _ :: rest, i + 1, s => runningNth plan invoke inner rest i s

def runningAssigned (plan : Plan) (inner : RuleId → State → History) : Element → State → History
  | .keyword text, s => expecting (·.isKeyword text) (.missingKeyword text) s
  | .call id, s | .crossRef _ id, s => calling plan inner id s
  | .alternatives items, s =>
    match choose plan items s with
    | some i => runningAssignedNth plan inner items i s
    | none => [.stuck]
  | _, _ => []

def runningAssignedNth (plan : Plan) (inner : RuleId → State → History) :
    List Element → Nat → State → History
  | [], _, _ => []
  | item :: _, 0, s => runningAssigned plan inner item s
  | _ :: rest, i + 1, s => runningAssignedNth plan inner rest i s

end

def runningReported (plan : Plan) (invoke : Invocation) (inner : RuleId → State → History) (e : Element)
    (s : State) : History :=
  running plan invoke inner e s ++ reporting (run plan invoke e s)

def invoking (plan : Plan) : Nat → RuleId → State → History
  | 0, _, s => .limit :: raising (.tooDeep plan.limits.maxRuleDepth) s
  | depth + 1, id, s =>
    match plan.grammar.rules[id]? with
    | none => []
    | some rule =>
      runningReported plan (invoke plan depth) (invoking plan depth) rule.body
        { s with frame := Frame.enter id rule.kind }

/-! ### What a history tells -/

/-- The history accounts for all tokens that are taken from `s` to `t`, for all errors that are recorded, each
at the token that is next, and it tells whether the limit on the depth is met. -/
structure Retells (s t : State) (h : History) : Prop where
  enough : h.count .take ≤ s.stream.visible.length
  visible : t.stream.visible = s.stream.visible.drop (h.count .take)
  errors : ∃ new, t.errors.toList = s.errors.toList ++ new ∧
    new.map (fun e => (e.problem, e.token)) = h.found s.stream.visible
  limit : .depthLimit ∈ t.incidents ↔ .depthLimit ∈ s.incidents ∨ .limit ∈ h

/-- The history also tells of the failure if the run fails. -/
structure Recounts (s : State) (out : Outcome) (h : History) : Prop extends Retells s out.state h where
  stuck : out.stuck.isSome = true → .stuck ∈ h

theorem History.found_append (g h : History) (w : List Token) :
    (g ++ h).found w = g.found w ++ h.found (w.drop (g.count .take)) := by
  induction g generalizing w with
  | nil => rfl
  | cons first g ih =>
    cases first with
    | take =>
      rw [List.cons_append, found, found, ih, List.count_cons_self, List.drop_tail]
    | _ => simp [found, ih]

open State

variable {plan : Plan} {invoke : Invocation} {inner : RuleId → State → History} {s t u : State}
  {g h : History} {out : Outcome}

namespace Retells

theorem trans (first : Retells s t g) (then_ : Retells t u h) : Retells s u (g ++ h) := by
  obtain ⟨new, errors, found⟩ := first.errors
  obtain ⟨new', errors', found'⟩ := then_.errors
  have enough := first.enough
  have enough' := then_.enough
  rw [first.visible] at found' enough'
  rw [List.length_drop] at enough'
  refine ⟨?_, ?_, ⟨new ++ new', ?_, ?_⟩, ?_⟩
  · rw [List.count_append]
    omega
  · rw [then_.visible, first.visible, List.drop_drop, List.count_append]
  · rw [errors', errors, List.append_assoc]
  · rw [List.map_append, found, found', History.found_append]
  · rw [then_.limit, first.limit, List.mem_append, or_assoc]

/-- A step that only builds. -/
theorem quiet (stream : t.stream = s.stream) (errors : t.errors = s.errors)
    (limit : .depthLimit ∈ t.incidents ↔ .depthLimit ∈ s.incidents) : Retells s t [] := by
  refine ⟨Nat.zero_le _, ?_, ⟨[], ?_, rfl⟩, ?_⟩
  · rw [stream]
    rfl
  · rw [errors, List.append_nil]
  · simpa using limit

theorem refl (s : State) : Retells s s [] := quiet rfl rfl Iff.rfl

theorem then_silent (told : Retells s t h) (silent : Silent t u) (within : Within t u)
    (kept : t.incidents ⊆ u.incidents) : Retells s u h := by
  have step : Retells t u [] := quiet silent.stream silent.errors ⟨within, fun mem => kept mem⟩
  simpa using told.trans step

theorem assign (told : Retells s t h) (feature : String) (op : AssignOp) (value : Value) :
    Retells s (t.assign feature op value) h :=
  told.then_silent (.assign t feature op value) (.assign t feature op value)
    (subset_incidents_assign feature op value)

theorem collect (told : Retells s t h) (text : String) : Retells s (t.collect text) h :=
  told.then_silent (.collect t text) (.collect t text) (by simp)

theorem refer (told : Retells s t h) (feature : String) (op : AssignOp) (target : TypeId) (text : String)
    (source : SourceTree) : Retells s (makeReference feature op target text source t) h :=
  told.then_silent (.makeReference feature op target text source t)
    (.makeReference feature op target text source t)
    (subset_incidents_makeReference feature op target text source)

theorem note (told : Retells s t h) {incident : Incident} (other : incident ≠ .depthLimit) :
    Retells s (t.note incident) h :=
  told.then_silent (.note t incident) (.note t other) (subset_incidents_note incident)

theorem attach (told : Retells s t h) (trees : List SourceTree) : Retells s (t.attach trees) h :=
  ⟨told.enough, told.visible, told.errors, told.limit⟩

theorem adopt (told : Retells s t h) (id : NodeId) : Retells s (t.adopt id) h :=
  told.then_silent (.adopt t id) (.adopt t id) (subset_incidents_adopt id)

theorem recovering (told : Retells s t h) (mode : Bool) : Retells s { t with recovering := mode } h :=
  ⟨told.enough, told.visible, told.errors, told.limit⟩

end Retells

/-! ### Tokens and errors -/

theorem retells_consume (s : State) (feature : Option String) (left : s.stream.visible ≠ []) :
    Retells s (s.consume feature).1 [.take] := by
  refine ⟨List.length_pos_iff.2 left, ?_, ⟨[], ?_, rfl⟩, ?_⟩
  · rw [visible_consume]
    exact List.drop_one.symm
  · rw [errors_consume, List.append_nil]
  · simp

theorem retells_raise (plan : Plan) (problem : ParseProblem) (s : State) :
    Retells s (s.raise plan problem) (raising problem s) := by
  unfold State.raise raising
  split
  · exact .refl s
  · refine ⟨Nat.zero_le _, rfl, ⟨_, Array.toList_push, ?_⟩, ?_⟩
    · rw [TokenStream.peek?_eq_head?]
      rfl
    · simp [State.record]

theorem retells_report (plan : Plan) (expected : FirstSet) (s : State) :
    Retells s (s.report plan expected) (raising (.noAlternative expected) s) :=
  (retells_raise plan _ s).recovering true

theorem visible_ne_nil {accepts : Token → Bool} (accepted : s.stream.visible.head?.any accepts = true) :
    s.stream.visible ≠ [] := by
  intro empty
  rw [empty] at accepted
  cases accepted

theorem retells_expect (plan : Plan) (s : State) (accepts : Token → Bool) (problem : ParseProblem)
    (feature : Option String) :
    Retells s (s.expect plan accepts problem feature).1 (expecting accepts problem s) := by
  unfold State.expect expecting
  dsimp only
  split
  · next accepted =>
    rw [TokenStream.peek?_eq_head?] at accepted
    have settled : Retells s { s with recovering := false } [] := (Retells.refl s).recovering false
    exact settled.trans (retells_consume _ feature (visible_ne_nil accepted))
  · have raised := retells_raise plan problem s
    rw [stream_raise]
    split
    · next accepted =>
      -- the token found is skipped, and the one behind it is taken
      rw [TokenStream.second?_eq_head?] at accepted
      have behind : s.stream.visible.tail ≠ [] := by
        intro empty
        rw [empty] at accepted
        cases accepted
      have skipped := retells_consume (s.raise plan problem) none <| by
        rw [stream_raise]
        exact fun empty => behind (by rw [empty]; rfl)
      have taken := retells_consume { ((s.raise plan problem).consume none).1 with recovering := false }
        feature <| by
          change ((s.raise plan problem).consume none).1.stream.visible ≠ []
          rwa [visible_consume, stream_raise]
      exact raised.trans ((skipped.recovering false).trans taken)
    · simpa using raised.recovering true

theorem retells_reporting (plan : Plan) (out : Outcome) :
    Retells out.state
      (match out.stuck with | some expected => out.state.report plan expected | none => out.state)
      (reporting out) := by
  unfold reporting
  cases out.stuck with
  | none => exact .refl _
  | some expected => exact retells_report plan expected out.state

/-! ### Repetitions -/

section Repetitions

variable {canStart : State → Bool} {body : State → Outcome} {inside : State → History}

theorem Recounts.idle (told : Recounts s out h) : Recounts s out (h ++ [.idle]) := by
  have idle : Retells out.state out.state [.idle] :=
    ⟨Nat.zero_le _, rfl, ⟨[], (List.append_nil _).symm, rfl⟩, by simp⟩
  exact ⟨told.toRetells.trans idle, fun fails => List.mem_append_left _ (told.stuck fails)⟩

theorem recounts_turns (turn : ∀ s, Recounts s (body s) (inside s)) (fuel : Nat) (s : State) :
    Recounts s (turns plan canStart body fuel s) (turning plan canStart body inside fuel s) := by
  induction fuel generalizing s with
  | zero => exact ⟨.refl s, fun stuck => by cases stuck⟩
  | succ fuel ih =>
    unfold turns turning
    split
    · have ran := turn s
      generalize body s = out at ran
      have reported := retells_reporting plan out
      dsimp only
      by_cases progress : out.state.stream.count < s.stream.count
      · simp only [progress, decide_true, if_true]
        cases stuck : out.stuck with
        | none =>
          rw [stuck] at reported
          have next := ih out.state
          refine ⟨ran.toRetells.trans (reported.trans next.toRetells), fun fails => ?_⟩
          exact List.mem_append_right _ (List.mem_append_right _ (next.stuck fails))
        | some expected =>
          rw [stuck] at reported
          have next := ih (out.state.report plan expected)
          refine ⟨ran.toRetells.trans (reported.trans next.toRetells), fun fails => ?_⟩
          exact List.mem_append_right _ (List.mem_append_right _ (next.stuck fails))
      · simp only [progress, decide_false, if_false, Bool.false_eq_true]
        cases out.stuck <;> exact ran.idle
    · exact ⟨.refl s, fun stuck => by cases stuck⟩

theorem recounts_repeated (turn : ∀ s, Recounts s (body s) (inside s)) (cardinality : Cardinality)
    (s : State) :
    Recounts s (repeated plan cardinality canStart body s)
      (repeating plan cardinality canStart body inside s) := by
  cases cardinality with
  | optional =>
    unfold repeated repeating
    dsimp only
    split
    · exact turn s
    · exact ⟨.refl s, fun stuck => by cases stuck⟩
  | zeroOrMore => exact recounts_turns turn _ s
  | oneOrMore =>
    have ran := turn s
    unfold repeated repeating
    dsimp only
    split
    · simpa using ran
    · split
      · have next : Recounts (body s).state
            (turns plan canStart body (body s).state.stream.count (body s).state) _ :=
          recounts_turns turn _ _
        exact ⟨ran.toRetells.trans next.toRetells, fun fails => List.mem_append_right _ (next.stuck fails)⟩
      · split
        · exact ran.idle
        · simpa using ran

end Repetitions

/-! ### Calls -/

/-- The histories of the invocations tell of them. -/
def Chronicles (invoke : Invocation) (inner : RuleId → State → History) : Prop :=
  ∀ id feature s, Retells s (invoke id feature s).state (inner id s)

theorem calling_of_unknown {id : RuleId} (unknown : plan.grammar.rules[id]? = none) (s : State) :
    calling plan inner id s = [] := by
  simp [calling, unknown]

theorem calling_of_terminal {id : RuleId} {rule : Rule} (known : plan.grammar.rules[id]? = some rule)
    {token : TokenKind} (terminal : rule.kind.terminal? = some token) (s : State) :
    calling plan inner id s = expecting (·.kind == token) (.missingToken rule.name) s := by
  simp [calling, known, terminal]

theorem calling_of_rule {id : RuleId} {rule : Rule} (known : plan.grammar.rules[id]? = some rule)
    (nonterminal : rule.kind.terminal? = none) (s : State) : calling plan inner id s = inner id s := by
  simp [calling, known, nonterminal]

theorem retells_call (tells : Chronicles invoke inner) (id : RuleId)
    (target : Option (String × AssignOp)) (s : State) :
    Retells s (call plan invoke id target s) (calling plan inner id s) := by
  unfold call
  split
  · next unknown =>
    rw [calling_of_unknown unknown]
    exact (Retells.refl s).note (by decide)
  · next rule known =>
    split
    · next token value kind =>
      have taken : Retells s (s.expectKind plan token rule.name (target.map (·.1))).1 _ :=
        retells_expect plan s _ _ _
      have terminal : rule.kind.terminal? = some token := by rw [kind, RuleKind.terminal?]
      rw [calling_of_terminal known terminal]
      dsimp only
      split
      · exact taken
      · exact taken.assign _ _ _
      · exact taken.collect _
    · next other =>
      have returned := tells id (target.map (·.1)) s
      rw [calling_of_rule known (RuleKind.terminal?_eq_none other)]
      dsimp only
      split
      · exact returned.attach _
      · exact (returned.attach _).assign _ _ _
      · exact (returned.attach _).assign _ _ _
      · exact (returned.attach _).adopt _
      · exact (returned.attach _).collect _

theorem retells_crossReference (tells : Chronicles invoke inner) (feature : String) (op : AssignOp)
    (target : TypeId) (id : RuleId) (s : State) :
    Retells s (crossReference plan invoke feature op target id s) (calling plan inner id s) := by
  unfold crossReference
  split
  · next unknown =>
    rw [calling_of_unknown unknown]
    exact (Retells.refl s).note (by decide)
  · next rule known =>
    split
    · next token value kind =>
      have taken : Retells s (s.expectKind plan token rule.name (some feature)).1 _ :=
        retells_expect plan s _ _ _
      have terminal : rule.kind.terminal? = some token := by rw [kind, RuleKind.terminal?]
      rw [calling_of_terminal known terminal]
      dsimp only
      split
      · exact taken
      · exact taken.refer _ _ _ _ _
    · next other =>
      have returned := tells id (some feature) s
      rw [calling_of_rule known (RuleKind.terminal?_eq_none other)]
      dsimp only
      split
      · exact (returned.attach _).refer _ _ _ _ _
      · exact (returned.attach _).note (by decide)
      · exact returned.attach _

/-! ### Elements -/

/-- A run that does not fail is told by what it does to the state. -/
theorem Retells.recounts (told : Retells s t h) : Recounts s { state := t } h :=
  ⟨told, fun stuck => by cases stuck⟩

theorem recounts_none (s : State) (expected : FirstSet) :
    Recounts s { state := s, stuck := some expected } [.stuck] :=
  ⟨⟨Nat.zero_le _, rfl, ⟨[], (List.append_nil _).symm, rfl⟩, by simp⟩, fun _ => List.mem_singleton_self _⟩

mutual

theorem recounts_run (tells : Chronicles invoke inner) : ∀ (e : Element) (s : State),
    Recounts s (run plan invoke e s) (running plan invoke inner e s)
  | .keyword text, s => by
    have taken : Retells s (s.expectKeyword plan text none).1 _ := retells_expect plan s _ _ _
    rw [run, running]
    dsimp only
    split
    · exact (taken.collect _).recounts
    · exact taken.recounts
  | .call id, s => by
    rw [run, running]
    exact (retells_call tells id none s).recounts
  | .assign feature op value, s => by
    rw [run, running]
    exact recounts_runAssigned tells feature op value s
  | .crossRef _ _, s => by
    rw [run, running]
    exact ((Retells.refl s).note (by decide)).recounts
  | .action type none, s => by
    rw [run, running]
    exact ((Retells.refl s).then_silent (.retag s type) (.retag s type) (subset_incidents_retag type)).recounts
  | .action type (some (feature, op)), s => by
    rw [run, running]
    exact ((Retells.refl s).then_silent (.wrap plan s type feature op) (.wrap plan s type feature op)
      (subset_incidents_wrap type feature op)).recounts
  | .group items, s => by
    rw [run, running]
    exact recounts_runAll tells items s
  | .alternatives items, s => by
    rw [run, running]
    cases choose plan items s with
    | some i => exact recounts_runNth tells items i s
    | none => exact recounts_none s _
  | .repetition cardinality item, s => by
    rw [run, running]
    exact recounts_repeated (recounts_run tells item) cardinality s

theorem recounts_runAll (tells : Chronicles invoke inner) : ∀ (items : List Element) (s : State),
    Recounts s (runAll plan invoke items s) (runningAll plan invoke inner items s)
  | [], s => by
    rw [runAll, runningAll]
    exact (Retells.refl s).recounts
  | item :: rest, s => by
    have ran := recounts_run tells item s
    rw [runAll, runningAll]
    split
    · simpa using ran
    · have next := recounts_runAll tells rest (run plan invoke item s).state
      exact ⟨ran.toRetells.trans next.toRetells, fun fails => List.mem_append_right _ (next.stuck fails)⟩

theorem recounts_runNth (tells : Chronicles invoke inner) :
    ∀ (items : List Element) (i : Nat) (s : State),
      Recounts s (runNth plan invoke items i s) (runningNth plan invoke inner items i s)
  | [], _, s => by
    rw [runNth, runningNth]
    exact (Retells.refl s).recounts
  | item :: _, 0, s => by
    rw [runNth, runningNth]
    exact recounts_run tells item s
  | _ :: rest, i + 1, s => by
    rw [runNth, runningNth]
    exact recounts_runNth tells rest i s

theorem recounts_runAssigned (tells : Chronicles invoke inner) (feature : String) (op : AssignOp) :
    ∀ (e : Element) (s : State),
      Recounts s (runAssigned plan invoke feature op e s) (runningAssigned plan inner e s)
  | .keyword text, s => by
    have taken : Retells s (s.expectKeyword plan text (some feature)).1 _ := retells_expect plan s _ _ _
    rw [runAssigned, runningAssigned]
    dsimp only
    split
    · exact (taken.assign _ _ _).recounts
    · exact taken.recounts
  | .call id, s => by
    rw [runAssigned, runningAssigned]
    exact (retells_call tells id _ s).recounts
  | .crossRef target id, s => by
    rw [runAssigned, runningAssigned]
    exact (retells_crossReference tells feature op target id s).recounts
  | .alternatives items, s => by
    rw [runAssigned, runningAssigned]
    cases choose plan items s with
    | some i => exact recounts_runAssignedNth tells feature op items i s
    | none => exact recounts_none s _
  | .assign .., s => by
    simp only [runAssigned, runningAssigned]
    exact ((Retells.refl s).note (by decide)).recounts
  | .action .., s => by
    simp only [runAssigned, runningAssigned]
    exact ((Retells.refl s).note (by decide)).recounts
  | .group _, s => by
    simp only [runAssigned, runningAssigned]
    exact ((Retells.refl s).note (by decide)).recounts
  | .repetition .., s => by
    simp only [runAssigned, runningAssigned]
    exact ((Retells.refl s).note (by decide)).recounts

theorem recounts_runAssignedNth (tells : Chronicles invoke inner) (feature : String) (op : AssignOp) :
    ∀ (items : List Element) (i : Nat) (s : State),
      Recounts s (runAssignedNth plan invoke feature op items i s) (runningAssignedNth plan inner items i s)
  | [], _, s => by
    rw [runAssignedNth, runningAssignedNth]
    exact (Retells.refl s).recounts
  | item :: _, 0, s => by
    rw [runAssignedNth, runningAssignedNth]
    exact recounts_runAssigned tells feature op item s
  | _ :: rest, i + 1, s => by
    rw [runAssignedNth, runningAssignedNth]
    exact recounts_runAssignedNth tells feature op rest i s

end

/-! ### Rules -/

theorem retells_runReported (tells : Chronicles invoke inner) (e : Element) (s : State) :
    Retells s (runReported plan invoke e s) (runningReported plan invoke inner e s) :=
  (recounts_run tells e s).toRetells.trans (retells_reporting plan _)

/-- The frame does not matter to what a history tells. -/
theorem Retells.leave {caller frame : Frame} (inside : Retells { s with frame } t h) (plan : Plan)
    (id : RuleId) (kind : RuleKind) (feature : Option String) (offset : Nat) :
    Retells s (leave plan id kind feature offset caller t).state h := by
  obtain ⟨left, -⟩ := leave_spec plan id kind feature offset caller t
  refine ⟨inside.enough, ?_, ?_, ?_⟩
  · rw [left.stream]
    exact inside.visible
  · rw [left.errors]
    exact inside.errors
  · rw [incidents_leave]
    exact inside.limit

/-- The limit is met, and then an error is recorded. -/
theorem retells_refused (plan : Plan) (id : RuleId) (feature : Option String) (s : State) :
    Retells s (Interpreter.invoke plan 0 id feature s).state (invoking plan 0 id s) := by
  obtain ⟨enough, visible, errors, -⟩ :=
    (retells_raise plan (.tooDeep plan.limits.maxRuleDepth) s).recovering true
  have same : (invoking plan 0 id s).count .take =
      (raising (.tooDeep plan.limits.maxRuleDepth) s).count .take := by
    rw [invoking]
    exact List.count_cons_of_ne (by decide)
  rw [Interpreter.invoke]
  refine ⟨by rwa [same], by rwa [same], ?_, ?_⟩
  · rw [invoking]
    exact errors
  · simp [invoking, State.note]

theorem chronicles_invoke (plan : Plan) (depth : Nat) :
    Chronicles (Interpreter.invoke plan depth) (invoking plan depth) := by
  induction depth with
  | zero => exact fun id feature s => retells_refused plan id feature s
  | succ depth ih =>
    intro id feature s
    rw [Interpreter.invoke, invoking]
    cases known : plan.grammar.rules[id]? with
    | none =>
      have other : Incident.unknownRule ≠ .depthLimit := by decide
      exact (Retells.refl s).note other
    | some rule => exact (retells_runReported ih rule.body _).leave plan _ _ _ _

end Interpreter

end Workbench
