import Workbench.Proofs.Parser.Ahead
import Workbench.Proofs.Parser.Histories
import Workbench.Proofs.Parser.Sentences

/-!
**What is predicted makes progress.**

An element that goes on with the next token takes it before anything else happens, unless an invocation is
refused first since rules are nested too deeply. That is not so by one look at the element: a group begins
with the items in front of the one that goes on with the token. These can match nothing. An element that can
match nothing may take the token all the same, for a call may go on with a keyword that the look-ahead does
not find, but where it takes nothing, nothing happens. So the same tokens are still ahead, and the element has
not failed.

Both go along the elements, and into the bodies of the rules along the depth. They do not need that the rules
are not left-recursive: calls that went around in a circle would meet the limit.
-/

namespace Workbench

namespace Interpreter

open State Grammar

/-! ### How histories begin and go on -/

namespace History

/-- The first that happens is that a token is taken, or that the limit is met. -/
def Opens (h : History) : Prop := h.head? = some .take ∨ h.head? = some .limit

/-- No repetition is left idle before the limit is met. -/
def Excused (h : History) : Prop := ∀ before after, h = before ++ .idle :: after → .limit ∈ before

variable {g h : History}

theorem not_opens_nil : ¬ Opens [] := by
  rintro (first | first) <;> cases first

theorem Opens.append (opens : g.Opens) (h : History) : (g ++ h).Opens := by
  cases g with
  | nil => exact absurd opens not_opens_nil
  | cons first g => exact opens

theorem excused_of_not_mem (never : .idle ∉ h) : h.Excused := by
  rintro before after rfl
  exact absurd (List.mem_append_right before List.mem_cons_self) never

theorem excused_nil : Excused [] := excused_of_not_mem List.not_mem_nil

theorem Excused.append (first : g.Excused) (then_ : h.Excused) : (g ++ h).Excused := by
  intro before after split
  rcases List.append_eq_append_iff.1 split with ⟨middle, rfl, rest⟩ | ⟨middle, rfl, rest⟩
  · exact List.mem_append_right _ (then_ middle after rest)
  · cases middle with
    | nil => exact absurd (then_ [] after rest.symm) List.not_mem_nil
    | cons other middle =>
      obtain ⟨rfl, -⟩ := List.cons.inj rest
      exact first before middle rfl

/-- A repetition may be left idle after its turn has met the limit. -/
theorem Excused.idle (excused : g.Excused) (met : .limit ∈ g) : Excused (g ++ [.idle]) := by
  intro before after split
  rcases List.append_eq_append_iff.1 split with ⟨middle, rfl, -⟩ | ⟨middle, rfl, rest⟩
  · exact List.mem_append_left _ met
  · cases middle with
    | nil => simpa using met
    | cons other middle =>
      obtain ⟨rfl, -⟩ := List.cons.inj rest
      exact excused before middle rfl

end History

variable {plan : Plan} {invoke : Invocation} {inner : RuleId → State → History} {s t : State}
  {e item body : Element} {items rest : List Element} {id : RuleId} {g h : History} {out : Outcome}

theorem Retells.count_lt (told : Retells s t h) (takes : .take ∈ h) : t.stream.count < s.stream.count := by
  have some := List.count_pos_iff.2 takes
  have enough := told.enough
  rw [TokenStream.count_eq_length, TokenStream.count_eq_length, told.visible, List.length_drop]
  omega

theorem Recounts.still (told : Recounts s out []) :
    out.stuck.isSome = false ∧ out.state.stream.visible = s.stream.visible := by
  refine ⟨?_, told.visible⟩
  rw [Bool.eq_false_iff]
  intro fails
  exact absurd (told.stuck fails) List.not_mem_nil

/-! ### Prompt elements -/

/-- A run of an element takes a token first, or meets the limit first, if the element goes on with the next
token. If the element can match nothing, then the run does so or nothing happens. -/
structure Prompt (plan : Plan) (e : Element) (s : State) (h : History) : Prop where
  ahead : Ahead plan e s.stream.visible → h.Opens
  empty : plan.lookahead.nullable e = true → h = [] ∨ h.Opens
  excused : h.Excused

namespace Prompt

theorem mono (prompt : Prompt plan item s h)
    (ahead : Ahead plan e s.stream.visible → Ahead plan item s.stream.visible)
    (empty : plan.lookahead.nullable e = true → plan.lookahead.nullable item = true) : Prompt plan e s h where
  ahead isAhead := prompt.ahead (ahead isAhead)
  empty isEmpty := prompt.empty (empty isEmpty)
  excused := prompt.excused

/-- Where nothing can be ahead, nothing happens. -/
theorem nothing (never : ¬ Ahead plan e s.stream.visible) : Prompt plan e s [] where
  ahead isAhead := absurd isAhead never
  empty _ := .inl rfl
  excused := History.excused_nil

end Prompt

theorem not_mem_raising (problem : ParseProblem) (s : State) : .idle ∉ raising problem s := by
  unfold raising
  split <;> simp

theorem reporting_eq_nil (ends : out.stuck.isSome = false) : reporting out = [] := by
  unfold reporting
  cases stuck : out.stuck with
  | none => rfl
  | some expected =>
    rw [stuck] at ends
    cases ends

theorem not_mem_reporting (out : Outcome) : .idle ∉ reporting out := by
  unfold reporting
  split
  · exact not_mem_raising _ _
  · exact List.not_mem_nil

/-- A token that is expected and there is taken at once. -/
theorem prompt_expecting {accepts : Token → Bool} (problem : ParseProblem)
    (ahead : Ahead plan e s.stream.visible → s.stream.visible.head?.any accepts = true)
    (solid : plan.lookahead.nullable e = false) : Prompt plan e s (expecting accepts problem s) where
  ahead isAhead := by
    rw [expecting, TokenStream.peek?_eq_head?, if_pos (ahead isAhead)]
    exact .inl rfl
  empty isEmpty := by
    rw [solid] at isEmpty
    cases isEmpty
  excused := by
    refine History.excused_of_not_mem ?_
    unfold expecting
    split
    · simp
    · have never := not_mem_raising problem s
      split <;> simpa using never

/-! ### Calls -/

/-- The body of every rule is run promptly. -/
def Prompts (plan : Plan) (inner : RuleId → State → History) : Prop :=
  ∀ id body s, plan.grammar.body? id = some body → Prompt plan body s (inner id s)

theorem not_nullable_of_terminal (exact : plan.lookahead = Lookahead.of plan.grammar)
    (calls : e.callee? = some id) {kind : TokenKind} (terminal : plan.grammar.terminal? id = some kind) :
    plan.lookahead.nullable e = false := by
  rw [Bool.eq_false_iff, exact, ne_eq, Lookahead.nullable_iff]
  rintro ⟨depth, derived⟩
  rcases derived.of_callee? calls with ⟨t, -, single⟩ | ⟨body, less, known, -⟩
  · cases single
  · rw [Lookahead.terminal?_of_body? known] at terminal
    cases terminal

theorem prompt_calling (exact : plan.lookahead = Lookahead.of plan.grammar) (prompts : Prompts plan inner)
    (calls : e.callee? = some id) (checked : Element.callFault plan.grammar.rules id = none) (s : State) :
    Prompt plan e s (calling plan inner id s) := by
  obtain ⟨rule, known⟩ := exists_rule checked
  cases kind : rule.kind.terminal? with
  | some token =>
    have terminal : plan.grammar.terminal? id = some token := by simp [Grammar.terminal?, known, kind]
    rw [calling_of_terminal known kind]
    exact prompt_expecting _ (fun ahead => ahead.of_terminal exact calls terminal)
      (not_nullable_of_terminal exact calls terminal)
  | none =>
    have body := body?_of_rule known kind
    rw [calling_of_rule known kind]
    exact (prompts id rule.body s body).mono (fun ahead => ahead.of_call exact calls body)
      (nullable_of_call exact calls body)

/-! ### Repetitions -/

section Repetitions

variable {turn : State → Outcome} {inside : State → History}

/-- A turn that could start and has taken nothing has met the limit. -/
theorem excused_idle (told : Recounts s (turn s) (inside s)) (prompt : Prompt plan item s (inside s))
    (isReady : ready plan item s = true) (still : ¬ (turn s).state.stream.count < s.stream.count) :
    History.Excused (inside s ++ [.idle]) := by
  refine prompt.excused.idle ?_
  rcases prompt.ahead (ready_iff_ahead.1 isReady) with takes | met
  · exact absurd (told.toRetells.count_lt (List.mem_of_head? takes)) still
  · exact List.mem_of_head? met

theorem prompt_turning (told : ∀ s, Recounts s (turn s) (inside s))
    (prompt : ∀ s, Prompt plan item s (inside s)) (fuel : Nat) (s : State) (enough : s.stream.count ≤ fuel) :
    Prompt plan (.repetition .zeroOrMore item) s (turning plan (ready plan item) turn inside fuel s) := by
  induction fuel generalizing s with
  | zero =>
    have none := TokenStream.count_eq_zero_iff.1 (Nat.le_zero.1 enough)
    exact .nothing (by rw [none]; exact not_ahead_nil)
  | succ fuel ih =>
    unfold turning
    by_cases isReady : ready plan item s = true
    · have opens := (prompt s).ahead (ready_iff_ahead.1 isReady)
      rw [if_pos isReady]
      dsimp only
      refine ⟨fun _ => opens.append _, fun _ => .inr (opens.append _), ?_⟩
      split
      · next progress =>
        refine (prompt s).excused.append ((History.excused_of_not_mem (not_mem_reporting _)).append ?_)
        split
        · next expected _ =>
          have reported : ((turn s).state.report plan expected).stream = (turn s).state.stream :=
            stream_raise (.noAlternative expected)
          exact (ih _ (by rw [reported]; omega)).excused
        · exact (ih _ (by omega)).excused
      · next still => exact excused_idle (told s) (prompt s) isReady still
    · rw [if_neg isReady]
      exact .nothing fun ahead => isReady (ready_iff_ahead.2 (ahead_repetition.1 ahead))

theorem prompt_repeating (told : ∀ s, Recounts s (turn s) (inside s))
    (prompt : ∀ s, Prompt plan item s (inside s)) (cardinality : Cardinality) (s : State) :
    Prompt plan (.repetition cardinality item) s
      (repeating plan cardinality (ready plan item) turn inside s) := by
  cases cardinality with
  | optional =>
    unfold repeating
    dsimp only
    split
    · next isReady =>
      have opens := (prompt s).ahead (ready_iff_ahead.1 isReady)
      exact ⟨fun _ => opens, fun _ => .inr opens, (prompt s).excused⟩
    · next notReady =>
      exact .nothing fun ahead => notReady (ready_iff_ahead.2 (ahead_repetition.1 ahead))
  | zeroOrMore => exact prompt_turning told prompt _ s (Nat.le_refl _)
  | oneOrMore =>
    have further := prompt_turning told prompt (turn s).state.stream.count (turn s).state (Nat.le_refl _)
    unfold repeating
    dsimp only
    refine ⟨fun ahead => ((prompt s).ahead (ahead_repetition.1 ahead)).append _, fun empty => ?_, ?_⟩
    · rcases (prompt s).empty empty with quiet | opens
      · -- a turn in which nothing happens takes nothing, so there is no other one
        have ran := told s
        rw [quiet] at ran ⊢
        obtain ⟨ends, visible⟩ := ran.still
        have still : ¬ (turn s).state.stream.count < s.stream.count := by
          rw [TokenStream.count_eq_length, TokenStream.count_eq_length, visible]
          exact Nat.lt_irrefl _
        have notReady : ¬ ready plan item s = true := by
          intro isReady
          exact History.not_opens_nil (quiet ▸ (prompt s).ahead (ready_iff_ahead.1 isReady))
        exact .inl (by simp [ends, still, notReady])
      · exact .inr (opens.append _)
    · split
      · exact (prompt s).excused.append History.excused_nil
      · split
        · exact (prompt s).excused.append further.excused
        · next still =>
          split
          · next isReady => exact excused_idle (told s) (prompt s) isReady still
          · exact (prompt s).excused.append History.excused_nil

end Repetitions

/-! ### Elements -/

/-- Behind an item in which nothing happens, the rest of the group has the same tokens ahead. -/
theorem prompt_cons {further : History} (told : Recounts s out g) (first : Prompt plan item s g)
    (next : Prompt plan (.group rest) out.state further) :
    Prompt plan (.group (item :: rest)) s (g ++ if out.stuck.isSome then [] else further) := by
  refine ⟨fun ahead => ?_, fun empty => ?_, first.excused.append ?_⟩
  · rcases ahead_group_iff.1 ahead with here | ⟨empty, there⟩
    · exact (first.ahead here).append _
    · rcases first.empty empty with rfl | opens
      · obtain ⟨ends, visible⟩ := told.still
        rw [ends]
        exact next.ahead (by rwa [visible])
      · exact opens.append _
  · obtain ⟨emptyItem, emptyRest⟩ := Bool.and_eq_true_iff.1 empty
    rcases first.empty emptyItem with rfl | opens
    · obtain ⟨ends, -⟩ := told.still
      rw [ends]
      exact next.empty emptyRest
    · exact .inr (opens.append _)
  · split
    · exact History.excused_nil
    · exact next.excused

theorem prompt_none (chosen : choose plan items s = none) : Prompt plan (.alternatives items) s [.stuck] where
  ahead isAhead := absurd (.inl isAhead) (not_apt_of_choose chosen)
  empty isEmpty := absurd (.inr isEmpty) (not_apt_of_choose chosen)
  excused := History.excused_of_not_mem (by simp)

/-- The alternative that is chosen is run promptly, and so are the alternatives. -/
theorem prompt_chosen {i : Nat} (chosen : choose plan items s = some i)
    (prompt : ∀ item, items[i]? = some item → Prompt plan item s h) : Prompt plan (.alternatives items) s h := by
  obtain ⟨item, at_i, apt, ahead⟩ := apt_of_choose chosen
  have ran := prompt item at_i
  refine ⟨fun isAhead => ran.ahead (ahead isAhead), fun _ => ?_, ran.excused⟩
  rcases apt with isAhead | empty
  · exact .inr (ran.ahead isAhead)
  · exact ran.empty empty

mutual

theorem prompt_runAssigned (exact : plan.lookahead = Lookahead.of plan.grammar)
    (prompts : Prompts plan inner) : ∀ (e : Element) (s : State),
    e.assignedFault? plan.grammar.rules plan.grammar.types = none →
      Prompt plan e s (runningAssigned plan inner e s)
  | .keyword text, s, _ => by
    rw [runningAssigned]
    exact prompt_expecting _ ahead_keyword_iff.1 (by simp [Lookahead.nullable, Element.nullable])
  | .call id, s, checked => by
    rw [Element.assignedFault?] at checked
    rw [runningAssigned]
    exact prompt_calling exact prompts rfl checked s
  | .crossRef target id, s, checked => by
    rw [Element.assignedFault?, Option.or_eq_none_iff, Option.or_eq_none_iff] at checked
    rw [runningAssigned]
    exact prompt_calling exact prompts rfl checked.2.1 s
  | .alternatives items, s, checked => by
    rw [Element.assignedFault?] at checked
    rw [runningAssigned]
    split at checked
    · cases checked
    · cases chosen : choose plan items s with
      | some i =>
        exact prompt_chosen chosen fun item at_i =>
          prompt_runAssignedNth exact prompts items i s checked at_i
      | none => exact prompt_none chosen
  | .assign .., _, checked => by simp [Element.assignedFault?] at checked
  | .action .., _, checked => by simp [Element.assignedFault?] at checked
  | .group _, _, checked => by simp [Element.assignedFault?] at checked
  | .repetition .., _, checked => by simp [Element.assignedFault?] at checked

theorem prompt_runAssignedNth (exact : plan.lookahead = Lookahead.of plan.grammar)
    (prompts : Prompts plan inner) {item : Element} : ∀ (items : List Element) (i : Nat) (s : State),
    Element.assignedListFault? plan.grammar.rules plan.grammar.types items = none →
      items[i]? = some item → Prompt plan item s (runningAssignedNth plan inner items i s)
  | [], _, _, _, at_i => by cases at_i
  | first :: _, 0, s, checked, at_i => by
    rw [Element.assignedListFault?, Option.or_eq_none_iff] at checked
    obtain rfl : first = item := by simpa using at_i
    rw [runningAssignedNth]
    exact prompt_runAssigned exact prompts first s checked.1
  | _ :: others, i + 1, s, checked, at_i => by
    rw [Element.assignedListFault?, Option.or_eq_none_iff] at checked
    rw [runningAssignedNth]
    exact prompt_runAssignedNth exact prompts others i s checked.2 (by simpa using at_i)

end

mutual

theorem prompt_run (exact : plan.lookahead = Lookahead.of plan.grammar) (tells : Chronicles invoke inner)
    (prompts : Prompts plan inner) {inData : Bool} : ∀ (e : Element) (s : State),
    e.fault? plan.grammar.rules plan.grammar.types inData = none →
      Prompt plan e s (running plan invoke inner e s)
  | .keyword text, s, _ => by
    rw [running]
    exact prompt_expecting _ ahead_keyword_iff.1 (by simp [Lookahead.nullable, Element.nullable])
  | .call id, s, checked => by
    rw [Element.fault?, Option.or_eq_none_iff] at checked
    rw [running]
    exact prompt_calling exact prompts rfl checked.1 s
  | .assign feature op value, s, checked => by
    rw [Element.fault?] at checked
    rw [running]
    split at checked
    · cases checked
    · exact (prompt_runAssigned exact prompts value s checked).mono id id
  | .crossRef _ _, s, checked => by
    rw [Element.fault?] at checked
    cases checked
  | .action type into, s, _ => by
    rw [running]
    exact .nothing not_ahead_action
  | .group items, s, checked => by
    rw [Element.fault?] at checked
    rw [running]
    exact prompt_runAll exact tells prompts items s checked
  | .alternatives items, s, checked => by
    rw [Element.fault?] at checked
    rw [running]
    split at checked
    · cases checked
    · cases chosen : choose plan items s with
      | some i =>
        exact prompt_chosen chosen fun item at_i =>
          prompt_runNth exact tells prompts items i s checked at_i
      | none => exact prompt_none chosen
  | .repetition cardinality item, s, checked => by
    rw [Element.fault?] at checked
    rw [running]
    exact prompt_repeating (recounts_run tells item)
      (fun s => prompt_run exact tells prompts item s checked) cardinality s

theorem prompt_runAll (exact : plan.lookahead = Lookahead.of plan.grammar) (tells : Chronicles invoke inner)
    (prompts : Prompts plan inner) {inData : Bool} : ∀ (items : List Element) (s : State),
    Element.listFault? plan.grammar.rules plan.grammar.types inData items = none →
      Prompt plan (.group items) s (runningAll plan invoke inner items s)
  | [], s, _ => by
    rw [runningAll]
    exact .nothing not_ahead_empty_group
  | item :: rest, s, checked => by
    rw [Element.listFault?, Option.or_eq_none_iff] at checked
    rw [runningAll]
    exact prompt_cons (recounts_run tells item s) (prompt_run exact tells prompts item s checked.1)
      (prompt_runAll exact tells prompts rest _ checked.2)

theorem prompt_runNth (exact : plan.lookahead = Lookahead.of plan.grammar) (tells : Chronicles invoke inner)
    (prompts : Prompts plan inner) {inData : Bool} {item : Element} :
    ∀ (items : List Element) (i : Nat) (s : State),
    Element.listFault? plan.grammar.rules plan.grammar.types inData items = none →
      items[i]? = some item → Prompt plan item s (runningNth plan invoke inner items i s)
  | [], _, _, _, at_i => by cases at_i
  | first :: _, 0, s, checked, at_i => by
    rw [Element.listFault?, Option.or_eq_none_iff] at checked
    obtain rfl : first = item := by simpa using at_i
    rw [runningNth]
    exact prompt_run exact tells prompts first s checked.1
  | _ :: others, i + 1, s, checked, at_i => by
    rw [Element.listFault?, Option.or_eq_none_iff] at checked
    rw [runningNth]
    exact prompt_runNth exact tells prompts others i s checked.2 (by simpa using at_i)

end

/-! ### Rules -/

theorem prompts_invoking (exact : plan.lookahead = Lookahead.of plan.grammar) (depth : Nat) :
    Prompts plan (invoking plan depth) := by
  induction depth with
  | zero =>
    intro id body s known
    have never : .idle ∉ invoking plan 0 id s := by simp [invoking, not_mem_raising]
    rw [invoking] at never ⊢
    exact ⟨fun _ => .inr rfl, fun _ => .inr (.inr rfl), History.excused_of_not_mem never⟩
  | succ depth ih =>
    intro id body s known
    obtain ⟨inData, checked⟩ := checked_of_body? known
    obtain ⟨rule, found, -, rfl⟩ := rule_of_body? known
    have tells := chronicles_invoke plan depth
    have ran := prompt_run exact tells ih rule.body { s with frame := Frame.enter id rule.kind } checked
    have told : Recounts _ (run plan _ rule.body { s with frame := Frame.enter id rule.kind }) _ :=
      recounts_run tells rule.body _
    rw [invoking, found]
    dsimp only [runningReported]
    refine ⟨fun ahead => (ran.ahead ahead).append _, fun empty => ?_,
      ran.excused.append (History.excused_of_not_mem (not_mem_reporting _))⟩
    rcases ran.empty empty with quiet | opens
    · rw [quiet] at told ⊢
      obtain ⟨ends, -⟩ := told.still
      exact .inl (reporting_eq_nil ends)
    · exact .inr (opens.append _)

/-! ### The elements of a body -/

/-- The elements that are run when a body is, each as an element or as the value of an assignment. -/
inductive Part (body : Element) : Option (String × AssignOp) → Element → Prop where
  | body : Part body none body
  | item {items : List Element} {e : Element} (around : Part body none (.group items)) (mem : e ∈ items) :
    Part body none e
  | alternative {target : Option (String × AssignOp)} {items : List Element} {e : Element}
    (around : Part body target (.alternatives items)) (mem : e ∈ items) : Part body target e
  | turn {cardinality : Cardinality} {e : Element} (around : Part body none (.repetition cardinality e)) :
    Part body none e
  | value {feature : String} {op : AssignOp} {e : Element} (around : Part body none (.assign feature op e)) :
    Part body (some (feature, op)) e

def runPart (plan : Plan) (invoke : Invocation) : Option (String × AssignOp) → Element → State → Outcome
  | none, e, s => run plan invoke e s
  | some (feature, op), e, s => runAssigned plan invoke feature op e s

def runningPart (plan : Plan) (invoke : Invocation) (inner : RuleId → State → History) :
    Option (String × AssignOp) → Element → State → History
  | none, e, s => running plan invoke inner e s
  | some _, e, s => runningAssigned plan inner e s

/-- The check of a grammar has found no fault in an element that is run in this way. -/
def PartChecked (plan : Plan) (inData : Bool) : Option (String × AssignOp) → Element → Prop
  | none, e => e.fault? plan.grammar.rules plan.grammar.types inData = none
  | some _, e => e.assignedFault? plan.grammar.rules plan.grammar.types = none

theorem fault?_of_mem {rules : Array Rule} {types : TypeHierarchy} {inData : Bool}
    (checked : Element.listFault? rules types inData items = none) (mem : e ∈ items) :
    e.fault? rules types inData = none := by
  induction items with
  | nil => cases mem
  | cons first rest ih =>
    rw [Element.listFault?, Option.or_eq_none_iff] at checked
    rcases List.mem_cons.1 mem with rfl | mem
    · exact checked.1
    · exact ih checked.2 mem

theorem assignedFault?_of_mem {rules : Array Rule} {types : TypeHierarchy}
    (checked : Element.assignedListFault? rules types items = none) (mem : e ∈ items) :
    e.assignedFault? rules types = none := by
  induction items with
  | nil => cases mem
  | cons first rest ih =>
    rw [Element.assignedListFault?, Option.or_eq_none_iff] at checked
    rcases List.mem_cons.1 mem with rfl | mem
    · exact checked.1
    · exact ih checked.2 mem

/-- All that is run in a checked body is checked. -/
theorem Part.checked {inData : Bool} (checked : body.fault? plan.grammar.rules plan.grammar.types inData = none)
    {target : Option (String × AssignOp)} (part : Part body target e) : PartChecked plan inData target e := by
  induction part with
  | body => exact checked
  | item _ mem ih =>
    rw [PartChecked, Element.fault?] at ih
    exact fault?_of_mem ih mem
  | @alternative target items e _ mem ih =>
    cases target with
    | none =>
      rw [PartChecked, Element.fault?] at ih
      split at ih
      · cases ih
      · exact fault?_of_mem ih mem
    | some assignment =>
      rw [PartChecked, Element.assignedFault?] at ih
      split at ih
      · cases ih
      · exact assignedFault?_of_mem ih mem
  | turn _ ih =>
    rw [PartChecked, Element.fault?] at ih
    exact ih
  | value _ ih =>
    rw [PartChecked, Element.fault?] at ih
    split at ih
    · cases ih
    · exact ih

theorem recounts_runPart (tells : Chronicles invoke inner) (target : Option (String × AssignOp)) (e : Element)
    (s : State) :
    Recounts s (runPart plan invoke target e s) (runningPart plan invoke inner target e s) := by
  cases target with
  | none => exact recounts_run tells e s
  | some assignment => exact recounts_runAssigned tells assignment.1 assignment.2 e s

theorem prompt_runPart (exact : plan.lookahead = Lookahead.of plan.grammar) (tells : Chronicles invoke inner)
    (prompts : Prompts plan inner) {inData : Bool} {target : Option (String × AssignOp)}
    (checked : PartChecked plan inData target e) (s : State) :
    Prompt plan e s (runningPart plan invoke inner target e s) := by
  cases target with
  | none => exact prompt_run exact tells prompts e s checked
  | some assignment => exact prompt_runAssigned exact prompts e s checked

end Interpreter

namespace Parser

open Interpreter

/-- **What is predicted makes progress.** Take any parser and any element of a rule body, inside or outside of
an assignment, and run it in any state, with any room for nested rules. The history of the run accounts for
all tokens taken and errors recorded, for a failure and for the limit. If the element goes on with the next
token, then the first that happens is that this token is taken, before any error or failure, unless the first
is that an invocation is refused since rules are nested too deeply. And wherever in the run a repetition that
could start is left because its turn took no token, the limit was met before. -/
theorem takes_of_predicts (p : Parser) (lexed : LexResult) {id : RuleId} {body : Element}
    (known : p.grammar.body? id = some body) {target : Option (String × AssignOp)} {e : Element}
    (part : Part body target e) (depth : Nat) (s : State) :
    let plan := p.planFor lexed
    let out := runPart plan (Interpreter.invoke plan depth) target e s
    let history := runningPart plan (Interpreter.invoke plan depth) (invoking plan depth) target e s
    Recounts s out history ∧
      (s.stream.peek?.any (p.lookahead.predicts e) = true →
        history.head? = some .take ∧ out.state.stream.count < s.stream.count ∨
          history.head? = some .limit) ∧
      ∀ before after, history = before ++ .idle :: after → .limit ∈ before := by
  intro plan out history
  have exact : plan.lookahead = Lookahead.of plan.grammar := p.lookahead_eq
  obtain ⟨inData, checked⟩ := checked_of_body? (show plan.grammar.body? id = some body from known)
  have tells := chronicles_invoke plan depth
  have told : Recounts s out history := recounts_runPart tells target e s
  have prompt : Prompt plan e s history :=
    prompt_runPart exact tells (prompts_invoking exact depth) (part.checked checked) s
  refine ⟨told, fun predicted => ?_, prompt.excused⟩
  rcases prompt.ahead (ready_iff_ahead.1 predicted) with takes | met
  · exact .inl ⟨takes, told.toRetells.count_lt (List.mem_of_head? takes)⟩
  · exact .inr met

/-- The members of a class. -/
def members : Element :=
  .repetition .zeroOrMore (.assign "members" .append (.call DomainModel.propertyRule))

/-- A member with no mark in front of its name, and the end of a class. -/
def oneMember : LexResult := Lexer.tokenize DomainModel.grammar.keywords "size : Int \x7d"

/-- A member goes on with its name, behind the mark that it does not have. Where its rule may be invoked, the
name is taken first. Where no rule may be, the repetition is left idle, behind the limit. -/
theorem takes_of_predicts_members :
    let p := DomainModel.parser {}
    let plan := p.planFor oneMember
    let start := p.opened oneMember
    let history := fun depth =>
      running plan (Interpreter.invoke plan depth) (invoking plan depth) members start
    start.stream.peek?.any (p.lookahead.predicts members) = true ∧
      (history 2).head? = some .take ∧
      (run plan (Interpreter.invoke plan 2) members start).state.stream.count < start.stream.count ∧
      history 0 = [.limit, .error (.tooDeep 512), .idle] := by
  intro p plan start history
  have predicted : start.stream.peek?.any (p.lookahead.predicts members) = true := by decide +kernel
  have unmet : (history 2).head? ≠ some .limit := by decide +kernel
  obtain ⟨-, first, -⟩ :=
    takes_of_predicts p oneMember (show p.grammar.body? DomainModel.classRule = some _ from rfl)
      (.item .body (show members ∈ _ by simp [members])) 2 start
  obtain ⟨takes, less⟩ := (first predicted).resolve_right unmet
  exact ⟨predicted, takes, less, by decide +kernel⟩

end Parser

end Workbench
