import Workbench.Proofs.Parser.Alike
import Workbench.Proofs.Parser.Sentences
import Workbench.Proofs.Parser.WellFormed

/-!
**White space and comments leave no trace in a tree.**

Two lists of tokens with the same visible kinds and images are parsed to the same nodes, references and
errors; only the places in the text differ. The parser runs on both lists side by side, and the states of
the two runs stay alike through every element, every invocation and every way to recover from an error.
-/

namespace Workbench

/-! ### Runs side by side -/

structure Outcome.Alike (a b : Outcome) : Prop where
  state : a.state.Alike b.state
  stuck : a.stuck = b.stuck

structure Invoked.Alike (a b : Invoked) : Prop where
  state : a.state.Alike b.state
  tree : a.tree.toList = [] ↔ b.tree.toList = []
  value : a.value = b.value

namespace Interpreter

variable {plan : Plan} {stop : Nat} {invoke invoke' : Invocation} {s t : State}

theorem ready_alike (h : s.Alike t) (e : Element) :
    ready plan e s = ready (plan.endingAt stop) e t :=
  State.any_of_reading (fun same => Lookahead.predicts_of_reading same plan.lookahead e) h.peek?

theorem choose_alike (h : s.Alike t) (items : List Element) :
    choose plan items s = choose (plan.endingAt stop) items t := by
  have same : (fun e => ready plan e s) = fun e => ready (plan.endingAt stop) e t :=
    funext fun e => ready_alike h e
  unfold choose
  rw [same]
  rfl

/-- Runs that keep states alike. -/
def Parallel (body body' : State → Outcome) : Prop :=
  ∀ {s t : State}, s.Alike t → (body s).Alike (body' t)

theorem alike_turns {canStart canStart' : State → Bool} {body body' : State → Outcome}
    (starts : ∀ {s t : State}, s.Alike t → canStart s = canStart' t) (bodies : Parallel body body')
    (fuel : Nat) (h : s.Alike t) :
    (turns plan canStart body fuel s).Alike (turns (plan.endingAt stop) canStart' body' fuel t) := by
  induction fuel generalizing s t with
  | zero => exact ⟨h, rfl⟩
  | succ fuel ih =>
    have ran := bodies h
    rw [turns, turns]
    dsimp only
    rw [starts h, ran.stuck, ran.state.count, h.count]
    split
    · split
      · split
        · exact ih (ran.state.report plan stop _)
        · exact ran
      · split
        · exact ih ran.state
        · exact ran
    · exact ⟨h, rfl⟩

theorem alike_repeated {canStart canStart' : State → Bool} {body body' : State → Outcome}
    (starts : ∀ {s t : State}, s.Alike t → canStart s = canStart' t) (bodies : Parallel body body')
    (cardinality : Cardinality) (h : s.Alike t) :
    (repeated plan cardinality canStart body s).Alike
      (repeated (plan.endingAt stop) cardinality canStart' body' t) := by
  have ran := bodies h
  unfold repeated
  cases cardinality with
  | optional =>
    dsimp only
    rw [starts h]
    split
    · exact ran
    · exact ⟨h, rfl⟩
  | zeroOrMore =>
    dsimp only
    rw [h.count]
    exact alike_turns starts bodies _ h
  | oneOrMore =>
    dsimp only
    rw [ran.stuck, ran.state.count, h.count]
    split
    · exact ran
    · split
      · exact alike_turns starts bodies _ ran.state
      · exact ran

/-! ### Calls -/

/-- Invocations that keep states alike. -/
def Invocation.Parallel (invoke invoke' : Invocation) : Prop :=
  ∀ (id : RuleId) (feature : Option String) {s t : State}, s.Alike t →
    (invoke id feature s).Alike (invoke' id feature t)

@[simp] theorem grammar_endingAt (plan : Plan) (stop : Nat) :
    (plan.endingAt stop).grammar = plan.grammar := rfl

@[simp] theorem lookahead_endingAt (plan : Plan) (stop : Nat) :
    (plan.endingAt stop).lookahead = plan.lookahead := rfl

theorem alike_expectKind (plan : Plan) (stop : Nat) (h : s.Alike t) (kind : TokenKind) (rule : String) (feature : Option String) :
    (s.expectKind plan kind rule feature).1.Alike (t.expectKind (plan.endingAt stop) kind rule feature).1 ∧
      (s.expectKind plan kind rule feature).2.map (·.image) =
        (t.expectKind (plan.endingAt stop) kind rule feature).2.map (·.image) := by
  obtain ⟨alike, same⟩ := h.expect plan stop (fun t => t.kind == kind)
    (fun same => by rw [Token.kind_of_reading same]) (.missingToken rule) feature
  refine ⟨alike, ?_⟩
  simpa [State.expectKind, Function.comp_def, Token.reading] using congrArg (Option.map Prod.snd) same

theorem alike_expectKeyword (plan : Plan) (stop : Nat) (h : s.Alike t) (text : String) (feature : Option String) :
    (s.expectKeyword plan text feature).1.Alike (t.expectKeyword (plan.endingAt stop) text feature).1 ∧
      (s.expectKeyword plan text feature).2.isSome =
        (t.expectKeyword (plan.endingAt stop) text feature).2.isSome := by
  obtain ⟨alike, same⟩ := h.expect plan stop (·.isKeyword text)
    (fun same => Token.isKeyword_of_reading same text) (.missingKeyword text) feature
  refine ⟨alike, ?_⟩
  simpa [State.expectKeyword] using congrArg Option.isSome same

theorem alike_call (both : Invocation.Parallel invoke invoke') (id : RuleId)
    (target : Option (String × AssignOp)) (h : s.Alike t) :
    (call plan invoke id target s).Alike (call (plan.endingAt stop) invoke' id target t) := by
  have out := both id (target.map (·.1)) h
  unfold call
  rw [grammar_endingAt]
  cases plan.grammar.rules[id]? with
  | none => exact h.note _
  | some rule =>
    dsimp only
    split
    · next token value _ =>
      have taken := alike_expectKind plan stop h token rule.name (target.map (·.1))
      generalize s.expectKind plan token rule.name (target.map (·.1)) = left at taken
      generalize t.expectKind (plan.endingAt stop) token rule.name (target.map (·.1)) = right at taken
      obtain ⟨s', token⟩ := left
      obtain ⟨t', token'⟩ := right
      obtain ⟨alike, same⟩ := taken
      cases token with
      | none =>
        obtain rfl : token' = none := by simpa using same
        exact alike
      | some a =>
        obtain ⟨b, rfl, image⟩ := Option.map_eq_some_iff.1 same.symm
        cases target with
        | none =>
          dsimp only
          rw [image]
          exact alike.collect _
        | some target =>
          dsimp only
          rw [image]
          exact alike.assign _ _ _
    · rw [out.value]
      split
      · exact out.state.attach out.tree
      · exact (out.state.attach out.tree).assign _ _ _
      · exact (out.state.attach out.tree).assign _ _ _
      · exact (out.state.attach (by simpa using out.tree)).adopt _
      · exact (out.state.attach out.tree).collect _

theorem alike_crossReference (both : Invocation.Parallel invoke invoke') (feature : String)
    (op : AssignOp) (target : TypeId) (id : RuleId) (h : s.Alike t) :
    (crossReference plan invoke feature op target id s).Alike
      (crossReference (plan.endingAt stop) invoke' feature op target id t) := by
  have out := both id (some feature) h
  unfold crossReference
  rw [grammar_endingAt]
  cases plan.grammar.rules[id]? with
  | none => exact h.note _
  | some rule =>
    dsimp only
    split
    · next token value _ =>
      have taken := alike_expectKind plan stop h token rule.name (some feature)
      generalize s.expectKind plan token rule.name (some feature) = left at taken
      generalize t.expectKind (plan.endingAt stop) token rule.name (some feature) = right at taken
      obtain ⟨s', token⟩ := left
      obtain ⟨t', token'⟩ := right
      obtain ⟨alike, same⟩ := taken
      cases token with
      | none =>
        obtain rfl : token' = none := by simpa using same
        exact alike
      | some a =>
        obtain ⟨b, rfl, image⟩ := Option.map_eq_some_iff.1 same.symm
        dsimp only
        rw [image]
        exact alike.makeReference _ _ _ _ _ _
    · have attached := out.state.attach out.tree
      have trees := out.tree
      rw [out.value]
      cases left : (invoke id (some feature) s).tree with
      | none =>
        have right : (invoke' id (some feature) t).tree = none := by
          simpa [left] using trees
        rw [left, right] at attached
        rw [right]
        split
        · next taken => cases taken
        · exact attached.note _
        · exact attached
      | some tree =>
        obtain ⟨tree', right⟩ : ∃ tree', (invoke' id (some feature) t).tree = some tree' := by
          rw [← Option.ne_none_iff_exists']
          simpa [left] using trees
        rw [left, right] at attached
        rw [right]
        cases (invoke' id (some feature) t).value with
        | none => exact attached
        | some value =>
          cases value with
          | node n => exact attached.note _
          | value v => exact attached.makeReference _ _ _ _ _ _

/-! ### Elements -/

mutual

theorem alike_run (both : Invocation.Parallel invoke invoke') :
    ∀ (e : Element) {s t : State}, s.Alike t →
      (run plan invoke e s).Alike (run (plan.endingAt stop) invoke' e t)
  | .keyword text, s, t, h => by
    obtain ⟨alike, same⟩ := alike_expectKeyword plan stop h text none
    rw [run, run]
    refine ⟨?_, rfl⟩
    dsimp only
    rw [same]
    split
    · exact alike.collect text
    · exact alike
  | .call id, s, t, h => by
    rw [run, run]
    exact ⟨alike_call both id none h, rfl⟩
  | .assign feature op value, s, t, h => by
    rw [run, run]
    exact alike_runAssigned both feature op value h
  | .crossRef _ _, s, t, h => by
    rw [run, run]
    exact ⟨h.note _, rfl⟩
  | .action type none, s, t, h => by
    rw [run, run]
    exact ⟨h.retag type, rfl⟩
  | .action type (some (feature, op)), s, t, h => by
    rw [run, run]
    exact ⟨h.wrap plan stop type feature op, rfl⟩
  | .group items, s, t, h => by
    rw [run, run]
    exact alike_runAll both items h
  | .alternatives items, s, t, h => by
    rw [run, run, ← choose_alike h, lookahead_endingAt]
    split
    · exact alike_runNth both items _ h
    · exact ⟨h, rfl⟩
  | .repetition cardinality item, s, t, h => by
    rw [run, run]
    exact alike_repeated (fun same => ready_alike same item) (fun same => alike_run both item same)
      cardinality h

theorem alike_runAll (both : Invocation.Parallel invoke invoke') :
    ∀ (items : List Element) {s t : State}, s.Alike t →
      (runAll plan invoke items s).Alike (runAll (plan.endingAt stop) invoke' items t)
  | [], s, t, h => by
    rw [runAll, runAll]
    exact ⟨h, rfl⟩
  | item :: rest, s, t, h => by
    have ran : (run plan invoke item s).Alike (run (plan.endingAt stop) invoke' item t) :=
      alike_run both item h
    rw [runAll, runAll, ran.stuck]
    split
    · exact ran
    · exact alike_runAll both rest ran.state

theorem alike_runNth (both : Invocation.Parallel invoke invoke') :
    ∀ (items : List Element) (i : Nat) {s t : State}, s.Alike t →
      (runNth plan invoke items i s).Alike (runNth (plan.endingAt stop) invoke' items i t)
  | [], _, s, t, h => by
    rw [runNth, runNth]
    exact ⟨h, rfl⟩
  | item :: _, 0, s, t, h => by
    rw [runNth, runNth]
    exact alike_run both item h
  | _ :: rest, i + 1, s, t, h => by
    rw [runNth, runNth]
    exact alike_runNth both rest i h

theorem alike_runAssigned (both : Invocation.Parallel invoke invoke') (feature : String)
    (op : AssignOp) : ∀ (e : Element) {s t : State}, s.Alike t →
      (runAssigned plan invoke feature op e s).Alike
        (runAssigned (plan.endingAt stop) invoke' feature op e t)
  | .keyword text, s, t, h => by
    obtain ⟨alike, same⟩ := alike_expectKeyword plan stop h text (some feature)
    rw [runAssigned, runAssigned]
    refine ⟨?_, rfl⟩
    dsimp only
    rw [same]
    split
    · exact alike.assign feature op _
    · exact alike
  | .call id, s, t, h => by
    rw [runAssigned, runAssigned]
    exact ⟨alike_call both id _ h, rfl⟩
  | .crossRef target id, s, t, h => by
    rw [runAssigned, runAssigned]
    exact ⟨alike_crossReference both feature op target id h, rfl⟩
  | .alternatives items, s, t, h => by
    rw [runAssigned, runAssigned, ← choose_alike h, lookahead_endingAt]
    split
    · exact alike_runAssignedNth both feature op items _ h
    · exact ⟨h, rfl⟩
  | .assign .., s, t, h => by
    simp only [runAssigned]
    exact ⟨h.note _, rfl⟩
  | .action .., s, t, h => by
    simp only [runAssigned]
    exact ⟨h.note _, rfl⟩
  | .group _, s, t, h => by
    simp only [runAssigned]
    exact ⟨h.note _, rfl⟩
  | .repetition .., s, t, h => by
    simp only [runAssigned]
    exact ⟨h.note _, rfl⟩

theorem alike_runAssignedNth (both : Invocation.Parallel invoke invoke') (feature : String)
    (op : AssignOp) : ∀ (items : List Element) (i : Nat) {s t : State}, s.Alike t →
      (runAssignedNth plan invoke feature op items i s).Alike
        (runAssignedNth (plan.endingAt stop) invoke' feature op items i t)
  | [], _, s, t, h => by
    rw [runAssignedNth, runAssignedNth]
    exact ⟨h, rfl⟩
  | item :: _, 0, s, t, h => by
    rw [runAssignedNth, runAssignedNth]
    exact alike_runAssigned both feature op item h
  | _ :: rest, i + 1, s, t, h => by
    rw [runAssignedNth, runAssignedNth]
    exact alike_runAssignedNth both feature op rest i h

end

theorem alike_runReported (both : Invocation.Parallel invoke invoke') (e : Element) (h : s.Alike t) :
    (runReported plan invoke e s).Alike (runReported (plan.endingAt stop) invoke' e t) := by
  have ran : (run plan invoke e s).Alike (run (plan.endingAt stop) invoke' e t) := alike_run both e h
  unfold runReported
  dsimp only
  rw [ran.stuck]
  split
  · exact ran.state.report plan stop _
  · exact ran.state

/-! ### Rules and documents -/

theorem alike_leave (id : RuleId) (kind : RuleKind) (feature : Option String) (offset offset' : Nat)
    {caller caller' : Frame} (callers : caller.Alike caller') (h : s.Alike t) :
    (leave plan id kind feature offset caller s).Alike
      (leave (plan.endingAt stop) id kind feature offset' caller' t) := by
  have back := h.withFrame callers
  have empty : s.frame.children.isEmpty = t.frame.children.isEmpty := by
    rw [Bool.eq_iff_iff, Array.isEmpty_iff, Array.isEmpty_iff]
    exact h.frame.children
  unfold leave
  dsimp only
  rw [empty, h.frame.content]
  split
  · exact ⟨back, .rfl, rfl⟩
  · split
    · next o _ =>
      obtain ⟨alike, same⟩ := back.constructObject plan stop o
        (some (SourceTree.close id feature offset s.frame.children.toList))
        (some (SourceTree.close id feature offset' t.frame.children.toList))
      rw [same]
      split
      · exact ⟨alike, by simp, rfl⟩
      · exact ⟨alike, by simp, rfl⟩
    · exact ⟨back, by simp, rfl⟩
    · exact ⟨back, by simp, rfl⟩

theorem alike_enter (h : s.Alike t) (id : RuleId) (kind : RuleKind) :
    State.Alike { s with frame := Frame.enter id kind } { t with frame := Frame.enter id kind } :=
  h.withFrame ⟨rfl, rfl, .rfl⟩

theorem parallel_invoke (plan : Plan) (stop depth : Nat) :
    Invocation.Parallel (Interpreter.invoke plan depth)
      (Interpreter.invoke (plan.endingAt stop) depth) := by
  induction depth with
  | zero =>
    intro id feature s t h
    rw [Interpreter.invoke, Interpreter.invoke]
    exact ⟨((h.raise plan stop _).recover true).note _, .rfl, rfl⟩
  | succ depth ih =>
    intro id feature s t h
    rw [Interpreter.invoke, Interpreter.invoke, grammar_endingAt]
    split
    · exact ⟨h.note _, .rfl, rfl⟩
    · exact alike_leave _ _ _ _ _ h.frame (alike_runReported ih _ (alike_enter h _ _))

theorem alike_skip (plan : Plan) (stop fuel : Nat) (stalled : Bool) (h : s.Alike t) :
    (skip plan fuel stalled s).Alike (skip (plan.endingAt stop) fuel stalled t) := by
  induction fuel generalizing stalled s t with
  | zero => exact h
  | succ fuel ih =>
    have same : ready plan plan.grammar.entryRule.body s =
        ready (plan.endingAt stop) plan.grammar.entryRule.body t := ready_alike h _
    rw [skip, skip, h.count, same, grammar_endingAt]
    split
    · exact h
    · exact ih false (h.consume none).1

theorem alike_runEntry (plan : Plan) (stop : Nat) (both : Invocation.Parallel invoke invoke')
    (fuel : Nat) (h : s.Alike t) :
    (runEntry plan invoke fuel s).Alike (runEntry (plan.endingAt stop) invoke' fuel t) := by
  induction fuel generalizing s t with
  | zero => exact h
  | succ fuel ih =>
    have ran : (runReported plan invoke plan.grammar.entryRule.body s).Alike
        (runReported (plan.endingAt stop) invoke' plan.grammar.entryRule.body t) :=
      alike_runReported both _ h
    have failed := ran.record plan stop .trailingInput
    rw [runEntry, runEntry]
    dsimp only
    rw [grammar_endingAt, ran.count, failed.count, h.count]
    split
    · exact ran
    · have resumed := fun count stalled => (alike_skip plan stop count stalled failed).recover false
      have left := fun count stalled => (resumed count stalled).count
      dsimp only at left
      rw [left]
      split
      · exact resumed _ _
      · exact ih (resumed _ _)

end Interpreter

/-! ### Parses -/

namespace Parser

open Interpreter

/-- The limit is on the visible tokens alone. -/
theorem cutAfter_eq (limit : Nat) (tokens : List Token) :
    (cutAfter limit tokens).1.filter Token.isVisible = (tokens.filter Token.isVisible).take limit ∧
      (cutAfter limit tokens).2 = (tokens.filter Token.isVisible)[limit]? := by
  fun_induction cutAfter limit tokens with
  | case1 => simp
  | case2 limit t rest hidden kept cut eq ih =>
    have invisible : t.isVisible = false := by simpa using hidden
    rw [eq] at ih
    simpa [invisible] using ih
  | case3 t rest shown =>
    have visible : t.isVisible = true := by simpa using shown
    simp [visible]
  | case4 t rest shown limit kept cut eq ih =>
    have visible : t.isVisible = true := by simpa using shown
    rw [eq] at ih
    simpa [visible] using ih

theorem alike_opened (p : Parser) {lexed lexed' : LexResult}
    (same : lexed.reading = lexed'.reading) :
    (p.opened lexed).Alike (p.opened lexed') := by
  obtain ⟨kept, cut⟩ := cutAfter_eq p.limits.maxTokens lexed.tokens
  obtain ⟨kept', cut'⟩ := cutAfter_eq p.limits.maxTokens lexed'.tokens
  refine ⟨?_, ⟨rfl, rfl, .rfl⟩, rfl, ?_, rfl, rfl⟩
  · change ((cutAfter _ _).1.filter Token.isVisible).map _ =
      ((cutAfter _ _).1.filter Token.isVisible).map _
    rw [kept, kept', List.map_take, List.map_take]
    exact congrArg (List.take _) same
  · have both : (cutAfter p.limits.maxTokens lexed.tokens).2.isSome =
        (cutAfter p.limits.maxTokens lexed'.tokens).2.isSome := by
      have at_limit := congrArg (fun l => l[p.limits.maxTokens]?.isSome) same
      simpa [LexResult.reading, cut, cut'] using at_limit
    unfold opened
    dsimp only
    cases left : (cutAfter p.limits.maxTokens lexed.tokens).2 with
    | none =>
      rw [left] at both
      rw [Option.isSome_eq_false_iff.1 both.symm |> Option.isNone_iff_eq_none.1]
    | some t =>
      rw [left] at both
      obtain ⟨u, right⟩ := Option.isSome_iff_exists.1 both.symm
      rw [right]
      simp [cutError, ParseError.bare]

theorem alike_ended (p : Parser) {lexed lexed' : LexResult}
    (same : lexed.reading = lexed'.reading) :
    (p.ended lexed).Alike (p.ended lexed') := by
  have opened := p.alike_opened same
  unfold ended
  rw [opened.count]
  exact alike_runEntry (p.planFor lexed) (p.planFor lexed').textEnd (parallel_invoke _ _ _) _ opened

/-- Finishing a document adds the hidden tokens at its end to the source tree, and to nothing else. So the
tree depends on the object under construction and on what has been finished. -/
theorem bare_finish (plan : Plan) (stop : Nat) {s t : State}
    (content : s.frame.content = t.frame.content) (arena : s.arena.bare = t.arena.bare) :
    (finish plan s).2.bare = (finish (plan.endingAt stop) t).2.bare := by
  have object : currentObject s.flushHidden = currentObject t.flushHidden := by
    unfold currentObject State.flushHidden State.attach
    dsimp only
    rw [content]
  have size : s.flushHidden.nodes.size = t.flushHidden.nodes.size := Arena.size_of_bare arena
  have root : (constructRoot plan s.flushHidden).2 =
      (constructRoot (plan.endingAt stop) t.flushHidden).2 := by
    unfold constructRoot
    rw [object]
    exact congrArg (Option.getD _) size
  have built : (constructRoot plan s.flushHidden).1.arena.bare =
      (constructRoot (plan.endingAt stop) t.flushHidden).1.arena.bare := by
    have flushed : s.flushHidden.arena.bare = t.flushHidden.arena.bare := arena
    unfold constructRoot
    rw [object, State.arena_construct, State.arena_construct, Arena.bare_putAll, Arena.bare_putAll,
      Arena.bare_insert, Arena.bare_insert, flushed, size]
    rfl
  rw [finish_eq, finish_eq]
  unfold Ast.bare
  exact Ast.mk.injEq .. ▸ ⟨rfl, congrArg Arena.nodes built, congrArg Arena.references built, rfl, root⟩

/-- **White space and comments do not matter.** Two lists of tokens whose visible tokens have the same
kinds and images are parsed to the same tree, up to sources, with errors that say the same. -/
theorem parse_of_reading (p : Parser) (lexed lexed' : LexResult)
    (same : lexed.reading = lexed'.reading) :
    (p.parse lexed).ast.bare = (p.parse lexed').ast.bare ∧
      (p.parse lexed).parseErrors.map ParseError.wording =
        (p.parse lexed').parseErrors.map ParseError.wording := by
  have ended := p.alike_ended same
  rw [parse_eq, parse_eq]
  refine ⟨?_, ?_⟩
  · exact bare_finish (p.planFor lexed) (p.planFor lexed').textEnd ended.frame.content ended.arena
  · have errors := congrArg (fun errors => errors.toList.map ParseError.wording) ended.errors
    have wording : ParseError.wording ∘ ParseError.bare = ParseError.wording := rfl
    simpa [errors_finish, wording] using errors

/-- A class with a point and a name too many and no end. -/
def brokenClass : LexResult :=
  Lexer.tokenize DomainModel.grammar.keywords "class A B \x7b many b : C . . D"

/-- The same with comments, and with other spaces. -/
def crowdedClass : LexResult :=
  Lexer.tokenize DomainModel.grammar.keywords "/* a */class A/**/B\x7bmany b:C.// type\n.D "

/-- Errors are found in both writings of a class, and they are the same. -/
theorem parse_crowdedClass :
    brokenClass.tokens ≠ crowdedClass.tokens ∧ brokenClass.reading = crowdedClass.reading ∧
    ((DomainModel.parser {}).parse brokenClass).parseErrors.length = 3 ∧
    ((DomainModel.parser {}).parse brokenClass).ast.bare =
      ((DomainModel.parser {}).parse crowdedClass).ast.bare ∧
    ((DomainModel.parser {}).parse brokenClass).parseErrors.map ParseError.wording =
      ((DomainModel.parser {}).parse crowdedClass).parseErrors.map ParseError.wording := by
  have same : brokenClass.reading = crowdedClass.reading := by decide +kernel
  refine ⟨by decide +kernel, same, by decide +kernel, ?_⟩
  exact parse_of_reading (DomainModel.parser {}) brokenClass crowdedClass same

end Parser

end Workbench
