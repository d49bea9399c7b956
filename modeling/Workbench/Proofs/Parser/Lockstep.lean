import Workbench.Proofs.Parser.Mirrors
import Workbench.Proofs.Parser.Safety
import Workbench.Proofs.Parser.Sentences
import Workbench.Proofs.Parser.WellFormed

/-!
**The parser on its arenas follows the interpreter.**

Every step keeps the mirror image, so a run of an element, of a rule and of a whole document keeps it: by
recursion over the elements of a rule body, for invocations that keep it, and then by induction on the depth
that is still allowed. In the end, the arenas hold the nodes, the references and the errors of the parse, and
the concrete tree shows its source tree.
-/

namespace Workbench

namespace Engine

open Cst State Interpreter

/-- What comes of an element on both sides. -/
structure Matched (opened : List Opened) (below : List Frame) (out : Workbench.Outcome) (out' : Outcome) :
    Prop where
  mirrors : Mirrors opened below out.state out'.run
  stuck : out'.stuck = out.stuck

/-- Invocations on the arenas follow those of the interpreter, below a number of callers. -/
def Follows (invoke : Workbench.Invocation) (invoke' : Invocation) (height : Nat) : Prop :=
  ∀ {o : Opened} {opened : List Opened} {below : List Frame} {s : State} {r : Run},
    below.length = height → Mirrors (o :: opened) below s r → ∀ id feature,
      ¬ Astray (invoke id feature s).state →
        Returned (o :: opened) below (invoke id feature s) (invoke' id feature r)

variable {plan : Plan} {o : Opened} {opened : List Opened} {below : List Frame} {s t : State} {r : Run}

theorem straight_of_reaches (straight : ¬ Astray t) (reached : Reaches plan s t) : ¬ Astray s :=
  fun astray => straight (reached.subset_incidents astray)

/-! ### Choices and repetitions -/

theorem Mirrors.ready (h : Mirrors (o :: opened) below s r) (e : Element) :
    ready plan e r = Interpreter.ready plan e s := by
  unfold Engine.ready Interpreter.ready
  rw [h.stream]

theorem Mirrors.choose (h : Mirrors (o :: opened) below s r) (items : List Element) :
    choose plan items r = Interpreter.choose plan items s := by
  unfold Engine.choose Interpreter.choose
  simp only [h.ready]

section Loops

variable {canStart : State → Bool} {canStart' : Run → Bool} {body : State → Workbench.Outcome}
  {body' : Run → Outcome}
  (sameStart : ∀ {s r}, Mirrors (o :: opened) below s r → canStart' r = canStart s)
  (reaches : ∀ s, Reaches plan s (body s).state)
  (matched : ∀ {s r}, Mirrors (o :: opened) below s r → ¬ Astray (body s).state →
    Matched (o :: opened) below (body s) (body' r))

include sameStart reaches matched

theorem matched_turns (fuel : Nat) (h : Mirrors (o :: opened) below s r)
    (straight : ¬ Astray (Interpreter.turns plan canStart body fuel s).state) :
    Matched (o :: opened) below (Interpreter.turns plan canStart body fuel s)
      (turns plan canStart' body' fuel r) := by
  induction fuel generalizing s r with
  | zero => exact ⟨h, rfl⟩
  | succ fuel ih =>
    unfold Interpreter.turns at straight ⊢
    unfold Engine.turns
    rw [sameStart h]
    dsimp only at straight ⊢
    split
    · next can =>
      rw [if_pos can] at straight
      have turn : ¬ Astray (body s).state := by
        refine straight_of_reaches straight (?_ : Reaches plan _ _)
        split
        · split
          · exact (reaches_report _).trans (reaches_turns reaches _ _)
          · exact .refl
        · split
          · exact reaches_turns reaches _ _
          · exact .refl
      obtain ⟨mirrors, stuck⟩ := matched h turn
      rw [stuck, mirrors.stream, h.stream]
      cases isStuck : (body s).stuck with
      | none =>
        rw [isStuck] at straight
        dsimp only at straight ⊢
        split
        · next progress => exact ih mirrors (by rwa [if_pos progress] at straight)
        · exact ⟨mirrors, stuck⟩
      | some expected =>
        rw [isStuck] at straight
        dsimp only at straight ⊢
        split
        · next progress => exact ih (mirrors.report expected) (by rwa [if_pos progress] at straight)
        · exact ⟨mirrors, stuck⟩
    · exact ⟨h, rfl⟩

theorem matched_repeated (cardinality : Cardinality) (h : Mirrors (o :: opened) below s r)
    (straight : ¬ Astray (Interpreter.repeated plan cardinality canStart body s).state) :
    Matched (o :: opened) below (Interpreter.repeated plan cardinality canStart body s)
      (repeated plan cardinality canStart' body' r) := by
  cases cardinality with
  | optional =>
    unfold Interpreter.repeated at straight ⊢
    unfold Engine.repeated
    rw [sameStart h]
    dsimp only at straight ⊢
    split
    · next can => exact matched h (by rwa [if_pos can] at straight)
    · exact ⟨h, rfl⟩
  | zeroOrMore =>
    have turned := matched_turns sameStart reaches matched s.stream.count h straight
    have count : r.stream.count = s.stream.count := by rw [h.stream]
    unfold Engine.repeated
    dsimp only
    rw [count]
    exact turned
  | oneOrMore =>
    unfold Interpreter.repeated at straight ⊢
    unfold Engine.repeated
    dsimp only at straight ⊢
    have turn : ¬ Astray (body s).state := by
      refine straight_of_reaches straight (?_ : Reaches plan _ _)
      split
      · exact .refl
      · split
        · exact reaches_turns reaches _ _
        · exact .refl
    obtain ⟨mirrors, stuck⟩ := matched h turn
    rw [stuck, mirrors.stream, h.stream]
    split
    · exact ⟨mirrors, stuck⟩
    · next going =>
      split
      · next progress =>
        refine matched_turns sameStart reaches matched _ mirrors ?_
        rwa [if_neg going, if_pos progress] at straight
      · exact ⟨mirrors, stuck⟩

end Loops

/-! ### Calls -/

/-- What a caller makes of an invocation. -/
def land (target : Option (String × AssignOp)) (out : Invoked) : State :=
  match out.value, target with
  | none, _ => out.state.attach out.tree.toList
  | some (.node n), some (feature, op) => (out.state.attach out.tree.toList).assign feature op (.node n)
  | some (.value v), some (feature, op) => (out.state.attach out.tree.toList).assign feature op v
  | some (.node n), none => (out.state.attach (out.tree.toList.map (·.withOwner none))).adopt n
  | some (.value v), none => (out.state.attach out.tree.toList).collect v.asText

/-- What a caller makes of an invocation on the arenas. -/
def Run.land (target : Option (String × AssignOp)) (result : Option (RuleValue × CstId)) (r : Run) : Run :=
  match result, target with
  | none, _ => r
  | some (.node n, _), some (feature, op) => r.assign feature op (.node n)
  | some (.value v, _), some (feature, op) => r.assign feature op v
  | some (.node n, _), none => r.adopt n
  | some (.value v, _), none => r.collect v.asText

theorem straight_of_land {out : Invoked} {target : Option (String × AssignOp)}
    (straight : ¬ Astray (land target out)) : ¬ Astray out.state := by
  refine fun astray => straight ?_
  have attached : Astray (out.state.attach out.tree.toList) := astray
  unfold Engine.land
  split
  · exact attached
  · exact subset_incidents_assign _ _ _ attached
  · exact subset_incidents_assign _ _ _ attached
  · exact subset_incidents_adopt (s := out.state.attach _) _ astray
  · unfold Astray
    rwa [incidents_collect]

theorem Returned.land {out : Invoked} {back : Run × Option (RuleValue × CstId)}
    (h : Returned (o :: opened) below out back) (target : Option (String × AssignOp))
    (straight : ¬ Astray (land target out)) :
    Mirrors (o :: opened) below (land target out) (back.1.land target back.2) := by
  obtain ⟨mirrors, value, handed⟩ := h
  obtain ⟨r, result⟩ := back
  unfold Engine.land at straight ⊢
  rw [value] at straight ⊢
  cases result with
  | none => exact mirrors
  | some result =>
    obtain ⟨v, c⟩ := result
    cases target with
    | some target =>
      cases v with
      | value v => exact mirrors.assign _ _ _
      | node n => exact mirrors.assign _ _ _
    | none =>
      cases v with
      | value v => exact mirrors.collect _
      | node n =>
        obtain ⟨t, tree, owner, hands⟩ := handed _ c rfl
        dsimp only [Option.map_some] at straight ⊢
        rw [tree] at straight ⊢
        exact Mirrors.adopt hands owner straight

/-- What a cross-reference makes of an invocation. -/
def cite (feature : String) (op : AssignOp) (target : TypeId) (out : Invoked) : State :=
  match out.value, out.tree with
  | some (.value v), some tree =>
    Interpreter.makeReference feature op target v.asText tree (out.state.attach out.tree.toList)
  | some (.node _), _ => (out.state.attach out.tree.toList).note .nodeAsReferenceText
  | _, _ => out.state.attach out.tree.toList

/-- What a cross-reference makes of an invocation on the arenas. -/
def Run.cite (feature : String) (op : AssignOp) (target : TypeId) (result : Option (RuleValue × CstId))
    (r : Run) : Run :=
  match result with
  | some (.value v, composite) => makeReference feature op target v.asText composite r
  | _ => r

theorem straight_of_cite {out : Invoked} {feature : String} {op : AssignOp} {target : TypeId}
    (straight : ¬ Astray (cite feature op target out)) : ¬ Astray out.state := by
  refine fun astray => straight ?_
  have attached : Astray (out.state.attach out.tree.toList) := astray
  unfold Engine.cite
  split
  · exact subset_incidents_makeReference _ _ _ _ _ attached
  · exact subset_incidents_note _ attached
  · exact attached

theorem Returned.cite {out : Invoked} {back : Run × Option (RuleValue × CstId)}
    (h : Returned (o :: opened) below out back) (feature : String) (op : AssignOp) (target : TypeId) :
    Mirrors (o :: opened) below (cite feature op target out) (back.1.cite feature op target back.2) := by
  obtain ⟨mirrors, value, handed⟩ := h
  obtain ⟨r, result⟩ := back
  unfold Engine.cite
  rw [value]
  cases result with
  | none => exact mirrors
  | some result =>
    obtain ⟨v, c⟩ := result
    obtain ⟨t, tree, owner, hands⟩ := handed v c rfl
    rw [tree]
    cases v with
    | value v => exact Mirrors.makeReference hands owner _ _ _ _
    | node n => exact hands.toMirrors.note nofun

section Elements

variable {invoke : Workbench.Invocation} {invoke' : Invocation}

section Calls

variable (follows : Follows invoke invoke' below.length)

include follows

theorem matched_call (id : RuleId) (target : Option (String × AssignOp)) (h : Mirrors (o :: opened) below s r)
    (straight : ¬ Astray (Interpreter.call plan invoke id target s)) :
    Mirrors (o :: opened) below (Interpreter.call plan invoke id target s) (call plan invoke' id target r) := by
  unfold Interpreter.call at straight ⊢
  unfold Engine.call
  cases known : plan.grammar.rules[id]? with
  | none => exact h.note nofun
  | some rule =>
    rw [known] at straight
    dsimp only at straight ⊢
    cases kind : rule.kind with
    | terminal token value =>
      have taken : Taken (o :: opened) below (target.map (·.1))
          (s.expectKind plan token rule.name (target.map (·.1)))
          (r.expectKind plan token rule.name (target.map (·.1))) := h.expect _ _ _
      dsimp only
      obtain ⟨mirrors, same, -⟩ := taken
      rw [same]
      cases (r.expectKind plan token rule.name (target.map (·.1))).2 with
      | none => exact mirrors
      | some found =>
        cases target with
        | none => exact mirrors.collect _
        | some target => exact mirrors.assign _ _ _
    | parser returns =>
      rw [kind] at straight
      exact (follows rfl h id _ (straight_of_land straight)).land target straight
    | dataType value =>
      rw [kind] at straight
      exact (follows rfl h id _ (straight_of_land straight)).land target straight

theorem matched_crossReference (feature : String) (op : AssignOp) (target : TypeId) (id : RuleId)
    (h : Mirrors (o :: opened) below s r)
    (straight : ¬ Astray (Interpreter.crossReference plan invoke feature op target id s)) :
    Mirrors (o :: opened) below (Interpreter.crossReference plan invoke feature op target id s)
      (crossReference plan invoke' feature op target id r) := by
  unfold Interpreter.crossReference at straight ⊢
  unfold Engine.crossReference
  cases known : plan.grammar.rules[id]? with
  | none => exact h.note nofun
  | some rule =>
    rw [known] at straight
    dsimp only at straight ⊢
    cases kind : rule.kind with
    | terminal token value =>
      have taken : Taken (o :: opened) below (some feature)
          (s.expectKind plan token rule.name (some feature))
          (r.expectKind plan token rule.name (some feature)) := h.expect _ _ _
      dsimp only
      obtain ⟨mirrors, same, handed⟩ := taken
      rw [same]
      generalize r.expectKind plan token rule.name (some feature) = out at *
      obtain ⟨r, found⟩ := out
      cases found with
      | none => exact mirrors
      | some found =>
        obtain ⟨t, leaf⟩ := found
        exact Mirrors.makeReference (handed t leaf rfl) rfl _ _ _ _
    | parser returns =>
      rw [kind] at straight
      exact (follows rfl h id _ (straight_of_cite straight)).cite _ _ _
    | dataType value =>
      rw [kind] at straight
      exact (follows rfl h id _ (straight_of_cite straight)).cite _ _ _

end Calls

mutual

/-- **A run of an element keeps the mirror image.** -/
theorem matched_run (hinvoke : Proper plan invoke) (follows : Follows invoke invoke' below.length) :
    ∀ (e : Element) {s : State} {r : Run}, Mirrors (o :: opened) below s r →
    ¬ Astray (Interpreter.run plan invoke e s).state →
    Matched (o :: opened) below (Interpreter.run plan invoke e s) (run plan invoke' e r)
  | .keyword text, s, r, h, straight => by
    have taken : Taken (o :: opened) below none (s.expectKeyword plan text none)
        (r.expectKeyword plan text none) := h.expect _ _ _
    obtain ⟨mirrors, same, -⟩ := taken
    rw [Interpreter.run, Engine.run]
    dsimp only
    rw [same, Option.isSome_map]
    refine ⟨?_, rfl⟩
    dsimp only
    split
    · exact mirrors.collect _
    · exact mirrors
  | .call id, s, r, h, straight => by
    rw [Interpreter.run] at straight ⊢
    rw [Engine.run]
    exact ⟨matched_call follows id none h straight, rfl⟩
  | .assign feature op value, s, r, h, straight => by
    rw [Interpreter.run] at straight ⊢
    rw [Engine.run]
    exact matched_runAssigned hinvoke follows feature op value h straight
  | .crossRef _ _, s, r, h, straight => by
    rw [Interpreter.run, Engine.run]
    exact ⟨h.note nofun, rfl⟩
  | .action type none, s, r, h, straight => by
    rw [Interpreter.run, Engine.run]
    exact ⟨h.retag type, rfl⟩
  | .action type (some (feature, op)), s, r, h, straight => by
    rw [Interpreter.run, Engine.run]
    exact ⟨h.wrap type feature op, rfl⟩
  | .group items, s, r, h, straight => by
    rw [Interpreter.run] at straight ⊢
    rw [Engine.run]
    exact matched_runAll hinvoke follows items h straight
  | .alternatives items, s, r, h, straight => by
    rw [Interpreter.run] at straight ⊢
    rw [Engine.run, h.choose]
    cases chosen : Interpreter.choose plan items s with
    | none => exact ⟨h, rfl⟩
    | some i =>
      rw [chosen] at straight
      exact matched_runNth hinvoke follows items i h straight
  | .repetition cardinality item, s, r, h, straight => by
    rw [Interpreter.run] at straight ⊢
    rw [Engine.run]
    exact matched_repeated (fun h => h.ready item) (reaches_run hinvoke item) (matched_run hinvoke follows item)
      cardinality h straight

theorem matched_runAll (hinvoke : Proper plan invoke) (follows : Follows invoke invoke' below.length) :
    ∀ (items : List Element) {s : State} {r : Run}, Mirrors (o :: opened) below s r →
    ¬ Astray (Interpreter.runAll plan invoke items s).state →
    Matched (o :: opened) below (Interpreter.runAll plan invoke items s) (runAll plan invoke' items r)
  | [], s, r, h, straight => by
    rw [Interpreter.runAll, Engine.runAll]
    exact ⟨h, rfl⟩
  | item :: rest, s, r, h, straight => by
    have first : ¬ Astray (Interpreter.run plan invoke item s).state := by
      refine straight_of_reaches straight (?_ : Reaches plan _ _)
      rw [Interpreter.runAll]
      split
      · exact .refl
      · exact reaches_runAll hinvoke rest _
    obtain ⟨mirrors, stuck⟩ := matched_run hinvoke follows item h first
    rw [Interpreter.runAll] at straight ⊢
    rw [Engine.runAll, stuck]
    split
    · exact ⟨mirrors, stuck⟩
    · next going => exact matched_runAll hinvoke follows rest mirrors (by rwa [if_neg going] at straight)

theorem matched_runNth (hinvoke : Proper plan invoke) (follows : Follows invoke invoke' below.length) :
    ∀ (items : List Element) (i : Nat) {s : State} {r : Run},
    Mirrors (o :: opened) below s r → ¬ Astray (Interpreter.runNth plan invoke items i s).state →
    Matched (o :: opened) below (Interpreter.runNth plan invoke items i s) (runNth plan invoke' items i r)
  | [], _, s, r, h, straight => by
    rw [Interpreter.runNth, Engine.runNth]
    exact ⟨h, rfl⟩
  | item :: _, 0, s, r, h, straight => by
    rw [Interpreter.runNth] at straight ⊢
    rw [Engine.runNth]
    exact matched_run hinvoke follows item h straight
  | _ :: rest, i + 1, s, r, h, straight => by
    rw [Interpreter.runNth] at straight ⊢
    rw [Engine.runNth]
    exact matched_runNth hinvoke follows rest i h straight

theorem matched_runAssigned (hinvoke : Proper plan invoke) (follows : Follows invoke invoke' below.length)
    (feature : String) (op : AssignOp) : ∀ (e : Element) {s : State} {r : Run},
    Mirrors (o :: opened) below s r → ¬ Astray (Interpreter.runAssigned plan invoke feature op e s).state →
    Matched (o :: opened) below (Interpreter.runAssigned plan invoke feature op e s)
      (runAssigned plan invoke' feature op e r)
  | .keyword text, s, r, h, straight => by
    have taken : Taken (o :: opened) below (some feature) (s.expectKeyword plan text (some feature))
        (r.expectKeyword plan text (some feature)) := h.expect _ _ _
    obtain ⟨mirrors, same, -⟩ := taken
    rw [Interpreter.runAssigned, Engine.runAssigned]
    dsimp only
    rw [same, Option.isSome_map]
    refine ⟨?_, rfl⟩
    dsimp only
    split
    · exact mirrors.assign _ _ _
    · exact mirrors
  | .call id, s, r, h, straight => by
    rw [Interpreter.runAssigned] at straight ⊢
    rw [Engine.runAssigned]
    exact ⟨matched_call follows id _ h straight, rfl⟩
  | .crossRef target id, s, r, h, straight => by
    rw [Interpreter.runAssigned] at straight ⊢
    rw [Engine.runAssigned]
    exact ⟨matched_crossReference follows feature op target id h straight, rfl⟩
  | .alternatives items, s, r, h, straight => by
    rw [Interpreter.runAssigned] at straight ⊢
    rw [Engine.runAssigned, h.choose]
    cases chosen : Interpreter.choose plan items s with
    | none => exact ⟨h, rfl⟩
    | some i =>
      rw [chosen] at straight
      exact matched_runAssignedNth hinvoke follows feature op items i h straight
  | .assign .., s, r, h, straight => by
    simp only [Interpreter.runAssigned, Engine.runAssigned]
    exact ⟨h.note nofun, rfl⟩
  | .action .., s, r, h, straight => by
    simp only [Interpreter.runAssigned, Engine.runAssigned]
    exact ⟨h.note nofun, rfl⟩
  | .group _, s, r, h, straight => by
    simp only [Interpreter.runAssigned, Engine.runAssigned]
    exact ⟨h.note nofun, rfl⟩
  | .repetition .., s, r, h, straight => by
    simp only [Interpreter.runAssigned, Engine.runAssigned]
    exact ⟨h.note nofun, rfl⟩

theorem matched_runAssignedNth (hinvoke : Proper plan invoke) (follows : Follows invoke invoke' below.length)
    (feature : String) (op : AssignOp) : ∀ (items : List Element) (i : Nat)
    {s : State} {r : Run}, Mirrors (o :: opened) below s r →
    ¬ Astray (Interpreter.runAssignedNth plan invoke feature op items i s).state →
    Matched (o :: opened) below (Interpreter.runAssignedNth plan invoke feature op items i s)
      (runAssignedNth plan invoke' feature op items i r)
  | [], _, s, r, h, straight => by
    rw [Interpreter.runAssignedNth, Engine.runAssignedNth]
    exact ⟨h, rfl⟩
  | item :: _, 0, s, r, h, straight => by
    rw [Interpreter.runAssignedNth] at straight ⊢
    rw [Engine.runAssignedNth]
    exact matched_runAssigned hinvoke follows feature op item h straight
  | _ :: rest, i + 1, s, r, h, straight => by
    rw [Interpreter.runAssignedNth] at straight ⊢
    rw [Engine.runAssignedNth]
    exact matched_runAssignedNth hinvoke follows feature op rest i h straight

end

theorem mirrors_runReported (hinvoke : Proper plan invoke) (follows : Follows invoke invoke' below.length)
    (e : Element) (h : Mirrors (o :: opened) below s r)
    (straight : ¬ Astray (Interpreter.runReported plan invoke e s)) :
    Mirrors (o :: opened) below (Interpreter.runReported plan invoke e s) (runReported plan invoke' e r) := by
  have ran : ¬ Astray (Interpreter.run plan invoke e s).state := by
    refine straight_of_reaches straight (?_ : Reaches plan _ _)
    unfold Interpreter.runReported
    dsimp only
    split
    · exact reaches_report _
    · exact .refl
  obtain ⟨mirrors, stuck⟩ := matched_run hinvoke follows e h ran
  unfold Interpreter.runReported Engine.runReported
  dsimp only
  rw [stuck]
  cases (Interpreter.run plan invoke e s).stuck with
  | none => exact mirrors
  | some expected => exact mirrors.report expected

end Elements

/-! ### Rules and documents -/

/-- The number of rules under way is one more than that of the callers. -/
theorem Mirrors.length_rules (h : Mirrors opened below s r) : r.rules.length = below.length + 1 := by
  rw [h.rules]
  simp

/-- **Invocations keep the mirror image.** The interpreter counts the depth that is still allowed; on the
arenas, the rules under way are counted. -/
theorem follows_invoke {depth fuel height : Nat} (level : plan.limits.maxRuleDepth - (height + 1) = depth)
    (enough : depth < fuel) : Follows (Interpreter.invoke plan depth) (invoke plan fuel) height := by
  induction depth generalizing fuel height with
  | zero =>
    intro o opened below s r deep h id feature straight
    obtain ⟨fuel, rfl⟩ := Nat.exists_eq_succ_of_ne_zero (Nat.ne_of_gt enough)
    have full : plan.limits.maxRuleDepth ≤ r.rules.length := by
      rw [h.length_rules, deep]
      omega
    unfold Engine.invoke
    rw [if_pos full]
    rw [Interpreter.invoke]
    have harmless : Incident.depthLimit ≠ .adoptionOutsideObject := by rintro ⟨⟩
    exact .nothing (((h.raise _).settle true).note harmless)
  | succ depth ih =>
    intro o opened below s r deep h id feature straight
    obtain ⟨fuel, rfl⟩ := Nat.exists_eq_succ_of_ne_zero (Nat.ne_of_gt (Nat.zero_lt_of_lt enough))
    have room : ¬ plan.limits.maxRuleDepth ≤ r.rules.length := by
      rw [h.length_rules, deep]
      omega
    unfold Engine.invoke
    rw [if_neg room]
    rw [Interpreter.invoke] at straight ⊢
    cases known : plan.grammar.rules[id]? with
    | none =>
      have harmless : Incident.unknownRule ≠ .adoptionOutsideObject := by rintro ⟨⟩
      exact .nothing (h.note harmless)
    | some rule =>
      rw [known] at straight
      dsimp only at straight ⊢
      have inside : Follows (Interpreter.invoke plan depth) (invoke plan fuel) (s.frame :: below).length :=
        ih (by rw [List.length_cons, deep]; omega) (Nat.lt_of_succ_lt_succ enough)
      unfold Astray at straight
      rw [incidents_leave] at straight
      have entered : Mirrors _ _ _ (enter plan id rule.kind feature r) := h.enter id rule.kind feature
      have ran := mirrors_runReported (proper_invoke depth) inside rule.body entered straight
      have reached : Reaches plan { s with frame := Frame.enter id rule.kind } _ :=
        reaches_runReported (proper_invoke depth) rule.body _
      refine ran.leave (reached.frame_rule.trans ?_) rfl rfl rule.kind
      cases rule.kind <;> rfl

theorem mirrors_skip (fuel : Nat) (stalled : Bool) (h : Mirrors (o :: opened) below s r) :
    Mirrors (o :: opened) below (Interpreter.skip plan fuel stalled s) (skip plan fuel stalled r) := by
  induction fuel generalizing stalled s r with
  | zero => exact h
  | succ fuel ih =>
    rw [Interpreter.skip, Engine.skip, h.ready, h.stream]
    split
    · exact h
    · exact ih false (h.consume none).mirrors

theorem mirrors_ite {c c' : Prop} [Decidable c] [Decidable c'] {r' : Run} (same : c ↔ c')
    (first : c → Mirrors opened below s r) (second : ¬ c → Mirrors opened below t r') :
    Mirrors opened below (if c then s else t) (if c' then r else r') := by
  by_cases which : c
  · rw [if_pos which, if_pos (same.1 which)]
    exact first which
  · rw [if_neg which, if_neg (mt same.2 which)]
    exact second which

theorem mirrors_runEntry {invoke : Workbench.Invocation} {invoke' : Invocation} (hinvoke : Proper plan invoke)
    (follows : Follows invoke invoke' below.length) (fuel : Nat) (h : Mirrors (o :: opened) below s r)
    (straight : ¬ Astray (Interpreter.runEntry plan invoke fuel s)) :
    Mirrors (o :: opened) below (Interpreter.runEntry plan invoke fuel s) (runEntry plan invoke' fuel r) := by
  induction fuel generalizing s r with
  | zero => exact h
  | succ fuel ih =>
    rw [Interpreter.runEntry] at straight ⊢
    rw [Engine.runEntry]
    dsimp only at straight ⊢
    have ran : ¬ Astray (Interpreter.runReported plan invoke plan.grammar.entryRule.body s) := by
      refine straight_of_reaches straight (?_ : Reaches plan _ _)
      split
      · exact .refl
      · split
        · exact ((Reaches.record .trailingInput).trans (reaches_skip plan _ _ _)).trans .settle
        · exact (((Reaches.record .trailingInput).trans (reaches_skip plan _ _ _)).trans .settle).trans
            (reaches_runEntry hinvoke _ _)
    have mirrors := mirrors_runReported hinvoke follows plan.grammar.entryRule.body h ran
    have failed :
        Mirrors _ _ _ ((runReported plan invoke' plan.grammar.entryRule.body r).record plan .trailingInput) :=
      mirrors.record .trailingInput
    have skipped : ∀ fuel stalled, Mirrors _ _ _ { skip plan fuel stalled _ with recovering := false } :=
      fun fuel stalled => (mirrors_skip fuel stalled failed).settle false
    refine mirrors_ite (by rw [mirrors.stream]) (fun _ => mirrors) fun left => ?_
    rw [if_neg left] at straight
    rw [failed.stream, mirrors.stream, h.stream]
    refine mirrors_ite (iff_of_eq (congrArg (TokenStream.count · = 0) (skipped _ _).stream.symm))
      (fun _ => skipped _ _) fun more => ?_
    rw [if_neg more] at straight
    exact ih (skipped _ _) straight

/-- The trees on the arenas are those of a document: the nodes and references are the same, and the concrete
tree shows the source tree. -/
structure Tree.Draws (t : Tree) (ast : Ast) : Prop where
  alike : Alike t.nodes t.references ast.nodes ast.references
  root : t.root = ast.root
  drawn : ∃ ids, Whole t.cst ast.source ids ∧ Tied t.cst ids t.nodes t.references ast.nodes ast.references

/-- The object of the invocation under way. -/
def Run.object (r : Run) : Object :=
  match r.frames with
  | .object o :: _ => o
  | _ => { type := none }

/-- An object that becomes the root: if nothing else is known, its type is that of the entry rule. -/
def rootOf (plan : Plan) (o : Object) : Object := { o with type := some (o.type.getD plan.grammar.entryType) }

/-- The root as it is constructed in the end, with the range of its composite. -/
def Run.constructRoot (plan : Plan) (r : Run) : Run × Option NodeId :=
  { r with cst := r.cst.setRootRange (TextRange.of 0 plan.textEnd) }.constructObject plan (rootOf plan r.object)
    (some r.cst.root)

theorem finish_eq (plan : Plan) (r : Run) :
    finish plan r = {
      nodes := (r.flushHidden.constructRoot plan).1.nodes
      references := (r.flushHidden.constructRoot plan).1.references
      cst := (r.flushHidden.constructRoot plan).1.cst
      root := (r.flushHidden.constructRoot plan).2.getD 0 } := rfl

theorem constructRoot_eq (plan : Plan) (s : State) :
    Parser.constructRoot plan s =
      (s.constructObject plan (rootOf plan (Parser.currentObject s)) (some (Parser.wholeTree plan s))).map id
        (·.getD 0) := rfl

/-- The root is finished, and its composite with it. -/
theorem draws_finish (h : Mirrors [o] [] s r) (noFeature : o.feature = none) :
    (finish plan r).Draws (Parser.finish plan s).2 := by
  have flushed := h.flushHidden
  rw [Parser.finish_eq, Engine.finish_eq, constructRoot_eq]
  generalize s.flushHidden = t at flushed
  generalize r.flushHidden = q at flushed
  obtain ⟨ids, drawn⟩ := flushed.drawn
  have object : q.object = Parser.currentObject t := by
    unfold Run.object Parser.currentObject
    rw [flushed.frames]
    cases t.frame.content <;> rfl
  have waiting : Waiting q.nodes
      [{ t.frame with content := .object (rootOf plan (Parser.currentObject t)) }] := by
    refine drawn.waiting.of_slot ?_
    unfold Frame.slot? rootOf Parser.currentObject
    cases t.frame.content <;> rfl
  obtain ⟨same, builds, cst⟩ := builds_constructObject
    (r := { q with cst := q.cst.setRootRange (TextRange.of 0 plan.textEnd) }) plan flushed.arenas waiting rfl
    (t := Parser.wholeTree plan t) rfl rfl q.cst.root
  obtain ⟨id, isRoot⟩ : ∃ id, (t.constructObject plan (rootOf plan (Parser.currentObject t))
      (some (Parser.wholeTree plan t))).2 = some id := ⟨_, rfl⟩
  rw [isRoot] at same builds cst
  unfold Run.constructRoot
  rw [object, same]
  generalize isOut : t.constructObject plan _ _ = out at *
  generalize Run.constructObject _ _ _ _ = out' at *
  have nodes : ∀ d, out'.1.cst.node? d =
      if d = q.cst.root then
        (q.cst.node? d).map ({ · with range := TextRange.of 0 plan.textEnd, ast := some id })
      else q.cst.node? d := by
    intro d
    rw [cst, Option.elim_some, setAst, node?_update, setRootRange, node?_update]
    by_cases self : d = q.cst.root
    · rw [if_pos self, if_pos self.symm, if_pos self.symm, Option.map_map]
      rfl
    · rw [if_neg self, if_neg (Ne.symm self), if_neg (Ne.symm self)]
  have root : out'.1.cst.root = q.cst.root := by rw [cst]; rfl
  obtain ⟨whole, keeps, asts⟩ := drawn.grown.finish root nodes
  rw [noFeature] at whole
  refine ⟨builds.arenas, ?_, q.cst.root :: ids, ?_, ?_⟩
  · simp [isRoot]
  · rw [Prod.map_snd, isRoot]
    exact whole
  · refine drawn.tied.construct keeps (List.subset_cons_self _ _) asts ?_ (fun i own => (builds.free i own).1)
      builds.nodes builds.references
    refine ⟨none, q.cst.root :: ids, ?_, List.Subset.refl _, whole.once⟩
    exact root ▸ whole.shown

/-! ### Parses -/

/-- The run on the arenas before the entry rule is run. -/
def start (p : Parser) (lexed : LexResult) : Run where
  stream := .of (Parser.cutAfter p.limits.maxTokens lexed.tokens).1
  cst := .new p.grammar.entry
  composites := [0]
  frames := [.object { type := some p.grammar.entryType }]
  rules := [p.grammar.entry]
  errors :=
    ((Parser.cutAfter p.limits.maxTokens lexed.tokens).2.toList.map
      (Parser.cutError p.limits.maxTokens)).toArray

theorem parse_eq (p : Parser) (lexed : LexResult) :
    parse p lexed =
      let ended := runEntry (p.planFor lexed) (invoke (p.planFor lexed) (p.limits.maxRuleDepth + 1))
        ((start p lexed).stream.count + 1) (start p lexed)
      (finish (p.planFor lexed) ended, ended.errors.toList) := rfl

/-- In the beginning there is nothing but the root composite. -/
theorem mirrors_start (p : Parser) (lexed : LexResult) :
    Mirrors [⟨0, default, none⟩] [] (p.opened lexed) (start p lexed) where
  stream := rfl
  composites := rfl
  frames := rfl
  rules := rfl
  arenas := ⟨by simp [start, Parser.opened], by simp [start, Parser.opened]⟩
  errors := rfl
  recovering := rfl
  straight := List.not_mem_nil
  drawn := by
    have only : ∀ c n, (Cst.new p.grammar.entry).node? c = some n →
        c = 0 ∧ n = Opened.node ⟨0, default, none⟩ p.grammar.entry [] none := by
      intro c n found
      cases c with
      | zero => exact ⟨rfl, (Option.some.inj found).symm⟩
      | succ c => cases found
    refine ⟨[], ⟨.cons (l := []) (k := []) rfl .nil .nil, by simp, fun c n found => ?_, rfl⟩,
      ⟨fun i => ?_, fun i => ?_, fun c n i found ast => ?_⟩,
      by simp [Frame.slot?, Parser.opened], by simp [Frame.slot?, Parser.opened]⟩
    · exact .inl (by simp [(only c n found).1])
    · exact .none
    · exact .none
    · obtain ⟨-, rfl⟩ := only c n found
      cases ast

/-- **The parser on its arenas comes to the same document as the interpreter**: the same errors, the same nodes
and references, and a concrete tree that shows the source tree and to which nodes and references point. -/
theorem draws_parse (p : Parser) (lexed : LexResult) :
    (parse p lexed).1.Draws (p.parse lexed).ast ∧ (parse p lexed).2 = (p.parse lexed).parseErrors := by
  have straight : ¬ Astray (p.ended lexed) := by
    intro astray
    cases p.incidents_ended lexed _ astray
  have follows : Follows (Interpreter.invoke (p.planFor lexed) (p.limits.maxRuleDepth - 1))
      (invoke (p.planFor lexed) (p.limits.maxRuleDepth + 1)) 0 :=
    follows_invoke rfl (Nat.lt_succ_of_le (Nat.sub_le _ _))
  have mirrors := mirrors_runEntry (proper_invoke _) follows _ (mirrors_start p lexed) straight
  rw [parse_eq, Parser.parse_eq]
  refine ⟨draws_finish mirrors rfl, ?_⟩
  rw [Parser.errors_finish]
  exact congrArg Array.toList mirrors.errors

end Engine

end Workbench
