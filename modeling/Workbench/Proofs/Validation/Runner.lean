import Workbench.Proofs.TypeHierarchy.Declarations
import Workbench.Proofs.Validation.Findings

/-!
**A validation in loops.**

A runner that goes through nodes and checks in loops has one list of diagnostics and one place for
reports, which all checks share: what a check has reported is taken out before the next one is run.
Before every diagnostic that it adds it looks whether there is room, and it gives up at the first one for
which there is none. Its checks stand in lists, one for every type, and a check is entered into the list
of every type below its own.

Such a runner comes to what `validate` comes to, whatever the token. As long as it has not given up, no
reports are left over between two checks, so what a check adds is as much of its findings as there is room
for.
-/

namespace Workbench

/-! ### Lists of checks -/

namespace Registry

variable {types : TypeHierarchy} {lists : TypeId → List Check} {check : Check} {ids : List TypeId}

/-- Enters a check into the lists of some types. -/
def enter (check : Check) (ids : List TypeId) (lists : TypeId → List Check) : TypeId → List Check :=
  ids.foldl (fun lists id => Function.update lists id (lists id ++ [check])) lists

/-- The lists of checks after a call (`register`). A call that fails leaves them as they were. -/
def enterCall (types : TypeHierarchy) (lists : TypeId → List Check) : RegistryCall → TypeId → List Check
  | .register typeName check =>
    match types.id? typeName with
    | some declared => enter check (types.subtypesOf declared) lists
    | none => lists
  | .registerForAll check => enter check types.ids lists

/-- The lists of checks after a sequence of calls. -/
def listsAfter (types : TypeHierarchy) (calls : List RegistryCall) : TypeId → List Check :=
  calls.foldl (enterCall types) fun _ => []

theorem enter_eq (once : ids.Nodup) (type : TypeId) :
    enter check ids lists type = lists type ++ if type ∈ ids then [check] else [] := by
  unfold enter
  induction ids generalizing lists with
  | nil => simp
  | cons id ids ih =>
    obtain ⟨other, once⟩ := List.nodup_cons.1 once
    rw [List.foldl_cons, ih once]
    by_cases same : type = id
    · obtain rfl := same
      simp [other]
    · simp [same]

/-- A call enters its check into the lists of the types that it covers. -/
theorem enterCall_eq (inside : ∀ a b, types.isSubtype a b → a < types.size) (call : RegistryCall)
    (type : TypeId) :
    enterCall types lists call type =
      lists type ++ if call.covers types type then [call.check] else [] := by
  have once : types.ids.Nodup := List.nodup_range
  cases call with
  | register typeName check =>
    cases known : types.id? typeName with
    | none => simp [enterCall, RegistryCall.covers, known]
    | some declared =>
      have below : type ∈ types.subtypesOf declared ↔ types.isSubtype type declared := by
        rw [TypeHierarchy.subtypesOf, List.mem_filter, TypeHierarchy.ids, List.mem_range]
        exact and_iff_right_of_imp (inside type declared)
      have distinct : (types.subtypesOf declared).Nodup := once.filter _
      simp only [enterCall, known]
      rw [enter_eq distinct]
      simp [RegistryCall.covers, RegistryCall.check, known, below]
  | registerForAll check =>
    rw [enterCall, enter_eq once]
    simp [RegistryCall.covers, RegistryCall.check, TypeHierarchy.ids]

/-- The lists hold the checks for every type, in order. -/
theorem listsAfter_eq (inside : ∀ a b, types.isSubtype a b → a < types.size)
    (calls : List RegistryCall) : listsAfter types calls = (afterAll types calls).checksFor := by
  funext type
  unfold listsAfter
  induction calls using List.reverseRecOn with
  | nil => rfl
  | append_singleton calls call ih =>
    rw [List.foldl_append, List.foldl_cons, List.foldl_nil, enterCall_eq inside, ih, afterAll_append,
      checksFor_after, types_afterAll]

end Registry

namespace Validation

open Cancellable

/-! ### The runner -/

/-- What a runner keeps. -/
structure Run where
  diagnostics : List Diagnostic
  /-- What was reported and has not been taken out yet. -/
  reports : List Diagnostic := []
  exceeded : Bool := false

namespace Run

/-- Adds a diagnostic, if there is room. -/
def add (o : ValidationOptions) (d : Diagnostic) (run : Run) : Run :=
  if o.maxDiagnostics ≤ run.diagnostics.length then { run with exceeded := true }
  else { run with diagnostics := run.diagnostics ++ [d] }

/-- Adds diagnostics up to the first for which there is no room. -/
def addAll (o : ValidationOptions) : List Diagnostic → Run → Run
  | [], run => run
  | d :: rest, run =>
    let run := run.add o d
    if run.exceeded then run else addAll o rest run

/-- Runs a check on a node (`validate`). What it reports is taken out, unless it broke down and there is no
room even for that. -/
def runCheck (o : ValidationOptions) (a : Ast) (uri : DocumentUri) (id : NodeId) (check : Check)
    (run : Run) : Run :=
  let outcome := check.run a uri id
  let run := { run with reports := run.reports ++ outcome.reports }
  let run :=
    match outcome.breakdown with
    | some reason => run.add o (ofBreakdown a id reason)
    | none => run
  if run.exceeded then run
  else
    { run with reports := [] }.addAll o <|
      if (o.settingOf check.id).escalated then run.reports.map Diagnostic.raiseWarning else run.reports

/-- Runs checks on a node, without those that are switched off. -/
def runChecks (o : ValidationOptions) (a : Ast) (uri : DocumentUri) (id : NodeId) :
    List Check → Run → Cancellable Run
  | [], run => return run
  | check :: rest, run =>
    if o.categories.contains check.category then
      if (o.settingOf check.id).enabled then do
        if (check.run a uri id).cancels then fire
        let run := run.runCheck o a uri id check
        if run.exceeded then return run else runChecks o a uri id rest run
      else runChecks o a uri id rest run
    else runChecks o a uri id rest run

/-- Runs checks on nodes, with a reading of the token before each node. -/
def runNodes (lists : TypeId → List Check) (o : ValidationOptions) (a : Ast) (uri : DocumentUri) :
    List NodeId → Run → Cancellable Run
  | [], run => return run
  | id :: rest, run => do
    checkpoint
    let run ← runChecks o a uri id (lists (typeAt a id)) run
    if run.exceeded then return run else runNodes lists o a uri rest run

/-- Validates a linked tree (`validate`). -/
def validate (lists : TypeId → List Check) (parsed : ParseResult) (uri : DocumentUri)
    (o : ValidationOptions) : Cancellable (List Diagnostic) := do
  let lexing := ofLexErrors parsed.lexErrors
  if o.stopAfterLexErrors && !parsed.lexErrors.isEmpty then return lexing
  let errors := lexing ++ ofParseErrors parsed.parseErrors
  if o.stopAfterParseErrors && !parsed.parseErrors.isEmpty then return errors
  let run ← runNodes lists o parsed.ast uri parsed.ast.preorder { diagnostics := errors }
  if run.exceeded then return run.diagnostics ++ [limitDiagnostic o parsed.ast]
  else return run.diagnostics

/-! ### What a run adds -/

variable {o : ValidationOptions} {a : Ast} {uri : DocumentUri} {id : NodeId} {run after : Run}
  {ds found : List Diagnostic} {y : Yield}

/-- The run has added a yield to what there was. If it has not given up, no reports are left over. -/
structure Adds (ds : List Diagnostic) (y : Yield) (after : Run) : Prop where
  diagnostics : after.diagnostics = ds ++ y.diagnostics
  exceeded : after.exceeded = y.exceeded
  reports : y.exceeded = false → after.reports = []

/-- A run that has not given up can go on from its diagnostics. -/
theorem Adds.eq (h : Adds ds y after) (within : y.exceeded = false) :
    after = { diagnostics := ds ++ y.diagnostics } := by
  obtain ⟨diagnostics, reports, exceeded⟩ := after
  obtain ⟨rfl, rfl, empty⟩ := h
  obtain rfl := empty within
  exact congrArg (Run.mk _ []) within

theorem room_append (o : ValidationOptions) (ds found : List Diagnostic) :
    o.maxDiagnostics - (ds ++ found).length = o.maxDiagnostics - ds.length - found.length := by
  rw [List.length_append, Nat.sub_sub]

theorem adds_nothing (ds : List Diagnostic) : Adds ds {} { diagnostics := ds } :=
  ⟨(List.append_nil ds).symm, rfl, fun _ => rfl⟩

theorem Adds.append (h : Adds (ds ++ found) y after) :
    Adds ds { y with diagnostics := found ++ y.diagnostics } after where
  diagnostics := by rw [h.diagnostics, List.append_assoc]
  exceeded := h.exceeded
  reports := h.reports

/-- A run that gives up because there is no room. -/
theorem adds_cut_of_full (full : o.maxDiagnostics ≤ ds.length) (d : Diagnostic)
    (rest reports : List Diagnostic) :
    Adds ds (cut (o.maxDiagnostics - ds.length) (d :: rest)) ⟨ds, reports, true⟩ := by
  rw [Nat.sub_eq_zero_of_le full]
  exact ⟨(List.append_nil ds).symm, rfl, nofun⟩

theorem add_of_full (full : o.maxDiagnostics ≤ ds.length) (d : Diagnostic) (reports : List Diagnostic) :
    add o d ⟨ds, reports, false⟩ = ⟨ds, reports, true⟩ :=
  if_pos full

theorem add_of_room (hasRoom : ¬ o.maxDiagnostics ≤ ds.length) (d : Diagnostic)
    (reports : List Diagnostic) : add o d ⟨ds, reports, false⟩ = ⟨ds ++ [d], reports, false⟩ :=
  if_neg hasRoom

/-- Where there is room for a diagnostic, others are added behind it. -/
theorem Adds.cut_cons (hasRoom : ¬ o.maxDiagnostics ≤ ds.length) {d : Diagnostic}
    {more : List Diagnostic}
    (h : Adds (ds ++ [d]) (cut (o.maxDiagnostics - (ds ++ [d]).length) more) after) :
    Adds ds (cut (o.maxDiagnostics - ds.length) (d :: more)) after := by
  have le : [d].length ≤ o.maxDiagnostics - ds.length := by
    rw [List.length_singleton]
    omega
  rw [← List.singleton_append, cut_append_of_le le, ← room_append]
  exact h.append

theorem adds_addAll (o : ValidationOptions) (ds more : List Diagnostic) :
    Adds ds (cut (o.maxDiagnostics - ds.length) more) (addAll o more ⟨ds, [], false⟩) := by
  induction more generalizing ds with
  | nil =>
    have nothing : cut (o.maxDiagnostics - ds.length) [] = {} := by simp [cut]
    rw [nothing]
    exact adds_nothing ds
  | cons d rest ih =>
    rw [addAll]
    by_cases full : o.maxDiagnostics ≤ ds.length
    · rw [add_of_full full]
      exact adds_cut_of_full full d rest []
    · rw [add_of_room full]
      exact (ih (ds ++ [d])).cut_cons full

/-- A check adds as much of its findings as there is room for, and leaves no reports to the next one. -/
theorem adds_runCheck (o : ValidationOptions) (a : Ast) (uri : DocumentUri) (id : NodeId) (check : Check)
    (ds : List Diagnostic) :
    Adds ds (cut (o.maxDiagnostics - ds.length) (emitted o a id check (check.run a uri id)))
      (runCheck o a uri id check ⟨ds, [], false⟩) := by
  unfold runCheck emitted
  generalize check.run a uri id = outcome
  dsimp only [List.nil_append]
  cases outcome.breakdown with
  | none => exact adds_addAll o ds _
  | some reason =>
    by_cases full : o.maxDiagnostics ≤ ds.length
    · simp only [add_of_full full]
      exact adds_cut_of_full full _ _ _
    · simp only [add_of_room full]
      exact (adds_addAll o (ds ++ [ofBreakdown a id reason]) _).cut_cons full

/-- The token after something that may make it fire. -/
def tokenAfter (fires : Bool) (token : Cancellation) : Cancellation := if fires then .fired else token

theorem tokenAfter_tokenAfter (first second : Bool) (token : Cancellation) :
    tokenAfter second (tokenAfter first token) = tokenAfter (first || second) token := by
  cases first <;> cases second <;> rfl

theorem fire_then {α : Type} (fires : Bool) (next : Cancellable α) (token : Cancellation) :
    (if fires then do fire; next else next) token = next (tokenAfter fires token) := by
  cases fires <;> rfl

/-- The checks on a node add what `checkNode` yields, and the token fires if one of them makes it fire. -/
theorem adds_runChecks (o : ValidationOptions) (a : Ast) (uri : DocumentUri) (id : NodeId)
    (checks : List Check) (ds : List Diagnostic) (token : Cancellation) :
    ∃ after, Adds ds (checkNode o a uri id (o.maxDiagnostics - ds.length) (checks.filter o.runs)).1 after ∧
      runChecks o a uri id checks ⟨ds, [], false⟩ token = .ok (after,
        tokenAfter (checkNode o a uri id (o.maxDiagnostics - ds.length) (checks.filter o.runs)).2 token) := by
  induction checks generalizing ds token with
  | nil => exact ⟨_, adds_nothing ds, rfl⟩
  | cons check rest ih =>
    by_cases category : o.categories.contains check.category = true
    · by_cases enabled : (o.settingOf check.id).enabled = true
      · have runs : o.runs check = true := by
          rw [ValidationOptions.runs, category, enabled]
          rfl
        have here := adds_runCheck o a uri id check ds
        rw [runChecks, if_pos category, if_pos enabled, List.filter_cons_of_pos runs, checkNode]
        dsimp only
        rw [fire_then]
        generalize emitted o a id check (check.run a uri id) = found at here ⊢
        by_cases less : o.maxDiagnostics - ds.length < found.length
        · rw [cut, decide_eq_true less] at here
          rw [if_pos less, if_pos here.exceeded]
          exact ⟨_, here, rfl⟩
        · have whole : cut (o.maxDiagnostics - ds.length) found = { diagnostics := found } := by
            rw [cut, decide_eq_false less, List.take_of_length_le (Nat.le_of_not_lt less)]
          rw [whole] at here
          obtain ⟨after, adds, ran⟩ := ih (ds ++ found) (tokenAfter (check.run a uri id).cancels token)
          rw [room_append] at adds ran
          rw [if_neg less, here.eq rfl]
          refine ⟨after, adds.append, ?_⟩
          rw [← tokenAfter_tokenAfter]
          exact ran
      · have skipped : ¬ o.runs check = true := by
          rw [ValidationOptions.runs, Bool.and_eq_true]
          exact fun both => enabled both.2
        rw [runChecks, if_pos category, if_neg enabled, List.filter_cons_of_neg skipped]
        exact ih ds token
    · have skipped : ¬ o.runs check = true := by
        rw [ValidationOptions.runs, Bool.and_eq_true]
        exact fun both => category both.1
      rw [runChecks, if_neg category, List.filter_cons_of_neg skipped]
      exact ih ds token

/-- Under a token the run is stopped if the yield is, or it adds what is yielded. -/
inductive Follows (ds : List Diagnostic) :
    Except Cancelled (Run × Cancellation) → Except Cancelled (Yield × Cancellation) → Prop
  | stopped (e : Cancelled) : Follows ds (.error e) (.error e)
  | ran {after : Run} {y : Yield} (adds : Adds ds y after) (token : Cancellation) :
      Follows ds (.ok (after, token)) (.ok (y, token))

theorem Follows.append {n : Cancellable Yield} {token : Cancellation}
    {ran : Except Cancelled (Run × Cancellation)} (h : Follows (ds ++ found) ran (n token)) :
    Follows ds ran ((n >>= fun more =>
      pure { more with diagnostics := found ++ more.diagnostics }) token) := by
  cases yielded : n token with
  | error e =>
    rw [yielded] at h
    rw [bind_of_error yielded]
    cases h
    exact .stopped e
  | ok v =>
    obtain ⟨y, rest⟩ := v
    rw [yielded] at h
    rw [bind_of_ok yielded]
    cases h with
    | ran adds => exact .ran adds.append rest

/-- The checks on some nodes add what `checkNodes` yields. -/
theorem follows_runNodes (r : Registry) (o : ValidationOptions) (a : Ast) (uri : DocumentUri)
    (ids : List NodeId) (ds : List Diagnostic) (token : Cancellation) :
    Follows ds (runNodes r.checksFor o a uri ids ⟨ds, [], false⟩ token)
      (checkNodes r o a uri (o.maxDiagnostics - ds.length) ids token) := by
  induction ids generalizing ds token with
  | nil => exact .ran (adds_nothing ds) token
  | cons id ids ih =>
    rw [checkNodes, runNodes]
    cases read : checkpoint token with
    | error e =>
      rw [bind_of_error read, bind_of_error read]
      exact .stopped e
    | ok v =>
      obtain ⟨after, adds, ran⟩ := adds_runChecks o a uri id (r.checksFor (typeAt a id)) ds v.2
      rw [bind_of_ok read, bind_of_ok read, bind_of_ok ran]
      dsimp only
      rw [fire_then]
      unfold typeAt at adds ⊢
      generalize checkNode o a uri id (o.maxDiagnostics - ds.length) _ = out at adds ⊢
      obtain ⟨yielded, fires⟩ := out
      by_cases exceeded : yielded.exceeded = true
      · rw [if_pos exceeded, if_pos (adds.exceeded.trans exceeded)]
        exact .ran adds _
      · have further := ih (ds ++ yielded.diagnostics) (tokenAfter fires v.2)
        rw [room_append] at further
        rw [if_neg exceeded, adds.eq (Bool.eq_false_iff.2 exceeded)]
        exact further.append

end Run

/-- **A runner in loops comes to what `validate` comes to**, for all sequences of registrations and under
every token. -/
theorem run_validate {decls : List TypeDecl} {types : TypeHierarchy}
    (built : TypeHierarchy.build decls = .ok types) (calls : List RegistryCall) (parsed : ParseResult)
    (uri : DocumentUri) (o : ValidationOptions) :
    Run.validate (Registry.listsAfter types calls) parsed uri o =
      validate (Registry.afterAll types calls) parsed uri o := by
  rw [Registry.listsAfter_eq fun _ _ => TypeHierarchy.lt_size_of_isSubtype built]
  funext token
  unfold Run.validate validate
  dsimp only
  rw [isEmpty_ofLexErrors, isEmpty_ofParseErrors]
  split
  · rfl
  split
  · rfl
  have follows := Run.follows_runNodes (Registry.afterAll types calls) o parsed.ast uri
    parsed.ast.preorder (ofLexErrors parsed.lexErrors ++ ofParseErrors parsed.parseErrors) token
  generalize ran : Run.runNodes _ o parsed.ast uri _ _ token = run at follows
  generalize yielded : checkNodes _ o parsed.ast uri _ _ token = yield at follows
  cases follows with
  | stopped e => rw [bind_of_error ran, bind_of_error yielded]
  | @ran after y adds rest =>
    rw [bind_of_ok ran, bind_of_ok yielded, adds.exceeded, adds.diagnostics]
    cases y.exceeded with
    | true => rfl
    | false => simp only [Bool.false_eq_true, if_false, List.append_nil]

end Validation

end Workbench
