import Mathlib.Data.List.Induction
import Workbench.DomainModel.Grammar
import Workbench.Proofs.Validation
import Workbench.Validation.Script

/-!
**What a validation yields.**

If there were no limit, the checks would yield all their findings: node by node, parents first, and on a
node in the order of registration, from every check that is switched on and registered for the node's
type or one above it. The findings of a check are the report of its breakdown, if it breaks down, and
what it reports itself; no check has a part in the findings of another. A validation that ends yields the
errors of the lexer and the parser, as many findings as there is room for, and one diagnostic more if
that is not all of them.

The walk carries the room that is left from check to check and from node to node. What it yields is a
prefix of all findings at every stage, and it has exceeded the room exactly if the prefix is a proper one.
-/

namespace Workbench

/-! ### Sequences of registrations -/

/-- A call that registers a check: for the type of a name and the types below it, or for all types. -/
inductive RegistryCall where
  | register (typeName : String) (check : Check)
  | registerForAll (check : Check)

namespace RegistryCall

def check : RegistryCall → Check
  | register _ check => check
  | registerForAll check => check

/-- Whether the check is registered for a type: for the type itself or one above it. -/
def covers (types : TypeHierarchy) (type : TypeId) : RegistryCall → Bool
  | register typeName _ => (types.id? typeName).any fun declared => types.isSubtype type declared
  | registerForAll _ => decide (type < types.size)

end RegistryCall

namespace Registry

/-- A registry after a call. A call that fails leaves it as it was. -/
def after (r : Registry) : RegistryCall → Registry
  | .register typeName check =>
    match r.register typeName check with
    | .ok next => next
    | .error _ => r
  | .registerForAll check => r.registerForAll check

/-- A registry after a sequence of calls. -/
def afterAll (types : TypeHierarchy) (calls : List RegistryCall) : Registry :=
  calls.foldl after (empty types)

variable {r : Registry} {typeName : String} {declared : TypeId} {check : Check}

/-- A registry with one registration more. -/
def add (r : Registry) (registration : Registration) : Registry :=
  { r with registrations := r.registrations ++ [registration] }

theorem register_of_known (known : r.types.id? typeName = some declared) :
    r.register typeName check = .ok (r.add ⟨some declared, check⟩) := by
  unfold register
  rw [known]
  rfl

theorem after_register_of_known (known : r.types.id? typeName = some declared) :
    r.after (.register typeName check) = r.add ⟨some declared, check⟩ := by
  simp only [after, register_of_known known]

theorem after_register_of_unknown (unknown : r.types.id? typeName = none) :
    r.after (.register typeName check) = r := by
  simp only [after, register, unknown]

theorem types_after (r : Registry) (call : RegistryCall) : (r.after call).types = r.types := by
  cases call with
  | register typeName check =>
    cases known : r.types.id? typeName with
    | none => rw [after_register_of_unknown known]
    | some declared => rw [after_register_of_known known, add]
  | registerForAll check => rfl

theorem afterAll_append (types : TypeHierarchy) (calls : List RegistryCall) (call : RegistryCall) :
    afterAll types (calls ++ [call]) = (afterAll types calls).after call := by
  rw [afterAll, List.foldl_append]
  rfl

theorem types_afterAll (types : TypeHierarchy) (calls : List RegistryCall) :
    (afterAll types calls).types = types := by
  induction calls using List.reverseRecOn with
  | nil => rfl
  | append_singleton calls call ih => rw [afterAll_append, types_after, ih]

theorem checksFor_add (r : Registry) (registration : Registration) (type : TypeId) :
    (r.add registration).checksFor type =
      r.checksFor type ++ if r.concerns type registration then [registration.check] else [] := by
  have same : (r.add registration).concerns = r.concerns := rfl
  unfold checksFor
  rw [same, add, List.filter_append, List.map_append, List.filter_cons, List.filter_nil]
  congr 1
  split <;> rfl

/-- A call adds its check behind the others, for the types that it covers. -/
theorem checksFor_after (r : Registry) (call : RegistryCall) (type : TypeId) :
    (r.after call).checksFor type =
      r.checksFor type ++ if call.covers r.types type then [call.check] else [] := by
  cases call with
  | register typeName check =>
    cases known : r.types.id? typeName with
    | none => simp [after_register_of_unknown known, RegistryCall.covers, known]
    | some declared =>
      rw [after_register_of_known known, checksFor_add, RegistryCall.covers, known]
      rfl
  | registerForAll check => exact checksFor_add r ⟨none, check⟩ type

/-- After a sequence of calls, the checks for a type are those of the calls that cover it, in order. -/
theorem checksFor_afterAll (types : TypeHierarchy) (calls : List RegistryCall) (type : TypeId) :
    (afterAll types calls).checksFor type =
      (calls.filter (·.covers types type)).map (·.check) := by
  induction calls using List.reverseRecOn with
  | nil => rfl
  | append_singleton calls call ih =>
    rw [afterAll_append, checksFor_after, types_afterAll, ih, List.filter_append, List.map_append,
      List.filter_cons, List.filter_nil]
    split <;> rfl

/-- Every registered check was registered by a call. -/
theorem exists_call_of_mem {types : TypeHierarchy} {calls : List RegistryCall}
    {registration : Registration} (mem : registration ∈ (afterAll types calls).registrations) :
    ∃ call ∈ calls, registration.check = call.check := by
  have step : ∀ (r : Registry) (call : RegistryCall), registration ∈ (r.after call).registrations →
      registration ∈ r.registrations ∨ registration.check = call.check := by
    intro r call mem
    have among : ∀ added : Registration, registration ∈ (r.add added).registrations →
        registration ∈ r.registrations ∨ registration.check = added.check := by
      intro added mem
      rcases List.mem_append.1 mem with mem | mem
      · exact .inl mem
      · exact .inr (congrArg Registration.check (List.mem_singleton.1 mem))
    cases call with
    | register typeName check =>
      cases known : r.types.id? typeName with
      | none => exact .inl (after_register_of_unknown known ▸ mem)
      | some declared => exact among ⟨some declared, check⟩ (after_register_of_known known ▸ mem)
    | registerForAll check => exact among ⟨none, check⟩ mem
  induction calls using List.reverseRecOn with
  | nil => cases mem
  | append_singleton calls call ih =>
    rw [afterAll_append] at mem
    rcases step _ call mem with mem | same
    · obtain ⟨earlier, among, same⟩ := ih mem
      exact ⟨earlier, List.mem_append_left _ among, same⟩
    · exact ⟨call, by simp, same⟩

end Registry

namespace Validation

open Cancellable

/-! ### Findings -/

/-- The type of a node. -/
def typeAt (a : Ast) (id : NodeId) : TypeId := ((a.node? id).map (·.type)).getD 0

/-- What some checks find on a node: each of them first its breakdown, then its reports. -/
def findingsOn (o : ValidationOptions) (a : Ast) (uri : DocumentUri) (id : NodeId)
    (checks : List Check) : List Diagnostic :=
  checks.flatMap fun check => emitted o a id check (check.run a uri id)

/-- What all checks find on all nodes. -/
def findings (types : TypeHierarchy) (calls : List RegistryCall) (o : ValidationOptions) (a : Ast)
    (uri : DocumentUri) : List Diagnostic :=
  a.preorder.flatMap fun id =>
    findingsOn o a uri id
      ((calls.filter fun call => call.covers types (typeAt a id) && o.runs call.check).map (·.check))

/-- The diagnostics that a validation is to yield. -/
def expected (types : TypeHierarchy) (calls : List RegistryCall) (parsed : ParseResult)
    (uri : DocumentUri) (o : ValidationOptions) : List Diagnostic :=
  let lexing := ofLexErrors parsed.lexErrors
  let errors := lexing ++ ofParseErrors parsed.parseErrors
  let all := findings types calls o parsed.ast uri
  let room := o.maxDiagnostics - errors.length
  if o.stopAfterLexErrors = true ∧ parsed.lexErrors ≠ [] then lexing
  else if o.stopAfterParseErrors = true ∧ parsed.parseErrors ≠ [] then errors
  else errors ++ all.take room ++ if room < all.length then [limitDiagnostic o parsed.ast] else []

/-! ### What there is room for -/

/-- As many diagnostics as there is room for. -/
def cut (room : Nat) (all : List Diagnostic) : Yield :=
  { diagnostics := all.take room, exceeded := decide (room < all.length) }

theorem cut_append_of_lt {room : Nat} {found : List Diagnostic} (less : room < found.length)
    (more : List Diagnostic) : cut room (found ++ more) = cut room found := by
  unfold cut
  rw [List.take_append_of_le_length (Nat.le_of_lt less)]
  congr 1
  rw [List.length_append, decide_eq_decide]
  omega

theorem cut_append_of_le {room : Nat} {found : List Diagnostic} (le : found.length ≤ room)
    (more : List Diagnostic) :
    cut room (found ++ more) =
      { cut (room - found.length) more with
        diagnostics := found ++ (cut (room - found.length) more).diagnostics } := by
  unfold cut
  rw [List.take_append, List.take_of_length_le le]
  congr 1
  rw [List.length_append, decide_eq_decide]
  omega

/-- The checks on a node yield what there is room for of their findings. -/
theorem checkNode_eq_cut (o : ValidationOptions) (a : Ast) (uri : DocumentUri) (id : NodeId)
    (room : Nat) (checks : List Check) :
    (checkNode o a uri id room checks).1 = cut room (findingsOn o a uri id checks) := by
  induction checks generalizing room with
  | nil => simp [checkNode, cut, findingsOn]
  | cons check rest ih =>
    rw [checkNode, findingsOn, List.flatMap_cons]
    dsimp only
    split
    · next less =>
      rw [cut_append_of_lt less, cut, decide_eq_true less]
    · next le =>
      rw [cut_append_of_le (Nat.le_of_not_lt le)]
      dsimp only
      rw [ih]
      rfl

/-- What is found first takes its room, and what comes later is cut to the room that is left. -/
theorem ensures_cut_append (found : List Diagnostic) {later : List Diagnostic}
    {next : Nat → Cancellable Yield} (cuts : ∀ room, Ensures (next room) (· = cut room later)) (room : Nat) :
    Ensures (do
      if (cut room found).exceeded then return cut room found
      let more ← next (room - (cut room found).diagnostics.length)
      return { more with diagnostics := (cut room found).diagnostics ++ more.diagnostics })
      (· = cut room (found ++ later)) := by
  by_cases less : room < found.length
  · have exceeded : (cut room found).exceeded = true := decide_eq_true less
    simp only [exceeded, if_true]
    exact ensures_pure (cut_append_of_lt less later).symm
  · have le := Nat.le_of_not_lt less
    have whole : (cut room found).diagnostics = found := List.take_of_length_le le
    have fits : (cut room found).exceeded = false := decide_eq_false less
    simp only [fits, whole, Bool.false_eq_true, if_false]
    refine (cuts (room - found.length)).bind fun more eq => ensures_pure ?_
    rw [eq, cut_append_of_le le]

/-- The checks on some nodes yield what there is room for of their findings, if they are not stopped. -/
theorem ensures_checkNodes (r : Registry) (o : ValidationOptions) (a : Ast) (uri : DocumentUri)
    (room : Nat) (ids : List NodeId) :
    Ensures (checkNodes r o a uri room ids) (· = cut room (ids.flatMap fun id =>
      findingsOn o a uri id ((r.checksFor (typeAt a id)).filter o.runs))) := by
  have anything : ∀ m : Cancellable Unit, Ensures m fun _ => True := fun _ _ _ _ _ => trivial
  induction ids generalizing room with
  | nil => exact ensures_pure (by simp [cut])
  | cons id rest ih =>
    rw [List.flatMap_cons, checkNodes]
    refine (anything checkpoint).bind fun _ _ => ?_
    have here := checkNode_eq_cut o a uri id room ((r.checksFor (typeAt a id)).filter o.runs)
    have further := ensures_cut_append (findingsOn o a uri id
      ((r.checksFor (typeAt a id)).filter o.runs)) ih room
    rw [← here] at further
    -- whether or not a check made the token fire, the same is done with what was found
    dsimp only
    split
    · exact (anything fire).bind fun _ _ => further
    · exact further

/-! ### The whole validation -/

theorem findings_eq (types : TypeHierarchy) (calls : List RegistryCall) (o : ValidationOptions)
    (a : Ast) (uri : DocumentUri) :
    findings types calls o a uri = a.preorder.flatMap fun id =>
      findingsOn o a uri id (((Registry.afterAll types calls).checksFor (typeAt a id)).filter o.runs) := by
  unfold findings
  congr 1
  funext id
  rw [Registry.checksFor_afterAll, List.filter_map, List.filter_filter]
  simp only [Function.comp_def, Bool.and_comm]

theorem isEmpty_ofLexErrors (errors : List LexError) : (ofLexErrors errors).isEmpty = errors.isEmpty :=
  List.isEmpty_map

theorem isEmpty_ofParseErrors (errors : List ParseError) :
    (ofParseErrors errors).isEmpty = errors.isEmpty :=
  List.isEmpty_map

theorem ensures_validate (types : TypeHierarchy) (calls : List RegistryCall) (parsed : ParseResult)
    (uri : DocumentUri) (o : ValidationOptions) :
    Ensures (validate (Registry.afterAll types calls) parsed uri o)
      (· = expected types calls parsed uri o) := by
  unfold validate expected
  simp only [isEmpty_ofLexErrors, isEmpty_ofParseErrors, Bool.and_eq_true, Bool.not_eq_true',
    List.isEmpty_eq_false_iff]
  split
  · exact ensures_pure rfl
  · split
    · exact ensures_pure rfl
    · refine (ensures_checkNodes _ o parsed.ast uri _ _).bind fun found eq => ensures_pure ?_
      rw [eq, ← findings_eq]
      simp only [cut, decide_eq_true_eq]

/-- **A validation that ends yields the errors and then the findings of the checks, as far as there is
room for them**, and a diagnostic about the limit exactly if there is no room for all of them. The moment
at which its token fires decides only whether it ends; it does end if neither a check nor anything else
makes the token fire. -/
theorem validate_afterAll (types : TypeHierarchy) (calls : List RegistryCall) (parsed : ParseResult)
    (uri : DocumentUri) (o : ValidationOptions) :
    (∀ token diagnostics rest,
      validate (Registry.afterAll types calls) parsed uri o token = .ok (diagnostics, rest) →
        diagnostics = expected types calls parsed uri o) ∧
      ((∀ call ∈ calls, ∀ a uri id, (call.check.run a uri id).cancels = false) →
        validate (Registry.afterAll types calls) parsed uri o .never =
          .ok (expected types calls parsed uri o, .never)) := by
  have yields := ensures_validate types calls parsed uri o
  refine ⟨yields, fun quiet => ?_⟩
  have registered : (Registry.afterAll types calls).Quiet := by
    intro registration mem
    obtain ⟨call, among, same⟩ := Registry.exists_call_of_mem mem
    rw [same]
    exact quiet call among
  obtain ⟨diagnostics, ok⟩ := ends_validate registered parsed uri o
  rw [ok, yields _ _ _ ok]

/-- A tree of three nodes. -/
def twoClasses : ParseResult :=
  (DomainModel.parser {}).parseText "class A \x7b\x7d class B \x7b\x7d"

/-- A check that warns of every node, a check that breaks down on every type, and one for a type that
does not exist. -/
def someCalls : List RegistryCall :=
  [.registerForAll (.scripted "seen" .fast [⟨none, .report .warning "seen" none none none [] []⟩]),
    .register "Type" (.scripted "breaks" .fast
      [⟨none, .report .hint "before" none none none [] []⟩, ⟨none, .breakDown (some "why")⟩]),
    .register "Nothing" (.scripted "idle" .fast [])]

/-- Three diagnostics at most, and warnings of every node are errors. -/
def threeAtMost : ValidationOptions :=
  { maxDiagnostics := 3, settings := [("seen", { escalated := true })] }

/-- The token spares two readings. That is enough, for the room ends within the findings of the second
node. -/
theorem validate_afterAll_twoClasses :
    (∃ diagnostics rest,
      validate (Registry.afterAll DomainModel.types someCalls) twoClasses "d" threeAtMost ⟨some 2⟩ =
        .ok (diagnostics, rest) ∧
      diagnostics = expected DomainModel.types someCalls twoClasses "d" threeAtMost ∧
      diagnostics.map (fun d => (d.severity, d.message)) =
        [(.error, "seen"), (.error, "seen"), (.error, "An error occurred during validation: why"),
          (.warning, "Diagnostic limit of 3 exceeded. Further diagnostics have been suppressed.")]) ∧
      validate (Registry.afterAll DomainModel.types someCalls) twoClasses "d" threeAtMost .never =
        .ok (expected DomainModel.types someCalls twoClasses "d" threeAtMost, .never) := by
  have yielded : (validate (Registry.afterAll DomainModel.types someCalls) twoClasses "d" threeAtMost
      ⟨some 2⟩).toOption.map (fun result => result.1.map fun d => (d.severity, d.message)) =
      some [(.error, "seen"), (.error, "seen"), (.error, "An error occurred during validation: why"),
        (.warning, "Diagnostic limit of 3 exceeded. Further diagnostics have been suppressed.")] := by
    decide +kernel
  obtain ⟨yields, ends⟩ := validate_afterAll DomainModel.types someCalls twoClasses "d" threeAtMost
  refine ⟨?_, ends ?_⟩
  · cases ok : validate (Registry.afterAll DomainModel.types someCalls) twoClasses "d" threeAtMost
        ⟨some 2⟩ with
    | error e =>
      rw [ok] at yielded
      cases yielded
    | ok result =>
      rw [ok] at yielded
      exact ⟨result.1, result.2, rfl, yields _ _ _ ok, Option.some.inj yielded⟩
  · simp only [someCalls, List.forall_mem_cons]
    exact ⟨fun _ _ _ => rfl, fun _ _ _ => rfl, fun _ _ _ => rfl, List.forall_mem_nil _⟩

end Validation

end Workbench
