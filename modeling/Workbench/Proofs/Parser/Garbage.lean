import Workbench.Proofs.Parser.Continuations

/-!
**Garbage between declarations.**

The entry rule of a grammar may be a repetition of declarations that are closed, so that where a declaration
ends does not depend on what comes behind. Then tokens between the declarations that start none cost one
error for each stretch, and nothing else: the repetition ends in front of them, they are skipped, and the
entry rule goes on with the next declaration in the same invocation. What a declaration does to this
invocation is the same as if it stood alone, so the tree is that of the declarations without the garbage.
-/

namespace Workbench

/-! ### Declarations and garbage -/

namespace Grammar

/-- The entry rule reads closed declarations, one after the other, each by a call of the rule `element` in the
element `item`. -/
structure Declares (g : Grammar) (item : Element) (element : RuleId) : Prop where
  body : g.entryRule.body = .repetition .zeroOrMore item
  assigns : ∃ feature op, item = .assign feature op (.call element)
  known : ∃ body, g.body? element = some body
  closed : g.Closed (.call element)

/-- Visible tokens that the rule for declarations derives. -/
structure Declaration (g : Grammar) (depth : Nat) (element : RuleId) (tokens : List Token) : Prop where
  derived : g.Derives depth (.call element) tokens
  shown : ∀ t ∈ tokens, t.isVisible = true

/-- Tokens with which no declaration starts. -/
def Garbage (g : Grammar) (element : RuleId) (tokens : List Token) : Prop :=
  ∀ t ∈ tokens, ∀ x, g.Starts (.call element) x → ¬ x.Matches t

variable {g : Grammar} {item : Element} {element : RuleId} {depth : Nat} {d : List Token}

theorem Declares.reachable (declares : g.Declares item element) : g.Reachable element := by
  obtain ⟨feature, op, rfl⟩ := declares.assigns
  have occurs : Occurs g.entryRule.body (.call element)
      [.repetition .zeroOrMore (.assign feature op (.call element))] := by
    rw [declares.body]
    exact .assign (.turn (by decide) .body)
  exact .call .entry ⟨_, g.body?_entry, occurs⟩ rfl

theorem Declaration.turn (declares : g.Declares item element) (declaration : g.Declaration depth element d) :
    g.Derives depth item d := by
  obtain ⟨feature, op, rfl⟩ := declares.assigns
  exact .assign declaration.derived

theorem Declaration.ne_nil (declares : g.Declares item element)
    (declaration : g.Declaration depth element d) : d ≠ [] :=
  declares.closed.ne_nil declaration.derived

end Grammar

/-! ### States with the same object -/

namespace State

variable {s t u : State}

/-- What has been finished and the object under construction are the same in both states, up to places in the
text. -/
structure Even (s t : State) : Prop extends Level s t where
  content : s.frame.content = t.frame.content

namespace Even

theorem refl (s : State) : s.Even s := ⟨⟨rfl, rfl, rfl⟩, rfl⟩

theorem symm (h : s.Even t) : t.Even s :=
  ⟨⟨h.arena.symm, h.recovering.symm, h.incidents.symm⟩, h.content.symm⟩

theorem trans (h : s.Even t) (h' : t.Even u) : s.Even u :=
  ⟨⟨h.arena.trans h'.arena, h.recovering.trans h'.recovering, h.incidents.trans h'.incidents⟩,
    h.content.trans h'.content⟩

theorem attach (h : s.Even t) (us vs : List SourceTree) : (s.attach us).Even (t.attach vs) :=
  ⟨⟨h.arena, h.recovering, h.incidents⟩, h.content⟩

theorem assign (h : s.Even t) (feature : String) (op : AssignOp) (value : Value) :
    (s.assign feature op value).Even (t.assign feature op value) := by
  unfold State.assign
  rw [h.content]
  split
  · next acc content =>
    exact ⟨⟨h.arena, h.recovering, congrArg (Incident.assignmentOutsideObject :: ·) h.incidents⟩, h.content⟩
  · exact ⟨⟨h.arena, h.recovering, h.incidents⟩, rfl⟩

/-- A token that is skipped only joins the source tree. -/
theorem consume (s : State) : (s.consume none).1.Even s := by
  unfold State.consume
  split
  · exact refl s
  · exact ⟨⟨rfl, rfl, rfl⟩, rfl⟩

end Even

end State

namespace Interpreter

open State Grammar

variable {plan : Plan} {item : Element} {element : RuleId} {depth : Nat} {s t u : State}
  {d rest rest' : List Token} {ds : List (List Token)}

/-! ### Single declarations -/

/-- How the invocation of the entry rule goes on if a declaration stands alone. -/
def feed (plan : Plan) (depth : Nat) (item : Element) (s : State) (d : List Token) : State :=
  (run plan (invoke plan depth) item { s with stream := .of d, errors := #[] }).state

/-- And several. -/
def feeds (plan : Plan) (depth : Nat) (item : Element) (s : State) (ds : List (List Token)) : State :=
  ds.foldl (feed plan depth item) s

/-- Two turns of the entry rule have taken a declaration, and built the same. -/
structure Evenly (s t : State) (rest rest' : List Token) (a b : Outcome) : Prop where
  ends : a.stuck = none
  ends' : b.stuck = none
  left : Passes s rest a.state
  right : Passes t rest' b.state
  even : a.state.Even b.state

theorem evenly_run (h : Predicting plan) (declares : plan.grammar.Declares item element) (stop : Nat)
    (derived : plan.grammar.Derives depth (.call element) d) (visible : s.stream.visible = d ++ rest)
    (visible' : t.stream.visible = d ++ rest') (even : s.Even t) :
    Evenly s t rest rest' (run plan (invoke plan depth) item s)
      (run (plan.endingAt stop) (invoke (plan.endingAt stop) depth) item
        t) := by
  obtain ⟨feature, op, rfl⟩ := declares.assigns
  obtain ⟨body, known⟩ := declares.known
  have closed := declares.closed.of_callee? rfl known
  have inside := companions_invoke h stop depth (e := .call element) rfl known declares.reachable derived
    (.inl closed) (.inl closed) (some feature) s t visible visible' even.toLevel
  have back : (invoke plan depth element (some feature) s).state.Even
      (invoke (plan.endingAt stop) depth element (some feature) t).state :=
    ⟨inside.level, by rw [inside.frame, inside.frame']; exact even.content⟩
  have attached := fun us vs => back.attach us vs
  obtain ⟨rule, found, nonterminal, rfl⟩ := rule_of_body? known
  rw [run, run, runAssigned, runAssigned]
  unfold call
  rw [grammar_endingAt, found]
  dsimp only [Option.map_some]
  split
  · next token value kind =>
    rw [kind] at nonterminal
    cases nonterminal
  · have left := fun trees => inside.left.of_same
      (u := (invoke plan depth element (some feature) s).state.attach trees) rfl rfl
    have right := fun trees => inside.right.of_same
      (u := (invoke (plan.endingAt stop) depth element (some feature) t).state.attach trees) rfl rfl
    rw [inside.value]
    split
    · exact ⟨rfl, rfl, left _, right _, attached _ _⟩
    · next eq =>
      cases eq
      exact ⟨rfl, rfl, (left _).then_silent (.assign _ _ _ _), (right _).then_silent (.assign _ _ _ _),
        (attached _ _).assign _ _ _⟩
    · next eq =>
      cases eq
      exact ⟨rfl, rfl, (left _).then_silent (.assign _ _ _ _), (right _).then_silent (.assign _ _ _ _),
        (attached _ _).assign _ _ _⟩
    · next eq => cases eq
    · next eq => cases eq

theorem visible_of (shown : ∀ t ∈ d, t.isVisible = true) : (TokenStream.of d).visible = d :=
  List.filter_eq_self.2 shown

theorem ready_entry (declares : plan.grammar.Declares item element) (s : State) :
    ready plan plan.grammar.entryRule.body s = ready plan item s := by
  rw [declares.body]
  rfl

section Declarations

variable (h : Predicting plan) (declares : plan.grammar.Declares item element)
include h declares

omit h declares in
theorem visible_alone (declaration : plan.grammar.Declaration depth element d) (s : State) :
    { s with stream := .of d, errors := #[] }.stream.visible = d ++ [] := by
  rw [List.append_nil]
  exact visible_of declaration.shown

/-- A turn does what it does if the declaration stands alone. -/
theorem evenly_feed (declaration : plan.grammar.Declaration depth element d)
    (visible : s.stream.visible = d ++ rest) :
    (run plan (invoke plan depth) item s).stuck = none ∧
      Passes s rest (run plan (invoke plan depth) item s).state ∧
      (run plan (invoke plan depth) item s).state.Even
        (feed plan depth item s d) := by
  have ran := evenly_run h declares plan.textEnd declaration.derived visible
    (visible_alone declaration s) ⟨⟨rfl, rfl, rfl⟩, rfl⟩
  exact ⟨ran.ends, ran.left, ran.even⟩

theorem even_feed (stop : Nat) (declaration : plan.grammar.Declaration depth element d) (even : s.Even t) :
    (feed plan depth item s d).Even
      (feed (plan.endingAt stop) depth item t d) := by
  have ran := evenly_run h declares stop declaration.derived (visible_alone declaration s)
    (visible_alone declaration t) ⟨⟨even.arena, even.recovering, even.incidents⟩, even.content⟩
  exact ran.even

/-- No error is under way behind a declaration. -/
theorem recovering_feed (declaration : plan.grammar.Declaration depth element d)
    (sure : s.recovering = false) :
    (feed plan depth item s d).recovering = false := by
  obtain ⟨-, passes, -⟩ := evenly_feed h declares declaration (visible_alone declaration s)
  have candid : Candid { s with stream := .of d, errors := #[] } := by
    intro recovering
    rw [sure] at recovering
    cases recovering
  have proper : Proper plan (invoke plan depth) := proper_invoke depth
  have ran := (reaches_run proper item { s with stream := .of d, errors := #[] }).onward.candid candid
  exact Bool.eq_false_iff.2 fun recovering => ran recovering passes.errors

theorem even_feeds (stop : Nat) (declarations : ∀ d ∈ ds, plan.grammar.Declaration depth element d)
    (even : s.Even t) :
    (feeds plan depth item s ds).Even
      (feeds (plan.endingAt stop) depth item t ds) := by
  induction ds generalizing s t with
  | nil => exact even
  | cons d ds ih =>
    obtain ⟨first, others⟩ := List.forall_mem_cons.1 declarations
    exact ih others (even_feed h declares stop first even)

theorem recovering_feeds (declarations : ∀ d ∈ ds, plan.grammar.Declaration depth element d)
    (sure : s.recovering = false) :
    (feeds plan depth item s ds).recovering = false := by
  induction ds generalizing s with
  | nil => exact sure
  | cons d ds ih =>
    obtain ⟨first, others⟩ := List.forall_mem_cons.1 declarations
    exact ih others (recovering_feed h declares first sure)

/-! ### Turns of the entry rule -/

/-- The entry rule takes the declarations up to something that starts none. -/
theorem turns_declarations (declarations : ∀ d ∈ ds, plan.grammar.Declaration depth element d)
    (ended : ∀ u : State, u.stream.visible = rest →
      ¬ ready plan item u = true)
    (visible : s.stream.visible = ds.flatten ++ rest) (fuel : Nat) (enough : s.stream.count ≤ fuel) :
    (turns plan (ready plan item)
        (run plan (invoke plan depth) item) fuel s).stuck = none ∧
      Passes s rest (turns plan (ready plan item)
        (run plan (invoke plan depth) item) fuel s).state ∧
      (turns plan (ready plan item)
        (run plan (invoke plan depth) item) fuel s).state.Even
        (feeds plan depth item s ds) := by
  induction ds generalizing s fuel with
  | nil =>
    rw [turns_of_not_ready (ended s visible)]
    exact ⟨rfl, .refl visible, .refl s⟩
  | cons d ds ih =>
    obtain ⟨first, others⟩ := List.forall_mem_cons.1 declarations
    rw [List.flatten_cons, List.append_assoc] at visible
    obtain ⟨ends, passes, even⟩ := evenly_feed h declares first visible
    obtain ⟨t₀, d, rfl⟩ := List.exists_cons_of_ne_nil (first.ne_nil declares)
    have less := count_lt_of_passes visible passes
    obtain ⟨fuel, rfl⟩ : ∃ n, fuel = n + 1 := ⟨fuel - 1, by omega⟩
    rw [turns_of_ready (ready_of_derives h (first.turn declares) visible) ends less]
    obtain ⟨ends', passes', even'⟩ := ih others passes.visible fuel (by omega)
    exact ⟨ends', passes.trans passes', even'.trans (even_feeds h declares plan.textEnd others even)⟩

/-- So does the body of the entry rule. -/
theorem reads_declarations (declarations : ∀ d ∈ ds, plan.grammar.Declaration depth element d)
    (ended : ∀ u : State, u.stream.visible = rest →
      ¬ ready plan item u = true)
    (visible : s.stream.visible = ds.flatten ++ rest) :
    Passes s rest (runReported plan (invoke plan depth) plan.grammar.entryRule.body s) ∧
      (runReported plan (invoke plan depth) plan.grammar.entryRule.body s).Even
        (feeds plan depth item s ds) := by
  obtain ⟨ends, passes, even⟩ := turns_declarations h declares declarations ended visible _ le_rfl
  unfold runReported
  rw [declares.body, run, repeated]
  dsimp only
  rw [ends]
  exact ⟨passes, even⟩

/-! ### Skipping -/

theorem not_ready_of_garbage {g : List Token} (garbage : plan.grammar.Garbage element g)
    (some_ : g ≠ []) (visible : u.stream.visible = g ++ rest) :
    ¬ ready plan item u = true := by
  intro isReady
  obtain ⟨t, x, head, starts, fits⟩ := (ready_iff h).1 isReady
  obtain ⟨t', g, rfl⟩ := List.exists_cons_of_ne_nil some_
  rw [visible] at head
  obtain rfl : t' = t := by simpa using head
  obtain ⟨feature, op, rfl⟩ := declares.assigns
  cases starts with
  | assign inside => exact garbage t' List.mem_cons_self x inside fits
  | token calls => cases calls
  | rule calls => cases calls

/-- All the garbage ahead is skipped, and nothing behind it. -/
theorem skip_garbage {g : List Token} (garbage : plan.grammar.Garbage element g)
    (ahead : rest = [] ∨ ∀ u : State, u.stream.visible = rest →
      ready plan item u = true)
    (visible : s.stream.visible = g ++ rest) (fuel : Nat) (stalled : Bool)
    (some_ : g = [] → stalled = false) (enough : g.length ≤ fuel) :
    Passes s rest (skip plan fuel stalled s) ∧ (skip plan fuel stalled s).Even s := by
  induction g generalizing s fuel stalled with
  | nil =>
    obtain rfl := some_ rfl
    cases fuel with
    | zero => exact ⟨.refl visible, .refl s⟩
    | succ fuel =>
      have stops : (decide (s.stream.count = 0) ||
          !false && ready plan plan.grammar.entryRule.body s) = true := by
        rw [ready_entry declares]
        rcases ahead with nothing | starts
        · simp [TokenStream.count_eq_zero_iff.2 (visible.trans nothing)]
        · simp [starts s visible]
      rw [skip, if_pos stops]
      exact ⟨.refl visible, .refl s⟩
  | cons t g ih =>
    obtain ⟨fuel, rfl⟩ : ∃ n, fuel = n + 1 := ⟨fuel - 1, by simp at enough; omega⟩
    have goesOn : ¬ (decide (s.stream.count = 0) ||
        !stalled && ready plan plan.grammar.entryRule.body s) = true := by
      have shut := Bool.eq_false_iff.2 (not_ready_of_garbage h declares garbage (by simp) visible)
      rw [ready_entry declares, shut, TokenStream.count_eq_length, visible]
      simp
    rw [skip, if_neg goesOn]
    have taken : (s.consume none).1.stream.visible = g ++ rest := by
      rw [visible_consume, visible]
      rfl
    obtain ⟨passes, even⟩ := ih (fun t mem => garbage t (List.mem_cons_of_mem _ mem)) taken fuel false
      (fun _ => rfl) (by simpa using enough)
    exact ⟨⟨passes.visible, passes.errors.trans (errors_consume _ _)⟩, even.trans (.consume s)⟩

/-! ### Documents -/

/-- What is left behind the declarations and the garbage that are next: nothing, or a declaration. -/
theorem ready_of_pieces {pieces : List (List Token × List Token)}
    (parts : ∀ piece ∈ pieces, plan.grammar.Declaration depth element piece.1) :
    (pieces.flatMap fun piece => piece.1 ++ piece.2) = [] ∨
      ∀ u : State, u.stream.visible = (pieces.flatMap fun piece => piece.1 ++ piece.2) →
        ready plan item u = true := by
  cases pieces with
  | nil => exact .inl rfl
  | cons piece pieces =>
    obtain ⟨first, -⟩ := List.forall_mem_cons.1 parts
    obtain ⟨t, w, eq⟩ := List.exists_cons_of_ne_nil (first.ne_nil declares)
    have turn := first.turn declares
    rw [eq] at turn
    refine .inr fun u visible => ?_
    have next : u.stream.visible =
        t :: w ++ (piece.2 ++ pieces.flatMap fun piece => piece.1 ++ piece.2) := by
      rw [visible, List.flatMap_cons, eq, List.append_assoc]
    exact ready_of_derives h turn next

/-- A stretch of garbage costs one error and a restart of the entry rule. -/
theorem runEntry_stretch {front : List Token}
    (declarations : ∀ d ∈ ds, plan.grammar.Declaration depth element d)
    (garbage : plan.grammar.Garbage element front) (some_ : front ≠ [])
    (ahead : rest = [] ∨ ∀ u : State, u.stream.visible = rest → ready plan item u = true)
    (visible : s.stream.visible = ds.flatten ++ (front ++ rest)) (sure : s.recovering = false)
    (fuel : Nat) :
    ∃ u : State, runEntry plan (invoke plan depth) (fuel + 1) s =
        (if u.stream.count = 0 then u else runEntry plan (invoke plan depth) fuel u) ∧
      u.stream.visible = rest ∧ u.recovering = false ∧ u.Even (feeds plan depth item s ds) ∧
      u.errors.size = s.errors.size + 1 := by
  obtain ⟨passes, even⟩ := reads_declarations h declares declarations
    (fun u visible => not_ready_of_garbage h declares garbage some_ visible) visible
  have more : (runReported plan (invoke plan depth) plan.grammar.entryRule.body s).stream.count ≠ 0 := by
    rw [Ne, TokenStream.count_eq_zero_iff, passes.visible]
    simp [some_]
  rw [runEntry]
  dsimp only
  rw [if_neg more]
  generalize runReported plan (invoke plan depth) plan.grammar.entryRule.body s = ran at passes even
  generalize (ran.stream.count == s.stream.count) = stalled
  have enough : front.length ≤ (ran.record plan .trailingInput).stream.count := by
    change _ ≤ ran.stream.count
    rw [TokenStream.count_eq_length, passes.visible, List.length_append]
    omega
  obtain ⟨skipped, same⟩ := skip_garbage h declares garbage ahead
    (s := ran.record plan .trailingInput) passes.visible _ stalled (fun none => absurd none some_) enough
  refine ⟨{ skip plan _ stalled (ran.record plan .trailingInput) with recovering := false }, rfl,
    skipped.visible, rfl, ⟨⟨?_, ?_, ?_⟩, ?_⟩, ?_⟩
  · exact same.arena.trans even.arena
  · exact (recovering_feeds h declares declarations sure).symm
  · exact same.incidents.trans even.incidents
  · exact same.content.trans even.content
  · rw [skipped.errors]
    simp [State.record, passes.errors]

/-- The entry rule builds what it builds of the declarations alone, and reports each stretch of garbage. -/
theorem runEntry_garbage {pieces : List (List Token × List Token)} (ds : List (List Token))
    (front : List Token) (declarations : ∀ d ∈ ds, plan.grammar.Declaration depth element d)
    (parts : ∀ piece ∈ pieces, plan.grammar.Declaration depth element piece.1)
    (garbage : ∀ g ∈ front :: pieces.map Prod.snd, plan.grammar.Garbage element g)
    (visible : s.stream.visible =
      ds.flatten ++ (front ++ pieces.flatMap fun piece => piece.1 ++ piece.2))
    (sure : s.recovering = false) (fuel : Nat)
    (enough : (front :: pieces.map Prod.snd).countP (!·.isEmpty) < fuel) :
    (runEntry plan (invoke plan depth) fuel s).Even
        (feeds plan depth item s (ds ++ pieces.map Prod.fst)) ∧
      (runEntry plan (invoke plan depth) fuel s).errors.size =
        s.errors.size + (front :: pieces.map Prod.snd).countP (!·.isEmpty) := by
  induction pieces generalizing ds front s fuel with
  | nil =>
    obtain ⟨fuel, rfl⟩ : ∃ n, fuel = n + 1 := ⟨fuel - 1, by omega⟩
    rw [List.map_nil, List.append_nil]
    by_cases none : front = []
    · subst none
      have stopped : ∀ u : State, u.stream.visible = [] → ¬ ready plan item u = true := by
        intro u visible isReady
        simp [ready, TokenStream.peek?_eq_head?, visible] at isReady
      obtain ⟨passes, even⟩ := reads_declarations h declares declarations stopped (by simpa using visible)
      rw [runEntry]
      dsimp only
      rw [if_pos (TokenStream.count_eq_zero_iff.2 passes.visible), passes.errors]
      exact ⟨even, by simp⟩
    · obtain ⟨u, restart, left, -, even, errors⟩ := runEntry_stretch h declares declarations
        (garbage front List.mem_cons_self) none (.inl rfl) visible sure fuel
      rw [restart, if_pos (TokenStream.count_eq_zero_iff.2 left), errors]
      exact ⟨even, by simp [none]⟩
  | cons piece pieces ih =>
    obtain ⟨d, g⟩ := piece
    obtain ⟨first, others⟩ := List.forall_mem_cons.1 parts
    obtain ⟨frontGarbage, behind⟩ := List.forall_mem_cons.1 garbage
    by_cases none : front = []
    · -- the declaration follows the ones before it at once
      subst none
      have joined : ∀ d' ∈ ds ++ [d], plan.grammar.Declaration depth element d' :=
        List.forall_mem_append.2 ⟨declarations, by simpa using first⟩
      have ran := ih (ds ++ [d]) g joined others behind (by simpa using visible) sure fuel
        (by simpa using enough)
      simpa using ran
    · obtain ⟨fuel, rfl⟩ : ∃ n, fuel = n + 1 := ⟨fuel - 1, by omega⟩
      obtain ⟨u, restart, left, sure', even, errors⟩ := runEntry_stretch h declares declarations
        frontGarbage none (ready_of_pieces h declares parts) visible sure fuel
      have more : u.stream.count ≠ 0 := by
        rw [Ne, TokenStream.count_eq_zero_iff, left]
        simp [first.ne_nil declares]
      have counted : (front :: ((d, g) :: pieces).map Prod.snd).countP (!·.isEmpty) =
          (g :: pieces.map Prod.snd).countP (!·.isEmpty) + 1 := by
        rw [List.countP_cons_of_pos (by simpa using none)]
        rfl
      rw [counted] at enough ⊢
      rw [restart, if_neg more]
      obtain ⟨further, errors'⟩ := ih [d] g (by simpa using first) others behind
        (by simpa using left) sure' fuel (by omega)
      have all : ∀ d' ∈ [d] ++ pieces.map Prod.fst, plan.grammar.Declaration depth element d' :=
        List.forall_mem_cons.2 ⟨first, List.forall_mem_map.2 others⟩
      refine ⟨further.trans ?_, by rw [errors', errors]; omega⟩
      have together : feeds plan depth item s (ds ++ ((d, g) :: pieces).map Prod.fst) =
          feeds plan depth item (feeds plan depth item s ds) ([d] ++ pieces.map Prod.fst) :=
        List.foldl_append
      rw [together]
      exact even_feeds h declares plan.textEnd all even

end Declarations

end Interpreter

namespace Parser

open Interpreter Grammar State

variable {p : Parser} {item : Element} {element : RuleId} {depth : Nat} {front : List Token}
  {pieces : List (List Token × List Token)}

/-- Each stretch of garbage has a token of its own. -/
theorem countP_garbage_le (front : List Token) (pieces : List (List Token × List Token)) :
    (front :: pieces.map Prod.snd).countP (!·.isEmpty) ≤
      (front ++ pieces.flatMap fun piece => piece.1 ++ piece.2).length := by
  induction pieces generalizing front with
  | nil => cases front <;> simp
  | cons piece pieces ih =>
    have later := ih piece.2
    rw [List.length_append] at later ⊢
    rw [List.map_cons, List.flatMap_cons, List.length_append, List.length_append]
    cases front with
    | nil =>
      rw [List.countP_cons_of_neg (by simp)]
      omega
    | cons t front =>
      rw [List.countP_cons_of_pos (by simp), List.length_cons]
      omega

theorem sublist_declarations (pieces : List (List Token × List Token)) :
    (pieces.flatMap Prod.fst).Sublist (pieces.flatMap fun piece => piece.1 ++ piece.2) := by
  induction pieces with
  | nil => exact .refl _
  | cons piece pieces ih =>
    rw [List.flatMap_cons, List.flatMap_cons, List.append_assoc]
    exact ((ih.trans (List.sublist_append_right _ _)).append_left _)

/-- Tokens that look like visible ones are visible. -/
theorem isVisible_of_reading {lexed : LexResult} {tokens : List Token}
    (same : lexed.reading = tokens.map Token.reading) : ∀ t ∈ tokens, t.isVisible = true := by
  intro t mem
  have seen : t.reading ∈ lexed.reading := by
    rw [same]
    exact List.mem_map_of_mem mem
  obtain ⟨u, inside, eq⟩ := List.mem_map.1 seen
  rw [Token.isVisible, ← Token.kind_of_reading eq]
  exact (List.mem_filter.1 inside).2

/-- The document that consists of the given tokens alone. -/
def plain (tokens : List Token) : LexResult := ⟨tokens, []⟩

theorem reading_plain {tokens : List Token} (shown : ∀ t ∈ tokens, t.isVisible = true) :
    (plain tokens).reading = tokens.map Token.reading := by
  rw [LexResult.reading, plain, List.filter_eq_self.2 shown]

theorem opened_plain (p : Parser) {tokens : List Token} (shown : ∀ t ∈ tokens, t.isVisible = true)
    (size : tokens.length ≤ p.limits.maxTokens) :
    p.opened (plain tokens) = {
      stream := .of tokens
      frame := { rule := p.grammar.entry, content := .object { type := some p.grammar.entryType } } } := by
  have kept : visibleCount (plain tokens).tokens ≤ p.limits.maxTokens := by
    rwa [visibleCount, plain, List.filter_eq_self.2 shown]
  rw [opened, cutAfter_of_le kept]
  rfl

/-- A document of declarations and garbage is read like the declarations alone. -/
theorem ended_of_pieces {lexed : LexResult} (ds : List (List Token)) (front : List Token)
    (pieces : List (List Token × List Token))
    (predicting : Predicting (p.planFor lexed)) (declares : p.grammar.Declares item element)
    (declarations : ∀ d ∈ ds, p.grammar.Declaration (p.limits.maxRuleDepth - 1) element d)
    (parts : ∀ piece ∈ pieces, p.grammar.Declaration (p.limits.maxRuleDepth - 1) element piece.1)
    (garbage : ∀ g ∈ front :: pieces.map Prod.snd, p.grammar.Garbage element g)
    (visible : (p.opened lexed).stream.visible =
      ds.flatten ++ (front ++ pieces.flatMap fun piece => piece.1 ++ piece.2))
    (noErrors : (p.opened lexed).errors = #[]) :
    (p.ended lexed).Even (feeds (p.planFor lexed) (p.limits.maxRuleDepth - 1) item (p.opened lexed)
        (ds ++ pieces.map Prod.fst)) ∧
      (p.ended lexed).errors.size = (front :: pieces.map Prod.snd).countP (!·.isEmpty) := by
  have enough : (front :: pieces.map Prod.snd).countP (!·.isEmpty) < (p.opened lexed).stream.count + 1 := by
    have few := countP_garbage_le front pieces
    rw [TokenStream.count_eq_length, visible, List.length_append]
    omega
  obtain ⟨even, errors⟩ := runEntry_garbage predicting declares ds front declarations parts garbage visible
    rfl _ enough
  refine ⟨even, errors.trans ?_⟩
  rw [noErrors]
  exact Nat.zero_add _

/-- **Garbage between declarations costs one error and no declaration.** Let the visible tokens of one
document be some declarations, and those of another one the same with garbage in front of them, between them
and behind them. Then both are parsed to the same tree, up to sources, and the other one with one error for
each stretch of garbage that is not empty. -/
theorem parse_amid_garbage (p : Parser)
    (apart : ∀ rule ∈ p.grammar.rules, rule.kind.terminal? ≠ some .keyword)
    (predictive : p.grammar.Predictive) (declares : p.grammar.Declares item element)
    {lexed lexed' : LexResult} (nesting : depth + 1 ≤ p.limits.maxRuleDepth)
    (parts : ∀ piece ∈ pieces, p.grammar.Derives depth (.call element) piece.1)
    (garbage : ∀ g ∈ front :: pieces.map Prod.snd, p.grammar.Garbage element g)
    (noisy : lexed.reading = (front ++ pieces.flatMap fun piece => piece.1 ++ piece.2).map Token.reading)
    (clean : lexed'.reading = (pieces.flatMap Prod.fst).map Token.reading)
    (size : visibleCount lexed.tokens ≤ p.limits.maxTokens) :
    (p.parse lexed).ast.bare = (p.parse lexed').ast.bare ∧
      (p.parse lexed).parseErrors.length = (front :: pieces.map Prod.snd).countP (!·.isEmpty) := by
  have shown := isVisible_of_reading noisy
  have shown' := isVisible_of_reading clean
  have declarations : ∀ d ∈ pieces.map Prod.fst,
      p.grammar.Declaration (p.limits.maxRuleDepth - 1) element d := by
    rw [List.forall_mem_map]
    exact fun piece mem => ⟨(parts piece mem).mono (Nat.le_sub_one_of_lt nesting), fun t inside =>
      shown' t (List.mem_flatMap.2 ⟨piece, mem, inside⟩)⟩
  -- neither blanks nor places matter, so both documents may be taken to consist of these tokens alone
  have reading := reading_plain shown
  have reading' := reading_plain shown'
  obtain ⟨bare, wording⟩ := p.parse_of_reading lexed _ (noisy.trans reading.symm)
  obtain ⟨bare', -⟩ := p.parse_of_reading lexed' _ (clean.trans reading'.symm)
  have fits : (front ++ pieces.flatMap fun piece => piece.1 ++ piece.2).length ≤ p.limits.maxTokens := by
    have lengths := congrArg List.length noisy
    rw [LexResult.reading, List.length_map, List.length_map] at lengths
    exact lengths ▸ size
  have fits' : (pieces.flatMap Prod.fst).length ≤ p.limits.maxTokens := by
    refine Nat.le_trans (List.Sublist.length_le ?_) fits
    exact (sublist_declarations pieces).trans (List.sublist_append_right _ _)
  have opened := p.opened_plain shown fits
  have opened' := p.opened_plain shown' fits'
  have predicting := fun tokens => p.predicting_planFor (plain tokens) apart predictive
  obtain ⟨even, errors⟩ := ended_of_pieces [] front pieces (predicting _) declares (by simp)
    (List.forall_mem_map.1 declarations) garbage (by rw [opened]; exact visible_of shown) (by rw [opened])
  have visible' : (p.opened (plain (pieces.flatMap Prod.fst))).stream.visible =
      (pieces.map Prod.fst).flatten ++ ([] ++ [].flatMap fun piece : List Token × List Token => piece.1 ++ piece.2) := by
    rw [opened', visible_of shown']
    simp [List.flatMap_def]
  obtain ⟨even', -⟩ := ended_of_pieces _ [] [] (predicting _) declares declarations (by simp)
    (by simp [Garbage]) visible' (by rw [opened'])
  have starts : (p.opened (plain (front ++ pieces.flatMap fun piece => piece.1 ++ piece.2))).Even
      (p.opened (plain (pieces.flatMap Prod.fst))) := by
    rw [opened, opened']
    exact ⟨⟨rfl, rfl, rfl⟩, rfl⟩
  rw [List.map_nil, List.append_nil] at even'
  have fed := even.trans (even_feeds (predicting _) declares
    (p.planFor (plain (pieces.flatMap Prod.fst))).textEnd declarations starts)
  have ended := fed.trans even'.symm
  refine ⟨bare.trans (.trans ?_ bare'.symm), ?_⟩
  · rw [parse_eq, parse_eq]
    exact bare_finish _ _ ended.content ended.arena
  · have lengths := congrArg List.length wording
    rw [List.length_map, List.length_map] at lengths
    rw [lengths, parse_eq, ← errors]
    simp [errors_finish]

end Parser

/-! ### Domain models -/

/-- What a node holds does not depend on sources. -/
theorem Ast.children_of_bare {a b : Ast} (same : a.bare = b.bare) (id : NodeId) (property : String) :
    a.children id property = b.children id property := by
  have nodes : ∀ c : Ast, c.bare.children id property = c.children id property := by
    intro c
    unfold Ast.children Ast.node? Ast.bare
    rw [Array.getElem?_map, Option.map_map]
    rfl
  rw [← nodes a, same, nodes b]

namespace DomainModel

open Grammar

/-- A package and a class end with a brace, and a datatype with its name. -/
theorem closed_element : grammar.Closed (.call elementRule) := by
  have package : grammar.Closed (.call packageRule) :=
    .rule rfl rfl (.item (.item (.item (.item (.last .keyword)))))
  have dataType : grammar.Closed (.call dataTypeRule) :=
    .rule rfl rfl (.item (.last (.assign (.token rfl rfl))))
  have class_ : grammar.Closed (.call classRule) :=
    .rule rfl rfl (.item (.item (.item (.item (.item (.last .keyword))))))
  have type : grammar.Closed (.call typeRule) :=
    .rule rfl rfl (.alternatives (by simp [dataType, class_]))
  exact .rule rfl rfl (.alternatives (by simp [package, type]))

theorem declares_element :
    grammar.Declares (.assign "elements" .append (.call elementRule)) elementRule where
  body := rfl
  assigns := ⟨_, _, rfl⟩
  known := ⟨_, rfl⟩
  closed := closed_element

/-- Whether a declaration can start with a token. -/
def opens (t : Token) : Bool := ["package", "datatype", "class"].any t.isKeyword

theorem opens_of_starts {t : Token} {x : Symbol} (starts : grammar.Starts (.call elementRule) x)
    (fits : x.Matches t) : opens t = true := by
  have first : (Lookahead.of grammar).first (.call elementRule) =
      { keywords := ["class", "datatype", "package"], kinds := [] } := by decide +kernel
  rw [← Lookahead.first_has_iff, first] at starts
  cases x with
  | keyword text =>
    have listed : text = "class" ∨ text = "datatype" ∨ text = "package" := by
      simpa [FirstSet.Has] using starts
    have matched : t.isKeyword text = true := fits
    rcases listed with rfl | rfl | rfl <;> simp [opens, matched]
  | kind k => simp [FirstSet.Has] at starts

/-- **Garbage between declarations costs one error and no declaration.** Let the visible tokens of a document
be declarations of a domain model, with tokens in front of them, between them and behind them none of which
is the keyword of a declaration. Then it is parsed to the same tree, up to sources, as the declarations
alone, so its root has the same elements, and the number of errors is that of the places with such tokens. -/
theorem parse_of_garbage (limits : Limits) {lexed lexed' : LexResult} {depth : Nat} {front : List Token}
    {pieces : List (List Token × List Token)} (nesting : depth + 1 ≤ limits.maxRuleDepth)
    (declarations : ∀ piece ∈ pieces, grammar.Derives depth (.call elementRule) piece.1)
    (garbage : ∀ g ∈ front :: pieces.map Prod.snd, ∀ t ∈ g, opens t = false)
    (noisy : lexed.reading = (front ++ pieces.flatMap fun piece => piece.1 ++ piece.2).map Token.reading)
    (clean : lexed'.reading = (pieces.flatMap Prod.fst).map Token.reading)
    (size : Parser.visibleCount lexed.tokens ≤ limits.maxTokens) :
    ((parser limits).parse lexed).ast.bare = ((parser limits).parse lexed').ast.bare ∧
      ((parser limits).parse lexed).ast.children ((parser limits).parse lexed).ast.root "elements" =
        ((parser limits).parse lexed').ast.children ((parser limits).parse lexed').ast.root "elements" ∧
      ((parser limits).parse lexed).parseErrors.length =
        (front :: pieces.map Prod.snd).countP (!·.isEmpty) := by
  have noise : ∀ g ∈ front :: pieces.map Prod.snd, grammar.Garbage elementRule g := by
    intro g mem t inside x starts fits
    have shut := garbage g mem t inside
    rw [opens_of_starts starts fits] at shut
    cases shut
  have apart : ∀ rule ∈ grammar.rules, rule.kind.terminal? ≠ some .keyword := by decide +kernel
  obtain ⟨same, errors⟩ := (parser limits).parse_amid_garbage apart grammar_predictive declares_element
    nesting declarations noise noisy clean size
  have root : ((parser limits).parse lexed).ast.root = ((parser limits).parse lexed').ast.root := by
    have roots := congrArg Ast.root same
    exact roots
  refine ⟨same, ?_, errors⟩
  rw [root]
  exact Ast.children_of_bare same _ _

/-- Two datatypes, with tokens in front of them and between them. -/
def noisyDatatypes : LexResult := Lexer.tokenize grammar.keywords "\x7d datatype A . x datatype B"

/-- The datatypes alone. -/
def twoDatatypes : LexResult := Lexer.tokenize grammar.keywords "datatype A datatype B"

theorem derives_datatype {word name : Token} (keyword : word.isKeyword "datatype" = true)
    (identifier : name.kind = .identifier) : grammar.Derives 4 (.call elementRule) [word, name] := by
  have known : grammar.terminal? nameRule = some name.kind := by
    rw [identifier]
    rfl
  have named : grammar.Derives 0 (.assign "name" .set (.call nameRule)) [name] := .assign (.token rfl known)
  have declared : grammar.Derives 1 (.call dataTypeRule) [word, name] :=
    .rule rfl rfl (.cons (v := [word]) (.keyword keyword) (.cons (v := [name]) named .nil))
  exact (Derives.rule rfl rfl (.alternative (.tail _ (.head _))
    (.rule rfl rfl (.alternative (.head _) declared)))).mono (by decide)

/-- Two errors are reported, and both datatypes are there. -/
theorem parse_noisyDatatypes :
    ((parser {}).parse noisyDatatypes).ast.bare = ((parser {}).parse twoDatatypes).ast.bare ∧
      (((parser {}).parse noisyDatatypes).ast.children ((parser {}).parse noisyDatatypes).ast.root
        "elements").length = 2 ∧
      ((parser {}).parse noisyDatatypes).parseErrors.length = 2 := by
  obtain ⟨same, -, errors⟩ := @parse_of_garbage {} noisyDatatypes twoDatatypes 4
    [⟨.keyword, "\x7d", 0⟩]
    [([⟨.keyword, "datatype", 2⟩, ⟨.identifier, "A", 11⟩], [⟨.keyword, ".", 13⟩, ⟨.identifier, "x", 15⟩]),
      ([⟨.keyword, "datatype", 17⟩, ⟨.identifier, "B", 26⟩], [])]
    (by decide) (by simp [derives_datatype, Token.isKeyword]) (by decide) (by decide +kernel)
    (by decide +kernel) (by decide +kernel)
  exact ⟨same, by decide +kernel, errors⟩

end DomainModel

end Workbench
