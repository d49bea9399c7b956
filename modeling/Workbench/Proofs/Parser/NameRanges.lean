import Workbench.Proofs.Parser.Adoption
import Workbench.Proofs.Parser.Items
import Workbench.Scope

/-!
**Where a name is said to stand.**

A description says of a name where it stands in its document: in the first tree that is assigned to the
name. But a later assignment overwrites the name, also one after an error, when the entry rule runs again,
and the name of a node that is taken over goes before that of the caller. So the name is the text of one of
the tokens assigned to it, mostly the last one, and the range is that of the first. A law says which tokens
these are. The range is the place of the name if and only if the first of the tokens spells the name.
-/

namespace Workbench

open SourceTree State

/-! ### Tokens of a text -/

/-- Where a token starts tells which token it is. -/
theorem Token.InOrder.eq_of_offset {tokens : List Token} (ordered : InOrder tokens) {t u : Token}
    (memT : t ∈ tokens) (memU : u ∈ tokens) (same : t.offset = u.offset) : t = u := by
  have solidT := ordered.solid t memT
  have solidU := ordered.solid u memU
  obtain ⟨i, bound, rfl⟩ := List.mem_iff_getElem.1 memT
  obtain ⟨j, bound', rfl⟩ := List.mem_iff_getElem.1 memU
  have apart := List.pairwise_iff_getElem.1 ordered.apart
  rcases Nat.lt_trichotomy i j with before | rfl | behind
  · have := apart i j bound bound' before
    omega
  · rfl
  · have := apart j i bound' bound behind
    omega

/-- The tokens assigned to a feature below a tree of a document are tokens of the text. -/
theorem Parser.mem_tokens_of_assigned (p : Parser) (keywords : List String) (text : String) {id : NodeId}
    {n : AstNode} {source : SourceTree} {t : Token} {feature : String}
    (found : (p.parse (Lexer.tokenize keywords text)).ast.node? id = some n)
    (has : n.source = some source) (mem : .leaf t (some feature) ∈ source.assignedTo feature) :
    t ∈ (Lexer.tokenize keywords text).tokens := by
  obtain ⟨inner, below⟩ := exists_at?_of_mem_assignedTo mem
  obtain ⟨around, above, -⟩ :=
    ((p.corresponds_parse keywords text).source_iff id source).1 ⟨n, found, has⟩
  have leaf := sublist_of_at? leaves_children below
  have kept := (sublist_of_at? leaves_children above)
  rw [leaves_source_parse] at kept
  exact ((leaf.trans kept).trans (sublist_cutAfter _ _)).subset (by simp [leaves])

/-! ### Merging -/

namespace Properties

variable {v w : Option Value} {s : String}

theorem merged_eq_none (h : merged v w = none) : v = none ∧ w = none := by
  cases w with
  | none => exact ⟨h, rfl⟩
  | some mine => cases v with
    | none => simp [merged_none_left] at h
    | some theirs => cases theirs <;> cases mine <;> cases h

theorem merged_eq_text (h : merged v w = some (.text s)) :
    w = some (.text s) ∨ w = none ∧ v = some (.text s) := by
  cases w with
  | none => exact .inr ⟨rfl, h⟩
  | some mine => cases v with
    | none => exact .inl (by simpa only [merged_none_left] using h)
    | some theirs => cases theirs <;> cases mine <;> cases h <;> exact .inl rfl

end Properties

/-! ### The law of names -/

/-- The name is only written by single assignments of names, each from one token. -/
structure Grammar.NamesTokens (g : Grammar) : Prop where
  written : ∀ op value, g.Contains (.assign "name" op value) → op = .set ∧ ∃ id rule kind,
    value = .call id ∧ g.rules[id]? = some rule ∧ rule.kind = .terminal kind .id
  unwrapped : ∀ type op, ¬ g.Contains (.action type (some ("name", op)))

/-- Whether a rule is one for tokens that are read as names. -/
def RuleKind.isName : RuleKind → Bool
  | .terminal _ value => value == .id
  | _ => false

/-- Whether an element writes the name by single assignments of names only. -/
def Element.namesTokens (rules : Array Rule) : Element → Bool
  | .assign feature op value => feature != "name" || op == .set &&
      match value with
      | .call id => (rules[id]?).any (·.kind.isName)
      | _ => false
  | .action _ (some (feature, _)) => feature != "name"
  | _ => true

/-- That the name is only written by single assignments of names can be checked. -/
theorem Grammar.namesTokens_of_check {g : Grammar}
    (places : (g.rules.all fun rule =>
      (rule.body.places []).all fun place => place.1.namesTokens g.rules) = true) : g.NamesTokens where
  written op value stands := by
    have fine := stands.checked places
    cases value with
    | call id =>
      simp only [Element.namesTokens, bne_self_eq_false, Bool.false_or, Bool.and_eq_true, beq_iff_eq,
        Option.any_eq_true] at fine
      obtain ⟨set, rule, known, isName⟩ := fine
      cases kind : rule.kind with
      | terminal token value =>
        rw [kind, RuleKind.isName, beq_iff_eq] at isName
        exact ⟨set, id, rule, token, rfl, known, isName ▸ kind⟩
      | parser => simp [kind, RuleKind.isName] at isName
      | dataType => simp [kind, RuleKind.isName] at isName
    | _ => simp [Element.namesTokens] at fine
  unwrapped type op stands := by simpa [Element.namesTokens] using stands.checked places

/-- Tokens were assigned to the name, and the name is what one of them spells; the last one, if every object
has a type. -/
def NamedBy (g : Grammar) (value : Option Value) (trees : List SourceTree) : Prop :=
  ∃ tokens : List Token, trees = tokens.map (.leaf · (some "name")) ∧
    (∀ s, value = some (.text s) → ∃ t ∈ tokens, Text.stripCaret t.image = s) ∧
    (g.Typed → (value = none → tokens = []) ∧
      ∀ s, value = some (.text s) → ∃ t ∈ tokens.getLast?, Text.stripCaret t.image = s)

theorem Grammar.NamesTokens.assigned {g : Grammar} (names : g.NamesTokens) {op : AssignOp} {e : Element}
    (assigns : g.Assigns "name" op e) : op = .set ∧ ∃ id rule kind,
      e = .call id ∧ g.rules[id]? = some rule ∧ rule.kind = .terminal kind .id := by
  induction assigns with
  | value stands => exact names.written op _ stands
  | alternative _ _ ih =>
    obtain ⟨-, id, rule, kind, eq, -⟩ := ih
    cases eq

theorem law_namedBy {g : Grammar} (names : g.NamesTokens) : Law g "name" fun _ => NamedBy g where
  grows _ := id
  nothing := ⟨[], rfl, nofun, fun _ => ⟨fun _ => rfl, nofun⟩⟩
  writes {references v trees op e tree x} assigns yields := by
    rintro ⟨tokens, rfl, -, -⟩
    obtain ⟨rfl, id, rule, kind, rfl, known, terminal⟩ := names.assigned assigns
    cases yields with
    | @token t _ rule' kind' value known' terminal' matched =>
      obtain rfl := Option.some.inj (known.symm.trans known')
      obtain ⟨rfl, rfl⟩ := RuleKind.terminal.inj (terminal.symm.trans terminal')
      have spelled : ∀ s, AssignOp.set.written (ValueKind.id.convert t.image) v = some (.text s) →
          Text.stripCaret t.image = s := by
        rintro s ⟨⟩
        rfl
      refine ⟨tokens ++ [t], by simp, fun s eq => ⟨t, by simp, spelled s eq⟩, fun _ => ⟨nofun, ?_⟩⟩
      exact fun s eq => ⟨t, by simp, spelled s eq⟩
    | node known' parser =>
      obtain rfl := Option.some.inj (known.symm.trans known')
      rw [terminal] at parser
      cases parser
    | data known' data =>
      obtain rfl := Option.some.inj (known.symm.trans known')
      rw [terminal] at data
      cases data
  joins := by
    rintro references v w _ _ ⟨tokens, rfl, spelled, last⟩ ⟨others, rfl, spelled', last'⟩
    refine ⟨tokens ++ others, by simp, fun s eq => ?_, fun typed => ⟨fun eq => ?_, fun s eq => ?_⟩⟩
    · rcases Properties.merged_eq_text eq with mine | ⟨-, theirs⟩
      · obtain ⟨t, mem, spells⟩ := spelled' s mine
        exact ⟨t, List.mem_append_right _ mem, spells⟩
      · obtain ⟨t, mem, spells⟩ := spelled s theirs
        exact ⟨t, List.mem_append_left _ mem, spells⟩
    · obtain ⟨none, none'⟩ := Properties.merged_eq_none eq
      rw [(last typed).1 none, (last' typed).1 none', List.append_nil]
    · rcases Properties.merged_eq_text eq with mine | ⟨none, theirs⟩
      · obtain ⟨t, end_, spells⟩ := (last' typed).2 s mine
        exact ⟨t, by simp_all [List.getLast?_append], spells⟩
      · rw [(last' typed).1 none, List.append_nil]
        exact (last typed).2 s theirs
  defaults {references p trees} type := by
    rintro ⟨tokens, rfl, spelled, last⟩
    rcases defaulted_withDefaults g.types type p "name" with same | ⟨absent, isFalse | isNil⟩
    · rw [same]
      exact ⟨tokens, rfl, spelled, last⟩
    · rw [isFalse]
      exact ⟨tokens, rfl, nofun, fun _ => ⟨nofun, nofun⟩⟩
    · rw [isNil]
      exact ⟨tokens, rfl, nofun, fun _ => ⟨nofun, nofun⟩⟩
  drops untyped := by
    rintro references v w _ _ ⟨tokens, rfl, spelled, -⟩ ⟨others, rfl, -, -⟩
    refine ⟨tokens ++ others, by simp, fun s eq => ?_, fun typed => absurd typed untyped⟩
    obtain ⟨t, mem, spells⟩ := spelled s eq
    exact ⟨t, List.mem_append_left _ mem, spells⟩
  fulfils _ {op id rule} assigns known := by
    obtain ⟨-, id', rule', kind, eq, known', terminal⟩ := names.assigned assigns
    cases eq
    obtain rfl := Option.some.inj (known.symm.trans known')
    rw [terminal]
    rfl
  unwrapped := names.unwrapped

/-! ### Parses -/

namespace Parser

/-- **The range of a name is that of the first token assigned to it.** If the name is only written by
assignments of single tokens, then one or more tokens of the text are assigned to the name of a node that has
one, and the name is what one of them spells, the last one if every parser rule declares a type. The range
reported for the name is that of the first of them, so some token of this range spells the name if and only
if the first of them does. -/
theorem nameRange_parse (p : Parser) (names : p.grammar.NamesTokens) (keywords : List String)
    (text : String) {id : NodeId} {n : AstNode} {s : String}
    (found : (p.parse (Lexer.tokenize keywords text)).ast.node? id = some n)
    (named : n.text? "name" = some s) :
    ∃ first rest, n.assigned "name" = (first :: rest).map (.leaf · (some "name")) ∧
      (∀ t ∈ first :: rest, t ∈ (Lexer.tokenize keywords text).tokens) ∧
      (∃ t ∈ first :: rest, Text.stripCaret t.image = s) ∧
      (p.grammar.Typed → Text.stripCaret ((first :: rest).getLast (by simp)).image = s) ∧
      (p.parse (Lexer.tokenize keywords text)).ast.nameRange? id = some first.range ∧
      ((∃ t ∈ (Lexer.tokenize keywords text).tokens,
          (p.parse (Lexer.tokenize keywords text)).ast.nameRange? id = some t.range ∧
          Text.stripCaret t.image = s) ↔
        Text.stripCaret first.image = s) := by
  obtain ⟨tokens, trees, spelled, last⟩ := p.abides_parse (law_namedBy names) _ id n found
  obtain ⟨value, present, textual⟩ := Option.bind_eq_some_iff.1 named
  have present : n.get? "name" = some (.text s) := by
    rw [present]
    cases value <;> cases textual
    rfl
  obtain ⟨t, mem, spells⟩ := spelled s present
  have ⟨source, has⟩ : ∃ source, n.source = some source := by
    refine Option.isSome_iff_exists.1 (Option.isSome_iff_ne_none.2 fun none => ?_)
    rw [AstNode.assigned, none] at trees
    rw [List.map_eq_nil_iff.1 trees.symm] at mem
    cases mem
  have assigned : n.assigned "name" = source.assignedTo "name" := by
    rw [AstNode.assigned, has]
    rfl
  have present' : ∀ t ∈ tokens, t ∈ (Lexer.tokenize keywords text).tokens := by
    intro t mem
    have among : .leaf t (some "name") ∈ source.assignedTo "name" := by
      rw [← assigned, trees]
      exact List.mem_map_of_mem mem
    exact p.mem_tokens_of_assigned keywords text found has among
  obtain _ | ⟨first, rest⟩ := tokens
  · cases mem
  have range : (p.parse (Lexer.tokenize keywords text)).ast.nameRange? id = some first.range := by
    rw [Ast.nameRange?, Ast.propertyRange?, found]
    simp [AstNode.propertyRange?, has, ← assigned, trees, SourceTree.range]
  refine ⟨first, rest, trees, present', ⟨t, mem, spells⟩, fun typed => ?_, range, ?_⟩
  · obtain ⟨u, end_, spells⟩ := (last typed).2 s present
    rw [List.getLast?_eq_some_getLast (by simp)] at end_
    rwa [Option.mem_some.1 end_]
  · rw [range]
    constructor
    · rintro ⟨u, mem, same, spells⟩
      have start : first.offset = u.offset := congrArg TextRange.start (Option.some.inj same)
      rwa [(Lexer.inOrder_tokenize keywords text).eq_of_offset (present' first (by simp)) mem start]
    · exact fun spells => ⟨first, present' first (by simp), rfl, spells⟩

/-- An item that is renamed is called by its second name, but is said to have it where the first stands. -/
theorem nameRange_parse_renamed :
    ∃ n, (crates.parse (Lexer.tokenize ["as", "item", "more"] "item a as b")).ast.node? 0 = some n ∧
      n.text? "name" = some "b" ∧
      (crates.parse (Lexer.tokenize ["as", "item", "more"] "item a as b")).ast.nameRange? 0 =
        some (.of 5 6) ∧
      ¬ ∃ t ∈ (Lexer.tokenize ["as", "item", "more"] "item a as b").tokens,
        (crates.parse (Lexer.tokenize ["as", "item", "more"] "item a as b")).ast.nameRange? 0 =
          some t.range ∧ Text.stripCaret t.image = "b" := by
  have shape : ((crates.parse (Lexer.tokenize ["as", "item", "more"] "item a as b")).ast.node? 0).map
      (fun n => (n.text? "name", (n.assigned "name").map SourceTree.leaves)) =
        some (some "b", [[⟨.identifier, "a", 5⟩], [⟨.identifier, "b", 10⟩]]) := by
    decide +kernel
  obtain ⟨n, found, eq⟩ := Option.map_eq_some_iff.1 shape
  obtain ⟨named, leaves⟩ := Prod.mk.inj eq
  obtain ⟨first, rest, trees, -, -, -, range, spelled⟩ := crates.nameRange_parse
    (Grammar.namesTokens_of_check (by decide +kernel)) ["as", "item", "more"] "item a as b" found named
  rw [trees, List.map_cons, List.map_cons, List.cons.injEq, SourceTree.leaves] at leaves
  obtain rfl : first = ⟨.identifier, "a", 5⟩ := by simpa using leaves.1
  exact ⟨n, found, named, range, spelled.not.2 (by decide +kernel)⟩

end Parser

end Workbench
