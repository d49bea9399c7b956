import Workbench.Grammar

/-!
**The language of a grammar.**

Which sequences of tokens an element derives, said without a parser: a keyword or terminal rule derives
one token, a call derives what the body of its rule does, a group concatenates, alternatives unite and
repetitions iterate. A derivation is counted by how deep it nests rule invocations.

Next to it stand the two relations by which a parser looks ahead. `Starts` gives the symbols in leftmost
position of an element (its FIRST set), `FollowsAt` those that can come after an occurrence of an
element in a rule that the entry rule reaches (its FOLLOW set). A grammar is `Predictive` if these tell
with one symbol how to go on.
-/

namespace Workbench

/-- The rule that a call or the text of a cross-reference stands for. -/
def Element.callee? : Element → Option RuleId
  | .call id | .crossRef _ id => some id
  | _ => none

namespace Grammar

/-- The body of a rule that is not a terminal rule. -/
def body? (g : Grammar) (id : RuleId) : Option Element :=
  g.rules[id]?.bind fun rule => if rule.kind.terminal?.isSome then none else some rule.body

variable {g : Grammar}

theorem body?_of_rule {id : RuleId} {rule : Rule} (known : g.rules[id]? = some rule)
    (nonterminal : rule.kind.terminal? = none) : g.body? id = some rule.body := by
  simp [body?, known, nonterminal]

theorem rule_of_body? {id : RuleId} {body : Element} (h : g.body? id = some body) :
    ∃ rule, g.rules[id]? = some rule ∧ rule.kind.terminal? = none ∧ rule.body = body := by
  obtain ⟨rule, known, eq⟩ := Option.bind_eq_some_iff.1 h
  split at eq
  · cases eq
  · next nonterminal =>
    cases eq
    exact ⟨rule, known, by simpa using nonterminal, rfl⟩

theorem body?_entry (g : Grammar) : g.body? g.entry = some g.entryRule.body :=
  body?_of_rule g.entry_eq (by rw [g.entry_kind]; rfl)

/-! ### Derivations -/

/-- `g.Derives depth e w`: the element `e` derives the tokens `w`, nesting at most `depth` invocations
of rules. A terminal rule is not invoked. -/
inductive Derives (g : Grammar) : Nat → Element → List Token → Prop where
  | keyword {depth : Nat} {text : String} {t : Token} (fits : t.isKeyword text = true) :
    Derives g depth (.keyword text) [t]
  | token {depth : Nat} {e : Element} {id : RuleId} {t : Token} (calls : e.callee? = some id)
    (terminal : g.terminal? id = some t.kind) : Derives g depth e [t]
  | rule {depth : Nat} {e body : Element} {id : RuleId} {w : List Token}
    (calls : e.callee? = some id) (known : g.body? id = some body)
    (inside : Derives g depth body w) : Derives g (depth + 1) e w
  | assign {depth : Nat} {feature : String} {op : AssignOp} {value : Element} {w : List Token}
    (inside : Derives g depth value w) : Derives g depth (.assign feature op value) w
  | action {depth : Nat} {type : TypeId} {into : Option (String × AssignOp)} :
    Derives g depth (.action type into) []
  | nil {depth : Nat} : Derives g depth (.group []) []
  | cons {depth : Nat} {item : Element} {rest : List Element} {v w : List Token}
    (head : Derives g depth item v) (tail : Derives g depth (.group rest) w) :
    Derives g depth (.group (item :: rest)) (v ++ w)
  | alternative {depth : Nat} {items : List Element} {item : Element} {w : List Token}
    (mem : item ∈ items) (inside : Derives g depth item w) :
    Derives g depth (.alternatives items) w
  | absent {depth : Nat} {item : Element} : Derives g depth (.repetition .optional item) []
  | present {depth : Nat} {item : Element} {w : List Token} (inside : Derives g depth item w) :
    Derives g depth (.repetition .optional item) w
  | done {depth : Nat} {item : Element} : Derives g depth (.repetition .zeroOrMore item) []
  | again {depth : Nat} {item : Element} {v w : List Token} (head : Derives g depth item v)
    (tail : Derives g depth (.repetition .zeroOrMore item) w) :
    Derives g depth (.repetition .zeroOrMore item) (v ++ w)
  | atLeast {depth : Nat} {item : Element} {v w : List Token} (head : Derives g depth item v)
    (tail : Derives g depth (.repetition .zeroOrMore item) w) :
    Derives g depth (.repetition .oneOrMore item) (v ++ w)

/-- The tokens `w` are in the language of the element `e`. -/
def Generates (g : Grammar) (e : Element) (w : List Token) : Prop := ∃ depth, g.Derives depth e w

theorem Derives.mono {depth more : Nat} {e : Element} {w : List Token} (h : g.Derives depth e w)
    (le : depth ≤ more) : g.Derives more e w := by
  induction h generalizing more with
  | keyword fits => exact .keyword fits
  | token calls terminal => exact .token calls terminal
  | rule calls known _ ih =>
    obtain ⟨more, rfl⟩ := Nat.exists_eq_add_of_lt (Nat.lt_of_succ_le le)
    exact .rule calls known (ih (by omega))
  | assign _ ih => exact .assign (ih le)
  | action => exact .action
  | nil => exact .nil
  | cons _ _ ihHead ihTail => exact .cons (ihHead le) (ihTail le)
  | alternative mem _ ih => exact .alternative mem (ih le)
  | absent => exact .absent
  | present _ ih => exact .present (ih le)
  | done => exact .done
  | again _ _ ihHead ihTail => exact .again (ihHead le) (ihTail le)
  | atLeast _ _ ihHead ihTail => exact .atLeast (ihHead le) (ihTail le)

section Inversion

variable {depth : Nat} {w : List Token}

theorem derives_keyword {text : String} :
    g.Derives depth (.keyword text) w ↔ ∃ t, t.isKeyword text = true ∧ w = [t] := by
  constructor
  · intro h
    cases h with
    | keyword fits => exact ⟨_, fits, rfl⟩
    | token calls => cases calls
    | rule calls => cases calls
  · rintro ⟨t, fits, rfl⟩
    exact .keyword fits

theorem derives_assign {feature : String} {op : AssignOp} {value : Element} :
    g.Derives depth (.assign feature op value) w ↔ g.Derives depth value w := by
  constructor
  · intro h
    cases h with
    | assign inside => exact inside
    | token calls => cases calls
    | rule calls => cases calls
  · exact .assign

theorem derives_action {type : TypeId} {into : Option (String × AssignOp)} :
    g.Derives depth (.action type into) w ↔ w = [] := by
  constructor
  · intro h
    cases h with
    | action => rfl
    | token calls => cases calls
    | rule calls => cases calls
  · rintro rfl
    exact .action

theorem derives_nil : g.Derives depth (.group []) w ↔ w = [] := by
  constructor
  · intro h
    cases h with
    | nil => rfl
    | token calls => cases calls
    | rule calls => cases calls
  · rintro rfl
    exact .nil

theorem derives_cons {item : Element} {rest : List Element} :
    g.Derives depth (.group (item :: rest)) w ↔
      ∃ u v, w = u ++ v ∧ g.Derives depth item u ∧ g.Derives depth (.group rest) v := by
  constructor
  · intro h
    cases h with
    | cons head tail => exact ⟨_, _, rfl, head, tail⟩
    | token calls => cases calls
    | rule calls => cases calls
  · rintro ⟨u, v, rfl, head, tail⟩
    exact .cons head tail

theorem derives_alternatives {items : List Element} :
    g.Derives depth (.alternatives items) w ↔ ∃ item ∈ items, g.Derives depth item w := by
  constructor
  · intro h
    cases h with
    | alternative mem inside => exact ⟨_, mem, inside⟩
    | token calls => cases calls
    | rule calls => cases calls
  · rintro ⟨item, mem, inside⟩
    exact .alternative mem inside

/-- What a call derives: a token of its terminal rule, or what the body of its rule does. -/
theorem Derives.of_callee? {e : Element} {id : RuleId} (h : g.Derives depth e w)
    (calls : e.callee? = some id) :
    (∃ t, g.terminal? id = some t.kind ∧ w = [t]) ∨
      ∃ body less, g.body? id = some body ∧ depth = less + 1 ∧ g.Derives less body w := by
  cases h with
  | token calls' terminal =>
    obtain rfl : _ = id := Option.some.inj (calls'.symm.trans calls)
    exact .inl ⟨_, terminal, rfl⟩
  | rule calls' known inside =>
    obtain rfl : _ = id := Option.some.inj (calls'.symm.trans calls)
    exact .inr ⟨_, _, known, rfl, inside⟩
  | _ => cases calls

end Inversion

theorem Derives.generates {depth : Nat} {e : Element} {w : List Token} (h : g.Derives depth e w) :
    g.Generates e w := ⟨depth, h⟩

namespace Generates

theorem cons {item : Element} {rest : List Element} {v w : List Token}
    (head : g.Generates item v) (tail : g.Generates (.group rest) w) :
    g.Generates (.group (item :: rest)) (v ++ w) := by
  obtain ⟨d, head⟩ := head
  obtain ⟨d', tail⟩ := tail
  exact ⟨max d d', .cons (head.mono (Nat.le_max_left ..)) (tail.mono (Nat.le_max_right ..))⟩

theorem rule {e body : Element} {id : RuleId} {w : List Token} (calls : e.callee? = some id)
    (known : g.body? id = some body) (inside : g.Generates body w) : g.Generates e w := by
  obtain ⟨depth, inside⟩ := inside
  exact ⟨depth + 1, .rule calls known inside⟩

theorem append {first rest : List Element} {v w : List Token} (left : g.Generates (.group first) v)
    (right : g.Generates (.group rest) w) : g.Generates (.group (first ++ rest)) (v ++ w) := by
  induction first generalizing v with
  | nil =>
    obtain ⟨_, derived⟩ := left
    obtain rfl := derives_nil.1 derived
    exact right
  | cons item items ih =>
    obtain ⟨depth, derived⟩ := left
    obtain ⟨u, v, rfl, head, tail⟩ := derives_cons.1 derived
    rw [List.append_assoc, List.cons_append]
    exact cons ⟨depth, head⟩ (ih ⟨depth, tail⟩)

end Generates

/-! ### Symbols in leftmost position -/

/-- What a grammar asks of a token: to be a certain keyword, or to be of a certain kind. -/
inductive Symbol where
  | keyword (text : String)
  | kind (k : TokenKind)
deriving DecidableEq, Repr

/-- The token is one that the symbol stands for. -/
def Symbol.Matches : Symbol → Token → Prop
  | .keyword text, t => t.isKeyword text = true
  | .kind k, t => t.kind = k

/-- The symbol stands in leftmost position of the element: behind nothing but elements that derive the
empty sequence, and through any number of calls. -/
inductive Starts (g : Grammar) : Element → Symbol → Prop where
  | keyword {text : String} : Starts g (.keyword text) (.keyword text)
  | token {e : Element} {id : RuleId} {kind : TokenKind} (calls : e.callee? = some id)
    (terminal : g.terminal? id = some kind) : Starts g e (.kind kind)
  | rule {e body : Element} {id : RuleId} {x : Symbol} (calls : e.callee? = some id)
    (known : g.body? id = some body) (inside : Starts g body x) : Starts g e x
  | assign {feature : String} {op : AssignOp} {value : Element} {x : Symbol}
    (inside : Starts g value x) : Starts g (.assign feature op value) x
  | head {item : Element} {rest : List Element} {x : Symbol} (inside : Starts g item x) :
    Starts g (.group (item :: rest)) x
  | tail {item : Element} {rest : List Element} {x : Symbol} (empty : g.Generates item [])
    (inside : Starts g (.group rest) x) : Starts g (.group (item :: rest)) x
  | alternative {items : List Element} {item : Element} {x : Symbol} (mem : item ∈ items)
    (inside : Starts g item x) : Starts g (.alternatives items) x
  | repetition {cardinality : Cardinality} {item : Element} {x : Symbol}
    (inside : Starts g item x) : Starts g (.repetition cardinality item) x

/-- What a sequence begins with is in leftmost position of every element that derives it. -/
theorem Derives.starts {depth : Nat} {e : Element} {t : Token} {w : List Token}
    (h : g.Derives depth e (t :: w)) : ∃ x, g.Starts e x ∧ x.Matches t := by
  generalize eq : t :: w = sequence at h
  induction h generalizing t w with
  | keyword fits =>
    cases eq
    exact ⟨_, .keyword, fits⟩
  | token calls terminal =>
    cases eq
    exact ⟨_, .token calls terminal, rfl⟩
  | rule calls known _ ih =>
    obtain ⟨x, starts, fits⟩ := ih eq
    exact ⟨x, .rule calls known starts, fits⟩
  | assign _ ih =>
    obtain ⟨x, starts, fits⟩ := ih eq
    exact ⟨x, .assign starts, fits⟩
  | action => cases eq
  | nil => cases eq
  | @cons depth item rest v w' head _ ihHead ihTail =>
    -- a head that derives nothing leaves the first token to the items behind it
    cases v with
    | nil =>
      obtain ⟨x, starts, fits⟩ := ihTail eq
      exact ⟨x, .tail head.generates starts, fits⟩
    | cons u v =>
      cases eq
      obtain ⟨x, starts, fits⟩ := ihHead rfl
      exact ⟨x, .head starts, fits⟩
  | alternative mem _ ih =>
    obtain ⟨x, starts, fits⟩ := ih eq
    exact ⟨x, .alternative mem starts, fits⟩
  | absent => cases eq
  | present _ ih =>
    obtain ⟨x, starts, fits⟩ := ih eq
    exact ⟨x, .repetition starts, fits⟩
  | done => cases eq
  | @again depth item v w' _ _ ihHead ihTail =>
    cases v with
    | nil => exact ihTail eq
    | cons u v =>
      cases eq
      obtain ⟨x, starts, fits⟩ := ihHead rfl
      exact ⟨x, .repetition starts, fits⟩
  | @atLeast depth item v w' _ _ ihHead ihTail =>
    cases v with
    | nil =>
      -- what starts the further turns starts the item, so it starts this repetition as well
      obtain ⟨x, starts, fits⟩ := ihTail eq
      cases starts with
      | repetition inside => exact ⟨x, .repetition inside, fits⟩
      | token calls => cases calls
      | rule calls => cases calls
    | cons u v =>
      cases eq
      obtain ⟨x, starts, fits⟩ := ihHead rfl
      exact ⟨x, .repetition starts, fits⟩

namespace Starts

theorem append_left {first rest : List Element} {x : Symbol} (h : g.Starts (.group first) x) :
    g.Starts (.group (first ++ rest)) x := by
  induction first with
  | nil =>
    cases h with
    | token calls => cases calls
    | rule calls => cases calls
  | cons item items ih =>
    cases h with
    | head inside => exact .head inside
    | tail empty inside => exact .tail empty (ih inside)
    | token calls => cases calls
    | rule calls => cases calls

theorem append_right {first rest : List Element} {x : Symbol} (empty : g.Generates (.group first) [])
    (h : g.Starts (.group rest) x) : g.Starts (.group (first ++ rest)) x := by
  induction first with
  | nil => exact h
  | cons item items ih =>
    obtain ⟨depth, derived⟩ := empty
    obtain ⟨u, v, eq, head, tail⟩ := derives_cons.1 derived
    obtain ⟨rfl, rfl⟩ := List.append_eq_nil_iff.1 eq.symm
    exact .tail head.generates (ih tail.generates)

end Starts

/-! ### Symbols that follow -/

/-- `Occurs body e after`: the element `e` stands in a body, and what can come after it up to the end of
the body is the sequence `after`. -/
inductive Occurs (body : Element) : Element → List Element → Prop where
  | body : Occurs body body []
  | assign {feature : String} {op : AssignOp} {value : Element} {after : List Element}
    (around : Occurs body (.assign feature op value) after) : Occurs body value after
  | item {front back after : List Element} {e : Element}
    (around : Occurs body (.group (front ++ e :: back)) after) : Occurs body e (back ++ after)
  | alternative {items after : List Element} {e : Element}
    (around : Occurs body (.alternatives items) after) (mem : e ∈ items) : Occurs body e after
  | optional {e : Element} {after : List Element}
    (around : Occurs body (.repetition .optional e) after) : Occurs body e after
  /-- After a turn of a repetition may come more turns. -/
  | turn {cardinality : Cardinality} {e : Element} {after : List Element}
    (several : cardinality ≠ .optional) (around : Occurs body (.repetition cardinality e) after) :
    Occurs body e (.repetition .zeroOrMore e :: after)

/-- The element `e` stands in the body of the rule `id`, with `after` behind it. -/
def OccursIn (g : Grammar) (id : RuleId) (e : Element) (after : List Element) : Prop :=
  ∃ body, g.body? id = some body ∧ Occurs body e after

/-- The rules that can be invoked in a parse. -/
inductive Reachable (g : Grammar) : RuleId → Prop where
  | entry : Reachable g g.entry
  | call {id callee : RuleId} {e : Element} {after : List Element} (caller : Reachable g id)
    (occurs : g.OccursIn id e after) (calls : e.callee? = some callee) : Reachable g callee

/-- The element `e` stands, with `after` behind it, in the rule `id` that can be invoked in a parse. -/
structure Stands (g : Grammar) (id : RuleId) (e : Element) (after : List Element) : Prop where
  reachable : g.Reachable id
  occurs : g.OccursIn id e after

/-- The symbols that can come right after an invocation of a rule. -/
inductive Follows (g : Grammar) : RuleId → Symbol → Prop where
  | next {id callee : RuleId} {e : Element} {after : List Element} {x : Symbol}
    (stands : g.Stands id e after) (calls : e.callee? = some callee)
    (starts : g.Starts (.group after) x) : Follows g callee x
  | last {id callee : RuleId} {e : Element} {after : List Element} {x : Symbol}
    (stands : g.Stands id e after) (calls : e.callee? = some callee)
    (empty : g.Generates (.group after) []) (follows : Follows g id x) : Follows g callee x

/-- The symbols that can come right after an occurrence with `after` behind it in the rule `id`. -/
def FollowsAt (g : Grammar) (id : RuleId) (after : List Element) (x : Symbol) : Prop :=
  g.Starts (.group after) x ∨ g.Generates (.group after) [] ∧ g.Follows id x

/-! ### Predictive grammars -/

/-- One symbol decides between the alternatives: no two of them start with the same symbol, at most one
of them can be empty, and if one can, what comes after does not start like an alternative. -/
structure DecidesAmong (g : Grammar) (follows : Symbol → Prop) (items : List Element) : Prop where
  disjoint : items.Pairwise fun a b => ∀ x, g.Starts a x → ¬ g.Starts b x
  oneEmpty : items.Pairwise fun a b => g.Generates a [] → ¬ g.Generates b []
  apart : (∃ a ∈ items, g.Generates a []) → ∀ b ∈ items, ∀ x, g.Starts b x → ¬ follows x

/-- One symbol decides whether to repeat: no turn is empty, and what comes after does not start like a
turn. -/
structure DecidesRepeating (g : Grammar) (follows : Symbol → Prop) (item : Element) : Prop where
  nonempty : ¬ g.Generates item []
  apart : ∀ x, g.Starts item x → ¬ follows x

/-- One symbol always tells how to go on. -/
structure Predictive (g : Grammar) : Prop where
  alternatives : ∀ id items after, g.Stands id (.alternatives items) after →
    g.DecidesAmong (g.FollowsAt id after) items
  repetitions : ∀ id cardinality item after, g.Stands id (.repetition cardinality item) after →
    g.DecidesRepeating (g.FollowsAt id after) item

end Grammar

end Workbench
