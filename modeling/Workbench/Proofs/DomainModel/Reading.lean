import Workbench.Proofs.DomainModel.Expressions

/-!
**Reading declarations.**

Each rule is followed along the words of what it reads: names, with or without carets and points, then
properties, and then datatypes, classes and packages with all that is in them. A rule leaves behind a node
with the meaning of what was written. What comes next does not matter behind a declaration, since its end
can be seen; behind a property it must not be such that its type or its default value goes on.
-/

namespace Workbench.DomainModel

open Interpreter State

variable {plan : Plan}

/-! ### Names -/

theorem Spelling.stripCaret_image (s : Spelling) : Text.stripCaret s.image = s.name.text := by
  rw [image]
  split
  · rw [Text.stripCaret, String.toList_ofList]
    rfl
  · rw [Text.stripCaret, Identifier.text, String.toList_ofList]
    split
    · next start =>
      have bare := s.name.isStart
      rw [(List.cons.inj start).1] at bare
      cases bare
    · rfl

theorem Spelling.convert_image (s : Spelling) : ValueKind.id.convert s.image = .text s.name.text :=
  congrArg Value.text s.stripCaret_image

theorem rules_name : rules[nameRule]? = some ⟨"ID", .terminal .identifier .id, .group []⟩ :=
  rfl

/-- A point and the name behind it. -/
def further : Element := .group [.keyword ".", .call nameRule]

theorem rules_qualifiedName : rules[qualifiedNameRule]? =
    some ⟨"QualifiedName", .dataType .text, .group [.call nameRule, .repetition .zeroOrMore further]⟩ :=
  rfl

theorem first_further : lookahead.first further = ⟨["."], []⟩ := rfl

/-- The text of a name with points. -/
def Dotted.meant (d : Dotted Spelling) : String := (d.map Spelling.name).text

section Names

variable {invoke : Invocation} {base s : State} {rest : List Word}

theorem run_name (fits : Fits plan) {acc : String} {name : Spelling}
    (h : Along base (name.word :: rest) (.text acc) s) :
    ∃ t, run plan invoke (.call nameRule) s = { state := t } ∧
      Along base rest (.text (acc ++ name.name.text)) t := by
  obtain ⟨t, ran, along, -⟩ : ∃ t, run plan invoke (.call nameRule) s = { state := t } ∧
      Along base rest _ t ∧ t.arena = s.arena := run_collect_token (fits.known rules_name) rfl h
  rw [ValueKind.convertText, name.stripCaret_image] at along
  exact ⟨t, ran, along⟩

/-- Further names are collected up to a word that is no point. -/
theorem run_further (fits : Fits plan) (others : List Spelling) {acc : String}
    (h : Along base (others.flatMap (fun s => [keyword ".", s.word]) ++ rest) (.text acc) s)
    (ends : rest.head? ≠ some (keyword ".")) :
    ∃ t, run plan invoke (.repetition .zeroOrMore further) s = { state := t } ∧
      Along base rest
        (.text (others.foldl (fun text s => text ++ "." ++ s.name.text) acc)) t := by
  have enough : s.ahead.length ≤ s.stream.count := by
    rw [TokenStream.count_eq_length, State.ahead, List.length_map]
  rw [run, repeated]
  -- by induction on the further names: each turn takes a point and a name
  generalize s.stream.count = fuel at enough
  induction others generalizing s acc fuel with
  | nil =>
    have stops : ready plan further s = false := by
      rw [fits.isReady first_further h.ahead]
      exact not_accepts (List.forall_mem_singleton.2 ends)
    exact ⟨s, turns_stop fuel stops, h⟩
  | cons name others ih =>
    rw [List.flatMap_cons, List.append_assoc] at h
    have starts : ready plan further s = true := fits.isReady first_further h.ahead
    obtain ⟨s₁, pointed, along₁, -⟩ := run_keyword h
    obtain ⟨s₂, named, along₂⟩ := run_name fits along₁
    have turn : run plan invoke further s = { state := s₂ } :=
      run_group (runAll_cons pointed (runAll_cons named rfl))
    have progress : s₂.ahead.length < s.ahead.length := by
      rw [along₂.ahead, h.ahead]
      exact Nat.lt_add_of_pos_right (Nat.zero_lt_succ 1)
    obtain ⟨less, rfl⟩ : ∃ less, fuel = less + 1 := ⟨fuel - 1, by omega⟩
    obtain ⟨t, looped, along⟩ := ih along₂ less (by omega)
    refine ⟨t, ?_, along⟩
    rw [turns_succ starts turn progress]
    exact looped

end Names

/-- **A name with points is read as it is meant.** -/
theorem spells_dotted (fits : Fits plan) {depth : Nat} {s : State} {rest : List Word}
    (d : Dotted Spelling) (deep : 1 ≤ depth) (ahead : s.ahead = d.words ++ rest)
    (ends : rest.head? ≠ some (keyword ".")) (feature : Option String) :
    Spells d.meant s rest (Interpreter.invoke plan depth qualifiedNameRule feature s) := by
  obtain ⟨depth, rfl⟩ : ∃ less, depth = less + 1 := ⟨depth - 1, by omega⟩
  have entered := along_enter s qualifiedNameRule (.dataType .text)
  rw [ahead, Dotted.words, List.cons_append] at entered
  obtain ⟨s₁, named, along₁⟩ := run_name fits entered
  obtain ⟨s₂, ran, along₂⟩ := run_further fits d.others along₁ ends
  have text : d.others.foldl (fun text s => text ++ "." ++ s.name.text) ("" ++ d.first.name.text) =
      d.meant := by
    rw [Dotted.meant, Dotted.text, Dotted.map, List.foldl_map, String.empty_append]
  rw [text] at along₂
  have took : rest.length < s.ahead.length := by
    rw [ahead, Dotted.words]
    simp only [List.cons_append, List.length_cons, List.length_append]
    omega
  rw [invoke_succ (fits.known rules_qualifiedName) (run_group (runAll_cons named (runAll_cons ran rfl)))]
  exact spells_leave along₂ took feature _

/-! ### Properties -/

/-- What may stand behind a property: nothing that is taken for a part of its type or default value. -/
def EndsProperty (rest : List Word) : Prop :=
  ∀ text ∈ [".", "=", "+", "-", "*", "/"], rest.head? ≠ some (keyword text)

theorem EndsProperty.stops {rest : List Word} (h : EndsProperty rest) : Stops 1 rest := by
  intro op _
  cases op <;> exact h _ (by decide)

theorem endsProperty_keyword {text : String} (other : text ∉ [".", "=", "+", "-", "*", "/"])
    {rest : List Word} : EndsProperty (keyword text :: rest) := by
  rintro _ mem ⟨⟩
  exact other mem

/-- A property with the texts of its names and the values of its numbers. -/
def Property.content (p : WrittenProperty) :
    Property String String (Expression Float) :=
  p.map (·.name.text) Dotted.meant (·.term.value)

def manyFlag : Element := .assign "many" .flag (.keyword "many")

def defaultValue : Element := .group [.keyword "=", .assign "default" .set (.call additionRule)]

theorem rules_property : rules[propertyRule]? =
    some ⟨"Property", .parser (some propertyType), .group [
      .repetition .optional manyFlag,
      .assign "name" .set (.call nameRule),
      .keyword ":",
      .assign "type" .set (.crossRef typeType qualifiedNameRule),
      .repetition .optional defaultValue]⟩ :=
  rfl

theorem first_manyFlag : lookahead.first manyFlag = ⟨["many"], []⟩ := rfl

theorem first_defaultValue : lookahead.first defaultValue = ⟨["="], []⟩ := rfl

section Properties

variable {invoke : Invocation} {base s : State} {rest : List Word} {o : Object}

/-- The flag is set if and only if its keyword stands there. -/
theorem run_manyFlag (fits : Fits plan) (many : Bool) (name : Spelling)
    (h : Along base ((if many then [keyword "many"] else []) ++ name.word :: rest) (.object o) s) :
    ∃ t, run plan invoke (.repetition .optional manyFlag) s = { state := t } ∧
      Along base (name.word :: rest) (.object {
        o with
        properties := if many then o.properties.set "many" (.bool true) else o.properties }) t := by
  cases many with
  | true =>
    obtain ⟨t, ran, along, -⟩ : ∃ t, runAssigned plan invoke "many" .flag (.keyword "many") s =
        { state := t } ∧ Along base (name.word :: rest) _ t ∧ t.arena = s.arena :=
      run_assign_keyword h "many" .flag
    refine ⟨t, ?_, along⟩
    rw [run_present (fits.isReady first_manyFlag h.ahead), manyFlag, run]
    exact ran
  | false => exact ⟨s, run_absent (fits.isReady first_manyFlag h.ahead), h⟩

/-- The default value of a property is read, if it has one. -/
theorem run_defaultValue (fits : Fits plan) {depth : Nat} (default : Option Formula)
    (deep : default.elim 0 (·.term.nesting) ≤ depth)
    (h : Along base (defaultWords default ++ rest) (.object o) s)
    (absent : o.properties.get? "default" = none) (ends : EndsProperty rest) :
    ∃ t p, run plan (Interpreter.invoke plan depth) (.repetition .optional defaultValue) s =
        { state := t } ∧
      Along base rest (.object { o with properties := p }) t ∧ Grows s t ∧
      (∀ name, name ≠ "default" → p.get? name = o.properties.get? name) ∧
      Meaning.MayHold Expression.meaning t.arena t.nodes.size (p.get? "default")
        (default.map (·.term.value)) := by
  cases default with
  | none =>
    have unready : ready plan defaultValue s = false := by
      rw [fits.isReady first_defaultValue h.ahead]
      exact not_accepts (List.forall_mem_singleton.2 (ends "=" (by decide)))
    exact ⟨s, o.properties, run_absent unready, h, .refl s, fun _ _ => rfl, absent⟩
  | some e =>
    obtain ⟨name, listed⟩ := rules_chain (.inl rfl)
    obtain ⟨s₁, equals, along₁, same₁⟩ := run_keyword h
    have made := reads_of_bracketed fits e.bracketed (Nat.succ_le_succ deep) ends.stops
      (some "default") along₁.ahead
    obtain ⟨s₂, c, ran, along₂, grows₂, holds⟩ := run_assign_call (fits.known listed) rfl along₁ made .set
    refine ⟨s₂, _, ?_, along₂, (Grows.of_arena same₁).trans grows₂, fun name differ => ?_, c,
      holds.lt_size, ?_, holds⟩
    · rw [run_present (fits.isReady first_defaultValue h.ahead)]
      exact run_group (runAll_cons equals (runAll_cons ran rfl))
    · exact Properties.get?_set_ne _ differ _
    · exact Properties.get?_set_self _ _ _

end Properties

/-- A property without its default value. -/
def begun (p : WrittenProperty) (r : RefId) : Properties :=
  ((if p.many then Properties.empty.set "many" (.bool true) else .empty).set "name"
    (.text p.name.name.text)).set "type" (.reference r)

theorem becomes_property (fits : Fits plan) {base u : State} {properties : Properties}
    {p : WrittenProperty} {r : RefId}
    (refers : Refers u.arena (some (.reference r)) p.type.meant)
    (others : ∀ name, name ≠ "default" → properties.get? name = (begun p r).get? name)
    (default : Meaning.MayHold Expression.meaning u.arena u.nodes.size (properties.get? "default")
      (p.default.map (·.term.value))) :
    Becomes plan.grammar.types p.content.meaning base u { type := some propertyType, properties } := by
  have kinds : types.propertyKind propertyType "many" = some .bool ∧
      types.propertyKind propertyType "default" = some .value :=
    ⟨propertyKind_eq _ _, propertyKind_eq _ _⟩
  have look := get?_completed (by decide : propertyType < 10) properties
  refine ⟨nofun, propertyType, rfl, ?_⟩
  rw [fits.hierarchy]
  refine ⟨rfl, ?_, ?_, ?_, ?_⟩
  · rw [look, others _ (by decide), kinds.1]
    cases many : p.many <;> simp [begun, many, Property.content, Property.map, PropertyKind.initial?]
  · rw [look, others _ (by decide)]
    simp [begun, Property.content, Property.map]
  · rw [look, others _ (by decide), begun, Properties.get?_set_self]
    exact refers
  · have same : (withDefaults types propertyType properties).get? "default" =
        properties.get? "default" := by
      rw [look, kinds.2]
      exact Option.or_none
    rw [same]
    exact default

theorem Property.words_ne_nil (p : WrittenProperty) : p.words ≠ [] := by
  simp [Property.words]

/-- **A property is read as what is written.** -/
theorem gives_property (fits : Fits plan) {depth : Nat} {rest : List Word}
    (p : WrittenProperty) (deep : p.nesting ≤ depth)
    (ends : EndsProperty rest) : Gives plan depth propertyRule p.words p.content.meaning rest := by
  rw [Property.nesting] at deep
  obtain ⟨depth, rfl⟩ : ∃ less, depth = less + 1 := ⟨depth - 1, by omega⟩
  obtain ⟨one, deep⟩ := Nat.max_le.1 (Nat.le_of_succ_le_succ deep)
  refine gives_of_run (fits.known rules_property) p.content.stable_meaning p.words_ne_nil
    fun base s entered => ?_
  rw [Property.words, List.append_assoc, List.append_assoc] at entered
  obtain ⟨s₁, flagged, along₁⟩ := run_manyFlag fits p.many p.name entered
  obtain ⟨s₂, named, along₂, -⟩ := run_assign_token (fits.known rules_name) rfl along₁ "name" .set
  obtain ⟨s₃, colon, along₃, -⟩ := run_keyword along₂
  have ends' : (defaultWords p.default ++ rest).head? ≠ some (keyword ".") := by
    cases p.default with
    | none => exact ends "." (by decide)
    | some e => simp [defaultWords]
  have spelled := spells_dotted fits p.type one along₃.ahead ends' (some "type")
  obtain ⟨s₄, r, typed, along₄, -, refers⟩ :=
    run_assign_reference (fits.known rules_qualifiedName) rfl along₃ spelled .set typeType
  rw [p.name.convert_image] at along₄
  -- what was assigned up to here is `begun p r`, with no default value yet
  have absent : (begun p r).get? "default" = none := by
    cases many : p.many <;> simp [begun, many]
  obtain ⟨s₅, properties, defaulted, along₅, grows₅, others, own⟩ :=
    run_defaultValue fits p.default deep along₄ absent ends
  refine ⟨s₅, _, ?_, along₅, becomes_property fits (refers.agrees grows₅.agrees) others own⟩
  exact run_group (runAll_cons flagged (runAll_cons named (runAll_cons colon
    (runAll_cons typed (runAll_cons defaulted rfl)))))

/-! ### Datatypes and classes -/

namespace ModelElement

/-- An element with the texts of its names and the values of its numbers. -/
def content (e : WrittenElement) :
    ModelElement String String (Expression Float) :=
  e.map (·.name.text) Dotted.meant (·.term.value)

end ModelElement

theorem rules_dataType : rules[dataTypeRule]? =
    some ⟨"DataType", .parser (some dataTypeType), .group [
      .keyword "datatype",
      .assign "name" .set (.call nameRule)]⟩ :=
  rfl

theorem gives_dataType (fits : Fits plan) {depth : Nat} {rest : List Word} (name : Spelling) :
    Gives plan (depth + 1) dataTypeRule (ModelElement.dataTypeDecl name).words
      (ModelElement.dataTypeDecl name).content.meaning rest := by
  refine gives_of_run (fits.known rules_dataType) (ModelElement.stable_meaning _)
    (List.cons_ne_nil _ _) fun base s entered => ?_
  obtain ⟨s₁, started, along₁, -⟩ := run_keyword entered
  obtain ⟨s₂, named, along₂, -⟩ := run_assign_token (fits.known rules_name) rfl along₁ "name" .set
  rw [name.convert_image] at along₂
  refine ⟨s₂, _, run_group (runAll_cons started (runAll_cons named rfl)), along₂, nofun, dataTypeType,
    rfl, rfl, ?_⟩
  rw [fits.hierarchy, get?_completed (by decide)]
  simp [Properties.assigned]

def superClause : Element :=
  .group [.keyword "extends", .assign "superClass" .set (.crossRef classType qualifiedNameRule)]

theorem rules_class : rules[classRule]? =
    some ⟨"Class", .parser (some classType), .group [
      .keyword "class",
      .assign "name" .set (.call nameRule),
      .repetition .optional superClause,
      .keyword "\x7b",
      .repetition .zeroOrMore (.assign "members" .append (.call propertyRule)),
      .keyword "\x7d"]⟩ :=
  rfl

theorem first_superClause : lookahead.first superClause = ⟨["extends"], []⟩ := rfl

theorem first_members : lookahead.first (.assign "members" .append (.call propertyRule)) =
    ⟨["many"], [.identifier]⟩ := rfl

section Classes

variable {base s : State} {rest : List Word} {o : Object}

/-- The superclass is referred to, if there is one. -/
theorem run_superClause (fits : Fits plan) {depth : Nat} (superClass : Option (Dotted Spelling))
    (deep : (if superClass.isSome then 1 else 0) ≤ depth)
    (h : Along base (superClassWords superClass ++ keyword "\x7b" :: rest) (.object o) s)
    (absent : o.properties.get? "superClass" = none) :
    ∃ t p, run plan (Interpreter.invoke plan depth) (.repetition .optional superClause) s =
        { state := t } ∧
      Along base (keyword "\x7b" :: rest) (.object { o with properties := p }) t ∧
      (∀ name, name ≠ "superClass" → p.get? name = o.properties.get? name) ∧
      MayRefer t.arena (p.get? "superClass") (superClass.map Dotted.meant) := by
  cases superClass with
  | none =>
    have unready : ready plan superClause s = false := fits.isReady first_superClause h.ahead
    exact ⟨s, o.properties, run_absent unready, h, fun _ _ => rfl, absent⟩
  | some d =>
    obtain ⟨s₁, extends_, along₁, -⟩ := run_keyword h
    have spelled := spells_dotted fits d deep along₁.ahead (by simp) (some "superClass")
    obtain ⟨s₂, r, ran, along₂, -, refers⟩ :=
      run_assign_reference (fits.known rules_qualifiedName) rfl along₁ spelled .set classType
    refine ⟨s₂, _, ?_, along₂, fun name differ => Properties.get?_set_ne _ differ _, ?_⟩
    · rw [run_present (fits.isReady first_superClause h.ahead)]
      exact run_group (runAll_cons extends_ (runAll_cons ran rfl))
    · change Refers s₂.arena ((o.properties.set "superClass" (.reference r)).get? "superClass") d.meant
      rwa [Properties.get?_set_self]

/-- The members of a class are read one after the other. -/
theorem run_members (fits : Fits plan) {depth : Nat}
    (members : List WrittenProperty)
    (deep : deepest Property.nesting members ≤ depth)
    (h : Along base (members.flatMap Property.words ++ keyword "\x7d" :: rest) (.object o) s) :
    ∃ t ids, run plan (Interpreter.invoke plan depth)
          (.repetition .zeroOrMore (.assign "members" .append (.call propertyRule))) s = { state := t } ∧
      Along base (keyword "\x7d" :: rest)
        (.object { o with properties := appended o.properties "members" ids }) t ∧
      Grows s t ∧ List.Forall₂ (fun p id => p.content.meaning.At t.arena id) members ids := by
  have starting := first_members
  rw [← fits.foresight] at starting
  have follows : ∀ p : WrittenProperty, ∀ w, EndsProperty (p.words ++ w) := by
    intro p w
    rw [Property.words]
    cases p.many with
    | true => exact endsProperty_keyword (by decide)
    | false =>
      rintro text - ⟨⟩
  have starts : ∀ p : WrittenProperty,
      p.words.head?.any (FirstSet.accepts ⟨["many"], [.identifier]⟩) = true := by
    intro p
    rw [Property.words]
    cases p.many <;> rfl
  have last : EndsProperty (keyword "\x7d" :: rest) := endsProperty_keyword (by decide)
  exact run_append fits.foresees (fits.known rules_property) rfl starting
    (fun p => p.content.stable_meaning)
    (fun p mem rest ends => gives_property fits p (Nat.le_trans (le_deepest mem) deep) ends)
    (fun p _ => starts p) (fun p _ w => follows p w) last rfl h

end Classes

theorem becomes_class (fits : Fits plan) {base u : State} {properties : Properties} {name : Spelling}
    {superClass : Option (Dotted Spelling)} {members : List WrittenProperty}
    {ids : List NodeId} (named : properties.get? "name" = some (.text name.name.text))
    (absent : properties.get? "members" = none)
    (above : MayRefer u.arena (properties.get? "superClass") (superClass.map Dotted.meant))
    (children : List.Forall₂ (fun p id => p.content.meaning.At u.arena id) members ids) :
    Becomes plan.grammar.types (ModelElement.classDecl name superClass members).content.meaning base u
      { type := some classType, properties := appended properties "members" ids } := by
  have kinds : types.propertyKind classType "members" = some .array ∧
      types.propertyKind classType "superClass" = some .value :=
    ⟨propertyKind_eq _ _, propertyKind_eq _ _⟩
  have look := get?_completed (by decide : classType < 10) (appended properties "members" ids)
  refine ⟨nofun, classType, rfl, ?_⟩
  rw [fits.hierarchy, ModelElement.content, ModelElement.map]
  refine ⟨rfl, ?_, ?_, ?_⟩
  · rw [look, get?_appended_ne _ (by decide), named]
    rfl
  · rw [look, get?_appended_ne _ (by decide), kinds.2]
    simpa [PropertyKind.initial?] using above
  · refine Meaning.heldAll_of_at children ?_
    rw [look, kinds.1]
    exact get?_appended properties absent ids

/-- **A class is read as what is written.** -/
theorem gives_class (fits : Fits plan) {depth : Nat} (name : Spelling)
    (superClass : Option (Dotted Spelling)) (members : List WrittenProperty)
    (deep : max (if superClass.isSome then 1 else 0) (deepest Property.nesting members) ≤ depth)
    (rest : List Word) :
    Gives plan (depth + 1) classRule (ModelElement.classDecl name superClass members).words
      (ModelElement.classDecl name superClass members).content.meaning rest := by
  obtain ⟨above, inside⟩ := Nat.max_le.1 deep
  refine gives_of_run (fits.known rules_class) (ModelElement.stable_meaning _)
    (by simp [ModelElement.words]) fun base s entered => ?_
  simp only [ModelElement.words, List.cons_append, List.append_assoc] at entered
  obtain ⟨s₁, started, along₁, -⟩ := run_keyword entered
  obtain ⟨s₂, named, along₂, -⟩ := run_assign_token (fits.known rules_name) rfl along₁ "name" .set
  rw [name.convert_image] at along₂
  obtain ⟨s₃, properties, extended, along₃, others, refers⟩ :=
    run_superClause fits superClass above along₂ (by simp [Properties.assigned])
  obtain ⟨s₄, opened, along₄, same₄⟩ := run_keyword along₃
  -- the superclass was referred to before the members were built, which keep the reference
  obtain ⟨s₅, ids, listed, along₅, grows₅, children⟩ := run_members fits members inside along₄
  obtain ⟨s₆, closed, along₆, same₆⟩ := run_keyword along₅
  rw [← same₄] at refers
  refine ⟨s₆, _, ?_, along₆, (becomes_class fits (others "name" (by decide))
    (others "members" (by decide)) (refers.agrees grows₅.agrees) children).of_arena same₆⟩
  exact run_group (runAll_cons started (runAll_cons named (runAll_cons extended
    (runAll_cons opened (runAll_cons listed (runAll_cons closed rfl))))))

/-! ### Packages and all elements -/

theorem rules_package : rules[packageRule]? =
    some ⟨"PackageDeclaration", .parser (some packageType), .group [
      .keyword "package",
      .assign "name" .set (.call qualifiedNameRule),
      .keyword "\x7b",
      .repetition .zeroOrMore (.assign "elements" .append (.call elementRule)),
      .keyword "\x7d"]⟩ :=
  rfl

theorem rules_element : rules[elementRule]? =
    some ⟨"AbstractElement", .parser none, .alternatives [.call packageRule, .call typeRule]⟩ :=
  rfl

theorem rules_type : rules[typeRule]? =
    some ⟨"Type", .parser none, .alternatives [.call dataTypeRule, .call classRule]⟩ :=
  rfl

theorem first_elements :
    lookahead.first (.assign "elements" .append (.call elementRule)) =
      ⟨["class", "datatype", "package"], []⟩ := rfl

theorem first_package : lookahead.first (.call packageRule) = ⟨["package"], []⟩ := rfl

theorem first_type : lookahead.first (.call typeRule) = ⟨["class", "datatype"], []⟩ := rfl

theorem first_dataType : lookahead.first (.call dataTypeRule) = ⟨["datatype"], []⟩ := rfl

theorem first_class : lookahead.first (.call classRule) = ⟨["class"], []⟩ := rfl

/-- A datatype or class is an element. -/
theorem gives_element_of_type (fits : Fits plan) {depth : Nat} {w rest : List Word} {M : Meaning}
    {text : String} (stable : M.Stable) (isType : text ∈ ["class", "datatype"])
    (gives : Gives plan depth typeRule (keyword text :: w) M rest) :
    Gives plan (depth + 1) elementRule (keyword text :: w) M rest := by
  refine gives_adopted (fits.known rules_element) (fits.known rules_type) rfl stable
    (List.cons_ne_nil _ _) (fun s ahead => run_second ?_ ?_) gives
  · rw [fits.isReady first_package ahead]
    refine not_accepts (List.forall_mem_singleton.2 ?_)
    rintro ⟨⟩
    exact absurd isType (by decide)
  · rw [fits.isReady first_type ahead]
    exact List.contains_iff_mem.2 isType

variable {base s : State} {rest : List Word} {o : Object}

theorem ModelElement.starts_words (e : WrittenElement) :
    e.words.head?.any (FirstSet.accepts ⟨["class", "datatype", "package"], []⟩) = true := by
  cases e <;> simp [ModelElement.words] <;> decide

/-- Elements are read one after the other, if each of them is. -/
theorem run_elements (fits : Fits plan) {depth : Nat} (elements : WrittenModel)
    (each : ∀ e ∈ elements, ∀ rest, Gives plan depth elementRule e.words e.content.meaning rest)
    (ends : rest.head?.any (FirstSet.accepts ⟨["class", "datatype", "package"], []⟩) = false)
    (h : Along base (ModelElement.wordsOf elements ++ rest) (.object o) s) :
    ∃ t ids, run plan (Interpreter.invoke plan depth)
          (.repetition .zeroOrMore (.assign "elements" .append (.call elementRule))) s = { state := t } ∧
      Along base rest (.object { o with properties := appended o.properties "elements" ids }) t ∧
      Grows s t ∧ List.Forall₂ (fun e id => e.content.meaning.At t.arena id) elements ids := by
  have starting := first_elements
  rw [← fits.foresight] at starting
  rw [ModelElement.wordsOf_eq_flatMap] at h
  have anywhere : ∀ e ∈ elements, ∀ rest, True →
      Gives plan depth elementRule e.words e.content.meaning rest := fun e mem rest _ => each e mem rest
  exact run_append fits.foresees (fits.known rules_element) rfl starting
    (fun e => e.content.stable_meaning) anywhere (fun e _ => e.starts_words) (fun _ _ _ => trivial)
    trivial ends h

theorem becomes_package (fits : Fits plan) {properties : Properties} {name : Dotted Spelling}
    {elements : WrittenModel} {ids : List NodeId}
    (named : properties.get? "name" = some (.text name.meant))
    (absent : properties.get? "elements" = none)
    (children : List.Forall₂ (fun e id => e.content.meaning.At s.arena id) elements ids) :
    Becomes plan.grammar.types (ModelElement.packageDecl name elements).content.meaning base s
      { type := some packageType, properties := appended properties "elements" ids } := by
  have array : types.propertyKind packageType "elements" = some .array := propertyKind_eq _ _
  have look := get?_completed (by decide : packageType < 10) (appended properties "elements" ids)
  refine ⟨nofun, packageType, rfl, ?_⟩
  rw [fits.hierarchy, ModelElement.content, ModelElement.map, ModelElement.meaning_packageDecl,
    ModelElement.mapAll_eq_map]
  refine ⟨rfl, ?_, Meaning.heldAll_of_at children ?_⟩
  · rw [look, get?_appended_ne _ (by decide), named]
    rfl
  · rw [look, array]
    exact get?_appended properties absent ids

/-- A package is read if its elements are. -/
theorem gives_package (fits : Fits plan) {depth : Nat} (name : Dotted Spelling) (elements : WrittenModel)
    (deep : 1 ≤ depth)
    (each : ∀ e ∈ elements, ∀ rest, Gives plan depth elementRule e.words e.content.meaning rest)
    (rest : List Word) :
    Gives plan (depth + 1) packageRule (ModelElement.packageDecl name elements).words
      (ModelElement.packageDecl name elements).content.meaning rest := by
  refine gives_of_run (fits.known rules_package) (ModelElement.stable_meaning _)
    (by simp [ModelElement.words]) fun base s entered => ?_
  simp only [ModelElement.words, List.cons_append, List.append_assoc] at entered
  obtain ⟨s₁, started, along₁, -⟩ := run_keyword entered
  have spelled := spells_dotted fits name deep along₁.ahead (by simp) (some "name")
  obtain ⟨s₂, named, along₂, -⟩ :=
    run_assign_text (fits.known rules_qualifiedName) rfl along₁ spelled .set
  obtain ⟨s₃, opened, along₃, -⟩ := run_keyword along₂
  obtain ⟨s₄, ids, listed, along₄, -, children⟩ := run_elements fits elements each rfl along₃
  obtain ⟨s₅, closed, along₅, same₅⟩ := run_keyword along₄
  refine ⟨s₅, _, ?_, along₅, (becomes_package fits ?_ ?_ children).of_arena same₅⟩
  · exact run_group (runAll_cons started (runAll_cons named (runAll_cons opened
      (runAll_cons listed (runAll_cons closed rfl)))))
  · simp [Properties.assigned]
  · simp [Properties.assigned]

mutual

/-- **An element is read as what is written.** -/
theorem gives_element (fits : Fits plan) : ∀ (e : WrittenElement)
    (depth : Nat) (rest : List Word), e.nesting ≤ depth →
      Gives plan depth elementRule e.words e.content.meaning rest
  | .packageDecl name elements, depth, rest, deep => by
    rw [ModelElement.nesting] at deep
    obtain ⟨depth, rfl⟩ : ∃ less, depth = less + 2 := ⟨depth - 2, by omega⟩
    obtain ⟨one, inside⟩ := Nat.max_le.1 (Nat.le_of_add_le_add_right deep)
    have gives := gives_package fits name elements one
      (fun e mem rest => gives_elements fits elements e mem depth rest inside) rest
    refine gives_adopted (fits.known rules_element) (fits.known rules_package) rfl
      (ModelElement.stable_meaning _) (by simp [ModelElement.words]) (fun s ahead => run_first ?_) gives
    rw [fits.isReady first_package ahead, ModelElement.words]
    rfl
  | .dataTypeDecl name, depth, rest, deep => by
    rw [ModelElement.nesting] at deep
    obtain ⟨depth, rfl⟩ : ∃ less, depth = less + 3 := ⟨depth - 3, by omega⟩
    refine gives_element_of_type fits (ModelElement.stable_meaning _) (by decide) ?_
    refine gives_adopted (fits.known rules_type) (fits.known rules_dataType) rfl
      (ModelElement.stable_meaning _) (List.cons_ne_nil _ _) (fun s ahead => run_first ?_)
      (gives_dataType fits name)
    exact fits.isReady first_dataType ahead
  | .classDecl name superClass members, depth, rest, deep => by
    rw [ModelElement.nesting] at deep
    obtain ⟨depth, rfl⟩ : ∃ less, depth = less + 3 := ⟨depth - 3, by omega⟩
    have gives := gives_class fits name superClass members (Nat.le_of_add_le_add_right deep) rest
    rw [ModelElement.words] at gives ⊢
    refine gives_element_of_type fits (ModelElement.stable_meaning _) (by decide) ?_
    refine gives_adopted (fits.known rules_type) (fits.known rules_class) rfl
      (ModelElement.stable_meaning _) (List.cons_ne_nil _ _) (fun s ahead => run_second ?_ ?_) gives
    · exact fits.isReady first_dataType ahead
    · exact fits.isReady first_class ahead

theorem gives_elements (fits : Fits plan) : ∀ (m : WrittenModel), ∀ e ∈ m, ∀ (depth : Nat)
    (rest : List Word), ModelElement.nestingOf m ≤ depth →
      Gives plan depth elementRule e.words e.content.meaning rest
  | [], e, mem, _, _, _ => by cases mem
  | first :: others, e, mem, depth, rest, deep => by
    rw [ModelElement.nestingOf, Nat.max_le] at deep
    rcases List.mem_cons.1 mem with same | mem
    · rw [same]
      exact gives_element fits first depth rest deep.1
    · exact gives_elements fits others e mem depth rest deep.2

end

end Workbench.DomainModel
