import Workbench.DomainModel
import Workbench.Proofs.DomainModel.Reading
import Workbench.Proofs.Parser.Lossless

/-!
**A written model is read back.**

Printing and parsing are inverse. A model may be written in many ways: with more carets and parentheses
than are needed, and with any white space between the words. In all of them the text has no errors, and its
tree holds the model.
-/

namespace Workbench

namespace Parser

open Interpreter State

variable (p : Parser) {lexed : LexResult}

theorem along_opened (within : visibleCount lexed.tokens ≤ p.limits.maxTokens) :
    Along (p.opened lexed) lexed.reading (.object { type := some p.grammar.entryType })
      (p.opened lexed) := by
  have ahead : (p.opened lexed).ahead = lexed.reading := by
    unfold opened
    rw [cutAfter_of_le within]
    rfl
  refine ⟨ahead, rfl, rfl, .refl _, fun less => absurd less ?_⟩
  rw [ahead]
  exact Nat.lt_irrefl _

/-- A run of the entry rule that leaves no token ends the parse. -/
theorem ended_of_run {t : State}
    (ran : run (p.planFor lexed) (invoke (p.planFor lexed) (p.limits.maxRuleDepth - 1))
      p.grammar.entryRule.body (p.opened lexed) = { state := t })
    (nothing : t.ahead = []) : p.ended lexed = t := by
  have used : t.stream.count = 0 := by
    rw [TokenStream.count_eq_zero_iff]
    exact List.map_eq_nil_iff.1 nothing
  have reported : runReported (p.planFor lexed)
      (invoke (p.planFor lexed) (p.limits.maxRuleDepth - 1)) (p.planFor lexed).grammar.entryRule.body
      (p.opened lexed) = t := by
    unfold runReported
    rw [show run (p.planFor lexed) _ (p.planFor lexed).grammar.entryRule.body _ = _ from ran]
  rw [ended, runEntry, reported]
  exact if_pos used

/-- The root is finished like any other object. -/
theorem constructRoot_of_becomes {plan : Plan} {M : Meaning} {base t : State} {o : Object}
    (stable : M.Stable) (along : Along base [] (.object o) t)
    (becomes : Becomes plan.grammar.types M base t o) :
    (constructRoot plan t.flushHidden).1.errors = base.errors ∧
      M.At (constructRoot plan t.flushHidden).1.arena (constructRoot plan t.flushHidden).2 := by
  obtain ⟨type, typed, -⟩ := becomes.holds
  have current : currentObject t.flushHidden = o := by
    rw [currentObject, show t.flushHidden.frame.content = .object o from along.content]
  have grows : Grows base t.flushHidden := along.grows.trans (.of_arena rfl)
  have becomes' : Becomes plan.grammar.types M base t.flushHidden o := becomes.of_arena rfl
  obtain ⟨u, id, n, built, -, -, found, -, holds⟩ :=
    constructObject_of_becomes becomes' stable grows (some (wholeTree plan t.flushHidden))
  -- the object of the entry rule has its type from the start, so nothing is made up for it
  have root : constructRoot plan t.flushHidden = (u, id) := by
    rw [constructObject, typed] at built
    obtain ⟨same, root⟩ := Prod.mk.inj built
    rw [constructRoot, current, typed]
    exact Prod.ext same (Option.some.inj root)
  refine ⟨(Finishing.construct plan t.flushHidden _ _ _ _).errors.trans along.errors, ?_⟩
  rw [root]
  exact ⟨n, found, holds⟩

/-- If the body of the entry rule takes all tokens, then the root is what it builds. -/
theorem parse_of_run {M : Meaning} (stable : M.Stable)
    (within : visibleCount lexed.tokens ≤ p.limits.maxTokens)
    (runs : ∀ base s, Along base lexed.reading (.object { type := some p.grammar.entryType }) s →
      ∃ t o, run (p.planFor lexed) (invoke (p.planFor lexed) (p.limits.maxRuleDepth - 1))
            p.grammar.entryRule.body s = { state := t } ∧
        Along base [] (.object o) t ∧ Becomes p.grammar.types M base t o) :
    (p.parse lexed).parseErrors = [] ∧ M.At (p.parse lexed).ast.arena (p.parse lexed).ast.root := by
  obtain ⟨t, o, ran, along, becomes⟩ := runs _ _ (p.along_opened within)
  have started : (p.opened lexed).errors = #[] := by
    unfold opened
    rw [cutAfter_of_le within]
    rfl
  have root : Becomes (p.planFor lexed).grammar.types M (p.opened lexed) t o := becomes
  obtain ⟨errors, holds⟩ := constructRoot_of_becomes stable along root
  rw [parse_eq, finish_eq, p.ended_of_run ran along.ahead]
  refine ⟨?_, holds⟩
  rw [errors, started]

end Parser

namespace DomainModel

open Interpreter State

/-! ### Models -/

theorem content_plain (w : WrittenModel) : w.plain.content = List.map ModelElement.content w := by
  rw [PlainModel.content, WrittenModel.plain, Model.map, Model.map, ModelElement.mapAll_mapAll,
    ModelElement.mapAll_eq_map]
  rfl

theorem becomes_model {base t : State} {w : WrittenModel} {ids : List NodeId}
    (children : List.Forall₂ (fun e id => e.content.meaning.At t.arena id) w ids) :
    Becomes types (Model.meaning (List.map ModelElement.content w)) base t
      { type := some modelType, properties := appended .empty "elements" ids } := by
  have array : types.propertyKind modelType "elements" = some .array := propertyKind_eq _ _
  refine ⟨nofun, modelType, rfl, rfl, Meaning.heldAll_of_at children ?_⟩
  rw [get?_completed (by decide), array]
  exact get?_appended .empty rfl ids

/-- The words of a model are parsed to its tree. -/
theorem parse_words {limits : Limits} {lexed : LexResult} {w : WrittenModel}
    (words : lexed.reading = w.words) (shallow : w.nesting ≤ limits.maxRuleDepth - 1)
    (few : w.words.length ≤ limits.maxTokens) :
    ((parser limits).parse lexed).parseErrors = [] ∧
      model? ((parser limits).parse lexed).ast = some w.plain.content := by
  have fits : Fits ((parser limits).planFor lexed) := ⟨rfl, lookahead_eq⟩
  have within : Parser.visibleCount lexed.tokens ≤ limits.maxTokens := by
    rw [← words, LexResult.reading, List.length_map] at few
    exact few
  obtain ⟨errors, root⟩ := (parser limits).parse_of_run
      (Model.stable_meaning (List.map ModelElement.content w)) within fun base s along => by
    rw [words, ← List.append_nil w.words] at along
    obtain ⟨t, ids, ran, along', -, children⟩ := run_elements fits w
      (fun e mem rest => gives_elements fits w e mem _ rest shallow) rfl along
    exact ⟨t, _, ran, along', becomes_model children⟩
  rw [content_plain]
  exact ⟨errors, model?_of_at root⟩

/-- **Printing and parsing are inverse.** Every model can be written. However it is written, with a caret
in front of each name that is a keyword, parentheses where they are required and white space between the
words, the text has no errors, and its tree holds the model. -/
theorem parse_written (limits : Limits) (m : PlainModel) :
    (∃ w : WrittenModel, w.plain = m) ∧
      ∀ (w : WrittenModel) (text : String), w.plain = m → Lexer.Spaced w.words text.toList →
        w.nesting ≤ limits.maxRuleDepth - 1 → w.words.length ≤ limits.maxTokens →
          ((languageWith limits).parse text).lexErrors = [] ∧
          ((languageWith limits).parse text).parseErrors = [] ∧
          model? ((languageWith limits).parse text).ast = some m.content := by
  refine ⟨⟨m.written, m.plain_written⟩, ?_⟩
  rintro w text rfl spaced shallow few
  obtain ⟨lexErrors, words⟩ := Lexer.tokenize_of_spaced spaced (ModelElement.foundAll w)
  rw [Language.parse]
  refine ⟨?_, parse_words words shallow few⟩
  rw [Parser.parse_eq]
  exact lexErrors

namespace Shapes

/-- A keyword as a name. -/
def cls : Spelling := ⟨⟨'c', ['l', 'a', 's', 's'], by decide, by decide⟩, true, fun _ => rfl⟩

/-- A name with a caret that it does not need. -/
def shape : Spelling := ⟨⟨'S', ['_', '1'], by decide, by decide⟩, true, fun _ => rfl⟩

def unit : Spelling := ⟨⟨'u', [], by decide, by decide⟩, false, by decide +kernel⟩

def one : Numeral := ⟨'1', [], [], by decide, by decide⟩

def half : Numeral := ⟨'0', [], ['5'], by decide, by decide⟩

/-- A difference in parentheses that are required, times a number in parentheses that are not. -/
def area : Formula where
  term := .binary .mul (.parens (.binary .sub (.number one) (.number half))) (.parens (.number half))
  bracketed := by decide

/-- A datatype and a class in a package. -/
def written : WrittenModel :=
  [.packageDecl ⟨unit, [cls]⟩ [
    .dataTypeDecl unit,
    .classDecl cls (some ⟨unit, [cls, shape]⟩) [
      { many := true, name := shape, type := ⟨unit, []⟩, default := some area },
      { many := false, name := unit, type := ⟨unit, [cls, unit]⟩, default := none }]]]

def text : String :=
  "package u . ^class \x7b datatype u class ^class extends u . ^class . ^S_1 \x7b " ++
    "many ^S_1 : u = ( 1 - 0.5 ) * ( 0.5 ) u : u . ^class . u \x7d \x7d "

def content : Model String String (Expression Float) :=
  [.packageDecl "u.class" [
    .dataTypeDecl "u",
    .classDecl "class" (some "u.class.S_1") [
      { many := true
        name := "S_1"
        type := "u"
        default := some (.binary .mul (.binary .sub (.number one.value) (.number half.value))
          (.number half.value)) },
      { many := false, name := "u", type := "u.class.u", default := none }]]]

theorem text_eq : text = String.ofList (Lexer.spread written.words) := by
  decide +kernel

theorem spaced_text : Lexer.Spaced written.words text.toList := by
  rw [text_eq, String.toList_ofList]
  exact Lexer.spaced_spread written.words

end Shapes

/-- Shapes are read back within limits that they just reach. -/
theorem parse_shapes :
    ((languageWith ⟨13, 39⟩).parse Shapes.text).lexErrors = [] ∧
      ((languageWith ⟨13, 39⟩).parse Shapes.text).parseErrors = [] ∧
      model? ((languageWith ⟨13, 39⟩).parse Shapes.text).ast = some Shapes.content :=
  (parse_written ⟨13, 39⟩ Shapes.written.plain).2 Shapes.written Shapes.text rfl Shapes.spaced_text
    (by decide) (by decide)

example : ((languageWith ⟨12, 39⟩).parse Shapes.text).parseErrors ≠ [] := by
  decide +kernel

end DomainModel

end Workbench
