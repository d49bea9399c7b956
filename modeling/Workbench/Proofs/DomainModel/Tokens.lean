import Workbench.Proofs.DomainModel.Writing
import Workbench.Proofs.Workspace.Definitions

/-!
**Names and numbers of a text.**

What the lexer takes for an identifier has a character behind the caret and no point, so it stands for a
simple name. What it takes for a number is one that can be read.
-/

namespace Workbench

namespace Lexer

variable {keywords : List String} {c : Char} {rest : List Char} {n : Nat}

/-- A caret alone is no identifier. -/
theorem take_ne_nil_of_caret (h : classify keywords '^' rest = (.token .identifier, n)) :
    rest.take n ≠ [] := by
  cases begins_of_classify h rfl with
  | name start => exact absurd start (by decide)
  | caret _ start =>
    obtain ⟨d, head, start⟩ := start
    obtain ⟨ds, rfl⟩ := List.head?_eq_some_iff.1 head
    rw [take_runLength, List.takeWhile_cons, if_pos (isNamePart_of_isNameStart start)]
    exact List.cons_ne_nil _ _

theorem number_of_classify (h : classify keywords c rest = (.token .number, n)) :
    c.isDigit = true ∧ n = numberExtent rest := by
  cases begins_of_classify h rfl with
  | number digit => exact ⟨digit, rfl⟩

/-- A number goes on with digits, and with a point and digits. -/
theorem take_numberExtent (cs : List Char) : ∃ whole fraction : List Char,
    cs.take (numberExtent cs) = whole ++ DomainModel.Numeral.point fraction ∧
      (whole ++ fraction).all Char.isDigit = true := by
  obtain ⟨taken, behind, eq, size, fractional⟩ := exists_numberExtent cs
  have front : cs.take (numberExtent cs) = taken := by
    rw [← size, eq, List.take_left]
  rw [front]
  cases fractional with
  | whole digits => exact ⟨taken, [], (List.append_nil _).symm, by simpa using digits⟩
  | @point cs d ds digits point digits' =>
    refine ⟨cs, d :: ds, rfl, ?_⟩
    simp only [List.all_append, List.all_cons, point, Bool.true_and, Bool.and_eq_true,
      List.all_eq_true]
    exact ⟨digits, digits'⟩

end Lexer

namespace DomainModel

/-- A token that is a name stands for a simple one, and a token that is a number can be read. -/
structure Legible (t : Token) : Prop where
  name : t.kind = .identifier →
    Text.stripCaret t.image ≠ "" ∧ '.' ∉ (Text.stripCaret t.image).toList
  number : t.kind = .number → ∃ x, ValueKind.number.convert t.image = .number x

/-- The lexer makes legible tokens only. -/
theorem legible_of_mem_tokenize {keywords : List String} {text : String} {t : Token}
    (h : t ∈ (Lexer.tokenize keywords text).tokens) : Legible t := by
  obtain ⟨c, rest, n, classified, image⟩ := Lexer.exists_classify h
  refine ⟨fun kind => ⟨?_, Text.not_mem_stripCaret (Lexer.not_mem_image_of_identifier h kind)⟩,
    fun kind => ?_⟩
  · rw [kind] at classified
    have some : c = '^' → rest.take n ≠ [] := by
      rintro rfl
      exact Lexer.take_ne_nil_of_caret classified
    intro empty
    have none := congrArg String.toList empty
    unfold Text.stripCaret at none
    rw [image, String.toList_ofList] at none
    split at none
    · next eq =>
      obtain ⟨rfl, rfl⟩ := List.cons.inj eq
      rw [String.toList_ofList] at none
      exact some rfl none
    · rw [String.toList_ofList] at none
      cases none
  · rw [kind] at classified
    obtain ⟨digit, rfl⟩ := Lexer.number_of_classify classified
    obtain ⟨whole, fraction, spelled, digits⟩ := Lexer.take_numberExtent rest
    rw [image, spelled]
    exact ⟨_, (⟨c, whole, fraction, digit, digits⟩ : Numeral).convert_image⟩

end DomainModel

end Workbench
