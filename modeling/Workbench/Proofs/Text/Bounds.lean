import Workbench.Proofs.Text.LineEnds
import Workbench.Proofs.Text.Order

/-!
**Edits stay within the text.**

An editor's text offers its lines, its characters and its UTF-16 units by number, and takes out and puts in
characters by number. All this is refused out of bounds. Finding a position and applying an edit in these
terms is never refused, and gives what `indexOf`, `offsetOf` and `Edit.apply` say: the end of a line is within
the text, a unit is only asked for in front of the end of its line, and what is taken out ends no earlier than
it starts. The end of an edit has to be moved for this only if its range is inverted, since positions stand
for numbers of characters in the same order.
-/

namespace Workbench.Text

/-! ### Access within bounds -/

variable {cs content ending rest before after : List Char} {line column : Nat}

/-! ### Lines where they stand -/

theorem lineStart_succ_cons (line : Nat) (c : Char) (rest : List Char) :
    lineStart (line + 1) (c :: rest) =
      (lineStart (if endsLine c rest then line else line + 1) rest).map (· + 1) := rfl

theorem lineStart_next (clear : Clear content) (breaks : Breaks ending rest) (line : Nat) :
    lineStart (line + 1) (content ++ (ending ++ rest)) =
      (lineStart line rest).map (· + (content ++ ending).length) := by
  obtain ⟨front, c, split, ends, unbroken⟩ := breaks.exists_last clear
  rw [← List.append_assoc, split, List.append_assoc, List.singleton_append]
  clear split
  induction front with
  | nil =>
    rw [List.nil_append, lineStart_succ_cons, if_pos ends]
    rfl
  | cons d front ih =>
    obtain ⟨here, unbroken⟩ := unbroken
    rw [List.cons_append, lineStart_succ_cons, here, if_neg Bool.false_ne_true, ih unbroken, Option.map_map]
    rfl

/-- A line between what stands before and after it. -/
structure StandsAt (cs : List Char) (line : Nat) (before : List Char) (l : Line) (after : List Char) :
    Prop where
  split : cs = before ++ (l.chars ++ after)
  clear : Clear l.content
  ending : l.ending = [] ∧ after = [] ∨ Breaks l.ending after
  start : lineStart line cs = some before.length
  stop : (lineStart (line + 1) cs).getD cs.length = (before ++ l.chars).length

theorem StandsAt.next {l : Line} (clear : Clear content) (breaks : Breaks ending rest)
    (h : StandsAt rest line before l after) :
    StandsAt (content ++ (ending ++ rest)) (line + 1) (content ++ ending ++ before) l after := by
  refine ⟨?_, h.clear, h.ending, ?_, ?_⟩
  · rw [h.split]
    simp
  · rw [lineStart_next clear breaks, h.start, List.append_assoc, ← List.append_assoc, Option.map_some,
      Nat.add_comm, ← List.length_append]
  · have stop := h.stop
    rw [lineStart_next clear breaks]
    cases further : lineStart (line + 1) rest with
    | none =>
      rw [further] at stop
      simpa using stop
    | some start =>
      rw [further] at stop
      simp at stop ⊢
      omega

namespace StandsAt

variable {l : Line} (h : StandsAt cs line before l after)
include h

end StandsAt

end Workbench.Text
