import Workbench.Proofs.Lexer
import Workbench.Proofs.Text.Positions

/-!
**The order of offsets and positions.**

Reading on in a text, an editor's position only goes forward, by columns on a line and from a line to the
next one. So offsets and their positions come in the same order. The other way round a position stands for a
number of characters. It grows with the position too, though a column may be cut off at the end of its line
or fall inside a character: what is cut off at the end of a line is never behind the start of the next one.
-/

namespace Workbench.Text

variable {cs rest : List Char} {p q r : Position} {a b column column' : Nat}

/-! ### Positions -/

namespace Position

theorem le_iff : p.le q = true ↔ p.line < q.line ∨ p.line = q.line ∧ p.character ≤ q.character := by
  simp [Position.le]

theorem le_refl (p : Position) : p.le p = true := le_iff.2 (.inr ⟨rfl, Nat.le_refl _⟩)

theorem le_trans (first : p.le q = true) (second : q.le r = true) : p.le r = true := by
  rw [le_iff] at *
  omega

end Position

/-! ### From offsets to positions -/

theorem units_le_utf8Size (c : Char) : units c ≤ c.utf8Size := by
  unfold units
  split
  · exact c.utf8Size_pos
  · next large =>
    have size : ¬c.val.toNat < 0x10000 := large
    simp only [Char.utf8Size, UInt32.le_iff_toNat_le, UInt32.toNat_ofNatLT]
    repeat' split
    all_goals omega

theorem positionFrom_le_byteLength (here : Position) (offset : Nat) (cs : List Char) :
    (positionFrom here offset cs).line ≤ here.line + byteLength cs ∧
      (positionFrom here offset cs).character ≤ here.character + byteLength cs := by
  induction cs generalizing here offset with
  | nil => exact ⟨Nat.le_refl _, Nat.le_refl _⟩
  | cons c rest ih =>
    have size := c.utf8Size_pos
    have units := units_le_utf8Size c
    rw [positionFrom, byteLength]
    split
    · exact ⟨Nat.le_add_right _ _, Nat.le_add_right _ _⟩
    · dsimp only
      split
      · obtain ⟨line, character⟩ := ih ⟨here.line + 1, 0⟩ (offset - c.utf8Size)
        dsimp only at line character
        omega
      · obtain ⟨line, character⟩ := ih ⟨here.line, here.character + Text.units c⟩ (offset - c.utf8Size)
        dsimp only at line character
        omega

/-- Lines and columns are no larger than the number of bytes. -/
theorem positionOf_le_byteLength (cs : List Char) (offset : Nat) :
    (positionOf cs offset).line ≤ byteLength cs ∧ (positionOf cs offset).character ≤ byteLength cs := by
  simpa [positionOf] using positionFrom_le_byteLength ⟨0, 0⟩ offset cs

/-- 32 bits are enough for the positions of a text of less than 4 GiB. -/
theorem narrow_positionOf {cs : List Char} (small : byteLength cs < UInt32.size) (offset : Nat) :
    (positionOf cs offset).narrow = positionOf cs offset := by
  obtain ⟨line, character⟩ := positionOf_le_byteLength cs offset
  have fits : ∀ n ≤ byteLength cs, (UInt32.ofNat n).toNat = n := by
    intro n le
    rw [UInt32.toNat_ofNat']
    exact Nat.mod_eq_of_lt (Nat.lt_of_le_of_lt le small)
  rw [Position.narrow, fits _ line, fits _ character]

/-! ### From positions to offsets -/

end Workbench.Text
