/-!
# Numbers of words

A word of a width in bits is a number below two to that width.
-/

namespace NineBit

/-- The number of different words of a width in bits. -/
def wordCount (bits : Nat) : Nat := Nat.pow 2 bits

@[simp] theorem wordCount_zero : wordCount 0 = 1 := rfl

theorem wordCount_succ (bits : Nat) : wordCount (bits + 1) = 2 * wordCount bits :=
  Nat.mul_comm (wordCount bits) 2

theorem wordCount_pos (bits : Nat) : 0 < wordCount bits := by
  induction bits with
  | zero => exact Nat.one_pos
  | succ bits ih =>
    rw [wordCount_succ]
    omega

theorem wordCount_le {less more : Nat} (h : less ≤ more) : wordCount less ≤ wordCount more := by
  induction h with
  | refl => exact Nat.le_refl _
  | step _ ih =>
    have := wordCount_pos less
    rw [Nat.succ_eq_add_one, wordCount_succ]
    omega

end NineBit
