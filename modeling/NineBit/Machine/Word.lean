import NineBit.Isa.Action
import NineBit.WordCount

/-!
# Machine words

A word of a machine is a number below two to the width of its words. Every result is taken modulo
that number, so that arithmetic wraps around.
-/

namespace NineBit.Machine

/-- An integer as a word of a width in bits. -/
def wrap (bits : Nat) (value : Int) : Nat := (value % (wordCount bits : Int)).toNat

theorem wrap_lt (bits : Nat) (value : Int) : wrap bits value < wordCount bits := by
  have positive := wordCount_pos bits
  have below := Int.emod_lt_of_pos value (Int.natCast_pos.mpr positive)
  have above := Int.emod_nonneg value (Int.ne_of_gt (Int.natCast_pos.mpr positive))
  simp only [wrap]
  omega

theorem wrap_of_lt {bits value : Nat} (h : value < wordCount bits) : wrap bits value = value := by
  rw [wrap, Int.emod_eq_of_lt (by omega) (by omega), Int.toNat_natCast]

/-- The word that a register action makes of a word. -/
def operate (bits : Nat) (op : Isa.Operation) (word : Nat) : Nat :=
  match op with
  | .increment => wrap bits (word + 1)
  | .decrement => wrap bits (word - 1)
  | .invert => wrap bits (-word - 1)
  | .shiftLeft => wrap bits (word * 2)
  | .shiftRight => word / 2

theorem operate_lt {bits word : Nat} (op : Isa.Operation) (h : word < wordCount bits) :
    operate bits op word < wordCount bits := by
  cases op
  case shiftRight => exact Nat.lt_of_le_of_lt (Nat.div_le_self word 2) h
  all_goals exact wrap_lt bits _

end NineBit.Machine
