/-!
# Slices with signed bounds

A bound below zero counts from the end of the list, and a bound beyond an end stands for that end.
-/

namespace NineBit.Text

/-- The position in a list of the given length that a signed bound stands for. -/
def sliceBound (length : Nat) (bound : Int) : Nat :=
  if bound < 0 then (bound + length).toNat else min bound.toNat length

/-- The elements from one signed bound up to another. -/
def slice {α : Type} (list : List α) (start stop : Int) : List α :=
  let first := sliceBound list.length start
  (list.drop first).take (sliceBound list.length stop - first)

/-- The elements from a signed bound on. -/
def sliceFrom {α : Type} (list : List α) (start : Int) : List α :=
  list.drop (sliceBound list.length start)

/-- The elements up to a signed bound. -/
def sliceTo {α : Type} (list : List α) (stop : Int) : List α :=
  list.take (sliceBound list.length stop)

/-- The element at a signed index. -/
def signedGet? {α : Type} (list : List α) (index : Int) : Option α :=
  if index < 0 then
    if index + list.length < 0 then none else list[(index + list.length).toNat]?
  else list[index.toNat]?

theorem sliceTo_ofNat {α : Type} (list : List α) (n : Nat) : sliceTo list n = list.take n := by
  simp only [sliceTo, sliceBound, Int.toNat_natCast]
  rw [if_neg (by omega)]
  by_cases h : n ≤ list.length
  · rw [Nat.min_eq_left h]
  · rw [Nat.min_eq_right (by omega), List.take_length, List.take_of_length_le (by omega)]

end NineBit.Text
