/-!
# The most recent entries

A log that shows its last entries up to a limit. It drops older ones only when it holds more than
twice as many as it shows, so that adding an entry is cheap on average.
-/

namespace NineBit.Machine

/-- A log of which the last `limit` entries are shown. -/
structure Recent (α : Type) where
  limit : Nat
  kept : Array α
  deriving Repr

namespace Recent

variable {α : Type}

/-- A log without entries. -/
def empty (limit : Nat) : Recent α := ⟨limit, #[]⟩

/-- The last elements of a list, up to a number. -/
def lastOf (limit : Nat) (list : List α) : List α := list.drop (list.length - limit)

/-- The entries shown, oldest first. -/
def toList (log : Recent α) : List α := lastOf log.limit log.kept.toList

/-- The log with one more entry. -/
def push (log : Recent α) (entry : α) : Recent α :=
  let kept := log.kept.push entry
  if 2 * log.limit < kept.size then
    { log with kept := kept.extract (kept.size - log.limit) kept.size }
  else { log with kept := kept }

theorem lastOf_lastOf_append (limit : Nat) (xs ys : List α) :
    lastOf limit (lastOf limit xs ++ ys) = lastOf limit (xs ++ ys) := by
  simp only [lastOf, List.drop_append, List.length_append, List.length_drop, List.drop_drop]
  congr 1 <;> congr 1 <;> omega

theorem lastOf_lastOf (limit : Nat) (xs : List α) :
    lastOf limit (lastOf limit xs) = lastOf limit xs := by
  have joined := lastOf_lastOf_append limit xs []
  rwa [List.append_nil, List.append_nil] at joined

@[simp] theorem limit_push (log : Recent α) (entry : α) : (log.push entry).limit = log.limit := by
  simp only [push]
  split <;> rfl

@[simp] theorem toList_empty (limit : Nat) : (empty limit : Recent α).toList = [] := by
  simp [empty, toList, lastOf]

/-- Adding an entry shows it behind the others, as far as the limit goes. -/
theorem toList_push (log : Recent α) (entry : α) :
    (log.push entry).toList = lastOf log.limit (log.toList ++ [entry]) := by
  have shown : lastOf log.limit (log.toList ++ [entry]) =
      lastOf log.limit (log.kept.push entry).toList := by
    rw [Array.toList_push]
    exact lastOf_lastOf_append log.limit log.kept.toList [entry]
  rw [shown]
  simp only [push, toList]
  split
  · have cut : ((log.kept.push entry).extract ((log.kept.push entry).size - log.limit)
        (log.kept.push entry).size).toList = lastOf log.limit (log.kept.push entry).toList := by
      rw [lastOf, Array.length_toList, Array.toList_extract, List.extract_eq_take_drop,
        List.take_of_length_le]
      exact Nat.le_of_eq (by rw [List.length_drop, Array.length_toList])
    rw [cut]
    exact lastOf_lastOf log.limit _
  · rfl

end Recent

end NineBit.Machine
