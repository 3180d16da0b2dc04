import Mathlib.Order.Bounds.Basic

/-!
# Edits of words

The distance of two words is the least number of edits that lead from one to the other, each of
which puts in, leaves out or replaces one character anywhere (`Edits`, `IsDistance`). Such edits may
touch a place again and again and come in any order. Still, no more of them are needed than in one
passage from the front to the end (`Script`): an edit made before such a passage becomes a part of
it (`Script.absorb`). So the distance of words follows from those of shorter ones, and where both
words go on with the same character, it is the distance without it (`IsDistance.keep`,
`IsDistance.change`).
-/

namespace NineBit.Text

/-! ## Edits -/

/-- One character is put in, left out, or replaced by another one. -/
inductive Edit : List Char → List Char → Prop where
  | insert (c : Char) (word : List Char) : Edit word (c :: word)
  | delete (c : Char) (word : List Char) : Edit (c :: word) word
  | substitute (c d : Char) (word : List Char) : Edit (c :: word) (d :: word)
  | behind (c : Char) {word other : List Char} (edit : Edit word other) :
      Edit (c :: word) (c :: other)

/-- So many edits, one after the other. -/
inductive Edits : Nat → List Char → List Char → Prop where
  | none (word : List Char) : Edits 0 word word
  | some {n : Nat} {word next last : List Char} (edit : Edit word next)
      (edits : Edits n next last) : Edits (n + 1) word last

section
variable {m n : Nat} {word next other last : List Char}

theorem Edit.symm (edit : Edit word other) : Edit other word := by
  induction edit with
  | insert c word => exact .delete c word
  | delete c word => exact .insert c word
  | substitute c d word => exact .substitute d c word
  | behind c _ ih => exact .behind c ih

/-- Editing in front of other characters. -/
theorem Edit.append (edit : Edit word other) (more : List Char) :
    Edit (word ++ more) (other ++ more) := by
  induction edit with
  | insert c word => exact .insert c _
  | delete c word => exact .delete c _
  | substitute c d word => exact .substitute c d _
  | behind c _ ih => exact .behind c ih

/-- Editing behind other characters. -/
theorem Edit.append_left (edit : Edit word other) : ∀ front : List Char,
    Edit (front ++ word) (front ++ other)
  | [] => edit
  | c :: front => .behind c (edit.append_left front)

theorem Edit.reverse (edit : Edit word other) : Edit word.reverse other.reverse := by
  induction edit with
  | insert c word => simpa using (Edit.insert c []).append_left word.reverse
  | delete c word => simpa using (Edit.delete c []).append_left word.reverse
  | substitute c d word => simpa using (Edit.substitute c d []).append_left word.reverse
  | behind c _ ih => simpa using ih.append [c]

theorem Edits.trans (first : Edits m word next) (second : Edits n next last) :
    Edits (m + n) word last := by
  induction first with
  | none => simpa using second
  | some edit _ ih =>
    rw [Nat.add_right_comm]
    exact .some edit (ih second)

theorem Edits.symm (edits : Edits n word last) : Edits n last word := by
  induction edits with
  | none word => exact .none word
  | some edit _ ih => exact ih.trans (.some edit.symm (.none _))

theorem Edits.reverse (edits : Edits n word last) : Edits n word.reverse last.reverse := by
  induction edits with
  | none word => exact .none _
  | some edit _ ih => exact .some edit.reverse ih

theorem Edits.cons (c : Char) (edits : Edits n word last) : Edits n (c :: word) (c :: last) := by
  induction edits with
  | none word => exact .none _
  | some edit _ ih => exact .some (.behind c edit) ih

theorem edits_zero_iff : Edits 0 word last ↔ word = last := by
  constructor
  · intro edits
    cases edits
    rfl
  · intro same
    rw [same]
    exact .none last

end

/-! ## Scripts -/

/-- Edits that go through a word once, from its front to its end, and so many of which change
    it. -/
inductive Script : Nat → List Char → List Char → Prop where
  | nil : Script 0 [] []
  | keep (c : Char) {n : Nat} {word last : List Char} (rest : Script n word last) :
      Script n (c :: word) (c :: last)
  | substitute (c d : Char) {n : Nat} {word last : List Char} (rest : Script n word last) :
      Script (n + 1) (c :: word) (d :: last)
  | insert (d : Char) {n : Nat} {word last : List Char} (rest : Script n word last) :
      Script (n + 1) word (d :: last)
  | delete (c : Char) {n : Nat} {word last : List Char} (rest : Script n word last) :
      Script (n + 1) (c :: word) last

section
variable {n : Nat} {c d : Char} {word next last : List Char}

theorem Script.symm (script : Script n word last) : Script n last word := by
  induction script with
  | nil => exact .nil
  | keep c _ ih => exact .keep c ih
  | substitute c d _ ih => exact .substitute d c ih
  | insert d _ ih => exact .delete d ih
  | delete c _ ih => exact .insert c ih

theorem Script.refl : ∀ word : List Char, Script 0 word word
  | [] => .nil
  | c :: word => .keep c (refl word)

theorem Script.edits (script : Script n word last) : Edits n word last := by
  induction script with
  | nil => exact .none []
  | keep c _ ih => exact ih.cons c
  | substitute c d _ ih => exact .some (.substitute c d _) (ih.cons d)
  | insert d _ ih => exact .some (.insert d _) (ih.cons d)
  | delete c _ ih => exact .some (.delete c _) ih

/-- An edit in front of a script becomes a part of it, at the place where the script comes to it. -/
theorem Script.absorb (script : Script n next last) : ∀ {word : List Char}, Edit word next →
    ∃ m ≤ n + 1, Script m word last := by
  -- Either the step of the script is where the edit was made, and both are one step or two, or the
  -- edit was made further on. A step that puts in a character does not come to the edit at all.
  induction script with
  | nil =>
    intro word edit
    cases edit with
    | delete c => exact ⟨1, Nat.le_refl _, .delete c .nil⟩
  | @keep c n next last rest ih =>
    intro word edit
    cases edit with
    | insert => exact ⟨n + 1, Nat.le_refl _, .insert c rest⟩
    | delete d => exact ⟨n + 1, Nat.le_refl _, .delete d (.keep c rest)⟩
    | substitute d => exact ⟨n + 1, Nat.le_refl _, .substitute d c rest⟩
    | behind _ edit =>
      obtain ⟨m, le, script⟩ := ih edit
      exact ⟨m, le, .keep c script⟩
  | @substitute c d n next last rest ih =>
    intro word edit
    cases edit with
    | insert => exact ⟨n + 1, Nat.le_succ _, .insert d rest⟩
    | delete b => exact ⟨n + 2, Nat.le_refl _, .delete b (.substitute c d rest)⟩
    | substitute b => exact ⟨n + 1, Nat.le_succ _, .substitute b d rest⟩
    | behind _ edit =>
      obtain ⟨m, le, script⟩ := ih edit
      exact ⟨m + 1, Nat.succ_le_succ le, .substitute c d script⟩
  | @insert d n next last rest ih =>
    intro word edit
    obtain ⟨m, le, script⟩ := ih edit
    exact ⟨m + 1, Nat.succ_le_succ le, .insert d script⟩
  | @delete c n next last rest ih =>
    intro word edit
    cases edit with
    | insert => exact ⟨n, by omega, rest⟩
    | delete b => exact ⟨n + 2, Nat.le_refl _, .delete b (.delete c rest)⟩
    | substitute b => exact ⟨n + 1, Nat.le_succ _, .delete b rest⟩
    | behind _ edit =>
      obtain ⟨m, le, script⟩ := ih edit
      exact ⟨m + 1, Nat.succ_le_succ le, .delete c script⟩

/-- Edits in any order are no better than a script. -/
theorem Edits.exists_script (edits : Edits n word last) :
    ∃ m ≤ n, Script m word last := by
  induction edits with
  | none word => exact ⟨0, Nat.le_refl _, .refl word⟩
  | some edit _ ih =>
    obtain ⟨k, fewer, script⟩ := ih
    obtain ⟨m, le, whole⟩ := script.absorb edit
    exact ⟨m, by omega, whole⟩

/-- A character that both words begin with is best kept. -/
theorem Script.behind (script : Script n (c :: word) (c :: last)) :
    ∃ m ≤ n, Script m word last := by
  cases script with
  | keep _ rest => exact ⟨n, Nat.le_refl _, rest⟩
  | @substitute _ _ n _ _ rest => exact ⟨n, Nat.le_succ _, rest⟩
  | insert _ rest => exact rest.absorb (.insert c word)
  | delete _ rest =>
    obtain ⟨m, le, script⟩ := rest.symm.absorb (.insert c last)
    exact ⟨m, le, script.symm⟩

end

/-! ## Distances -/

/-- The least number of edits. -/
def IsDistance (n : Nat) (word last : List Char) : Prop := IsLeast {n | Edits n word last} n

section
variable {n m diagonal above left : Nat} {c d : Char} {word next last : List Char}

theorem isDistance_iff_script :
    IsDistance n word last ↔ Script n word last ∧ ∀ m, Script m word last → n ≤ m := by
  constructor
  · rintro ⟨edits, least⟩
    obtain ⟨m, le, script⟩ := Edits.exists_script edits
    have same : n = m := Nat.le_antisymm (least script.edits) le
    subst same
    exact ⟨script, fun m other => least other.edits⟩
  · rintro ⟨script, least⟩
    refine ⟨script.edits, fun m edits => ?_⟩
    obtain ⟨k, le, other⟩ := Edits.exists_script edits
    exact (least k other).trans le

/-- Where both words go on with one character, the distance stays what it is. -/
theorem IsDistance.keep (distance : IsDistance n word last) :
    IsDistance n (c :: word) (c :: last) := by
  obtain ⟨script, least⟩ := isDistance_iff_script.1 distance
  refine isDistance_iff_script.2 ⟨.keep c script, fun m other => ?_⟩
  obtain ⟨k, le, shorter⟩ := other.behind
  exact (least k shorter).trans le

/-- Where the words go on with different characters, the last edit is one of three. -/
theorem IsDistance.change (apart : c ≠ d) (substituted : IsDistance diagonal word last)
    (inserted : IsDistance left (c :: word) last) (deleted : IsDistance above word (d :: last)) :
    IsDistance (1 + min diagonal (min above left)) (c :: word) (d :: last) := by
  obtain ⟨substituted, least⟩ := isDistance_iff_script.1 substituted
  obtain ⟨inserted, least'⟩ := isDistance_iff_script.1 inserted
  obtain ⟨deleted, least''⟩ := isDistance_iff_script.1 deleted
  rw [Nat.add_comm]
  refine isDistance_iff_script.2 ⟨?_, fun m script => ?_⟩
  · have one : min diagonal (min above left) = diagonal ∨ min diagonal (min above left) = above ∨
        min diagonal (min above left) = left := by
      omega
    rcases one with same | same | same
    · rw [same]
      exact .substitute c d substituted
    · rw [same]
      exact .delete c deleted
    · rw [same]
      exact .insert d inserted
  · cases script with
    | keep => exact absurd rfl apart
    | substitute _ _ rest =>
      have := least _ rest
      omega
    | insert _ rest =>
      have := least' _ rest
      omega
    | delete _ rest =>
      have := least'' _ rest
      omega

/-- All characters of a word are put in. -/
theorem isDistance_nil : ∀ word : List Char, IsDistance word.length [] word
  | [] => isDistance_iff_script.2 ⟨.nil, fun _ _ => Nat.zero_le _⟩
  | d :: word => by
    obtain ⟨script, least⟩ := isDistance_iff_script.1 (isDistance_nil word)
    refine isDistance_iff_script.2 ⟨.insert d script, fun m other => ?_⟩
    cases other with
    | insert _ rest => exact Nat.succ_le_succ (least _ rest)

theorem IsDistance.symm (distance : IsDistance n word last) : IsDistance n last word :=
  ⟨distance.1.symm, fun _ edits => distance.2 (Edits.symm edits)⟩

theorem IsDistance.reverse (distance : IsDistance n word.reverse last.reverse) :
    IsDistance n word last := by
  refine ⟨?_, fun m edits => distance.2 (Edits.reverse edits)⟩
  have edits := Edits.reverse distance.1
  rwa [List.reverse_reverse, List.reverse_reverse] at edits

theorem IsDistance.unique (first : IsDistance n word last) (second : IsDistance m word last) :
    n = m := IsLeast.unique first second

end

end NineBit.Text
