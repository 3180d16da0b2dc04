import NineBit.Proofs.Text.Edits
import NineBit.Text.Distance

/-!
# Edit distance and suggestions

Row by row, every entry of the table is the distance of the characters read so far to the columns up
to it (`Row`, `FullRow`), so that the last one is the distance of the words
(`isDistance_distance`). The candidates near to a name have one order by distance and name
(`Ranking.unique`), which is the one in which they are ranked (`ranking_ranked`).
-/

namespace NineBit.Text

/-! ## The table -/

/-- The entries of a row behind a column: the row is that of the characters `done`, the columns so
    far are those of `before`, and those to come are `word`. What has been read comes last character
    first. -/
inductive Row (done : List Char) : List Char → List Nat → List Char → Prop where
  | nil (before : List Char) : Row done before [] []
  | cons {x : Char} {before word : List Char} {entry : Nat} {row : List Nat}
      (distance : IsDistance entry done (x :: before)) (rest : Row done (x :: before) row word) :
      Row done before (entry :: row) (x :: word)

/-- A whole row: the entry of no columns, and those behind it. -/
inductive FullRow (done word : List Char) : List Nat → Prop where
  | mk {entry : Nat} {row : List Nat} (first : IsDistance entry done [])
      (behind : Row done [] row word) : FullRow done word (entry :: row)

section
variable {c : Char} {done before word source : List Char} {entry : Nat} {row : List Nat}

theorem Row.rowFrom (known : Row done before row word) : ∀ {left diagonal : Nat},
    IsDistance left (c :: done) before → IsDistance diagonal done before →
      Row (c :: done) before (rowFrom c left diagonal row word) word := by
  induction known with
  | nil before => exact fun _ _ => .nil before
  | @cons x before word above row distance rest ih =>
    intro left diagonal inserted substituted
    have entry : IsDistance (if c = x then diagonal else 1 + min diagonal (min above left))
        (c :: done) (x :: before) := by
      split
      · rename_i same
        exact same ▸ substituted.keep
      · rename_i apart
        exact substituted.change apart inserted distance
    exact .cons entry (ih entry distance)

/-- One character more for the rows. -/
theorem FullRow.next (known : FullRow done word row) (c : Char) :
    FullRow (c :: done) word (nextRow word row c) := by
  cases known with
  | @mk entry row first behind =>
    have length : entry = done.length := first.unique (isDistance_nil done).symm
    have longer : IsDistance (entry + 1) (c :: done) [] := by
      rw [length]
      exact (isDistance_nil (c :: done)).symm
    exact .mk longer (behind.rowFrom longer first)

theorem FullRow.foldl (known : FullRow done word row) :
    FullRow (source.reverse ++ done) word (source.foldl (nextRow word) row) := by
  induction source generalizing done row with
  | nil => exact known
  | cons c source ih =>
    rw [List.reverse_cons, List.append_assoc]
    exact ih (known.next c)

/-- Before any row has been read, an entry is the number of its column. -/
theorem row_range (word : List Char) : ∀ before : List Char,
    Row [] before (List.range' (before.length + 1) word.length) word := by
  induction word with
  | nil => exact .nil
  | cons x word ih => exact fun before => .cons (isDistance_nil (x :: before)) (ih (x :: before))

theorem fullRow_range (word : List Char) : FullRow [] word (List.range (word.length + 1)) := by
  rw [List.range_eq_range', List.range'_succ]
  exact .mk (isDistance_nil []) (row_range word [])

/-- The last entry of a row is the distance to all of its columns. -/
theorem Row.last (known : Row done before row word) (first : IsDistance entry done before) :
    IsDistance ((entry :: row).getLastD 0) done (word.reverse ++ before) := by
  induction known generalizing entry with
  | nil => exact first
  | @cons x before word next row distance rest ih =>
    rw [List.reverse_cons, List.append_assoc]
    exact ih distance

theorem FullRow.last (known : FullRow done word row) :
    IsDistance (row.getLastD 0) done word.reverse := by
  cases known with
  | mk first behind =>
    have last := behind.last first
    rwa [List.append_nil] at last

/-- The last entry of the table is the distance of the two words. -/
theorem isDistance_lastEntry (source word : List Char) :
    IsDistance (lastEntry source word) source word := by
  have whole : FullRow (source.reverse ++ []) word
      (source.foldl (nextRow word) (List.range (word.length + 1))) := (fullRow_range word).foldl
  have known := whole.last
  rw [List.append_nil] at known
  exact known.reverse

end

theorem isDistance_distance (source target : String) :
    IsDistance (distance source target) source.toList target.toList := by
  unfold distance
  split
  · exact (isDistance_lastEntry _ _).symm
  · exact isDistance_lastEntry _ _

example : distance "kitten" "sitting" = 3 := by
  decide +kernel

/-! ## Suggestions -/

/-- A misspelt name may stand for the candidate: it is another word, and two edits away at most, or
    one if the name is short. -/
def Near (name candidate : String) : Prop :=
  candidate ≠ name ∧ distance name candidate ≤ if name.length ≤ 2 then 1 else 2

instance (name candidate : String) : Decidable (Near name candidate) :=
  inferInstanceAs (Decidable (_ ∧ _))

/-- The first word is closer to a name than the second one, or as close and not behind it in the
    order of words. -/
def Closer (name x y : String) : Prop :=
  distance name x < distance name y ∨ distance name x = distance name y ∧ x ≤ y

/-- The near candidates, each as often as it is one, closest first. -/
structure Ranking (name : String) (candidates ranking : List String) : Prop where
  near : ranking.Perm (candidates.filter fun candidate => decide (Near name candidate))
  ordered : ranking.Pairwise (Closer name)

section
variable {name : String} {candidates others ranking other : List String}

theorem Closer.antisymm {x y : String} (first : Closer name x y) (second : Closer name y x) :
    x = y := by
  rcases first with lt | ⟨same, le⟩
  · rcases second with lt' | ⟨same, -⟩
    · omega
    · omega
  · rcases second with lt' | ⟨-, le'⟩
    · omega
    · exact String.le_antisymm le le'

/-- There is one ranking, in whatever order the candidates come. -/
theorem Ranking.unique (first : Ranking name candidates ranking)
    (second : Ranking name others other) (same : others.Perm candidates) : other = ranking := by
  have perm : other.Perm ranking := second.near.trans ((same.filter _).trans first.near.symm)
  exact perm.eq_of_pairwise (fun _ _ _ _ => Closer.antisymm) second.ordered first.ordered

theorem closer_iff {x y : Nat × String} :
    closer x y = true ↔ x.1 < y.1 ∨ x.1 = y.1 ∧ x.2 ≤ y.2 := by
  unfold closer
  simp

theorem closer_trans {x y z : Nat × String} (first : closer x y = true)
    (second : closer y z = true) : closer x z = true := by
  rw [closer_iff] at first second ⊢
  rcases first with lt | ⟨same, le⟩
  · left
    omega
  · rcases second with lt | ⟨same', le'⟩
    · left
      omega
    · exact .inr ⟨same.trans same', String.le_trans le le'⟩

theorem closer_total (x y : Nat × String) : (closer x y || closer y x) = true := by
  rw [Bool.or_eq_true, closer_iff, closer_iff]
  rcases Nat.lt_trichotomy x.1 y.1 with lt | same | lt
  · exact .inl (.inl lt)
  · exact (String.le_total x.2 y.2).imp (fun le => .inr ⟨same, le⟩) fun le => .inr ⟨same.symm, le⟩
  · exact .inr (.inl lt)

/-- The candidates with their distances, before they are put in order. -/
theorem filterMap_near (name : String) (candidates : List String) :
    (candidates.filterMap fun candidate =>
      if candidate = name then none
      else if distance name candidate ≤ tolerance name then
        some (distance name candidate, candidate)
      else none) =
    (candidates.filter fun candidate => decide (Near name candidate)).map
      fun candidate => (distance name candidate, candidate) := by
  induction candidates with
  | nil => rfl
  | cons first rest ih =>
    rw [List.filterMap_cons, List.filter_cons, ih]
    by_cases itself : first = name
    · simp [Near, itself]
    · by_cases near : distance name first ≤ tolerance name
      · have holds : Near name first := ⟨itself, near⟩
        simp [itself, near, holds]
      · have fails : ¬Near name first := fun holds => near holds.2
        simp [itself, near, fails]

/-- Words in the order of their distances, and of the words themselves. -/
theorem perm_sorted (name : String) (words : List String) :
    (((words.map fun word => (distance name word, word)).mergeSort closer).map (·.2)).Perm
      words := by
  have names : (words.map fun word => (distance name word, word)).map (·.2) = words := by
    rw [List.map_map]
    exact List.map_id words
  have perm := (List.mergeSort_perm (words.map fun word => (distance name word, word)) closer).map
    (·.2)
  rwa [names] at perm

theorem pairwise_sorted (name : String) (words : List String) :
    (((words.map fun word => (distance name word, word)).mergeSort closer).map (·.2)).Pairwise
      (Closer name) := by
  have sorted : ((words.map fun word => (distance name word, word)).mergeSort closer).Pairwise
      fun x y => closer x y = true := by
    apply List.pairwise_mergeSort
    · exact fun _ _ _ => closer_trans
    · exact closer_total
  refine List.pairwise_map.2 (sorted.imp_of_mem fun {x y} first second before => ?_)
  obtain ⟨word, -, rfl⟩ := List.mem_map.1 (List.mem_mergeSort.1 first)
  obtain ⟨other, -, rfl⟩ := List.mem_map.1 (List.mem_mergeSort.1 second)
  exact closer_iff.1 before

theorem ranking_ranked (name : String) (candidates : List String) :
    Ranking name candidates (ranked name candidates) := by
  have pairs : ranked name candidates =
      (((candidates.filter fun candidate => decide (Near name candidate)).map
        fun candidate => (distance name candidate, candidate)).mergeSort closer).map (·.2) := by
    rw [← filterMap_near]
    rfl
  rw [pairs]
  exact ⟨perm_sorted name _, pairwise_sorted name _⟩

end

/-- The distance of two words is the Levenshtein distance, and so a metric. The suggestions on a
    name are the first ones of the near candidates in their one order, closest first, whatever the
    order that they come in. -/
theorem distance_levenshtein :
    (∀ s t : String, IsLeast {n | Edits n s.toList t.toList} (distance s t)) ∧
      (∀ s t : String, distance s t = distance t s) ∧
      (∀ s t : String, distance s t = 0 ↔ s = t) ∧
      (∀ s t u : String, distance s u ≤ distance s t + distance t u) ∧
      ∀ (name : String) (candidates : List String), ∃ ranking,
        Ranking name candidates ranking ∧
          ∀ (limit : Nat) (others : List String), others.Perm candidates →
            similarUpTo limit name others = ranking.take limit := by
  refine ⟨isDistance_distance, fun s t => ?_, fun s t => ?_, fun s t u => ?_, ?_⟩
  · exact (isDistance_distance s t).unique (isDistance_distance t s).symm
  · constructor
    · intro zero
      have edits := (isDistance_distance s t).1
      rw [zero] at edits
      exact String.toList_inj.1 (edits_zero_iff.1 edits)
    · rintro rfl
      exact Nat.le_zero.1 ((isDistance_distance s s).2 (Edits.none _))
  · have through := (isDistance_distance s t).1.trans (isDistance_distance t u).1
    exact (isDistance_distance s u).2 through
  · intro name candidates
    refine ⟨_, ranking_ranked name candidates, fun limit others same => ?_⟩
    have one := (ranking_ranked name candidates).unique (ranking_ranked name others) same
    rw [similarUpTo, sliceTo_ofNat, one]

end NineBit.Text
