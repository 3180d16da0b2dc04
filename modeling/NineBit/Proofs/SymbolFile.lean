import NineBit.SymbolFile

/-!
# Reading symbol files

A line of a symbol file says nothing, or a name and a number (`SymbolFile.Reads`); or it says
something else (`Malformed`), or a name and digits that stand for no number (`NoNumber`). A file is
read up to its first line of the last two kinds, and fails as that line does (`readLines_before`).
-/

namespace NineBit.SymbolFile

/-- A line says something else than a name and digits. -/
def Malformed (line : String) : Prop := content line ≠ "" ∧ digits? line = none

/-- A line says a name and digits that stand for no number. -/
def NoNumber (line address : String) : Prop :=
  digits? line = some address ∧ Text.readInt? .decimal address = none

/-- A line says nothing, or a name and a number. -/
def Reads (line : String) : Prop :=
  content line = "" ∨ ∃ address, digits? line = some address ∧
    (Text.readInt? .decimal address).isSome = true

instance (line : String) : Decidable (Malformed line) := inferInstanceAs (Decidable (_ ∧ _))

instance (line address : String) : Decidable (NoNumber line address) :=
  inferInstanceAs (Decidable (_ ∧ _))

variable {line address : String} {number : Nat}

theorem readLine_empty (empty : content line = "") : readLine number line = .ok none := by
  unfold content at empty
  unfold readLine
  dsimp only
  rw [empty]
  rfl

theorem readLine_digits (number : Nat) (digits : digits? line = some address) : ∃ name,
    readLine number line =
      match Text.readInt? .decimal address with
      | some value => .ok (some (value, name))
      | none => .error (.noNumber address) := by
  have filled : (content line).isEmpty = false := by
    refine Bool.eq_false_iff.2 fun empty => ?_
    unfold digits? at digits
    rw [String.isEmpty_iff.1 empty] at digits
    cases digits
  unfold digits? at digits
  split at digits
  · rename_i name other fields
    split at digits
    · rename_i all
      cases digits
      refine ⟨name, ?_⟩
      unfold content at filled fields
      unfold readLine
      dsimp only
      rw [filled, fields]
      dsimp only
      exact (if_neg Bool.false_ne_true).trans (if_pos all)
    · cases digits
  · cases digits

theorem readLine_malformed (malformed : Malformed line) :
    readLine number line = .error (.malformed number (content line)) := by
  obtain ⟨filled, shapeless⟩ := malformed
  unfold digits? at shapeless
  unfold content at filled shapeless ⊢
  unfold readLine
  dsimp only
  rw [if_neg fun empty => filled (String.isEmpty_iff.1 empty)]
  split
  · rename_i name address fields
    rw [fields] at shapeless
    dsimp only at shapeless
    split at shapeless
    · cases shapeless
    · rename_i other
      rw [if_neg other]
  · rfl

theorem readLine_noNumber (noNumber : NoNumber line address) :
    readLine number line = .error (.noNumber address) := by
  obtain ⟨name, read⟩ := readLine_digits number noNumber.1
  rw [read, noNumber.2]

theorem readLine_reads (number : Nat) (reads : Reads line) :
    ∃ found, readLine number line = .ok found := by
  rcases reads with empty | ⟨address, digits, numeral⟩
  · exact ⟨none, readLine_empty empty⟩
  · obtain ⟨name, read⟩ := readLine_digits number digits
    obtain ⟨value, same⟩ := Option.isSome_iff_exists.1 numeral
    exact ⟨_, by rw [read, same]⟩

/-- A line fails for digits that stand for no number only if it has them. -/
theorem noNumber_of_readLine (failed : readLine number line = .error (.noNumber address)) :
    NoNumber line address := by
  by_cases empty : content line = ""
  · rw [readLine_empty empty] at failed
    cases failed
  cases digits : digits? line with
  | none =>
    rw [readLine_malformed ⟨empty, digits⟩] at failed
    cases failed
  | some other =>
    obtain ⟨name, read⟩ := readLine_digits number digits
    rw [read] at failed
    split at failed
    · cases failed
    · rename_i none
      cases failed
      exact ⟨digits, none⟩

theorem reads_of_readLine {found : Option (Int × String)}
    (read : readLine number line = .ok found) : Reads line := by
  by_cases empty : content line = ""
  · exact .inl empty
  cases digits : digits? line with
  | none =>
    rw [readLine_malformed ⟨empty, digits⟩] at read
    cases read
  | some address =>
    obtain ⟨name, same⟩ := readLine_digits number digits
    rw [same] at read
    split at read
    · rename_i value numeral
      exact .inr ⟨address, digits, by rw [numeral]; rfl⟩
    · cases read

/-- Reading goes as far as the first line that fails. -/
theorem readLines_before {error : Error} {before after : List String}
    (fine : ∀ l ∈ before, Reads l)
    (failed : readLine (number + before.length) line = .error error) :
    readLines number (before ++ line :: after) = .error error := by
  induction before generalizing number with
  | nil =>
    rw [List.length_nil, Nat.add_zero] at failed
    rw [List.nil_append]
    unfold readLines
    rw [failed]
  | cons first before ih =>
    have place : number + (first :: before).length = number + 1 + before.length := by
      rw [List.length_cons]
      omega
    rw [place] at failed
    have later := ih (fun l member => fine l (List.mem_cons_of_mem _ member)) failed
    obtain ⟨found, read⟩ := readLine_reads number (fine first List.mem_cons_self)
    rw [List.cons_append]
    unfold readLines
    rw [read]
    cases found with
    | none => exact later
    | some symbol =>
      dsimp only
      rw [later]
      rfl

/-- Reading fails for digits that stand for no number where it comes to a line with them. -/
theorem readLines_eq_noNumber_iff {ls : List String} :
    readLines number ls = .error (.noNumber address) ↔
      ∃ before line after, ls = before ++ line :: after ∧ (∀ l ∈ before, Reads l) ∧
        NoNumber line address := by
  constructor
  · intro failed
    induction ls generalizing number with
    | nil => cases failed
    | cons line rest ih =>
      have later (reads : Reads line) (below : readLines (number + 1) rest =
          .error (.noNumber address)) : ∃ before other after, line :: rest =
            before ++ other :: after ∧ (∀ l ∈ before, Reads l) ∧ NoNumber other address := by
        obtain ⟨before, other, after, rfl, fine, noNumber⟩ := ih below
        exact ⟨line :: before, other, after, rfl, List.forall_mem_cons.2 ⟨reads, fine⟩, noNumber⟩
      unfold readLines at failed
      split at failed
      · rename_i error read
        cases failed
        exact ⟨[], line, rest, rfl, nofun, noNumber_of_readLine read⟩
      · rename_i read
        exact later (reads_of_readLine read) failed
      · rename_i symbol read
        refine later (reads_of_readLine read) ?_
        cases below : readLines (number + 1) rest with
        | ok table =>
          rw [below] at failed
          cases failed
        | error error =>
          rw [below] at failed
          cases failed
          rfl
  · rintro ⟨before, line, after, rfl, fine, noNumber⟩
    exact readLines_before fine (readLine_noNumber noNumber)

end NineBit.SymbolFile
