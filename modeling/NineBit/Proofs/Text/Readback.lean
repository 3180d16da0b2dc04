import Mathlib.Data.Nat.Digits.Defs
import NineBit.Text.Numeral

/-!
# Reading back what was written

A text that is put together line by line is cut into the same lines again, as long as no line has a
line end in itself (`lines_join`). An integer that is written in base ten or sixteen, filled up with
zeros to any width, is read as that integer (`readInt?_writeInt`): its digits are spelt as the
reader wants them, and none of them is taken for the mark of a base, a sign or a blank.
-/

namespace NineBit.Text

/-! ## Lines -/

section
variable {α : Type} {cut : α → Bool}

/-- Without a cut there is one piece. -/
theorem pieces_whole : ∀ {piece : List α}, (∀ x ∈ piece, cut x = false) →
    pieces cut piece = [piece]
  | [], _ => rfl
  | x :: piece, whole => by
    have inner : cut x = false := whole x List.mem_cons_self
    rw [pieces, inner, pieces_whole fun y member => whole y (List.mem_cons_of_mem _ member)]
    rfl

/-- The piece before a cut. -/
theorem pieces_append {c : α} (ends : cut c = true) (rest : List α) :
    ∀ {piece : List α}, (∀ x ∈ piece, cut x = false) →
      pieces cut (piece ++ c :: rest) = piece :: pieces cut rest
  | [], _ => by rw [List.nil_append, pieces, if_pos ends]
  | x :: piece, whole => by
    have inner : cut x = false := whole x List.mem_cons_self
    rw [List.cons_append, pieces, inner,
      pieces_append ends rest fun y member => whole y (List.mem_cons_of_mem _ member)]
    rfl

/-- Pieces with a cut behind each; the last cut leaves an empty piece behind it. -/
theorem pieces_flatMap {c : α} (ends : cut c = true) :
    ∀ {ps : List (List α)}, (∀ piece ∈ ps, ∀ x ∈ piece, cut x = false) →
      pieces cut (ps.flatMap (· ++ [c])) = ps ++ [[]]
  | [], _ => rfl
  | piece :: ps, whole => by
    have tail := pieces_flatMap ends fun other member => whole other (List.mem_cons_of_mem _ member)
    rw [List.flatMap_cons, List.append_assoc, List.singleton_append,
      pieces_append ends _ (whole piece List.mem_cons_self), tail, List.cons_append]

end

/-- Without carriage returns there is nothing to unify. -/
theorem unifyNewlines_of_not_mem : ∀ {chars : List Char}, '\r' ∉ chars → unifyNewlines chars = chars
  | [], _ => rfl
  | c :: rest, free => by
    have other : c ≠ '\r' := fun same => free (same ▸ List.mem_cons_self)
    have tail := unifyNewlines_of_not_mem fun member => free (List.mem_cons_of_mem _ member)
    unfold unifyNewlines
    split
    · rename_i same
      exact absurd (List.cons.inj same).1 other
    · rename_i same
      exact absurd (List.cons.inj same).1 other
    · rename_i same
      cases same
      rw [tail]
    · rename_i same
      cases same

/-- A text with a newline behind each of its lines. -/
theorem lines_join {ls : List String} (whole : ∀ l ∈ ls, ∀ c ∈ l.toList, isLineEnd c = false) :
    lines (String.join (ls.map (· ++ "\n"))) = ls := by
  have text : (String.join (ls.map (· ++ "\n"))).toList =
      (ls.map String.toList).flatMap (· ++ ['\n']) := by
    rw [String.toList_join, List.flatMap_map, List.flatMap_map]
    exact congrArg (List.flatMap · ls) (funext fun l => String.toList_append)
  have inner (piece : List Char) (member : piece ∈ ls.map String.toList) (c : Char)
      (inside : c ∈ piece) : isLineEnd c = false := by
    obtain ⟨l, listed, rfl⟩ := List.mem_map.1 member
    exact whole l listed c inside
  have returns : '\r' ∉ (ls.map String.toList).flatMap (· ++ ['\n']) := by
    intro member
    obtain ⟨piece, listed, inside⟩ := List.mem_flatMap.1 member
    rcases List.mem_append.1 inside with early | last
    · exact absurd (inner piece listed _ early) (by decide)
    · exact absurd (List.mem_singleton.1 last) (by decide)
  unfold lines
  dsimp only
  rw [text, unifyNewlines_of_not_mem returns, pieces_flatMap (by decide) inner,
    List.getLast?_concat, if_pos (by rfl), List.dropLast_concat]
  simp

/-- Lines with newlines between them and one at the end. -/
theorem intercalate_newline (l : String) (ls : List String) :
    "\n".intercalate (l :: ls) ++ "\n" = String.join ((l :: ls).map (· ++ "\n")) := by
  induction ls generalizing l with
  | nil => simp
  | cons next rest ih =>
    rw [String.intercalate_cons_cons, String.append_assoc, ih next]
    simp only [List.map_cons, String.join_cons]

/-! ## Digits -/

/-- The digits of the numerals that are written. -/
def IsDigitChar (c : Char) : Prop := ∃ d < 16, c = Nat.digitChar d

theorem isDigitChar_zero : IsDigitChar '0' := ⟨0, by decide, rfl⟩

theorem isDigitChar_of_mem {base n : Nat} (one_lt : 1 < base) (le : base ≤ 16) {c : Char}
    (member : c ∈ Nat.toDigits base n) : IsDigitChar c := by
  induction n using Nat.strong_induction_on with
  | _ n ih =>
    rw [Nat.toDigits_eq_if one_lt] at member
    split at member
    · exact ⟨n, by omega, List.mem_singleton.1 member⟩
    · rename_i large
      rcases List.mem_append.1 member with early | last
      · exact ih (n / base) (Nat.div_lt_self (by omega) one_lt) early
      · have below := Nat.mod_lt n (by omega : base > 0)
        exact ⟨n % base, by omega, List.mem_singleton.1 last⟩

/-- A digit is no blank, no line end and no mark. -/
theorem IsDigitChar.apart {c : Char} (digit : IsDigitChar c) :
    isBlank c = false ∧ isLineEnd c = false ∧ c ∉ ['-', '+', '_', 'x', 'X', '#'] := by
  obtain ⟨d, below, rfl⟩ := digit
  have all : ∀ d : Fin 16, isBlank (Nat.digitChar d) = false ∧
      isLineEnd (Nat.digitChar d) = false ∧
      Nat.digitChar d ∉ ['-', '+', '_', 'x', 'X', '#'] := by decide
  exact all ⟨d, below⟩

theorem digitValue?_digitChar {radix d : Nat} (below : d < radix) (le : radix ≤ 16) :
    digitValue? radix (Nat.digitChar d) = some d := by
  have all : ∀ d : Fin 16, digitValue? 16 (Nat.digitChar d) = some d.val := by decide +kernel
  have value := all ⟨d, by omega⟩
  unfold digitValue? at value ⊢
  dsimp only at value ⊢
  rw [Option.filter_eq_some_iff] at value ⊢
  exact ⟨value.1, decide_eq_true below⟩

section
variable {radix value n d : Nat} {after : Bool}

/-- Leading zeros do not count. -/
theorem digitsValue?_zeros (one_lt : 1 < radix) (le : radix ≤ 16) (rest : List Char) :
    ∀ (width : Nat) {after : Bool}, digitsValue? radix 0 after (List.replicate width '0' ++ rest) =
      digitsValue? radix 0 (after || decide (0 < width)) rest
  | 0, after => by rw [List.replicate_zero, List.nil_append]; simp
  | width + 1, after => by
    have zero : digitValue? radix '0' = some 0 := digitValue?_digitChar (d := 0) (by omega) le
    rw [List.replicate_succ, List.cons_append, digitsValue?, if_neg (by decide), zero]
    dsimp only
    rw [Nat.zero_mul, digitsValue?_zeros one_lt le rest width]
    simp

/-- One more digit. -/
theorem digitsValue?_concat (below : d < radix) (le : radix ≤ 16) :
    ∀ {chars : List Char} {value : Nat} {after : Bool},
      digitsValue? radix value after chars = some n →
        digitsValue? radix value after (chars ++ [Nat.digitChar d]) = some (n * radix + d)
  | [], value, after, read => by
    have digit : IsDigitChar (Nat.digitChar d) := ⟨d, by omega, rfl⟩
    have other : Nat.digitChar d ≠ '_' := fun same => digit.apart.2.2 (by simp [same])
    unfold digitsValue? at read
    split at read
    · cases read
      rw [List.nil_append, digitsValue?, if_neg other, digitValue?_digitChar below le]
      rfl
    · cases read
  | c :: rest, value, after, read => by
    rw [List.cons_append]
    unfold digitsValue? at read ⊢
    split at read
    · rename_i mark
      rw [if_pos mark]
      split at read
      · rename_i digit
        rw [if_pos digit]
        exact digitsValue?_concat below le read
      · cases read
    · rename_i other
      rw [if_neg other]
      cases known : digitValue? radix c with
      | none =>
        rw [known] at read
        cases read
      | some first =>
        rw [known] at read
        exact digitsValue?_concat below le read

theorem digitsValue?_toDigits (one_lt : 1 < radix) (le : radix ≤ 16) (n : Nat) (after : Bool) :
    digitsValue? radix 0 after (Nat.toDigits radix n) = some n := by
  induction n using Nat.strong_induction_on with
  | _ n ih =>
    rw [Nat.toDigits_eq_if one_lt]
    split
    · rename_i small
      have digit : IsDigitChar (Nat.digitChar n) := ⟨n, by omega, rfl⟩
      have other : Nat.digitChar n ≠ '_' := fun same => digit.apart.2.2 (by simp [same])
      rw [digitsValue?, if_neg other, digitValue?_digitChar small le]
      dsimp only
      rw [Nat.zero_mul, Nat.zero_add]
      rfl
    · rename_i large
      have read := ih (n / radix) (Nat.div_lt_self (by omega) one_lt)
      rw [digitsValue?_concat (Nat.mod_lt n (by omega)) le read, Nat.div_add_mod']

end

/-! ## Integers -/

/-- The bases in which integers are written for reading. -/
def Radix.Writes (radix : Radix) (base : Nat) : Prop :=
  radix = .decimal ∧ base = 10 ∨ radix = .hexadecimal ∧ base = 16

/-- Digits without marks are read in the base of the radix. -/
theorem magnitude?_digits {radix : Radix} {base : Nat} (writes : radix.Writes base)
    {chars : List Char} (digits : ∀ c ∈ chars, IsDigitChar c) :
    magnitude? radix chars = digitsValue? base 0 false chars := by
  rcases writes with ⟨rfl, rfl⟩ | ⟨rfl, rfl⟩
  · rfl
  · match chars with
    | [] => rfl
    | [_] => rfl
    | first :: second :: rest =>
      have other := (digits second (by simp)).apart.2.2
      have unmarked : (second == 'x' || second == 'X') = false := by
        simp only [List.mem_cons, not_or] at other
        simp [other]
      unfold magnitude?
      dsimp only
      rw [unmarked, Bool.and_false]
      rfl

/-- The characters of a written integer: a sign below zero, and digits. -/
theorem toList_writeInt (base width : Nat) (n : Int) :
    ∃ zeros, (writeInt base width n).toList = (if n < 0 then ['-'] else []) ++
      (List.replicate zeros '0' ++ Nat.toDigits base n.natAbs) := by
  unfold writeInt
  rw [String.toList_ofList]
  exact ⟨_, List.append_assoc _ _ _⟩

theorem mem_writeInt {base width : Nat} {n : Int} (one_lt : 1 < base) (le : base ≤ 16) {c : Char}
    (member : c ∈ (writeInt base width n).toList) : c = '-' ∨ IsDigitChar c := by
  obtain ⟨zeros, text⟩ := toList_writeInt base width n
  rw [text] at member
  rcases List.mem_append.1 member with sign | digits
  · split at sign
    · exact .inl (List.mem_singleton.1 sign)
    · cases sign
  · rcases List.mem_append.1 digits with zero | digit
    · rw [List.eq_of_mem_replicate zero]
      exact .inr isDigitChar_zero
    · exact .inr (isDigitChar_of_mem one_lt le digit)

/-- Nothing in a written integer is a blank, a line end or a remark. -/
theorem writeInt_apart {base width : Nat} {n : Int} (one_lt : 1 < base) (le : base ≤ 16) {c : Char}
    (member : c ∈ (writeInt base width n).toList) :
    isBlank c = false ∧ isLineEnd c = false ∧ c ≠ '#' := by
  rcases mem_writeInt one_lt le member with rfl | digit
  · decide
  · obtain ⟨blank, ends, marks⟩ := digit.apart
    exact ⟨blank, ends, fun same => marks (by simp [same])⟩

theorem writeInt_ne_empty (base width : Nat) (n : Int) : (writeInt base width n).toList ≠ [] := by
  obtain ⟨zeros, text⟩ := toList_writeInt base width n
  rw [text]
  simp

/-- Where no blank comes first there is nothing to skip. -/
theorem dropWhile_of_head {blank : Char → Bool} {chars : List Char}
    (first : ∀ c ∈ chars.head?, blank c = false) : chars.dropWhile blank = chars := by
  cases chars with
  | nil => rfl
  | cons c rest => exact List.dropWhile_cons_of_neg (by simp [first c rfl])

theorem dropWhile_of_all {blank : Char → Bool} {chars : List Char}
    (none : ∀ c ∈ chars, blank c = false) : chars.dropWhile blank = chars :=
  dropWhile_of_head fun c first => none c (List.mem_of_mem_head? first)

/-- A written integer is read as what it was written for. -/
theorem readInt?_writeInt {radix : Radix} {base : Nat} (writes : radix.Writes base) (width : Nat)
    (n : Int) : readInt? radix (writeInt base width n) = some n := by
  have one_lt : 1 < base := by rcases writes with ⟨-, rfl⟩ | ⟨-, rfl⟩ <;> decide
  have le : base ≤ 16 := by rcases writes with ⟨-, rfl⟩ | ⟨-, rfl⟩ <;> decide
  have blank (c : Char) (member : c ∈ (writeInt base width n).toList) :
      isNumeralBlank c = false := by
    unfold isNumeralBlank
    rw [(writeInt_apart one_lt le member).1, Bool.false_and]
  obtain ⟨zeros, text⟩ := toList_writeInt base width n
  have digits : ∀ c ∈ List.replicate zeros '0' ++ Nat.toDigits base n.natAbs, IsDigitChar c := by
    intro c member
    rcases List.mem_append.1 member with zero | digit
    · rw [List.eq_of_mem_replicate zero]
      exact isDigitChar_zero
    · exact isDigitChar_of_mem one_lt le digit
  have value : magnitude? radix (List.replicate zeros '0' ++ Nat.toDigits base n.natAbs) =
      some n.natAbs := by
    rw [magnitude?_digits writes digits, digitsValue?_zeros one_lt le,
      digitsValue?_toDigits one_lt le]
  unfold readInt? numeralChars
  rw [dropWhile_of_all blank, dropWhile_of_all (by simpa using blank), List.reverse_reverse, text]
  by_cases below : n < 0
  · have negated : -(n.natAbs : Int) = n := by omega
    rw [if_pos below, List.singleton_append]
    simp only [value, Option.pure_def, Option.bind_eq_bind, Option.bind_some, Option.map_some,
      negated]
  · rw [if_neg below, List.nil_append]
    split
    · rename_i same
      have digit := digits '-' (by rw [same]; exact List.mem_cons_self)
      exact absurd digit.apart.2.2 (by simp)
    · rename_i same
      have digit := digits '+' (by rw [same]; exact List.mem_cons_self)
      exact absurd digit.apart.2.2 (by simp)
    · rw [value]
      exact congrArg some (Int.natAbs_of_nonneg (Int.not_lt.1 below))

end NineBit.Text
