import NineBit.Asm.Lexer

/-!
# How lexemes are spelt

A rule of the lexer covers at least one character and never more than the text has, and what it
covers is spelt as its token demands (`Lexeme.Reads`): a number has digits, a condition something to
test, a register action an operation and an operand. No lexeme is a location or a control action by
itself; words become these when they name one.
-/

namespace NineBit.Asm

/-! ## Spellings -/

namespace Spelling

/-- A quote and a character, or digits, which may follow the mark of their base. -/
inductive Number : List Char → Prop where
  | character (c : Char) : Number ['\'', c]
  | hexadecimal {digits : List Char} (some : digits ≠ [])
      (all : ∀ c ∈ digits, Lexeme.isHex c = true) : Number ('0' :: 'x' :: digits)
  | binary {digits : List Char} (some : digits ≠ [])
      (all : ∀ c ∈ digits, Lexeme.isBinary c = true) : Number ('0' :: 'b' :: digits)
  | decimal {digits : List Char} (some : digits ≠ [])
      (all : ∀ c ∈ digits, c.isDigit = true) : Number digits

/-- The marks that a condition may have in front of its targets. -/
def conditionMarks : List (List Char) := [[], ['!'], ['|'], ['!', '|']]

/-- A question mark, marks, and targets. -/
inductive Condition : List Char → Prop where
  | mk {marks letters : List Char} (marked : marks ∈ conditionMarks) (some : letters ≠ [])
      (all : ∀ c ∈ letters, Lexeme.isTarget c = true) : Condition ('?' :: (marks ++ letters))

/-- The character of an operation, and an operand. -/
inductive RegisterAction : List Char → Prop where
  | mk (op : Isa.Operation) {operand : List Char} (some : operand ≠ []) :
      RegisterAction (op.symbol :: operand)

end Spelling

namespace Lexeme

/-- What a lexeme is spelt like. -/
def Spells : Lexeme → List Char → Prop
  | .token .number, text => Spelling.Number text
  | .token .condition, text => Spelling.Condition text
  | .token .registerAction, text => Spelling.RegisterAction text
  | .token .location, _ | .token .action, _ => False
  | .controlWord name, text => text = '!' :: name.toList
  | _, _ => True

/-- A rule covers some characters at the front of a text, and they are spelt as they should be. -/
structure Reads (text : List Char) (r : Lexeme × Nat) : Prop where
  pos : 0 < r.2
  le : r.2 ≤ text.length
  spelt : r.1.Spells (text.take r.2)

/-! ## Runs of a class -/

section
variable {p : Char → Bool} {text : List Char}

theorem run_le (p : Char → Bool) (text : List Char) : run p text ≤ text.length :=
  (List.takeWhile_prefix p).length_le

theorem take_run (p : Char → Bool) (text : List Char) : text.take (run p text) = text.takeWhile p :=
  (List.prefix_iff_eq_take.1 (List.takeWhile_prefix p)).symm

/-- A run holds only characters of its class. -/
theorem class_of_mem_run {c : Char} (member : c ∈ text.take (run p text)) : p c = true := by
  rw [take_run] at member
  exact List.all_eq_true.1 List.all_takeWhile c member

theorem take_run_ne_nil (some : run p text ≠ 0) : text.take (run p text) ≠ [] := by
  intro empty
  rw [take_run] at empty
  exact some (congrArg List.length empty)

theorem before_ne_zero {front n : Nat} (some : before front n ≠ 0) :
    n ≠ 0 ∧ before front n = front + n := by
  unfold before at some ⊢
  split at some
  · exact absurd rfl some
  · rename_i other
    exact ⟨other, if_neg other⟩

end

/-! ## The rules -/

section
variable {text : List Char}

theorem label_le (text : List Char) : label text ≤ text.length := by
  unfold label
  dsimp only
  split
  · rename_i colon
    obtain ⟨rest, same⟩ := List.head?_eq_some_iff.1 colon.2
    have length := congrArg List.length same
    simp only [List.length_drop, List.length_cons] at length
    omega
  · exact Nat.zero_le _

theorem reference_le (text : List Char) : reference text ≤ text.length := by
  unfold reference
  split
  · rename_i rest
    have run := run_le Text.isWord rest
    unfold before
    split
    · exact Nat.zero_le _
    · simp only [List.length_cons]
      omega
  · exact Nat.zero_le _

theorem exactly_le (word text : List Char) : exactly word text ≤ text.length := by
  unfold exactly
  split
  · rename_i front
    exact (List.isPrefixOf_iff_prefix.1 front).length_le
  · exact Nat.zero_le _

/-- A mark stands at the front or not. -/
theorem exactly_mark (mark : Char) (text : List Char) :
    exactly [mark] text = 0 ∨ exactly [mark] text = 1 ∧ ∃ rest, text = mark :: rest := by
  unfold exactly
  split
  · rename_i front
    obtain ⟨rest, same⟩ := List.isPrefixOf_iff_prefix.1 front
    exact .inr ⟨rfl, rest, same.symm⟩
  · exact .inl rfl

/-- Digits behind the two characters that mark their base. -/
theorem take_marked {p : Char → Bool} (first second : Char) {rest : List Char}
    (some : before 2 (run p rest) ≠ 0) :
    before 2 (run p rest) ≤ (first :: second :: rest).length ∧
      ∃ digits, digits ≠ [] ∧ (∀ c ∈ digits, p c = true) ∧
        (first :: second :: rest).take (before 2 (run p rest)) = first :: second :: digits := by
  obtain ⟨digits, length⟩ := before_ne_zero some
  have le := run_le p rest
  refine ⟨?_, rest.take (run p rest), take_run_ne_nil digits, fun c => class_of_mem_run, ?_⟩
  · simp only [length, List.length_cons]
    omega
  · rw [length, Nat.add_comm]
    rfl

theorem reads_number (some : number text ≠ 0) : Reads text (.token .number, number text) := by
  fun_cases number text with
  | case1 _ marked one =>
    dsimp only [marked] at one ⊢
    split at one
    · obtain ⟨le, digits, some, all, same⟩ := take_marked '0' 'x' one
      exact ⟨Nat.pos_of_ne_zero one, le, same ▸ .hexadecimal some all⟩
    · obtain ⟨le, digits, some, all, same⟩ := take_marked '0' 'b' one
      exact ⟨Nat.pos_of_ne_zero one, le, same ▸ .binary some all⟩
    · exact absurd rfl one
  | case2 rest => exact absurd rfl some
  | case3 c rest =>
    refine ⟨Nat.succ_pos _, ?_, .character c⟩
    simp only [List.length_cons]
    omega
  | case4 _ marked unmarked other =>
    have digits : run Char.isDigit text ≠ 0 := by
      intro none
      apply some
      unfold number
      dsimp only
      rw [if_neg unmarked]
      split
      · exact (other _ _ rfl).elim
      · exact none
    exact ⟨Nat.pos_of_ne_zero digits, run_le _ _,
      .decimal (take_run_ne_nil digits) fun c => class_of_mem_run⟩

/-- The marks of a condition. -/
theorem take_marks (text : List Char) :
    ∃ marks ∈ Spelling.conditionMarks,
      marks.length = exactly ['!'] text + exactly ['|'] (text.drop (exactly ['!'] text)) ∧
        text.take (exactly ['!'] text + exactly ['|'] (text.drop (exactly ['!'] text))) =
          marks := by
  rcases exactly_mark '!' text with none | ⟨one, rest, rfl⟩
  · rw [none, List.drop_zero, Nat.zero_add]
    rcases exactly_mark '|' text with none | ⟨one, rest, rfl⟩
    · rw [none]
      exact ⟨[], by decide, rfl, rfl⟩
    · rw [one]
      exact ⟨['|'], by decide, rfl, rfl⟩
  · rw [one, List.drop_succ_cons, List.drop_zero]
    rcases exactly_mark '|' rest with none | ⟨one, rest, rfl⟩
    · rw [none]
      exact ⟨['!'], by decide, rfl, rfl⟩
    · rw [one]
      exact ⟨['!', '|'], by decide, rfl, rfl⟩

/-- The letters behind a question mark and marks. -/
theorem reads_condition (some : condition text ≠ 0) :
    Reads text (.token .condition, condition text) := by
  unfold condition at some ⊢
  split at some
  · rename_i rest
    dsimp only at some ⊢
    obtain ⟨marks, marked, size, front⟩ := take_marks rest
    generalize exactly ['!'] rest = invert at *
    generalize exactly ['|'] (rest.drop invert) = anyOf at *
    obtain ⟨letters, length⟩ := before_ne_zero some
    have le := run_le isTarget (rest.drop (invert + anyOf))
    refine ⟨Nat.pos_of_ne_zero some, ?_, ?_⟩
    · rw [length, List.length_cons]
      rw [List.length_drop] at le
      omega
    · have covered (n : Nat) : ('?' :: rest).take (1 + invert + anyOf + n) =
          '?' :: (marks ++ (rest.drop (invert + anyOf)).take n) := by
        rw [← front, ← List.take_add, Nat.add_assoc 1, Nat.add_assoc 1, Nat.add_comm 1]
        rfl
      show Spelling.Condition _
      rw [length, covered]
      exact .mk marked (take_run_ne_nil letters) fun c => class_of_mem_run
  · exact absurd rfl some

theorem reads_control {c : Char} {rest : List Char} (some : control (c :: rest) ≠ 0) :
    Reads (c :: rest)
      (.controlWord (String.ofList (rest.takeWhile Char.isLower)), control (c :: rest)) := by
  have le := run_le Char.isLower rest
  have front := take_run Char.isLower rest
  unfold run at le front
  have reads : Reads ('!' :: rest)
      (.controlWord (String.ofList (rest.takeWhile Char.isLower)),
        1 + (rest.takeWhile Char.isLower).length) := by
    refine ⟨by omega, ?_, ?_⟩
    · simp only [List.length_cons]
      omega
    · show List.take (1 + _) _ = _
      rw [Nat.add_comm, List.take_succ_cons, front, String.toList_ofList]
  unfold control at some ⊢
  split at some
  · rename_i tail same
    cases same
    dsimp only at some ⊢
    split at some
    · exact absurd rfl some
    · rename_i letter single
      split at some
      · exact absurd rfl some
      · rename_i other
        rw [single] at reads ⊢
        rw [if_neg other]
        exact reads
    · exact reads
  · exact absurd rfl some

theorem registerOperand_le (text : List Char) : registerOperand text ≤ text.length := by
  fun_cases registerOperand text with
  | case1 c rest => simp
  | case2 c rest =>
    have run := run_le isMacroName rest
    simp only [List.length_cons]
    omega
  | case3 => exact Nat.zero_le _
  | case4 => exact Nat.zero_le _

theorem reads_registerAction (some : registerAction text ≠ 0) :
    Reads text (.token .registerAction, registerAction text) := by
  fun_cases registerAction text with
  | case1 c rest operation =>
    have operand : before 1 (registerOperand rest) ≠ 0 := by
      unfold registerAction at some
      rw [if_pos operation] at some
      exact some
    obtain ⟨some, length⟩ := before_ne_zero operand
    have le := registerOperand_le rest
    obtain ⟨op, found⟩ := Option.isSome_iff_exists.1 operation
    have symbol : op.symbol = c := by
      have same := List.find?_some found
      exact beq_iff_eq.1 same
    refine ⟨Nat.pos_of_ne_zero operand, ?_, ?_⟩
    · rw [length, List.length_cons]
      omega
    · show Spelling.RegisterAction _
      rw [length, Nat.add_comm, List.take_succ_cons, ← symbol]
      refine .mk op fun none => ?_
      rcases List.take_eq_nil_iff.1 none with none | none
      · exact some none
      · subst none
        exact some rfl
  | case2 c rest other =>
    unfold registerAction at some
    rw [if_neg other] at some
    exact absurd rfl some
  | case3 => exact absurd rfl some

/-- A single character. -/
theorem reads_one {c : Char} {rest : List Char} {lexeme : Lexeme} (spelt : lexeme.Spells [c]) :
    Reads (c :: rest) (lexeme, 1) :=
  ⟨Nat.one_pos, Nat.succ_le_succ (Nat.zero_le _), spelt⟩

/-- A rule whose lexeme may be spelt like anything. -/
theorem reads_of_le {lexeme : Lexeme} {n : Nat} (some : n ≠ 0) (le : n ≤ text.length)
    (any : ∀ chars, lexeme.Spells chars) : Reads text (lexeme, n) :=
  ⟨Nat.pos_of_ne_zero some, le, any _⟩

/-- A fixed word at the front. -/
theorem reads_exactly {word : List Char} {lexeme : Lexeme} (some : exactly word text ≠ 0)
    (any : ∀ chars, lexeme.Spells chars) : Reads text (lexeme, word.length) := by
  have length : exactly word text = word.length := by
    unfold exactly at some ⊢
    split at some
    · rename_i front
      rw [if_pos front]
    · exact absurd rfl some
  rw [← length]
  exact reads_of_le some (exactly_le word text) any

theorem Reads.ite {c : Prop} [Decidable c] {yes no : Lexeme × Nat} (first : c → Reads text yes)
    (second : ¬c → Reads text no) : Reads text (if c then yes else no) := by
  split
  · exact first ‹_›
  · exact second ‹_›

theorem bracket?_spells {c : Char} {kind : Token.Kind} (found : bracket? c = some kind)
    (chars : List Char) : (token kind).Spells chars := by
  unfold bracket? at found
  split at found
  all_goals
    cases found
    try trivial

/-- The rule that decides covers some characters, and they are spelt as they should be. -/
theorem reads_readPlain (c : Char) (rest : List Char) :
    Reads (c :: rest) (readPlain c rest) := by
  unfold readPlain
  dsimp only
  refine .ite (fun _ => reads_one trivial) fun _ => ?_
  refine .ite (fun _ => reads_one trivial) fun _ => ?_
  refine .ite (fun some => reads_of_le some (label_le _) fun _ => trivial) fun _ => ?_
  refine .ite (fun some => reads_of_le some (reference_le _) fun _ => trivial) fun _ => ?_
  refine .ite reads_number fun _ => ?_
  refine .ite (fun some => reads_of_le some (run_le _ _) fun _ => trivial) fun _ => ?_
  refine .ite (fun some => reads_exactly some fun _ => trivial) fun _ => ?_
  refine .ite (fun some => reads_exactly some fun _ => trivial) fun _ => ?_
  refine .ite (fun _ => reads_one trivial) fun _ => ?_
  refine .ite reads_condition fun _ => ?_
  refine .ite reads_control fun _ => ?_
  refine .ite reads_registerAction fun _ => ?_
  split
  · rename_i kind found
    exact reads_one (bracket?_spells found _)
  · refine .ite (fun some => reads_of_le some (run_le _ _) fun _ => trivial) fun _ => ?_
    refine .ite (fun _ => reads_one trivial) fun _ => ?_
    refine .ite (fun _ => reads_one trivial) fun _ => ?_
    refine .ite (fun some => reads_exactly some fun _ => trivial) fun _ => ?_
    exact reads_one trivial

/-- A comment goes on for some of the characters behind its mark. -/
theorem reads_readComment (text : List Char) : ∀ used : Nat,
    used ≤ (readComment used text).2 ∧ (readComment used text).2 ≤ used + text.length ∧
      ∀ chars, (readComment used text).1.Spells chars := by
  intro used
  fun_induction readComment used text with
  | case1 => exact ⟨Nat.le_refl _, Nat.le_refl _, fun _ => trivial⟩
  | case2 used rest =>
    refine ⟨by omega, ?_, fun _ => trivial⟩
    simp only [List.length_cons]
    omega
  | case3 used c rest other ih =>
    refine ⟨by omega, ?_, ih.2.2⟩
    simp only [List.length_cons]
    omega

/-- A string goes on for some of the characters behind its quote. -/
theorem reads_readString (value : List Char) (used : Nat) (text : List Char) :
    used ≤ (readString value used text).2 ∧ (readString value used text).2 ≤ used + text.length ∧
      ∀ chars, (readString value used text).1.Spells chars := by
  fun_induction readString value used text
  all_goals simp only [List.length_cons, List.length_nil] at *
  case case1 => exact ⟨by omega, by omega, fun _ => trivial⟩
  case case2 => exact ⟨by omega, by omega, fun _ => trivial⟩
  all_goals
    rename_i ih
    exact ⟨by omega, by omega, ih.2.2⟩

/-- A lexeme has at least its first character, and no more characters than the text. -/
theorem reads_read (c : Char) (rest : List Char) :
    Reads (c :: rest) ((read c rest).1, (read c rest).2 + 1) := by
  have counted {lexeme : Lexeme} {used : Nat} (reads : Reads (c :: rest) (lexeme, used)) :
      Reads (c :: rest) (lexeme, used - 1 + 1) := by
    have pos : 0 < used := reads.pos
    rw [Nat.sub_add_cancel pos]
    exact reads
  unfold read
  split
  · exact reads_one trivial
  · split
    · rename_i inside _
      obtain ⟨le, bound, any⟩ := reads_readComment inside 2
      have whole : (readComment 2 inside).2 ≤ ('/' :: '*' :: inside).length := by
        simp only [List.length_cons]
        omega
      exact counted (reads_of_le (by omega) whole any)
    · refine reads_of_le (Nat.succ_ne_zero _) ?_ fun _ => trivial
      exact Nat.succ_le_succ (run_le _ _)
    · obtain ⟨le, bound, any⟩ := reads_readString [] 1 rest
      have whole : (readString [] 1 rest).2 ≤ ('"' :: rest).length := by
        simp only [List.length_cons]
        omega
      exact counted (reads_of_le (by omega) whole any)
    · exact counted (reads_readPlain c rest)

end

end Lexeme

end NineBit.Asm
