import NineBit.Proofs.Asm.Apart
import NineBit.Proofs.Asm.Origins
import NineBit.Proofs.Asm.Strings

/-!
# Tokens that are printed

A token is printed as its text, and a string as a literal for its value (`Token.printed`). What a
rule of the lexer covers would be covered by it alone, too, if a separator came next
(`Lexeme.readAlone_of_read`); no rule before it would take it. So every token stands alone, and
printed tokens with single spaces between them are read as these tokens, without a problem
(`Lexer.scan_printed`).
-/

namespace NineBit.Asm

namespace Lexeme

/-! ## Classes of characters -/

section
variable {c : Char}

theorem inner_isHex : Inner isHex := inner_of_all (by decide)

theorem inner_isBinary : Inner isBinary := inner_of_all (by decide)

theorem inner_isMacroName : Inner isMacroName := inner_of_all (by decide)

theorem isWord_of_isHex (hex : isHex c = true) : Text.isWord c = true := by
  apply isWord_of_isAlphanum
  simp only [isHex, Bool.or_eq_true, Bool.and_eq_true, decide_eq_true_eq, Char.le_def] at hex
  unfold Char.isAlphanum Char.isAlpha Char.isUpper Char.isLower
  simp only [Bool.or_eq_true, Bool.and_eq_true, decide_eq_true_eq, ge_iff_le]
  rcases hex with (digit | lower) | upper
  · exact .inr digit
  · exact .inl (.inr ⟨lower.1, UInt32.le_trans lower.2 (by decide)⟩)
  · exact .inl (.inl ⟨upper.1, UInt32.le_trans upper.2 (by decide)⟩)

theorem isWord_of_isMacroName (name : isMacroName c = true) : Text.isWord c = true := by
  simp only [isMacroName, Bool.or_eq_true, beq_iff_eq] at name
  rcases name with (upper | digit) | rfl
  · apply isWord_of_isAlphanum
    unfold Char.isAlphanum Char.isAlpha
    rw [upper, Bool.true_or, Bool.true_or]
  · exact isWord_of_isDigit digit
  · rfl

theorem isLower_of_isMacroName (name : isMacroName c = true) : c.isLower = false := by
  simp only [isMacroName, Bool.or_eq_true, beq_iff_eq] at name
  rcases name with (upper | digit) | rfl
  · rw [Bool.eq_false_iff]
    intro lower
    unfold Char.isUpper at upper
    unfold Char.isLower at lower
    simp only [Bool.and_eq_true, decide_eq_true_eq, ge_iff_le, UInt32.le_iff_toNat_le]
      at upper lower
    have range : (97 : Nat) ≤ 90 := Nat.le_trans lower.1 upper.2
    omega
  · rw [Bool.eq_false_iff]
    intro lower
    rw [isDigit_of_isLower lower] at digit
    cases digit
  · rfl

/-- No mark is a word character. -/
theorem isOperation_of_isWord (all : Text.isWord c = true) : isOperation c = false := by
  rw [Bool.eq_false_iff]
  intro operation
  obtain ⟨op, found⟩ := Option.isSome_iff_exists.1 operation
  have same := List.find?_some found
  rw [← beq_iff_eq.1 same] at all
  cases op <;> cases all

theorem bracket?_of_isWord (all : Text.isWord c = true) : bracket? c = none := by
  unfold bracket?
  split
  · cases all
  · cases all
  · cases all
  · rfl

end

/-! ## Tokens that start with a word character -/

section
variable {c : Char} {rest word behind : List Char}

theorem readAlone_label (some : word ≠ []) (all : ∀ c ∈ word, Text.isWord c = true) :
    ReadAlone (word ++ [':']) (.token .label) := by
  cases word with
  | nil => exact absurd rfl some
  | cons c rest =>
    refine ⟨c, rest ++ [':'], rfl, fun behind _ => ?_⟩
    have first := all c List.mem_cons_self
    have length : label (c :: (rest ++ [':'] ++ behind)) = rest.length + 2 := by
      have run : run Text.isWord (c :: (rest ++ [':'] ++ behind)) = rest.length + 1 := by
        unfold Lexeme.run
        rw [List.append_assoc, ← List.cons_append, List.takeWhile_append_of_pos all,
          List.singleton_append, List.takeWhile_cons_of_neg (by decide), List.append_nil]
        rfl
      unfold label
      dsimp only
      rw [run, List.append_assoc, List.drop_succ_cons, List.drop_left]
      rfl
    rw [read_of_isWord first]
    unfold readPlain
    dsimp only
    rw [if_neg (ne_of_class first (by decide)), if_neg (ne_of_class first (by decide)), length,
      List.length_append]
    rfl

/-- Digits of another base, behind its mark. -/
theorem readAlone_based {mark : Char} {p : Char → Bool}
    (based : mark = 'x' ∧ p = isHex ∨ mark = 'b' ∧ p = isBinary) (some : word ≠ [])
    (all : ∀ c ∈ word, p c = true) : ReadAlone ('0' :: mark :: word) (.token .number) := by
  refine ⟨'0', mark :: word, rfl, fun behind ends => ?_⟩
  have words : ∀ c ∈ '0' :: mark :: word, Text.isWord c = true := by
    rcases based with ⟨rfl, rfl⟩ | ⟨rfl, rfl⟩
    · refine List.forall_mem_cons.2 ⟨rfl, List.forall_mem_cons.2 ⟨rfl, fun c member => ?_⟩⟩
      exact isWord_of_isHex (all c member)
    · refine List.forall_mem_cons.2 ⟨rfl, List.forall_mem_cons.2 ⟨rfl, fun c member => ?_⟩⟩
      have binary := all c member
      simp only [isBinary, Bool.or_eq_true, beq_iff_eq] at binary
      rcases binary with rfl | rfl <;> rfl
  have label : label ('0' :: (mark :: word ++ behind)) = 0 := label_eq_zero words ends
  have digits : before 2 word.length ≠ 0 ∧ before 2 word.length = word.length + 2 := by
    have length : word.length ≠ 0 := fun none => some (List.length_eq_zero_iff.1 none)
    unfold before
    rw [if_neg length]
    omega
  have number : number ('0' :: (mark :: word ++ behind)) = word.length + 2 := by
    rcases based with ⟨rfl, rfl⟩ | ⟨rfl, rfl⟩
    · show (if before 2 (run isHex (word ++ behind)) ≠ 0 then
        before 2 (run isHex (word ++ behind)) else _) = _
      rw [run_ends inner_isHex all ends, if_pos digits.1, digits.2]
    · show (if before 2 (run isBinary (word ++ behind)) ≠ 0 then
        before 2 (run isBinary (word ++ behind)) else _) = _
      rw [run_ends inner_isBinary all ends, if_pos digits.1, digits.2]
  rw [read_of_isWord rfl]
  unfold readPlain
  dsimp only
  rw [if_neg (by decide), if_neg (by decide), label, reference_eq_zero (by decide), number]
  rfl

/-- A macro's name that does not start as a number does. -/
theorem readAlone_macroName (all : ∀ d ∈ c :: rest, isMacroName d = true)
    (digit : c.isDigit = false) : ReadAlone (c :: rest) (.token .macroName) := by
  refine ⟨c, rest, rfl, fun behind ends => ?_⟩
  have name := all c List.mem_cons_self
  have words (d : Char) (member : d ∈ c :: rest) : Text.isWord d = true :=
    isWord_of_isMacroName (all d member)
  have first := words c List.mem_cons_self
  have other {d : Char} (mark : isMacroName d = false) : c ≠ d := ne_of_class name mark
  have label : label (c :: (rest ++ behind)) = 0 := label_eq_zero words ends
  have lower : lowerWord (c :: (rest ++ behind)) = 0 := run_eq_zero (isLower_of_isMacroName name)
  have condition : condition (c :: (rest ++ behind)) = 0 := by
    unfold Lexeme.condition
    split
    · rename_i same
      exact absurd (List.cons.inj same).1 (other (by decide))
    · rfl
  have control : control (c :: (rest ++ behind)) = 0 := by
    unfold Lexeme.control
    split
    · rename_i same
      exact absurd (List.cons.inj same).1 (other (by decide))
    · rfl
  have action : registerAction (c :: (rest ++ behind)) = 0 := by
    show (if isOperation c = true then _ else 0) = 0
    rw [isOperation_of_isWord first]
    rfl
  have length : macroName (c :: (rest ++ behind)) = rest.length + 1 :=
    run_ends inner_isMacroName all ends
  have push : exactly "#push".toList (c :: (rest ++ behind)) = 0 :=
    exactly_eq_zero (other (by decide))
  have pop : exactly "#pop".toList (c :: (rest ++ behind)) = 0 :=
    exactly_eq_zero (other (by decide))
  rw [read_of_isWord first]
  unfold readPlain
  dsimp only
  rw [if_neg (other (by decide)), if_neg (other (by decide)), label,
    reference_eq_zero (other (by decide)), number_eq_zero digit (other (by decide)), lower, push,
    pop, if_neg (other (by decide)), condition, control, action, bracket?_of_isWord first, length]
  rfl

end

/-! ## Tokens that start with a mark -/

section
variable {c : Char} {rest word behind : List Char}

theorem readAlone_reference (some : word ≠ []) (all : ∀ c ∈ word, Text.isWord c = true) :
    ReadAlone (':' :: word) (.token .reference) := by
  refine ⟨':', word, rfl, fun behind ends => ?_⟩
  have length : reference (':' :: (word ++ behind)) = 1 + word.length := by
    show before 1 (run Text.isWord (word ++ behind)) = _
    rw [run_ends inner_isWord all ends]
    exact if_neg fun none => some (List.length_eq_zero_iff.1 none)
  show (fun r : Lexeme × Nat => (r.1, r.2 - 1))
    (if reference (':' :: (word ++ behind)) ≠ 0 then
      (token .reference, reference (':' :: (word ++ behind)))
    else _) = _
  rw [length, if_pos (by omega)]
  exact congrArg (Prod.mk _) (Nat.add_sub_cancel_left _ _)

/-- A character of the line behind a quote is a number. -/
theorem readAlone_character (inside : c ≠ '\n') : ReadAlone ['\'', c] (.token .number) := by
  refine ⟨'\'', [c], rfl, fun behind _ => ?_⟩
  have two : number ('\'' :: c :: behind) = 2 := if_neg inside
  show (fun r : Lexeme × Nat => (r.1, r.2 - 1))
    (if number ('\'' :: c :: behind) ≠ 0 then
      (token .number, number ('\'' :: c :: behind))
    else _) = _
  rw [two]
  rfl

theorem read_registerAction (op : Isa.Operation) (other : control (op.symbol :: rest) = 0)
    (some : registerAction (op.symbol :: rest) ≠ 0) :
    read op.symbol rest = (token .registerAction, registerAction (op.symbol :: rest) - 1) := by
  let shorter (r : Lexeme × Nat) : Lexeme × Nat := (r.1, r.2 - 1)
  cases op with
  | invert => exact congrArg shorter ((if_neg fun none => none other).trans (if_pos some))
  | increment | decrement | shiftLeft | shiftRight => exact congrArg shorter (if_pos some)

/-- An operation whose operand is a macro. -/
theorem readAlone_registerMacro (op : Isa.Operation) (register : isRegister c = false)
    (name : (c.isUpper || c == '_') = true) (all : ∀ d ∈ rest, isMacroName d = true) :
    ReadAlone (op.symbol :: c :: rest) (.token .registerAction) := by
  refine ⟨op.symbol, c :: rest, rfl, fun behind ends => ?_⟩
  have run : run isMacroName (rest ++ behind) = rest.length := run_ends inner_isMacroName all ends
  have length : registerAction (op.symbol :: c :: (rest ++ behind)) = rest.length + 2 := by
    have operation : isOperation op.symbol = true := by cases op <;> rfl
    have operand : registerOperand (c :: (rest ++ behind)) = 1 + rest.length := by
      show (if isRegister c = true then 1
        else if (c.isUpper || c == '_') = true then 1 + _ else 0) = _
      rw [register, if_neg Bool.false_ne_true, if_pos name, run]
    show (if isOperation op.symbol = true then
      before 1 (registerOperand (c :: (rest ++ behind))) else 0) = _
    rw [operation, if_pos rfl, operand, before, if_neg (by omega)]
    omega
  have other : control (op.symbol :: c :: (rest ++ behind)) = 0 := by
    have lower : c.isLower = false := by
      apply isLower_of_isMacroName
      unfold isMacroName
      rw [Bool.or_right_comm, name]
      rfl
    cases op with
    | invert =>
      show control ('!' :: _) = 0
      rw [control_eq, List.takeWhile_cons_of_neg (by rw [lower]; decide)]
    | _ => rfl
  rw [List.cons_append, read_registerAction op other (by omega), length]
  rfl

end

/-! ## What a rule covers -/

section
variable {text : List Char}

theorem readAlone_take_label (some : label text ≠ 0) :
    ReadAlone (text.take (label text)) (.token .label) := by
  unfold label at some ⊢
  dsimp only at some ⊢
  split at some
  · rename_i colon
    obtain ⟨rest, same⟩ := List.head?_eq_some_iff.1 colon.2
    rw [if_pos colon, List.take_add, same]
    exact readAlone_label (take_run_ne_nil colon.1) fun c => class_of_mem_run
  · exact absurd rfl some

theorem readAlone_take_reference (some : reference text ≠ 0) :
    ReadAlone (text.take (reference text)) (.token .reference) := by
  unfold reference at some ⊢
  split at some
  · obtain ⟨word, length⟩ := before_ne_zero some
    rw [length, Nat.add_comm, List.take_succ_cons]
    exact readAlone_reference (take_run_ne_nil word) fun c => class_of_mem_run
  · exact absurd rfl some

theorem readAlone_take_number (some : number text ≠ 0) :
    ReadAlone (text.take (number text)) (.token .number) := by
  have spelt : Spelling.Number (text.take (number text)) := (reads_number some).spelt
  generalize same : text.take (number text) = word at spelt
  cases spelt with
  | hexadecimal digits all => exact readAlone_based (.inl ⟨rfl, rfl⟩) digits all
  | binary digits all => exact readAlone_based (.inr ⟨rfl, rfl⟩) digits all
  | decimal digits all => exact readAlone_digits digits all
  | character c =>
    refine readAlone_character fun newline => some ?_
    obtain ⟨rest, whole⟩ : ['\'', c] <+: text := same ▸ List.take_prefix _ _
    rw [← whole, newline]
    rfl

theorem readAlone_take_registerAction (some : registerAction text ≠ 0) :
    ReadAlone (text.take (registerAction text)) (.token .registerAction) := by
  fun_cases registerAction text with
  | case1 c rest operation =>
    unfold registerAction at some
    rw [if_pos operation] at some
    obtain ⟨operand, length⟩ := before_ne_zero some
    obtain ⟨op, found⟩ := Option.isSome_iff_exists.1 operation
    have symbol := List.find?_some found
    rw [length, Nat.add_comm, List.take_succ_cons, ← beq_iff_eq.1 symbol]
    fun_cases registerOperand rest with
    | case1 d more register =>
      obtain ⟨r, found⟩ := Option.isSome_iff_exists.1 register
      have letter := List.find?_some found
      rw [List.take_succ_cons, List.take_zero, ← beq_iff_eq.1 letter]
      have alone := readAlone_registerAction op r
      unfold Isa.Action.text at alone
      rwa [String.toList_ofList] at alone
    | case2 d more register name =>
      rw [Nat.add_comm, List.take_succ_cons]
      exact readAlone_registerMacro op (Bool.eq_false_iff.2 register) name fun c => class_of_mem_run
    | case3 d more register name =>
      exact absurd (by unfold registerOperand; rw [if_neg register, if_neg name]) operand
    | case4 => exact absurd rfl operand
  | case2 c rest other =>
    unfold registerAction at some
    rw [if_neg other] at some
    exact absurd rfl some
  | case3 => exact absurd rfl some

/-- A text that starts with a digit starts with a number. -/
theorem number_ne_zero {c : Char} {rest : List Char} (digit : c.isDigit = true) :
    number (c :: rest) ≠ 0 := by
  have quote : c ≠ '\'' := ne_of_class digit (by decide)
  have digits : run Char.isDigit (c :: rest) ≠ 0 := by
    unfold run
    rw [List.takeWhile_cons_of_pos digit]
    exact Nat.succ_ne_zero _
  generalize same : c :: rest = text at *
  fun_cases number text with
  | case1 _ marked one => exact one
  | case2 => exact absurd (List.cons.inj same).1 quote
  | case3 => exact absurd (List.cons.inj same).1 quote
  | case4 => exact digits

theorem readAlone_take_macroName {c : Char} {rest : List Char} (some : macroName (c :: rest) ≠ 0)
    (other : number (c :: rest) = 0) :
    ReadAlone ((c :: rest).take (macroName (c :: rest))) (.token .macroName) := by
  have digit : c.isDigit = false := Bool.eq_false_iff.2 fun digit => number_ne_zero digit other
  have all : ∀ d ∈ (c :: rest).take (macroName (c :: rest)), isMacroName d = true :=
    fun d => class_of_mem_run
  obtain ⟨n, length⟩ := Nat.exists_eq_succ_of_ne_zero some
  rw [length, List.take_succ_cons] at all ⊢
  exact readAlone_macroName all digit

theorem take_exactly {word : List Char} (some : exactly word text ≠ 0) :
    text.take word.length = word := by
  unfold exactly at some
  split at some
  · rename_i front
    exact (List.prefix_iff_eq_take.1 (List.isPrefixOf_iff_prefix.1 front)).symm
  · exact absurd rfl some

theorem readAlone_bracket {c : Char} {kind : Token.Kind} (found : bracket? c = some kind) :
    ReadAlone [c] (.token kind) := by
  unfold bracket? at found
  split at found
  all_goals
    cases found
    try exact ⟨_, _, rfl, fun _ _ => rfl⟩

/-- A rule whose token would be read alike with a separator behind it. -/
def Stands (text : List Char) (r : Lexeme × Nat) : Prop :=
  ∀ kind, r.1 = .token kind → ReadAlone (text.take r.2) r.1

theorem Stands.ite {c : Prop} [Decidable c] {yes no : Lexeme × Nat} (first : c → Stands text yes)
    (second : ¬c → Stands text no) : Stands text (if c then yes else no) := by
  split
  · exact first ‹_›
  · exact second ‹_›

theorem stands_of_readAlone {kind : Token.Kind} {n : Nat}
    (alone : ReadAlone (text.take n) (.token kind)) : Stands text (.token kind, n) :=
  fun _ _ => alone

end

/-- The rule that decides would decide alike with a separator behind what it covers. -/
theorem stands_readPlain (c : Char) (rest : List Char) : Stands (c :: rest) (readPlain c rest) := by
  unfold readPlain
  dsimp only
  refine .ite (fun _ => nofun) fun _ => ?_
  refine .ite (fun _ => nofun) fun _ => ?_
  refine .ite (fun some => stands_of_readAlone (readAlone_take_label some)) fun _ => ?_
  refine .ite (fun some => stands_of_readAlone (readAlone_take_reference some)) fun _ => ?_
  refine .ite (fun some => stands_of_readAlone (readAlone_take_number some)) fun digitless => ?_
  refine .ite (fun _ => nofun) fun _ => ?_
  refine .ite (fun some => stands_of_readAlone ?_) fun _ => ?_
  · rw [show 5 = "#push".toList.length from rfl, take_exactly some]
    exact ⟨_, _, rfl, fun _ _ => rfl⟩
  refine .ite (fun some => stands_of_readAlone ?_) fun _ => ?_
  · rw [show 4 = "#pop".toList.length from rfl, take_exactly some]
    exact ⟨_, _, rfl, fun _ _ => rfl⟩
  refine .ite (fun same => stands_of_readAlone ?_) fun _ => ?_
  · rw [same]
    exact readAlone_movement
  refine .ite (fun some => stands_of_readAlone ?_) fun _ => ?_
  · exact readAlone_condition (reads_condition some).spelt
  refine .ite (fun _ => nofun) fun _ => ?_
  refine .ite (fun some => stands_of_readAlone (readAlone_take_registerAction some)) fun _ => ?_
  split
  · rename_i kind found
    exact stands_of_readAlone (readAlone_bracket found)
  · refine .ite (fun some => stands_of_readAlone ?_) fun _ => ?_
    · exact readAlone_take_macroName some (Decidable.not_not.1 digitless)
    refine .ite (fun same => stands_of_readAlone ?_) fun _ => ?_
    · rw [same]
      exact ⟨_, _, rfl, fun _ _ => rfl⟩
    refine .ite (fun same => stands_of_readAlone ?_) fun _ => ?_
    · rw [same]
      exact ⟨_, _, rfl, fun _ _ => rfl⟩
    refine .ite (fun _ => nofun) fun _ => ?_
    exact nofun

/-- The token that is read would be read with a separator behind it, too. -/
theorem readAlone_of_read {c : Char} {rest : List Char} {kind : Token.Kind} {more : Nat}
    (read : Lexeme.read c rest = (.token kind, more)) :
    ReadAlone (c :: rest.take more) (.token kind) := by
  unfold Lexeme.read at read
  split at read
  · cases read
  · split at read
    · rename_i inside _
      have lexeme : (readComment 2 inside).1 = .token kind := congrArg Prod.fst read
      rcases readComment_cases 2 inside with other | other
      all_goals
        rw [other] at lexeme
        cases lexeme
    · cases read
    · have lexeme : (readString [] 1 rest).1 = .token kind := congrArg Prod.fst read
      rcases readString_cases [] 1 rest with other | ⟨whole, other⟩
      all_goals
        rw [other] at lexeme
        cases lexeme
    · have lexeme : (readPlain c rest).1 = .token kind := congrArg Prod.fst read
      have length : (readPlain c rest).2 - 1 = more := congrArg Prod.snd read
      have stands := stands_readPlain c rest kind lexeme
      rw [lexeme] at stands
      obtain ⟨n, pos⟩ := Nat.exists_eq_succ_of_ne_zero (Nat.ne_of_gt (reads_readPlain c rest).pos)
      rw [pos, List.take_succ_cons] at stands
      rw [← length, pos]
      exact stands

end Lexeme

/-! ## Printing -/

/-- A token as it is printed: its text, or a literal for the value of a string, which comes without
    the character that closes it. -/
def Token.printed (token : Token) : String :=
  if token.kind = .string then
    String.ofList ('"' :: (token.text.toList.dropLast.flatMap Lexeme.escaped ++ ['"']))
  else token.text

/-- Tokens as they are printed, with single spaces between them. -/
def printTokens (tokens : List Token) : String := " ".intercalate (tokens.map Token.printed)

/-- A token that is printed is taken as a token of this kind and this text if a separator follows
    it, or nothing. -/
def Token.Readable (token : Token) : Prop :=
  ∃ lexeme, Lexeme.ReadAlone token.printed.toList lexeme ∧
    ∀ (s : Lexer.State) (span : Span), s.mode = .program →
      Lexer.accept s lexeme token.printed span =
        ({ s with tokens := ⟨token.kind, token.text, span⟩ :: s.tokens }, none)

section
variable {source : Source} {token : Token} {before used : List Char}

theorem Token.readable_of_alone (other : token.kind ≠ .string)
    (alone : token.kind.Alone token.text.toList) : token.Readable := by
  obtain ⟨lexeme, read, accepted⟩ := alone
  unfold Readable printed
  rw [if_neg other]
  rw [String.ofList_toList] at accepted
  exact ⟨lexeme, read, accepted⟩

theorem Token.readable_string (value : String) (span : Span) :
    (⟨.string, value.push closingNul, span⟩ : Token).Readable := by
  refine ⟨.string value, ⟨'"', value.toList.flatMap Lexeme.escaped ++ ['"'], ?_,
    fun behind _ => ?_⟩, fun s span program => ?_⟩
  · unfold printed
    rw [if_pos rfl, String.toList_ofList, String.toList_push, List.dropLast_concat]
  · have read := Lexeme.read_escaped value.toList behind
    rw [String.ofList_toList] at read
    rw [List.append_assoc, List.singleton_append, read, List.length_append]
    rfl
  · unfold Lexer.accept Lexer.push
    dsimp only
    rw [program]

/-- Every token of the lexer is read again from what is printed for it. -/
theorem Token.From.readable (made : token.From source before used) : token.Readable := by
  obtain ⟨c, rest, lexeme, more, rfl, read, made⟩ := made.read
  unfold Lexeme.token? at made
  split at made
  · rw [← Option.some.inj made]
    exact readable_string _ _
  · rename_i kind
    have other : kind ≠ .string := by
      rintro rfl
      exact Lexeme.read_ne_string c rest (congrArg Prod.fst read)
    rw [← Option.some.inj made]
    refine readable_of_alone other (Kind.alone_of_token ?_)
    rw [String.toList_ofList]
    exact Lexeme.readAlone_of_read read
  · split at made
    · rename_i names
      rw [← Option.some.inj made]
      exact readable_of_alone nofun (Kind.alone_location names)
    · cases made
  · split at made
    · rename_i name listed
      obtain ⟨control, -, rfl⟩ := List.mem_map.1 (List.contains_iff_mem.1 listed)
      have spelt := (Lexeme.reads_read c rest).spelt
      rw [read] at spelt
      have shown : (Isa.Action.control control).text.toList = '!' :: control.name.toList :=
        String.toList_append
      have text : c :: rest.take more = (Isa.Action.control control).text.toList :=
        Eq.trans spelt shown.symm
      rw [← Option.some.inj made, text, String.ofList_toList]
      exact readable_of_alone nofun (Kind.alone_action control)
    · cases made
  · cases made

/-- Printed tokens are read again, each at its place, and there is no problem with them. -/
theorem Lexer.scan_printed (source : Source) : ∀ (tokens : List Token)
    (_ : ∀ token ∈ tokens, token.Readable) (s : State) (start : Position), s.mode = .program →
      ∃ again : List Token, again.map Token.shown = tokens.map Token.shown ∧
        scan source s start (printTokens tokens).toList =
          .done { s with tokens := again.reverse ++ s.tokens } := by
  intro tokens
  unfold printTokens
  rw [String.toList_intercalate, List.map_map]
  induction tokens with
  | nil =>
    rintro - ⟨mode, tokens, macros⟩ start program
    cases program
    refine ⟨[], rfl, ?_⟩
    rw [List.map_nil, List.intercalate_nil, scan]
    rfl
  | cons token rest ih =>
    intro readable s start program
    obtain ⟨⟨lexeme, alone, accepted⟩, later⟩ := List.forall_mem_cons.1 readable
    let stop := start.afterAll token.printed.toList
    let first : Token := ⟨token.kind, token.text, ⟨start, stop, source⟩⟩
    have taken (behind : List Char) (ends : Lexeme.Ends behind) :
        scan source s start (token.printed.toList ++ behind) =
          scan source { s with tokens := first :: s.tokens } stop behind :=
      scan_readAlone alone ends (by rw [String.ofList_toList]; exact accepted s _ program)
    cases rest with
    | nil =>
      have ends : Lexeme.Ends [] := fun _ none => absurd none (Option.not_mem_none _)
      refine ⟨[first], rfl, ?_⟩
      obtain ⟨mode, tokens, macros⟩ := s
      cases program
      rw [List.map_singleton, List.intercalate_singleton]
      refine ((congrArg _ (List.append_nil _).symm).trans (taken [] ends)).trans ?_
      rw [scan]
      rfl
    | cons second rest =>
      obtain ⟨again, same, scanned⟩ := ih later { s with tokens := first :: s.tokens }
        (stop.afterAll [' ']) program
      refine ⟨first :: again, ?_, ?_⟩
      · rw [List.map_cons, same, List.map_cons]
        rfl
      · rw [List.map_cons, List.map_cons, List.intercalate_cons_cons, List.append_assoc]
        refine (taken _ fun _ => ?_).trans ?_
        · rintro ⟨⟩
          rfl
        · rw [List.reverse_cons, List.append_assoc]
          exact (scan_separator rfl).trans scanned

end

/-- Printing the tokens of a program, or those in the body of a macro, and reading what is printed
    gives the same kinds and texts again, no definition and no problem. -/
theorem lex_printTokens (source : Source) (name : String) :
    ∀ tokens ∈ (lex source).value.tokens :: (lex source).value.macros.map Macro.body,
      (lex ⟨name, printTokens tokens⟩).problems = [] ∧
        (lex ⟨name, printTokens tokens⟩).value.macros = [] ∧
        (lex ⟨name, printTokens tokens⟩).value.tokens.map Token.shown =
          tokens.map Token.shown := by
  intro tokens listed
  obtain ⟨program, macros⟩ := from_lex source
  have readable : ∀ token ∈ tokens, token.Readable := by
    rcases List.mem_cons.1 listed with rfl | body
    · intro token member
      obtain ⟨_, _, made⟩ := program token member
      exact made.readable
    · obtain ⟨m, known, rfl⟩ := List.mem_map.1 body
      intro token member
      obtain ⟨_, _, made⟩ := macros m known token member
      exact made.readable
  obtain ⟨again, same, scanned⟩ :=
    Lexer.scan_printed ⟨name, printTokens tokens⟩ tokens readable .initial .first rfl
  have lexed : lex ⟨name, printTokens tokens⟩ = .done ⟨again, []⟩ := by
    unfold lex
    rw [scanned]
    show Report.done (⟨(again.reverse ++ []).reverse, []⟩ : Lexed) = _
    rw [List.append_nil, List.reverse_reverse]
  rw [lexed]
  exact ⟨rfl, rfl, same⟩

/-- A string with a quote and a backslash in it, in the body of a macro. -/
theorem lex_printTokens_quoted :
    let source := ⟨"say", "#define SAY X \x7b X = \"a\\\"\\5c\" \x7d\nSAY(out) // once"⟩
    let body := (lex source).value.macros.flatMap Macro.body
    body ∈ (lex source).value.tokens :: (lex source).value.macros.map Macro.body ∧
      printTokens body = "X = \"a\\\"\\5c\"" ∧
      (lex ⟨"again", printTokens body⟩).problems = [] ∧
      (lex ⟨"again", printTokens body⟩).value.tokens.map Token.text = ["X", "=", "a\"\\\x00"] := by
  intro source body
  have listed : body ∈ (lex source).value.tokens :: (lex source).value.macros.map Macro.body :=
    List.mem_cons_of_mem _ (by decide +kernel)
  obtain ⟨clean, -, same⟩ := lex_printTokens source "again" body listed
  refine ⟨listed, by decide +kernel, clean, ?_⟩
  calc (lex ⟨"again", printTokens body⟩).value.tokens.map Token.text
      = ((lex ⟨"again", printTokens body⟩).value.tokens.map Token.shown).map Prod.snd := by
        rw [List.map_map]
        rfl
    _ = (body.map Token.shown).map Prod.snd := by rw [same]
    _ = ["X", "=", "a\"\\\x00"] := by decide +kernel

end NineBit.Asm
