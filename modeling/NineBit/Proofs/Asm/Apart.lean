import NineBit.Proofs.Asm.Spelling

/-!
# Tokens that stand apart

The lexer reads as far as a rule goes, so that what follows a token may become a part of it. Where
a separator or the end of the text follows, it does not: words, digits, conditions and actions then
end where they are meant to (`Lexeme.ReadAlone`). A text whose tokens all stand apart is read as
these tokens, without a problem (`Lexer.scan_apart`).
-/

namespace NineBit.Asm

namespace Lexeme

/-- Nothing is left, or a separator comes first. -/
def Ends (text : List Char) : Prop := ∀ c ∈ text.head?, isSeparator c = true

/-- A text is read as a lexeme if a separator follows it, or nothing. -/
def ReadAlone (text : List Char) (lexeme : Lexeme) : Prop :=
  ∃ c rest, text = c :: rest ∧
    ∀ behind, Ends behind → read c (rest ++ behind) = (lexeme, rest.length)

/-- A class of characters that no separator belongs to, nor the colon that makes a label. -/
def Inner (p : Char → Bool) : Prop := ∀ c, isSeparator c = true → p c = false

theorem separator_cases {c : Char} (separates : isSeparator c = true) :
    c ∈ [' ', '\t', '\r', '\n', ','] := by
  unfold isSeparator at separates
  simp only [Bool.or_eq_true, beq_iff_eq, or_assoc] at separates
  simp only [List.mem_cons, List.not_mem_nil, or_false]
  exact separates

theorem inner_of_all {p : Char → Bool}
    (none : ([' ', '\t', '\r', '\n', ','].all fun c => !p c) = true) : Inner p := by
  intro c separates
  have other := List.all_eq_true.1 none c (separator_cases separates)
  rwa [Bool.not_eq_true'] at other

section
variable {p : Char → Bool} {word behind : List Char}

/-- A run ends where a separator follows. -/
theorem takeWhile_ends (inner : Inner p) (all : ∀ c ∈ word, p c = true) (ends : Ends behind) :
    (word ++ behind).takeWhile p = word := by
  have none : behind.takeWhile p = [] := by
    cases behind with
    | nil => rfl
    | cons c rest => exact List.takeWhile_cons_of_neg (by rw [inner c (ends c rfl)]; decide)
  rw [List.takeWhile_append_of_pos all, none, List.append_nil]

theorem run_ends (inner : Inner p) (all : ∀ c ∈ word, p c = true) (ends : Ends behind) :
    run p (word ++ behind) = word.length := by
  unfold run
  rw [takeWhile_ends inner all ends]

theorem inner_isWord : Inner Text.isWord := inner_of_all (by decide)

theorem inner_isDigit : Inner Char.isDigit := inner_of_all (by decide)

theorem inner_isLower : Inner Char.isLower := inner_of_all (by decide)

theorem inner_isTarget : Inner isTarget := inner_of_all (by decide)

end

/-! ## Rules that do not apply -/

section
variable {c : Char} {rest word behind : List Char}

theorem run_eq_zero {p : Char → Bool} (other : p c = false) : run p (c :: rest) = 0 := by
  unfold run
  rw [List.takeWhile_cons_of_neg (by rw [other]; decide)]
  rfl

/-- A word that a separator follows is no label. -/
theorem label_eq_zero (all : ∀ c ∈ word, Text.isWord c = true) (ends : Ends behind) :
    label (word ++ behind) = 0 := by
  unfold label
  dsimp only
  rw [run_ends inner_isWord all ends, List.drop_left, if_neg]
  rintro ⟨-, colon⟩
  exact absurd (ends ':' colon) (by decide)

theorem reference_eq_zero (other : c ≠ ':') : reference (c :: rest) = 0 := by
  unfold reference
  split
  · rename_i same
    exact absurd (List.cons.inj same).1 other
  · rfl

theorem number_eq_zero (digit : c.isDigit = false) (quote : c ≠ '\'') :
    number (c :: rest) = 0 := by
  have zero : c ≠ '0' := by
    rintro rfl
    cases digit
  generalize same : c :: rest = text
  fun_cases number text with
  | case1 _ marked one =>
    dsimp only [marked] at one
    split at one
    · exact absurd (List.cons.inj same).1 zero
    · exact absurd (List.cons.inj same).1 zero
    · exact absurd rfl one
  | case2 => rfl
  | case3 => exact absurd (List.cons.inj same).1 quote
  | case4 => exact same ▸ run_eq_zero digit

theorem exactly_eq_zero {first : Char} {word : List Char} (other : c ≠ first) :
    exactly (first :: word) (c :: rest) = 0 := by
  unfold exactly
  rw [if_neg]
  intro front
  obtain ⟨_, same⟩ := List.isPrefixOf_iff_prefix.1 front
  exact other (List.cons.inj same).1.symm

end

/-! ## Words and numbers -/

section
variable {c : Char} {rest word behind : List Char}

theorem ne_of_class {p : Char → Bool} {d : Char} (inside : p c = true) (outside : p d = false) :
    c ≠ d := by
  rintro rfl
  rw [inside] at outside
  cases outside

theorem isWord_of_isAlphanum (plain : c.isAlphanum = true) : Text.isWord c = true := by
  have small : c.toNat < 0x80 := by
    unfold Char.isAlphanum Char.isAlpha Char.isUpper Char.isLower Char.isDigit at plain
    simp only [Bool.or_eq_true, Bool.and_eq_true, decide_eq_true_eq, ge_iff_le,
      UInt32.le_iff_toNat_le] at plain
    rcases plain with (upper | lower) | digit
    · exact Nat.lt_of_le_of_lt upper.2 (by decide)
    · exact Nat.lt_of_le_of_lt lower.2 (by decide)
    · exact Nat.lt_of_le_of_lt digit.2 (by decide)
  unfold Text.isWord
  rw [if_pos small, plain]
  rfl

theorem isWord_of_isLower (lower : c.isLower = true) : Text.isWord c = true := by
  apply isWord_of_isAlphanum
  unfold Char.isAlphanum Char.isAlpha
  rw [lower, Bool.or_true, Bool.true_or]

theorem isWord_of_isDigit (digit : c.isDigit = true) : Text.isWord c = true := by
  apply isWord_of_isAlphanum
  unfold Char.isAlphanum
  rw [digit, Bool.or_true]

theorem isDigit_of_isLower (lower : c.isLower = true) : c.isDigit = false := by
  unfold Char.isLower at lower
  unfold Char.isDigit
  simp only [Bool.and_eq_true, decide_eq_true_eq] at lower
  rw [Bool.and_eq_false_iff]
  refine .inr (decide_eq_false fun le => ?_)
  have range : (97 : Nat) ≤ 57 := Nat.le_trans lower.1 le
  omega

/-- Neither a separator nor a comment nor a string starts with a word character. -/
theorem read_of_isWord (all : Text.isWord c = true) :
    read c rest = ((readPlain c rest).1, (readPlain c rest).2 - 1) := by
  have other : isSeparator c = false := by
    rw [Bool.eq_false_iff]
    intro separates
    rw [inner_isWord c separates] at all
    cases all
  have slash : c ≠ '/' := ne_of_class all (by decide)
  have quote : c ≠ '"' := ne_of_class all (by decide)
  unfold read
  rw [other, if_neg Bool.false_ne_true]
  split
  · exact absurd rfl slash
  · exact absurd rfl slash
  · exact absurd rfl quote
  · rfl

theorem readAlone_lower (some : word ≠ []) (all : ∀ c ∈ word, c.isLower = true) :
    ReadAlone word .word := by
  cases word with
  | nil => exact absurd rfl some
  | cons c rest =>
    refine ⟨c, rest, rfl, fun behind ends => ?_⟩
    have lower := all c List.mem_cons_self
    have words (d : Char) (member : d ∈ c :: rest) : Text.isWord d = true :=
      isWord_of_isLower (all d member)
    have label : label (c :: (rest ++ behind)) = 0 := label_eq_zero words ends
    have length : lowerWord (c :: (rest ++ behind)) = rest.length + 1 :=
      run_ends inner_isLower all ends
    rw [read_of_isWord (words c List.mem_cons_self)]
    unfold readPlain
    dsimp only
    rw [if_neg (ne_of_class lower (by decide)), if_neg (ne_of_class lower (by decide)), label,
      reference_eq_zero (ne_of_class lower (by decide)),
      number_eq_zero (isDigit_of_isLower lower) (ne_of_class lower (by decide)), length]
    rfl

/-- No mark of another base stands within digits. -/
theorem number_digits (all : ∀ d ∈ c :: rest, d.isDigit = true) (ends : Ends behind) :
    number (c :: (rest ++ behind)) = rest.length + 1 := by
  have second {d : Char} {more : List Char} (same : c :: (rest ++ behind) = '0' :: d :: more) :
      d.isDigit = true ∨ isSeparator d = true := by
    have tail := (List.cons.inj same).2
    cases rest with
    | nil =>
      refine .inr (ends d ?_)
      rw [List.nil_append] at tail
      rw [tail]
      rfl
    | cons other more =>
      cases tail
      exact .inl (all d (List.mem_cons_of_mem _ List.mem_cons_self))
  have quote : c ≠ '\'' := ne_of_class (all c List.mem_cons_self) (by decide)
  have digits : run Char.isDigit (c :: (rest ++ behind)) = rest.length + 1 :=
    run_ends inner_isDigit all ends
  generalize same : c :: (rest ++ behind) = text at *
  fun_cases number text with
  | case1 _ marked one =>
    dsimp only [marked] at one
    split at one
    · exact absurd (second rfl) (by decide)
    · exact absurd (second rfl) (by decide)
    · exact absurd rfl one
  | case2 => exact absurd (List.cons.inj same).1 quote
  | case3 => exact absurd (List.cons.inj same).1 quote
  | case4 => exact digits

theorem readAlone_digits (some : word ≠ []) (all : ∀ c ∈ word, c.isDigit = true) :
    ReadAlone word (.token .number) := by
  cases word with
  | nil => exact absurd rfl some
  | cons c rest =>
    refine ⟨c, rest, rfl, fun behind ends => ?_⟩
    have digit := all c List.mem_cons_self
    have words (d : Char) (member : d ∈ c :: rest) : Text.isWord d = true :=
      isWord_of_isDigit (all d member)
    have label : label (c :: (rest ++ behind)) = 0 := label_eq_zero words ends
    rw [read_of_isWord (words c List.mem_cons_self)]
    unfold readPlain
    dsimp only
    rw [if_neg (ne_of_class digit (by decide)), if_neg (ne_of_class digit (by decide)), label,
      reference_eq_zero (ne_of_class digit (by decide)), number_digits all ends]
    rfl

end

/-! ## Marks -/

section
variable {rest behind word : List Char}

theorem readAlone_movement : ReadAlone ['='] (.token .movement) := ⟨_, _, rfl, fun _ _ => rfl⟩

theorem read_condition (some : condition ('?' :: rest) ≠ 0) :
    read '?' rest = (token .condition, condition ('?' :: rest) - 1) := by
  show (fun r : Lexeme × Nat => (r.1, r.2 - 1))
    (if condition ('?' :: rest) ≠ 0 then (token .condition, condition ('?' :: rest)) else _) = _
  rw [if_pos some]

/-- No mark of a condition stands among its letters. -/
theorem condition_ends {marks letters : List Char} (marked : marks ∈ Spelling.conditionMarks)
    (some : letters ≠ []) (all : ∀ c ∈ letters, isTarget c = true) (ends : Ends behind) :
    condition ('?' :: (marks ++ letters ++ behind)) = 1 + (marks ++ letters).length := by
  have length : run isTarget (letters ++ behind) = letters.length :=
    run_ends inner_isTarget all ends
  cases letters with
  | nil => exact absurd rfl some
  | cons letter more =>
    have target := all letter List.mem_cons_self
    have invert : exactly ['!'] (letter :: (more ++ behind)) = 0 :=
      exactly_eq_zero (ne_of_class target (by decide))
    have anyOf : exactly ['|'] (letter :: (more ++ behind)) = 0 :=
      exactly_eq_zero (ne_of_class target (by decide))
    have other : exactly ['!'] ('|' :: letter :: (more ++ behind)) = 0 :=
      exactly_eq_zero (by decide)
    have one (mark : Char) (rest : List Char) : exactly [mark] (mark :: rest) = 1 := by
      unfold exactly
      rw [if_pos (by simp [List.isPrefixOf])]
      rfl
    simp only [Spelling.conditionMarks, List.mem_cons, List.not_mem_nil, or_false] at marked
    unfold condition before
    rcases marked with rfl | rfl | rfl | rfl
    all_goals
      simp only [List.nil_append, List.cons_append, invert, anyOf, other, one,
        List.drop_succ_cons, List.drop_zero, Nat.add_zero, Nat.zero_add] at length ⊢
      rw [length]
      simp only [List.length_cons]
      split <;> omega

theorem readAlone_condition (spelt : Spelling.Condition word) :
    ReadAlone word (.token .condition) := by
  obtain ⟨marked, some, all⟩ := spelt
  refine ⟨_, _, rfl, fun behind ends => ?_⟩
  have length := condition_ends marked some all ends
  rw [read_condition (by omega), length, Nat.add_sub_cancel_left]

theorem read_control (some : control ('!' :: rest) ≠ 0) :
    read '!' rest =
      (controlWord (String.ofList (rest.takeWhile Char.isLower)), control ('!' :: rest) - 1) := by
  show (fun r : Lexeme × Nat => (r.1, r.2 - 1))
    (if control ('!' :: rest) ≠ 0 then
      (controlWord (String.ofList (rest.takeWhile Char.isLower)), control ('!' :: rest))
    else _) = _
  rw [if_pos some]

theorem control_eq (rest : List Char) :
    control ('!' :: rest) =
      match rest.takeWhile Char.isLower with
      | [] => 0
      | [c] => if isRegister c then 0 else 2
      | _ => 1 + (rest.takeWhile Char.isLower).length :=
  rfl

theorem readAlone_control (c : Isa.Control) :
    ReadAlone (Isa.Action.control c).text.toList (.controlWord c.name) := by
  have text : (Isa.Action.control c).text.toList = '!' :: c.name.toList := String.toList_append
  have lower : ∀ d ∈ c.name.toList, d.isLower = true :=
    List.all_eq_true.1 (by cases c <;> decide)
  rw [text]
  refine ⟨_, _, rfl, fun behind ends => ?_⟩
  have name : (c.name.toList ++ behind).takeWhile Char.isLower = c.name.toList :=
    takeWhile_ends inner_isLower lower ends
  have length : control ('!' :: (c.name.toList ++ behind)) = 1 + c.name.toList.length := by
    rw [control_eq, name]
    cases c <;> rfl
  rw [read_control (by omega), length, name, String.ofList_toList, Nat.add_sub_cancel_left]

theorem readAlone_registerAction (op : Isa.Operation) (r : Isa.Register) :
    ReadAlone (Isa.Action.register op r).text.toList (.token .registerAction) := by
  refine ⟨op.symbol, [r.letter], String.toList_ofList, fun behind ends => ?_⟩
  cases op with
  | invert =>
    -- The mark also starts the names of control actions, none of which is a register.
    have lower : ∀ d ∈ [r.letter], d.isLower = true := List.all_eq_true.1 (by cases r <;> decide)
    have name : (r.letter :: behind).takeWhile Char.isLower = [r.letter] :=
      takeWhile_ends inner_isLower lower ends
    have none : control ('!' :: r.letter :: behind) = 0 := by
      rw [control_eq, name]
      cases r <;> rfl
    show (fun r : Lexeme × Nat => (r.1, r.2 - 1))
      (if control ('!' :: r.letter :: behind) ≠ 0 then _ else _) = _
    rw [if_neg (by rw [none]; decide)]
    cases r <;> rfl
  | _ => cases r <;> rfl

end

end Lexeme

/-! ## Texts -/

/-- A text is taken as a token of a kind if a separator follows it, or nothing. -/
def Token.Kind.Alone (kind : Token.Kind) (text : List Char) : Prop :=
  ∃ lexeme, Lexeme.ReadAlone text lexeme ∧ ∀ (s : Lexer.State) (span : Span), s.mode = .program →
    Lexer.accept s lexeme (String.ofList text) span =
      ({ s with tokens := ⟨kind, String.ofList text, span⟩ :: s.tokens }, none)

namespace Token.Kind

theorem alone_of_token {kind : Token.Kind} {text : List Char}
    (read : Lexeme.ReadAlone text (.token kind)) : kind.Alone text := by
  refine ⟨_, read, fun s span program => ?_⟩
  unfold Lexer.accept Lexer.push
  dsimp only
  rw [program]

theorem alone_location {word : String} (names : Isa.isLocationWord word = true) :
    location.Alone word.toList := by
  have lower : ∀ word ∈ Isa.locationWords,
      word.toList ≠ [] ∧ word.toList.all Char.isLower = true := by
    decide
  obtain ⟨some, all⟩ := lower word (List.contains_iff_mem.1 names)
  refine ⟨_, Lexeme.readAlone_lower some (List.all_eq_true.1 all), fun s span program => ?_⟩
  unfold Lexer.accept Lexer.push
  dsimp only
  rw [String.ofList_toList, names, Bool.true_or, if_pos rfl, program]

theorem alone_action (c : Isa.Control) : action.Alone (Isa.Action.control c).text.toList := by
  have listed : Isa.Control.names.contains c.name = true := by cases c <;> decide
  refine ⟨_, Lexeme.readAlone_control c, fun s span program => ?_⟩
  unfold Lexer.accept Lexer.push
  dsimp only
  rw [listed, if_pos rfl, program]

end Token.Kind

/-- A text consists of tokens with these kinds and texts, each apart from the next one. -/
inductive Apart : List Char → List (Token.Kind × String) → Prop where
  | nil : Apart [] []
  | separator {c : Char} {text : List Char} {tokens : List (Token.Kind × String)}
      (separates : Lexeme.isSeparator c = true) (rest : Apart text tokens) :
      Apart (c :: text) tokens
  | token {kind : Token.Kind} {word text : List Char} {tokens : List (Token.Kind × String)}
      (alone : kind.Alone word) (ends : Lexeme.Ends text) (rest : Apart text tokens) :
      Apart (word ++ text) ((kind, String.ofList word) :: tokens)

/-- The kind and the text of a token. -/
def Token.shown (token : Token) : Token.Kind × String := (token.kind, token.text)

namespace Apart

variable {first second : List Char} {tokens more : List (Token.Kind × String)}

theorem append (before : Apart first tokens) (ends : Lexeme.Ends second)
    (after : Apart second more) : Apart (first ++ second) (tokens ++ more) := by
  induction before with
  | nil => exact after
  | separator separates rest ih => exact .separator separates ih
  | @token kind word text tokens alone own rest ih =>
    rw [List.append_assoc]
    refine .token alone ?_ ih
    cases text with
    | nil => exact ends
    | cons c text => exact own

theorem one {kind : Token.Kind} {text : String} (alone : kind.Alone text.toList) :
    Apart text.toList [(kind, text)] := by
  have single : Apart (text.toList ++ []) [(kind, String.ofList text.toList)] :=
    .token alone (fun _ none => nomatch none) .nil
  rwa [List.append_nil, String.ofList_toList] at single

end Apart

namespace Lexer

variable {source : Source} {s next : State} {start : Position} {lexeme : Lexeme}
  {word behind : List Char}

/-- A separator leaves nothing. -/
theorem scan_separator {c : Char} (separates : Lexeme.isSeparator c = true) :
    scan source s start (c :: behind) = scan source s (start.afterAll [c]) behind := by
  have read : Lexeme.read c behind = (.separator, 0) := if_pos separates
  rw [scan]
  dsimp only
  rw [read]
  rfl

/-- A lexeme that stands alone is taken, and reading goes on behind it. -/
theorem scan_readAlone (alone : Lexeme.ReadAlone word lexeme) (ends : Lexeme.Ends behind)
    (accepted : accept s lexeme (String.ofList word) ⟨start, start.afterAll word, source⟩ =
      (next, none)) :
    scan source s start (word ++ behind) = scan source next (start.afterAll word) behind := by
  obtain ⟨c, rest, rfl, read⟩ := alone
  rw [List.cons_append, scan]
  dsimp only
  rw [read behind ends]
  dsimp only
  rw [List.take_left, List.drop_left, accepted]

/-- Tokens that stand apart are all read, and there is no problem with them. -/
theorem scan_apart (source : Source) {text : List Char}
    {shown : List (Token.Kind × String)} (apart : Apart text shown) :
    ∀ (s : State) (start : Position), s.mode = .program →
      ∃ tokens : List Token, tokens.map Token.shown = shown ∧
        scan source s start text = .done { s with tokens := tokens.reverse ++ s.tokens } := by
  induction apart with
  | nil =>
    rintro ⟨mode, tokens, macros⟩ start program
    cases program
    refine ⟨[], rfl, ?_⟩
    unfold scan
    rfl
  | @separator c text shown separates rest ih =>
    intro s start program
    obtain ⟨tokens, same, scanned⟩ := ih s (start.afterAll [c]) program
    exact ⟨tokens, same, (scan_separator separates).trans scanned⟩
  | @token kind word text shown alone ends rest ih =>
    intro s start program
    obtain ⟨lexeme, read, accepted⟩ := alone
    let token : Token := ⟨kind, String.ofList word, ⟨start, start.afterAll word, source⟩⟩
    obtain ⟨tokens, same, scanned⟩ :=
      ih { s with tokens := token :: s.tokens } (start.afterAll word) program
    refine ⟨token :: tokens, congrArg ((kind, String.ofList word) :: ·) same, ?_⟩
    rw [List.reverse_cons, List.append_assoc, List.cons_append]
    exact (scan_readAlone read ends (accepted s _ program)).trans scanned

end Lexer

end NineBit.Asm
