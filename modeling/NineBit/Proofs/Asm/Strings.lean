import NineBit.Proofs.Asm.Spelling

/-!
# The value of a string

Between its quotes a string has characters that stand for themselves and escapes that stand for
another character (`Lexeme.Denotes`). Reading finds the closing quote and the value, whatever
follows (`Lexeme.readString_of_denotes`), and finds no others (`Lexeme.denotes_of_readString`).
Every value can be written so that no character between the quotes is left to chance
(`Lexeme.denotes_escaped`).
-/

namespace NineBit.Asm.Lexeme

/-- The characters behind a backslash make an escape with it. -/
def opensEscape : List Char → Bool
  | [] => false
  | [x] => x == '"' || x == 'n'
  | x :: y :: _ => x == '"' || x == 'n' || isHex x && isHex y

theorem opensEscape_eq_false {x : Char} {text : List Char} (noQuote : x ≠ '"')
    (noLetter : x ≠ 'n') (noCode : ∀ y ∈ text.head?, (isHex x && isHex y) = false) :
    opensEscape (x :: text) = false := by
  cases text with
  | nil => simp [opensEscape, noQuote, noLetter]
  | cons y text =>
    have none := noCode y rfl
    simp [opensEscape, noQuote, noLetter, none]

theorem of_opensEscape_eq_false {x : Char} {text : List Char}
    (alone : opensEscape (x :: text) = false) :
    x ≠ '"' ∧ x ≠ 'n' ∧ ∀ y ∈ text.head?, (isHex x && isHex y) = false := by
  cases text with
  | nil => simpa [opensEscape] using alone
  | cons y text => simpa [opensEscape, and_assoc] using alone

/-- The value of two digits of base sixteen. -/
def hexCode (x y : Char) : Nat :=
  (Text.digitValue? 16 x).getD 0 * 16 + (Text.digitValue? 16 y).getD 0

/-- What the characters between the quotes of a string stand for. -/
inductive Denotes : List Char → List Char → Prop where
  | nil : Denotes [] []
  | plain {c : Char} {inner value : List Char} (noQuote : c ≠ '"') (noMark : c ≠ '\\')
      (later : Denotes inner value) : Denotes (c :: inner) (c :: value)
  | quote {inner value : List Char} (later : Denotes inner value) :
      Denotes ('\\' :: '"' :: inner) ('"' :: value)
  | newline {inner value : List Char} (later : Denotes inner value) :
      Denotes ('\\' :: 'n' :: inner) ('\n' :: value)
  | code {x y : Char} {inner value : List Char} (high : isHex x = true) (low : isHex y = true)
      (later : Denotes inner value) :
      Denotes ('\\' :: x :: y :: inner) (Char.ofNat (hexCode x y) :: value)
  /-- A backslash that makes no escape; right before the closing quote it would make one. -/
  | backslash {inner value : List Char} (more : inner ≠ []) (alone : opensEscape inner = false)
      (later : Denotes inner value) : Denotes ('\\' :: inner) ('\\' :: value)

section
variable {inner value : List Char}

/-- Two digits of base sixteen are neither of the letters of the other escapes. -/
theorem readString_code {x y : Char} (high : isHex x = true) (low : isHex y = true)
    (read : List Char) (used : Nat) (rest : List Char) :
    readString read used ('\\' :: x :: y :: rest) =
      readString (Char.ofNat (hexCode x y) :: read) (used + 3) rest := by
  have noQuote : x ≠ '"' := fun same => absurd (same ▸ high) (by decide)
  have noLetter : x ≠ 'n' := fun same => absurd (same ▸ high) (by decide)
  rw [readString]
  · rw [high, low]
    rfl
  · exact fun same => absurd same noQuote
  · exact fun same => absurd same noLetter

/-- A backslash before anything else is read as itself. -/
theorem readString_backslash (more : inner ≠ []) (alone : opensEscape inner = false)
    (read : List Char) (used : Nat) (rest : List Char) :
    readString read used ('\\' :: (inner ++ '"' :: rest)) =
      readString ('\\' :: read) (used + 1) (inner ++ '"' :: rest) := by
  cases inner with
  | nil => exact absurd rfl more
  | cons x inner =>
    obtain ⟨noQuote, noLetter, noCode⟩ := of_opensEscape_eq_false alone
    obtain ⟨y, later, same, plain⟩ :
        ∃ y later, inner ++ '"' :: rest = y :: later ∧ (isHex x && isHex y) = false := by
      cases inner with
      | nil => exact ⟨_, _, rfl, Bool.and_false _⟩
      | cons y inner => exact ⟨_, _, rfl, noCode y rfl⟩
    rw [List.cons_append, same, readString, plain]
    · rfl
    · exact fun same => absurd same noQuote
    · exact fun same => absurd same noLetter

/-- Reading goes through a string to its closing quote. -/
theorem readString_of_denotes (denotes : Denotes inner value) (rest : List Char) :
    ∀ (read : List Char) (used : Nat), readString read used (inner ++ '"' :: rest) =
      (string (String.ofList (read.reverse ++ value)), used + (inner.length + 1)) := by
  induction denotes with
  | nil =>
    intro read used
    rw [List.append_nil, List.nil_append, readString]
    rfl
  | @plain c inner value noQuote noMark _ ih =>
    intro read used
    rw [List.cons_append, readString, ih, List.reverse_cons, List.append_assoc, List.length_cons,
      Nat.add_assoc, Nat.add_comm 1]
    · rfl
    all_goals grind
  | quote _ ih =>
    intro read used
    rw [List.cons_append, List.cons_append, readString, ih, List.reverse_cons, List.append_assoc,
      List.length_cons, List.length_cons, Nat.add_assoc, Nat.add_comm 2]
    rfl
  | newline _ ih =>
    intro read used
    rw [List.cons_append, List.cons_append, readString, ih, List.reverse_cons, List.append_assoc,
      List.length_cons, List.length_cons, Nat.add_assoc, Nat.add_comm 2]
    rfl
  | code high low _ ih =>
    intro read used
    rw [List.cons_append, List.cons_append, List.cons_append, readString_code high low, ih,
      List.reverse_cons, List.append_assoc, List.length_cons, List.length_cons, List.length_cons,
      Nat.add_assoc, Nat.add_comm 3]
    rfl
  | backslash more alone _ ih =>
    intro read used
    rw [List.cons_append, readString_backslash more alone, ih, List.reverse_cons,
      List.append_assoc, List.length_cons, Nat.add_assoc, Nat.add_comm 1]
    rfl

/-- A string that is read ends at a closing quote, with its value before it. -/
theorem denotes_of_readString (read : List Char) (used : Nat) (text : List Char) :
    ∀ {whole : String} {n : Nat}, readString read used text = (string whole, n) →
      ∃ inner value rest, text = inner ++ '"' :: rest ∧ Denotes inner value ∧
        whole = String.ofList (read.reverse ++ value) ∧ n = used + (inner.length + 1) := by
  fun_induction readString read used text with
  | case1 =>
    intro whole n same
    cases same
  | case2 read used rest =>
    rintro whole n ⟨⟩
    exact ⟨[], [], rest, rfl, .nil, by rw [List.append_nil], rfl⟩
  | case3 read used rest ih =>
    intro whole n same
    obtain ⟨inner, value, behind, rfl, denotes, rfl, rfl⟩ := ih same
    exact ⟨_, _, behind, rfl, denotes.quote, by simp, by simp; omega⟩
  | case4 read used rest ih =>
    intro whole n same
    obtain ⟨inner, value, behind, rfl, denotes, rfl, rfl⟩ := ih same
    exact ⟨_, _, behind, rfl, denotes.newline, by simp, by simp; omega⟩
  | case5 read used x y rest _ _ digits code =>
    rename_i ih
    intro whole n same
    obtain ⟨inner, value, behind, rfl, denotes, rfl, rfl⟩ := ih same
    obtain ⟨high, low⟩ := Bool.and_eq_true_iff.1 digits
    exact ⟨_, _, behind, rfl, denotes.code high low, by simp [code, hexCode], by simp; omega⟩
  | case6 read used x y rest noQuote noLetter noCode ih =>
    intro whole n same
    obtain ⟨inner, value, behind, split, denotes, rfl, rfl⟩ := ih same
    have alone : inner ≠ [] ∧ opensEscape inner = false := by
      rcases inner with _ | ⟨z, _ | ⟨w, inner⟩⟩
      · cases split
        exact absurd rfl noQuote
      · cases split
        refine ⟨List.cons_ne_nil _ _, opensEscape_eq_false noQuote noLetter ?_⟩
        exact fun _ none => absurd none (Option.not_mem_none _)
      · cases split
        refine ⟨List.cons_ne_nil _ _, opensEscape_eq_false noQuote noLetter ?_⟩
        rintro _ ⟨⟩
        exact Bool.eq_false_iff.2 noCode
    exact ⟨_, _, behind, by rw [split, List.cons_append], denotes.backslash alone.1 alone.2,
      by simp, by simp; omega⟩
  | case7 read used c rest noQuote noQuoted noNewline noCode ih =>
    intro whole n same
    obtain ⟨inner, value, behind, rfl, denotes, rfl, rfl⟩ := ih same
    -- A backslash has at least two characters behind it, the closing quote being no escape.
    have noMark : c ≠ '\\' := by
      rintro rfl
      rcases inner with _ | ⟨x, _ | ⟨y, inner⟩⟩
      · exact noQuoted _ rfl rfl
      · exact noCode _ _ _ rfl rfl
      · exact noCode _ _ _ rfl rfl
    exact ⟨_, _, behind, rfl, denotes.plain noQuote noMark, by simp, by simp; omega⟩

/-! ## Strings among the lexemes -/

theorem bracket?_ne_string {c : Char} {kind : Token.Kind} (found : bracket? c = some kind) :
    kind ≠ .string := by
  unfold bracket? at found
  split at found <;> cases found <;> decide

/-- No rule but the one for strings makes a string. -/
theorem readPlain_ne_string (c : Char) (rest : List Char) :
    (∀ value, (readPlain c rest).1 ≠ .string value) ∧ (readPlain c rest).1 ≠ .token .string := by
  fun_cases readPlain c rest <;> refine ⟨nofun, ?_⟩
  case case13 =>
    rename_i found
    exact fun same => bracket?_ne_string found (token.inj same)
  all_goals nofun

theorem readComment_cases (used : Nat) (text : List Char) :
    (readComment used text).1 = .comment ∨ (readComment used text).1 = .unclosedComment := by
  fun_induction readComment used text with
  | case1 => exact .inr rfl
  | case2 => exact .inl rfl
  | case3 _ _ _ _ ih => exact ih

theorem readString_cases (read : List Char) (used : Nat) (text : List Char) :
    (readString read used text).1 = .unclosedString ∨
      ∃ whole, (readString read used text).1 = .string whole := by
  fun_induction readString read used text
  case case1 => exact .inl rfl
  case case2 => exact .inr ⟨_, rfl⟩
  all_goals assumption

/-- A string starts with a quote, and its characters denote its value. -/
theorem denotes_of_read {c : Char} {rest : List Char} {whole : String} {more : Nat}
    (read : Lexeme.read c rest = (.string whole, more)) :
    ∃ inner value, c :: rest.take more = '"' :: (inner ++ ['"']) ∧ Denotes inner value ∧
      whole = String.ofList value := by
  unfold Lexeme.read at read
  split at read
  · cases read
  · split at read
    · rename_i inside _
      have lexeme : (readComment 2 inside).1 = .string whole := congrArg Prod.fst read
      rcases readComment_cases 2 inside with other | other
      all_goals
        rw [other] at lexeme
        cases lexeme
    · cases read
    · have lexeme : (readString [] 1 rest).1 = .string whole := congrArg Prod.fst read
      have length : (readString [] 1 rest).2 - 1 = more := congrArg Prod.snd read
      obtain ⟨inner, value, behind, rfl, denotes, same, used⟩ :=
        denotes_of_readString [] 1 rest (Prod.ext lexeme rfl)
      refine ⟨inner, value, congrArg _ ?_, denotes, same⟩
      have front : more = (inner ++ ['"']).length := by
        rw [List.length_append]
        exact length.symm.trans ((congrArg (· - 1) used).trans (Nat.add_sub_cancel_left _ _))
      rw [front, List.append_cons inner '"' behind, List.take_left]
    · exact absurd (congrArg Prod.fst read) ((readPlain_ne_string c rest).1 whole)

/-- No other lexeme is a string token. -/
theorem read_ne_string (c : Char) (rest : List Char) :
    (Lexeme.read c rest).1 ≠ .token .string := by
  unfold Lexeme.read
  split
  · nofun
  · split
    · rename_i inside _
      dsimp only
      rcases readComment_cases 2 inside with other | other <;> rw [other] <;> nofun
    · nofun
    · dsimp only
      rcases readString_cases [] 1 rest with other | ⟨whole, other⟩ <;> rw [other] <;> nofun
    · exact (readPlain_ne_string c rest).2

/-! ## Writing a value -/

/-- A character of a value as it is written between quotes. -/
def escaped (c : Char) : List Char :=
  if c = '"' then ['\\', '"'] else if c = '\\' then ['\\', '5', 'c'] else [c]

theorem denotes_escaped (value : List Char) : Denotes (value.flatMap escaped) value := by
  induction value with
  | nil => exact .nil
  | cons c value ih =>
    rw [List.flatMap_cons]
    unfold escaped
    by_cases quote : c = '"'
    · rw [if_pos quote, quote]
      exact ih.quote
    · by_cases mark : c = '\\'
      · rw [if_neg quote, if_pos mark, mark]
        exact ih.code rfl rfl
      · rw [if_neg quote, if_neg mark]
        exact ih.plain quote mark

/-- A value between quotes is read back. -/
theorem read_escaped (value behind : List Char) :
    Lexeme.read '"' (value.flatMap escaped ++ '"' :: behind) =
      (.string (String.ofList value), (value.flatMap escaped).length + 1) := by
  show (fun r : Lexeme × Nat => (r.1, r.2 - 1)) (readString [] 1 _) = _
  rw [readString_of_denotes (denotes_escaped value), List.reverse_nil, List.nil_append]
  exact congrArg (Prod.mk _) (Nat.add_sub_cancel_left _ _)

end

end NineBit.Asm.Lexeme
