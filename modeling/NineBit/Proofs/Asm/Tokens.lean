import NineBit.Asm.Lexer
import NineBit.Proofs.Asm.Spelling

/-!
# Tokens of known spelling

A token is spelt as its kind demands (`Token.Known`): a location is one of the words that name one,
without the mark of an index, a condition has something to test, and so on. The lexer makes no
others, neither in the program nor in the bodies of macros (`known_lex`).
-/

namespace NineBit.Asm

/-- A token is spelt as its kind demands. -/
def Token.Known (token : Token) : Prop :=
  match token.kind with
  | .location => Isa.isLocationWord token.text = true
  | .number => Spelling.Number token.text.toList
  | .condition => Spelling.Condition token.text.toList
  | .registerAction => Spelling.RegisterAction token.text.toList
  | .action => ∃ c : Isa.Control, token.text = (Isa.Action.control c).text
  | _ => True

/-- Every token of a macro's body has a property. -/
def Macro.All (K : Token → Prop) (m : Macro) : Prop := ∀ token ∈ m.body, K token

theorem Token.Known.location {token : Token} (known : token.Known) (kind : token.kind = .location) :
    Isa.isLocationWord token.text = true := by
  unfold Token.Known at known
  rw [kind] at known
  exact known

theorem Token.Known.condition {token : Token} (known : token.Known)
    (kind : token.kind = .condition) : Spelling.Condition token.text.toList := by
  unfold Token.Known at known
  rw [kind] at known
  exact known

theorem Token.Known.registerAction {token : Token} (known : token.Known)
    (kind : token.kind = .registerAction) : Spelling.RegisterAction token.text.toList := by
  unfold Token.Known at known
  rw [kind] at known
  exact known

theorem Token.Known.action {token : Token} (known : token.Known) (kind : token.kind = .action) :
    ∃ c : Isa.Control, token.text = (Isa.Action.control c).text := by
  unfold Token.Known at known
  rw [kind] at known
  exact known

/-! ## Lexing -/

/-- Defining a macro adds that macro only. -/
theorem Frame.mem_define {m other : Macro} {frame : Frame} (member : other ∈ frame.define m) :
    other = m ∨ other ∈ frame := by
  induction frame with
  | nil => exact .inl (List.mem_singleton.1 member)
  | cons first rest ih =>
    unfold Frame.define at member
    split at member
    · rcases List.mem_cons.1 member with same | later
      · exact .inl same
      · exact .inr (List.mem_cons_of_mem _ later)
    · rcases List.mem_cons.1 member with same | later
      · exact .inr (same ▸ List.mem_cons_self)
      · rcases ih later with same | old
        · exact .inl same
        · exact .inr (List.mem_cons_of_mem _ old)

namespace Lexer

/-- The tokens of a definition in the making are known. -/
def Mode.Known : Mode → Prop
  | .program => True
  | .header d | .body d => ∀ token ∈ d.body, token.Known

/-- Every token that has been read is known. -/
structure State.Known (s : State) : Prop where
  mode : s.mode.Known
  tokens : ∀ token ∈ s.tokens, token.Known
  macros : ∀ m ∈ s.macros, m.All Token.Known

theorem known_initial : State.initial.Known where
  mode := trivial
  tokens _ member := nomatch member
  macros _ member := nomatch member

theorem known_cons {token : Token} {tokens : List Token} (first : token.Known)
    (rest : ∀ other ∈ tokens, other.Known) : ∀ other ∈ token :: tokens, other.Known := by
  intro other member
  rcases List.mem_cons.1 member with rfl | later
  · exact first
  · exact rest other later

/-- A header takes no location. -/
theorem known_push {s : State} (known : s.Known) {token : Token}
    (valid : s.inHeader = true ∨ token.Known) : (push s token).1.Known := by
  unfold push
  split
  · rename_i program
    have fresh : token.Known := by
      rcases valid with header | fresh
      · rw [State.inHeader, program] at header
        cases header
      · exact fresh
    exact ⟨known.mode, known_cons fresh known.tokens, known.macros⟩
  · rename_i d body
    have mode := known.mode
    rw [body] at mode
    have fresh : token.Known := by
      rcases valid with header | fresh
      · rw [State.inHeader, body] at header
        cases header
      · exact fresh
    exact ⟨known_cons fresh mode, known.tokens, known.macros⟩
  · rename_i d header
    have mode := known.mode
    rw [header] at mode
    split
    · exact known
    · split
      · exact ⟨mode, known.tokens, known.macros⟩
      · exact ⟨mode, known.tokens, known.macros⟩

theorem known_finish {macros : Frame} {d : Draft} (known : ∀ m ∈ macros, m.All Token.Known)
    (body : ∀ token ∈ d.body, token.Known) : ∀ m ∈ finish macros d, m.All Token.Known := by
  unfold finish
  split
  · exact known
  · intro m member
    rcases Frame.mem_define member with rfl | old
    · exact fun token inside => body token (List.mem_reverse.1 inside)
    · exact known m old

/-- A lexeme that is a token by itself is spelt as that token. -/
theorem known_of_spells {kind : Token.Kind} {text : String} {span : Span}
    (spelt : (Lexeme.token kind).Spells text.toList) : Token.Known ⟨kind, text, span⟩ := by
  cases kind with
  | location => exact spelt.elim
  | action => exact spelt.elim
  | _ => exact spelt

theorem known_accept {s : State} (known : s.Known) {lexeme : Lexeme} (text : String)
    (span : Span) (spelt : lexeme.Spells text.toList) : (accept s lexeme text span).1.Known := by
  cases lexeme with
  | string value => exact known_push known (.inr trivial)
  | token kind => exact known_push known (.inr (known_of_spells spelt))
  | word =>
    unfold accept
    dsimp only
    split
    · rename_i allowed
      refine known_push known ?_
      rcases Bool.or_eq_true_iff.1 allowed with names | header
      · exact .inr names
      · exact .inl header
    · exact known
  | controlWord name =>
    unfold accept
    dsimp only
    split
    · rename_i listed
      obtain ⟨c, -, same⟩ := List.mem_map.1 (List.contains_iff_mem.1 listed)
      refine known_push known (.inr ⟨c, ?_⟩)
      have written : text.toList = (Isa.Action.control c).text.toList := by
        unfold Isa.Action.text
        rw [String.toList_append, same]
        exact spelt
      exact String.toList_inj.1 written
    · exact known
  | openBrace =>
    unfold accept
    dsimp only
    split
    · rename_i d header
      have mode := known.mode
      rw [header] at mode
      exact ⟨mode, known.tokens, known.macros⟩
    · exact known
  | closeBrace =>
    unfold accept
    dsimp only
    split
    · rename_i d body
      have mode := known.mode
      rw [body] at mode
      exact ⟨trivial, known.tokens, known_finish known.macros mode⟩
    · exact known
  | definition =>
    unfold accept
    dsimp only
    split
    · exact ⟨fun _ member => absurd member List.not_mem_nil, known.tokens, known.macros⟩
    · exact known
  | _ => exact known

/-- What is read from a text is accepted. -/
theorem known_read {s next : State} {fault : Option Diagnostic} (known : s.Known) {c : Char}
    {rest : List Char} {lexeme : Lexeme} {more : Nat} (read : Lexeme.read c rest = (lexeme, more))
    {span : Span} (accepted : accept s lexeme (String.ofList (c :: rest.take more)) span =
      (next, fault)) : next.Known := by
  have spelt := (Lexeme.reads_read c rest).spelt
  rw [read] at spelt
  have after := known_accept known (String.ofList (c :: rest.take more)) span
    (by rw [String.toList_ofList]; exact spelt)
  rw [accepted] at after
  exact after

theorem known_scan (source : Source) (s : State) (start : Position) (text : List Char)
    (known : s.Known) : (scan source s start text).value.Known := by
  fun_induction scan source s start text with
  | case1 s start =>
    unfold noting
    split <;> exact known
  | case2 s start c rest lexeme more read used stop next accepted ih =>
    exact ih (known_read known read accepted)
  | case3 s start c rest lexeme more read used stop next d accepted ih =>
    exact ih (known_read known read accepted)

end Lexer

/-- The lexer makes known tokens only. -/
theorem known_lex (source : Source) :
    (∀ token ∈ (lex source).value.tokens, token.Known) ∧
      ∀ m ∈ (lex source).value.macros, m.All Token.Known := by
  have known := Lexer.known_scan source .initial .first source.text.toList Lexer.known_initial
  unfold lex
  rw [Report.value_bind]
  exact ⟨fun token member => known.tokens token (List.mem_reverse.1 member), known.macros⟩

end NineBit.Asm
