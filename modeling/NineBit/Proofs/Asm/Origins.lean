import NineBit.Asm.Lexer
import NineBit.Proofs.Asm.Spelling
import NineBit.Proofs.Asm.Success
import NineBit.Proofs.Asm.Tokens

/-!
# Where tokens come from

The lexer keeps the text behind its cursor out of sight: a token is made of one lexeme, and the
lexeme of the characters at the front of what is left (`Token.From`). Its span runs over just these
characters (`Span.Of`), and those of later tokens come behind them (`Lexer.Behind`), in the program
as in the body of a macro. Accepting a lexeme does one of a few things (`Lexer.Step`), so that all
this is carried from lexeme to lexeme (`Lexer.placed_scan`); every problem on the way is with a
lexeme of the text, too. What all tokens of the lexer have in common can be read off the lexemes
that they are made of (`from_lex`).
-/

namespace NineBit

/-- The span runs over some characters of the text, behind those before them. -/
structure Span.Of (source : Source) (span : Span) (before used : List Char) : Prop where
  start : span.start = Position.first.afterAll before
  stop : span.stop = Position.first.afterAll (before ++ used)
  text : before ++ used <+: source.text.toList
  within : span.source = source
  nonempty : used ≠ []

namespace Asm

/-- The token that a lexeme makes, if it makes one. -/
def Lexeme.token? (lexeme : Lexeme) (text : String) (span : Span) : Option Token :=
  match lexeme with
  | .string value => some ⟨.string, value.push closingNul, span⟩
  | .token kind => some ⟨kind, text, span⟩
  | .word => if Isa.isLocationWord text then some ⟨.location, text, span⟩ else none
  | .controlWord name =>
    if Isa.Control.names.contains name then some ⟨.action, text, span⟩ else none
  | _ => none

/-- The token is made of the characters that a lexeme covers. -/
structure Token.From (source : Source) (token : Token) (before used : List Char) : Prop where
  span : token.span.Of source before used
  read : ∃ c rest lexeme more, used = c :: rest.take more ∧ Lexeme.read c rest = (lexeme, more) ∧
    lexeme.token? (String.ofList used) token.span = some token

namespace Lexer

/-- The problem is with some characters of the text. -/
def Concerns (source : Source) (d : Diagnostic) : Prop :=
  ∃ span before used, d.span = some span ∧ span.Of source before used

/-- Tokens, last first, are made of characters of the text, one behind the other and none of them
    beyond so many characters. -/
inductive Behind (source : Source) : Nat → List Token → Prop where
  | nil (n : Nat) : Behind source n []
  | cons {n : Nat} {token : Token} {before used : List Char} {tokens : List Token}
      (made : token.From source before used) (le : (before ++ used).length ≤ n)
      (earlier : Behind source before.length tokens) : Behind source n (token :: tokens)

theorem Behind.mono {source : Source} {n m : Nat} {tokens : List Token}
    (behind : Behind source n tokens) (le : n ≤ m) : Behind source m tokens := by
  cases behind with
  | nil => exact .nil m
  | cons made last earlier => exact .cons made (Nat.le_trans last le) earlier

theorem Behind.made {source : Source} {n : Nat} {tokens : List Token}
    (behind : Behind source n tokens) :
    ∀ token ∈ tokens, ∃ before used, token.From source before used := by
  induction behind with
  | nil => exact fun _ member => absurd member List.not_mem_nil
  | cons made _ _ ih => exact List.forall_mem_cons.2 ⟨⟨_, _, made⟩, ih⟩

/-! ## One lexeme -/

/-- What accepting a lexeme does. -/
inductive Step (s : State) (lexeme : Lexeme) (text : String) (span : Span) :
    State → Option Diagnostic → Prop where
  /-- Nothing, or a problem with the lexeme. -/
  | skip {fault : Option Diagnostic} (here : ∀ d ∈ fault, d.span = some span) :
      Step s lexeme text span s fault
  | program {token : Token} (made : lexeme.token? text span = some token)
      (mode : s.mode = .program) :
      Step s lexeme text span { s with tokens := token :: s.tokens } none
  | body {token : Token} {d : Draft} (made : lexeme.token? text span = some token)
      (mode : s.mode = .body d) :
      Step s lexeme text span { s with mode := .body { d with body := token :: d.body } } none
  /-- The name of the macro or one of its parameters. -/
  | named {d next : Draft} (mode : s.mode = .header d) (start : next.start = d.start)
      (body : next.body = d.body) : Step s lexeme text span { s with mode := .header next } none
  | definition (mode : s.mode = .program) :
      Step s lexeme text span { s with mode := .header ⟨span, none, [], []⟩ } none
  | opening {d : Draft} {fault : Option Diagnostic} (mode : s.mode = .header d)
      (there : ∀ x ∈ fault, x.span = some d.start) :
      Step s lexeme text span { s with mode := .body d } fault
  | closing {d : Draft} (mode : s.mode = .body d) :
      Step s lexeme text span { s with mode := .program, macros := finish s.macros d } none

section
variable {s : State} {lexeme : Lexeme} {text : String} {span : Span}

theorem Step.quiet : Step s lexeme text span s none :=
  .skip fun _ member => absurd member (Option.not_mem_none _)

theorem Step.fault (f : LexicalFault) : Step s lexeme text span s (some (f.diagnostic span)) :=
  .skip fun d member => by
    cases member
    rfl

/-- A token goes where it belongs; a header takes no token as it is. -/
theorem Step.push {token : Token} (place : token.span = span)
    (made : s.inHeader = false → lexeme.token? text span = some token) :
    Step s lexeme text span (push s token).1 (push s token).2 := by
  obtain ⟨mode, tokens, macros⟩ := s
  cases mode with
  | program => exact .program (made rfl) rfl
  | body d => exact .body (made rfl) rfl
  | header d =>
    unfold Lexer.push
    dsimp only
    by_cases kind : token.kind ≠ .macroName
    · rw [if_pos kind, place]
      exact .fault _
    · rw [if_neg kind]
      cases d.name with
      | none => exact .named rfl rfl rfl
      | some name => exact .named rfl rfl rfl

theorem step_accept (s : State) (lexeme : Lexeme) (text : String) (span : Span) :
    Step s lexeme text span (accept s lexeme text span).1 (accept s lexeme text span).2 := by
  cases lexeme with
  | separator | comment => exact .quiet
  | unclosedComment | unclosedString | stray => exact .fault _
  | string value | token kind => exact .push rfl fun _ => rfl
  | word =>
    unfold accept
    dsimp only
    by_cases allowed : (Isa.isLocationWord text || s.inHeader) = true
    · rw [if_pos allowed]
      refine .push rfl fun outside => ?_
      rw [outside, Bool.or_false] at allowed
      exact if_pos allowed
    · rw [if_neg allowed]
      exact .fault _
  | controlWord name =>
    unfold accept
    dsimp only
    by_cases known : Isa.Control.names.contains name = true
    · rw [if_pos known]
      exact .push rfl fun _ => if_pos known
    · rw [if_neg known]
      exact .fault _
  | openBrace =>
    obtain ⟨mode, tokens, macros⟩ := s
    cases mode with
    | header d =>
      refine .opening rfl fun x member => ?_
      unfold accept at member
      dsimp only at member
      split at member
      · cases member
        rfl
      · cases member
    | program | body => exact .fault _
  | closeBrace =>
    obtain ⟨mode, tokens, macros⟩ := s
    cases mode with
    | body d => exact .closing rfl
    | program | header => exact .fault _
  | definition =>
    obtain ⟨mode, tokens, macros⟩ := s
    cases mode with
    | program => exact .definition rfl
    | header | body => exact .fault _

end

/-! ## The whole text -/

/-- The definition in the making, if there is one, stands in the first so many characters. -/
def Mode.Placed (source : Source) (n : Nat) : Mode → Prop
  | .program => True
  | .header d | .body d =>
    (∃ before used, d.start.Of source before used) ∧ Behind source n d.body

/-- All that has been read stands in the first so many characters. -/
structure State.Placed (source : Source) (n : Nat) (s : State) : Prop where
  mode : s.mode.Placed source n
  tokens : Behind source n s.tokens
  macros : ∀ m ∈ s.macros, Behind source n m.body.reverse

theorem placed_initial (source : Source) : State.initial.Placed source 0 where
  mode := trivial
  tokens := .nil 0
  macros _ member := absurd member List.not_mem_nil

theorem Mode.Placed.mono {source : Source} {n m : Nat} {mode : Mode}
    (placed : mode.Placed source n) (le : n ≤ m) : mode.Placed source m := by
  cases mode with
  | program => trivial
  | header d | body d => exact ⟨placed.1, placed.2.mono le⟩

theorem State.Placed.mono {source : Source} {n m : Nat} {s : State} (placed : s.Placed source n)
    (le : n ≤ m) : s.Placed source m :=
  ⟨placed.mode.mono le, placed.tokens.mono le, fun x member => (placed.macros x member).mono le⟩

section
variable {source : Source} {before used : List Char} {s : State}

/-- What a definition leaves is its macro, beside those there were. -/
theorem placed_finish {macros : Frame} {d : Draft} {n : Nat}
    (old : ∀ m ∈ macros, Behind source n m.body.reverse) (body : Behind source n d.body) :
    ∀ m ∈ finish macros d, Behind source n m.body.reverse := by
  unfold finish
  cases d.name with
  | none => exact old
  | some name =>
    intro m member
    rcases Frame.mem_define member with rfl | before
    · rwa [List.reverse_reverse]
    · exact old m before

/-- One lexeme more. -/
theorem State.Placed.step {next : State} {fault : Option Diagnostic} {lexeme : Lexeme}
    {text : String} {span : Span} (placed : s.Placed source before.length)
    (step : Step s lexeme text span next fault) (place : span.Of source before used)
    (made : ∀ token, lexeme.token? text span = some token → token.From source before used) :
    next.Placed source (before ++ used).length ∧ ∀ d ∈ fault, Concerns source d := by
  have le : before.length ≤ (before ++ used).length := by simp
  obtain ⟨mode', tokens, macros⟩ := placed.mono le
  cases step with
  | skip here => exact ⟨⟨mode', tokens, macros⟩, fun d member => ⟨_, _, _, here d member, place⟩⟩
  | program lexed mode =>
    refine ⟨⟨mode', ?_, macros⟩, fun _ none => absurd none (Option.not_mem_none _)⟩
    exact .cons (made _ lexed) (Nat.le_refl _) placed.tokens
  | body lexed mode =>
    have draft := placed.mode
    rw [mode] at draft
    refine ⟨⟨⟨draft.1, ?_⟩, tokens, macros⟩, fun _ none => absurd none (Option.not_mem_none _)⟩
    exact .cons (made _ lexed) (Nat.le_refl _) draft.2
  | named mode start body =>
    rw [mode] at mode'
    refine ⟨⟨?_, tokens, macros⟩, fun _ none => absurd none (Option.not_mem_none _)⟩
    unfold Mode.Placed
    dsimp only
    rw [start, body]
    exact mode'
  | definition mode =>
    exact ⟨⟨⟨⟨_, _, place⟩, .nil _⟩, tokens, macros⟩,
      fun _ none => absurd none (Option.not_mem_none _)⟩
  | opening mode there =>
    rw [mode] at mode'
    obtain ⟨⟨start, more, defines⟩, body⟩ := mode'
    refine ⟨⟨⟨⟨start, more, defines⟩, body⟩, tokens, macros⟩, fun d member => ?_⟩
    exact ⟨_, _, _, there d member, defines⟩
  | closing mode =>
    rw [mode] at mode'
    exact ⟨⟨trivial, tokens, placed_finish macros mode'.2⟩,
      fun _ none => absurd none (Option.not_mem_none _)⟩

/-- The lexeme at the front of what is left, with its characters. -/
theorem from_read {c : Char} {rest : List Char} {lexeme : Lexeme} {more : Nat}
    (text : source.text.toList = before ++ c :: rest) (read : Lexeme.read c rest = (lexeme, more))
    (span : Span)
    (same : span = ⟨Position.first.afterAll before,
      (Position.first.afterAll before).afterAll (c :: rest.take more), source⟩) :
    span.Of source before (c :: rest.take more) ∧ ∀ token,
      lexeme.token? (String.ofList (c :: rest.take more)) span = some token →
        token.From source before (c :: rest.take more) := by
  have of : span.Of source before (c :: rest.take more) := by
    subst same
    refine ⟨rfl, (Position.afterAll_append _ _ _).symm, ⟨rest.drop more, ?_⟩, rfl,
      List.cons_ne_nil _ _⟩
    rw [text, List.append_assoc, List.cons_append, List.take_append_drop]
  refine ⟨of, fun token made => ?_⟩
  have place : token.span = span := by
    unfold Lexeme.token? at made
    split at made
    · cases made
      rfl
    · cases made
      rfl
    · split at made
      · cases made
        rfl
      · cases made
    · split at made
      · cases made
        rfl
      · cases made
    · cases made
  rw [← place] at of made
  exact ⟨of, c, rest, lexeme, more, rfl, read, made⟩

/-- A problem with the end of the text is one with a definition. -/
theorem concerns_endFault {n : Nat} (placed : s.Placed source n) :
    ∀ d ∈ endFault s, Concerns source d := by
  have mode := placed.mode
  unfold endFault
  cases at_ : s.mode with
  | program => exact fun _ none => absurd none (Option.not_mem_none _)
  | header draft | body draft =>
    rw [at_] at mode
    obtain ⟨⟨before, used, start⟩, -⟩ := mode
    rintro d ⟨⟩
    exact ⟨_, _, _, rfl, start⟩

end

/-- All that is read from a text stands in it, and so do the problems. -/
theorem placed_scan (source : Source) (s : State) (start : Position) (text : List Char) :
    ∀ before, source.text.toList = before ++ text → start = Position.first.afterAll before →
      s.Placed source before.length →
        (scan source s start text).value.Placed source source.text.toList.length ∧
          ∀ d ∈ (scan source s start text).problems, Concerns source d := by
  fun_induction scan source s start text with
  | case1 s start =>
    intro before whole _ placed
    rw [List.append_nil] at whole
    rw [← whole] at placed
    unfold noting
    have ends := concerns_endFault placed
    split
    · exact ⟨placed, fun _ member => absurd member List.not_mem_nil⟩
    · rename_i d found
      exact ⟨placed, List.forall_mem_singleton.2 (ends d found)⟩
  | case2 s start c rest lexeme more read used stop next accepted ih =>
    intro before whole place placed
    obtain ⟨of, made⟩ := from_read whole read ⟨start, stop, source⟩
      (by rw [show stop = start.afterAll (c :: rest.take more) from rfl, place])
    have step := step_accept s lexeme (String.ofList used) ⟨start, stop, source⟩
    rw [accepted] at step
    refine ih (before ++ used) ?_ ?_ (placed.step step of made).1
    · rw [whole, List.append_assoc, List.cons_append, List.take_append_drop]
    · rw [Position.afterAll_append, ← place]
  | case3 s start c rest lexeme more read used stop next d accepted ih =>
    intro before whole place placed
    obtain ⟨of, made⟩ := from_read whole read ⟨start, stop, source⟩
      (by rw [show stop = start.afterAll (c :: rest.take more) from rfl, place])
    have step := step_accept s lexeme (String.ofList used) ⟨start, stop, source⟩
    rw [accepted] at step
    obtain ⟨later, concerns⟩ := placed.step step of made
    obtain ⟨value, problems⟩ := ih (before ++ used)
      (by rw [whole, List.append_assoc, List.cons_append, List.take_append_drop])
      (by rw [Position.afterAll_append, ← place]) later
    exact ⟨value, List.forall_mem_cons.2 ⟨concerns d rfl, problems⟩⟩

end Lexer

/-- The tokens of a program come from its text, one behind the other, and so do those of each
    macro; every problem is with a part of the text. -/
theorem placed_lex (source : Source) :
    Lexer.Behind source source.text.toList.length (lex source).value.tokens.reverse ∧
      (∀ m ∈ (lex source).value.macros,
        Lexer.Behind source source.text.toList.length m.body.reverse) ∧
      ∀ d ∈ (lex source).problems, Lexer.Concerns source d := by
  obtain ⟨placed, problems⟩ := Lexer.placed_scan source .initial .first source.text.toList []
    rfl rfl (Lexer.placed_initial source)
  unfold lex
  rw [Report.value_bind, Report.problems_bind]
  refine ⟨?_, placed.macros, fun d member => problems d ?_⟩
  · show Lexer.Behind source _ (List.reverse (List.reverse _))
    rw [List.reverse_reverse]
    exact placed.tokens
  · rcases List.mem_append.1 member with scanned | none
    · exact scanned
    · exact absurd none List.not_mem_nil

/-- Every token that the lexer makes comes from a lexeme of the text. -/
theorem from_lex (source : Source) :
    (∀ token ∈ (lex source).value.tokens, ∃ before used, token.From source before used) ∧
      ∀ m ∈ (lex source).value.macros, ∀ token ∈ m.body,
        ∃ before used, token.From source before used := by
  obtain ⟨tokens, macros, -⟩ := placed_lex source
  refine ⟨fun token member => tokens.made token (List.mem_reverse.2 member), fun m known => ?_⟩
  exact fun token member => (macros m known).made token (List.mem_reverse.2 member)

end Asm

end NineBit
