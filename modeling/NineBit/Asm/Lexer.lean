import NineBit.Asm.Lexeme
import NineBit.Asm.Macro
import NineBit.Report

/-!
# Lexical analysis

The lexer turns a source text into tokens and macro definitions. A definition is the word
`#define`, a header of macro names, the first of which names the macro and the others its
parameters, and a body of tokens in braces; its tokens never reach the program. After a problem the
lexer goes on behind the lexeme that caused it.
-/

namespace NineBit.Asm

/-- A problem with the spelling of a text. -/
inductive LexicalFault where
  | unexpectedCharacter (c : Char)
  | unknownLocation (word : String)
  | unknownAction (name : String)
  | unclosedComment
  | unclosedString
  | unclosedHeader
  | unclosedBody
  | namelessMacro
  | headerToken
  | nestedDefinition
  deriving Repr, DecidableEq

namespace LexicalFault

/-- The wording of a problem. -/
def message : LexicalFault → String
  | unexpectedCharacter c => s!"unexpected character {Text.quoted (String.singleton c)}"
  | unknownLocation word => s!"unknown location '{word}'"
  | unknownAction name => s!"unknown action '!{name}'"
  | unclosedComment => "unterminated block comment"
  | unclosedString => "unterminated string"
  | unclosedHeader => "unterminated #define header"
  | unclosedBody => "unterminated #define body"
  | namelessMacro => "#define has no macro name"
  | headerToken => "#define header can only contain the macro name and parameters"
  | nestedDefinition => "#define is not allowed inside a macro definition"

/-- The hint on a misspelt name. -/
def hint : LexicalFault → Option String
  | unknownLocation word => Text.suggestion (Text.similar word Isa.locationWords)
  | unknownAction name => Text.suggestion (Text.similar name Isa.Control.names)
  | _ => none

/-- The problem at a place. -/
def diagnostic (fault : LexicalFault) (span : Span) : Diagnostic :=
  ⟨.lexical, fault.message, some span, fault.hint⟩

end LexicalFault

namespace Lexer

/-- A macro definition in the making; its body comes last token first. -/
structure Draft where
  start : Span
  name : Option String
  parameters : List String
  body : List Token
  deriving Repr

/-- Where tokens belong. -/
inductive Mode where
  | program
  | header (d : Draft)
  | body (d : Draft)
  deriving Repr

/-- What has been read; tokens come last first. -/
structure State where
  mode : Mode
  tokens : List Token
  macros : Frame
  deriving Repr

/-- Nothing read. -/
def State.initial : State := ⟨.program, [], []⟩

/-- The state after a lexeme, and the problem with it, if there is one. -/
abbrev Outcome := State × Option Diagnostic

/-- Puts a token where it belongs. -/
def push (s : State) (token : Token) : Outcome :=
  match s.mode with
  | .program => ({ s with tokens := token :: s.tokens }, none)
  | .body d => ({ s with mode := .body { d with body := token :: d.body } }, none)
  | .header d =>
    if token.kind ≠ .macroName then (s, some (LexicalFault.headerToken.diagnostic token.span))
    else
      match d.name with
      | none => ({ s with mode := .header { d with name := some token.text } }, none)
      | some _ =>
        ({ s with mode := .header { d with parameters := d.parameters ++ [token.text] } }, none)

/-- The definitions with the one that a draft makes, if it has a name. -/
def finish (macros : Frame) (d : Draft) : Frame :=
  match d.name with
  | none => macros
  | some name => macros.define ⟨name, d.parameters, d.body.reverse, some d.start⟩

/-- A character that means nothing here. -/
def unexpected (s : State) (text : String) (span : Span) : Outcome :=
  (s, some ((LexicalFault.unexpectedCharacter (text.toList.headD ' ')).diagnostic span))

/-- A header is being read. -/
def State.inHeader (s : State) : Bool :=
  match s.mode with
  | .header _ => true
  | _ => false

/-- Takes a lexeme with its text and place. -/
def accept (s : State) (lexeme : Lexeme) (text : String) (span : Span) : Outcome :=
  match lexeme with
  | .separator | .comment => (s, none)
  | .unclosedComment => (s, some (LexicalFault.unclosedComment.diagnostic span))
  | .unclosedString => (s, some (LexicalFault.unclosedString.diagnostic span))
  | .string value => push s ⟨.string, value.push closingNul, span⟩
  | .token kind => push s ⟨kind, text, span⟩
  | .word =>
    if Isa.isLocationWord text || s.inHeader then push s ⟨.location, text, span⟩
    else (s, some ((LexicalFault.unknownLocation text).diagnostic span))
  | .controlWord name =>
    if Isa.Control.names.contains name then push s ⟨.action, text, span⟩
    else (s, some ((LexicalFault.unknownAction name).diagnostic span))
  | .stray => unexpected s text span
  | .openBrace =>
    match s.mode with
    | .header d =>
      let fault :=
        if d.name.isNone then some (LexicalFault.namelessMacro.diagnostic d.start) else none
      ({ s with mode := .body d }, fault)
    | _ => unexpected s text span
  | .closeBrace =>
    match s.mode with
    | .body d => ({ s with mode := .program, macros := finish s.macros d }, none)
    | _ => unexpected s text span
  | .definition =>
    match s.mode with
    | .program => ({ s with mode := .header ⟨span, none, [], []⟩ }, none)
    | _ => (s, some (LexicalFault.nestedDefinition.diagnostic span))

/-- The problem with a text that ends within a definition. -/
def endFault (s : State) : Option Diagnostic :=
  match s.mode with
  | .program => none
  | .header d => some (LexicalFault.unclosedHeader.diagnostic d.start)
  | .body d => some (LexicalFault.unclosedBody.diagnostic d.start)

/-- Makes an entry of a problem, if there is one, and goes on. -/
def noting {α : Type} (fault : Option Diagnostic) (next : Unit → Report α) : Report α :=
  match fault with
  | none => next ()
  | some d => .enter (.problem d) next

/-- Reads the rest of a text from a place on. -/
def scan (source : Source) (s : State) (start : Position) (text : List Char) : Report State :=
  match text with
  | [] => noting (endFault s) fun _ => .done s
  | c :: rest =>
    let (lexeme, more) := Lexeme.read c rest
    let used := c :: rest.take more
    let stop := start.afterAll used
    let (next, fault) := accept s lexeme (String.ofList used) ⟨start, stop, source⟩
    match fault with
    | none => scan source next stop (rest.drop more)
    | some d => .enter (.problem d) fun _ => scan source next stop (rest.drop more)
  termination_by text.length
  decreasing_by all_goals simp only [List.length_drop, List.length_cons]; omega

end Lexer

/-- The tokens and the macro definitions of a source text. -/
structure Lexed where
  tokens : List Token
  macros : Frame
  deriving Repr

/-- Analyses a source text. -/
def lex (source : Source) : Report Lexed := do
  let s ← Lexer.scan source .initial .first source.text.toList
  return ⟨s.tokens.reverse, s.macros⟩

end NineBit.Asm
