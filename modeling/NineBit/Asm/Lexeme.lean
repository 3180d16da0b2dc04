import NineBit.Asm.Token
import NineBit.Isa.Location
import NineBit.Isa.Action
import NineBit.Text.Numeral

/-!
# Lexemes

`Lexeme.read` reads one lexeme off the front of a text that is not empty: what it is, and how many
characters it has beyond the first one. Rules are tried in a fixed order, and the first that
applies decides. A rule never asks what came before, so that the same text reads alike everywhere.
-/

namespace NineBit.Asm

/-- What stands at the front of a text. -/
inductive Lexeme where
  | separator
  | comment
  | unclosedComment
  /-- A string with its value, the closing NUL character not included. -/
  | string (value : String)
  | unclosedString
  | openBrace
  | closeBrace
  /-- A word of lower-case letters. -/
  | word
  /-- An exclamation mark and a word that is no single register. -/
  | controlWord (name : String)
  /-- The word that starts a macro definition. -/
  | definition
  /-- Any other token. -/
  | token (kind : Token.Kind)
  /-- A character that starts nothing. -/
  | stray
  deriving Repr, DecidableEq

namespace Lexeme

/-! ## Classes of characters -/

/-- A blank, a line end or a comma. -/
def isSeparator (c : Char) : Bool := c == ' ' || c == '\t' || c == '\r' || c == '\n' || c == ','

/-- A digit of base sixteen. -/
def isHex (c : Char) : Bool := c.isDigit || ('a' ≤ c && c ≤ 'f') || ('A' ≤ c && c ≤ 'F')

/-- A digit of base two. -/
def isBinary (c : Char) : Bool := c == '0' || c == '1'

/-- A character of a macro's name. -/
def isMacroName (c : Char) : Bool := c.isUpper || c.isDigit || c == '_'

/-- A letter that a condition may test. -/
def isTarget (c : Char) : Bool := c == 'a' || c == 'b' || c == 'c' || c == 'C' || c == 'Z'

/-- A character that starts a register action. -/
def isOperation (c : Char) : Bool := (Isa.Operation.ofSymbol? c).isSome

/-- A letter of a general register. -/
def isRegister (c : Char) : Bool := (Isa.Register.ofLetter? c).isSome

/-! ## Lengths of matches

Each rule gives the number of characters at the front of the text that it covers; zero if it does
not apply. -/

/-- The length of the run of a class at the front. -/
def run (p : Char → Bool) (text : List Char) : Nat := (text.takeWhile p).length

/-- A number of characters in front of a run that must not be empty. -/
def before (front n : Nat) : Nat := if n = 0 then 0 else front + n

/-- Word characters and a colon. -/
def label (text : List Char) : Nat :=
  let n := run Text.isWord text
  if n ≠ 0 ∧ (text.drop n).head? = some ':' then n + 1 else 0

/-- A colon and word characters. -/
def reference : List Char → Nat
  | ':' :: rest => before 1 (run Text.isWord rest)
  | _ => 0

/-- Digits of base sixteen or two after their mark, decimal digits, or a quote and any character
    of the line. -/
def number (text : List Char) : Nat :=
  let marked :=
    match text with
    | '0' :: 'x' :: rest => before 2 (run isHex rest)
    | '0' :: 'b' :: rest => before 2 (run isBinary rest)
    | _ => 0
  if marked ≠ 0 then marked
  else
    match text with
    | '\'' :: c :: _ => if c = '\n' then 0 else 2
    | _ => run Char.isDigit text

/-- A word of lower-case letters. -/
def lowerWord (text : List Char) : Nat := run Char.isLower text

/-- The length of a text that stands at the front. -/
def exactly (word : List Char) (text : List Char) : Nat :=
  if word.isPrefixOf text then word.length else 0

/-- A question mark, the marks for inversion and "any", and targets. -/
def condition : List Char → Nat
  | '?' :: rest =>
    let invert := exactly ['!'] rest
    let anyOf := exactly ['|'] (rest.drop invert)
    before (1 + invert + anyOf) (run isTarget (rest.drop (invert + anyOf)))
  | _ => 0

/-- An exclamation mark and a word of lower-case letters that is no single register. -/
def control : List Char → Nat
  | '!' :: rest =>
    let name := rest.takeWhile Char.isLower
    match name with
    | [] => 0
    | [c] => if isRegister c then 0 else 2
    | _ => 1 + name.length
  | _ => 0

/-- The operand of a register action: a register, or a macro's name that starts with no digit. -/
def registerOperand : List Char → Nat
  | c :: rest =>
    if isRegister c then 1
    else if c.isUpper || c == '_' then 1 + run isMacroName rest
    else 0
  | [] => 0

/-- An operation and its register. -/
def registerAction : List Char → Nat
  | c :: rest => if isOperation c then before 1 (registerOperand rest) else 0
  | [] => 0

/-- Upper-case letters, digits and underscores. -/
def macroName (text : List Char) : Nat := run isMacroName text

/-! ## Strings and comments -/

/-- Reads a string after its opening quote: the value so far comes last character first, and `used`
    characters belong to the string. A backslash makes a quote, a newline or the character of two
    hexadecimal digits, and otherwise stands for itself. -/
def readString (value : List Char) (used : Nat) : List Char → Lexeme × Nat
  | [] => (unclosedString, used)
  | '"' :: _ => (string (String.ofList value.reverse), used + 1)
  | '\\' :: '"' :: rest => readString ('"' :: value) (used + 2) rest
  | '\\' :: 'n' :: rest => readString ('\n' :: value) (used + 2) rest
  | '\\' :: x :: y :: rest =>
    if isHex x && isHex y then
      let code := (Text.digitValue? 16 x).getD 0 * 16 + (Text.digitValue? 16 y).getD 0
      readString (Char.ofNat code :: value) (used + 3) rest
    else readString ('\\' :: value) (used + 1) (x :: y :: rest)
  | c :: rest => readString (c :: value) (used + 1) rest

/-- Reads a comment up to its end mark. -/
def readComment (used : Nat) : List Char → Lexeme × Nat
  | [] => (unclosedComment, used)
  | '*' :: '/' :: _ => (comment, used + 2)
  | _ :: rest => readComment (used + 1) rest

/-! ## The rules in order -/

/-- The token of a character that is one by itself. -/
def bracket? : Char → Option Token.Kind
  | '[' => some .arrayStart
  | ']' => some .arrayEnd
  | '~' => some .arrayLength
  | _ => none

/-- The lexeme at the front of the text `c :: rest`, unless it is a comment or a string, with its
    length. -/
def readPlain (c : Char) (rest : List Char) : Lexeme × Nat :=
  let text := c :: rest
  if c = '{' then (openBrace, 1)
  else if c = '}' then (closeBrace, 1)
  else if label text ≠ 0 then (token .label, label text)
  else if reference text ≠ 0 then (token .reference, reference text)
  else if number text ≠ 0 then (token .number, number text)
  else if lowerWord text ≠ 0 then (word, lowerWord text)
  else if exactly "#push".toList text ≠ 0 then (token .blockStart, 5)
  else if exactly "#pop".toList text ≠ 0 then (token .blockEnd, 4)
  else if c = '=' then (token .movement, 1)
  else if condition text ≠ 0 then (token .condition, condition text)
  else if control text ≠ 0 then
    (controlWord (String.ofList (rest.takeWhile Char.isLower)), control text)
  else if registerAction text ≠ 0 then (token .registerAction, registerAction text)
  else
    match bracket? c with
    | some kind => (token kind, 1)
    | none =>
      if macroName text ≠ 0 then (token .macroName, macroName text)
      else if c = '(' then (token .argumentsStart, 1)
      else if c = ')' then (token .argumentsEnd, 1)
      else if exactly "#define".toList text ≠ 0 then (definition, 7)
      else (stray, 1)

/-- The lexeme at the front of the text `c :: rest`, and the number of its characters beyond `c`. -/
def read (c : Char) (rest : List Char) : Lexeme × Nat :=
  if isSeparator c then (separator, 0)
  else
    match c, rest with
    | '/', '*' :: inside =>
      let (lexeme, used) := readComment 2 inside
      (lexeme, used - 1)
    | '/', '/' :: _ => (comment, run (· != '\n') rest)
    | '"', _ =>
      let (lexeme, used) := readString [] 1 rest
      (lexeme, used - 1)
    | _, _ =>
      let (lexeme, used) := readPlain c rest
      (lexeme, used - 1)

end Lexeme

end NineBit.Asm
