import NineBit.Disassembly
import NineBit.Text.Blank
import NineBit.Text.Numeral

/-!
# Symbol files

A symbol file has a line for each symbol: its name, a blank, and its address in decimal digits. What
follows a number sign is a remark, and lines with nothing else are skipped. Several names of one
address may be in a file; a reader goes by the first of them.
-/

namespace NineBit.SymbolFile

/-- Why a text is no symbol file. -/
inductive Error where
  | malformed (line : Nat) (content : String)
  /-- The address consists of digits, but of some that stand for no number. -/
  | noNumber (address : String)
  deriving Repr, DecidableEq

/-- The wording of an error in the file of a path. -/
def Error.message (path : String) : Error → String
  | .malformed line content => s!"{path}:{line}: expected 'name address', got '{content}'"
  | .noNumber address => Text.invalidNumeral .decimal address

/-- The line of a symbol. -/
def writeLine (name : String) (address : Nat) : String := s!"{name} {address}\n"

/-- The file of some symbols. -/
def write (symbols : List (String × Nat)) : String :=
  "# Symbol table\n# Generated by s9basm\n" ++
    String.join (symbols.map fun entry => writeLine entry.1 entry.2)

/-- Reads a line: nothing from a blank one, and else the address and the name of a symbol. -/
def readLine (number : Nat) (line : String) : Except Error (Option (Int × String)) :=
  let content := Text.trim (Text.before '#' line)
  if content.isEmpty then .ok none
  else
    match Text.fields content with
    | [name, address] =>
      if address.toList.all Text.isDigit then
        match Text.readInt? .decimal address with
        | some value => .ok (some (value, name))
        | none => .error (.noNumber address)
      else .error (.malformed number content)
    | _ => .error (.malformed number content)

/-- Reads lines from a line number on. -/
def readLines (number : Nat) : List String → Except Error SymbolTable
  | [] => .ok []
  | line :: rest =>
    match readLine number line with
    | .error error => .error error
    | .ok none => readLines (number + 1) rest
    | .ok (some symbol) => (readLines (number + 1) rest).map (symbol :: ·)

/-- What a line says besides its remark. -/
def content (line : String) : String := Text.trim (Text.before '#' line)

/-- The digits of a line that says a name and digits. -/
def digits? (line : String) : Option String :=
  match Text.fields (content line) with
  | [_, address] => if address.toList.all Text.isDigit then some address else none
  | _ => none

/-- What reading lines asks of a host: to read the addresses, up to the first line that fails. -/
def demandsOf (number : Nat) : List String → List Demand
  | [] => []
  | line :: rest =>
    let address := (digits? line).map fun digits => .numeral (Text.decimalDigits .decimal digits)
    let later := if (readLine number line).isOk then demandsOf (number + 1) rest else []
    address.toList ++ later

/-- What reading a symbol file asks of a host. -/
def demands (text : String) : List Demand := demandsOf 1 (Text.lines text)

/-- Reads a symbol file. -/
def read (text : String) : Except Error SymbolTable := readLines 1 (Text.lines text)

end NineBit.SymbolFile
