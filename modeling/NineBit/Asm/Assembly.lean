import NineBit.Asm.Expansion
import NineBit.Asm.Layout
import NineBit.Asm.Lexer
import NineBit.Asm.Resolution
import NineBit.SymbolFile

/-!
# Assembly

An assembly takes a source text through its stages and ends with a log and, if the log has no
problem, with an image (`Assembly.ofSource`). On a host it ends early where the host does not meet a
demand (`Assembly.onHost`). The listing and the symbol file show an image to a reader.
-/

namespace NineBit.Asm

/-- The outcome of an assembly. -/
structure Assembly where
  log : Log
  output : Option Output
  /-- The log filled up, and the assembly broke off. -/
  stopped : Bool
  fault : Option LayoutFault

namespace Assembly

/-- No assembly yet. -/
def initial : Assembly := ⟨.empty, none, false, none⟩

/-- The stages from a source text to a parsed program. -/
def program (maxLiteralDepth : Int) (source : Source) : Report Program := do
  let lexed ← lex source
  Report.tell (.milestone (.lexed lexed.tokens.length lexed.macros.length))
  let tokens ← expand lexed.macros lexed.tokens
  Report.tell (.milestone (.expanded tokens.length))
  let p ← parse maxLiteralDepth tokens
  Report.tell (.milestone (.parsed p.statements.size p.labels.length p.references.length))
  return p

/-- The assembly of what the stages up to parsing have come to. A program with problems is not laid
    out. -/
def ofParsed (config : Config) : Option Program × Log → Assembly
  | (none, log) => ⟨log, none, true, none⟩
  | (some p, log) =>
    if log.hasProblems then ⟨log, none, false, none⟩
    else
      match (layout config.wordBits config.memorySize p).run config.maxErrors log with
      | (none, log) => ⟨log, none, true, none⟩
      | (some (.error fault), log) => ⟨log, none, false, some fault⟩
      | (some (.ok output), log) =>
        ⟨log, if log.hasProblems then none else some output, false, none⟩

/-- Assembles a source text. -/
def ofSource (config : Config) (source : Source) : Assembly :=
  ofParsed config ((program config.maxLiteralDepth source).run config.maxErrors .empty)

/-- Assembles a source text on a host. A demand that the host does not meet ends the assembly with
    what has been reported before it. -/
def onHost (host : Host) (config : Config) (source : Source) : Except (Crash × Log) Assembly :=
  ((program config.maxLiteralDepth source).runOn host config.maxErrors .empty).map (ofParsed config)

/-- The one-line account of a failure. -/
def failureSummary (a : Assembly) : String :=
  s!"assembly failed with {Diagnostic.count a.log.problems.size}"

/-- The problem of asking for an image that there is none of. -/
def noOutput : Diagnostic := ⟨.general, "no assembled output available", none, none⟩

end Assembly

namespace Output

/-- The words of the image as integers. -/
def integers (o : Output) : List Int := o.words.toList.map fun (w : Nat) => (w : Int)

/-- The source shown for a statement: a label for data, and else the line the statement is on. -/
def sourceShown (s : Statement) : String :=
  match s.body, s.label with
  | .constant _, some label => s!"{label.display}: <data>"
  | .constant _, none => "<data>"
  | _, _ => Text.trim s.span.lineText

/-- The rows of a listing: each address with a statement, and the words up to the next one. -/
def rows (o : Output) : List (Nat × Nat × List Nat) :=
  let starts := o.addressStatements
  let stops := (starts.map (·.1)).drop 1 ++ [o.words.size]
  (starts.zip stops).map fun entry =>
    (entry.1.1, entry.1.2, (o.words.extract entry.1.1 entry.2).toList)

/-- A row of a listing as a line. -/
def rowText (o : Output) (bits : Nat) (row : Nat × Nat × List Nat) : String :=
  let (address, id, words) := row
  let digits := words.map fun (w : Nat) => Text.writeInt 16 (Text.hexWidth bits) w
  let shown := Text.padRight 12 (" ".intercalate digits)
  let place := Text.writeInt 10 4 address
  match o.program.statements[id]? with
  | none => s!"{place}  {shown}"
  | some s =>
    let line := Text.padLeft 4 s!"{s.span.start.line}"
    s!"{place}  {shown}  {line}  {sourceShown s}"

/-- A line of a character. -/
def ruler (c : Char) (width : Nat) : String := String.ofList (List.replicate width c)

/-- The listing: addresses, words and source lines, and then the symbols. -/
def listing (o : Output) (bits : Nat) : String :=
  let head :=
    ["S9B Assembler Listing", ruler '=' 60, "", "Addr  Words         Line  Source", ruler '-' 60]
  let symbols := o.sortedSymbols.map fun entry => s!"{Text.padRight 20 entry.1} = {entry.2}"
  "\n".intercalate
    (head ++ o.rows.map (o.rowText bits) ++ ["", "Symbol Table", ruler '-' 30] ++ symbols)

/-- What writing the listing asks of a host: the fields of its words. -/
def listingDemands (o : Output) (bits : Nat) : List Demand :=
  if o.rows.any fun row => !row.2.2.isEmpty then [.field (Text.hexWidth bits)] else []

/-- The symbol file of an image. -/
def symbolFile (o : Output) : String := SymbolFile.write o.sortedSymbols

end Output

end NineBit.Asm
