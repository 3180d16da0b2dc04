import NineBit.Text.Blank

/-!
# Places in a source text

Lines and columns count from one. A `Span` runs from its first character to the place just past
its last one, and carries the text it points into, so that a message can show the line.
-/

namespace NineBit

/-- A line and a column. -/
structure Position where
  line : Int
  column : Int
  deriving Repr, DecidableEq, Inhabited

namespace Position

/-- The first place of a text. -/
def first : Position := ⟨1, 1⟩

/-- The place after a character: a newline opens the next line. -/
def after (p : Position) (c : Char) : Position :=
  if c = '\n' then ⟨p.line + 1, 1⟩ else ⟨p.line, p.column + 1⟩

/-- The place after some characters. -/
def afterAll (p : Position) (chars : List Char) : Position := chars.foldl after p

/-- The place as `line:column`. -/
def text (p : Position) : String := s!"{p.line}:{p.column}"

theorem afterAll_append (p : Position) (xs ys : List Char) :
    p.afterAll (xs ++ ys) = (p.afterAll xs).afterAll ys := by
  simp [afterAll, List.foldl_append]

end Position

/-- A named source text. -/
structure Source where
  name : String
  text : String
  deriving Repr, DecidableEq, Inhabited

/-- The name of a text that came from no file. -/
def Source.unnamed : String := "<input>"

/-- A range of a source text. -/
structure Span where
  start : Position
  stop : Position
  source : Source
  deriving Repr, DecidableEq, Inhabited

namespace Span

/-- From the start of one span to the end of another. -/
def through (first last : Span) : Span := ⟨first.start, last.stop, first.source⟩

/-- Where the span starts, as `name:line:column`. -/
def place (s : Span) : String := s!"{s.source.name}:{s.start.text}"

/-- Both ends of the span. -/
def range (s : Span) : String := s!"{s.start.text}-{s.stop.text}"

/-- The line that the span starts on; empty if the text has no such line. -/
def lineText (s : Span) : String :=
  let index := s.start.line - 1
  if index < 0 then "" else (Text.newlines s.source.text)[index.toNat]?.getD ""

end Span

end NineBit
