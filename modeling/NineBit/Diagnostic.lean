import NineBit.Source
import NineBit.Text.Distance

/-!
# Diagnostics

A problem found in a source text: what it is, where, and how it may be mended. Its wording has up
to four lines: place and message, the source line, a caret under the place, and the hint.
-/

namespace NineBit

/-- Which part of the toolchain a problem belongs to. -/
inductive Diagnostic.Kind where
  /-- The spelling of the text. -/
  | lexical
  /-- The use of macros. -/
  | expansion
  /-- The form of statements, labels and blocks. -/
  | grammar
  /-- The layout of the image. -/
  | linking
  /-- A reference to a label that no enclosing block has. -/
  | undefinedLabel
  /-- More problems than are wanted. -/
  | limit
  /-- Anything else. -/
  | general
  deriving Repr, DecidableEq

/-- A problem in a source text. -/
structure Diagnostic where
  kind : Diagnostic.Kind
  message : String
  span : Option Span
  hint : Option String
  deriving Repr, DecidableEq

namespace Diagnostic

/-- The source line of a span and, in columns from one on, the caret below it. A span into an empty
    text shows neither. -/
def excerpt (s : Span) : List String :=
  if s.source.text.isEmpty then []
  else
    let caret := String.ofList (List.replicate (3 + s.start.column).toNat ' ') ++ "^"
    ("    " ++ s.lineText) :: if 0 < s.start.column then [caret] else []

/-- The lines of the wording. -/
def wordingLines (d : Diagnostic) : List String :=
  let first :=
    match d.span with
    | some s => s!"{s.place}: error: {d.message}"
    | none => s!"error: {d.message}"
  let hint := (d.hint.filter (!·.isEmpty)).map ("hint: " ++ ·)
  first :: ((d.span.map excerpt).getD [] ++ hint.toList)

/-- The wording. -/
def wording (d : Diagnostic) : String := "\n".intercalate d.wordingLines

/-- A reference to a label that is not there. Without a hint of its own the problem names up to
    three similar labels. -/
def undefined (label : String) (span : Option Span) (hint : Option String)
    (similar : List String) : Diagnostic :=
  let own := hint.filter (!·.isEmpty)
  ⟨.undefinedLabel, s!"referenced label '{label}' not found", span,
    if own.isSome then own else (Text.suggestion (similar.take 3)).or hint⟩

/-- The problem of having found as many problems as are wanted. -/
def tooMany (limit : Int) : Diagnostic :=
  ⟨.limit, s!"Too many errors ({limit}), stopping", none, none⟩

/-- A count of problems in words. -/
def count (n : Nat) : String := if n = 1 then "1 error" else s!"{n} errors"

/-- The report on some problems: each followed by an empty line, and their number last. -/
def report (problems : List Diagnostic) : String :=
  "\n".intercalate ((problems.flatMap fun d => [d.wording, ""]) ++ [count problems.length])

end Diagnostic

end NineBit
