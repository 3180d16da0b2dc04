import NineBit.Text.Blank

/-!
# Paths of files

A path is its components. Empty components and single dots do not count; an absolute path starts
with one slash, or with two if it is written with exactly two. The suffix of a file's name starts
at its last dot, unless that is the first or the last character of the name.
-/

namespace NineBit

/-- A path: the slashes it starts with, and its components. -/
structure Path where
  root : String
  components : List String
  deriving Repr, DecidableEq, Inhabited

namespace Path

/-- The path of a text. -/
def ofString (text : String) : Path :=
  let slashes := (text.toList.takeWhile (· == '/')).length
  { root := if slashes = 0 then "" else if slashes = 2 then "//" else "/"
    components := (Text.parts '/' text).filter fun part => !part.isEmpty && part != "." }

/-- The text of a path; an empty one is the current directory. -/
def text (p : Path) : String :=
  if p.root.isEmpty && p.components.isEmpty then "." else p.root ++ "/".intercalate p.components

/-- The last component. -/
def name (p : Path) : String := p.components.getLast?.getD ""

/-- A file name cut into its stem and its suffix. -/
def cutSuffix (name : List Char) : List Char × List Char :=
  let suffix := name.reverse.takeWhile (· != '.')
  let stem := (name.reverse.drop (suffix.length + 1)).reverse
  if suffix.isEmpty || stem.isEmpty then (name, []) else (stem, '.' :: suffix.reverse)

/-- The suffix of the name, with its dot; empty if there is none. -/
def suffix (p : Path) : String := String.ofList (cutSuffix p.name.toList).2

/-- The path with another suffix in place of its own; none if the path has no name. -/
def withSuffix? (p : Path) (suffix : String) : Option Path :=
  if p.name.isEmpty then none
  else
    let stem := String.ofList (cutSuffix p.name.toList).1
    some { p with components := p.components.dropLast ++ [stem ++ suffix] }

end Path

end NineBit
