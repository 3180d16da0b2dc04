import NineBit.Cli.Arguments
import NineBit.Cli.Files
import NineBit.Image

/-!
# Values of options

An option that was not given has no value; one whose value is not of its kind makes the whole
command line a wrong one, which is the outer `none` below. Of an option that is given several times
only the last value counts, and only that one is checked.
-/

namespace NineBit.Cli.Arguments

/-- The value of an option, checked. -/
def checked? {α : Type} (a : Arguments) (name : String) (check : String → Option α) :
    Option (Option α) :=
  match a.value? name with
  | none => some none
  | some text => (check text).map some

/-- An integer that is not below a bound, and has no more digits than usual hosts read. -/
def integer? (a : Arguments) (name : String) (least : Int) : Option (Option Int) :=
  a.checked? name fun text =>
    if Text.decimalDigits .decimal text ≤ Host.usual.digits then
      (Text.readInt? .decimal text).filter (least ≤ ·)
    else none

/-- The name of an image form. -/
def format? (a : Arguments) (name : String) : Option (Option ImageFormat) :=
  a.checked? name ImageFormat.ofName?

/-- The path of a file to be written, at which there is no directory. -/
def output? (a : Arguments) (files : Files) (name : String) : Option (Option Path) :=
  a.checked? name fun text => if files.isDirectory text then none else some (.ofString text)

/-- The path of a file to be read. -/
def existing? (files : Files) (text : String) : Option Path :=
  if files.isFile text then some (.ofString text) else none

/-- The path of the one file that a tool works on. -/
def input? (a : Arguments) (files : Files) : Option Path :=
  match a.words with
  | [text] => existing? files text
  | _ => none

end NineBit.Cli.Arguments
