/-!
# Command-line arguments

An argument is an option if it starts with a dash and has more characters. Options may stand before
and after the other arguments; two dashes alone end them. A long option takes its value after an
equals sign or as the next argument, a short one right after its letter or as the next argument, and
short options without values may share one dash. Of an option that is given several times, what is
done with the values is up to the reader.
-/

namespace NineBit.Cli

/-- An option: its long name, its letter if it has one, and whether it takes a value. -/
structure OptionForm where
  name : String
  letter : Option Char
  takesValue : Bool
  deriving Repr, DecidableEq

/-- An option that was given, with its value if it takes one. -/
structure Given where
  name : String
  value : Option String
  deriving Repr, DecidableEq

/-- The arguments sorted out: the options given and the other words, both in order. -/
structure Arguments where
  options : List Given
  words : List String
  deriving Repr, DecidableEq

namespace Arguments

/-- No argument. -/
def empty : Arguments := ⟨[], []⟩

/-- With an option before the others. -/
def option (a : Arguments) (name : String) (value : Option String) : Arguments :=
  { a with options := ⟨name, value⟩ :: a.options }

/-- With a word before the others. -/
def word (a : Arguments) (text : String) : Arguments := { a with words := text :: a.words }

/-- The option of a long name. -/
def long? (forms : List OptionForm) (name : String) : Option OptionForm :=
  forms.find? fun form => form.name == name

/-- The option of a letter. -/
def short? (forms : List OptionForm) (letter : Char) : Option OptionForm :=
  forms.find? fun form => form.letter == some letter

/-- The name of a long option without its dashes, and the value after an equals sign. -/
def splitLong (body : List Char) : String × Option String :=
  let name := body.takeWhile (· != '=')
  let rest := body.drop name.length
  (String.ofList name, if rest.isEmpty then none else some (String.ofList rest.tail))

/-- What an argument that starts with a dash stands for: options without a value, and maybe one
    last option with its value or without the value it takes. -/
structure Cluster where
  flags : List String
  last : Option (String × Option String)

/-- The options of letters behind one dash. -/
def cluster (forms : List OptionForm) : List Char → Option Cluster
  | [] => some ⟨[], none⟩
  | letter :: rest =>
    match short? forms letter with
    | none => none
    | some form =>
      if form.takesValue then
        let value := if rest.isEmpty then none else some (String.ofList rest)
        some ⟨[], some (form.name, value)⟩
      else (cluster forms rest).map fun more => { more with flags := form.name :: more.flags }

/-- The option behind two dashes. -/
def longOption (forms : List OptionForm) (body : List Char) : Option Cluster :=
  let (name, value) := splitLong body
  match long? forms name with
  | none => none
  | some form =>
    if form.takesValue then some ⟨[], some (form.name, value)⟩
    else if value.isSome then none
    else some ⟨[form.name], none⟩

/-- With flags before the options. -/
def flags (a : Arguments) (names : List String) : Arguments :=
  { a with options := names.map (fun name => ⟨name, none⟩) ++ a.options }

/-- Sorts arguments out. There is no result if an option is unknown, lacks its value or has one it
    does not take. -/
def parse (forms : List OptionForm) : List String → Option Arguments
  | [] => some .empty
  | argument :: rest =>
    let options (given : Option Cluster) : Option Arguments :=
      match given with
      | none => none
      | some ⟨names, none⟩ => (parse forms rest).map fun more => more.flags names
      | some ⟨names, some (name, some value)⟩ =>
        (parse forms rest).map fun more => (more.option name (some value)).flags names
      | some ⟨names, some (name, none)⟩ =>
        match rest with
        | [] => none
        | value :: rest =>
          (parse forms rest).map fun more => (more.option name (some value)).flags names
    match argument.toList with
    | ['-', '-'] => some { Arguments.empty with words := rest }
    | '-' :: '-' :: body => options (longOption forms body)
    | '-' :: letter :: letters => options (cluster forms (letter :: letters))
    | _ => (parse forms rest).map fun more => more.word argument

/-- The values of an option, in order. -/
def values (a : Arguments) (name : String) : List String :=
  a.options.filterMap fun given => if given.name == name then given.value else none

/-- The value of an option; the last one counts. -/
def value? (a : Arguments) (name : String) : Option String := (a.values name).getLast?

/-- An option was given. -/
def has (a : Arguments) (name : String) : Bool := a.options.any fun given => given.name == name

end Arguments

end NineBit.Cli
