import NineBit.Cli.Tool

/-!
# The command line

The first argument names a tool, the others are the tool's. What the arguments may refer to is read
before the tool runs, and what it changed is written afterwards.
-/

namespace NineBit.Cli

/-- What is at a path on disk. -/
def nodeOnDisk (path : String) : IO (Option Node) := do
  try
    let bytes ← IO.FS.readBinFile path
    return some (.file bytes.toList)
  catch _ =>
    try
      let real ← IO.FS.realPath path
      if ← real.isDir then return some .directory else return none
    catch _ => return none

/-- The texts in an argument that may be paths. -/
def pathsIn (argument : String) : List String :=
  let characters := argument.toList
  [argument, (Arguments.splitLong characters).2.getD "", String.ofList (characters.drop 2)]

/-- The paths on the way to a path, and the path itself. -/
def wayTo (path : String) : List String :=
  let parts := Text.parts '/' path
  (List.range parts.length).map fun n => "/".intercalate (parts.take (n + 1))

/-- Adds what is on disk on the way to a path. -/
def look (files : Files) (path : String) : IO Files := do
  let mut files := files
  for step in wayTo path do
    if let .ok place := files.place step then
      if !Files.isBase place then
        if let some node := ← nodeOnDisk step then
          files := files.put place node
  return files

/-- The environment variables that settings come from. -/
def settingNames : List String :=
  ["S9B_WORD_BITS", "S9B_MEMORY_SIZE", "S9B_MAX_TICKS", "S9B_MAX_ERRORS"]

/-- Runs a tool on disk. -/
def runOnDisk (tool : Tool) (arguments : List String) : IO UInt32 := do
  let mut files := Files.empty
  for argument in arguments do
    for path in pathsIn argument do
      files ← look files path
  let mut environment : List (String × String) := []
  for name in settingNames do
    if let some value := ← IO.getEnv name then
      environment := (name, value) :: environment
  let outcome := tool.execute (fun name => environment.lookup name) files arguments
  for (path, bytes) in files.changes outcome.files do
    IO.FS.writeBinFile path ⟨bytes.toArray⟩
  IO.print outcome.out
  IO.eprint outcome.err
  if outcome.misused then
    IO.eprintln tool.usage
    IO.eprintln s!"Try '{tool.name} --help' for help."
  return outcome.status.toUInt32

end NineBit.Cli

/-- Runs the tool that the first argument names. -/
def main (arguments : List String) : IO UInt32 := do
  match arguments with
  | [] =>
    IO.eprintln "Name a tool: s9basm, s9brun or s9bdisasm"
    return 2
  | name :: rest =>
    match NineBit.Cli.Tool.ofName? name with
    | some tool => NineBit.Cli.runOnDisk tool rest
    | none =>
      IO.eprintln s!"There is no tool {name}; name s9basm, s9brun or s9bdisasm"
      return 2
