import NineBit.Text.Blank
import NineBit.Text.Quoted

/-!
# Files

What a tool sees of the files around it: a tree of directories and files. A path is walked part by
part from the working directory, or from the root if it starts with a slash; every part but the
last has to lead into a directory, and a path that ends in a slash has to end in one.
-/

namespace NineBit.Cli

/-- What is at a place. -/
inductive Node where
  | file (bytes : List UInt8)
  | directory
  deriving Repr, DecidableEq

/-- Why there is no getting at a file. -/
inductive FileFault where
  | missing
  | notDirectory
  | isDirectory
  deriving Repr, DecidableEq

/-- The wording of a fault at a path. -/
def FileFault.message (path : String) : FileFault → String
  | .missing => s!"[Errno 2] No such file or directory: {Text.quoted path}"
  | .notDirectory => s!"[Errno 20] Not a directory: {Text.quoted path}"
  | .isDirectory => s!"[Errno 21] Is a directory: {Text.quoted path}"

/-- A place: the parts that lead to it. The working directory has no part, the root is a single
    slash, and what is above the working directory starts with two dots. -/
abbrev Place := List String

/-- The files and directories by their places. The first entry for a place counts. -/
structure Files where
  entries : List (Place × Node)
  deriving Repr

namespace Files

/-- No file. -/
def empty : Files := ⟨[]⟩

/-- The places that are directories whatever is in them. -/
def isBase (place : Place) : Bool := place == ["/"] || place.all (· == "..")

/-- What is at a place. -/
def get? (files : Files) (place : Place) : Option Node :=
  if isBase place then some .directory else files.entries.lookup place

/-- Puts something at a place. -/
def put (files : Files) (place : Place) (node : Node) : Files :=
  ⟨(place, node) :: files.entries.filter fun entry => entry.1 != place⟩

/-- The place that a part leads to from a directory. -/
def enter (place : Place) (part : String) : Place :=
  if part.isEmpty || part == "." then place
  else if part == ".." then
    if place == ["/"] then place
    else if place.all (· == "..") then place ++ [".."]
    else place.dropLast
  else place ++ [part]

/-- Walks on from a place. -/
def walk (files : Files) (place : Place) : List String → Except FileFault Place
  | [] => .ok place
  | part :: rest =>
    match files.get? place with
    | none => .error .missing
    | some (.file _) => .error .notDirectory
    | some .directory => files.walk (enter place part) rest

/-- The place of a path, which may be free. -/
def place (files : Files) (path : String) : Except FileFault Place :=
  if path.isEmpty then .error .missing
  else files.walk (if path.toList.head? = some '/' then ["/"] else []) (Text.parts '/' path)

/-- What is at a path. -/
def find (files : Files) (path : String) : Except FileFault Node :=
  match files.place path with
  | .error fault => .error fault
  | .ok place =>
    match files.get? place with
    | none => .error .missing
    | some node => .ok node

/-- There is a file at a path. -/
def isFile (files : Files) (path : String) : Bool :=
  match files.find path with
  | .ok (.file _) => true
  | _ => false

/-- There is a directory at a path. -/
def isDirectory (files : Files) (path : String) : Bool :=
  match files.find path with
  | .ok .directory => true
  | _ => false

/-- The bytes of the file at a path. -/
def read (files : Files) (path : String) : Except FileFault (List UInt8) :=
  match files.find path with
  | .ok (.file bytes) => .ok bytes
  | .ok .directory => .error .isDirectory
  | .error fault => .error fault

/-- Writes the file at a path. -/
def write (files : Files) (path : String) (bytes : List UInt8) : Except FileFault Files :=
  match files.place path with
  | .error fault => .error fault
  | .ok place =>
    match files.get? place with
    | some .directory => .error .isDirectory
    | _ => .ok (files.put place (.file bytes))

/-- The path of a place. -/
def pathOf (place : Place) : String :=
  match place with
  | "/" :: parts => "/" ++ "/".intercalate parts
  | parts => "/".intercalate parts

/-- The files that are new or have other bytes than before, by their paths. -/
def changes (before after : Files) : List (String × List UInt8) :=
  after.entries.filterMap fun entry =>
    match entry.2 with
    | .directory => none
    | .file bytes =>
      if before.get? entry.1 = some (.file bytes) then none else some (pathOf entry.1, bytes)

/-- With a file at a place, and directories on the way there. -/
def withFile (files : Files) (place : Place) (bytes : List UInt8) : Files :=
  let above := (List.range place.length).map place.take
  let files := above.foldl
    (fun files place => if (files.get? place).isSome then files else files.put place .directory)
    files
  files.put place (.file bytes)

end Files

end NineBit.Cli
