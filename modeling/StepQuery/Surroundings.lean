import StepQuery.Value

/-!
What a command sees of the machine: the files it may read, the variables of the environment and the
directory it works in.  Reading is an effect in some monad; a machine that is held in memory needs
none.
-/

namespace StepQuery

inductive Entry where
  | missing
  /-- Something that is no readable file, such as a directory. -/
  | unreadable
  | file (content : List Char)

structure Surroundings (m : Type → Type) where
  directory : String
  entry : String → m Entry
  environment : String → m (Option String)

namespace Path

/-- The parts of a path between its slashes. -/
def parts (path : List Char) : List (List Char) := Text.pieces '/' path

def isSelf (part : List Char) : Bool := part == [] || part == ['.']

def isParent (part : List Char) : Bool := part == ['.', '.']

/-- Follow one part from a place, whose innermost part comes first.  Nothing lies above the root,
and a place that is not rooted may begin with steps upwards. -/
def follow (rooted : Bool) (place : List (List Char)) (part : List Char) : List (List Char) :=
  if isSelf part then place
  else if isParent part then
    match place with
    | [] => if rooted then [] else [part]
    | inner :: outer => if isParent inner then part :: inner :: outer else outer
  else part :: place

/-- The shortest path that leads to the same place. -/
def clean (path : List Char) : List Char :=
  let rooted := path.head? == some '/'
  let found := ((parts path).foldl (follow rooted) []).reverse
  let joined := List.intercalate ['/'] found
  if rooted then '/' :: joined else if joined.isEmpty then ['.'] else joined

/-- The path of a file seen from everywhere.  A single dash is not the name of a file. -/
def absolute (directory path : String) : String :=
  if path == "-" || path.toList.head? == some '/' then path
  else String.ofList (clean (directory.toList ++ '/' :: path.toList))

end Path

namespace Surroundings

/-- The parts of a path inside a directory; `none` when it leads elsewhere. -/
def inside? (directory path : List Char) : Option (List (List Char)) :=
  if path.isEmpty then none
  else if path == directory then some []
  else if (directory ++ ['/']).isPrefixOf path then
    some (Path.parts (path.drop (directory.length + 1)))
  else if path.head? == some '/' then none
  else some (Path.parts path)

/-- Walk from a place in a directory whose files are given by the parts of their paths. -/
def walk (files : List (List (List Char) × List Char)) :
    (place : List (List Char)) → List (List Char) → Entry
  | place, [] =>
    match files.find? fun file => file.1 == place with
    | some (_, content) => .file content
    | none => .unreadable
  | place, part :: rest =>
    if files.any fun file => file.1 == place then .unreadable
    else if Path.isSelf part then walk files place rest
    else if Path.isParent part then
      if place.isEmpty then .missing else walk files place.dropLast rest
    else if files.any fun file => (place ++ [part]).isPrefixOf file.1 then
      walk files (place ++ [part]) rest
    else .missing

/-- A machine held in memory: the files below a directory and the variables of the environment. -/
def ofFiles (directory : String) (files environment : Fields String) : Surroundings Id where
  directory := directory
  entry path :=
    match inside? directory.toList path.toList with
    | none => .missing
    | some parts =>
      walk (files.map fun file => (Path.parts file.1.toList, file.2.toList)) [] parts
  environment name := Fields.get? environment name

end Surroundings

end StepQuery
