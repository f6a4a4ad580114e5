import WasmBindings.Fault
import WasmBindings.Path
import WasmBindings.Table
import WasmBindings.Text.Utf8

/-!
A tree of files.  A location is the list of names that leads to a file from the working
directory; names of two dots at its start lead out of the working directory, and a leading slash
stands for the root of absolute paths.
-/

namespace WasmBindings

inductive Content where
  | text (s : String)
  | bytes (bytes : List Nat)

def Content.read : Content → String
  | .text s => s
  | .bytes bs => String.ofList (Text.decodeUtf8 bs)

inductive FileNode where
  | directory
  | file (content : Content)
  | danglingLink

abbrev Location := List String

abbrev FileTree := Table Location FileNode

namespace FileTree

def rootName : String := "/"

/-- Directories that are there whatever the tree holds: the working directory, those above it,
and the root. -/
def isGiven (here : Location) : Bool := here.all (· == "..") || here == [rootName]

def isDirectory (t : FileTree) (here : Location) : Bool :=
  isGiven here || (match t.get? here with
    | some .directory => true
    | _ => false)

def up (here : Location) : Location :=
  if here == [rootName] then here
  else if here.all (· == "..") then here ++ [".."]
  else here.dropLast

def step (here : Location) (name : String) : Location :=
  if name == "." then here else if name == ".." then up here else here ++ [name]

def start (path : String) : Location := if Path.isAbsolute path then [rootName] else []

def endsInSlash (path : String) : Bool := path.toList.getLast? == some '/'

def pathNames (path : String) : List String :=
  Path.components path ++ (if endsInSlash path then ["."] else [])

/-- Walks a path down the tree.  Every name but the last has to be a directory, and a link leads
nowhere. -/
def locateFrom (t : FileTree) (here : Location) : List String → Option Location
  | [] =>
    if t.isDirectory here then some here
    else match t.get? here with
      | some (.file _) => some here
      | _ => none
  | n :: rest => if t.isDirectory here then locateFrom t (step here n) rest else none

def locate (t : FileTree) (path : String) : Option Location :=
  if path == "" then none else locateFrom t (start path) (pathNames path)

def pathExists (t : FileTree) (path : String) : Bool := (t.locate path).isSome

def readText? (t : FileTree) (path : String) : Option String :=
  match (t.locate path).bind t.get? with
  | some (.file c) => some c.read
  | _ => none

def filesBelow (t : FileTree) (dir : Location) : List (Location × FileNode) :=
  t.filterMap fun (here, node) =>
    match node with
    | .directory => none
    | node => if dir.isPrefixOf here then some (here.drop dir.length, node) else none

def listFiles (t : FileTree) (dir : String) : List (String × FileNode) :=
  match t.locate dir with
  | some here =>
    if t.isDirectory here then
      (t.filesBelow here).map fun (names, node) =>
        (Path.join dir (String.intercalate "/" names), node)
    else []
  | none => []

def checkName (name : String) : Except Fault Unit :=
  if Path.holdsNull name then .error .unusablePath
  else if 255 < name.utf8ByteSize then .error .nameTooLong
  else .ok ()

def obstacle (isLast : Bool) : FileNode → Fault
  | .directory => .isDirectory
  | .file _ => if isLast then .fileExists else .notDirectory
  | .danglingLink => if isLast then .fileExists else .missingFile

/-- Makes the directories that are missing on the way, and returns where the way ends.  What was
made before a fault stays. -/
def makeFrom (t : FileTree) (here : Location) : List String → FileTree × Except Fault Location
  | [] => (t, .ok here)
  | n :: rest =>
    let next := step here n
    if t.isDirectory next then makeFrom t next rest
    else match t.get? next, checkName n with
      | some node, _ => (t, .error (obstacle rest.isEmpty node))
      | none, .error f => (t, .error f)
      | none, .ok () => makeFrom (t ++ [(next, .directory)]) next rest

def makeDirs (t : FileTree) (path : String) : FileTree × Except Fault Location :=
  t.makeFrom (start path) (Path.components path)

def makeNewDir (t : FileTree) (path : String) : FileTree × Except Fault Location :=
  match t.makeDirs path with
  | (made, .ok here) => (made, if t.isDirectory here then .error .fileExists else .ok here)
  | (made, .error f) => (made, .error f)

def enter (t : FileTree) (path : String) (objection : FileTree → Location → Option Fault)
    (node : FileNode) : FileTree × Except Fault Unit :=
  match t.makeDirs (Path.dirName path) with
  | (t, .error f) => (t, .error f)
  | (t, .ok dir) =>
    let name := Path.baseName path
    match checkName name, objection t (if name == "" then dir else step dir name) with
    | .error f, _ => (t, .error f)
    | .ok (), some f => (t, .error f)
    | .ok (), none => (t.insert (dir ++ [name]) node, .ok ())

def write (t : FileTree) (path : String) (content : Content) : FileTree × Except Fault Unit :=
  if path == "" then (t, .error .missingFile)
  else t.enter path (fun t here => if t.isDirectory here then some .isDirectory else none)
    (.file content)

def link (t : FileTree) (path : String) : FileTree × Except Fault Unit :=
  t.enter path
    (fun t here => if t.isDirectory here || t.contains here then some .fileExists else none)
    .danglingLink

def needDirectory (t : FileTree) (here : Location) : Except Fault Unit :=
  if t.isDirectory here then .ok ()
  else match t.get? here with
    | some node => .error (obstacle false node)
    | none => .error .missingFile

def walkFrom (t : FileTree) (here : Location) : List String → Except Fault Location
  | [] => do
    t.needDirectory here
    return here
  | n :: rest => do
    t.needDirectory here
    checkName n
    walkFrom t (step here n) rest

def delete (t : FileTree) (path : String) : Except Fault FileTree := do
  if Path.holdsNull path then throw .unusablePath
  let dir ← t.walkFrom (start path) (Path.components path).dropLast
  let name := (Path.components path).getLastD "."
  checkName name
  let here := step dir name
  if t.isDirectory here then throw .isDirectory
  else if !t.contains here then throw .missingFile
  else if endsInSlash path then throw .notDirectory
  else return t.filter fun e => e.1 != here

def removeTree (t : FileTree) (dir : Location) : FileTree :=
  t.filter fun e => !dir.isPrefixOf e.1

end FileTree

end WasmBindings
