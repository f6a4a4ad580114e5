import WasmBindings.Fault
import WasmBindings.Text.Search

namespace WasmBindings.Path

open Text

def isAbsolute (path : String) : Bool := path.toList.head? == some '/'

def holdsNull (path : String) : Bool := path.toList.contains (Char.ofNat 0)

def join (base path : String) : String :=
  if isAbsolute path then path
  else if base == "" || base.toList.getLast? == some '/' then base ++ path
  else base ++ "/" ++ path

def below (dir path : String) : String := dir ++ "/" ++ path

def baseChars (s : List Char) : List Char := (s.reverse.takeWhile (· != '/')).reverse

def baseName (path : String) : String := String.ofList (baseChars path.toList)

def dirChars (s : List Char) : List Char :=
  let head := s.take (s.length - (baseChars s).length)
  if head.all (· == '/') then head else (head.reverse.dropWhile (· == '/')).reverse

def dirName (path : String) : String := String.ofList (dirChars path.toList)

/-- The last component without its extension: the last dot and what follows it, if something
other than dots comes before. -/
def stemChars (base : List Char) : List Char :=
  let beforeDot := (base.reverse.dropWhile (· != '.')).drop 1
  if beforeDot.all (· == '.') then base else beforeDot.reverse

def withoutExtension (path : String) : String :=
  let s := path.toList
  String.ofList (s.take (s.length - (baseChars s).length) ++ stemChars (baseChars s))

def components (path : String) : List String :=
  ((splitAt '/' path.toList).filter fun c => !c.isEmpty).map String.ofList

def resolveFrom : List String → List String → List String
  | here, [] => here
  | here, c :: r =>
    if c == "." then resolveFrom here r
    else if c == ".." then resolveFrom here.dropLast r
    else resolveFrom (here ++ [c]) r

def resolve (workingDir : List String) (path : String) : List String :=
  resolveFrom (if isAbsolute path then [] else workingDir) (components path)

def steps : List String → List String → List String
  | s :: start, t :: target =>
    if s == t then steps start target else List.replicate (start.length + 1) ".." ++ t :: target
  | start, target => List.replicate start.length ".." ++ target

def relative (workingDir : List String) (target start : String) : Except Fault String :=
  if target == "" then .error .unusablePath
  else
    match steps (resolve workingDir start) (resolve workingDir target) with
    | [] => .ok "."
    | cs => .ok (String.intercalate "/" cs)

end WasmBindings.Path
