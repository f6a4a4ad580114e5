import WasmBindings.Text.Case
import WasmBindings.Text.Run
import WasmBindings.Workspace.FileTree

namespace WasmBindings.HeaderSearch

open Text

def headerEndings : List (List Char) := [".h".toList, ".hpp".toList, ".hxx".toList]

def isHeader (path : String) : Bool :=
  headerEndings.any (·.isSuffixOf (lower (Path.baseChars path.toList)))

def mayDeclare (token text : List Char) : Bool :=
  occursIn token text && occursIn "enum".toList text && hasBounded token none text

def isCandidate (token : String) (file : String × FileNode) : Bool :=
  match file.2 with
  | .file c => isHeader file.1 && mayDeclare token.toList (unifyLineEnds c.read.toList)
  | _ => false

def comesBefore (a b : String) : Bool :=
  a.length < b.length || (a.length == b.length && decide (a ≤ b))

def candidates (files : FileTree) (root token : String) : List String :=
  (((files.listFiles root).filter (isCandidate token)).map Prod.fst).mergeSort comesBefore

def search (files : FileTree) (root token : String) : Except Fault (List String) :=
  if Path.holdsNull root then .error .unusablePath else .ok (candidates files root token)

end WasmBindings.HeaderSearch
