import WasmBindings.Json.Printer
import WasmBindings.Json.Reader
import WasmBindings.Workspace.Session

/-!
Workspaces described by JSON.  `files` gives the files below the source directory by path: a text,
an object whose `hex` spells the bytes, or null for a link that leads nowhere.  `runs` is the
script that the compiler follows.
-/

namespace WasmBindings

namespace Content

def bytesOfHex : List Char → List Nat
  | a :: b :: r =>
    ((Json.hexValue? a).getD 0 * 16 + (Json.hexValue? b).getD 0) :: bytesOfHex r
  | _ => []

@[simp] theorem length_bytesOfHex (s : List Char) : (bytesOfHex s).length = s.length / 2 := by
  fun_induction bytesOfHex s with
  | case1 a b r ih =>
    simp only [List.length_cons, ih]
    omega
  | case2 s h =>
    match s, h with
    | [], _ => simp
    | [_], _ => simp
    | a :: b :: r, h => exact absurd rfl (h a b r)

end Content

def Json.textField? (v : Json) (key : String) : Option String := (v.field? key).bind Json.text?

def Content.ofJson? : Json → Option Content
  | .null => none
  | .str s => some (.text s)
  | v => some (.bytes (Content.bytesOfHex ((v.textField? "hex").getD "").toList))

namespace FileTree

def sourceDir : String := "src"

def putSource (t : FileTree) (path : String) :
    Option Content → FileTree × Except Fault Unit
  | some c => t.write (Path.below sourceDir path) c
  | none => t.link (Path.below sourceDir path)

def bare : FileTree := [([sourceDir], .directory), ([Workspace.tempRoot], .directory)]

def ofJson : Json → Except Fault FileTree
  | .obj fields => fields.foldlM (fun t f =>
      let (t, outcome) := t.putSource f.1 (Content.ofJson? f.2)
      outcome.map fun () => t) bare
  | _ => .ok bare

end FileTree

def CompilerReply.ofJson (v : Json) : CompilerReply :=
  match v.textField? "missing", v.textField? "oserror", v.textField? "boom" with
  | some reason, _, _ => .unavailable reason
  | none, some reason, _ => .unavailable reason
  | none, none, some reason => .crashed reason
  | none, none, none =>
    let status := match v.field? "exit" with
      | some (.int n) => n
      | _ => 0
    .exited status (match v.field? "ast" with
      | some tree => tree.render
      | none => (v.textField? "stdout").getD "")

def CompilerRule.ofJson (v : Json) : CompilerRule :=
  ⟨v.textField? "compiler", v.textField? "filter", v.textField? "contains", .ofJson v⟩

def Compiler.ofJson : Json → Compiler
  | .arr rules => .scripted (rules.map .ofJson)
  | _ => .scripted []

def Workspace.ofJson (workingDir : List String) (v : Json) : Except Fault Workspace := do
  let files ← FileTree.ofJson ((v.field? "files").getD .null)
  return .ofFiles files (.ofJson ((v.field? "runs").getD .null)) workingDir

end WasmBindings
