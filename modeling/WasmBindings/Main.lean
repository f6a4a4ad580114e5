import WasmBindings.CommandLine
import WasmBindings.Workspace.Description

namespace WasmBindings.CommandLine

def textFiles (t : FileTree) : Table String String :=
  (t.filterMap fun (here, node) => match node with
    | .file c => some (String.intercalate "/" here, c.read)
    | _ => none).mergeSort fun a b => decide (a.1 ≤ b.1)

def report (w : Workspace) : Json :=
  .obj [("files", .obj ((textFiles w.files).map fun f => (f.1, .str f.2))),
    ("calls", .arr (w.calls.map fun c => .arr (c.command.map .str))),
    ("printed", .str w.printedText)]

def breakdown : Fault → String
  | .fieldless => "a node has no fields"
  | .unfit => "a node has a value of the wrong kind"
  | .unusablePath => "a path is empty or holds a null character"
  | .nameTooLong => "a file name is too long"
  | .crash text => text
  | .missingFile => "no such file"
  | .isDirectory => "a directory stands in the place of a file"
  | .notDirectory => "a file stands in the place of a directory"
  | .fileExists => "a file stands in the place of a directory"
  | .diagnosed d => d.text

structure Ending where
  status : Nat
  output : String
  errors : List String

def ending (root : String) (args : List String) (environment : Option String) (v : Json) :
    Ending :=
  match parse root args with
  | .error s => ⟨s.code, "", []⟩
  | .ok o =>
    match Workspace.ofJson [] v with
    | .error f => ⟨1, "", [breakdown f]⟩
    | .ok w =>
      let (result, w) := (run o environment).run.run w
      let shown := (shownLog o.verbose w.log).map LogRecord.line
      match result with
      | .ok status => ⟨status, (report w).render, shown⟩
      | .error f => ⟨1, (report w).render, shown ++ [breakdown f]⟩

end WasmBindings.CommandLine

open WasmBindings in
def main (args : List String) : IO UInt32 := do
  let text ← (← IO.getStdin).readToEnd
  match Json.read text.toList with
  | none =>
    IO.eprintln "standard input is no JSON value"
    return 1
  | some v =>
    let e := CommandLine.ending "." args (← IO.getEnv "CLANGPP") v
    IO.println e.output
    e.errors.forM fun line => IO.eprintln line
    return UInt32.ofNat e.status
