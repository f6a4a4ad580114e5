import WasmBindings.Documents
import WasmBindings.Workspace.Session

namespace WasmBindings

/-- Settings of a front end; `maxOutput` is the greatest number of characters that is still read. -/
structure FrontEnd where
  includeDir : String
  compilers : List String
  standard : String
  maxOutput : Int
  tempStem : String

namespace FrontEnd

def defaultCompilers : List String := ["clang++", "clang"]

def defaultStandard : String := "c++17"

def defaultMaxOutput : Int := 128 * 1024 * 1024

def defaultTempStem : String := "bindgen-"

def orDefault (compilers : List String) : List String :=
  if compilers.isEmpty then defaultCompilers else compilers

def logSource : String := "embind_gen.clang_ast"

def filterArgs : Option String → List String
  | none => []
  | some f => if f == "" then [] else ["-Xclang", "-ast-dump-filter=" ++ f]

def command (fe : FrontEnd) (compiler source : String) (filter : Option String) : List String :=
  [compiler, "-std=" ++ fe.standard, "-I", fe.includeDir, "-fsyntax-only"] ++ filterArgs filter
    ++ ["-Xclang", "-ast-dump=json", source]

def accept (fe : FrontEnd) (compiler source : String) : CompilerReply → Except String Json
  | .unavailable reason => .error ("compiler " ++ compiler ++ " unavailable: " ++ reason)
  | .crashed reason => .error reason
  | .exited status output =>
    if status ≠ 0 then
      .error (compiler ++ " exited with " ++ toString status ++ " for " ++ source)
    else if fe.maxOutput < output.length then
      .error (compiler ++ " output exceeds " ++ toString fe.maxOutput ++ " bytes for " ++ source)
    else match Documents.parse output with
      | some tree => .ok tree
      | none => .error ("unparsable AST output from " ++ compiler ++ " for " ++ source)

def dumpWith (fe : FrontEnd) (source : String) (filter : Option String) :
    List String → Session (Option Json)
  | [] => do
    Session.log .debug logSource ("no compiler produced an AST for " ++ source)
    return none
  | compiler :: rest => do
    match ← Session.runCompiler (fe.command compiler source filter) with
    | .crashed reason => throw (.crash reason)
    | reply =>
      match fe.accept compiler source reply with
      | .ok tree => return some tree
      | .error reason =>
        Session.log .debug logSource reason
        dumpWith fe source filter rest

def dumpFile (fe : FrontEnd) (source : String) (filter : Option String) : Session (Option Json) :=
  fe.dumpWith source filter fe.compilers

def dumpText (fe : FrontEnd) (text : String) (filter : Option String) : Session (Option Json) :=
  Session.withTemp fe.tempStem fun dir => do
    let source := Path.join dir "probe.cpp"
    Session.writeFile source text
    fe.dumpFile source filter

end FrontEnd

end WasmBindings
