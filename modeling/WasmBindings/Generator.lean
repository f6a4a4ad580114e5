import WasmBindings.Emit.Files
import WasmBindings.Metadata.Build

namespace WasmBindings

structure Generator where
  sourceRoot : String
  outputRoot : String
  compilers : List String
  standard : String
  tempStem : String
  maxOutput : Int
  classes : Table String ClassConfig

namespace Generator

def new (sourceRoot outputRoot : String) (compilers : List String) : Generator :=
  ⟨sourceRoot, outputRoot, FrontEnd.orDefault compilers, FrontEnd.defaultStandard,
    FrontEnd.defaultTempStem, FrontEnd.defaultMaxOutput, []⟩

def bind (g : Generator) (name : String) : Generator :=
  { g with classes := g.classes.insertNew name (.new name) }

def config (g : Generator) (name : String) : ClassConfig :=
  (g.classes.get? name).getD (.new name)

def configure (g : Generator) (name : String) (change : ClassConfig → ClassConfig) : Generator :=
  { g with classes := g.classes.insert name (change (g.config name)) }

def frontEnd (g : Generator) : FrontEnd :=
  ⟨g.sourceRoot, g.compilers, g.standard, g.maxOutput, g.tempStem⟩

def logSource : String := "embind_gen.generator"

def methodLogSource : String := "embind_gen.methods"

def classProbe (header : String) : String :=
  "#include \"" ++ header ++ "\"\nint main() \x7b return 0; \x7d\n"

def classFault (message header : String) : Fault :=
  .diagnosed ⟨.classNotFound, message, [("header", header)]⟩

def loadClass (fe : FrontEnd) (header name : String) : Session Json := do
  match ← fe.dumpText (classProbe header) (some name) with
  | none => throw (classFault ("Failed to parse " ++ name ++ " AST with clang") header)
  | some tree =>
    match ClassBody.find? tree name with
    | some cls => return cls
    | none =>
      throw (classFault ("Failed to locate " ++ name ++ " class definition in clang AST") header)

def loadMethods (config : ClassConfig) (cls : Json) : Session (List Method) := do
  Session.logAll .debug methodLogSource
    ((Method.skippedNames (Method.steps config.pathTypes cls)).map fun n =>
      "skipping " ++ n ++ ": unrecoverable return type")
  Session.ofExcept (Method.extract config.pathTypes cls)

def implementationPath (g : Generator) (config : ClassConfig) : Option String :=
  (config.implementation.filter (· != "")).map (Path.join g.sourceRoot)

def analyse (g : Generator) (name : String) : Session (List Method × Metadata) := do
  let config := g.config name
  let header := Path.join g.sourceRoot config.header
  let w ← get
  if !w.files.pathExists header then
    throw (.diagnosed ⟨.missingSource, "Missing " ++ name ++ " header: " ++ header,
      [("source_root", g.sourceRoot)]⟩)
  let includePath ← Session.ofExcept (Path.relative w.workingDir header g.sourceRoot)
  let cls ← loadClass g.frontEnd includePath name
  let methods ← loadMethods config cls
  Session.log .info logSource (name ++ ": " ++ toString methods.length ++ " public methods")
  let casts ← Casts.load g.frontEnd (g.implementationPath config) name methods
  let resolver : EnumResolver := ⟨g.frontEnd, g.sourceRoot, config.namespaceName⟩
  return (methods, ← Metadata.build config.converter (some resolver) casts cls methods)

def summary (methods : List Method) (data : Metadata) (outputs : Table String String) :
    List String :=
  ["Generated " ++ toString methods.length ++ " method bindings.",
    "Detected " ++ toString data.enums.length ++ " enum type map(s) and "
      ++ toString data.flags.length ++ " flag map(s)."]
    ++ (if data.unresolved.isEmpty then []
      else ["Unresolved enum candidates: " ++ Emit.commaList data.unresolved])
    ++ outputs.map fun f => "- " ++ f.1

def prepare (g : Generator) (name : String) : Session (Table String String × List String) := do
  let (methods, data) ← g.analyse name
  let w ← get
  let outputs ← Session.ofExcept (Emit.files (g.config name) w.workingDir methods data)
  return (outputs, summary methods data outputs)

def generateClass (g : Generator) (name : String) : Session (Table String String) := do
  let (outputs, lines) ← g.prepare name
  outputs.forM fun f => Session.writeFile (Path.join g.outputRoot f.1) f.2
  lines.forM Session.print
  return outputs

def title : String := "=== Generating embind bindings:"

def generateAll (g : Generator) : Session Unit := do
  Session.print title
  g.classes.keys.forM fun name => do
    let _ ← g.generateClass name

end Generator

end WasmBindings
