import WasmBindings.Config.Basic
import WasmBindings.Emit.ApiClass
import WasmBindings.Emit.NativeWrapper
import WasmBindings.Emit.RawInterface

namespace WasmBindings.Emit

def systemIncludes : List String := ["cstdint", "memory", "string", "type_traits", "vector"]

def usings (config : ClassConfig) : List String :=
  (if config.namespaceName == "" then [] else [config.namespaceName ++ "::" ++ config.className])
    ++ config.cppUsings

def includeLines (config : ClassConfig) : List String :=
  banner ++ [""]
    ++ systemIncludes.map (fun i => "#include <" ++ i ++ ">")
    ++ ["", "#include <emscripten/bind.h>", "#include <emscripten/val.h>", "",
        "#include \"" ++ Path.baseName config.header ++ "\"", ""]

def usingLines (config : ClassConfig) : List String :=
  match usings config with
  | [] => []
  | names => names.map (fun n => "using " ++ n ++ ";") ++ [""]

def cppFile (config : ClassConfig) (c : Converter) (methods : List Method) : String :=
  let w := (Writer.new "  ").linesOf (includeLines config)
  let w := w.linesOf (["namespace \x7b", ""] ++ usingLines config)
  let w := (w.raw NativeWrapper.preamble).line ""
  let w := config.valueConversions.foldl (fun w v => (w.raw v).line "") w
  let w := NativeWrapper.wrappers c config.className methods w
  let w := w.linesOf ["\x7d  // namespace", ""]
  ((NativeWrapper.registration config.className config.bindingsName methods w).line "").output

/-- The files by path.  Where two paths are the same, the later file takes the earlier one's
place. -/
def files (config : ClassConfig) (workingDir : List String) (methods : List Method)
    (data : Metadata) : Except Fault (Table String String) := do
  let c := config.converter.withEnums data.table
  let names : ApiClass.Names :=
    ⟨config.apiClassName, config.interfaceName, ← config.interfaceModule workingDir⟩
  let api ← ApiClass.render c data names config.ignores methods
  return Table.ofList
    [(config.cppOutput, cppFile config c methods),
      (config.interfaceOutput, RawInterface.render c data config.interfaceName methods),
      (config.apiOutput, api)]

end WasmBindings.Emit
