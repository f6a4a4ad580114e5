import WasmBindings.Conversion
import WasmBindings.Path
import WasmBindings.Text.Case

namespace WasmBindings

structure ClassConfig where
  className : String
  namespaceName : String
  header : String
  implementation : Option String
  cppOutput : String
  interfaceOutput : String
  apiOutput : String
  interfaceName : String
  apiClassName : String
  bindingsName : String
  ignores : List String
  pathTypes : List String
  passthrough : List String
  qualifiedNames : Table String String
  cppUsings : List String
  valueConversions : List String

namespace ClassConfig

def new (name : String) : ClassConfig :=
  let small := String.ofList (Text.lower name.toList)
  ⟨name, "", name ++ ".h", some (name ++ ".cpp"), "generated/" ++ name ++ "Bindings.cpp",
    "src/generated/" ++ small ++ "-api.ts", "src/generated/" ++ small ++ "-wrapper.ts",
    name ++ "Api", name ++ "Wrapper", small ++ "_bindings", [], Spelling.defaultPathTypes, [], [],
    [], []⟩

def ignore (config : ClassConfig) (names : List String) : ClassConfig :=
  { config with ignores := config.ignores ++ names }

def converter (config : ClassConfig) : Converter :=
  ⟨config.namespaceName, config.className, config.pathTypes, config.passthrough,
    config.qualifiedNames, []⟩

def interfaceModule (config : ClassConfig) (workingDir : List String) : Except Fault String := do
  let dir := Path.dirName config.apiOutput
  let path ← Path.relative workingDir config.interfaceOutput (if dir == "" then "." else dir)
  let stem := Path.withoutExtension path
  return if stem.toList.head? == some '.' then stem else "./" ++ stem

end ClassConfig

end WasmBindings
