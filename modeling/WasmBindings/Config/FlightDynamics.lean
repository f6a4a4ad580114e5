import WasmBindings.Generator

namespace WasmBindings.FlightDynamics

def pathConversion : String :=
  String.intercalate "\n"
    ["inline std::string toJsValue(const SGPath& value) \x7b", "  return value.utf8Str();", "\x7d"]

def configureClass (config : ClassConfig) : ClassConfig :=
  { config with
    namespaceName := "JSBSim"
    header := "FGFDMExec.h"
    implementation := some "FGFDMExec.cpp"
    cppOutput := "generated/FGFDMExecBindings.cpp"
    interfaceOutput := "src/generated/fgfdmexec-api.ts"
    apiOutput := "src/generated/jsbsim-api.ts"
    interfaceName := "FGFDMExecApi"
    apiClassName := "JSBSimApi"
    bindingsName := "jsbsim_fgfdmexec_bindings"
    pathTypes := ["SGPath"]
    qualifiedNames := config.qualifiedNames.insert "PropertyCatalogStructure"
      "JSBSim::FGFDMExec::PropertyCatalogStructure"
    cppUsings := config.cppUsings ++ ["::SGPath"]
    valueConversions := config.valueConversions ++ [pathConversion]
    ignores := config.ignores ++ ["SetOutputFileName", "GetOutputFileName"] }

def configure (g : Generator) : Generator :=
  { g with tempStem := "jsbsim-bindgen-" }.configure "FGFDMExec" configureClass

end WasmBindings.FlightDynamics
