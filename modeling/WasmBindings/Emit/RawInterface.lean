import WasmBindings.Emit.Banner
import WasmBindings.Json.Display
import WasmBindings.Metadata

namespace WasmBindings.Emit.RawInterface

def enumLines (d : EnumDef) : List String :=
  ("export enum " ++ d.tsName ++ " \x7b")
    :: d.items.map (fun i => "  " ++ i.name.display ++ " = " ++ toString i.value ++ ",")
    ++ ["\x7d"]

def methodLine (c : Converter) (data : Metadata) (m : Method) : String :=
  let params := m.params.mapIdx fun i p =>
    "arg" ++ toString i ++ ": " ++ data.paramType c m i p
  "  " ++ m.name ++ "(" ++ commaList params ++ "): " ++ data.returnType c m ++ ";"

def lines (c : Converter) (data : Metadata) (interfaceName : String) (methods : List Method) :
    List String :=
  banner ++ ["", "export type OpaqueHandle = number;", ""]
    ++ (data.enums ++ data.flags).flatMap (fun d => enumLines d ++ [""])
    ++ ["export interface " ++ interfaceName ++ " \x7b"]
    ++ methods.map (methodLine c data)
    ++ ["\x7d", ""]

def render (c : Converter) (data : Metadata) (interfaceName : String) (methods : List Method) :
    String :=
  joinLines (lines c data interfaceName methods)

end WasmBindings.Emit.RawInterface
