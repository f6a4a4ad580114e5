import WasmBindings.Conversion
import WasmBindings.Method

namespace WasmBindings

/-- Types that replace the declared ones, by signature key: those of parameters by position, and
those of results. -/
structure Metadata where
  enums : List EnumDef
  flags : List EnumDef
  table : Table String EnumDef
  paramOverrides : Table String (Table Int String)
  returnOverrides : Table String String
  unresolved : List String

namespace Metadata

def paramType (data : Metadata) (c : Converter) (m : Method) (index : Nat) (p : Param) : String :=
  match (data.paramOverrides.get? m.key).bind (·.get? (index : Int)) with
  | some t => t
  | none => c.tsType p.type false

def returnType (data : Metadata) (c : Converter) (m : Method) : String :=
  match data.returnOverrides.get? m.key with
  | some t => if t == "" then c.tsType m.returnType true else t
  | none => c.tsType m.returnType true

end Metadata

end WasmBindings
