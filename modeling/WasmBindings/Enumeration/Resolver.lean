import WasmBindings.Enumeration.External
import WasmBindings.FrontEnd
import WasmBindings.HeaderSearch

namespace WasmBindings

structure EnumResolver where
  frontEnd : FrontEnd
  sourceRoot : String
  namespaceName : String

namespace EnumResolver

def logSource : String := "embind_gen.enum"

def probeTypes (r : EnumResolver) (qualified simple : String) : List String :=
  let types := [qualified, simple]
  let types :=
    if !Scope.isScoped qualified && r.namespaceName != "" then
      types ++ [r.namespaceName ++ "::" ++ simple]
    else types
  types.eraseDups

def probeText (header type : String) : String :=
  "#include \"" ++ header ++ "\"\n"
    ++ type ++ " __bindgen_enum_probe = static_cast<" ++ type ++ ">(0);\n"
    ++ "int main() \x7b return static_cast<int>(__bindgen_enum_probe); \x7d\n"

def probe (r : EnumResolver) (qualified simple : String) :
    List (String × String) → Session (Option EnumDef)
  | [] => do
    Session.log .info logSource ("could not resolve enum candidate " ++ qualified)
    return none
  | (header, type) :: rest => do
    Session.log .debug logSource ("probing " ++ header ++ " as " ++ type)
    match ← r.frontEnd.dumpText (probeText header type) (some simple) with
    | none => probe r qualified simple rest
    | some tree =>
      match ← Session.ofExcept (Enumeration.parseExternal tree simple qualified) with
      | none => probe r qualified simple rest
      | some d =>
        Session.log .info logSource ("resolved enum " ++ qualified ++ " from " ++ header)
        return some d

def attempts (r : EnumResolver) (qualified simple : String) (headers : List String) :
    List (String × String) :=
  headers.flatMap fun h => (r.probeTypes qualified simple).map (h, ·)

def resolve (r : EnumResolver) (type : String) : Session (Option EnumDef) := do
  let qualified := Spelling.enumKey type
  let simple := Scope.simpleName qualified
  if simple == "" then return none
  let w ← get
  let paths := HeaderSearch.candidates w.files r.sourceRoot simple
  let headers ← Session.ofExcept (paths.mapM fun p => Path.relative w.workingDir p r.sourceRoot)
  r.probe qualified simple (r.attempts qualified simple headers)

end EnumResolver

end WasmBindings
