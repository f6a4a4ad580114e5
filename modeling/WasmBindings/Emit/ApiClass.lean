import WasmBindings.Emit.Banner
import WasmBindings.Overload

namespace WasmBindings.Emit.ApiClass

def escapeComment : List Char → List Char
  | '*' :: '/' :: r => '*' :: '\\' :: '/' :: escapeComment r
  | c :: r => c :: escapeComment r
  | [] => []

def escape (s : String) : String := String.ofList (escapeComment s.toList)

def paramDocs (o : Overload) : List (String × String) :=
  ((o.params.zip o.method.params).mapIdx fun i (p, source) =>
    (p.name, o.method.doc.paramText i source.name)).filter fun d => d.2 != ""

def docLines (o : Overload) : List String :=
  let doc := o.method.doc
  let params := paramDocs o
  if doc.description.isEmpty && params.isEmpty && doc.returns == "" then []
  else
    ["  /**"]
      ++ doc.description.map (fun l => "   * " ++ escape l)
      ++ params.map (fun d => "   * @param " ++ d.1 ++ " " ++ escape d.2)
      ++ (if doc.returns == "" then [] else ["   * @returns " ++ escape doc.returns])
      ++ ["   */"]

def callLine (returnType call : String) : String :=
  if returnType == "void" then "    " ++ call else "    return " ++ call

def singleParam (p : ApiParam) : String :=
  match p.default? with
  | some d => p.name ++ ": " ++ p.type ++ " = " ++ d
  | none => p.name ++ ": " ++ p.type

def singleLines (g : MethodGroup) (o : Overload) : List String :=
  docLines o
    ++ ["  " ++ g.camelName ++ "(" ++ commaList (o.params.map singleParam) ++ "): "
          ++ o.returnType ++ " \x7b",
        callLine o.returnType
          ("this.exec." ++ g.sourceName ++ "(" ++ commaList (o.params.map (·.name)) ++ ");"),
        "  \x7d"]

def signatureLine (g : MethodGroup) (o : Overload) : String :=
  let params := o.params.mapIdx fun i p =>
    (if o.minArgs ≤ i then p.name ++ "?: " else p.name ++ ": ") ++ p.type
  "  " ++ g.camelName ++ "(" ++ commaList params ++ "): " ++ o.returnType ++ ";"

def fillLines (f : FillCase) : List String :=
  ["      case " ++ toString f.count ++ ":",
    "        normalizedArgs.push(" ++ commaList f.defaults ++ ");",
    "        break;"]

def switchLines : List FillCase → List String
  | [] => []
  | cases =>
    ["    const normalizedArgs = [...args] as unknown[];",
        "    switch (normalizedArgs.length) \x7b"]
      ++ cases.flatMap fillLines
      ++ ["      default:", "        break;", "    \x7d"]

def overloadedLines (g : MethodGroup) : List String :=
  let returnType := String.intercalate " | " (g.overloads.map (·.returnType)).eraseDups
  let cases := fillCases g.overloads
  let args := if cases.isEmpty then "args" else "normalizedArgs"
  g.overloads.flatMap (fun o => docLines o ++ [signatureLine g o])
    ++ ["  " ++ g.camelName ++ "(...args: unknown[]): " ++ returnType ++ " \x7b"]
    ++ switchLines cases
    ++ [callLine returnType
          ("(this.exec." ++ g.sourceName ++ " as (...innerArgs: unknown[]) => " ++ returnType
            ++ ")(..." ++ args ++ ");"),
        "  \x7d"]

def groupLines (g : MethodGroup) : List String :=
  "" :: (match g.overloads with
    | [o] => singleLines g o
    | _ => overloadedLines g)

structure Names where
  className : String
  interfaceName : String
  interfaceModule : String

def headLines (n : Names) (groups : List MethodGroup) : List String :=
  banner
    ++ ["", "import type \x7b " ++ commaList (MethodGroup.imports groups n.interfaceName)
          ++ " \x7d from \"" ++ n.interfaceModule ++ "\";",
        "", "export class " ++ n.className ++ " \x7b",
        "  readonly exec: " ++ n.interfaceName ++ ";",
        "", "  constructor(exec: " ++ n.interfaceName ++ ") \x7b",
        "    this.exec = exec;", "  \x7d"]

def renderGroups (n : Names) (groups : List MethodGroup) : String :=
  joinLines (headLines n groups ++ groups.flatMap groupLines ++ ["\x7d", ""])

def render (c : Converter) (data : Metadata) (n : Names) (ignored : List String)
    (methods : List Method) : Except Fault String := do
  return renderGroups n (← MethodGroup.build c data ignored methods)

end WasmBindings.Emit.ApiClass
