import WasmBindings.Enumeration.ClassEnums
import WasmBindings.Enumeration.Resolver
import WasmBindings.Metadata
import WasmBindings.Metadata.Casts

namespace WasmBindings.Metadata

def candidates (pathTypes : List String) (methods : List Method) (casts : Casts) : List String :=
  (casts.discovered ++ methods.flatMap fun m =>
    (m.paramTypes ++ [m.returnType]).filter (Spelling.looksLikeEnum pathTypes)).eraseDups

def droppedMessage (tsName : String) : String :=
  "enum " ++ tsName ++ " already defined, keeping first definition"

def addEnum (defs : List EnumDef) (d : EnumDef) : Session (List EnumDef) := do
  if defs.any (·.clashes d) then
    Session.log .debug EnumResolver.logSource (droppedMessage d.tsName)
  return EnumDef.add defs d

def resolveWith (resolver : Option EnumResolver) (type : String) : Session (Option EnumDef) :=
  match resolver with
  | some r => r.resolve type
  | none => return none

/-- Resolves the candidates that the definitions so far do not cover, asking for each of them;
returns all definitions and the keys of the candidates that stay unresolved. -/
def resolveAll (c : Converter) (ask : String → Session (Option EnumDef)) (defs : List EnumDef) :
    List String → Session (List EnumDef × List String)
  | [] => return (defs, [])
  | type :: rest => do
    if ((c.withDefs defs).resolve? type).isSome then resolveAll c ask defs rest
    else match ← ask type with
      | none =>
        let (defs, unresolved) ← resolveAll c ask defs rest
        return (defs, Spelling.enumKey type :: unresolved)
      | some d => resolveAll c ask (← addEnum defs d) rest

structure Overrides where
  params : Table String (Table Int String)
  returns : Table String String
  unresolved : List String

namespace Overrides

def empty : Overrides := ⟨[], [], []⟩

def setParam (o : Overrides) (key : String) (index : Int) (type : String) : Overrides :=
  { o with params := o.params.insertNewAt key index type }

def setReturn (o : Overrides) (key : String) (type : String) : Overrides :=
  { o with returns := o.returns.insertNew key type }

def addCast (c : Converter) (key : String) (o : Overrides) (cast : Int × String) : Overrides :=
  match c.resolve? cast.2 with
  | some d => o.setParam key cast.1 d.tsName
  | none => { o with unresolved := o.unresolved ++ [Spelling.enumKey cast.2] }

/-- Accessors of an enumeration: `SetMode` takes, and `GetMode` returns, a `Mode` where the
declared type is a number. -/
def addAccessor (c : Converter) (m : Method) (o : Overrides) (d : EnumDef) : Overrides :=
  let o := match m.params with
    | [p] =>
      if m.name == "Set" ++ d.simpleName && (c.carrier p.type false).isNumber then
        o.setParam m.key 0 d.tsName
      else o
    | _ => o
  if m.name == "Get" ++ d.simpleName && m.params.isEmpty
      && (c.carrier m.returnType true).isNumber then
    o.setReturn m.key d.tsName
  else o

def addFlags (c : Converter) (m : Method) (o : Overrides) (d : EnumDef) : Overrides :=
  match m.params with
  | p :: _ =>
    if m.name == d.methodName && (c.carrier p.type false).isNumber then
      o.setParam m.key 0 d.tsName
    else o
  | [] => o

def addMethod (c : Converter) (enums flags : List EnumDef) (casts : Casts) (o : Overrides)
    (m : Method) : Overrides :=
  let o := ((casts.forMethod m).getD []).foldl (addCast c m.key) o
  let o := enums.foldl (addAccessor c m) o
  flags.foldl (addFlags c m) o

def build (c : Converter) (enums flags : List EnumDef) (casts : Casts) (methods : List Method) :
    Overrides :=
  methods.foldl (addMethod c enums flags casts) empty

end Overrides

def classEnums (namespaceName : String) (cls : Json) : Session Enumeration.ClassEnums := do
  Session.logAll .debug EnumResolver.logSource
    ((Enumeration.declared namespaceName cls).1.dropped.map droppedMessage)
  Session.ofExcept (Enumeration.ofClassNode namespaceName cls)

def build (c : Converter) (resolver : Option EnumResolver) (casts : Casts) (cls : Json)
    (methods : List Method) : Session Metadata := do
  let own ← classEnums c.namespaceName cls
  let (enums, unresolved) ←
    resolveAll c (resolveWith resolver) own.enums (candidates c.pathTypes methods casts)
  let table := c.enumTable enums
  let o := Overrides.build (c.withEnums table) enums own.flags casts methods
  return ⟨enums, own.flags, table, o.params, o.returns, sortedTexts (unresolved ++ o.unresolved)⟩

end WasmBindings.Metadata
