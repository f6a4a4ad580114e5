import WasmBindings.FrontEnd
import WasmBindings.Method.Extraction

namespace WasmBindings

/-- Cast types by parameter position, under the exact key and under the key by parameter count,
and all cast types in the order in which they were found. -/
structure Casts where
  byMethod : Table String (Table Int String)
  byArity : Table String (Table Int String)
  discovered : List String

def Table.insertNewAt (t : Table String (Table Int String)) (key : String) (index : Int)
    (type : String) : Table String (Table Int String) :=
  t.insert key (((t.get? key).getD []).insertNew index type)

namespace Casts

def empty : Casts := ⟨[], [], []⟩

def forMethod (casts : Casts) (m : Method) : Option (Table Int String) :=
  (casts.byMethod.get? m.key).or (casts.byArity.get? m.arityKey)

def isEnumType (type : String) : Bool :=
  type != "" && !(Spelling.isBool type || Spelling.isNumeric type || Spelling.isPointer type
    || Spelling.isReference type)

def record (casts : Casts) (key arityKey : String) (index : Int) (type : String) : Casts :=
  ⟨casts.byMethod.insertNewAt key index type, casts.byArity.insertNewAt arityKey index type,
    if casts.discovered.contains type then casts.discovered else casts.discovered ++ [type]⟩

def isNamedMethod (names : List String) (v : Json) : Except Fault Bool :=
  if Tree.hasKind "CXXMethodDecl" v then
    match v.field? "name" with
    | some (.str name) => .ok (names.contains name)
    | some name => if name.isScalar then .ok false else .error .unfit
    | none => .ok false
  else .ok false

def isCast (v : Json) : Except Fault Bool :=
  if Tree.hasKind "CStyleCastExpr" v || Tree.hasKind "CXXStaticCastExpr" v then do
    return (← Tree.spelling? v).any fun t => t.text?.isSome
  else .ok false

def castType (v : Json) : Except Fault String := do
  let type := (← Tree.spelling? v).bind Json.text? |>.getD ""
  let plain := if "enum ".toList.isPrefixOf type.toList then type.toList.drop 5 else type.toList
  return Spelling.normalize (String.ofList plain)

def paramRef? (v : Json) : Except Fault (Option String) :=
  if Tree.hasKind "DeclRefExpr" v then
    match v.field? "referencedDecl" with
    | none => .ok none
    | some d =>
      if !d.isObject then .error .fieldless
      else .ok (if Tree.hasKind "ParmVarDecl" d then (d.field? "id").bind Json.text? else none)
  else .ok none

def paramIndex (params : List Json) : Except Fault (Table String Nat) := do
  let ids := params.map fun p => (p.field? "id").getD .null
  if ids.all Json.isScalar then
    return Table.ofList ((ids.mapIdx fun i id => (id, i)).filterMap fun (id, i) =>
      id.text?.map (·, i))
  else throw .unfit

structure Body where
  key : String
  arityKey : String
  index : Table String Nat

def addCast (b : Body) (casts : Casts) (cast : Json) : Except Fault Casts := do
  let type ← castType cast
  if !isEnumType type then return casts
  let refs ← (Tree.nodes cast).mapM paramRef?
  return (refs.filterMap fun r => r.bind b.index.get?).foldl
    (fun casts (i : Nat) => casts.record b.key b.arityKey i type) casts

def addMethod (casts : Casts) (v : Json) : Except Fault Casts := do
  let params ← Method.paramNodes v
  if params.isEmpty then return casts
  let types ← params.mapM fun p => return Spelling.normalize (← Tree.spellingOr p "void")
  let name := ((v.field? "name").bind Json.text?).getD ""
  let body : Body := ⟨Signature.key name types, Signature.arityKey name params.length,
    ← paramIndex params⟩
  (← Tree.select isCast (Tree.nodes v)).foldlM (addCast body) casts

def collect (tree : Json) (names : List String) : Except Fault Casts := do
  (← Tree.select (isNamedMethod names) (Tree.nodes tree)).foldlM addMethod empty

def scannedNames (methods : List Method) : List String :=
  (methods.filter fun m => !m.params.isEmpty).map (·.name)

def logSource : String := "embind_gen.metadata"

def load (fe : FrontEnd) (path : Option String) (className : String) (methods : List Method) :
    Session Casts := do
  let w ← get
  match path.filter w.files.pathExists with
  | none =>
    Session.log .info logSource "no implementation file, skipping cast inference"
    return empty
  | some path =>
    match ← fe.dumpFile path (some (className ++ "::")) with
    | none =>
      Session.log .warning logSource ("could not parse " ++ path ++ ", skipping cast inference")
      return empty
    | some tree => Session.ofExcept (collect tree (scannedNames methods))

end Casts

end WasmBindings
