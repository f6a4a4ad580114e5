import WasmBindings.Cpp.Spelling
import WasmBindings.Enumeration.Members

namespace WasmBindings.Enumeration

def declWithId? (decls : List Json) (id : String) : Option Json :=
  decls.reverse.find? (·.fieldIs "id" id)

def ownsTag (v : Json) : Bool := (v.field? "ownedTagDecl").any Json.isObject

def ownedDecl? (decls : List Json) (typedef : Json) : Except Fault (Option Json) :=
  match ((Tree.find? ownsTag typedef).bind (·.field? "ownedTagDecl")).bind (·.field? "id") with
  | some (.str id) => .ok (declWithId? decls id)
  | some id => if id.isScalar then .ok none else .error .unfit
  | none => .ok none

def viaTypedef? (decls : List Json) : List Json → Except Fault (Option Json)
  | [] => .ok none
  | t :: rest => do
    match ← ownedDecl? decls t with
    | some d => return some d
    | none => viaTypedef? decls rest

def mentions (name : String) : Json → Except Fault Bool
  | .str s => .ok (Text.occursIn name.toList s.toList)
  | .arr items => .ok (items.any (Json.isText name))
  | .obj fields => .ok ((Table.get? fields name).isSome)
  | _ => .error .unfit

def firstTypeMentions (simple qualified : String) (v : Json) : Except Fault Bool := do
  match ← Tree.childrenOfKind "EnumConstantDecl" v with
  | [] => return false
  | c :: _ =>
    let type := (← Tree.spelling? c).getD (.str "")
    if ← mentions simple type then return true else mentions qualified type

def viaFirstType? (simple qualified : String) : List Json → Except Fault (Option Json)
  | [] => .ok none
  | d :: rest => do
    if ← firstTypeMentions simple qualified d then return some d
    else viaFirstType? simple qualified rest

/-- The declaration a probe was meant for: the one owned by a type definition of that name, the
one with that name, or the first whose enumerators have a type of that name. -/
def findDecl? (tree : Json) (simple qualified : String) : Except Fault (Option Json) := do
  let decls := Tree.findAll (Tree.hasKind "EnumDecl") tree
  let typedefs :=
    Tree.findAll (fun v => Tree.hasKind "TypedefDecl" v && v.fieldIs "name" simple) tree
  match ← viaTypedef? decls typedefs with
  | some d => return some d
  | none =>
    match decls.find? (·.fieldIs "name" simple) with
    | some d => return some d
    | none => viaFirstType? simple qualified decls

def external (simple qualified : String) (items : List Enumerator) : EnumDef :=
  let qualified := Spelling.normalize (Spelling.dropEnum qualified)
  ⟨simple, items, .enumeration, simple, qualified, [simple, qualified, "enum " ++ simple], ""⟩

def parseExternal (tree : Json) (simple qualified : String) : Except Fault (Option EnumDef) := do
  match ← findDecl? tree simple qualified with
  | none => return none
  | some d =>
    let items ← members d
    return if items.isEmpty then none else some (external simple qualified items)

end WasmBindings.Enumeration
