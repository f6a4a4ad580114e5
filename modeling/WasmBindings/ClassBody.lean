import WasmBindings.Tree.Access

namespace WasmBindings.ClassBody

/-- A specifier and the access it leaves, or a member and whether it is public. -/
inductive Entry where
  | specifier (isPublic : Bool)
  | member (isPublic : Bool) (node : Json)

def accessAfter (isPublic : Bool) (v : Json) : Bool :=
  match v.field? "access" with
  | some a => a.isText "public"
  | none => isPublic

def entriesFrom (isPublic : Bool) : List Json → List Entry
  | [] => []
  | c :: r =>
    if Tree.hasKind "AccessSpecDecl" c then
      .specifier (accessAfter isPublic c) :: entriesFrom (accessAfter isPublic c) r
    else .member isPublic c :: entriesFrom isPublic r

def startsPublic (cls : Json) : Bool := cls.fieldIs "tagUsed" "struct"

def entries (cls : Json) : List Entry := entriesFrom (startsPublic cls) (Tree.children cls)

def className (cls : Json) : Json := (cls.field? "name").getD (.str "")

def isDefinition (name : String) (v : Json) : Bool :=
  Tree.hasKind "CXXRecordDecl" v && v.fieldIs "name" name
    && (match v.field? "completeDefinition" with
      | some (.bool b) => b
      | _ => false)

def find? (tree : Json) (name : String) : Option Json := Tree.find? (isDefinition name) tree

end WasmBindings.ClassBody
