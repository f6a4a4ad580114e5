import WasmBindings.Fault
import WasmBindings.Tree

/-!
Reading nodes whose form nobody has checked.  A field that is absent has a meaning; a field of a
value that is no object is a fault.
-/

namespace WasmBindings.Tree

def checkNode (v : Json) : Except Fault Unit :=
  if v.isObject then .ok () else .error .fieldless

def needText : Json → Except Fault String
  | .str s => .ok s
  | _ => .error .unfit

/-- The spelling under `type`, if there is one; the field `type` itself has to be an object. -/
def spelling? (v : Json) : Except Fault (Option Json) :=
  match v.field? "type" with
  | none => .ok none
  | some (.obj fields) => .ok (Table.get? fields "qualType")
  | some _ => .error .fieldless

def spellingOr (v : Json) (default : String) : Except Fault String := do
  match ← spelling? v with
  | none => return default
  | some t => needText t

def isComment (v : Json) : Except Fault Bool := do
  checkNode v
  match v.field? "kind" with
  | none => return false
  | some (.str kind) => return "Comment".toList.isSuffixOf kind.toList
  | some _ => throw .fieldless

def childrenOfKind (kind : String) (v : Json) : Except Fault (List Json) := do
  (children v).forM checkNode
  return (children v).filter (hasKind kind)

def firstOfKind (kind : String) : List Json → Except Fault (Option Json)
  | [] => .ok none
  | c :: r =>
    if !c.isObject then .error .fieldless
    else if hasKind kind c then .ok (some c)
    else firstOfKind kind r

def select (test : Json → Except Fault Bool) : List Json → Except Fault (List Json)
  | [] => .ok []
  | c :: r => do
    let keep ← test c
    let rest ← select test r
    return if keep then c :: rest else rest

end WasmBindings.Tree
