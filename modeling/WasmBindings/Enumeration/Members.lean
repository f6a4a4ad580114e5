import WasmBindings.Enumeration.Basic
import WasmBindings.Text.Numeral
import WasmBindings.Tree.Access

namespace WasmBindings.Enumeration

def isNegation (v : Json) : Bool := Tree.hasKind "UnaryOperator" v && v.fieldIs "opcode" "-"

def ownInteger? (v : Json) : Option Int :=
  match v.field? "value" with
  | some (.str s) => Text.integer? s.toList
  | _ => none

mutual

/-- The first whole number in pre-order, negated below a minus sign.  Comments count for nothing,
and what is no node has no number. -/
def firstInteger (v : Json) : Except Fault (Option Int) :=
  if !v.isObject then .ok none
  else match Tree.isComment v with
    | .error e => .error e
    | .ok true => .ok none
    | .ok false =>
      if isNegation v then
        match firstIntegerIn (Tree.children v) with
        | .error e => .error e
        | .ok n => .ok (n.map Int.neg)
      else match ownInteger? v with
        | some n => .ok (some n)
        | none => firstIntegerIn (Tree.children v)
termination_by 2 * sizeOf v + 1
decreasing_by
  all_goals
    have := Tree.sizeOf_children_le v
    omega

def firstIntegerIn : List Json → Except Fault (Option Int)
  | [] => .ok none
  | c :: r =>
    match firstInteger c with
    | .error e => .error e
    | .ok (some n) => .ok (some n)
    | .ok none => firstIntegerIn r
termination_by vs => 2 * sizeOf vs
decreasing_by all_goals rw [List.cons.sizeOf_spec]; omega

end

def membersFrom (next : Int) : List Json → Except Fault (List Enumerator)
  | [] => .ok []
  | c :: r => do
    Tree.checkNode c
    match Tree.hasKind "EnumConstantDecl" c, c.field? "name" with
    | true, some name =>
      if name.isTruthy then
        let value := (← firstInteger c).getD next
        return ⟨name, value⟩ :: (← membersFrom (value + 1) r)
      else membersFrom next r
    | _, _ => membersFrom next r

def members (v : Json) : Except Fault (List Enumerator) := membersFrom 0 (Tree.children v)

end WasmBindings.Enumeration
