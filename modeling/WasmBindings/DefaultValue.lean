import WasmBindings.Cpp.Spelling
import WasmBindings.Text.Numeral
import WasmBindings.Tree.Access

namespace WasmBindings.DefaultValue

open Text

def wrapperKinds : List String :=
  ["ExprWithCleanups", "MaterializeTemporaryExpr", "ImplicitCastExpr", "CXXBindTemporaryExpr",
    "CXXDefaultArgExpr", "ConstantExpr", "ParenExpr"]

def isWrapper (v : Json) : Except Fault Bool :=
  match v.field? "kind" with
  | some (.str kind) => .ok (wrapperKinds.contains kind)
  | some kind => if kind.isScalar then .ok false else .error .unfit
  | none => .ok false

def unwrap (v : Json) : Except Fault Json :=
  match isWrapper v with
  | .error e => .error e
  | .ok false => .ok v
  | .ok true =>
    match _h : Tree.children v with
    | [] => .ok v
    | c :: _ => unwrap c
termination_by sizeOf v
decreasing_by exact Tree.sizeOf_lt_of_mem_children (by simp [_h])

def numberLiteral? : Option Json → Option String
  | some (.int n) => some (toString n)
  | some (.float x) => some x.text
  | some (.str s) =>
    let t := trim s.toList
    if (numeral? t).isSome then some (String.ofList t) else none
  | _ => none

def isZeroLiteral (literal : String) : Bool :=
  match numeral? literal.toList with
  | some (digits, exponent) => (Binary64.ofDecimal false digits exponent).isZero
  | none => false

def forParam (type literal : String) : String :=
  if Spelling.isBool type then (if isZeroLiteral literal then "false" else "true") else literal

def isNumberNode (v : Json) : Bool :=
  Tree.hasKind "IntegerLiteral" v || Tree.hasKind "FloatingLiteral" v

def isText : Json → Bool
  | .str _ => true
  | _ => false

def isStringLiteral (v : Json) : Bool :=
  Tree.hasKind "StringLiteral" v && (v.field? "value").any isText

def isConstruction (v : Json) : Bool :=
  Tree.hasKind "CXXConstructExpr" v || Tree.hasKind "CXXTemporaryObjectExpr" v

/-- The text of the first string literal of a tree that is not empty. -/
def stringBelow? (v : Json) : Option String :=
  match (Tree.find? isStringLiteral v).bind (·.field? "value") with
  | some (.str s) => if s == "" then none else some s
  | _ => none

def sign? (v : Json) : Option Char :=
  if v.fieldIs "opcode" "-" then some '-' else if v.fieldIs "opcode" "+" then some '+' else none

def signed? (sign : Char) (v : Json) : Except Fault (Option String) :=
  match Tree.children v with
  | [] => .ok none
  | c :: _ => do
    let operand ← unwrap c
    return if isNumberNode operand then
      (numberLiteral? (operand.field? "value")).map fun l =>
        String.ofList (sign :: l.toList.dropWhile fun c => c == '+' || c == '-')
    else none

def ofNode (pathTypes : List String) (type : String) (v : Json) : Except Fault (Option String) :=
  match Tree.hasKind "CXXBoolLiteralExpr" v, v.field? "value" with
  | true, some (.bool b) => .ok (some (if b then "true" else "false"))
  | _, value =>
    if isNumberNode v then .ok ((numberLiteral? value).map (forParam type))
    else match Tree.hasKind "UnaryOperator" v, sign? v with
      | true, some sign => do return (← signed? sign v).map (forParam type)
      | _, _ =>
        match Tree.hasKind "StringLiteral" v, value with
        | true, some (.str s) => .ok (some s)
        | _, _ =>
          match stringBelow? v with
          | some s => .ok (some s)
          | none =>
            .ok (if (Spelling.isText type || Spelling.isPath pathTypes type) && isConstruction v
              then some "\"\"" else none)

def extract (pathTypes : List String) (type : String) (expr : Json) :
    Except Fault (Option String) := do
  let v ← unwrap expr
  if v.isObject then ofNode pathTypes type v else return none

/-- The default of a parameter: its first child that is no comment, if it has an initializer at
all.  A text or a list in place of the parameter has none. -/
def ofParam (pathTypes : List String) (type : String) (param : Json) :
    Except Fault (Option String) :=
  match param with
  | .obj _ =>
    if (param.field? "init").isNone then .ok none
    else do
      let exprs ← Tree.select (fun c => do return !(← Tree.isComment c)) (Tree.children param)
      match exprs with
      | [] => return none
      | e :: _ => extract pathTypes type e
  | .str _ | .arr _ => .ok none
  | _ => .error .unfit

end WasmBindings.DefaultValue
