import WasmBindings.ClassBody
import WasmBindings.Comment
import WasmBindings.DefaultValue
import WasmBindings.ParamName
import WasmBindings.Text.Run

namespace WasmBindings.Method

open Text

def beforeParameters (angle : Nat) : List Char → Option (List Char)
  | [] => none
  | c :: r =>
    if c = '<' then (beforeParameters (angle + 1) r).map (c :: ·)
    else if c = '>' then (beforeParameters (angle - 1) r).map (c :: ·)
    else if c = '(' ∧ angle = 0 then some []
    else (beforeParameters angle r).map (c :: ·)

def singleChar : Json → Char
  | .str s => match s.toList with
    | [c] => c
    | _ => ' '
  | _ => ' '

def returnTypeOf : Json → Except Fault String
  | .str s =>
    .ok (match beforeParameters 0 s.toList with
      | some r => Spelling.normalize (String.ofList (trim r))
      | none => "")
  | .arr items =>
    if (beforeParameters 0 (items.map singleChar)).isSome then .error .fieldless else .ok ""
  | .obj fields =>
    if (beforeParameters 0 (fields.map fun f => singleChar (.str f.1))).isSome then .error .unfit
    else .ok ""
  | _ => .error .unfit

def inferReturnType (v : Json) : Except Fault String := do
  Tree.checkNode v
  returnTypeOf ((← Tree.spelling? v).getD (.str ""))

def paramNodes (v : Json) : Except Fault (List Json) := Tree.childrenOfKind "ParmVarDecl" v

def paramOfNode (pathTypes : List String) (v : Json) : Except Fault Param := do
  let type := Spelling.normalize (← Tree.spellingOr v "void")
  let name := ((v.field? "name").bind Json.text?).getD ""
  return ⟨name, type, ← DefaultValue.ofParam pathTypes type v⟩

def rename (params : List Param) : List Param :=
  List.zipWith (fun p name => { p with name := name }) params
    (ParamName.assign (params.map (·.name)))

def paramsOfNode (pathTypes : List String) (v : Json) : Except Fault (List Param) := do
  return rename (← (← paramNodes v).mapM (paramOfNode pathTypes))

def keepParamDocs (d : Doc) (index : Nat) : List Param → Doc → Doc
  | [], kept => kept
  | p :: rest, kept =>
    let text := d.paramText index p.name
    keepParamDocs d (index + 1) rest
      (if text == "" then kept
      else { kept with
        byName := kept.byName.insert p.name text
        byIndex := kept.byIndex.insert index text })

def isOperatorName (name : String) : Bool := (runs name.toList).head? == some "operator".toList

def bindableName? (className v : Json) : Option String :=
  if !Tree.hasKind "CXXMethodDecl" v || (match v.field? "isImplicit" with
      | some (.bool b) => b
      | _ => false) then none
  else match v.field? "name" with
    | some (.str name) =>
      if className.isText name || name == "~" ++ className.display || isOperatorName name then none
      else some name
    | _ => none

inductive Step where
  | method (m : Method)
  | skipped (name : String)

def stepOfNode (pathTypes : List String) (name : String) (v : Json) : Except Fault Step := do
  let returnType ← inferReturnType v
  if returnType == "" then return .skipped name
  let params ← paramsOfNode pathTypes v
  let parsed ← Comment.parse? (← Comment.find? v)
  let doc := keepParamDocs parsed 0 params ⟨parsed.description, [], [], parsed.returns⟩
  return .method ⟨name, returnType, params, doc⟩

def stepOfEntry (pathTypes : List String) (className : Json) :
    ClassBody.Entry → Except Fault (Option Step)
  | .specifier _ => .ok none
  | .member isPublic v => do
    Tree.checkNode v
    match if isPublic then bindableName? className v else none with
    | some name => return some (← stepOfNode pathTypes name v)
    | none => return none

def steps (pathTypes : List String) (cls : Json) : List (Except Fault (Option Step)) :=
  (ClassBody.entries cls).map (stepOfEntry pathTypes (ClassBody.className cls))

def Step.method? : Option Step → Option Method
  | some (.method m) => some m
  | _ => none

def extract (pathTypes : List String) (cls : Json) : Except Fault (List Method) := do
  Tree.checkNode cls
  return (← (steps pathTypes cls).mapM id).filterMap Step.method?

def skippedNames : List (Except Fault (Option Step)) → List String
  | .ok (some (.skipped name)) :: rest => name :: skippedNames rest
  | .ok _ :: rest => skippedNames rest
  | _ => []

end WasmBindings.Method
