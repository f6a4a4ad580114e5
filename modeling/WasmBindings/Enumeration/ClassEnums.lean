import WasmBindings.ClassBody
import WasmBindings.Comment
import WasmBindings.Cpp.Spelling
import WasmBindings.Enumeration.Members

/-!
The enumerations and flag groups that a class declares itself.  A static integer constant whose
comment says `Mode flags for` some method starts a group; the constants after it join the group
until something else comes between.
-/

namespace WasmBindings.Enumeration

open Text

def sameLetter (pattern c : Char) : Bool :=
  c.toLower == pattern.toLower || (pattern.toLower == 's' && c.toNat == 0x17F)

/-- The letters of a method name apart from case, with the three signs that fold to one. -/
def isNameStart (c : Char) : Bool :=
  isIdentStart c || c.toNat ∈ [0x130, 0x131, 0x17F, 0x212A]

def isNameChar (c : Char) : Bool := isNameStart c || c.isDigit

def afterPhrase : List Char → List Char → Option (List Char)
  | [], s => some s
  | p :: ps, c :: s => if sameLetter p c then afterPhrase ps s else none
  | _ :: _, [] => none

def flagPhrase : List Char := "Mode flags for ".toList

def methodAtHead (s : List Char) : Option String :=
  let s := if s.head? = some (Char.ofNat 96) then s.drop 1 else s
  match s with
  | c :: _ => if isNameStart c then some (String.ofList (s.takeWhile isNameChar)) else none
  | [] => none

def flagMethod? : List Char → Option String
  | [] => none
  | c :: r =>
    match (afterPhrase flagPhrase (c :: r)).bind methodAtHead with
    | some m => some m
    | none => flagMethod? r

def isFlagConstant (v : Json) : Except Fault Bool := do
  let type := Spelling.stripQualifiers (← Tree.spellingOr v "")
  return v.fieldIs "storageClass" "static" && (type == "int" || type == "unsigned int")

/-- The exported name of an enumeration of a class: `eMode` of `FGFDMExec` is
`FGFDMExecMode`. -/
def exportedName (className enumName : String) : String :=
  className ++ String.ofList (match enumName.toList with
    | 'e' :: c :: r => if c.isUpper then c :: r else 'e' :: c :: r
    | s => s)

def ofClass (namespaceName className enumName : String) (items : List Enumerator) : EnumDef :=
  let owned := className ++ "::" ++ enumName
  let qualified := if namespaceName == "" then owned else namespaceName ++ "::" ++ owned
  ⟨exportedName className enumName, items, .enumeration, enumName, qualified,
    [enumName, owned, qualified, "enum " ++ enumName, "enum " ++ owned], ""⟩

/-- What the entries so far have declared: the definitions, the flags by method, the method whose
group is open, and the names of definitions that were dropped because they clash. -/
structure Declared where
  enums : List EnumDef
  flags : Table String (List Enumerator)
  active : Option String
  dropped : List String

namespace Declared

def empty : Declared := ⟨[], [], none, []⟩

def interrupt (s : Declared) : Declared := { s with active := none }

def addEnum (s : Declared) (d : EnumDef) : Declared :=
  if s.enums.any (·.clashes d) then { s with dropped := s.dropped ++ [d.tsName] }
  else { s with enums := s.enums ++ [d] }

def addFlag (s : Declared) (method : String) (item : Enumerator) : Declared :=
  { s with flags := s.flags.insert method ((s.flags.get? method).getD [] ++ [item]) }

end Declared

def declareEnum (namespaceName : String) (className : Json) (s : Declared) (v : Json) :
    Except Fault Declared :=
  match v.field? "name" with
  | none => .ok s.interrupt
  | some name =>
    if !name.isTruthy then .ok s.interrupt
    else do
      let items ← members v
      if items.isEmpty then return s.interrupt
      let name ← Tree.needText name
      let className ← Tree.needText className
      return s.interrupt.addEnum (ofClass namespaceName className name items)

def declareFlag (s : Declared) (v : Json) : Except Fault Declared := do
  let comment := ((← Comment.find? v).map Comment.text).getD ""
  let s := { s with active := (flagMethod? comment.toList).or s.active }
  match s.active with
  | none => return s
  | some method =>
    match ← firstInteger v, v.field? "name" with
    | some value, some name => return if name.isTruthy then s.addFlag method ⟨name, value⟩ else s
    | _, _ => return s

def declare (namespaceName : String) (className : Json) (s : Declared) :
    ClassBody.Entry → Except Fault Declared
  | .specifier isPublic => .ok (if isPublic then s else s.interrupt)
  | .member isPublic v => do
    Tree.checkNode v
    if !isPublic then return s.interrupt
    else if Tree.hasKind "EnumDecl" v then declareEnum namespaceName className s v
    else if Tree.hasKind "VarDecl" v then
      if ← isFlagConstant v then declareFlag s v else return s.interrupt
    else return s.interrupt

def declareAll (namespaceName : String) (className : Json) (s : Declared) :
    List ClassBody.Entry → Declared × Option Fault
  | [] => (s, none)
  | e :: rest =>
    match declare namespaceName className s e with
    | .ok s => declareAll namespaceName className s rest
    | .error f => (s, some f)

def flagDef (method : String) (items : List Enumerator) : EnumDef :=
  ⟨method ++ "Mode", items, .flags, "", "", [], method⟩

structure ClassEnums where
  enums : List EnumDef
  flags : List EnumDef

def Declared.result (s : Declared) : ClassEnums := ⟨s.enums, s.flags.map fun f => flagDef f.1 f.2⟩

def declared (namespaceName : String) (cls : Json) : Declared × Option Fault :=
  if cls.isObject then
    declareAll namespaceName (ClassBody.className cls) .empty (ClassBody.entries cls)
  else (.empty, some .fieldless)

def ofClassNode (namespaceName : String) (cls : Json) : Except Fault ClassEnums :=
  match declared namespaceName cls with
  | (s, none) => .ok s.result
  | (_, some f) => .error f

end WasmBindings.Enumeration
