import WasmBindings.Cpp.Spelling
import WasmBindings.Enumeration.Basic

/-!
How C++ types travel.  A type of the bound class has a carrier, which fixes its TypeScript type,
the parameter type of the native wrapper and the expressions that convert arguments and results.
-/

namespace WasmBindings

open Text

structure Converter where
  namespaceName : String
  className : String
  pathTypes : List String
  passthrough : List String
  qualifiedNames : Table String String
  enums : Table String EnumDef

/-- How a value crosses the border. -/
inductive Carrier where
  | void
  | bool
  | number
  | text
  | textList
  | enumeration (d : EnumDef)
  | handle

namespace Carrier

def label : Carrier → String
  | .void => "void"
  | .bool => "bool"
  | .number => "number"
  | .text => "string"
  | .textList => "string[]"
  | .enumeration _ => "enum"
  | .handle => "handle"

def isNumber : Carrier → Bool
  | .number => true
  | _ => false

def tsType : Carrier → String
  | .enumeration d => d.tsName
  | .void => "void"
  | .bool => "boolean"
  | .text => "string"
  | .textList => "string[]"
  | .number | .handle => "number"

end Carrier

inductive Piece where
  | name (text : List Char)
  | other (text : List Char)

namespace Piece

def isIdentRun : List Char → Bool
  | [] => false
  | c :: r => isIdentStart c && r.all isIdentChar

def ofRuns : List (List Char) → List Piece
  | [] => []
  | w :: rest =>
    if isIdentRun w then
      match ofRuns rest with
      | .other [':'] :: .other [':'] :: .name n :: ps => .name (w ++ ':' :: ':' :: n) :: ps
      | ps => .name w :: ps
    else .other w :: ofRuns rest

end Piece

def passthroughWords : List String :=
  ["const", "volatile", "unsigned", "signed", "short", "long", "int", "float", "double", "char",
    "bool", "void", "size_t", "std", "string", "vector", "shared_ptr", "unique_ptr", "uintptr_t"]

namespace Converter

def withEnums (c : Converter) (enums : Table String EnumDef) : Converter :=
  { c with enums := enums }

def scopeText (c : Converter) : String :=
  if c.namespaceName == "" then "" else c.namespaceName ++ "::"

def ownerText (c : Converter) : String := c.className ++ "::"

def addSpelling (spellings : List String) (s : String) : List String :=
  if s == "" || spellings.contains s then spellings else spellings ++ [s]

def startsWith (s start : String) : Bool := start.toList.isPrefixOf s.toList

def dropChars (s : String) (n : Nat) : String := String.ofList (s.toList.drop n)

/-- Every spelling under which a type is looked up: as it is, with the namespace added or taken
away, and its last component. -/
def spellings (c : Converter) (type : String) : List String :=
  let base := Spelling.enumKey type
  if base == "" then []
  else
    let ns := c.scopeText
    let inner := dropChars base ns.length
    let found := [base]
    let found :=
      if ns == "" then found
      else addSpelling found (if startsWith base ns then inner else ns ++ base)
    let found :=
      if ns != "" && startsWith base c.ownerText then addSpelling found (ns ++ base) else found
    let found :=
      if ns != "" && startsWith base (ns ++ c.ownerText) then addSpelling found inner else found
    if Scope.isScoped base then addSpelling found (Scope.simpleName base) else found

def enumTable (c : Converter) (defs : List EnumDef) : Table String EnumDef :=
  defs.foldl (fun t d =>
    (sortedTexts d.typeNames).foldl (fun t n =>
      (c.spellings n).foldl (fun t s => t.insert s d) t) t) []

def withDefs (c : Converter) (defs : List EnumDef) : Converter := c.withEnums (c.enumTable defs)

def resolve? (c : Converter) (type : String) : Option EnumDef :=
  (c.spellings type).findSome? c.enums.get?

def enumByValue? (c : Converter) (type : String) : Option EnumDef :=
  if Spelling.isPointer type then none
  else if Spelling.isReference type && !Spelling.isConst type then none
  else c.resolve? type

def carrier (c : Converter) (type : String) (isReturn : Bool) : Carrier :=
  let plain := Spelling.normalize type
  match c.enumByValue? plain with
  | some d => .enumeration d
  | none =>
    if plain == "void" then .void
    else if Spelling.isBool plain then .bool
    else if Spelling.isNumeric plain then .number
    else if Spelling.isText plain || Spelling.isPath c.pathTypes plain then .text
    else if isReturn && Spelling.isTextList plain then .textList
    else .handle

def tsType (c : Converter) (type : String) (isReturn : Bool) : String :=
  (c.carrier type isReturn).tsType

def keepsWord (c : Converter) (word : String) : Bool :=
  passthroughWords.contains word || c.passthrough.contains word || word == c.className
    || c.pathTypes.contains word || Spelling.numericTypes.contains word

def qualifyName (c : Converter) (name : String) : String :=
  if Scope.isScoped name || c.keepsWord name then name
  else match c.qualifiedNames.get? name with
    | some q => q
    | none => c.scopeText ++ name

def qualifyPiece (c : Converter) : Piece → List Char
  | .name n => (c.qualifyName (String.ofList n)).toList
  | .other t => t

def tagWords : List (List Char) := ["struct".toList, "class".toList]

/-- The type with its identifiers qualified: `FGPropagate*` is `JSBSim::FGPropagate*` in the
namespace `JSBSim`. -/
def qualify (c : Converter) (type : String) : String :=
  String.ofList ((Piece.ofRuns (runs (dropTags tagWords type.toList))).flatMap c.qualifyPiece)

def enumCppType (c : Converter) (d : EnumDef) (type : String) : String :=
  if Scope.isScoped d.qualifiedName then d.qualifiedName
  else c.qualify (Spelling.dropEnum (Spelling.stripQualifiers (Spelling.pointee type)))

def cppParam (c : Converter) (type : String) : String :=
  if Spelling.isBool type then "bool"
  else if Spelling.isNumeric type then Spelling.bare type
  else if Spelling.isText type || Spelling.isPath c.pathTypes type then "const std::string&"
  else if (c.enumByValue? type).isSome then "int"
  else "uintptr_t"

def dereference (base arg : String) : String := "*reinterpret_cast<" ++ base ++ "*>(" ++ arg ++ ")"

def cppArg (c : Converter) (type arg : String) : String :=
  if Spelling.isBool type || Spelling.isNumeric type || Spelling.isText type then arg
  else if Spelling.isPath c.pathTypes type then
    Spelling.pointee (Spelling.stripQualifiers type) ++ "(" ++ arg ++ ")"
  else match c.enumByValue? type with
    | some d => "static_cast<" ++ c.enumCppType d type ++ ">(" ++ arg ++ ")"
    | none =>
      let base := c.qualify (Spelling.pointee type)
      if Spelling.isPointer type then
        "reinterpret_cast<" ++ c.qualify (Spelling.normalize type) ++ ">(" ++ arg ++ ")"
      else if Spelling.isReference type && Spelling.isConst type && !startsWith base "const " then
        dereference ("const " ++ base) arg
      else dereference base arg

def cppResult (c : Converter) (type call : String) : String :=
  if !Spelling.isReference type && (c.enumByValue? type).isSome then
    "toJsValue(static_cast<int>(" ++ call ++ "))"
  else "toJsValue(" ++ call ++ ")"

end Converter

end WasmBindings
