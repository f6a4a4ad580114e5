import WasmBindings.Cpp.Scope
import WasmBindings.Text.Run

namespace WasmBindings.Spelling

open Text

def constWord : List Char := "const".toList

def qualifierWords : List (List Char) := [constWord, "volatile".toList]

def enumWord : List Char := "enum".toList

def isMark (c : Char) : Bool := c ∈ ['*', '&', '<', '>', ',']

/-- Drops each space next to a mark, in a text whose runs of blanks are single spaces.  The flag
says that the last character kept is a mark. -/
def tightenFrom : Bool → List Char → List Char
  | _, [] => []
  | afterMark, c :: r =>
    if c = ' ' ∧ (afterMark ∨ r.head?.any isMark) then tightenFrom afterMark r
    else c :: tightenFrom (isMark c) r

def tighten (s : List Char) : List Char := tightenFrom false s

def normalizeChars (s : List Char) : List Char :=
  trim (spaceAfter constWord (tighten (collapse s)))

/-- The canonical spelling: `const  std::string &` is written `const std::string&`. -/
def normalize (type : String) : String := String.ofList (normalizeChars type.toList)

def stripQualifiersChars (s : List Char) : List Char := squeeze (removeWords qualifierWords s)

def stripQualifiers (type : String) : String := String.ofList (stripQualifiersChars type.toList)

def bareChars (s : List Char) : List Char := trim (without ['&'] (stripQualifiersChars s))

def bare (type : String) : String := String.ofList (bareChars type.toList)

def numericTypes : List String :=
  ["char", "signed char", "unsigned char", "short", "unsigned short", "int", "unsigned int",
    "long", "unsigned long", "long long", "unsigned long long", "float", "double", "long double",
    "size_t"]

def isBool (type : String) : Bool := bare type == "bool"

def isNumeric (type : String) : Bool :=
  numericTypes.contains (String.ofList (collapse (bareChars type.toList)))

def isText (type : String) : Bool := bare type == "std::string"

def isPath (pathTypes : List String) (type : String) : Bool := pathTypes.contains (bare type)

def isTextList (type : String) : Bool :=
  String.ofList (withoutBlanks (bareChars type.toList)) == "std::vector<std::string>"

def isPointer (type : String) : Bool := type.toList.contains '*'

def isReference (type : String) : Bool := type.toList.contains '&'

def isConst (type : String) : Bool := hasWord constWord type.toList

def pointee (type : String) : String :=
  String.ofList (normalizeChars (trim (without ['&', '*'] type.toList)))

/-- The key under which an enumeration is looked up: no qualifiers, no `enum`, no marks, no
blanks. -/
def enumKey (type : String) : String :=
  String.ofList
    (withoutBlanks (without ['&', '*'] (dropTags [enumWord] (stripQualifiersChars type.toList))))

def dropEnum (type : String) : String := String.ofList (dropLeadingTag enumWord type.toList)

def hasEnumName (name : String) : Bool :=
  (match name.toList with
    | 'e' :: c :: _ => c.isUpper
    | _ => false)
    || "Mode".toList.isSuffixOf name.toList || "Type".toList.isSuffixOf name.toList

def looksLikeEnum (pathTypes : List String) (type : String) : Bool :=
  let plain := normalize (dropEnum (String.ofList (without ['*'] (bareChars type.toList))))
  !(plain == "" || plain == "void" || isBool plain || isNumeric plain || isText plain
      || isPath pathTypes plain || isTextList plain || plain.toList.contains '<')
    && hasEnumName (Scope.simpleName plain)

def defaultPathTypes : List String := ["SGPath"]

end WasmBindings.Spelling
