import WasmBindings.Json.Basic

namespace WasmBindings

structure Enumerator where
  name : Json
  value : Int

inductive EnumKind where
  | enumeration
  | flags
  deriving DecidableEq, Repr

/-- An enumeration or a group of flags.  `methodName` is the owner of a group of flags, and
`typeNames` are the spellings that stand for the enumeration. -/
structure EnumDef where
  tsName : String
  items : List Enumerator
  kind : EnumKind
  simpleName : String
  qualifiedName : String
  typeNames : List String
  methodName : String

namespace EnumDef

def isFlags (d : EnumDef) : Bool := d.kind == .flags

/-- Two definitions clash when they share the exported or the qualified name. -/
def clashes (d e : EnumDef) : Bool :=
  d.tsName == e.tsName || d.qualifiedName == e.qualifiedName

def add (defs : List EnumDef) (d : EnumDef) : List EnumDef :=
  if defs.any (·.clashes d) then defs else defs ++ [d]

end EnumDef

def sortedTexts (texts : List String) : List String :=
  texts.eraseDups.mergeSort fun a b => decide (a ≤ b)

end WasmBindings
