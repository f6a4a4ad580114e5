import WasmBindings.Signature
import WasmBindings.Table

namespace WasmBindings

structure Doc where
  description : List String
  byName : Table String String
  byIndex : Table Int String
  returns : String
  deriving Repr

namespace Doc

def empty : Doc := ⟨[], [], [], ""⟩

def paramText (d : Doc) (index : Nat) (name : String) : String :=
  match d.byIndex.get? index with
  | some text => text
  | none => (d.byName.get? name).getD ""

end Doc

structure Param where
  name : String
  type : String
  default? : Option String
  deriving DecidableEq, Repr

structure Method where
  name : String
  returnType : String
  params : List Param
  doc : Doc
  deriving Repr

namespace Method

def paramTypes (m : Method) : List String := m.params.map (·.type)

def key (m : Method) : String := Signature.key m.name m.paramTypes

def arityKey (m : Method) : String := Signature.arityKey m.name m.params.length

end Method

end WasmBindings
