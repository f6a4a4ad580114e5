import WasmBindings.Binary64
import WasmBindings.Table

namespace WasmBindings

inductive Json where
  | null
  | bool (b : Bool)
  | int (n : Int)
  | float (x : Binary64)
  | str (s : String)
  | arr (items : List Json)
  | obj (fields : List (String × Json))

namespace Json

instance : Inhabited Json := ⟨.null⟩

def isObject : Json → Bool
  | .obj _ => true
  | _ => false

def field? : Json → String → Option Json
  | .obj fields, key => Table.get? fields key
  | _, _ => none

def isText (s : String) : Json → Bool
  | .str t => t == s
  | _ => false

def fieldIs (v : Json) (key s : String) : Bool := (v.field? key).any (isText s)

def isTruthy : Json → Bool
  | .null => false
  | .bool b => b
  | .int n => n != 0
  | .float x => !x.isZero
  | .str s => s != ""
  | .arr items => !items.isEmpty
  | .obj fields => !fields.isEmpty

def isScalar : Json → Bool
  | .arr _ | .obj _ => false
  | _ => true

def text? : Json → Option String
  | .str s => some s
  | _ => none

@[simp] theorem field?_obj (fields : List (String × Json)) (key : String) :
    (Json.obj fields).field? key = Table.get? fields key := rfl

@[simp] theorem isText_str (s t : String) : isText s (.str t) = (t == s) := rfl

theorem sizeOf_of_get? {fields : List (String × Json)} {key : String} {v : Json}
    (h : Table.get? fields key = some v) : sizeOf v < sizeOf fields := by
  induction fields with
  | nil => simp at h
  | cons e t ih =>
    obtain ⟨j, b⟩ := e
    rw [Table.get?_cons] at h
    split at h
    · cases h
      simp
      omega
    · have := ih h
      simp
      omega

end Json

end WasmBindings
