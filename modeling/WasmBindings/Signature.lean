import WasmBindings.Cpp.Spelling

namespace WasmBindings.Signature

/-- The exact key, `SetDebugLevel(int)`. -/
def key (name : String) (types : List String) : String :=
  name ++ "(" ++ String.intercalate "," (types.map Spelling.normalize) ++ ")"

/-- The key by parameter count, `SetDebugLevel#1`. -/
def arityKey (name : String) (count : Nat) : String := name ++ "#" ++ toString count

end WasmBindings.Signature
