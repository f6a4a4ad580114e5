namespace WasmBindings.Emit

def banner : List String :=
  ["// Generated by scripts/gen_bindings.py.", "// Do not edit manually."]

def joinLines (lines : List String) : String := String.intercalate "\n" lines

def commaList (parts : List String) : String := String.intercalate ", " parts

end WasmBindings.Emit
