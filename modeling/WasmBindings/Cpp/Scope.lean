import WasmBindings.Text.Search

namespace WasmBindings.Scope

def components : List Char → List (List Char)
  | ':' :: ':' :: r => [] :: components r
  | c :: r => Text.consHead c (components r)
  | [] => [[]]

def isScoped (name : String) : Bool := Text.occursIn [':', ':'] name.toList

def simpleName (name : String) : String :=
  String.ofList ((components name.toList).getLastD [])

theorem components_ne_nil (s : List Char) : components s ≠ [] := by
  fun_cases components s
  · simp
  · exact Text.consHead_ne_nil _ _
  · simp

end WasmBindings.Scope
