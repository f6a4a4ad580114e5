import WasmBindings.Method
import WasmBindings.Text.WordChar

namespace WasmBindings.ParamName

/-- The first of `name 0`, `name 1`, … that is not taken.  One of the first `taken.length + 1`
distinct names is free. -/
def firstFree (name : Nat → String) (taken : List String) : String :=
  match (List.range (taken.length + 1)).find? fun i => !taken.contains (name i) with
  | some i => name i
  | none => name 0

def numbered (name : String) (n : Nat) : String := name ++ "_" ++ toString n

def distinct (taken : List String) (name : String) : String :=
  if taken.contains name then firstFree (fun i => numbered name (i + 1)) taken else name

def isIdentifier (name : String) : Bool :=
  match name.toList with
  | [] => false
  | c :: r => Text.isIdentStart c && endsWell (r.dropWhile Text.isIdentChar)
where
  endsWell : List Char → Bool
    | [] => true
    | r => r == ['\n']

def proposed (index : Nat) (name : String) : String :=
  if isIdentifier name then name else "arg" ++ toString index

def assignFrom (taken : List String) (index : Nat) : List String → List String
  | [] => []
  | n :: rest =>
    let name := distinct taken (proposed index n)
    name :: assignFrom (name :: taken) (index + 1) rest

def assign (names : List String) : List String := assignFrom [] 0 names

@[simp] theorem length_assignFrom (taken : List String) (index : Nat) (names : List String) :
    (assignFrom taken index names).length = names.length := by
  induction names generalizing taken index with
  | nil => rfl
  | cons n rest ih => simp [assignFrom, ih]

@[simp] theorem length_assign (names : List String) : (assign names).length = names.length :=
  length_assignFrom [] 0 names

def reservedWords : List String :=
  ["arguments", "await", "break", "case", "catch", "class", "const", "continue", "debugger",
    "default", "delete", "do", "else", "enum", "eval", "export", "extends", "false", "finally",
    "for", "function", "if", "implements", "import", "in", "instanceof", "interface", "let",
    "new", "null", "package", "private", "protected", "public", "return", "static", "super",
    "switch", "this", "throw", "true", "try", "typeof", "var", "void", "while", "with", "yield"]

/-- The names tried for a reserved word: `in` becomes `in_`, then `in_1`, `in_2` and so on. -/
def escaped (name : String) : Nat → String
  | 0 => name ++ "_"
  | n + 1 => numbered name (n + 1)

def unreserveFrom (taken : List String) : List String → List String
  | [] => []
  | n :: rest =>
    if reservedWords.contains n then
      let name := firstFree (escaped n) taken
      name :: unreserveFrom (name :: taken) rest
    else n :: unreserveFrom taken rest

@[simp] theorem length_unreserveFrom (taken names : List String) :
    (unreserveFrom taken names).length = names.length := by
  induction names generalizing taken with
  | nil => rfl
  | cons n rest ih =>
    rw [unreserveFrom]
    split <;> simp [ih]

def unreserve (names : List String) : List String := unreserveFrom names names

@[simp] theorem length_unreserve (names : List String) :
    (unreserve names).length = names.length :=
  length_unreserveFrom names names

end WasmBindings.ParamName
