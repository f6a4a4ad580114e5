namespace WasmBindings.Text

def isBlank (c : Char) : Bool :=
  let n := c.toNat
  (9 ≤ n && n ≤ 13) || (28 ≤ n && n ≤ 32) || n == 0x85 || n == 0xA0 || n == 0x1680
    || (0x2000 ≤ n && n ≤ 0x200A) || n == 0x2028 || n == 0x2029 || n == 0x202F || n == 0x205F
    || n == 0x3000

def trimStart (s : List Char) : List Char := s.dropWhile isBlank

def trimEnd (s : List Char) : List Char := (s.reverse.dropWhile isBlank).reverse

def trim (s : List Char) : List Char := trimEnd (trimStart s)

def collapse : List Char → List Char
  | [] => []
  | c :: r =>
    if isBlank c then
      match collapse r with
      | ' ' :: t => ' ' :: t
      | t => ' ' :: t
    else c :: collapse r

def squeeze (s : List Char) : List Char := trim (collapse s)

def withoutBlanks (s : List Char) : List Char := s.filter fun c => !isBlank c

@[simp] theorem isBlank_space : isBlank ' ' = true := by decide

@[simp] theorem trimStart_nil : trimStart [] = [] := rfl

@[simp] theorem trimEnd_nil : trimEnd [] = [] := rfl

@[simp] theorem trim_nil : trim [] = [] := rfl

theorem collapse_cons_of_not_blank {c : Char} (h : isBlank c = false) (r : List Char) :
    collapse (c :: r) = c :: collapse r := by
  simp [collapse, h]

@[simp] theorem withoutBlanks_append (s t : List Char) :
    withoutBlanks (s ++ t) = withoutBlanks s ++ withoutBlanks t := by
  simp [withoutBlanks]

end WasmBindings.Text
