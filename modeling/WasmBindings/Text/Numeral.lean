import WasmBindings.Text.Digit

namespace WasmBindings.Text

def dropSign : List Char → List Char
  | '-' :: r => r
  | '+' :: r => r
  | s => s

def readDigits (s : List Char) : Option (List Char × List Char) :=
  match s.takeWhile isDecimalDigit with
  | [] => none
  | ds => some (ds, s.dropWhile isDecimalDigit)

def exponentValue? (s : List Char) : Option Int :=
  match s with
  | [] => some 0
  | c :: r =>
    if c = 'e' ∨ c = 'E' then
      match readDigits (dropSign r) with
      | some (ds, []) =>
        let n : Int := decimalValue ds
        some (if r.head? = some '-' then -n else n)
      | _ => none
    else none

/-- A numeral without its sign as `digits * 10 ^ exponent`.  The point needs a digit before it. -/
def numeral? (s : List Char) : Option (Nat × Int) := do
  let (whole, r) ← readDigits (dropSign s)
  match r with
  | '.' :: t =>
    let fraction := t.takeWhile isDecimalDigit
    let e ← exponentValue? (t.dropWhile isDecimalDigit)
    return (decimalValue (whole ++ fraction), e - fraction.length)
  | r =>
    let e ← exponentValue? r
    return (decimalValue whole, e)

def integer? (s : List Char) : Option Int :=
  match s with
  | '-' :: r => (unsigned? r).map fun n => -(n : Int)
  | s => (unsigned? s).map fun n => (n : Int)
where
  unsigned? (s : List Char) : Option Nat :=
    match readDigits s with
    | some (ds, []) => some (decimalValue ds)
    | some (ds, ['\n']) => some (decimalValue ds)
    | _ => none

end WasmBindings.Text
