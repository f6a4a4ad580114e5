namespace WasmBindings

/-- A finite number is `mantissa * 2 ^ exponent`. -/
inductive Binary64 where
  | finite (negative : Bool) (mantissa : Nat) (exponent : Int)
  | infinite (negative : Bool)
  | nan
  deriving DecidableEq, Repr

namespace Binary64

def leastExponent : Int := -1074

def greatestExponent : Int := 971

def leastNormal : Nat := Nat.pow 2 52

def zero (negative : Bool) : Binary64 := .finite negative 0 leastExponent

def isZero : Binary64 → Bool
  | .finite _ m _ => m == 0
  | _ => false

def digitCount (n : Nat) : Nat := (Nat.toDigits 10 n).length

def roundQuotient (num den : Nat) : Nat :=
  let q := num / den
  let r := num % den
  if 2 * r < den then q else if den < 2 * r then q + 1 else if q % 2 = 0 then q else q + 1

def scaled (base : Nat) (num den : Nat) (exponent : Int) : Nat × Nat :=
  let power := Nat.pow base exponent.natAbs
  if exponent < 0 then (num * power, den) else (num, den * power)

def nearest (negative : Bool) (num den : Nat) : Binary64 :=
  let top : Int := (num.log2 : Int) - den.log2
  let (a, b) := scaled 2 num den top
  let lead := if a < b then top - 1 else top
  let exponent := if lead - 52 < leastExponent then leastExponent else lead - 52
  let (a, b) := scaled 2 num den exponent
  let mantissa := roundQuotient a b
  let (mantissa, exponent) :=
    if mantissa = 2 * leastNormal then (leastNormal, exponent + 1) else (mantissa, exponent)
  if greatestExponent < exponent then .infinite negative else .finite negative mantissa exponent

def ofDecimal (negative : Bool) (digits : Nat) (exponent : Int) : Binary64 :=
  if digits = 0 then zero negative
  else
    let size : Int := digitCount digits + exponent
    if 400 < size then .infinite negative
    else if size < -400 then zero negative
    else
      let (num, den) := scaled 10 digits 1 (-exponent)
      nearest negative num den

structure Gap where
  below : Nat
  value : Nat
  above : Nat
  unit : Nat

/-- The reals that read back as `mantissa * 2 ^ exponent` lie between the midpoints to its
neighbours; below a power of two the neighbour is half as far. -/
def gap (mantissa : Nat) (exponent : Int) : Gap :=
  let (scale, unit) := scaled 2 1 4 (-exponent)
  let narrow := mantissa = leastNormal ∧ leastExponent < exponent
  ⟨(4 * mantissa - if narrow then 1 else 2) * scale, 4 * mantissa * scale,
    (4 * mantissa + 2) * scale, unit⟩

def Gap.readsBack (g : Gap) (even : Bool) (num den : Nat) : Bool :=
  if even then g.below * den ≤ num * g.unit && num * g.unit ≤ g.above * den
  else g.below * den < num * g.unit && num * g.unit < g.above * den

def pointPlace (num den : Nat) : Int :=
  if den ≤ num then digitCount (num / den)
  else
    let t := digitCount (den / num)
    if num * Nat.pow 10 (t - 1) = den then 2 - t else 1 - t

def candidate (g : Gap) (even : Bool) (point : Int) (count : Nat) : Option (Nat × Int) :=
  let exponent := point - count
  let (a, b) := scaled 10 g.value g.unit exponent
  let low := a / b
  let reads (n : Nat) : Bool :=
    let (num, den) := scaled 10 n 1 (-exponent)
    g.readsBack even num den
  let near := roundQuotient a b
  if reads near then some (near, exponent)
  else if reads low then some (low, exponent)
  else if reads (low + 1) then some (low + 1, exponent)
  else none

def shortest (mantissa : Nat) (exponent : Int) : Nat × Int :=
  let g := gap mantissa exponent
  let point := pointPlace g.value g.unit
  ((List.range 17).findSome? fun i => candidate g (mantissa % 2 == 0) point (i + 1)).getD
    (mantissa, 0)

def zeros (n : Nat) : List Char := List.replicate n '0'

def exponentText (e : Int) : List Char :=
  let ds := Nat.toDigits 10 e.natAbs
  'e' :: (if e < 0 then '-' else '+') :: (zeros (2 - ds.length) ++ ds)

/-- Digits with the point after the first `point` of them: positional from 0.0001 up to below
10^16, with at least one digit on either side, and with an exponent elsewhere. -/
def placePoint (ds : List Char) (point : Int) : List Char :=
  if -4 < point ∧ point ≤ 16 then
    if point ≤ 0 then '0' :: '.' :: (zeros point.natAbs ++ ds)
    else
      let k := point.natAbs
      if ds.length ≤ k then ds ++ zeros (k - ds.length) ++ ['.', '0']
      else ds.take k ++ '.' :: ds.drop k
  else
    (match ds with
      | [d] => [d]
      | d :: r => d :: '.' :: r
      | [] => []) ++ exponentText (point - 1)

def magnitudeText (mantissa : Nat) (exponent : Int) : List Char :=
  if mantissa = 0 then ['0', '.', '0']
  else
    let (n, e) := shortest mantissa exponent
    let ds := Nat.toDigits 10 n
    let trimmed := (ds.reverse.dropWhile (· == '0')).reverse
    placePoint trimmed (ds.length + e)

def text : Binary64 → String
  | .finite negative m e => String.ofList ((if negative then ['-'] else []) ++ magnitudeText m e)
  | .infinite negative => if negative then "-inf" else "inf"
  | .nan => "nan"

end Binary64

end WasmBindings
