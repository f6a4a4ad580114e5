import WasmBindings.Json.Basic

/-!
Reading JSON text.  Besides the standard grammar the words `NaN`, `Infinity` and `-Infinity` are
numbers.  A number with a fraction or an exponent is floating-point, any other one is whole.  Of a
key that an object gives twice, the last entry counts.
-/

namespace WasmBindings.Json

def isGap (c : Char) : Bool := c == ' ' || c == '\t' || c == '\n' || c == '\r'

def skipGap (s : List Char) : List Char := s.dropWhile isGap

def hexValue? (c : Char) : Option Nat :=
  if '0' ≤ c ∧ c ≤ '9' then some (c.toNat - '0'.toNat)
  else if 'a' ≤ c ∧ c ≤ 'f' then some (c.toNat - 'a'.toNat + 10)
  else if 'A' ≤ c ∧ c ≤ 'F' then some (c.toNat - 'A'.toNat + 10)
  else none

def hexUnit? (a b c d : Char) : Option Nat := do
  let a ← hexValue? a
  let b ← hexValue? b
  let c ← hexValue? c
  let d ← hexValue? d
  return ((a * 16 + b) * 16 + c) * 16 + d

def escape? (c : Char) : Option Nat :=
  match c with
  | '"' => some 34
  | '\\' => some 92
  | '/' => some 47
  | 'b' => some 8
  | 'f' => some 12
  | 'n' => some 10
  | 'r' => some 13
  | 't' => some 9
  | _ => none

def readCodes : List Char → Option (List Nat × List Char)
  | '"' :: r => some ([], r)
  | '\\' :: 'u' :: a :: b :: c :: d :: r => do
    let n ← hexUnit? a b c d
    let (ns, rest) ← readCodes r
    return (n :: ns, rest)
  | '\\' :: e :: r => do
    let n ← escape? e
    let (ns, rest) ← readCodes r
    return (n :: ns, rest)
  | c :: r =>
    if c = '\\' ∨ c.toNat < 32 then none
    else do
      let (ns, rest) ← readCodes r
      return (c.toNat :: ns, rest)
  | [] => none

/-- Joins the two halves of a code point above U+FFFF; a half that stands alone is no character
and is replaced. -/
def joinHalves : List Nat → List Char
  | hi :: lo :: r =>
    if 0xD800 ≤ hi ∧ hi < 0xDC00 ∧ 0xDC00 ≤ lo ∧ lo < 0xE000 then
      Char.ofNat (0x10000 + (hi - 0xD800) * 0x400 + (lo - 0xDC00)) :: joinHalves r
    else ofCode hi :: joinHalves (lo :: r)
  | [n] => [ofCode n]
  | [] => []
where
  ofCode (n : Nat) : Char := if 0xD800 ≤ n ∧ n < 0xE000 then Char.ofNat 0xFFFD else Char.ofNat n

def readText (s : List Char) : Option (String × List Char) := do
  let (ns, rest) ← readCodes s
  return (String.ofList (joinHalves ns), rest)

def digitsValue (ds : List Char) : Nat := ds.foldl (fun n c => 10 * n + (c.toNat - '0'.toNat)) 0

def readWhole (s : List Char) : Option (List Char × List Char) :=
  match s with
  | '0' :: r => some (['0'], r)
  | c :: _ => if c.isDigit then some (s.takeWhile Char.isDigit, s.dropWhile Char.isDigit) else none
  | [] => none

def readFraction (s : List Char) : Option (List Char × List Char) :=
  match s with
  | '.' :: r =>
    match r.takeWhile Char.isDigit with
    | [] => none
    | ds => some (ds, r.dropWhile Char.isDigit)
  | _ => none

def readExponent (s : List Char) : Option (Int × List Char) :=
  match s with
  | c :: r =>
    if c = 'e' ∨ c = 'E' then
      let (negative, r) := match r with
        | '-' :: t => (true, t)
        | '+' :: t => (false, t)
        | t => (false, t)
      match r.takeWhile Char.isDigit with
      | [] => none
      | ds =>
        let n : Int := digitsValue ds
        some (if negative then -n else n, r.dropWhile Char.isDigit)
    else none
  | [] => none

def readNumber (s : List Char) : Option (Json × List Char) := do
  let (negative, r) := match s with
    | '-' :: r => (true, r)
    | r => (false, r)
  let (whole, r) ← readWhole r
  match readFraction r, readExponent r with
  | none, none =>
    let n : Int := digitsValue whole
    return (.int (if negative then -n else n), r)
  | none, some (e, r) => return (.float (.ofDecimal negative (digitsValue whole) e), r)
  | some (ds, r), _ =>
    let (e, r) := (readExponent r).getD (0, r)
    return (.float (.ofDecimal negative (digitsValue (whole ++ ds)) (e - ds.length)), r)

def words : List (List Char × Json) :=
  [("null".toList, .null), ("true".toList, .bool true), ("false".toList, .bool false),
    ("NaN".toList, .float .nan), ("Infinity".toList, .float (.infinite false)),
    ("-Infinity".toList, .float (.infinite true))]

def readWord (s : List Char) : Option (Json × List Char) :=
  words.findSome? fun (w, v) => if w.isPrefixOf s then some (v, s.drop w.length) else none

mutual

def readValue : Nat → List Char → Option (Json × List Char)
  | 0, _ => none
  | fuel + 1, s =>
    match s with
    | '"' :: r => do
      let (t, rest) ← readText r
      return (.str t, rest)
    | '[' :: r =>
      match skipGap r with
      | ']' :: rest => some (.arr [], rest)
      | r => do
        let (items, rest) ← readItems fuel r
        return (.arr items, rest)
    | '{' :: r =>
      match skipGap r with
      | '}' :: rest => some (.obj [], rest)
      | r => do
        let (fields, rest) ← readFields fuel r
        return (.obj (Table.ofList fields), rest)
    | s => (readWord s).or (readNumber s)

def readItems : Nat → List Char → Option (List Json × List Char)
  | 0, _ => none
  | fuel + 1, s => do
    let (v, r) ← readValue fuel s
    match skipGap r with
    | ']' :: rest => return ([v], rest)
    | ',' :: r =>
      let (vs, rest) ← readItems fuel (skipGap r)
      return (v :: vs, rest)
    | _ => none

def readFields : Nat → List Char → Option (List (String × Json) × List Char)
  | 0, _ => none
  | fuel + 1, s =>
    match s with
    | '"' :: r => do
      let (key, r) ← readText r
      match skipGap r with
      | ':' :: r =>
        let (v, r) ← readValue fuel (skipGap r)
        match skipGap r with
        | '}' :: rest => return ([(key, v)], rest)
        | ',' :: r =>
          let (fields, rest) ← readFields fuel (skipGap r)
          return ((key, v) :: fields, rest)
        | _ => none
      | _ => none
    | _ => none

end

def read (s : List Char) : Option Json :=
  match readValue (2 * s.length + 2) (skipGap s) with
  | some (v, rest) => if (skipGap rest).isEmpty then some v else none
  | none => none

end WasmBindings.Json
