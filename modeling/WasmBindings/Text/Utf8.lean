namespace WasmBindings.Text

def replacement : Char := Char.ofNat 0xFFFD

/-- A character whose first bytes have been read: the bits so far, how many bytes are missing,
and the range of the next one. -/
structure Unfinished where
  bits : Nat
  missing : Nat
  least : Nat
  greatest : Nat

namespace Unfinished

def ofLead (b : Nat) : Option Unfinished :=
  if 0xC2 ≤ b ∧ b ≤ 0xDF then some ⟨b - 0xC0, 1, 0x80, 0xBF⟩
  else if b = 0xE0 then some ⟨0, 2, 0xA0, 0xBF⟩
  else if b = 0xED then some ⟨13, 2, 0x80, 0x9F⟩
  else if 0xE1 ≤ b ∧ b ≤ 0xEF then some ⟨b - 0xE0, 2, 0x80, 0xBF⟩
  else if b = 0xF0 then some ⟨0, 3, 0x90, 0xBF⟩
  else if b = 0xF4 then some ⟨4, 3, 0x80, 0x8F⟩
  else if 0xF1 ≤ b ∧ b ≤ 0xF3 then some ⟨b - 0xF0, 3, 0x80, 0xBF⟩
  else none

def accepts (u : Unfinished) (b : Nat) : Bool := u.least ≤ b && b ≤ u.greatest

def extend (u : Unfinished) (b : Nat) : Unfinished :=
  ⟨u.bits * 64 + (b - 0x80), u.missing - 1, 0x80, 0xBF⟩

end Unfinished

def lead (b : Nat) : List Char × Option Unfinished :=
  if b < 0x80 then ([Char.ofNat b], none)
  else match Unfinished.ofLead b with
    | some u => ([], some u)
    | none => ([replacement], none)

def decodeFrom : Option Unfinished → List Nat → List Char
  | none, [] => []
  | some _, [] => [replacement]
  | none, b :: r => (lead b).1 ++ decodeFrom (lead b).2 r
  | some u, b :: r =>
    if u.accepts b then
      if u.missing ≤ 1 then Char.ofNat (u.extend b).bits :: decodeFrom none r
      else decodeFrom (some (u.extend b)) r
    else replacement :: ((lead b).1 ++ decodeFrom (lead b).2 r)

def decodeUtf8 (bytes : List Nat) : List Char := decodeFrom none bytes

def unifyLineEnds : List Char → List Char
  | '\r' :: '\n' :: r => '\n' :: unifyLineEnds r
  | c :: r => (if c = '\r' then '\n' else c) :: unifyLineEnds r
  | [] => []

end WasmBindings.Text
