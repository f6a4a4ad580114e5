import WasmBindings.Json.Basic
import WasmBindings.Text.Printable

namespace WasmBindings.Json

def hexText (width n : Nat) : List Char :=
  let ds := Nat.toDigits 16 n
  List.replicate (width - ds.length) '0' ++ ds

def literalChar (mark c : Char) : List Char :=
  if c = mark ∨ c = '\\' then ['\\', c]
  else if c = '\n' then ['\\', 'n']
  else if c = '\r' then ['\\', 'r']
  else if c = '\t' then ['\\', 't']
  else if Text.isPrintable c then [c]
  else if c.toNat < 0x100 then '\\' :: 'x' :: hexText 2 c.toNat
  else if c.toNat < 0x10000 then '\\' :: 'u' :: hexText 4 c.toNat
  else '\\' :: 'U' :: hexText 8 c.toNat

def apostrophe : Char := Char.ofNat 39

def literalText (s : String) : String :=
  let cs := s.toList
  let mark := if cs.contains apostrophe && !cs.contains '"' then '"' else apostrophe
  String.ofList (mark :: cs.flatMap (literalChar mark) ++ [mark])

mutual

def literal : Json → String
  | .null => "None"
  | .bool b => if b then "True" else "False"
  | .int n => toString n
  | .float x => x.text
  | .str s => literalText s
  | .arr items => "[" ++ literalItems items ++ "]"
  | .obj fields => "\x7b" ++ literalFields fields ++ "\x7d"

def literalItems : List Json → String
  | [] => ""
  | [v] => literal v
  | v :: vs => literal v ++ ", " ++ literalItems vs

def literalFields : List (String × Json) → String
  | [] => ""
  | [(k, v)] => literalText k ++ ": " ++ literal v
  | (k, v) :: fs => literalText k ++ ": " ++ literal v ++ ", " ++ literalFields fs

end

def display : Json → String
  | .str s => s
  | v => literal v

@[simp] theorem display_str (s : String) : (Json.str s).display = s := rfl

end WasmBindings.Json
