import WasmBindings.Text.Case
import WasmBindings.Text.Search

namespace WasmBindings.Naming

inductive LetterClass where
  | upper
  | lower
  | digit
  | other
  deriving DecidableEq, Repr

def LetterClass.of (c : Char) : LetterClass :=
  if c.isUpper then .upper else if c.isLower then .lower else if c.isDigit then .digit else .other

structure Stretch where
  letterClass : LetterClass
  letters : List Char

def stretches : List Char → List Stretch
  | [] => []
  | c :: r =>
    match stretches r with
    | s :: rest =>
      if s.letterClass = .of c then ⟨s.letterClass, c :: s.letters⟩ :: rest
      else ⟨.of c, [c]⟩ :: s :: rest
    | [] => [⟨.of c, [c]⟩]

/-- Whether the plural mark of a capitalised abbreviation may end here: at the end of the text,
before its last line feed, or before another capital. -/
def endsPlural : List Stretch → Bool
  | [] => true
  | ⟨.upper, _⟩ :: _ => true
  | [s] => s.letters == ['\n']
  | _ => false

/-- The words of a part.  Capitals before small letters form a word of their own, except the last
one, which starts the next word (`XMLFile` is `XML`, `File`); capitals with a plural `s` stay
together (`IDs`).  What is neither letter nor digit belongs to no word. -/
def wordsOf : List Stretch → List (List Char)
  | ⟨.upper, us⟩ :: ⟨.lower, ls⟩ :: rest =>
    if 2 ≤ us.length ∧ ls = ['s'] ∧ endsPlural rest then (us ++ ls) :: wordsOf rest
    else if 2 ≤ us.length then us.dropLast :: (us.drop (us.length - 1) ++ ls) :: wordsOf rest
    else (us ++ ls) :: wordsOf rest
  | ⟨.other, _⟩ :: rest => wordsOf rest
  | s :: rest => s.letters :: wordsOf rest
  | [] => []

def partWords (part : List Char) : List (List Char) :=
  match wordsOf (stretches part) with
  | [] => [part]
  | ws => ws

def isVerb (verb first : List Char) : Bool := verb.isPrefixOf first && 3 < first.length

def splitVerb : List (List Char) → List (List Char)
  | [] => []
  | first :: rest =>
    let small := Text.lower first
    if isVerb "set".toList small then "set".toList :: small.drop 3 :: rest.map Text.lower
    else if isVerb "get".toList small then "get".toList :: small.drop 3 :: rest.map Text.lower
    else small :: rest

def wordsChars (name : List Char) : List (List Char) :=
  splitVerb (((Text.splitAt '_' name).filter fun p => !p.isEmpty).flatMap partWords)

def capitalize : List Char → List Char
  | [] => []
  | c :: r => Text.upperChar c ++ r

def camelChars (name : List Char) : List Char :=
  match wordsChars name with
  | [] => name
  | first :: rest => first ++ rest.flatMap capitalize

def words (name : String) : List String := (wordsChars name.toList).map String.ofList

/-- The name in camel case: `Set_debug_level` becomes `setDebugLevel`. -/
def camelCase (name : String) : String := String.ofList (camelChars name.toList)

end WasmBindings.Naming
