import WasmBindings.Json.Display
import WasmBindings.Method
import WasmBindings.Text.Blank
import WasmBindings.Text.Case
import WasmBindings.Tree.Access

namespace WasmBindings.Comment

open Text

def cleanLine (s : List Char) : List Char :=
  let line := squeeze s
  let line := match line with
    | c :: _ => if isOpening c then trimStart (line.dropWhile isOpening) else line
    | [] => []
  let line := match line.getLast? with
    | some c =>
      if isClosing c then trimEnd (line.reverse.dropWhile isClosing).reverse else line
    | none => []
  let line := trim line
  if line ∈ [['@'], ['{'], ['}']] then [] else line
where
  isOpening (c : Char) : Bool := c == '@' || c == '{'
  isClosing (c : Char) : Bool := c == '@' || c == '}'

def fragment? (v : Json) : Option String :=
  if Tree.hasKind "TextComment" v then
    match v.field? "text" with
    | some (.str s) =>
      match cleanLine s.toList with
      | [] => none
      | line => some (String.ofList line)
    | _ => none
  else none

def text (v : Json) : String :=
  String.ofList
    (trim (String.intercalate " " ((Tree.nodes v).filterMap fragment?)).toList)

def find? (v : Json) : Except Fault (Option Json) :=
  Tree.firstOfKind "FullComment" (Tree.children v)

def addParam (d : Doc) (v : Json) : Doc :=
  let text := text v
  if text == "" then d
  else
    let d := match v.field? "param" with
      | some (.str name) => if name == "" then d else { d with byName := d.byName.insert name text }
      | _ => d
    match v.field? "paramIdx" with
    | some (.int i) => { d with byIndex := d.byIndex.insert i text }
    | _ => d

def isReturn (v : Json) : Bool :=
  let command := ((v.field? "name").getD (.str "")).display
  String.ofList (lower command.toList) ∈ ["return", "returns"]

def addPart (d : Doc) (v : Json) : Doc :=
  if Tree.hasKind "ParagraphComment" v then
    let text := text v
    if text == "" then d else { d with description := d.description ++ [text] }
  else if Tree.hasKind "ParamCommandComment" v then addParam d v
  else if Tree.hasKind "BlockCommandComment" v && isReturn v then { d with returns := text v }
  else d

def parse (v : Json) : Except Fault Doc := do
  (Tree.children v).forM Tree.checkNode
  return (Tree.children v).foldl addPart .empty

def parse? : Option Json → Except Fault Doc
  | some v => parse v
  | none => .ok .empty

end WasmBindings.Comment
