import WasmBindings.Json.Reader
import WasmBindings.Text.Blank

/-!
The documents of one compiler run.  With a filter the compiler prints one JSON object for each
declaration that matches, one after the other, so its output may be several documents that are
not separated by anything.
-/

namespace WasmBindings.Documents

/-- Where the scan stands inside a document: how many braces are open, whether it is inside a
quoted text, whether the last character there was an escape, and the document so far, last
character first. -/
structure Cursor where
  depth : Nat
  quoted : Bool
  escaped : Bool
  taken : List Char

namespace Cursor

def start (c : Char) : Cursor := ⟨1, false, false, [c]⟩

def next (k : Cursor) (c : Char) : Cursor :=
  let taken := c :: k.taken
  if k.quoted then
    if k.escaped then ⟨k.depth, true, false, taken⟩
    else if c = '\\' then ⟨k.depth, true, true, taken⟩
    else ⟨k.depth, c != '"', false, taken⟩
  else if c = '"' then ⟨k.depth, true, false, taken⟩
  else if c = '{' then ⟨k.depth + 1, false, false, taken⟩
  else if c = '}' then ⟨k.depth - 1, false, false, taken⟩
  else ⟨k.depth, false, false, taken⟩

def isClosed (k : Cursor) : Bool := k.depth == 0

def document (k : Cursor) : List Char := k.taken.reverse

end Cursor

/-- The texts of the documents: each starts at a brace outside any document and ends with the
brace that closes it.  A document that is never closed is left out. -/
def cut : Option Cursor → List Char → List (List Char)
  | _, [] => []
  | none, c :: r => if c = '{' then cut (some (.start c)) r else cut none r
  | some k, c :: r =>
    if (k.next c).isClosed then (k.next c).document :: cut none r else cut (some (k.next c)) r

def setKind : String := "ClangAstDocumentSet"

def join : List Json → Option Json
  | [] => none
  | [v] => some v
  | vs => some (.obj [("kind", .str setKind), ("inner", .arr vs)])

def parse (output : String) : Option Json :=
  match Text.trim output.toList with
  | [] => none
  | text =>
    match Json.read text with
    | some .null => none
    | some v => some v
    | none => ((cut none text).mapM Json.read).bind join

end WasmBindings.Documents
