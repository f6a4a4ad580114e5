namespace WasmBindings.Emit

structure Writer where
  unit : String
  level : Nat
  lines : List String

namespace Writer

def new (unit : String) : Writer := ⟨unit, 0, []⟩

def raw (w : Writer) (text : String) : Writer := { w with lines := w.lines ++ [text] }

def indentation (w : Writer) : String := String.join (List.replicate w.level w.unit)

def line (w : Writer) (text : String) : Writer :=
  w.raw (if text == "" then "" else w.indentation ++ text)

def linesOf (w : Writer) (texts : List String) : Writer := texts.foldl line w

def indent (w : Writer) : Writer := { w with level := w.level + 1 }

def dedent (w : Writer) : Writer := { w with level := w.level - 1 }

def openBlock (w : Writer) (header : String) : Writer := (w.line header).indent

def closeBlock (w : Writer) (footer : String) : Writer := w.dedent.line footer

def block (w : Writer) (header : String) (body : Writer → Writer) : Writer :=
  (body (w.openBlock header)).closeBlock "\x7d"

def output (w : Writer) : String := String.intercalate "\n" w.lines

@[simp] theorem lines_raw (w : Writer) (text : String) :
    (w.raw text).lines = w.lines ++ [text] := rfl

@[simp] theorem lines_line (w : Writer) (text : String) :
    (w.line text).lines = w.lines ++ [if text == "" then "" else w.indentation ++ text] := rfl

@[simp] theorem lines_indent (w : Writer) : w.indent.lines = w.lines := rfl

@[simp] theorem lines_dedent (w : Writer) : w.dedent.lines = w.lines := rfl

@[simp] theorem level_line (w : Writer) (text : String) : (w.line text).level = w.level := rfl

@[simp] theorem level_indent (w : Writer) : w.indent.level = w.level + 1 := rfl

@[simp] theorem level_dedent (w : Writer) : w.dedent.level = w.level - 1 := rfl

end Writer

end WasmBindings.Emit
