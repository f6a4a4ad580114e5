import WasmBindings.Text.Search

namespace WasmBindings

/-- A command line, and the text of the source file at its end if that can be read. -/
structure CompilerCall where
  command : List String
  source : Option String
  deriving DecidableEq, Repr

inductive CompilerReply where
  | unavailable (reason : String)
  | crashed (reason : String)
  | exited (status : Int) (output : String)
  deriving DecidableEq, Repr

abbrev Compiler := CompilerCall → CompilerReply

structure CompilerRule where
  program : Option String
  filter : Option String
  part : Option String
  reply : CompilerReply

namespace CompilerRule

def filterOption : List Char := "-ast-dump-filter=".toList

def filterOf (command : List String) : Option String :=
  (command.find? fun a => filterOption.isPrefixOf a.toList).map fun a =>
    String.ofList (a.toList.drop filterOption.length)

def applies (r : CompilerRule) (call : CompilerCall) : Bool :=
  r.program.all (fun p => call.command.head? == some p)
    && r.filter.all (fun f => filterOf call.command == some f)
    && r.part.all fun p => Text.occursIn p.toList (call.source.getD "").toList

end CompilerRule

/-- A compiler that follows a script: the first rule that applies gives the reply, and without
one the run fails silently. -/
def Compiler.scripted (rules : List CompilerRule) : Compiler := fun call =>
  match rules.find? (·.applies call) with
  | some r => r.reply
  | none => .exited 1 ""

end WasmBindings
