import WasmBindings.Workspace.Compiler
import WasmBindings.Workspace.FileTree

namespace WasmBindings

inductive LogLevel where
  | debug
  | info
  | warning
  | error
  deriving DecidableEq, Repr

def LogLevel.name : LogLevel → String
  | .debug => "DEBUG"
  | .info => "INFO"
  | .warning => "WARNING"
  | .error => "ERROR"

structure LogRecord where
  level : LogLevel
  source : String
  message : String
  deriving DecidableEq, Repr

def LogRecord.line (r : LogRecord) : String := r.level.name ++ " " ++ r.source ++ ": " ++ r.message

/-- The state of a run.  `calls`, `log` and `printed` are in the order in which they happened, and
`tempCount` numbers the temporary directories. -/
structure Workspace where
  files : FileTree
  compiler : Compiler
  workingDir : List String
  tempCount : Nat
  calls : List CompilerCall
  log : List LogRecord
  printed : List String

abbrev Session (α : Type) := ExceptT Fault (StateM Workspace) α

namespace Workspace

def tempRoot : String := "tmp"

def ofFiles (files : FileTree) (compiler : Compiler) (workingDir : List String) : Workspace :=
  ⟨files, compiler, workingDir, 0, [], [], []⟩

def clearRecords (w : Workspace) : Workspace := { w with calls := [], log := [], printed := [] }

def printedText (w : Workspace) : String := String.join (w.printed.map (· ++ "\n"))

end Workspace

namespace Session

def ofExcept {α : Type} : Except Fault α → Session α
  | .ok a => return a
  | .error f => throw f

def log (level : LogLevel) (source message : String) : Session Unit :=
  modify fun w => { w with log := w.log ++ [⟨level, source, message⟩] }

def logAll (level : LogLevel) (source : String) (messages : List String) : Session Unit :=
  modify fun w => { w with log := w.log ++ messages.map (⟨level, source, ·⟩) }

def print (line : String) : Session Unit :=
  modify fun w => { w with printed := w.printed ++ [line] }

def runCompiler (command : List String) : Session CompilerReply :=
  modifyGet fun w =>
    let call : CompilerCall := ⟨command, w.files.readText? (command.getLastD "")⟩
    (w.compiler call, { w with calls := w.calls ++ [call] })

def changeFiles {α : Type} (change : FileTree → FileTree × Except Fault α) : Session α := do
  let w ← get
  set { w with files := (change w.files).1 }
  ofExcept (change w.files).2

def writeFile (path text : String) : Session Unit := changeFiles (·.write path (.text text))

def makeTemp (stem : String) : Session String := do
  let w ← get
  let path := Path.below Workspace.tempRoot (stem ++ toString w.tempCount)
  set { w with tempCount := w.tempCount + 1 }
  let _ ← changeFiles (·.makeNewDir path)
  return path

def removeTemp (path : String) : Session Unit :=
  modify fun w =>
    match w.files.locate path with
    | some dir => { w with files := w.files.removeTree dir }
    | none => w

def attempt {α : Type} (s : Session α) : Session (Except Fault α) :=
  ExceptT.mk (Except.ok <$> s.run)

/-- Runs a session in a temporary directory, which is gone afterwards, also after a fault. -/
def withTemp {α : Type} (stem : String) (body : String → Session α) : Session α := do
  let dir ← makeTemp stem
  let result ← attempt (body dir)
  removeTemp dir
  ofExcept result

end Session

end WasmBindings
