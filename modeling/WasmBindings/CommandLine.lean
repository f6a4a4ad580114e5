import WasmBindings.Config.FlightDynamics
import WasmBindings.Text.Digit

namespace WasmBindings.CommandLine

open Text

/-- The value of a setting.  Two dashes are no value, so a setting that is set to them has been
given, and is blank. -/
inductive Value where
  | text (s : String)
  | blank
  deriving DecidableEq, Repr

def Value.ofText (s : String) : Value := if s == "--" then .blank else .text s

def Value.text? : Value → Option String
  | .text s => some s
  | .blank => none

structure Options where
  sourceRoot : Value
  outputRoot : Value
  clang : Option Value
  verbose : Bool
  deriving DecidableEq, Repr

def Options.default (root : String) : Options :=
  ⟨.text (Path.join root "vendor/jsbsim/src"), .text root, none, false⟩

inductive Setting where
  | sourceRoot
  | outputRoot
  | clang
  deriving DecidableEq, Repr

inductive Flag where
  | verbose
  | help
  deriving DecidableEq, Repr

inductive Stop where
  | help
  | usage
  deriving DecidableEq, Repr

def Stop.code : Stop → Nat
  | .help => 0
  | .usage => 2

inductive Meaning where
  | setting (s : Setting)
  | flag (f : Flag)
  deriving DecidableEq, Repr

def longOptions : List (String × Meaning) :=
  [("--help", .flag .help), ("--source-root", .setting .sourceRoot),
    ("--output-root", .setting .outputRoot), ("--clang", .setting .clang),
    ("--verbose", .flag .verbose)]

inductive Word where
  | value (text : String)
  | setting (s : Setting) (given : Option String)
  | flags (fs : List Flag)
  | misused
  | unknown
  | terminator
  deriving DecidableEq, Repr

def flagOf? (c : Char) : Option Flag :=
  if c = 'v' then some .verbose else if c = 'h' then some .help else none

def joinedFlags (first : Flag) : List Char → Word
  | [] => .flags [first]
  | '=' :: [] => .misused
  | '=' :: r => ofLetters r
  | r => ofLetters r
where
  ofLetters (letters : List Char) : Word :=
    match letters.mapM flagOf? with
    | some fs => .flags (first :: fs)
    | none => .misused

/-- A negative number, which is a value in spite of its dash.  A line feed may follow it. -/
def isNegativeNumber (s : List Char) : Bool :=
  match s with
  | '-' :: r =>
    let r := if r.getLast? = some '\n' then r.dropLast else r
    match r.dropWhile isDecimalDigit with
    | [] => !r.isEmpty
    | '.' :: f => !f.isEmpty && f.all isDecimalDigit
    | _ => false
  | _ => false

def otherWord (text : String) : Word :=
  if isNegativeNumber text.toList || text.toList.contains ' ' then .value text else .unknown

def splitValue (s : List Char) : List Char × Option String :=
  match s.dropWhile (· != '=') with
  | [] => (s, none)
  | _ :: v => (s.takeWhile (· != '='), some (String.ofList v))

def matching (name : List Char) : List Meaning :=
  match longOptions.lookup (String.ofList name) with
  | some m => [m]
  | none => (longOptions.filter fun o => name.isPrefixOf o.1.toList).map Prod.snd

def longWord (text : String) : Except Stop Word :=
  let (name, given) := splitValue text.toList
  match matching name, given with
  | [.setting s], given => .ok (.setting s given)
  | [.flag f], none => .ok (.flags [f])
  | [.flag _], some _ => .ok .misused
  | [], _ => .ok (otherWord text)
  | _, _ => .error .usage

def word (text : String) : Except Stop Word :=
  match text.toList with
  | ['-', '-'] => .ok .terminator
  | '-' :: '-' :: _ => longWord text
  | '-' :: c :: r =>
    .ok (match flagOf? c with
      | some f => joinedFlags f r
      | none => otherWord text)
  | _ => .ok (.value text)

def words : List String → Except Stop (List Word)
  | [] => .ok []
  | text :: rest => do
    match ← word text with
    | .terminator => return [.terminator]
    | w => return w :: (← words rest)

def Options.set (o : Options) (value : Value) : Setting → Options
  | .sourceRoot => { o with sourceRoot := value }
  | .outputRoot => { o with outputRoot := value }
  | .clang => { o with clang := some value }

def Options.raise (o : Options) : List Flag → Except Stop Options
  | [] => .ok o
  | .verbose :: rest => Options.raise { o with verbose := true } rest
  | .help :: _ => .error .help

/-- Takes in the words in order.  Words that belong to no option are counted in `extra` and
refused at the end. -/
def takeWords (o : Options) (extra : Bool) : List Word → Except Stop Options
  | [] => if extra then .error .usage else .ok o
  | .value _ :: rest => takeWords o true rest
  | .unknown :: rest => takeWords o true rest
  | .misused :: _ => .error .usage
  | .terminator :: _ => .error .usage
  | .flags fs :: rest => do takeWords (← o.raise fs) extra rest
  | .setting s (some v) :: rest => takeWords (o.set (.ofText v) s) extra rest
  | .setting s none :: .value v :: rest => takeWords (o.set (.text v) s) extra rest
  | .setting _ none :: _ => .error .usage

def parse (root : String) (args : List String) : Except Stop Options := do
  takeWords (.default root) false (← words args)

def compilers (explicit environment : Option String) : List String :=
  ((explicit.filter (· != "")).toList ++ (environment.filter (· != "")).toList
    ++ FrontEnd.defaultCompilers).eraseDups

def logSource : String := "gen_bindings"

def generator (o : Options) (environment : Option String) (sourceRoot outputRoot : String) :
    Generator :=
  FlightDynamics.configure
    (.new sourceRoot outputRoot (compilers (o.clang.bind Value.text?) environment))

def generateAll (o : Options) (environment : Option String) : Session Unit :=
  match o.sourceRoot, o.outputRoot with
  | .text source, .text output => (generator o environment source output).generateAll
  | .text source, .blank => do
    let g := generator o environment source ""
    Session.print Generator.title
    g.classes.keys.forM fun name => do
      let _ ← g.prepare name
    throw .unfit
  | .blank, _ => throw .unfit

def run (o : Options) (environment : Option String) : Session Nat := do
  match ← Session.attempt (generateAll o environment) with
  | .ok () => return 0
  | .error (.diagnosed d) =>
    Session.log .error logSource d.text
    return 1
  | .error f => throw f

def shownLog (verbose : Bool) (log : List LogRecord) : List LogRecord :=
  log.filter fun r => verbose || r.level != .debug

end WasmBindings.CommandLine
