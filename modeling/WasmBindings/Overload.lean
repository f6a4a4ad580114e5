import WasmBindings.Fault
import WasmBindings.Metadata
import WasmBindings.Naming
import WasmBindings.ParamName

/-!
Overloads under one API name.  C++ picks an overload by the number of arguments, and a default
lets an overload accept fewer than it has parameters.  Where just one overload accepts a number of
arguments through its defaults, the missing defaults can be filled in.
-/

namespace WasmBindings

structure ApiParam where
  name : String
  type : String
  default? : Option String
  deriving DecidableEq, Repr

structure Overload where
  method : Method
  params : List ApiParam
  returnType : String

/-- The defaults that complete a call with `count` arguments. -/
structure FillCase where
  count : Nat
  defaults : List String
  deriving DecidableEq, Repr

/-- All overloads of one C++ method under its API name. -/
structure MethodGroup where
  camelName : String
  sourceName : String
  overloads : List Overload

namespace Overload

def minArgs (o : Overload) : Nat := (o.params.reverse.dropWhile (·.default?.isSome)).length

def maxArgs (o : Overload) : Nat := o.params.length

def accepts (o : Overload) (count : Nat) : Bool := o.minArgs ≤ count && count ≤ o.maxArgs

def ofMethod (c : Converter) (data : Metadata) (m : Method) : Overload :=
  let names := ParamName.unreserve (m.params.map (·.name))
  let params := (m.params.zip names).mapIdx fun i (p, name) =>
    ⟨name, data.paramType c m i p, p.default?⟩
  ⟨m, params, data.returnType c m⟩

theorem minArgs_le_maxArgs (o : Overload) : o.minArgs ≤ o.maxArgs := by
  have h := (List.dropWhile_sublist (l := o.params.reverse) (·.default?.isSome)).length_le
  rwa [List.length_reverse] at h

@[simp] theorem maxArgs_ofMethod (c : Converter) (data : Metadata) (m : Method) :
    (ofMethod c data m).maxArgs = m.params.length := by
  simp [ofMethod, maxArgs]

end Overload

def fillCase? (overloads : List Overload) (o : Overload) (count : Nat) : Option FillCase :=
  if overloads.countP (·.accepts count) = 1 then
    ((o.params.drop count).mapM ApiParam.default?).map (⟨count, ·⟩)
  else none

/-- Every number of arguments that exactly one overload accepts through its defaults, in
ascending order. -/
def fillCases (overloads : List Overload) : List FillCase :=
  let cases := overloads.flatMap fun o =>
    (List.range' o.minArgs (o.maxArgs - o.minArgs)).filterMap (fillCase? overloads o)
  cases.mergeSort fun a b => decide (a.count ≤ b.count)

namespace MethodGroup

def collision (first second camel : String) : Fault :=
  .diagnosed ⟨.nameCollision,
    "\"" ++ first ++ "\" and \"" ++ second ++ "\" both map to \"" ++ camel ++ "\"",
    [("name", camel)]⟩

def add (o : Overload) : List MethodGroup → Except Fault (List MethodGroup)
  | [] => .ok [⟨Naming.camelCase o.method.name, o.method.name, [o]⟩]
  | g :: rest =>
    if g.camelName == Naming.camelCase o.method.name then
      if g.sourceName == o.method.name then
        .ok ({ g with overloads := g.overloads ++ [o] } :: rest)
      else .error (collision g.sourceName o.method.name g.camelName)
    else do return g :: (← add o rest)

def build (c : Converter) (data : Metadata) (ignored : List String) (methods : List Method) :
    Except Fault (List MethodGroup) :=
  (methods.filter fun m => !ignored.contains m.name).foldlM
    (fun groups m => add (Overload.ofMethod c data m) groups) []

def builtinTypes : List String :=
  ["string", "number", "boolean", "void", "unknown", "any", "never", "undefined", "null",
    "object", "bigint", "symbol", "Array", "ReadonlyArray"]

def identifiersFrom (inside : Bool) : List Char → List (List Char)
  | [] => []
  | c :: r =>
    if inside then
      if Text.isIdentChar c then Text.consHead c (identifiersFrom true r)
      else [] :: identifiersFrom false r
    else if Text.isIdentStart c then Text.consHead c (identifiersFrom true r)
    else identifiersFrom false r

def identifiers (s : String) : List String :=
  (identifiersFrom false s.toList).map String.ofList

def typeNames (groups : List MethodGroup) : List String :=
  groups.flatMap fun g => g.overloads.flatMap fun o => o.params.map (·.type) ++ [o.returnType]

def imports (groups : List MethodGroup) (interfaceName : String) : List String :=
  sortedTexts (interfaceName ::
    ((typeNames groups).flatMap identifiers).filter fun n => !builtinTypes.contains n)

end MethodGroup

end WasmBindings
