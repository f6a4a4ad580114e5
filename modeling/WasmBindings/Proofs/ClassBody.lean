import WasmBindings.Enumeration.ClassEnums
import WasmBindings.Method.Extraction
import WasmBindings.Proofs.Casts

namespace WasmBindings

namespace ClassBody

def isSpecifier (v : Json) : Bool := Tree.hasKind "AccessSpecDecl" v

def accessOf? (v : Json) : Option Bool :=
  if isSpecifier v then (v.field? "access").map (Json.isText "public") else none

def publicAfter (start : Bool) (vs : List Json) : Bool := (vs.filterMap accessOf?).getLastD start

/-- Whether the child at the position is in a public region. -/
def publicAt (cls : Json) (i : Nat) : Bool :=
  publicAfter (startsPublic cls) ((Tree.children cls).take i)

def visibleIn (start : Bool) (vs : List Json) : List Json :=
  (vs.zipIdx.filter fun c => isSpecifier c.1 || publicAfter start (vs.take c.2)).map Prod.fst

/-- The children without the members that are not public. -/
def visible (cls : Json) : List Json := visibleIn (startsPublic cls) (Tree.children cls)

@[simp] theorem publicAfter_nil (start : Bool) : publicAfter start [] = start := rfl

theorem publicAfter_cons_of_specifier {v : Json} (h : isSpecifier v = true) (start : Bool)
    (vs : List Json) : publicAfter start (v :: vs) = publicAfter (accessAfter start v) vs := by
  rw [publicAfter, List.filterMap_cons, accessOf?, if_pos h, accessAfter]
  cases v.field? "access" with
  | none => rfl
  | some a => exact List.getLastD_cons ..

theorem publicAfter_cons_of_member {v : Json} (h : isSpecifier v = false) (start : Bool)
    (vs : List Json) : publicAfter start (v :: vs) = publicAfter start vs := by
  simp [publicAfter, accessOf?, h]

theorem visibleIn_cons_of_specifier {v : Json} (h : isSpecifier v = true) (start : Bool)
    (vs : List Json) :
    visibleIn start (v :: vs) = v :: visibleIn (accessAfter start v) vs := by
  simp [visibleIn, List.zipIdx_succ, List.filter_map, Function.comp_def, h,
    publicAfter_cons_of_specifier h]

theorem visibleIn_cons_of_member {v : Json} (h : isSpecifier v = false) (start : Bool)
    (vs : List Json) :
    visibleIn start (v :: vs) = (if start then [v] else []) ++ visibleIn start vs := by
  cases start <;>
    simp [visibleIn, List.zipIdx_succ, List.filter_map, Function.comp_def, h,
      publicAfter_cons_of_member h]

theorem entriesFrom_cons_of_specifier {v : Json} (h : isSpecifier v = true) (start : Bool)
    (vs : List Json) : entriesFrom start (v :: vs) =
      .specifier (accessAfter start v) :: entriesFrom (accessAfter start v) vs := by
  rw [entriesFrom, ← isSpecifier, if_pos h]

theorem entriesFrom_cons_of_member {v : Json} (h : isSpecifier v = false) (start : Bool)
    (vs : List Json) : entriesFrom start (v :: vs) = .member start v :: entriesFrom start vs := by
  rw [entriesFrom, ← isSpecifier, h, if_neg Bool.false_ne_true]

theorem getElem?_entriesFrom (start : Bool) (vs : List Json) (i : Nat) :
    (entriesFrom start vs)[i]? = vs[i]?.map fun v =>
      if isSpecifier v then .specifier (publicAfter start (vs.take (i + 1)))
      else .member (publicAfter start (vs.take i)) v := by
  induction vs generalizing start i with
  | nil => rfl
  | cons v vs ih =>
    cases hv : isSpecifier v with
    | true =>
      rw [entriesFrom_cons_of_specifier hv]
      cases i with
      | zero => simp [hv, publicAfter_cons_of_specifier hv]
      | succ i => simp [ih, publicAfter_cons_of_specifier hv]
    | false =>
      rw [entriesFrom_cons_of_member hv]
      cases i with
      | zero => simp [hv]
      | succ i => simp [ih, publicAfter_cons_of_member hv]

theorem getElem?_entries (cls : Json) (i : Nat) :
    (entries cls)[i]? = (Tree.children cls)[i]?.map fun v =>
      if isSpecifier v then .specifier (publicAt cls (i + 1)) else .member (publicAt cls i) v :=
  getElem?_entriesFrom ..

def Entry.isVisible : Entry → Bool
  | .specifier _ => true
  | .member isPublic _ => isPublic

theorem entriesFrom_visibleIn (start : Bool) (vs : List Json) :
    entriesFrom start (visibleIn start vs) = (entriesFrom start vs).filter Entry.isVisible := by
  induction vs generalizing start with
  | nil => rfl
  | cons v vs ih =>
    cases hv : isSpecifier v with
    | true =>
      rw [visibleIn_cons_of_specifier hv, entriesFrom_cons_of_specifier hv,
        entriesFrom_cons_of_specifier hv, ih]
      rfl
    | false =>
      rw [visibleIn_cons_of_member hv, entriesFrom_cons_of_member hv]
      cases start with
      | true =>
        rw [if_pos rfl, List.singleton_append, entriesFrom_cons_of_member hv, ih]
        rfl
      | false => exact ih false

end ClassBody

namespace Method

open ClassBody

variable (pathTypes : List String) (className : Json)

theorem stepOfEntry_of_hidden {v : Json} (h : v.isObject = true) :
    stepOfEntry pathTypes className (.member false v) = .ok none := by
  rw [stepOfEntry, Tree.checkNode, if_pos h]
  rfl

def methodsOf (entries : List Entry) : Except Fault (List Method) := do
  return (← (entries.map (stepOfEntry pathTypes className)).mapM id).filterMap Step.method?

theorem methodsOf_cons (e : Entry) (entries : List Entry) :
    methodsOf pathTypes className (e :: entries) = do
      let step ← stepOfEntry pathTypes className e
      let methods ← methodsOf pathTypes className entries
      return (Step.method? step).toList ++ methods := by
  rw [methodsOf, methodsOf, List.map_cons, List.mapM_cons]
  cases stepOfEntry pathTypes className e with
  | error fault => rfl
  | ok step =>
    cases (entries.map (stepOfEntry pathTypes className)).mapM id with
    | error fault => rfl
    | ok steps =>
      change Except.ok ((step :: steps).filterMap Step.method?) =
        .ok ((Step.method? step).toList ++ steps.filterMap Step.method?)
      rw [List.filterMap_cons]
      cases Step.method? step <;> rfl

theorem methodsOf_visible {start : Bool} {vs : List Json} (h : ∀ v ∈ vs, v.isObject = true) :
    methodsOf pathTypes className ((entriesFrom start vs).filter Entry.isVisible) =
      methodsOf pathTypes className (entriesFrom start vs) := by
  induction vs generalizing start with
  | nil => rfl
  | cons v vs ih =>
    obtain ⟨hv, hvs⟩ := List.forall_mem_cons.1 h
    cases hspecifier : isSpecifier v with
    | true =>
      rw [entriesFrom_cons_of_specifier hspecifier, List.filter_cons_of_pos rfl, methodsOf_cons,
        methodsOf_cons, ih hvs]
    | false =>
      rw [entriesFrom_cons_of_member hspecifier]
      cases start with
      | true => rw [List.filter_cons_of_pos rfl, methodsOf_cons, methodsOf_cons, ih hvs]
      | false =>
        rw [List.filter_cons_of_neg (by simp [Entry.isVisible]), ih hvs, methodsOf_cons,
          stepOfEntry_of_hidden pathTypes className hv]
        cases methodsOf pathTypes className (entriesFrom false vs) <;> rfl

theorem extract_eq {cls : Json} (h : cls.isObject = true) :
    extract pathTypes cls = methodsOf pathTypes (ClassBody.className cls) (entries cls) := by
  rw [extract, Tree.checkNode, if_pos h]
  rfl

end Method

namespace Enumeration

open ClassBody

variable (namespaceName : String) (className : Json)

theorem declare_of_hidden {v : Json} (h : v.isObject = true) (s : Declared) :
    declare namespaceName className s (.member false v) = .ok s.interrupt := by
  rw [declare, Tree.checkNode, if_pos h]
  rfl

theorem interrupt_of_closed {s : Declared} (h : s.active = none) : s.interrupt = s := by
  cases s
  cases h
  rfl

theorem declareAll_congr {e : Entry} {entries entries' : List Entry} {s : Declared}
    (h : ∀ s', declare namespaceName className s e = .ok s' →
      declareAll namespaceName className s' entries =
        declareAll namespaceName className s' entries') :
    declareAll namespaceName className s (e :: entries) =
      declareAll namespaceName className s (e :: entries') := by
  rw [declareAll, declareAll]
  cases hs : declare namespaceName className s e with
  | error fault => rfl
  | ok s' => exact h s' hs

theorem declareAll_visible {start : Bool} {vs : List Json} (h : ∀ v ∈ vs, v.isObject = true)
    {s : Declared} (hs : start = false → s.active = none) :
    declareAll namespaceName className s ((entriesFrom start vs).filter Entry.isVisible) =
      declareAll namespaceName className s (entriesFrom start vs) := by
  induction vs generalizing start s with
  | nil => rfl
  | cons v vs ih =>
    obtain ⟨hv, hvs⟩ := List.forall_mem_cons.1 h
    cases hspecifier : isSpecifier v with
    | true =>
      rw [entriesFrom_cons_of_specifier hspecifier, List.filter_cons_of_pos rfl]
      apply declareAll_congr
      intro s' hs'
      apply ih hvs
      intro hstart
      rw [hstart] at hs'
      cases hs'
      rfl
    | false =>
      rw [entriesFrom_cons_of_member hspecifier]
      cases start with
      | true =>
        rw [List.filter_cons_of_pos rfl]
        apply declareAll_congr
        intro s' _
        exact ih hvs fun hstart => absurd hstart (by decide)
      | false =>
        rw [List.filter_cons_of_neg (by simp [Entry.isVisible]), ih hvs hs, declareAll,
          declare_of_hidden namespaceName className hv, interrupt_of_closed (hs rfl)]

theorem declared_eq {cls : Json} (h : cls.isObject = true) : declared namespaceName cls =
    declareAll namespaceName (ClassBody.className cls) .empty (entries cls) := by
  rw [declared, if_pos h]

end Enumeration

namespace ClassBody

/-- Two classes that look the same from outside have the same bindings, and both readings go by
the same regions. -/
theorem bindings_eq_of_visible_eq {cls cls' : Json} (hcls : cls.isObject = true)
    (hcls' : cls'.isObject = true) (hname : cls.field? "name" = cls'.field? "name")
    (htag : cls.field? "tagUsed" = cls'.field? "tagUsed")
    (hnodes : ∀ v ∈ Tree.children cls, v.isObject = true)
    (hnodes' : ∀ v ∈ Tree.children cls', v.isObject = true)
    (hvisible : visible cls = visible cls') :
    (∀ pathTypes, Method.extract pathTypes cls = Method.extract pathTypes cls') ∧
      (∀ namespaceName, Enumeration.ofClassNode namespaceName cls =
        Enumeration.ofClassNode namespaceName cls') ∧
      ∀ (i : Nat) (v : Json), (Tree.children cls)[i]? = some v → isSpecifier v = false →
        (entries cls)[i]? = some (Entry.member (publicAt cls i) v) := by
  have hclass : className cls = className cls' := by rw [className, className, hname]
  have hstart : startsPublic cls = startsPublic cls' := by
    rw [startsPublic, startsPublic, Json.fieldIs, Json.fieldIs, htag]
  have hentries : (entries cls).filter Entry.isVisible =
      (entries cls').filter Entry.isVisible := by
    rw [entries, entries, ← entriesFrom_visibleIn, ← entriesFrom_visibleIn, ← visible, ← visible,
      hvisible, hstart]
  refine ⟨fun pathTypes => ?_, fun namespaceName => ?_, fun i v hv hspecifier => ?_⟩
  · calc
      Method.extract pathTypes cls
        = Method.methodsOf pathTypes (className cls) ((entries cls).filter Entry.isVisible) := by
          rw [Method.extract_eq pathTypes hcls, entries, Method.methodsOf_visible _ _ hnodes]
      _ = Method.extract pathTypes cls' := by
          rw [hclass, hentries, Method.extract_eq pathTypes hcls', entries,
            Method.methodsOf_visible _ _ hnodes']
  · have hdeclared : Enumeration.declared namespaceName cls =
        Enumeration.declared namespaceName cls' := by
      calc
        Enumeration.declared namespaceName cls
          = Enumeration.declareAll namespaceName (className cls) .empty
              ((entries cls).filter Entry.isVisible) := by
            rw [Enumeration.declared_eq namespaceName hcls, entries,
              Enumeration.declareAll_visible _ _ hnodes fun _ => rfl]
        _ = Enumeration.declared namespaceName cls' := by
            rw [hclass, hentries, Enumeration.declared_eq namespaceName hcls', entries,
              Enumeration.declareAll_visible _ _ hnodes' fun _ => rfl]
    rw [Enumeration.ofClassNode, Enumeration.ofClassNode, hdeclared]
  · rw [getElem?_entries, hv, Option.map_some, hspecifier, if_neg Bool.false_ne_true]

open Casts (nodeOf typeField)

def specifierNode (access : String) : Json := nodeOf "AccessSpecDecl" [("access", .str access)] []

def methodNode (name type : String) : Json :=
  nodeOf "CXXMethodDecl" [("name", .str name), typeField type] []

def commentNode (text : String) : Json :=
  nodeOf "FullComment" [] [nodeOf "TextComment" [("text", .str text)] []]

def flagNode (name value : String) (comments : List Json) : Json :=
  nodeOf "VarDecl" [("name", .str name), ("storageClass", .str "static"), typeField "const int"]
    (nodeOf "IntegerLiteral" [("value", .str value)] [] :: comments)

def executiveClass (members : List Json) : Json :=
  nodeOf "CXXRecordDecl" [("name", .str "FGFDMExec"), ("tagUsed", .str "class")]
    (members ++ [specifierNode "public", methodNode "Run" "bool ()",
        flagNode "QUIET" "1" [commentNode "Mode flags for Trim"], specifierNode "protected"]
      ++ members ++ [specifierNode "public", flagNode "LOUD" "2" []])

def internals : List Json :=
  [methodNode "Reset" "void ()", nodeOf "EnumDecl" [("name", .str "eState")]
    [nodeOf "EnumConstantDecl" [("name", .str "sIdle")] []],
    flagNode "DEEP" "4" [commentNode "Mode flags for Trim"]]

theorem bindings_eq_of_visible_eq_executive :
    visible (executiveClass internals) = visible (executiveClass []) ∧
      (Method.extract Spelling.defaultPathTypes (executiveClass internals)).map
        (·.map (·.name)) = .ok ["Run"] ∧
      (Enumeration.ofClassNode "JSBSim" (executiveClass internals)).map
        (fun own => (own.enums.length, own.flags.map fun d =>
          (d.tsName, d.items.map (·.name.display)))) = .ok (0, [("TrimMode", ["QUIET"])]) := by
  have hobject : ∀ members, (executiveClass members).isObject = true := fun _ => rfl
  have hvisible : visible (executiveClass internals) = visible (executiveClass []) := rfl
  obtain ⟨hmethods, henums, -⟩ := bindings_eq_of_visible_eq (hobject internals) (hobject []) rfl rfl
    (by decide +kernel) (by decide +kernel) hvisible
  refine ⟨hvisible, ?_, ?_⟩
  · rw [hmethods]
    decide +kernel
  · rw [henums]
    decide +kernel

end ClassBody

end WasmBindings
