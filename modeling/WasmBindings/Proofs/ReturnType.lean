import Mathlib.Data.List.Infix
import WasmBindings.Proofs.ClassBody
import WasmBindings.Proofs.Cpp.Normal
import WasmBindings.Proofs.Extraction

namespace WasmBindings.Method

def angleBalance (s : List Char) : Int := s.count '<' - s.count '>'

/-- A text that stands in `angle` open brackets and closes them: no bracket closes without one
that is open, and every parenthesis stands inside some. -/
structure Bracketed (angle : Nat) (r : List Char) : Prop where
  nonneg : ∀ p, p <+: r → 0 ≤ angle + angleBalance p
  matched : angle + angleBalance r = 0
  inside : ∀ p, p ++ ['('] <+: r → 0 < angle + angleBalance p

theorem bracketed_iff {angle : Nat} {r : List Char} : Bracketed angle r ↔
    (∀ p ∈ r.inits, 0 ≤ angle + angleBalance p) ∧ angle + angleBalance r = 0 ∧
      ∀ p ∈ r.inits, p ++ ['('] <+: r → 0 < angle + angleBalance p := by
  simp only [List.mem_inits]
  constructor
  · intro h
    exact ⟨h.nonneg, h.matched, fun p _ => h.inside p⟩
  · rintro ⟨hnonneg, hmatched, hinside⟩
    exact ⟨hnonneg, hmatched, fun p hp => hinside p ((List.prefix_append p _).trans hp) hp⟩

instance (angle : Nat) (r : List Char) : Decidable (Bracketed angle r) :=
  decidable_of_iff _ bracketed_iff.symm

theorem angleBalance_cons (c : Char) (s : List Char) :
    angleBalance (c :: s) = angleBalance [c] + angleBalance s := by
  rw [← List.singleton_append, angleBalance, List.count_append, List.count_append, angleBalance,
    angleBalance]
  omega

def angleAfter (angle : Nat) (c : Char) : Nat :=
  if c = '<' then angle + 1 else if c = '>' then angle - 1 else angle

theorem angleAfter_eq {angle : Nat} {c : Char} (h : 0 ≤ angle + angleBalance [c]) :
    (angleAfter angle c : Int) = angle + angleBalance [c] := by
  rw [angleAfter]
  split
  · next hopen =>
    rw [hopen]
    rfl
  · next hopen =>
    split
    · next hclose =>
      have hbalance : angleBalance [c] = -1 := by rw [hclose]; rfl
      omega
    · next hclose => simp [angleBalance, hopen, hclose]

theorem beforeParameters_cons (angle : Nat) (c : Char) (t : List Char) :
    beforeParameters angle (c :: t) =
      if c = '(' ∧ angle = 0 then some []
      else (beforeParameters (angleAfter angle c) t).map (c :: ·) := by
  rw [beforeParameters, angleAfter]
  split
  · next hopen => rw [if_neg (by simp [hopen])]
  · split
    · next hclose => rw [if_neg (by simp [hclose])]
    · rfl

namespace Bracketed

variable {angle : Nat} {c : Char} {r : List Char}

theorem tail (h : Bracketed angle (c :: r)) : Bracketed (angleAfter angle c) r := by
  have hafter := angleAfter_eq (h.nonneg [c] (List.prefix_append [c] r))
  have hrest : ∀ p, angleAfter angle c + angleBalance p = angle + angleBalance (c :: p) := by
    intro p
    rw [hafter, angleBalance_cons c p, Int.add_assoc]
  constructor
  · intro p hp
    rw [hrest]
    exact h.nonneg (c :: p) (List.cons_prefix_cons.2 ⟨rfl, hp⟩)
  · rw [hrest]
    exact h.matched
  · intro p hp
    rw [hrest]
    exact h.inside (c :: p) (List.cons_prefix_cons.2 ⟨rfl, hp⟩)

theorem not_stop (h : Bracketed angle (c :: r)) : ¬ (c = '(' ∧ angle = 0) := by
  rintro ⟨rfl, rfl⟩
  exact absurd (h.inside [] (List.prefix_append ['('] r)) (by decide)

theorem beforeParameters_append (h : Bracketed angle r) (s : List Char) :
    beforeParameters angle (r ++ '(' :: s) = some r := by
  -- What is left of the text stands in the brackets that are open by then.
  induction r generalizing angle with
  | nil =>
    have hangle : angle = 0 := by simpa [angleBalance] using h.matched
    rw [List.nil_append, beforeParameters_cons, if_pos ⟨rfl, hangle⟩]
  | cons c r ih =>
    rw [List.cons_append, beforeParameters_cons, if_neg h.not_stop, ih h.tail, Option.map_some]

end Bracketed

theorem returnTypeOf_append {r s : String} (hr : Bracketed 0 r.toList)
    (hs : s.toList.head? = some '(') :
    returnTypeOf (.str (r ++ s)) = .ok (Spelling.normalize r) := by
  obtain ⟨params, hparams⟩ := List.head?_eq_some_iff.1 hs
  have hscan : beforeParameters 0 (r ++ s).toList = some r.toList := by
    rw [String.toList_append, hparams, hr.beforeParameters_append]
  rw [returnTypeOf, hscan]
  exact congrArg Except.ok (Spelling.normalize_trim r)

theorem inferReturnType_of_spelling {v type : Json} {text : String}
    (htype : v.field? "type" = some type) (htext : type.field? "qualType" = some (.str text)) :
    inferReturnType v = returnTypeOf (.str text) := by
  have hspelling : Tree.spelling? v = .ok (some (.str text)) := by
    rw [Tree.spelling?, htype]
    cases type with
    | obj fields => exact congrArg Except.ok htext
    | _ => cases htext
  rw [inferReturnType, Tree.checkNode, if_pos (Tree.isObject_of_field? htype), hspelling]
  rfl

theorem method_of_stepOfNode {pathTypes : List String} {name returnType : String} {v : Json}
    {step : Step} (hreturn : inferReturnType v = .ok returnType) (hne : returnType ≠ "")
    (h : stepOfNode pathTypes name v = .ok step) :
    ∃ m, step = .method m ∧ m.name = name ∧ m.returnType = returnType := by
  obtain ⟨_, hinferred, hstep⟩ := exists_of_stepOfNode h
  rw [hreturn] at hinferred
  cases hinferred
  rcases hstep with ⟨hempty, -⟩ | ⟨-, params, doc, -, rfl⟩
  · exact absurd hempty hne
  · exact ⟨_, rfl, rfl, rfl⟩

/-- The return type of a method is all that stands before its parameters, whatever the parameter
list holds and whatever functions are among its template arguments.  Unless it is blank, the
method is bound with it. -/
theorem inferReturnType_eq_normalize {v type : Json} {r s : String}
    (hr : Bracketed 0 r.toList) (hs : s.toList.head? = some '(')
    (htype : v.field? "type" = some type)
    (htext : type.field? "qualType" = some (.str (r ++ s))) :
    inferReturnType v = .ok (Spelling.normalize r) ∧
      ∀ (pathTypes : List String) (cls : Json) (methods : List Method) (name : String),
        Exposes cls v name → extract pathTypes cls = .ok methods → ¬ Spelling.IsSpace r →
          ∃ m ∈ methods, m.name = name ∧ m.returnType = Spelling.normalize r := by
  have hinfer : inferReturnType v = .ok (Spelling.normalize r) := by
    rw [inferReturnType_of_spelling htype htext, returnTypeOf_append hr hs]
  refine ⟨hinfer, fun pathTypes cls methods name hexposes hextract hblank => ?_⟩
  have hne : Spelling.normalize r ≠ "" := mt Spelling.normalize_eq_empty_iff.1 hblank
  obtain ⟨step, hstep⟩ := hexposes.exists_step hextract
  obtain ⟨m, rfl, rfl, hreturn⟩ := method_of_stepOfNode hinfer hne hstep
  exact ⟨m, (mem_extract_iff hextract).2 ⟨v, hexposes, hstep⟩, rfl, hreturn⟩

open Casts (nodeOf)

def handlersNode : Json :=
  ClassBody.methodNode "Handlers"
    ("std::map<std::string, void (*)(int)> " ++ "(std::function<bool (int)>) const")

def handlersClass : Json :=
  nodeOf "CXXRecordDecl" [("name", .str "FGFDMExec"), ("tagUsed", .str "struct")] [handlersNode]

def handlersMethod : Method := ⟨"Handlers", "std::map<std::string,void (*)(int)>", [], .empty⟩

theorem inferReturnType_eq_normalize_handlers :
    Bracketed 0 "std::map<std::string, void (*)(int)> ".toList ∧
      "(std::function<bool (int)>) const".toList.head? = some '(' ∧
      inferReturnType handlersNode = .ok "std::map<std::string,void (*)(int)>" ∧
      Exposes handlersClass handlersNode "Handlers" ∧
      extract Spelling.defaultPathTypes handlersClass = .ok [handlersMethod] ∧
      ∃ m ∈ [handlersMethod], m.name = "Handlers" ∧
        m.returnType = "std::map<std::string,void (*)(int)>" := by
  have hr : Bracketed 0 "std::map<std::string, void (*)(int)> ".toList := by decide +kernel
  have hs : "(std::function<bool (int)>) const".toList.head? = some '(' := by decide
  have hnormal : Spelling.normalize "std::map<std::string, void (*)(int)> " =
    "std::map<std::string,void (*)(int)>" := by decide +kernel
  have hexposes : Exposes handlersClass handlersNode "Handlers" :=
    ⟨List.mem_singleton_self _, by decide +kernel⟩
  have hextract : extract Spelling.defaultPathTypes handlersClass = .ok [handlersMethod] := rfl
  obtain ⟨hinfer, hbound⟩ := inferReturnType_eq_normalize (v := handlersNode) hr hs rfl rfl
  rw [hnormal] at hinfer hbound
  exact ⟨hr, hs, hinfer, hexposes, hextract,
    hbound _ _ _ _ hexposes hextract (by decide +kernel)⟩

end WasmBindings.Method
