import WasmBindings.Proofs.ClassBody
import WasmBindings.Proofs.Text.Numeral

namespace WasmBindings

theorem Json.field?_of_fieldIs {v : Json} {key s : String} (h : v.fieldIs key s = true) :
    v.field? key = some (.str s) := by
  rw [fieldIs] at h
  cases hv : v.field? key with
  | none => simp [hv] at h
  | some w => cases w <;> simp_all [isText]

namespace Tree

variable {kind : String} {v : Json}

theorem field?_of_hasKind (h : hasKind kind v = true) : v.field? "kind" = some (.str kind) :=
  Json.field?_of_fieldIs h

theorem isObject_of_field? {key : String} {w : Json} (h : v.field? key = some w) :
    v.isObject = true := by
  cases v <;> simp_all [Json.field?, Json.isObject]

theorem isObject_of_isComment {b : Bool} (h : isComment v = .ok b) : v.isObject = true := by
  by_contra hv
  simp [isComment, checkNode, hv, bind, Except.bind] at h

theorem isComment_of_hasKind (h : hasKind kind v = true) :
    isComment v = .ok ("Comment".toList.isSuffixOf kind.toList) := by
  have hkind := field?_of_hasKind h
  rw [isComment, checkNode, if_pos (isObject_of_field? hkind), hkind]
  rfl

end Tree

namespace Enumeration

variable {v : Json}

theorem isNegation_of_hasKind {kind : String} (h : Tree.hasKind kind v = true)
    (hkind : kind ≠ "UnaryOperator") : isNegation v = false := by
  simp [isNegation, Tree.hasKind, Json.fieldIs, Tree.field?_of_hasKind h, hkind]

theorem firstInteger_of_comment (h : Tree.isComment v = .ok true) : firstInteger v = .ok none := by
  simp [firstInteger, h]

theorem firstInteger_of_isNegation (hcomment : Tree.isComment v = .ok false)
    (h : isNegation v = true) :
    firstInteger v = (firstIntegerIn (Tree.children v)).map (Option.map Int.neg) := by
  rw [firstInteger]
  simp only [Tree.isObject_of_isComment hcomment, hcomment, h, if_true, Bool.not_true]
  cases firstIntegerIn (Tree.children v) <;> rfl

theorem firstInteger_of_own {n : Int} (hcomment : Tree.isComment v = .ok false)
    (hnegation : isNegation v = false) (h : ownInteger? v = some n) :
    firstInteger v = .ok (some n) := by
  simp [firstInteger, Tree.isObject_of_isComment hcomment, hcomment, hnegation, h]

theorem firstInteger_of_bare (hcomment : Tree.isComment v = .ok false)
    (hnegation : isNegation v = false) (h : v.field? "value" = none) :
    firstInteger v = firstIntegerIn (Tree.children v) := by
  simp [firstInteger, Tree.isObject_of_isComment hcomment, hcomment, hnegation, ownInteger?, h]

theorem firstIntegerIn_of_comments {before : List Json}
    (h : ∀ c ∈ before, Tree.isComment c = .ok true) (rest : List Json) :
    firstIntegerIn (before ++ rest) = firstIntegerIn rest := by
  induction before with
  | nil => rfl
  | cons c before ih =>
    rw [List.cons_append, firstIntegerIn, firstInteger_of_comment (h c List.mem_cons_self)]
    exact ih fun d hd => h d (List.mem_cons_of_mem c hd)

theorem firstIntegerIn_cons {c : Json} {n : Int} (h : firstInteger c = .ok (some n))
    (rest : List Json) : firstIntegerIn (c :: rest) = .ok (some n) := by
  rw [firstIntegerIn, h]

structure IsEnumerator (v : Json) (name : String) : Prop where
  kind : Tree.hasKind "EnumConstantDecl" v = true
  spelled : v.field? "name" = some (.str name)
  named : name ≠ ""
  bare : v.field? "value" = none

/-- The node of an enumerator and the value that is written out in it, if there is one.  Nothing
is said of what stands below the value. -/
inductive Spells : Json → String → Option Int → Prop
  | implicit {v : Json} {name : String} (hv : IsEnumerator v name)
      (hcomments : ∀ c ∈ Tree.children v, Tree.isComment c = .ok true) : Spells v name none
  | explicit {v c : Json} {name text : String} {n : Int} {before after : List Json}
      (hv : IsEnumerator v name) (hchildren : Tree.children v = before ++ c :: after)
      (hcomments : ∀ d ∈ before, Tree.isComment d = .ok true)
      (hkind : Tree.hasKind "ConstantExpr" c = true) (hvalue : c.field? "value" = some (.str text))
      (hdecimal : Text.IsDecimal text.toList n) : Spells v name (some n)

/-- The children of a declaration: enumerators, with nodes of other kinds among them. -/
inductive Lists : List Json → List (String × Option Int) → Prop
  | nil : Lists [] []
  | other {v : Json} {vs : List Json} {es : List (String × Option Int)}
      (hv : v.isObject = true) (hkind : Tree.hasKind "EnumConstantDecl" v = false)
      (h : Lists vs es) : Lists (v :: vs) es
  | enumerator {v : Json} {vs : List Json} {name : String} {value : Option Int}
      {es : List (String × Option Int)} (hv : Spells v name value) (h : Lists vs es) :
      Lists (v :: vs) ((name, value) :: es)

theorem Spells.isEnumerator {name : String} {value : Option Int} (h : Spells v name value) :
    IsEnumerator v name := by
  cases h with
  | implicit hv _ => exact hv
  | explicit hv _ _ _ _ _ => exact hv

theorem Spells.firstInteger {name : String} {value : Option Int} (h : Spells v name value) :
    firstInteger v = .ok value := by
  have hv := h.isEnumerator
  have hbare : Enumeration.firstInteger v = firstIntegerIn (Tree.children v) :=
    firstInteger_of_bare (Tree.isComment_of_hasKind hv.kind)
      (isNegation_of_hasKind hv.kind (by decide)) hv.bare
  cases h with
  | implicit _ hcomments =>
    rw [hbare, ← List.append_nil (Tree.children v), firstIntegerIn_of_comments hcomments,
      firstIntegerIn]
  | @explicit c _ text n before after _ hchildren hcomments hkind hvalue hdecimal =>
    have hown : ownInteger? c = some n := by
      rw [ownInteger?, hvalue]
      exact hdecimal.integer?
    rw [hbare, hchildren, firstIntegerIn_of_comments hcomments]
    exact firstIntegerIn_cons (firstInteger_of_own (Tree.isComment_of_hasKind hkind)
      (isNegation_of_hasKind hkind (by decide)) hown) after

theorem membersFrom_of_other {vs : List Json} (hv : v.isObject = true)
    (hkind : Tree.hasKind "EnumConstantDecl" v = false) (next : Int) :
    membersFrom next (v :: vs) = membersFrom next vs := by
  simp [membersFrom, Tree.checkNode, hv, hkind, bind, Except.bind]

theorem membersFrom_of_spells {vs : List Json} {name : String} {value : Option Int}
    (h : Spells v name value) (next : Int) :
    membersFrom next (v :: vs) =
      (membersFrom (value.getD next + 1) vs).map (⟨.str name, value.getD next⟩ :: ·) := by
  have hv := h.isEnumerator
  have htruthy : (Json.str name).isTruthy = true := by simp [Json.isTruthy, hv.named]
  simp only [membersFrom, Tree.checkNode, Tree.isObject_of_field? hv.spelled, hv.kind, hv.spelled,
    htruthy, h.firstInteger, if_true, bind, Except.bind]
  cases membersFrom (value.getD next + 1) vs <;> rfl

/-- The enumerators with their values, where `next` is the value that follows on. -/
def counted (next : Int) : List (String × Option Int) → List Enumerator
  | [] => []
  | (name, value) :: es => ⟨.str name, value.getD next⟩ :: counted (value.getD next + 1) es

theorem membersFrom_of_lists {vs : List Json} {es : List (String × Option Int)} (h : Lists vs es)
    (next : Int) : membersFrom next vs = .ok (counted next es) := by
  induction h generalizing next with
  | nil => rfl
  | other hv hkind _ ih => rw [membersFrom_of_other hv hkind, ih]
  | enumerator hv _ ih =>
    rw [membersFrom_of_spells hv, ih]
    rfl

def due (next : Int) (items : List (String × Int)) : Nat → Int
  | 0 => next
  | i + 1 => ((items[i]?).map (·.2 + 1)).getD 0

def writeOut (chosen : Nat → Bool) (items : List (String × Int)) : List (String × Option Int) :=
  items.mapIdx fun i e => (e.1, if chosen i then some e.2 else none)

theorem due_cons (next : Int) (e : String × Int) (items : List (String × Int)) (i : Nat) :
    due next (e :: items) (i + 1) = due (e.2 + 1) items i := by
  cases i <;> simp [due]

theorem writeOut_cons (chosen : Nat → Bool) (e : String × Int) (items : List (String × Int)) :
    writeOut chosen (e :: items) =
      (e.1, if chosen 0 then some e.2 else none) :: writeOut (fun i => chosen (i + 1)) items := by
  rw [writeOut, List.mapIdx_cons]
  rfl

theorem counted_writeOut {items : List (String × Int)} {chosen : Nat → Bool} {next : Int}
    (h : ∀ i e, items[i]? = some e → chosen i = false → e.2 = due next items i) :
    counted next (writeOut chosen items) = items.map fun e => ⟨.str e.1, e.2⟩ := by
  induction items generalizing next chosen with
  | nil => rfl
  | cons e items ih =>
    have hvalue : (if chosen 0 then some e.2 else none).getD next = e.2 := by
      cases h₀ : chosen 0 with
      | true => rfl
      | false => exact (h 0 e rfl h₀).symm
    have hrest : ∀ i e', items[i]? = some e' → chosen (i + 1) = false →
        e'.2 = due (e.2 + 1) items i := by
      intro i e' he' hi
      rw [← due_cons next]
      exact h (i + 1) e' he' hi
    rw [writeOut_cons, counted, hvalue, ih hrest, List.map_cons]

/-- Whichever values are written out, as long as they include those that do not go on from the
enumerator before, the declaration gives back the enumerators. -/
theorem members_of_writeOut {items : List (String × Int)} {chosen : Nat → Bool}
    (hchosen : ∀ i e, items[i]? = some e → chosen i = false → e.2 = due 0 items i)
    {decl : Json} (hdecl : Lists (Tree.children decl) (writeOut chosen items)) :
    members decl = .ok (items.map fun e => ⟨.str e.1, e.2⟩) := by
  rw [members, membersFrom_of_lists hdecl, counted_writeOut hchosen]

open Casts (nodeOf)

def enumeratorNode (name : String) (children : List Json) : Json :=
  nodeOf "EnumConstantDecl" [("name", .str name)] children

def literalNode (n : Int) : Json := nodeOf "IntegerLiteral" [("value", .str (toString n))] []

def numberComment : Json := nodeOf "FullComment" [] [literalNode 9]

def trimModes : Json :=
  nodeOf "EnumDecl" [("name", .str "TrimMode")]
    [enumeratorNode "tGround" [numberComment,
        nodeOf "ConstantExpr" [("value", .str (toString (-2 : Int)))]
          [nodeOf "UnaryOperator" [("opcode", .str "~")] [literalNode 1]]],
      nodeOf "StaticAssertDecl" [("value", .str "7")] [],
      enumeratorNode "tFull" [numberComment]]

theorem members_of_writeOut_trimModes :
    members trimModes = .ok [⟨.str "tGround", -2⟩, ⟨.str "tFull", -1⟩] := by
  have hcomment : ∀ c ∈ [numberComment], Tree.isComment c = .ok true := by
    simp only [List.mem_singleton, forall_eq]
    rfl
  have hdecl : Lists (Tree.children trimModes)
      (writeOut (· == 0) [("tGround", -2), ("tFull", -1)]) := by
    refine .enumerator (.explicit ⟨rfl, rfl, by decide, rfl⟩ rfl hcomment rfl rfl
      (Text.isDecimal_toString (-2))) ?_
    exact .other rfl rfl (.enumerator (.implicit ⟨rfl, rfl, by decide, rfl⟩ hcomment) .nil)
  refine members_of_writeOut (fun i e he hi => ?_) hdecl
  match i with
  | 0 => cases hi
  | 1 =>
    cases he
    rfl
  | i + 2 => cases he

end Enumeration

end WasmBindings
