import Mathlib.Data.Int.Bitwise
import WasmBindings.Proofs.Enumerators
import WasmBindings.Proofs.FlagGroups

namespace WasmBindings.Enumeration

inductive UnaryOp where
  | minus
  | plus
  | complement

inductive BinaryOp where
  | add
  | sub
  | mul
  | shiftLeft
  | bitOr
  | bitAnd

def UnaryOp.opcode : UnaryOp → String
  | minus => "-"
  | plus => "+"
  | complement => "~"

def UnaryOp.apply : UnaryOp → Int → Int
  | minus, n => -n
  | plus, n => n
  | complement, n => ~~~n

def BinaryOp.opcode : BinaryOp → String
  | add => "+"
  | sub => "-"
  | mul => "*"
  | shiftLeft => "<<"
  | bitOr => "|"
  | bitAnd => "&"

/-- A shift by a negative number has no value. -/
def BinaryOp.apply : BinaryOp → Int → Int → Option Int
  | add, m, n => some (m + n)
  | sub, m, n => some (m - n)
  | mul, m, n => some (m * n)
  | shiftLeft, m, n => if 0 ≤ n then some (m <<< n.toNat) else none
  | bitOr, m, n => some (m.lor n)
  | bitAnd, m, n => some (m.land n)

inductive IntExpr where
  | literal (n : Int)
  | paren (e : IntExpr)
  | cast (e : IntExpr)
  | unary (op : UnaryOp) (e : IntExpr)
  | binary (op : BinaryOp) (l r : IntExpr)

namespace IntExpr

def value? : IntExpr → Option Int
  | literal n => some n
  | paren e => e.value?
  | cast e => e.value?
  | unary op e => e.value?.map op.apply
  | binary op l r => do op.apply (← l.value?) (← r.value?)

/-- The first literal, with the minus signs above it.  The other operators and all operands after
the first do not count. -/
def lead : IntExpr → Int
  | literal n => n
  | paren e => e.lead
  | cast e => e.lead
  | unary .minus e => -e.lead
  | unary _ e => e.lead
  | binary _ l _ => l.lead

def IsSigned : IntExpr → Prop
  | literal _ => True
  | paren e => e.IsSigned
  | cast e => e.IsSigned
  | unary .complement _ => False
  | unary _ e => e.IsSigned
  | binary _ _ _ => False

theorem IsSigned.value? {e : IntExpr} (h : e.IsSigned) : e.value? = some e.lead := by
  induction e with
  | literal n => rfl
  | paren e ih => exact ih h
  | cast e ih => exact ih h
  | unary op e ih =>
    cases op with
    | minus => simp [IntExpr.value?, lead, UnaryOp.apply, ih h]
    | plus => simp [IntExpr.value?, lead, UnaryOp.apply, ih h]
    | complement => exact h.elim
  | binary op l r => exact h.elim

end IntExpr

structure IsOperation (v : Json) (kind : String) (operands : List Json) : Prop where
  kind : Tree.hasKind kind v = true
  operands : Tree.children v = operands
  bare : v.field? "value" = none

/-- The tree of an expression as the compiler prints it. -/
inductive Shows : Json → IntExpr → Prop
  | literal {v : Json} {text : String} {n : Int} (hkind : Tree.hasKind "IntegerLiteral" v = true)
      (hvalue : v.field? "value" = some (.str text)) (hdecimal : Text.IsDecimal text.toList n) :
      Shows v (.literal n)
  | paren {v c : Json} {e : IntExpr} (hv : IsOperation v "ParenExpr" [c]) (h : Shows c e) :
      Shows v (.paren e)
  | cast {v c : Json} {e : IntExpr} (hv : IsOperation v "ImplicitCastExpr" [c]) (h : Shows c e) :
      Shows v (.cast e)
  | unary {v c : Json} {e : IntExpr} {op : UnaryOp} (hv : IsOperation v "UnaryOperator" [c])
      (hop : v.fieldIs "opcode" op.opcode = true) (h : Shows c e) : Shows v (.unary op e)
  | binary {v c d : Json} {l r : IntExpr} {op : BinaryOp}
      (hv : IsOperation v "BinaryOperator" [c, d])
      (hop : v.fieldIs "opcode" op.opcode = true) (hl : Shows c l) (hr : Shows d r) :
      Shows v (.binary op l r)

theorem isNegation_of_opcode {v : Json} {op : UnaryOp}
    (hkind : Tree.hasKind "UnaryOperator" v = true)
    (hop : v.fieldIs "opcode" op.opcode = true) : isNegation v = (op.opcode == "-") := by
  simp [isNegation, hkind, Json.fieldIs, Json.field?_of_fieldIs hop]

theorem IsOperation.firstInteger {v c : Json} {kind : String} {rest : List Json} {n : Int}
    (h : IsOperation v kind (c :: rest)) (hkind : "Comment".toList.isSuffixOf kind.toList = false)
    (hnegation : isNegation v = false) (hc : firstInteger c = .ok (some n)) :
    firstInteger v = .ok (some n) := by
  have hcomment := Tree.isComment_of_hasKind h.kind
  rw [hkind] at hcomment
  rw [firstInteger_of_bare hcomment hnegation h.bare, h.operands]
  exact firstIntegerIn_cons hc rest

theorem Shows.firstInteger {v : Json} {e : IntExpr} (h : Shows v e) :
    firstInteger v = .ok (some e.lead) := by
  induction h with
  | literal hkind hvalue hdecimal =>
    apply firstInteger_of_own (Tree.isComment_of_hasKind hkind)
      (isNegation_of_hasKind hkind (by decide))
    rw [ownInteger?, hvalue]
    exact hdecimal.integer?
  | paren hv _ ih =>
    exact hv.firstInteger (by decide) (isNegation_of_hasKind hv.kind (by decide)) ih
  | cast hv _ ih =>
    exact hv.firstInteger (by decide) (isNegation_of_hasKind hv.kind (by decide)) ih
  | @unary v c e op hv hop _ ih =>
    have hnegation := isNegation_of_opcode hv.kind hop
    cases op with
    | minus =>
      rw [firstInteger_of_isNegation (Tree.isComment_of_hasKind hv.kind) hnegation, hv.operands,
        firstIntegerIn_cons ih]
      rfl
    | plus => exact hv.firstInteger (by decide) hnegation ih
    | complement => exact hv.firstInteger (by decide) hnegation ih
  | binary hv _ _ _ ihl _ =>
    exact hv.firstInteger (by decide) (isNegation_of_hasKind hv.kind (by decide)) ihl

structure IsInitialized (v : Json) (e : IntExpr) : Prop where
  kind : Tree.hasKind "VarDecl" v = true
  bare : v.field? "value" = none
  initializer : ∃ comments c rest, Tree.children v = comments ++ c :: rest ∧
    (∀ d ∈ comments, Tree.isComment d = .ok true) ∧ Shows c e

theorem IsInitialized.firstInteger {v : Json} {e : IntExpr} (h : IsInitialized v e) :
    firstInteger v = .ok (some e.lead) := by
  obtain ⟨comments, c, rest, hchildren, hcomments, hc⟩ := h.initializer
  rw [firstInteger_of_bare (Tree.isComment_of_hasKind h.kind)
    (isNegation_of_hasKind h.kind (by decide)) h.bare, hchildren,
    firstIntegerIn_of_comments hcomments]
  exact firstIntegerIn_cons hc.firstInteger rest

/-- A constant is absent or has the value of its initializer just when the first literal has that
value, and a flag carries the first literal in any case. -/
theorem firstInteger_exact_iff {v : Json} {e : IntExpr} {n : Int} (hv : IsInitialized v e)
    (hn : e.value? = some n) :
    firstInteger v = .ok (some e.lead) ∧
      (firstInteger v = .ok none ∨ firstInteger v = .ok (some n) ↔ e.lead = n) ∧
      (∀ item, Holds v item → item.value = e.lead) ∧ (e.IsSigned → e.lead = n) := by
  refine ⟨hv.firstInteger, ?_, ?_, ?_⟩
  · simp [hv.firstInteger]
  · intro item hitem
    have hvalue := hitem.2.2
    rw [hv.firstInteger] at hvalue
    simpa using hvalue.symm
  · intro hsigned
    simpa [hsigned.value?] using hn

open Casts (nodeOf typeField)
open ClassBody (commentNode)

def constantNode (name : String) (initializer : Json) : Json :=
  nodeOf "VarDecl" [("name", .str name), ("storageClass", .str "static"), typeField "const int"]
    [initializer, commentNode "Mode flags for Trim"]

def signedConstant : Json :=
  constantNode "QUIET" (nodeOf "UnaryOperator" [("opcode", .str "-")]
    [nodeOf "ParenExpr" [] [nodeOf "UnaryOperator" [("opcode", .str "+")] [literalNode 12]]])

theorem firstInteger_exact_signedConstant :
    IsInitialized signedConstant (.unary .minus (.paren (.unary .plus (.literal 12)))) ∧
      firstInteger signedConstant = .ok (some (-12)) := by
  have hv : IsInitialized signedConstant (.unary .minus (.paren (.unary .plus (.literal 12)))) := by
    refine ⟨rfl, rfl, [], _, [commentNode "Mode flags for Trim"], rfl, by simp, ?_⟩
    refine .unary ⟨rfl, rfl, rfl⟩ rfl (.paren ⟨rfl, rfl, rfl⟩ (.unary ⟨rfl, rfl, rfl⟩ rfl ?_))
    exact .literal rfl rfl (Text.isDecimal_toString 12)
  obtain ⟨-, hexact, -, hsigned⟩ := firstInteger_exact_iff (n := -12) hv rfl
  refine ⟨hv, (hexact.2 (hsigned trivial)).resolve_left ?_⟩
  simp [hv.firstInteger]

def shiftedConstant : Json :=
  constantNode "QUIET" (nodeOf "BinaryOperator" [("opcode", .str "<<")]
    [literalNode 1, literalNode 3])

def shiftedClass : Json :=
  nodeOf "CXXRecordDecl" [("name", .str "FGFDMExec"), ("tagUsed", .str "struct")] [shiftedConstant]

theorem firstInteger_not_exact_shiftedConstant :
    IsInitialized shiftedConstant (.binary .shiftLeft (.literal 1) (.literal 3)) ∧
      (IntExpr.binary .shiftLeft (.literal 1) (.literal 3)).value? = some 8 ∧
      firstInteger shiftedConstant = .ok (some 1) ∧
      (ofClassNode "JSBSim" shiftedClass).map (fun own => own.flags.map fun d =>
        (d.tsName, d.items.map fun item => (item.name.display, item.value))) =
          .ok [("TrimMode", [("QUIET", 1)])] := by
  have hv : IsInitialized shiftedConstant (.binary .shiftLeft (.literal 1) (.literal 3)) := by
    refine ⟨rfl, rfl, [], _, [commentNode "Mode flags for Trim"], rfl, by simp, ?_⟩
    refine .binary ⟨rfl, rfl, rfl⟩ rfl ?_ ?_
    · exact .literal rfl rfl (Text.isDecimal_toString 1)
    · exact .literal rfl rfl (Text.isDecimal_toString 3)
  exact ⟨hv, by decide, hv.firstInteger, by decide +kernel⟩

end WasmBindings.Enumeration
