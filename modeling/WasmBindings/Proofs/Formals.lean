import WasmBindings.Emit.NativeWrapper
import WasmBindings.Method.Extraction
import WasmBindings.Proofs.Carrier
import WasmBindings.Proofs.Casts
import WasmBindings.Proofs.Extraction
import WasmBindings.Proofs.Outcome
import WasmBindings.Proofs.ParamName

namespace WasmBindings

namespace ParamName

/-- A word that no parameter gets unless one is given it: a usable name, which is not made from
the position of a parameter and has no number. -/
structure Ownable (word : String) : Prop where
  identifier : isIdentifier word = true
  unnumbered : '_' ∉ word.toList
  unplaced : ∀ n : Nat, word ≠ "arg" ++ toString n

theorem ownable_self : Ownable "self" := by
  refine ⟨by decide, by decide, fun n h => ?_⟩
  have hchars := congrArg (fun s => s.toList.head?) h
  simp at hchars

theorem underscore_mem_numbered (name : String) (n : Nat) : '_' ∈ (numbered name n).toList := by
  simp [numbered]

theorem mem_assign_iff {word : String} (h : Ownable word) {names : List String} :
    word ∈ assign names ↔ word ∈ names := by
  constructor
  · intro hmem
    obtain ⟨i, hi⟩ := List.mem_iff_getElem?.1 hmem
    obtain ⟨given, hgiven, hsettles⟩ := settles_assign hi
    generalize hword : word = final at hsettles
    cases hsettles with
    | numbered _ _ => exact absurd (hword ▸ underscore_mem_numbered _ _) h.unnumbered
    | free _ =>
      rw [proposed] at hword ⊢
      split at hword
      · next hident =>
        rw [if_pos hident]
        exact List.mem_of_getElem? hgiven
      · exact absurd hword (h.unplaced i)
  · intro hmem
    obtain ⟨i, hi⟩ := List.mem_iff_getElem?.1 hmem
    have hlt : i < (assign names).length := by
      simpa using (List.getElem?_eq_some_iff.1 hi).1
    have hfinal := List.getElem?_eq_getElem hlt
    obtain ⟨given, hgiven, hsettles⟩ := settles_assign hfinal
    rw [hi] at hgiven
    cases hgiven
    rw [proposed, if_pos h.identifier] at hsettles
    generalize (assign names)[i] = final at hfinal hsettles
    cases hsettles with
    | free _ => exact List.mem_of_getElem? hfinal
    | numbered htaken _ => exact List.mem_of_mem_take htaken

end ParamName

namespace Method

def givenName (v : Json) : String := ((v.field? "name").bind Json.text?).getD ""

theorem givenName_eq_iff {v : Json} {word : String} (h : word ≠ "") :
    givenName v = word ↔ v.fieldIs "name" word = true := by
  rw [givenName, Json.fieldIs]
  cases v.field? "name" with
  | none => simp [h.symm]
  | some value => cases value <;> simp [Json.text?, Json.isText, h.symm]

theorem names_rename (params : List Param) :
    (rename params).map (·.name) = ParamName.assign (params.map (·.name)) := by
  apply List.ext_getElem
  · simp [rename]
  · simp [rename]

theorem name_of_paramOfNode {pathTypes : List String} {v : Json} {p : Param}
    (h : paramOfNode pathTypes v = .ok p) : p.name = givenName v := by
  obtain ⟨type, -, h⟩ := Outcome.bind_eq_ok.1 h
  obtain ⟨value, -, h⟩ := Outcome.bind_eq_ok.1 h
  cases h
  rfl

theorem names_of_paramsOfNode {pathTypes : List String} {v : Json} {params : List Param}
    (h : paramsOfNode pathTypes v = .ok params) : ∃ nodes, paramNodes v = .ok nodes ∧
      params.map (·.name) = ParamName.assign (nodes.map givenName) := by
  obtain ⟨nodes, hnodes, h⟩ := Outcome.bind_eq_ok.1 h
  obtain ⟨declared, hdeclared, h⟩ := Outcome.bind_eq_ok.1 h
  cases h
  refine ⟨nodes, hnodes, ?_⟩
  rw [names_rename]
  apply congrArg
  rw [eq_comm, ← List.forall₂_eq_eq_eq, List.forall₂_map_left_iff, List.forall₂_map_right_iff]
  exact (Outcome.mapM_eq_ok.1 hdeclared).imp fun n p hp => (name_of_paramOfNode hp).symm

theorem exists_of_mem_extract {pathTypes : List String} {cls : Json} {methods : List Method}
    (h : extract pathTypes cls = .ok methods) {m : Method} (hm : m ∈ methods) :
    ∃ v, ClassBody.Entry.member true v ∈ ClassBody.entries cls ∧
      stepOfNode pathTypes m.name v = .ok (.method m) := by
  obtain ⟨v, hv, hstep⟩ := (mem_extract_iff h).1 hm
  exact ⟨v, hv.isPublic, hstep⟩

end Method

namespace Emit.NativeWrapper

structure Formal where
  type : String
  name : String

def Formal.text (f : Formal) : String := f.type ++ " " ++ f.name

def formalList (c : Converter) (className : String) (m : Method) : List Formal :=
  ⟨className ++ "&", "self"⟩ :: m.params.map fun p => ⟨c.cppParam p.type, p.name⟩

theorem append_join (sep first : String) (rest : List String) :
    first ++ String.join (rest.map (sep ++ ·)) = String.intercalate sep (first :: rest) := by
  induction rest generalizing first with
  | nil => simp
  | cons s rest ih =>
    rw [List.map_cons, String.join_cons, String.append_assoc, ih, String.intercalate_cons_cons,
      String.append_assoc]

theorem formals_eq (c : Converter) (className : String) (m : Method) :
    formals c className m =
      String.intercalate ", " ((formalList c className m).map Formal.text) := by
  rw [formalList, List.map_cons, ← append_join]
  simp [formals, Formal.text, Function.comp_def, String.append_assoc]

theorem header_mem_block {header : String} (h : header ≠ "") (text : String) (w : Writer) :
    w.indentation ++ header ∈ (w.block header (·.line text)).lines := by
  simp [Writer.block, Writer.openBlock, Writer.closeBlock, h]

theorem exists_header (c : Converter) (className : String) (index : Nat) (m : Method)
    (w : Writer) : ∃ start, start ++ "(" ++ String.intercalate ", "
      ((formalList c className m).map Formal.text) ++ ") \x7b" ∈
        (wrapper c className index m w).lines := by
  rw [← formals_eq]
  let result := if m.returnType == "void" then "void" else "auto"
  refine ⟨w.indentation ++ ("static " ++ result ++ " " ++ wrapperName className m index), ?_⟩
  rw [wrapper, Writer.lines_line]
  apply List.mem_append_left
  simp only [String.append_assoc]
  apply header_mem_block
  simp

/-- Every argument has the name of the parameter that it is made from and of no other. -/
def ArgumentsOwn (c : Converter) (className : String) (m : Method) : Prop :=
  ∀ i p, m.params[i]? = some p → ∀ j f, (formalList c className m)[j]? = some f →
    f.name = p.name → j = i + 1

section Distinct

variable {c : Converter} {className : String} {m : Method}

theorem names_formalList :
    (formalList c className m).map Formal.name = "self" :: m.params.map (·.name) := by
  simp [formalList, Function.comp_def]

theorem nodup_formalList_iff (h : (m.params.map (·.name)).Nodup) :
    ((formalList c className m).map Formal.name).Nodup ↔ "self" ∉ m.params.map (·.name) := by
  rw [names_formalList, List.nodup_cons, and_iff_left h]

theorem argumentsOwn_iff (h : (m.params.map (·.name)).Nodup) :
    ArgumentsOwn c className m ↔ "self" ∉ m.params.map (·.name) := by
  constructor
  · intro hown hmem
    obtain ⟨p, hp, hname⟩ := List.mem_map.1 hmem
    obtain ⟨i, hi⟩ := List.mem_iff_getElem?.1 hp
    exact absurd (hown i p hi 0 _ rfl hname.symm) (Nat.zero_ne_add_one i)
  · intro hself i p hp j f hf hname
    have hnames : ((formalList c className m).map Formal.name).Nodup :=
      (nodup_formalList_iff h).2 hself
    have hi : ((formalList c className m).map Formal.name)[i + 1]? = some p.name := by
      simp [names_formalList, hp]
    have hj : ((formalList c className m).map Formal.name)[j]? = some p.name := by
      rw [List.getElem?_map, hf, Option.map_some, hname]
    have hlt := (List.getElem?_eq_some_iff.1 hj).1
    exact (List.getElem?_inj hlt hnames).1 (hj.trans hi.symm)

end Distinct

/-- The formal parameters of a wrapper are distinct, and every argument refers to its own, just
when no parameter of the method is declared as `self`. -/
theorem formals_distinct_iff {pathTypes : List String} {cls : Json} {methods : List Method}
    (h : Method.extract pathTypes cls = .ok methods) {m : Method} (hm : m ∈ methods)
    (c : Converter) (className : String) (index : Nat) (w : Writer) :
    (∃ start, start ++ "(" ++ String.intercalate ", "
      ((formalList c className m).map Formal.text) ++ ") \x7b" ∈
        (wrapper c className index m w).lines) ∧
      (m.params.map (·.name)).Nodup ∧
      ∃ v nodes, ClassBody.Entry.member true v ∈ ClassBody.entries cls ∧
        Method.stepOfNode pathTypes m.name v = .ok (.method m) ∧
        Method.paramNodes v = .ok nodes ∧
        (((formalList c className m).map Formal.name).Nodup ↔
          ∀ n ∈ nodes, n.fieldIs "name" "self" = false) ∧
        (ArgumentsOwn c className m ↔ ∀ n ∈ nodes, n.fieldIs "name" "self" = false) := by
  obtain ⟨v, hv, hstep⟩ := Method.exists_of_mem_extract h hm
  obtain ⟨nodes, hnodes, hnames⟩ :=
    Method.names_of_paramsOfNode (Method.parts_of_stepOfNode hstep).2
  have hnodup : (m.params.map (·.name)).Nodup := hnames ▸ ParamName.nodup_assign _
  have hself : "self" ∉ m.params.map (·.name) ↔ ∀ n ∈ nodes, n.fieldIs "name" "self" = false := by
    rw [hnames, ParamName.mem_assign_iff ParamName.ownable_self, List.mem_map]
    simp [Method.givenName_eq_iff]
  refine ⟨exists_header c className index m w, hnodup, v, nodes, hv, hstep, hnodes, ?_, ?_⟩
  · rw [nodup_formalList_iff hnodup, hself]
  · rw [argumentsOwn_iff hnodup, hself]

open Casts (nodeOf typeField)

def followNode (param : String) : Json :=
  nodeOf "CXXMethodDecl" [("name", .str "Follow"), typeField "bool (FGFDMExec *)"]
    [nodeOf "ParmVarDecl" [("name", .str param), typeField "FGFDMExec *"] []]

def followClass (param : String) : Json :=
  nodeOf "CXXRecordDecl" [("name", .str "FGFDMExec"), ("tagUsed", .str "struct")]
    [followNode param]

def followMethod (param : String) : Method :=
  ⟨"Follow", "bool", [⟨param, "FGFDMExec*", none⟩], .empty⟩

theorem formals_not_distinct_self :
    Method.extract Spelling.defaultPathTypes (followClass "self") = .ok [followMethod "self"] ∧
      formals Converter.executive "FGFDMExec" (followMethod "self") =
        "FGFDMExec& self, uintptr_t self" ∧
      ¬ ((formalList Converter.executive "FGFDMExec" (followMethod "self")).map
        Formal.name).Nodup :=
  ⟨rfl, by decide +kernel, by decide⟩

theorem formals_distinct_leader :
    Method.extract Spelling.defaultPathTypes (followClass "leader") =
        .ok [followMethod "leader"] ∧
      followMethod "leader" ∈ [followMethod "leader"] ∧
      ((formalList Converter.executive "FGFDMExec" (followMethod "leader")).map
        Formal.name).Nodup := by
  have hextract : Method.extract Spelling.defaultPathTypes (followClass "leader") =
    .ok [followMethod "leader"] := rfl
  have hmem := List.mem_singleton_self (followMethod "leader")
  obtain ⟨-, -, v, nodes, hv, -, hnodes, hnodup, -⟩ := formals_distinct_iff hextract hmem
    Converter.executive "FGFDMExec" 0 (Writer.new "  ")
  have hentry : v = followNode "leader" := by
    rw [show ClassBody.entries (followClass "leader") = [.member true (followNode "leader")] from
      rfl, List.mem_singleton] at hv
    exact (ClassBody.Entry.member.inj hv).2
  rw [hentry, show Method.paramNodes (followNode "leader") = .ok _ from rfl] at hnodes
  cases hnodes
  exact ⟨hextract, hmem, hnodup.2 (by decide)⟩

end Emit.NativeWrapper

end WasmBindings
