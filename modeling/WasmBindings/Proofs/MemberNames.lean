import WasmBindings.Emit.ApiClass
import WasmBindings.Proofs.MethodGroup
import WasmBindings.Proofs.SmallName

namespace WasmBindings

open Text

namespace Naming

theorem isAlpha_eq_not_isDigit {c : Char} (h : c.isAlphanum = true) : c.isAlpha = !c.isDigit := by
  cases hdigit : c.isDigit with
  | true => exact not_isAlpha_of_isDigit hdigit
  | false => simpa [Char.isAlphanum, hdigit] using h

theorem isIdentStart_eq_not_isDigit {c : Char} (h : c.isAlphanum = true) :
    isIdentStart c = !c.isDigit := by
  have hne : c ≠ '_' := fun he => absurd h (by rw [he]; decide)
  simp [isIdentStart, hne, isAlpha_eq_not_isDigit h]

section Identifier

variable {name : String} (h : Piece.isIdentRun name.toList = true)
include h

theorem isIdentChar_camelCase : ∀ c ∈ (camelCase name).toList, isIdentChar c = true := by
  intro c hc
  rcases inCamelCase_camelCase h with hcamel | hunderscores
  · simp [isIdentChar, hcamel.alphanum c hc]
  · simp [isIdentChar, hunderscores c hc]

theorem isDigit_head?_camelCase (hne : without ['_'] name.toList ≠ []) :
    ∃ c r d r', (camelCase name).toList = c :: r ∧ (core name).toList = d :: r' ∧
      c.isAlphanum = true ∧ c.isDigit = d.isDigit := by
  have halnum := isAlphanum_of_isIdentRun h
  have hsame := map_toLower_camelChars halnum hne
  obtain ⟨d, r', hwithout⟩ := List.exists_cons_of_ne_nil hne
  rw [hwithout, List.map_cons, List.map_eq_cons_iff] at hsame
  obtain ⟨c, r, hcamel, hlower, -⟩ := hsame
  have hhead := head?_without name.toList
  rw [hwithout, List.head?_cons, eq_comm, List.head?_eq_some_iff] at hhead
  obtain ⟨t, hcore⟩ := hhead
  have hc := (isCamel_camelChars halnum hne).alphanum c (by rw [hcamel]; exact List.mem_cons_self)
  have hd := halnum d (by rw [hwithout]; exact List.mem_cons_self)
  have halpha : c.isAlpha = d.isAlpha := by
    rw [← Char.isAlpha_toLower_eq_isAlpha, hlower, Char.isAlpha_toLower_eq_isAlpha]
  rw [isAlpha_eq_not_isDigit hc, isAlpha_eq_not_isDigit hd, Bool.not_inj_iff] at halpha
  exact ⟨c, r, d, t, by simpa [camelCase] using hcamel, by simpa [core] using hcore, hc, halpha⟩

theorem isIdentRun_camelCase_iff : Piece.isIdentRun (camelCase name).toList = true ↔
    ∀ d ∈ (core name).toList.head?, d.isDigit = false := by
  have hchars := isIdentChar_camelCase h
  by_cases hnil : without ['_'] name.toList = []
  · have hsame : camelCase name = name := by
      rw [camelCase, camelChars_of_underscores (isAlphanum_of_isIdentRun h) hnil,
        String.ofList_toList]
    have hcore : (core name).toList.head? = none := by
      rw [core, String.toList_ofList, ← head?_without, hnil]
      rfl
    simp [hsame, h, hcore]
  · obtain ⟨c, r, d, r', hcamel, hcore, hc, hdigit⟩ := isDigit_head?_camelCase h hnil
    rw [hcamel] at hchars
    rw [hcamel, hcore, Piece.isIdentRun, isIdentStart_eq_not_isDigit hc, hdigit,
      List.all_eq_true.2 fun e he => hchars e (List.mem_cons_of_mem c he)]
    simp

end Identifier

theorem Plain.camelCase_eq_iff {word name : String} (hword : Plain word.toList)
    (h : Piece.isIdentRun name.toList = true) :
    camelCase name = word ↔ core name ∈ (spellings word.toList).map String.ofList := by
  have hchars : camelCase name = word ↔ camelChars name.toList = word.toList := by
    rw [camelCase, ← String.toList_inj, String.toList_ofList]
  rw [hchars, hword.camelChars_eq_iff (isAlphanum_of_isIdentRun h), core,
    List.mem_map_of_injective fun s t => String.ofList_injective]

end Naming

namespace Emit.ApiClass

def lines (n : Names) (groups : List MethodGroup) : List String :=
  headLines n groups ++ groups.flatMap groupLines ++ ["\x7d", ""]

theorem renderGroups_eq (n : Names) (groups : List MethodGroup) :
    renderGroups n groups = joinLines (lines n groups) := rfl

/-- The member that a line of a class declares.  Members are two blanks in, what they contain is
further in, and a method is followed by its parameters. -/
def declaredChars? : List Char → Option (List Char)
  | ' ' :: ' ' :: r =>
    match r.dropWhile isIdentChar with
    | '(' :: _ => some (r.takeWhile isIdentChar)
    | ' ' :: field =>
      if r.takeWhile isIdentChar = "readonly".toList then some (field.takeWhile isIdentChar)
      else none
    | _ => none
  | _ => none

def declared? (line : String) : Option String := (declaredChars? line.toList).map String.ofList

theorem declared?_append (s t : String) :
    declared? (s ++ t) = (declaredChars? (s.toList ++ t.toList)).map String.ofList := by
  rw [declared?, String.toList_append]

theorem declared?_method {name : String} (h : ∀ c ∈ name.toList, isIdentChar c = true)
    (rest : String) : declared? ("  " ++ (name ++ ("(" ++ rest))) = some name := by
  have hchars : declaredChars? (' ' :: ' ' :: (name.toList ++ '(' :: rest.toList)) =
      some name.toList := by
    rw [declaredChars?, List.dropWhile_append_of_pos h, List.takeWhile_append_of_pos h]
    simp [isIdentChar, Char.isAlphanum, Char.isAlpha, Char.isUpper, Char.isLower, Char.isDigit]
  rw [declared?_append, String.toList_append, String.toList_append]
  exact (congrArg (Option.map String.ofList) hchars).trans (by simp)

theorem declared?_indented {start : String} (h : "   ".toList <+: start.toList) (rest : String) :
    declared? (start ++ rest) = none := by
  obtain ⟨s, hs⟩ := h
  rw [declared?_append, ← hs]
  rfl

theorem filterMap_docLines (o : Overload) : (docLines o).filterMap declared? = [] := by
  have hnote : ∀ rest, declared? ("   * " ++ rest) = none := declared?_indented (by decide)
  have hparam : ∀ rest, declared? ("   * @param " ++ rest) = none :=
    declared?_indented (by decide)
  have hreturns : ∀ rest, declared? ("   * @returns " ++ rest) = none :=
    declared?_indented (by decide)
  have hopen : declared? "  /**" = none := by decide
  have hclose : declared? "   */" = none := by decide
  rw [List.filterMap_eq_nil_iff]
  intro line hline
  rw [docLines] at hline
  split at hline
  · cases hline
  · simp only [List.mem_append, List.mem_singleton, List.mem_map] at hline
    rcases hline with (((rfl | ⟨l, -, rfl⟩) | ⟨d, -, rfl⟩) | hline) | rfl
    · exact hopen
    · exact hnote _
    · rw [String.append_assoc, String.append_assoc]
      exact hparam _
    · split at hline
      · cases hline
      · rw [List.mem_singleton.1 hline]
        exact hreturns _
    · exact hclose

theorem declared?_callLine (returnType call : String) :
    declared? (callLine returnType call) = none := by
  rw [callLine]
  split
  · exact declared?_indented (by decide) call
  · exact declared?_indented (by decide) call

theorem filterMap_switchLines (cases : List FillCase) :
    (switchLines cases).filterMap declared? = [] := by
  have hfill : ∀ f : FillCase, (fillLines f).filterMap declared? = [] := by
    intro f
    have hcase : ∀ rest, declared? ("      case " ++ rest) = none :=
      declared?_indented (by decide)
    have hpush : ∀ rest, declared? ("        normalizedArgs.push(" ++ rest) = none :=
      declared?_indented (by decide)
    have hbreak : declared? "        break;" = none := by decide
    simp [fillLines, String.append_assoc, hcase, hpush, hbreak]
  have hstart : ["    const normalizedArgs = [...args] as unknown[];",
      "    switch (normalizedArgs.length) \x7b"].filterMap declared? = [] := by decide
  have hend : ["      default:", "        break;", "    \x7d"].filterMap declared? = [] := by decide
  cases cases with
  | nil => rfl
  | cons f fs =>
    rw [switchLines, List.filterMap_append, List.filterMap_append, List.filterMap_flatMap, hstart,
      hend]
    · simp [hfill]
    · exact List.cons_ne_nil f fs

def declarations (g : MethodGroup) : Nat :=
  if g.overloads.length = 1 then 1 else g.overloads.length + 1

section Group

variable {g : MethodGroup} (h : ∀ c ∈ g.camelName.toList, isIdentChar c = true)
include h

theorem filterMap_singleLines (o : Overload) :
    (singleLines g o).filterMap declared? = [g.camelName] := by
  have hclose : declared? "  \x7d" = none := by decide
  rw [singleLines, List.filterMap_append, filterMap_docLines, List.nil_append]
  simp only [String.append_assoc]
  simp only [List.filterMap_cons, declared?_method h, declared?_callLine, hclose,
    List.filterMap_nil]

theorem declared?_signatureLine (o : Overload) :
    declared? (signatureLine g o) = some g.camelName := by
  rw [signatureLine]
  simp only [String.append_assoc]
  exact declared?_method h _

theorem filterMap_overloadedLines : (overloadedLines g).filterMap declared? =
    List.replicate (g.overloads.length + 1) g.camelName := by
  have hoverload : ∀ o, (docLines o ++ [signatureLine g o]).filterMap declared? =
      [g.camelName] := by
    intro o
    rw [List.filterMap_append, filterMap_docLines]
    simp [declared?_signatureLine h]
  have hoverloads : (g.overloads.flatMap fun o => docLines o ++ [signatureLine g o]).filterMap
      declared? = List.replicate g.overloads.length g.camelName := by
    rw [List.filterMap_flatMap]
    simp only [hoverload]
    rw [← List.map_eq_flatMap, List.map_const']
  have hcommon : ∀ rest, declared? ("  " ++ (g.camelName ++ ("(...args: unknown[]): " ++ rest))) =
      some g.camelName := by
    intro rest
    have hopen : "(...args: unknown[]): " = "(" ++ "...args: unknown[]): " := by decide
    rw [hopen, String.append_assoc]
    exact declared?_method h _
  have hclose : declared? "  \x7d" = none := by decide
  rw [overloadedLines]
  simp only [List.filterMap_append, hoverloads, filterMap_switchLines, String.append_assoc,
    List.filterMap_cons, hcommon, declared?_callLine, hclose, List.filterMap_nil, List.append_nil]
  exact List.replicate_succ'.symm

theorem filterMap_groupLines : (groupLines g).filterMap declared? =
    List.replicate (declarations g) g.camelName := by
  have hempty : declared? "" = none := by decide
  rw [groupLines, List.filterMap_cons_none hempty, declarations]
  split
  · rename_i o ho
    rw [filterMap_singleLines h, ho]
    rfl
  · rename_i hother
    have hlength : g.overloads.length ≠ 1 := by
      intro hone
      obtain ⟨o, ho⟩ := List.length_eq_one_iff.1 hone
      exact hother o ho
    rw [filterMap_overloadedLines h, if_neg hlength]

end Group

theorem filterMap_headLines (n : Names) (groups : List MethodGroup) :
    (headLines n groups).filterMap declared? = ["exec", "constructor"] := by
  have himport : ∀ rest, declared? ("import type \x7b " ++ rest) = none := declared?_append _
  have hclass : ∀ rest, declared? ("export class " ++ rest) = none := declared?_append _
  have hexec : ∀ rest, declared? ("  readonly exec: " ++ rest) = some "exec" := declared?_append _
  have hconstructor : ∀ rest, declared? ("  constructor(exec: " ++ rest) =
      some "constructor" := declared?_append _
  have hbanner : banner.filterMap declared? = [] := by decide
  have hempty : declared? "" = none := by decide
  have hassign : declared? "    this.exec = exec;" = none := by decide
  have hclose : declared? "  \x7d" = none := by decide
  rw [headLines]
  simp only [List.filterMap_append, hbanner, String.append_assoc, List.filterMap_cons, hempty,
    himport, hclass, hexec, hconstructor, hassign, hclose, List.filterMap_nil, List.nil_append]

theorem filterMap_lines (n : Names) {groups : List MethodGroup}
    (h : ∀ g ∈ groups, ∀ c ∈ g.camelName.toList, isIdentChar c = true) :
    (lines n groups).filterMap declared? = "exec" :: "constructor" ::
      groups.flatMap fun g => List.replicate (declarations g) g.camelName := by
  have hend : ["\x7d", ""].filterMap declared? = [] := by decide
  rw [lines, List.filterMap_append, List.filterMap_append, filterMap_headLines, hend,
    List.append_nil, List.filterMap_flatMap]
  exact congrArg _ (List.flatMap_congr fun g hg => filterMap_groupLines (h g hg))

def memberNames (groups : List MethodGroup) : List String :=
  "exec" :: "constructor" :: groups.map (·.camelName)

/-- The names that have a member of every class as their API name. -/
def ownSpellings : List String :=
  ["exec", "Exec", "EXEC", "constructor", "Constructor", "CONSTRUCTOR"]

theorem plain_exec : Naming.Plain "exec".toList :=
  ⟨by decide, by simp, by decide, by decide⟩

theorem plain_constructor : Naming.Plain "constructor".toList :=
  ⟨by decide, by simp, by decide, by decide⟩

theorem mem_ownSpellings_iff {name : String} (h : Piece.isIdentRun name.toList = true) :
    Naming.core name ∈ ownSpellings ↔
      Naming.camelCase name = "exec" ∨ Naming.camelCase name = "constructor" := by
  have hspellings : ownSpellings = (Naming.spellings "exec".toList).map String.ofList ++
      (Naming.spellings "constructor".toList).map String.ofList := by decide +kernel
  rw [plain_exec.camelCase_eq_iff h, plain_constructor.camelCase_eq_iff h, hspellings,
    List.mem_append]

section Render

variable (c : Converter) (data : Metadata)

theorem forall_mem_grouping (methods : List Method) (p : String → Prop) :
    (∀ g ∈ MethodGroup.grouping c data methods, p g.camelName) ↔
      ∀ m ∈ methods, p (Naming.camelCase m.name) := by
  rw [MethodGroup.grouping, List.forall_mem_map]
  constructor
  · exact fun h m hm => h m.name (MethodGroup.mem_names.2 ⟨m, hm, rfl⟩)
  · intro h name hname
    obtain ⟨m, hm, rfl⟩ := MethodGroup.mem_names.1 hname
    exact h m hm

theorem nodup_memberNames_iff {methods : List Method} (h : ¬ MethodGroup.Colliding methods) :
    (memberNames (MethodGroup.grouping c data methods)).Nodup ↔ ∀ m ∈ methods,
      ¬ (Naming.camelCase m.name = "exec" ∨ Naming.camelCase m.name = "constructor") := by
  have hgroups := MethodGroup.nodup_camelName c data h
  rw [← forall_mem_grouping c data methods fun name => ¬ (name = "exec" ∨ name = "constructor"),
    memberNames, List.nodup_cons, List.nodup_cons, and_iff_left hgroups]
  have hne : "exec" ≠ "constructor" := by decide
  simp only [List.mem_cons, hne, false_or, List.mem_map, not_or, not_exists, not_and]
  exact forall₂_and.symm

end Render

variable {c : Converter} {data : Metadata} {n : Names} {ignored : List String}
  {methods : List Method} {text : String}

theorem render_ok (h : ¬ MethodGroup.Colliding (MethodGroup.kept ignored methods)) :
    render c data n ignored methods =
      .ok (joinLines (lines n
        (MethodGroup.grouping c data (MethodGroup.kept ignored methods)))) := by
  rw [render, MethodGroup.build_ok c data h, ← renderGroups_eq]
  rfl

theorem not_colliding_of_render (h : render c data n ignored methods = .ok text) :
    ¬ MethodGroup.Colliding (MethodGroup.kept ignored methods) := by
  intro hcollide
  obtain ⟨first, second, herror⟩ := MethodGroup.build_error c data hcollide
  rw [render, herror] at h
  cases h

/-- A class declares `exec`, `constructor` and the groups, which have distinct names.  All its
members have distinct names if no method is `exec` or `constructor` up to underscores at the ends
and the case of the first letter or of all, and all are identifiers if no method has a digit
first, after underscores. -/
theorem members_of_render
    (hident : ∀ m ∈ MethodGroup.kept ignored methods, Piece.isIdentRun m.name.toList = true)
    (h : render c data n ignored methods = .ok text) :
    ∃ groups, MethodGroup.build c data ignored methods = .ok groups ∧
      text = joinLines (lines n groups) ∧
      (lines n groups).filterMap declared? = "exec" :: "constructor" ::
        (groups.flatMap fun g => List.replicate (declarations g) g.camelName) ∧
      (groups.map (·.camelName)).Nodup ∧
      ((memberNames groups).Nodup ↔
        ∀ m ∈ MethodGroup.kept ignored methods, Naming.core m.name ∉ ownSpellings) ∧
      ((∀ g ∈ groups, Piece.isIdentRun g.camelName.toList = true) ↔
        ∀ m ∈ MethodGroup.kept ignored methods,
          ∀ d ∈ (Naming.core m.name).toList.head?, d.isDigit = false) := by
  have hapart := not_colliding_of_render h
  rw [render_ok hapart] at h
  refine ⟨_, MethodGroup.build_ok c data hapart, (Except.ok.inj h).symm, filterMap_lines n ?_,
    MethodGroup.nodup_camelName c data hapart, ?_, ?_⟩
  · rw [forall_mem_grouping c data _ fun name => ∀ c ∈ name.toList, isIdentChar c = true]
    exact fun m hm => Naming.isIdentChar_camelCase (hident m hm)
  · rw [nodup_memberNames_iff c data hapart]
    exact forall₂_congr fun m hm => not_congr (mem_ownSpellings_iff (hident m hm)).symm
  · rw [forall_mem_grouping c data _ fun name => Piece.isIdentRun name.toList = true]
    exact forall₂_congr fun m hm => Naming.isIdentRun_camelCase_iff (hident m hm)

def executive : Converter := ⟨"JSBSim", "FGFDMExec", [], [], [], []⟩

def noData : Metadata := ⟨[], [], [], [], [], []⟩

def apiNames : Names := ⟨"FGFDMExec", "FGFDMExecApi", "./api"⟩

def declaring (name : String) : Method := ⟨name, "bool", [], .empty⟩

def groupsOf (methods : List Method) : List MethodGroup :=
  MethodGroup.grouping executive noData methods

theorem members_of_render_runIC :
    (∀ m ∈ MethodGroup.kept [] [declaring "RunIC", declaring "_Executive"],
      Piece.isIdentRun m.name.toList = true) ∧
    render executive noData apiNames [] [declaring "RunIC", declaring "_Executive"] =
      .ok (joinLines (lines apiNames (groupsOf [declaring "RunIC", declaring "_Executive"]))) ∧
    ∃ groups, MethodGroup.build executive noData []
        [declaring "RunIC", declaring "_Executive"] = .ok groups ∧
      (memberNames groups).Nodup ∧ ∀ g ∈ groups, Piece.isIdentRun g.camelName.toList = true := by
  have hident : ∀ m ∈ MethodGroup.kept [] [declaring "RunIC", declaring "_Executive"],
      Piece.isIdentRun m.name.toList = true := by decide
  have hrender : render executive noData apiNames [] [declaring "RunIC", declaring "_Executive"] =
      .ok (joinLines (lines apiNames (groupsOf [declaring "RunIC", declaring "_Executive"]))) := by
    apply render_ok
    rw [MethodGroup.Colliding]
    decide +kernel
  have hfirst : ∀ m ∈ MethodGroup.kept [] [declaring "RunIC", declaring "_Executive"],
      ((Naming.core m.name).toList.head?.all fun d => !d.isDigit) = true := by decide +kernel
  obtain ⟨groups, hbuild, -, -, -, hnodup, hidents⟩ := members_of_render hident hrender
  refine ⟨hident, hrender, groups, hbuild, hnodup.2 (by decide +kernel), hidents.2 ?_⟩
  intro m hm d hd
  simpa using (Option.all_eq_true _ _).1 (hfirst m hm) d hd

/-- A method `Exec` becomes a second member `exec`, and a method `_3dView` a member that is not an
identifier. -/
theorem members_in_the_way :
    (render executive noData apiNames [] [declaring "Exec"] =
        .ok (joinLines (lines apiNames (groupsOf [declaring "Exec"]))) ∧
      (lines apiNames (groupsOf [declaring "Exec"])).filterMap declared? =
        ["exec", "constructor", "exec"] ∧
      ¬ (memberNames (groupsOf [declaring "Exec"])).Nodup) ∧
    render executive noData apiNames [] [declaring "_3dView"] =
        .ok (joinLines (lines apiNames (groupsOf [declaring "_3dView"]))) ∧
      (lines apiNames (groupsOf [declaring "_3dView"])).filterMap declared? =
        ["exec", "constructor", "3DView"] ∧
      Piece.isIdentRun "3DView".toList = false := by
  have hrender : ∀ name, render executive noData apiNames [] [declaring name] =
      .ok (joinLines (lines apiNames (groupsOf [declaring name]))) := by
    intro name
    apply render_ok
    rintro ⟨m, hm, m', hm', hne, -⟩
    simp only [MethodGroup.kept, List.not_mem_nil, not_false_eq_true, decide_true,
      List.filter_true, List.mem_singleton] at hm hm'
    exact hne (by rw [hm, hm'])
  have hchars : ∀ name, Piece.isIdentRun name.toList = true →
      ∀ g ∈ groupsOf [declaring name], ∀ c ∈ g.camelName.toList, isIdentChar c = true := by
    intro name hident
    rw [groupsOf, forall_mem_grouping _ _ _ fun name => ∀ c ∈ name.toList, isIdentChar c = true,
      List.forall_mem_singleton]
    exact Naming.isIdentChar_camelCase hident
  refine ⟨⟨hrender "Exec", ?_, by decide +kernel⟩, hrender "_3dView", ?_, by decide⟩
  · rw [filterMap_lines apiNames (hchars "Exec" (by decide))]
    decide +kernel
  · rw [filterMap_lines apiNames (hchars "_3dView" (by decide))]
    decide +kernel

end Emit.ApiClass

end WasmBindings
