import WasmBindings.Emit.RawInterface
import WasmBindings.Proofs.Resolution

namespace WasmBindings

namespace Enumeration

theorem tsName_of_mem_flags {s : Declared} {f : EnumDef} (h : f ∈ s.result.flags) :
    f.tsName = f.methodName ++ "Mode" := by
  obtain ⟨entry, -, rfl⟩ := List.mem_map.1 h
  rfl

theorem nodup_tsName_flags {s : Declared} (h : s.flags.keys.Nodup) :
    (s.result.flags.map (·.tsName)).Nodup := by
  have hnames : s.result.flags.map (·.tsName) = s.flags.keys.map (· ++ "Mode") := by
    simp [Declared.result, Table.keys, flagDef]
  rw [hnames]
  apply h.map
  intro m n hmn
  exact String.append_left_inj "Mode" |>.1 hmn

end Enumeration

namespace Emit.RawInterface

def isHeading (line : String) : Bool := Converter.startsWith line "export enum "

def heading (d : EnumDef) : String := "export enum " ++ d.tsName ++ " \x7b"

theorem isHeading_heading (d : EnumDef) : isHeading (heading d) = true := by
  rw [isHeading, heading, Converter.startsWith, List.isPrefixOf_iff_prefix, String.append_assoc,
    String.toList_append]
  exact List.prefix_append _ _

theorem isHeading_indented (s : String) : isHeading ("  " ++ s) = false := by
  rw [isHeading, Converter.startsWith, String.toList_append]
  rfl

theorem isHeading_interface (s : String) : isHeading ("export interface " ++ s) = false := by
  rw [isHeading, Converter.startsWith, String.toList_append]
  rfl

theorem filter_enumLines (d : EnumDef) :
    (enumLines d ++ [""]).filter isHeading = [heading d] := by
  have hitems : (d.items.map fun i =>
      "  " ++ i.name.display ++ " = " ++ toString i.value ++ ",").filter isHeading = [] := by
    simp [String.append_assoc, isHeading_indented]
  have hend : ["\x7d", ""].filter isHeading = [] := by decide
  rw [enumLines, List.append_assoc, List.cons_append, ← heading, List.filter_cons,
    if_pos (isHeading_heading d), List.filter_append, hitems, List.singleton_append, hend]
  rfl

theorem filter_lines (c : Converter) (data : Metadata) (interfaceName : String)
    (methods : List Method) :
    (lines c data interfaceName methods).filter isHeading =
      (data.enums ++ data.flags).map heading := by
  have hstart : (banner ++ ["", "export type OpaqueHandle = number;", ""]).filter isHeading =
      [] := by decide
  have hmethods : (methods.map (methodLine c data)).filter isHeading = [] := by
    simp [methodLine, String.append_assoc, isHeading_indented]
  have hinterface :
      ["export interface " ++ interfaceName ++ " \x7b"].filter isHeading = [] := by
    simp [String.append_assoc, isHeading_interface]
  have hend : ["\x7d", ""].filter isHeading = [] := by decide
  rw [lines, List.filter_append, List.filter_append, List.filter_append, List.filter_append, hstart,
    hmethods, hinterface, hend, List.filter_flatMap, List.nil_append, List.append_nil,
    List.append_nil, List.append_nil, List.map_eq_flatMap]
  simp only [filter_enumLines]

theorem nodup_headings_iff (defs : List EnumDef) :
    (defs.map heading).Nodup ↔ (defs.map (·.tsName)).Nodup := by
  simp only [List.Nodup, List.pairwise_map, heading, ne_eq, String.append_left_inj,
    String.append_right_inj]

end Emit.RawInterface

namespace Metadata

open Emit

theorem exists_course_of_build {c : Converter} {resolver : Option EnumResolver} {casts : Casts}
    {cls : Json} {methods : List Method} {w w' : Workspace} {data : Metadata}
    (h : (build c resolver casts cls methods).run.run w = (.ok data, w')) :
    ∃ own turns reported, Enumeration.ofClassNode c.namespaceName cls = .ok own ∧
      Course c (resolveWith resolver) own.enums turns data.enums reported ∧
      data.flags = own.flags := by
  obtain ⟨own, w₁, hown, h⟩ := Session.run_bind_eq_ok.1 h
  obtain ⟨⟨enums, reported⟩, w₂, hresolve, h⟩ := Session.run_bind_eq_ok.1 h
  cases h
  obtain ⟨-, w₃, -, hown⟩ := Session.run_bind_eq_ok.1 hown
  obtain ⟨turns, hcourse, -⟩ := exists_course hresolve
  exact ⟨own, turns, reported, Session.run_ofExcept_eq_ok hown, hcourse, rfl⟩

/-- Two definitions of the metadata share an exported name only if one is an enumeration and the
other a group of flags, and then the interface declares that name twice. -/
theorem exported_names_distinct_iff {c : Converter} {resolver : Option EnumResolver}
    {casts : Casts} {cls : Json} {methods : List Method} {w w' : Workspace} {data : Metadata}
    (h : (build c resolver casts cls methods).run.run w = (.ok data, w')) (interfaceName : String) :
    (data.enums.map (·.tsName)).Nodup ∧ (data.flags.map (·.tsName)).Nodup ∧
      (((data.enums ++ data.flags).map (·.tsName)).Nodup ↔
        ∀ d ∈ data.enums, ∀ f ∈ data.flags, d.tsName ≠ f.methodName ++ "Mode") ∧
      (((RawInterface.lines c data interfaceName methods).filter RawInterface.isHeading).Nodup ↔
        ((data.enums ++ data.flags).map (·.tsName)).Nodup) := by
  obtain ⟨own, turns, reported, hown, hcourse, hflags⟩ := exists_course_of_build h
  obtain ⟨s, hs, rfl⟩ := Enumeration.exists_declared hown
  have henums : (data.enums.map (·.tsName)).Nodup := (hcourse.apart hs.apart).nodup_tsName
  have hgroups : (data.flags.map (·.tsName)).Nodup := by
    rw [hflags]
    exact Enumeration.nodup_tsName_flags hs.flags
  have hnames : ∀ f ∈ data.flags, f.tsName = f.methodName ++ "Mode" := by
    rw [hflags]
    exact fun f hf => Enumeration.tsName_of_mem_flags hf
  refine ⟨henums, hgroups, ?_, ?_⟩
  · rw [List.map_append, List.nodup_append]
    constructor
    · rintro ⟨-, -, hdisjoint⟩ d hd f hf hname
      rw [← hnames f hf] at hname
      exact hdisjoint _ (List.mem_map_of_mem hd) _ (List.mem_map_of_mem hf) hname
    · intro hapart
      refine ⟨henums, hgroups, ?_⟩
      simp only [List.mem_map]
      rintro - ⟨d, hd, rfl⟩ - ⟨f, hf, rfl⟩ hname
      exact hapart d hd f hf (hname.trans (hnames f hf))
  · rw [RawInterface.filter_lines, RawInterface.nodup_headings_iff]

def loopClass (modes : String) : Json :=
  Casts.nodeOf "CXXRecordDecl" [("name", .str "Trim"), ("tagUsed", .str "struct")]
    [enumNode modes ["lShort", "lLong"],
      Casts.nodeOf "VarDecl"
        [("name", .str "QUIET"), ("storageClass", .str "static"), Casts.typeField "const int"]
        [Casts.nodeOf "IntegerLiteral" [("value", .str "1")] [],
          Casts.nodeOf "FullComment" []
            [Casts.nodeOf "TextComment" [("text", .str "Mode flags for TrimLoop")] []]],
      Casts.nodeOf "CXXMethodDecl" [("name", .str "TrimLoop"), Casts.typeField "void (int)"]
        [Casts.nodeOf "ParmVarDecl" [("name", .str "mode"), Casts.typeField "int"] []]]

def trimLoop : Method := ⟨"TrimLoop", "void", [⟨"mode", "int", none⟩], .empty⟩

def loopEnums (modes : String) : Enumeration.ClassEnums :=
  (Enumeration.declared "JSBSim" (loopClass modes)).1.result

theorem exists_run_build_loopClass (modes : String)
    (h : (Enumeration.declared "JSBSim" (loopClass modes)).2.isNone = true) (w : Workspace) :
    ∃ data w', (build trimOwner none .empty (loopClass modes) [trimLoop]).run.run w =
        (.ok data, w') ∧
      data.enums = (loopEnums modes).enums ∧ data.flags = (loopEnums modes).flags := by
  have hnone : candidates trimOwner.pathTypes [trimLoop] .empty = [] := by decide
  have hknown : ∀ type ∈ candidates trimOwner.pathTypes [trimLoop] .empty,
      ((trimOwner.withDefs (loopEnums modes).enums).resolve? type).isSome = true := by
    rw [hnone]
    exact fun type htype => absurd htype List.not_mem_nil
  have hown : Enumeration.ofClassNode trimOwner.namespaceName (loopClass modes) =
      .ok (loopEnums modes) := ofClassNode_of_declared h
  obtain ⟨data, w', hrun, henums, hflags, -⟩ := exists_run_build trimOwner none hown hknown w
  exact ⟨data, w', hrun, henums, hflags⟩

theorem exported_names_not_distinct_trimLoop : ∃ data w',
    Method.extract Spelling.defaultPathTypes (loopClass "eLoopMode") = .ok [trimLoop] ∧
      (build trimOwner none .empty (loopClass "eLoopMode") [trimLoop]).run.run
        emptyWorkspace = (.ok data, w') ∧
      (data.enums ++ data.flags).map (·.tsName) = ["TrimLoopMode", "TrimLoopMode"] ∧
      (RawInterface.lines trimOwner data "RawTrim" [trimLoop]).filter RawInterface.isHeading =
        ["export enum TrimLoopMode \x7b", "export enum TrimLoopMode \x7b"] ∧
      ¬ ((data.enums ++ data.flags).map (·.tsName)).Nodup := by
  obtain ⟨data, w', hrun, henums, hflags⟩ :=
    exists_run_build_loopClass "eLoopMode" (by decide +kernel) emptyWorkspace
  have hnames : (data.enums ++ data.flags).map (·.tsName) = ["TrimLoopMode", "TrimLoopMode"] := by
    rw [henums, hflags]
    decide +kernel
  refine ⟨data, w', by decide +kernel, hrun, hnames, ?_, ?_⟩
  · rw [RawInterface.filter_lines, henums, hflags]
    decide +kernel
  · rw [hnames]
    decide

theorem exported_names_distinct_trimMode : ∃ data w',
    (build trimOwner none .empty (loopClass "eMode") [trimLoop]).run.run
        emptyWorkspace = (.ok data, w') ∧
      (data.enums ++ data.flags).map (·.tsName) = ["TrimMode", "TrimLoopMode"] ∧
      ((RawInterface.lines trimOwner data "RawTrim" [trimLoop]).filter
        RawInterface.isHeading).Nodup ∧
      ∀ d ∈ data.enums, ∀ f ∈ data.flags, d.tsName ≠ f.methodName ++ "Mode" := by
  obtain ⟨data, w', hrun, henums, hflags⟩ :=
    exists_run_build_loopClass "eMode" (by decide +kernel) emptyWorkspace
  have hnames : (data.enums ++ data.flags).map (·.tsName) = ["TrimMode", "TrimLoopMode"] := by
    rw [henums, hflags]
    decide +kernel
  obtain ⟨-, -, hiff, hheadings⟩ := exported_names_distinct_iff hrun "RawTrim"
  have hdistinct : ((data.enums ++ data.flags).map (·.tsName)).Nodup := by
    rw [hnames]
    decide
  exact ⟨data, w', hrun, hnames, hheadings.2 hdistinct, hiff.1 hdistinct⟩

end Metadata

end WasmBindings
