import WasmBindings.Proofs.Resolution

/-!
The report of the resolution against its result.  A key is reported when the resolver refuses a
candidate, and nothing is reported when it finds a definition.  The definitions decide later which
candidates resolve, so a report can be wrong in two ways: a definition that comes later covers a
candidate that was refused, or the definition that was found covers nothing because it was dropped.
-/

namespace WasmBindings.Metadata

open Spelling

variable {c : Converter} {ask : String → Session (Option EnumDef)} {defs defs' : List EnumDef}
  {types : List String} {turns : List (String × Turn)} {reported : List String}
  {w w' : Workspace} {type : String} {d e : EnumDef}

theorem covers_congr {type' : String} (h : enumKey type = enumKey type') :
    c.Covers d type ↔ c.Covers d type' := by
  simp only [Converter.Covers, Converter.spellings, h]

theorem resolve?_eq_none_iff :
    (c.withDefs defs).resolve? type = none ↔ ∀ d ∈ defs, ¬ c.Covers d type := by
  rw [← Option.not_isSome_iff_eq_none, Converter.isSome_resolve?_iff]
  simp

namespace Course

theorem mem_reported_iff (h : Course c ask defs turns defs' reported) {key : String} :
    key ∈ reported ↔ ∃ type, (type, .refused) ∈ turns ∧ enumKey type = key := by
  induction h with
  | done => simp
  | known _ _ ih => simp [ih]
  | refused _ _ _ ih => simp [ih, eq_comm, or_and_right, exists_or]
  | found _ _ _ ih => simp [ih]

theorem mem_cases (h : Course c ask defs turns defs' reported) (hd : d ∈ defs') :
    d ∈ defs ∨ ∃ type, (type, .found d) ∈ turns := by
  induction h with
  | done => exact .inl hd
  | known _ _ ih => simpa using ih hd
  | refused _ _ _ ih => simpa using ih hd
  | @found _ _ type _ _ e _ _ _ ih =>
    rcases ih hd with hd | ⟨t, ht⟩
    · rcases EnumDef.mem_add hd with hd | rfl
      · exact .inl hd
      · exact .inr ⟨type, List.mem_cons_self⟩
    · exact .inr ⟨t, List.mem_cons_of_mem _ ht⟩

theorem covered_of_known (h : Course c ask defs turns defs' reported)
    (htype : (type, .known) ∈ turns) : ∃ e ∈ defs', c.Covers e type := by
  induction h with
  | done => cases htype
  | known hsome rest ih =>
    rcases List.mem_cons.1 htype with htype | htype
    · cases htype
      obtain ⟨e, he, hcovers⟩ := Converter.isSome_resolve?_iff.1 hsome
      exact ⟨e, rest.isPrefix.subset he, hcovers⟩
    · exact ih htype
  | refused _ _ _ ih => exact ih (by simpa using htype)
  | found _ _ _ ih => exact ih (by simpa using htype)

theorem found_of_covers (h : Course c ask defs turns defs' reported)
    (htype : (type, .refused) ∈ turns) (he : e ∈ defs') (hcovers : c.Covers e type) :
    ∃ t, (t, .found e) ∈ turns := by
  induction h with
  | done => cases htype
  | known _ _ ih => simpa using ih (by simpa using htype) he
  | refused hnone _ rest ih =>
    rcases List.mem_cons.1 htype with htype | htype
    · cases htype
      rcases rest.mem_cases he with hmem | ⟨t, ht⟩
      · exact absurd hcovers (resolve?_eq_none_iff.1 hnone e hmem)
      · exact ⟨t, List.mem_cons_of_mem _ ht⟩
    · obtain ⟨t, ht⟩ := ih htype he
      exact ⟨t, List.mem_cons_of_mem _ ht⟩
  | found _ _ _ ih =>
    obtain ⟨t, ht⟩ := ih (by simpa using htype) he
    exact ⟨t, List.mem_cons_of_mem _ ht⟩

theorem kept_or_clashes (h : Course c ask defs turns defs' reported)
    (hd : (type, .found d) ∈ turns) : d ∈ defs' ∨ ∃ e ∈ defs', e.clashes d = true := by
  induction h with
  | done => cases hd
  | known _ _ ih => exact ih (by simpa using hd)
  | refused _ _ _ ih => exact ih (by simpa using hd)
  | @found defs _ _ _ _ _ _ _ rest ih =>
    rcases List.mem_cons.1 hd with hd | hd
    · cases hd
      obtain ⟨⟨e, he, hclash⟩, -⟩ | ⟨-, hadd⟩ := EnumDef.add_cases defs d
      · exact .inr ⟨e, rest.isPrefix.subset ((EnumDef.isPrefix_add defs d).subset he), hclash⟩
      · exact .inl (rest.isPrefix.subset (by simp [hadd]))
    · exact ih hd

end Course

/-- The report is exact: it has the keys of the candidates that do not resolve in the end. -/
def Exact (c : Converter) (defs' : List EnumDef) (types reported : List String) : Prop :=
  ∀ type ∈ types, enumKey type ∈ reported ↔ (c.withDefs defs').resolve? type = none

theorem Course.exact_iff (h : Course c ask defs turns defs' reported) :
    Exact c defs' (turns.map Prod.fst) reported ↔
      (∀ type t d, (type, .refused) ∈ turns → (t, .found d) ∈ turns → d ∈ defs' →
        ¬ c.Covers d type) ∧
      ∀ type d, (type, .found d) ∈ turns → enumKey type ∉ reported →
        ∃ e ∈ defs', c.Covers e type := by
  constructor
  · intro hexact
    refine ⟨?_, ?_⟩
    · intro type t d htype _ hd
      have hkey := h.mem_reported_iff.2 ⟨type, htype, rfl⟩
      exact resolve?_eq_none_iff.1 ((hexact type (List.mem_map_of_mem htype)).1 hkey) d hd
    · intro type d htype hkey
      rw [← Converter.isSome_resolve?_iff, ← Option.ne_none_iff_isSome]
      exact fun hnone => hkey ((hexact type (List.mem_map_of_mem htype)).2 hnone)
  · rintro ⟨hrefused, hfound⟩ type htype
    constructor
    · -- the key may have been reported for another candidate, which has the same spellings
      intro hkey
      obtain ⟨type', hturn, hsame⟩ := h.mem_reported_iff.1 hkey
      rw [resolve?_eq_none_iff]
      intro e he hcovers
      have hcovers' := (covers_congr hsame).2 hcovers
      obtain ⟨t, ht⟩ := h.found_of_covers hturn he hcovers'
      exact hrefused type' t e hturn ht he hcovers'
    · intro hnone
      by_contra hkey
      obtain ⟨⟨type', turn⟩, hturn, rfl⟩ := List.mem_map.1 htype
      have hcovered : ∃ e ∈ defs', c.Covers e type' := by
        cases turn with
        | known => exact h.covered_of_known hturn
        | refused => exact absurd (h.mem_reported_iff.2 ⟨type', hturn, rfl⟩) hkey
        | found d => exact hfound type' d hturn hkey
      obtain ⟨e, he, hcovers⟩ := hcovered
      exact resolve?_eq_none_iff.1 hnone e he hcovers

/-- The report is exact just when no definition that was found and kept covers a candidate that was
refused, and every candidate that a definition was found for is covered in the end, or refused under
another spelling.  A definition that was found is lost only to one that it clashes with. -/
theorem report_exact_iff
    (h : (resolveAll c ask defs types).run.run w = (.ok (defs', reported), w')) :
    ∃ turns, Course c ask defs turns defs' reported ∧ turns.map Prod.fst = types ∧
      (Exact c defs' types reported ↔
        (∀ type t d, (type, .refused) ∈ turns → (t, .found d) ∈ turns → d ∈ defs' →
          ¬ c.Covers d type) ∧
        ∀ type d, (type, .found d) ∈ turns → enumKey type ∉ reported →
          ∃ e ∈ defs', c.Covers e type) ∧
      ∀ type d, (type, .found d) ∈ turns → d ∈ defs' ∨ ∃ e ∈ defs', e.clashes d = true := by
  obtain ⟨turns, hcourse, rfl⟩ := exists_course h
  exact ⟨turns, hcourse, rfl, hcourse.exact_iff, fun type d hd => hcourse.kept_or_clashes hd⟩

theorem exact_iff_of_isPath (hdefs : WellNamedDefs defs')
    (htypes : ∀ type ∈ types, IsPath type.toList) :
    Exact c defs' types reported ↔
      ∀ type ∈ types, type ∈ reported ↔ Scope.simpleName type ∉ defs'.map (·.simpleName) := by
  refine forall₂_congr fun type htype => ?_
  have hpath := htypes type htype
  rw [hdefs.resolve?_eq_none_iff hpath (.refl _), enumKey_of_decorates (.refl _) hpath,
    String.ofList_toList]

def modeClass : Json :=
  Casts.nodeOf "CXXRecordDecl" [("name", .str "Trim"), ("tagUsed", .str "struct")]
    [enumNode "eMode" ["mShort", "mLong"]]

def modeEnums : Enumeration.ClassEnums := (Enumeration.declared "JSBSim" modeClass).1.result

theorem names_modeEnums :
    (Enumeration.declared "JSBSim" modeClass).2.isNone = true ∧
      Enumeration.enumNames (Tree.children modeClass) = ["eMode"] ∧
      modeEnums.enums.map (·.simpleName) = ["eMode"] ∧
      modeEnums.enums.map (·.tsName) = ["TrimMode"] := by
  decide +kernel

theorem wellNamedDefs_modeEnums : WellNamedDefs modeEnums.enums := by
  apply (Enumeration.sound_declared "JSBSim" modeClass).wellNamedDefs
  rw [names_modeEnums.2.1]
  decide

def trimModes : EnumDef := Enumeration.external "TrimMode" "TrimMode" [⟨.str "tFull", 0⟩]

theorem isPath_scopedTrimMode : IsPath "FGTrim::TrimMode".toList :=
  .cons (n := "FGTrim".toList) (by decide) isPath_trimMode

theorem wellNamedDefs_trimModes : WellNamedDefs [trimModes] := by
  have htrim : trimModes.WellNamed := (isExternal_external isPath_trimMode _).wellNamed
  exact ⟨by simpa using htrim, List.nodup_singleton _⟩

def askTrimMode (type : String) : Session (Option EnumDef) :=
  return if type == "TrimMode" then some trimModes else none

theorem run_askTrimMode (w : Workspace) :
    (askTrimMode "TrimMode").run.run w = (.ok (some trimModes), w) := rfl

theorem run_askTrimMode_of_ne (h : type ≠ "TrimMode") (w : Workspace) :
    (askTrimMode type).run.run w = (.ok none, w) := by
  rw [askTrimMode, if_neg (by simpa using h)]
  rfl

theorem resolve?_withDefs_nil (c : Converter) (type : String) :
    (c.withDefs []).resolve? type = none :=
  resolve?_eq_none_iff.2 (by simp)

theorem run_modeEnums (w : Workspace) : ∃ w',
    (resolveAll trimOwner askTrimMode modeEnums.enums ["TrimMode"]).run.run w =
      (.ok (modeEnums.enums, []), w') := by
  have hnone : (trimOwner.withDefs modeEnums.enums).resolve? "TrimMode" = none := by
    rw [wellNamedDefs_modeEnums.resolve?_eq_none_iff isPath_trimMode (.refl _),
      names_modeEnums.2.2.1]
    decide
  have hlost : EnumDef.add modeEnums.enums trimModes = modeEnums.enums := by
    obtain ⟨-, hadd⟩ | ⟨hfresh, -⟩ := EnumDef.add_cases modeEnums.enums trimModes
    · exact hadd
    · have hmem : "TrimMode" ∈ modeEnums.enums.map (·.tsName) := by
        rw [names_modeEnums.2.2.2]
        exact List.mem_singleton_self _
      obtain ⟨e, he, hname⟩ := List.mem_map.1 hmem
      exact absurd hname (EnumDef.clashes_eq_false.1 (hfresh e he)).1
  have hrun := run_resolveAll_found hnone (run_askTrimMode w)
  rwa [hlost] at hrun

theorem run_scopedTrimMode (w : Workspace) : ∃ w',
    (resolveAll trimOwner askTrimMode [] (["FGTrim::TrimMode"] ++ ["TrimMode"])).run.run w =
      (.ok ([trimModes], ["FGTrim::TrimMode"]), w') := by
  have hrefused := run_resolveAll_refused (resolve?_withDefs_nil trimOwner "FGTrim::TrimMode")
    (run_askTrimMode_of_ne (by decide) w)
  obtain ⟨w', hfound⟩ :=
    run_resolveAll_found (resolve?_withDefs_nil trimOwner "TrimMode") (run_askTrimMode w)
  exact ⟨w', run_resolveAll_append.2 ⟨_, _, _, _, hrefused, hfound, by decide⟩⟩

theorem run_flapMode (w : Workspace) : ∃ w',
    (resolveAll trimOwner askTrimMode [] (["TrimMode"] ++ ["FlapMode"])).run.run w =
      (.ok ([trimModes], ["FlapMode"]), w') := by
  have hnone : (trimOwner.withDefs [trimModes]).resolve? "FlapMode" = none := by
    rw [wellNamedDefs_trimModes.resolve?_eq_none_iff isPath_flapMode (.refl _)]
    decide
  obtain ⟨w', hfound⟩ :=
    run_resolveAll_found (resolve?_withDefs_nil trimOwner "TrimMode") (run_askTrimMode w)
  have hrefused := run_resolveAll_refused hnone (run_askTrimMode_of_ne (by decide) w')
  exact ⟨w', run_resolveAll_append.2 ⟨_, _, _, _, hfound, hrefused, by decide⟩⟩

/-- The trim modes may be neither known nor reported, and their scoped name may be reported although
it resolves in the end. -/
theorem report_not_exact_trimMode : ∃ w₁ w₂,
    Enumeration.ofClassNode "JSBSim" modeClass = .ok modeEnums ∧
      (resolveAll trimOwner askTrimMode modeEnums.enums ["TrimMode"]).run.run emptyWorkspace =
        (.ok (modeEnums.enums, []), w₁) ∧
      ¬ Exact trimOwner modeEnums.enums ["TrimMode"] [] ∧
      (resolveAll trimOwner askTrimMode [] (["FGTrim::TrimMode"] ++ ["TrimMode"])).run.run
        emptyWorkspace = (.ok ([trimModes], ["FGTrim::TrimMode"]), w₂) ∧
      ¬ Exact trimOwner [trimModes] ["FGTrim::TrimMode", "TrimMode"] ["FGTrim::TrimMode"] := by
  obtain ⟨w₁, hlost⟩ := run_modeEnums emptyWorkspace
  obtain ⟨w₂, hfound⟩ := run_scopedTrimMode emptyWorkspace
  refine ⟨w₁, w₂, ofClassNode_of_declared names_modeEnums.1, hlost, ?_, hfound, ?_⟩
  · rw [exact_iff_of_isPath wellNamedDefs_modeEnums (by simpa using isPath_trimMode),
      names_modeEnums.2.2.1]
    decide
  · have hpaths : ∀ type ∈ ["FGTrim::TrimMode", "TrimMode"], IsPath type.toList := by
      simpa using ⟨isPath_scopedTrimMode, isPath_trimMode⟩
    rw [exact_iff_of_isPath wellNamedDefs_trimModes hpaths]
    decide

theorem report_exact_flapMode : ∃ w' turns,
    (resolveAll trimOwner askTrimMode [] (["TrimMode"] ++ ["FlapMode"])).run.run emptyWorkspace =
        (.ok ([trimModes], ["FlapMode"]), w') ∧
      Exact trimOwner [trimModes] ["TrimMode", "FlapMode"] ["FlapMode"] ∧
      turns.map Prod.fst = ["TrimMode", "FlapMode"] ∧
      Course trimOwner askTrimMode [] turns [trimModes] ["FlapMode"] ∧
      ∀ type t d, (type, .refused) ∈ turns → (t, .found d) ∈ turns → d ∈ [trimModes] →
        ¬ trimOwner.Covers d type := by
  obtain ⟨w', hrun⟩ := run_flapMode emptyWorkspace
  have hexact : Exact trimOwner [trimModes] ["TrimMode", "FlapMode"] ["FlapMode"] := by
    rw [exact_iff_of_isPath wellNamedDefs_trimModes
      (by simpa using ⟨isPath_trimMode, isPath_flapMode⟩)]
    decide
  obtain ⟨turns, hcourse, htypes, hiff, -⟩ := report_exact_iff hrun
  exact ⟨w', turns, hrun, hexact, htypes, hcourse, (hiff.1 hexact).1⟩

end WasmBindings.Metadata
