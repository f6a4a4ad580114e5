import WasmBindings.Json.Printer
import WasmBindings.Proofs.ExternalEnums
import WasmBindings.Proofs.Overrides

/-!
The course of the resolution.  Each candidate has its turn: it is known, or the resolver refuses it,
or the resolver finds a definition, which is appended unless it clashes.  Later definitions replace
earlier ones in the table of spellings, but where only candidates with a fresh simple name are asked
for, no spelling changes hands.
-/

namespace WasmBindings

open Spelling

theorem WellNamedDefs.add {c : Converter} {defs : List EnumDef} {type : String} {d : EnumDef}
    (h : WellNamedDefs defs) (hnone : (c.withDefs defs).resolve? type = none)
    (hd : IsExternal (enumKey type) d) : WellNamedDefs (EnumDef.add defs d) := by
  -- a definition with the same simple name would cover the type
  have hfresh : d.simpleName ∉ defs.map (·.simpleName) := by
    intro hmem
    obtain ⟨e, he, hname⟩ := List.mem_map.1 hmem
    have hcovers := (h.wellNamed e he).covers_of_simpleName (hd.simpleName.symm.trans hname.symm) c
    have hsome := Converter.isSome_resolve?_iff.2 ⟨e, he, hcovers⟩
    rw [hnone] at hsome
    cases hsome
  obtain ⟨-, hadd⟩ | ⟨-, hadd⟩ := EnumDef.add_cases defs d
  · rw [hadd]
    exact h
  · rw [hadd]
    refine ⟨?_, ?_⟩
    · intro e he
      rcases List.mem_append.1 he with he | he
      · exact h.wellNamed e he
      · rw [List.mem_singleton.1 he]
        exact hd.wellNamed
    · rw [List.map_append]
      apply List.Nodup.append h.nodup (List.nodup_singleton _)
      simpa using hfresh

namespace Metadata

inductive Turn where
  | known
  | refused
  | found (d : EnumDef)

/-- The answer is one that may be given to the question, in some workspace. -/
def Answers (ask : String → Session (Option EnumDef)) (type : String) (answer : Option EnumDef) :
    Prop :=
  ∃ w w', (ask type).run.run w = (.ok answer, w')

/-- The definitions before and after the candidates have had their turns, and the keys that are
reported on the way. -/
inductive Course (c : Converter) (ask : String → Session (Option EnumDef)) :
    List EnumDef → List (String × Turn) → List EnumDef → List String → Prop
  | done (defs : List EnumDef) : Course c ask defs [] defs []
  | known {defs defs' : List EnumDef} {type : String} {turns : List (String × Turn)}
      {reported : List String} (h : ((c.withDefs defs).resolve? type).isSome = true)
      (rest : Course c ask defs turns defs' reported) :
      Course c ask defs ((type, .known) :: turns) defs' reported
  | refused {defs defs' : List EnumDef} {type : String} {turns : List (String × Turn)}
      {reported : List String} (h : (c.withDefs defs).resolve? type = none)
      (hask : Answers ask type none) (rest : Course c ask defs turns defs' reported) :
      Course c ask defs ((type, .refused) :: turns) defs' (enumKey type :: reported)
  | found {defs defs' : List EnumDef} {type : String} {turns : List (String × Turn)}
      {reported : List String} {d : EnumDef} (h : (c.withDefs defs).resolve? type = none)
      (hask : Answers ask type (some d))
      (rest : Course c ask (EnumDef.add defs d) turns defs' reported) :
      Course c ask defs ((type, .found d) :: turns) defs' reported

variable {c : Converter} {ask : String → Session (Option EnumDef)} {defs defs' : List EnumDef}
  {types : List String} {turns : List (String × Turn)} {reported : List String}
  {w w' : Workspace}

theorem run_addEnum {d : EnumDef} {w w' : Workspace}
    (h : (addEnum defs d).run.run w = (.ok defs', w')) : defs' = EnumDef.add defs d := by
  rw [addEnum] at h
  split at h
  · obtain ⟨-, w₁, -, h⟩ := Session.run_bind_eq_ok.1 h
    cases h
    rfl
  · cases h
    rfl

theorem exists_course (h : (resolveAll c ask defs types).run.run w = (.ok (defs', reported), w')) :
    ∃ turns, Course c ask defs turns defs' reported ∧ turns.map Prod.fst = types := by
  induction types generalizing defs reported w with
  | nil =>
    cases h
    exact ⟨[], .done _, rfl⟩
  | cons type types ih =>
    rw [resolveAll] at h
    split at h
    · next hknown =>
      obtain ⟨turns, hturns, hfst⟩ := ih h
      exact ⟨_, .known hknown hturns, by simp [hfst]⟩
    · next hunknown =>
      have hnone : (c.withDefs defs).resolve? type = none := by simpa using hunknown
      obtain ⟨answer, w₁, hanswer, h⟩ := Session.run_bind_eq_ok.1 h
      cases answer with
      | none =>
        obtain ⟨⟨defs₁, reported₁⟩, w₂, hrest, h⟩ := Session.run_bind_eq_ok.1 h
        cases h
        obtain ⟨turns, hturns, hfst⟩ := ih hrest
        exact ⟨_, .refused hnone ⟨w, w₁, hanswer⟩ hturns, by simp [hfst]⟩
      | some d =>
        obtain ⟨defs₁, w₂, hadd, hrest⟩ := Session.run_bind_eq_ok.1 h
        cases run_addEnum hadd
        obtain ⟨turns, hturns, hfst⟩ := ih hrest
        exact ⟨_, .found hnone ⟨w, w₁, hanswer⟩ hturns, by simp [hfst]⟩

theorem resolveAll_append (c : Converter) (ask : String → Session (Option EnumDef))
    (defs : List EnumDef) (before after : List String) :
    resolveAll c ask defs (before ++ after) = (do
      let (defs, reported) ← resolveAll c ask defs before
      let (defs, more) ← resolveAll c ask defs after
      return (defs, reported ++ more)) := by
  induction before generalizing defs with
  | nil => simp [resolveAll]
  | cons type before ih =>
    rw [List.cons_append, resolveAll, resolveAll]
    split
    · exact ih defs
    · rw [bind_assoc]
      congr 1
      funext answer
      cases answer with
      | none => simp [ih]
      | some d => simp [ih]

theorem run_resolveAll_append {before after : List String} :
    (resolveAll c ask defs (before ++ after)).run.run w = (.ok (defs', reported), w') ↔
      ∃ mid first w₁ more, (resolveAll c ask defs before).run.run w = (.ok (mid, first), w₁) ∧
        (resolveAll c ask mid after).run.run w₁ = (.ok (defs', more), w') ∧
        reported = first ++ more := by
  rw [resolveAll_append, Session.run_bind_eq_ok]
  constructor
  · rintro ⟨⟨mid, first⟩, w₁, hbefore, h⟩
    obtain ⟨⟨defs₂, more⟩, w₂, hafter, h⟩ := Session.run_bind_eq_ok.1 h
    cases h
    exact ⟨mid, first, w₁, more, hbefore, hafter, rfl⟩
  · rintro ⟨mid, first, w₁, more, hbefore, hafter, rfl⟩
    exact ⟨(mid, first), w₁, hbefore, Session.run_bind_eq_ok.2 ⟨(defs', more), w', hafter, rfl⟩⟩

theorem run_resolveAll_refused {type : String} (hnone : (c.withDefs defs).resolve? type = none)
    (hask : (ask type).run.run w = (.ok none, w')) :
    (resolveAll c ask defs [type]).run.run w = (.ok (defs, [enumKey type]), w') := by
  rw [resolveAll, if_neg (by simp [hnone])]
  exact Session.run_bind_eq_ok.2 ⟨none, w', hask, rfl⟩

theorem run_resolveAll_found {type : String} {d : EnumDef}
    (hnone : (c.withDefs defs).resolve? type = none)
    (hask : (ask type).run.run w = (.ok (some d), w')) :
    ∃ w₁, (resolveAll c ask defs [type]).run.run w = (.ok (EnumDef.add defs d, []), w₁) := by
  obtain ⟨w₁, hadd⟩ : ∃ w₁, (addEnum defs d).run.run w' = (.ok (EnumDef.add defs d), w₁) := by
    rw [addEnum]
    split <;> exact ⟨_, rfl⟩
  rw [resolveAll, if_neg (by simp [hnone])]
  exact ⟨w₁, Session.run_bind_eq_ok.2 ⟨some d, w', hask,
    Session.run_bind_eq_ok.2 ⟨EnumDef.add defs d, w₁, hadd, rfl⟩⟩⟩

namespace Course

theorem isPrefix (h : Course c ask defs turns defs' reported) : defs <+: defs' := by
  induction h with
  | done => exact List.prefix_rfl
  | known _ _ ih => exact ih
  | refused _ _ _ ih => exact ih
  | found _ _ _ ih => exact (EnumDef.isPrefix_add _ _).trans ih

theorem apart (h : Course c ask defs turns defs' reported) (hdefs : EnumDef.Apart defs) :
    EnumDef.Apart defs' := by
  induction h with
  | done => exact hdefs
  | known _ _ ih => exact ih hdefs
  | refused _ _ _ ih => exact ih hdefs
  | found _ _ _ ih => exact ih (hdefs.add _)

theorem answers_of_found (h : Course c ask defs turns defs' reported) {type : String}
    {d : EnumDef} (hd : (type, .found d) ∈ turns) : Answers ask type (some d) := by
  induction h with
  | done => cases hd
  | known _ _ ih => exact ih (by simpa using hd)
  | refused _ _ _ ih => exact ih (by simpa using hd)
  | found _ hask _ ih =>
    rcases List.mem_cons.1 hd with hd | hd
    · cases hd
      exact hask
    · exact ih hd

end Course

theorem Course.wellNamedDefs (h : Course c ask defs turns defs' reported)
    (hturns : ∀ type d, (type, .found d) ∈ turns → IsExternal (enumKey type) d)
    (hdefs : WellNamedDefs defs) : WellNamedDefs defs' := by
  induction h with
  | done => exact hdefs
  | known _ _ ih => exact ih (fun type d hd => hturns type d (List.mem_cons_of_mem _ hd)) hdefs
  | refused _ _ _ ih => exact ih (fun type d hd => hturns type d (List.mem_cons_of_mem _ hd)) hdefs
  | @found _ _ type _ _ d hnone _ _ ih =>
    apply ih fun type d hd => hturns type d (List.mem_cons_of_mem _ hd)
    exact hdefs.add hnone (hturns type d List.mem_cons_self)

structure NamesDistinct (defs : List EnumDef) : Prop where
  tsName : (defs.map (·.tsName)).Nodup
  qualifiedName : (defs.map (·.qualifiedName)).Nodup
  simpleName : (defs.map (·.simpleName)).Nodup

theorem namesDistinct (happart : EnumDef.Apart defs) (hdefs : WellNamedDefs defs) :
    NamesDistinct defs :=
  ⟨happart.nodup_tsName, happart.nodup_qualifiedName, hdefs.nodup⟩

/-- The candidates are decorated paths, and the definitions given for them have the names of the
paths. -/
structure Resolves (ask : String → Session (Option EnumDef)) (types : List String) : Prop where
  isPath : ∀ type ∈ types, ∃ path : String, IsPath path.toList ∧
    Decorates path.toList type.toList
  isExternal : ∀ type ∈ types, ∀ path : String, IsPath path.toList →
    Decorates path.toList type.toList → ∀ d, Answers ask type (some d) → IsExternal path d

theorem Resolves.isExternal_enumKey {type : String} {d : EnumDef} (h : Resolves ask types)
    (htype : type ∈ types) (hd : Answers ask type (some d)) : IsExternal (enumKey type) d := by
  obtain ⟨path, hpath, hdecorates⟩ := h.isPath type htype
  rw [enumKey_of_decorates hdecorates hpath, String.ofList_toList]
  exact h.isExternal type htype path hpath hdecorates d hd

theorem Resolves.of_subset {types' : List String} (h : Resolves ask types) (hsub : types' ⊆ types) :
    Resolves ask types' :=
  ⟨fun type htype => h.isPath type (hsub htype), fun type htype => h.isExternal type (hsub htype)⟩

theorem Resolves.course (h : Resolves ask types)
    (hrun : (resolveAll c ask defs types).run.run w = (.ok (defs', reported), w'))
    (happart : EnumDef.Apart defs) (hdefs : WellNamedDefs defs) :
    defs <+: defs' ∧ EnumDef.Apart defs' ∧ WellNamedDefs defs' := by
  obtain ⟨turns, hcourse, rfl⟩ := exists_course hrun
  refine ⟨hcourse.isPrefix, hcourse.apart happart, hcourse.wellNamedDefs ?_ hdefs⟩
  intro type d hd
  have htype : type ∈ turns.map Prod.fst := List.mem_map_of_mem hd
  exact h.isExternal_enumKey htype (hcourse.answers_of_found hd)

/-- After every part of the candidates the names of the definitions are distinct, what was defined
before is still defined, and what resolved before resolves in the same way. -/
theorem resolution_stable {cls : Json} {own : Enumeration.ClassEnums}
    (hcls : ∀ name ∈ Enumeration.enumNames (Tree.children cls), IsName name.toList)
    (hown : Enumeration.ofClassNode c.namespaceName cls = .ok own) {before after : List String}
    (hask : Resolves ask (before ++ after))
    (h : (resolveAll c ask own.enums (before ++ after)).run.run w = (.ok (defs', reported), w')) :
    ∃ defs first w₁, (resolveAll c ask own.enums before).run.run w = (.ok (defs, first), w₁) ∧
      NamesDistinct defs ∧ NamesDistinct defs' ∧ own.enums <+: defs ∧ defs <+: defs' ∧
      ∀ type d, (c.withDefs defs).resolve? type = some d →
        (c.withDefs defs').resolve? type = some d := by
  obtain ⟨s, hs, rfl⟩ := Enumeration.exists_declared hown
  obtain ⟨defs, first, w₁, more, hbefore, hafter, -⟩ := run_resolveAll_append.1 h
  obtain ⟨hgrow, happart, hdefs⟩ :=
    (hask.of_subset (List.subset_append_left before after)).course hbefore hs.apart
      (hs.wellNamedDefs hcls)
  obtain ⟨hgrow', happart', hdefs'⟩ :=
    (hask.of_subset (List.subset_append_right before after)).course hafter happart hdefs
  refine ⟨defs, first, w₁, hbefore, namesDistinct happart hdefs, namesDistinct happart' hdefs',
    hgrow, hgrow', ?_⟩
  intro type d hd
  exact hdefs'.resolve?_of_isPrefix hgrow' hd

theorem resolves_resolveWith (resolver : Option EnumResolver)
    (h : ∀ type ∈ types, ∃ path : String, IsPath path.toList ∧
      Decorates path.toList type.toList) : Resolves (resolveWith resolver) types where
  isPath := h
  isExternal := by
    rintro type - path hpath htype d ⟨w, w', hd⟩
    exact isExternal_of_resolveWith hpath htype hd

def finds (ask : String → Session (Option EnumDef)) (type : String) (w : Workspace) :
    Option Bool :=
  match ((ask type).run.run w).1 with
  | .ok answer => some answer.isSome
  | .error _ => none

theorem exists_run_of_finds {resolver : Option EnumResolver} {type : String}
    (h : finds (resolveWith resolver) type w = some true) :
    ∃ items w', (resolveWith resolver type).run.run w = (.ok (some (Enumeration.external
      (Scope.simpleName (enumKey type)) (enumKey type) items)), w') := by
  rcases hrun : (resolveWith resolver type).run.run w with ⟨fault | answer, w'⟩ <;>
    rw [finds, hrun] at h
  · cases h
  · cases answer with
    | none => cases h
    | some d =>
      obtain ⟨items, rfl⟩ := external_of_resolveWith hrun
      exact ⟨items, w', rfl⟩

def enumNode (name : String) (items : List String) : Json :=
  Casts.nodeOf "EnumDecl" [("name", .str name)]
    (items.map fun item => Casts.nodeOf "EnumConstantDecl" [("name", .str item)] [])

def modelsResolver : EnumResolver :=
  ⟨⟨"models", ["clang++"], FrontEnd.defaultStandard, FrontEnd.defaultMaxOutput,
    FrontEnd.defaultTempStem⟩, "models", "JSBSim"⟩

def trimOwner : Converter := { Converter.executive with className := "Trim" }

def flapFiles : Workspace :=
  .ofFiles [(["models"], .directory), (["models", "Flap.h"], .file (.text "enum FlapMode;\n"))]
    (.scripted [⟨none, none, none, .exited 0 (enumNode "FlapMode" ["fUp", "fDown"]).render⟩]) []

theorem isPath_trimMode : IsPath "TrimMode".toList := .name (by decide)

theorem isPath_flapMode : IsPath "FlapMode".toList := .name (by decide)

theorem decorates_trimMode : Decorates "TrimMode".toList "const TrimMode &".toList :=
  ⟨"const ".toList, " &".toList, .word (w := constWord) (by decide) (by decide) .nil,
    .gap (by decide) (.gap (by decide) .nil), by decide⟩

theorem decorates_flapMode : Decorates "FlapMode".toList "enum FlapMode".toList :=
  Enumeration.decorates_enum "FlapMode"

theorem resolves_flapMode : Resolves (resolveWith (some modelsResolver))
    (["const TrimMode &"] ++ ["enum FlapMode"]) := by
  apply resolves_resolveWith
  intro type htype
  simp only [List.singleton_append, List.mem_cons, List.not_mem_nil, or_false] at htype
  rcases htype with rfl | rfl
  · exact ⟨"TrimMode", isPath_trimMode, decorates_trimMode⟩
  · exact ⟨"FlapMode", isPath_flapMode, decorates_flapMode⟩

theorem finds_flapMode : finds (resolveWith (some modelsResolver)) "enum FlapMode" flapFiles =
    some true := by decide +kernel

theorem names_trimEnums :
    Enumeration.enumNames (Tree.children trimClass) = ["TrimMode"] ∧
      trimEnums.enums.map (·.simpleName) = ["TrimMode"] ∧
      trimEnums.enums.map (·.tsName) = ["FGFDMExecTrimMode"] ∧
      trimEnums.enums.map (·.qualifiedName) = ["JSBSim::FGFDMExec::TrimMode"] := by
  decide +kernel

theorem isName_trimClass :
    ∀ name ∈ Enumeration.enumNames (Tree.children trimClass), IsName name.toList := by
  rw [names_trimEnums.1]
  decide

theorem wellNamedDefs_trimEnums : WellNamedDefs trimEnums.enums :=
  (Enumeration.sound_declared "JSBSim" trimClass).wellNamedDefs isName_trimClass

theorem isSome_resolve?_trimMode :
    ((Converter.executive.withDefs trimEnums.enums).resolve? "const TrimMode &").isSome = true := by
  rw [wellNamedDefs_trimEnums.isSome_resolve?_iff isPath_trimMode decorates_trimMode,
    names_trimEnums.2.1]
  decide

theorem resolve?_flapMode :
    (Converter.executive.withDefs trimEnums.enums).resolve? "enum FlapMode" = none := by
  rw [wellNamedDefs_trimEnums.resolve?_eq_none_iff isPath_flapMode decorates_flapMode,
    names_trimEnums.2.1]
  decide

theorem add_flapMode (items : List Enumerator) :
    EnumDef.add trimEnums.enums (Enumeration.external "FlapMode" "FlapMode" items) =
      trimEnums.enums ++ [Enumeration.external "FlapMode" "FlapMode" items] := by
  obtain ⟨⟨e, he, hclash⟩, -⟩ | ⟨-, hadd⟩ := EnumDef.add_cases trimEnums.enums
    (Enumeration.external "FlapMode" "FlapMode" items)
  · have htsName := List.mem_map_of_mem (f := EnumDef.tsName) he
    have hqualified := List.mem_map_of_mem (f := EnumDef.qualifiedName) he
    rw [names_trimEnums.2.2.1, List.mem_singleton] at htsName
    rw [names_trimEnums.2.2.2, List.mem_singleton] at hqualified
    simp [EnumDef.clashes, htsName, hqualified, Enumeration.external,
      isPath_flapMode.normalize_dropEnum] at hclash
  · exact hadd

theorem resolution_stable_flapMode : ∃ defs' reported w',
    (∀ name ∈ Enumeration.enumNames (Tree.children trimClass), IsName name.toList) ∧
      Enumeration.ofClassNode "JSBSim" trimClass = .ok trimEnums ∧
      Resolves (resolveWith (some modelsResolver)) (["const TrimMode &"] ++ ["enum FlapMode"]) ∧
      (resolveAll Converter.executive (resolveWith (some modelsResolver)) trimEnums.enums
        (["const TrimMode &"] ++ ["enum FlapMode"])).run.run flapFiles =
          (.ok (defs', reported), w') ∧
      defs'.map (·.tsName) = ["FGFDMExecTrimMode", "FlapMode"] ∧ NamesDistinct defs' ∧
      ((Converter.executive.withDefs trimEnums.enums).resolve? "const TrimMode &").isSome = true ∧
      ∀ type d, (Converter.executive.withDefs trimEnums.enums).resolve? type = some d →
        (Converter.executive.withDefs defs').resolve? type = some d := by
  have hown : Enumeration.ofClassNode Converter.executive.namespaceName trimClass =
      .ok trimEnums := ofClassNode_trimClass
  have hknown : (resolveAll Converter.executive (resolveWith (some modelsResolver))
      trimEnums.enums ["const TrimMode &"]).run.run flapFiles =
        (.ok (trimEnums.enums, []), flapFiles) := by
    rw [resolveAll_of_known]
    · rfl
    · simpa using isSome_resolve?_trimMode
  obtain ⟨items, w₁, hanswer⟩ := exists_run_of_finds finds_flapMode
  obtain ⟨w₂, hfound⟩ := run_resolveAll_found resolve?_flapMode hanswer
  have hrun := run_resolveAll_append.2 ⟨_, _, _, _, hknown, hfound, rfl⟩
  obtain ⟨defs, first, w₃, hbefore, -, hdistinct, -, -, hstable⟩ :=
    resolution_stable isName_trimClass hown resolves_flapMode hrun
  cases hknown.symm.trans hbefore
  refine ⟨_, _, w₂, isName_trimClass, ofClassNode_trimClass, resolves_flapMode, hrun, ?_,
    hdistinct, isSome_resolve?_trimMode, hstable⟩
  have hnames := congrArg (List.map (·.tsName)) (add_flapMode items)
  rw [List.map_append, names_trimEnums.2.2.1] at hnames
  exact hnames

end Metadata

end WasmBindings
