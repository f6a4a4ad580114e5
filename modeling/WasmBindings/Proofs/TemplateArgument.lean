import WasmBindings.Proofs.Cpp.EnumKey
import WasmBindings.Proofs.Cpp.Normal
import WasmBindings.Proofs.Qualification

namespace WasmBindings

namespace Text

theorem mem_withoutBlanks {c : Char} (hc : isBlank c = false) (s : List Char) :
    c ∈ withoutBlanks s ↔ c ∈ s := by
  simp [withoutBlanks, hc]

theorem mem_removeWords {words : List (List Char)} {c : Char} (hc : isWord c = false)
    (hwords : [c] ∉ words) {s : List Char} (h : c ∈ s) : c ∈ removeWords words s := by
  obtain ⟨u, v, rfl⟩ := List.append_of_mem h
  rw [removeWords_append_cons hc hwords]
  exact List.mem_append_right _ List.mem_cons_self

end Text

open Text

namespace Spelling

theorem toList_reference (type : String) : (type ++ "&").toList = type.toList ++ ['&'] :=
  String.toList_append

theorem without_squeeze_concat (s : List Char) :
    trim (without ['&'] (squeeze (s ++ ['&']))) = trim (without ['&'] (squeeze s)) := by
  have hcollapse : collapse (s ++ ['&']) = collapse s ++ ['&'] :=
    collapse_append_cons (by decide) s []
  rw [squeeze, squeeze, without, trim_filter_trim, without, trim_filter_trim, hcollapse,
    List.filter_append]
  simp

theorem bare_reference (type : String) : bare (type ++ "&") = bare type := by
  have hwords : removeWords qualifierWords (type.toList ++ ['&']) =
      removeWords qualifierWords type.toList ++ ['&'] :=
    removeWords_append_cons (by decide) (singleton_not_mem_qualifierWords '&') type.toList []
  rw [bare, bareChars, stripQualifiersChars, toList_reference, hwords, without_squeeze_concat]
  rfl

theorem pointee_reference (type : String) : pointee (type ++ "&") = pointee type := by
  rw [pointee, toList_reference, without_append]
  simp [pointee, without]

theorem isReference_reference (type : String) : isReference (type ++ "&") = true := by
  rw [isReference, toList_reference, List.contains_iff_mem]
  exact List.mem_append_right _ List.mem_cons_self

theorem isPointer_reference (type : String) : isPointer (type ++ "&") = isPointer type := by
  rw [isPointer, toList_reference]
  simp [isPointer]

theorem isConst_reference (type : String) : isConst (type ++ "&") = isConst type := by
  rw [isConst, hasWord, toList_reference, runs_append_cons (by decide)]
  simp [isConst, hasWord, constWord]

theorem mem_bareChars {s : List Char} {c : Char} (hc : isMark c = true) (href : c ≠ '&')
    (h : c ∈ s) : c ∈ bareChars s := by
  have hblank := not_isBlank_of_isMark hc
  have hstrip : c ∈ stripQualifiersChars s := by
    rw [← mem_withoutBlanks hblank, stripQualifiersChars, squeeze, withoutBlanks_trim,
      withoutBlanks_collapse, mem_withoutBlanks hblank]
    exact mem_removeWords (not_isWord_of_isMark hc) (singleton_not_mem_qualifierWords c) h
  rw [← mem_withoutBlanks hblank, bareChars, withoutBlanks_trim, mem_withoutBlanks hblank]
  exact List.mem_filter.2 ⟨hstrip, by simp [href]⟩

theorem not_simple_of_template {type : String} (h : '<' ∈ type.toList) :
    isBool type = false ∧ isNumeric type = false ∧ isText type = false := by
  have hbare : '<' ∈ bareChars type.toList := mem_bareChars (by decide) (by decide) h
  have hne : ∀ s : String, '<' ∉ s.toList → (bare type == s) = false := by
    intro s hs
    apply beq_eq_false_iff_ne.2
    rintro rfl
    exact hs (toList_bare type ▸ hbare)
  refine ⟨hne "bool" (by decide), ?_, hne "std::string" (by decide)⟩
  apply Bool.eq_false_iff.2
  intro hnumber
  have hmem : '<' ∈ collapse (bareChars type.toList) := by
    rw [← mem_withoutBlanks (by decide), withoutBlanks_collapse, mem_withoutBlanks (by decide)]
    exact hbare
  have hnumeric : ∀ t ∈ numericTypes, '<' ∉ t.toList := by decide
  have ht := hnumeric _ (mem_numericTypes hnumber)
  rw [String.toList_ofList, toList_bare] at ht
  exact ht hmem

theorem pointee_of_no_marks {type : String} (hnormal : normalize type = type)
    (hstar : isPointer type = false) (href : isReference type = false) : pointee type = type := by
  have hwithout : without ['&', '*'] type.toList = type.toList := by
    rw [without, List.filter_eq_self]
    intro c hc
    have hne : c ≠ '*' ∧ c ≠ '&' := by
      constructor
      · rintro rfl
        rw [isPointer, List.contains_iff_mem.2 hc] at hstar
        cases hstar
      · rintro rfl
        rw [isReference, List.contains_iff_mem.2 hc] at href
        cases href
    simp [hne]
  rw [pointee, hwithout, normalizeChars_trim]
  exact hnormal

theorem not_mem_pointee (type : String) : '&' ∉ (pointee type).toList := by
  rw [pointee, String.toList_ofList, ← mem_withoutBlanks (by decide), withoutBlanks_normalizeChars,
    withoutBlanks_trim, mem_withoutBlanks (by decide)]
  simp [without]

end Spelling

namespace Piece

def chars : Piece → List Char
  | .name t => t
  | .other t => t

theorem flatMap_chars_ofRuns (ws : List (List Char)) : (ofRuns ws).flatMap chars = ws.flatten := by
  induction ws with
  | nil => rfl
  | cons w ws ih =>
    rw [List.flatten_cons, ← ih]
    cases hw : isIdentRun w with
    | true =>
      rcases ofRuns_ident_cases hw ws with ⟨n, ps, hps, h⟩ | ⟨-, h⟩
      · rw [h, hps]
        simp [chars]
      · rw [h, List.flatMap_cons]
        rfl
    | false =>
      rw [ofRuns_other hw, List.flatMap_cons]
      rfl

theorem other_mem_ofRuns {w : List Char} (hw : isIdentRun w = false) (hcolon : w ≠ [':'])
    {ws : List (List Char)} (h : w ∈ ws) : .other w ∈ ofRuns ws := by
  induction ws with
  | nil => cases h
  | cons v ws ih =>
    cases hv : isIdentRun v with
    | true =>
      have hrest : w ∈ ws := by
        rcases List.mem_cons.1 h with rfl | hrest
        · rw [hw] at hv
          cases hv
        · exact hrest
      rcases ofRuns_ident_cases hv ws with ⟨n, ps, hps, hof⟩ | ⟨-, hof⟩
      · have hmem := ih hrest
        rw [hps] at hmem
        rw [hof]
        simpa [hcolon] using hmem
      · rw [hof]
        exact List.mem_cons_of_mem _ (ih hrest)
    | false =>
      rw [ofRuns_other hv]
      rcases List.mem_cons.1 h with rfl | hrest
      · exact List.mem_cons_self
      · exact List.mem_cons_of_mem _ (ih hrest)

end Piece

namespace Converter

variable {c : Converter} {type arg : String}

structure NamesUnmarked (c : Converter) : Prop where
  namespaceName : '&' ∉ c.namespaceName.toList
  entry : ∀ name q, c.qualifiedNames.get? name = some q → '&' ∉ q.toList

theorem reference_mem_qualify (h : '&' ∈ type.toList) : '&' ∈ (c.qualify type).toList := by
  have htags : ['&'] ∉ tagWords := by decide
  obtain ⟨u, v, huv⟩ := List.append_of_mem h
  rw [qualify, String.toList_ofList, huv, dropTags_append_cons (by decide) htags (by decide),
    runs_append_cons (by decide), List.mem_flatMap]
  refine ⟨.other ['&'], ?_, List.mem_cons_self⟩
  exact Piece.other_mem_ofRuns (by decide) (by decide)
    (List.mem_append_right _ List.mem_cons_self)

theorem NamesUnmarked.reference_mem_piece (hc : c.NamesUnmarked) {p : Piece}
    (h : '&' ∈ c.qualifyPiece p) : '&' ∈ p.chars := by
  cases p with
  | other t => exact h
  | name n =>
    rw [qualifyPiece, qualifyName] at h
    split at h
    · rwa [String.toList_ofList] at h
    · split at h
      · next q hq => exact absurd h (hc.entry _ q hq)
      · rw [String.toList_append, List.mem_append, String.toList_ofList] at h
        rcases h with hscope | hname
        · have hns := hc.namespaceName
          rw [scopeText] at hscope
          split at hscope
          · cases hscope
          · simp_all
        · exact hname

theorem NamesUnmarked.reference_not_mem_qualify (hc : c.NamesUnmarked) (h : '&' ∉ type.toList) :
    '&' ∉ (c.qualify type).toList := by
  rw [qualify, String.toList_ofList, List.mem_flatMap]
  rintro ⟨p, hp, hmem⟩
  apply h
  have hchars := List.mem_flatMap.2 ⟨p, hp, hc.reference_mem_piece hmem⟩
  rw [Piece.flatMap_chars_ofRuns, flatten_runs] at hchars
  exact mem_of_mem_dropTags hchars

/-- A type with template arguments that a wrapper takes as an address. -/
structure Addressed (c : Converter) (type : String) : Prop where
  template : '<' ∈ type.toList
  free : Spelling.isConst type = false
  notPath : Spelling.isPath c.pathTypes type = false
  notEnum : c.enumByValue? type = none

theorem Addressed.reference (h : c.Addressed type) : c.Addressed (type ++ "&") where
  template := by
    rw [Spelling.toList_reference]
    exact List.mem_append_left _ h.template
  free := (Spelling.isConst_reference type).trans h.free
  notPath := by
    rw [Spelling.isPath, Spelling.bare_reference]
    exact h.notPath
  notEnum := by
    rw [enumByValue?, Spelling.isReference_reference, Spelling.isConst_reference, h.free]
    exact ite_self none

def pointerTo (base arg : String) : String := "reinterpret_cast<" ++ base ++ ">(" ++ arg ++ ")"

theorem pointerTo_eq (base arg : String) :
    pointerTo base arg = "reinterpret_cast<" ++ base ++ ">(" ++ arg ++ ")" := rfl

theorem dereference_eq (base arg : String) :
    dereference base arg = "*reinterpret_cast<" ++ base ++ "*>(" ++ arg ++ ")" := rfl

theorem Addressed.cppArg_eq (h : c.Addressed type) (arg : String) :
    c.cppArg type arg =
      if Spelling.isPointer type then pointerTo (c.qualify (Spelling.normalize type)) arg
      else dereference (c.qualify (Spelling.pointee type)) arg := by
  obtain ⟨hbool, hnumber, htext⟩ := Spelling.not_simple_of_template h.template
  rw [pointerTo_eq]
  simp only [cppArg, hbool, hnumber, htext, h.notPath, h.notEnum, h.free, Bool.or_self,
    Bool.and_false, Bool.false_and, Bool.false_eq_true, if_false]

theorem pointerTo_ne_dereference (base base' arg : String) :
    pointerTo base arg ≠ dereference base' arg := by
  intro h
  rw [pointerTo_eq, dereference_eq] at h
  have hhead := congrArg (·.toList.head?) h
  simp at hhead

theorem dereference_injective {base base' : String}
    (h : dereference base arg = dereference base' arg) : base = base' := by
  simpa [dereference_eq, String.append_assoc] using h

def marksNested : Nat → List Char → Bool
  | depth, [] => depth == 0
  | depth, '<' :: r => marksNested (depth + 1) r
  | 0, '>' :: _ => false
  | depth + 1, '>' :: r => marksNested depth r
  | depth, c :: r => (depth != 0 || !Spelling.marks.contains c) && marksNested depth r

/-- A template type with no mark of its own. -/
structure Template (c : Converter) (type : String) : Prop extends c.Addressed type where
  normal : Spelling.normalize type = type
  nested : marksNested 0 type.toList = true
  notTexts : Spelling.isTextList type = false

theorem template_iff : c.Template type ↔
    '<' ∈ type.toList ∧ Spelling.isConst type = false ∧ Spelling.isPath c.pathTypes type = false ∧
      (c.enumByValue? type).isNone = true ∧ Spelling.normalize type = type ∧
      marksNested 0 type.toList = true ∧ Spelling.isTextList type = false := by
  rw [Option.isNone_iff_eq_none]
  constructor
  · intro h
    exact ⟨h.template, h.free, h.notPath, h.notEnum, h.normal, h.nested, h.notTexts⟩
  · rintro ⟨htemplate, hfree, hpath, henum, hnormal, hnested, htexts⟩
    exact ⟨⟨htemplate, hfree, hpath, henum⟩, hnormal, hnested, htexts⟩

instance : Decidable (c.Template type) := decidable_of_iff _ template_iff.symm

/-- A parameter of the type and a reference to it are made from the object behind the handle. -/
def PassedWhole (c : Converter) (type arg : String) : Prop :=
  c.cppArg type arg = dereference (c.qualify type) arg ∧
    c.cppArg (type ++ "&") arg = dereference (c.qualify type) arg

instance : Decidable (c.PassedWhole type arg) := inferInstanceAs (Decidable (_ ∧ _))

theorem Template.cppArg_eq (h : c.Template type) (arg : String) : c.cppArg type arg =
    if Spelling.isPointer type then pointerTo (c.qualify type) arg
    else dereference (c.qualify (Spelling.pointee type)) arg := by
  rw [h.toAddressed.cppArg_eq, h.normal]

theorem Template.cppArg_reference (h : c.Template type) (arg : String) :
    c.cppArg (type ++ "&") arg =
      if Spelling.isPointer type then
        pointerTo (c.qualify (Spelling.normalize (type ++ "&"))) arg
      else dereference (c.qualify (Spelling.pointee type)) arg := by
  rw [h.toAddressed.reference.cppArg_eq, Spelling.isPointer_reference,
    Spelling.pointee_reference]

theorem Template.passedWhole_of_no_marks (h : c.Template type)
    (hstar : Spelling.isPointer type = false) (href : Spelling.isReference type = false)
    (arg : String) : c.PassedWhole type arg := by
  rw [PassedWhole, h.cppArg_eq, h.cppArg_reference, hstar,
    Spelling.pointee_of_no_marks h.normal hstar href]
  exact ⟨rfl, rfl⟩

theorem Template.isPointer_of_passedWhole (h : c.Template type) (hwhole : c.PassedWhole type arg) :
    Spelling.isPointer type = false := by
  apply Bool.eq_false_iff.2
  intro hstar
  have hvalue := hwhole.1
  rw [h.cppArg_eq, if_pos hstar] at hvalue
  exact pointerTo_ne_dereference _ _ _ hvalue

theorem Template.isReference_of_passedWhole (h : c.Template type) (hc : c.NamesUnmarked)
    (hwhole : c.PassedWhole type arg) : Spelling.isReference type = false := by
  apply Bool.eq_false_iff.2
  intro href
  have hvalue := hwhole.1
  rw [h.cppArg_eq, if_neg (by simp [h.isPointer_of_passedWhole hwhole])] at hvalue
  have hlost := hc.reference_not_mem_qualify (Spelling.not_mem_pointee type)
  rw [dereference_injective hvalue] at hlost
  exact hlost (reference_mem_qualify (List.contains_iff_mem.1 href))

/-- A template type without marks is passed whole, by value and by reference.  With a pointer mark
in an argument it is cast as a pointer, and without one it loses the reference marks in its
arguments, so it is passed whole only when it has no marks. -/
theorem template_argument_whole_iff (h : c.Template type) (arg : String) :
    (c.cppArg type arg =
      if Spelling.isPointer type then pointerTo (c.qualify type) arg
      else dereference (c.qualify (Spelling.pointee type)) arg) ∧
    (c.cppArg (type ++ "&") arg =
      if Spelling.isPointer type then
        pointerTo (c.qualify (Spelling.normalize (type ++ "&"))) arg
      else dereference (c.qualify (Spelling.pointee type)) arg) ∧
    (Spelling.isPointer type = false → Spelling.isReference type = false →
      c.PassedWhole type arg) ∧
    (c.PassedWhole type arg → Spelling.isPointer type = false ∧
      (c.NamesUnmarked → Spelling.isReference type = false)) := by
  refine ⟨h.cppArg_eq arg, h.cppArg_reference arg, ?_, ?_⟩
  · intro hstar href
    exact h.passedWhole_of_no_marks hstar href arg
  · intro hwhole
    exact ⟨h.isPointer_of_passedWhole hwhole, fun hc => h.isReference_of_passedWhole hc hwhole⟩

theorem template_argument_not_whole :
    executive.Template "std::vector<FGTrim*>" ∧
    executive.cppArg "std::vector<FGTrim*>" "v" =
      "reinterpret_cast<std::vector<JSBSim::FGTrim*>>(v)" ∧
    ¬ executive.PassedWhole "std::vector<FGTrim*>" "v" ∧
    executive.Template "std::function<void(double&)>" ∧
    executive.cppArg "std::function<void(double&)>" "v" =
      "*reinterpret_cast<std::function<void(double)>*>(v)" ∧
    ¬ executive.PassedWhole "std::function<void(double&)>" "v" := by
  decide +kernel

theorem namesUnmarked_executive : executive.NamesUnmarked :=
  ⟨by decide, fun _ _ h => by cases h⟩

theorem template_argument_whole_sharedTrim :
    executive.Template "std::shared_ptr<FGTrim>" ∧
      executive.PassedWhole "std::shared_ptr<FGTrim>" "v" ∧
      executive.Template "std::function<void(double&)>" ∧ executive.NamesUnmarked ∧
      ¬ executive.PassedWhole "std::function<void(double&)>" "v" := by
  have hshared : executive.Template "std::shared_ptr<FGTrim>" := by decide +kernel
  have hfunction : executive.Template "std::function<void(double&)>" := by decide +kernel
  refine ⟨hshared, ?_, hfunction, namesUnmarked_executive, ?_⟩
  · exact (template_argument_whole_iff hshared "v").2.2.1 (by decide) (by decide)
  · intro hwhole
    have hmarks := ((template_argument_whole_iff hfunction "v").2.2.2 hwhole).2
    exact absurd (hmarks namesUnmarked_executive) (by decide)

end Converter

end WasmBindings
