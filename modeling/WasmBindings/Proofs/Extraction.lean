import WasmBindings.Method.Extraction
import WasmBindings.Proofs.Enumerators
import WasmBindings.Proofs.Outcome

namespace WasmBindings.Method

variable {pathTypes : List String} {cls v className : Json} {name : String}

/-- A public member of the class that can be bound under the name. -/
structure Exposes (cls v : Json) (name : String) : Prop where
  isPublic : ClassBody.Entry.member true v ∈ ClassBody.entries cls
  bindable : bindableName? (ClassBody.className cls) v = some name

theorem exists_of_stepOfNode {step : Step} (h : stepOfNode pathTypes name v = .ok step) :
    ∃ returnType, inferReturnType v = .ok returnType ∧
      (returnType = "" ∧ step = .skipped name ∨
        returnType ≠ "" ∧ ∃ params doc, paramsOfNode pathTypes v = .ok params ∧
          step = .method ⟨name, returnType, params, doc⟩) := by
  obtain ⟨returnType, hreturn, h⟩ := Outcome.bind_eq_ok.1 h
  refine ⟨returnType, hreturn, ?_⟩
  split at h
  · next hempty =>
    cases h
    exact .inl ⟨by simpa using hempty, rfl⟩
  · next hne =>
    obtain ⟨params, hparams, h⟩ := Outcome.bind_eq_ok.1 h
    obtain ⟨comment, -, h⟩ := Outcome.bind_eq_ok.1 h
    obtain ⟨parsed, -, h⟩ := Outcome.bind_eq_ok.1 h
    cases h
    exact .inr ⟨by simpa using hne, params, _, hparams, rfl⟩

theorem parts_of_stepOfNode {m : Method} (h : stepOfNode pathTypes name v = .ok (.method m)) :
    m.name = name ∧ paramsOfNode pathTypes v = .ok m.params := by
  obtain ⟨_, -, ⟨-, hskipped⟩ | ⟨-, params, doc, hparams, hmethod⟩⟩ := exists_of_stepOfNode h
  · cases hskipped
  · cases hmethod
    exact ⟨rfl, hparams⟩

theorem isObject_of_bindableName? (h : bindableName? className v = some name) :
    v.isObject = true := by
  have hkind : Tree.hasKind "CXXMethodDecl" v = true := by
    by_contra hkind
    rw [bindableName?, if_pos (by simp [hkind])] at h
    cases h
  exact Tree.isObject_of_field? (Tree.field?_of_hasKind hkind)

theorem stepOfEntry_of_bindable (h : bindableName? className v = some name) :
    stepOfEntry pathTypes className (.member true v) =
      (stepOfNode pathTypes name v).map some := by
  rw [stepOfEntry, Tree.checkNode, if_pos (isObject_of_bindableName? h), if_pos rfl, h]
  change (stepOfNode pathTypes name v >>= fun step => pure (some step)) = _
  cases stepOfNode pathTypes name v <;> rfl

theorem stepOfEntry_eq_some_iff {e : ClassBody.Entry} {step : Step} :
    stepOfEntry pathTypes className e = .ok (some step) ↔
      ∃ v name, e = .member true v ∧ bindableName? className v = some name ∧
        stepOfNode pathTypes name v = .ok step := by
  constructor
  · intro h
    cases e with
    | specifier isPublic => cases h
    | member isPublic v =>
      obtain ⟨⟨⟩, -, h⟩ := Outcome.bind_eq_ok.1 h
      split at h
      · next name hname =>
        obtain ⟨taken, htaken, h⟩ := Outcome.bind_eq_ok.1 h
        cases h
        cases isPublic with
        | false => cases hname
        | true => exact ⟨v, name, rfl, hname, htaken⟩
      · cases h
  · rintro ⟨v, name, rfl, hname, hstep⟩
    rw [stepOfEntry_of_bindable hname, hstep]
    rfl

section Extract

variable {methods : List Method} (h : extract pathTypes cls = .ok methods)
include h

theorem Exposes.exists_step (hv : Exposes cls v name) :
    ∃ step, stepOfNode pathTypes name v = .ok step := by
  obtain ⟨⟨⟩, -, h⟩ := Outcome.bind_eq_ok.1 h
  obtain ⟨found, hfound, -⟩ := Outcome.bind_eq_ok.1 h
  obtain ⟨outcome, houtcome⟩ :=
    Outcome.exists_of_mapM_eq_ok hfound (List.mem_map_of_mem hv.isPublic)
  rw [id, stepOfEntry_of_bindable hv.bindable] at houtcome
  obtain ⟨step, hstep, -⟩ := Outcome.map_eq_ok.1 houtcome
  exact ⟨step, hstep⟩

theorem mem_extract_iff {m : Method} :
    m ∈ methods ↔ ∃ v, Exposes cls v m.name ∧ stepOfNode pathTypes m.name v = .ok (.method m) := by
  obtain ⟨⟨⟩, -, h⟩ := Outcome.bind_eq_ok.1 h
  obtain ⟨found, hfound, h⟩ := Outcome.bind_eq_ok.1 h
  cases h
  have hmethod : ∀ s : Option Step, Step.method? s = some m ↔ s = some (.method m) := by
    intro s
    rcases s with _ | ⟨_ | _⟩ <;> simp [Step.method?]
  simp only [List.mem_filterMap, hmethod, exists_eq_right]
  rw [Outcome.mem_of_mapM_eq_ok hfound]
  simp only [steps, List.mem_map, exists_exists_and_eq_and, id, stepOfEntry_eq_some_iff]
  constructor
  · rintro ⟨e, he, v, name, rfl, hname, hstep⟩
    obtain rfl := (parts_of_stepOfNode hstep).1
    exact ⟨v, ⟨he, hname⟩, hstep⟩
  · rintro ⟨v, hv, hstep⟩
    exact ⟨_, hv.isPublic, v, m.name, rfl, hv.bindable, hstep⟩

end Extract

end WasmBindings.Method
