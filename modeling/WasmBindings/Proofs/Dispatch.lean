import Mathlib.Data.List.Nodup
import WasmBindings.Proofs.FillCases

namespace WasmBindings

def forwarded (overloads : List Overload) (args : List String) : List String :=
  match (fillCases overloads).find? (·.count == args.length) with
  | some f => args ++ f.defaults
  | none => args

/-- The overload at the position has just as many parameters as there are arguments. -/
def Reaches (overloads : List Overload) (args : List String) (i : Nat) : Prop :=
  ∃ o, overloads[i]? = some o ∧ o.params.length = args.length

variable {overloads : List Overload} {args : List String} {i j : Nat}

theorem fillCase_unique {f f' : FillCase} (hf : f ∈ fillCases overloads)
    (hf' : f' ∈ fillCases overloads) (h : f.count = f'.count) : f = f' := by
  have hcounts : ((fillCases overloads).map (·.count)).Nodup :=
    List.pairwise_map.2 (fillCases_count_ne overloads)
  exact List.inj_on_of_nodup_map hcounts hf hf' h

theorem forwarded_of_mem {f : FillCase} (hf : f ∈ fillCases overloads)
    (hcount : f.count = args.length) : forwarded overloads args = args ++ f.defaults := by
  rw [forwarded]
  cases hfind : (fillCases overloads).find? (·.count == args.length) with
  | none =>
    have hnone := List.find?_eq_none.1 hfind f hf
    simp [hcount] at hnone
  | some f' =>
    have hcount' := List.find?_some hfind
    rw [beq_iff_eq] at hcount'
    rw [fillCase_unique hf (List.mem_of_find?_eq_some hfind) (hcount.trans hcount'.symm)]

theorem forwarded_of_not_mem (h : ∀ f ∈ fillCases overloads, f.count ≠ args.length) :
    forwarded overloads args = args := by
  rw [forwarded, List.find?_eq_none.2 (by simpa using h)]

theorem takes_length (o : Overload) : o.Takes o.params.length := by
  simp [Overload.Takes]

theorem forwarded_of_shared (hij : i ≠ j) (hi : Reaches overloads args i)
    (hj : Reaches overloads args j) : forwarded overloads args = args := by
  apply forwarded_of_not_mem
  intro f hf hcount
  obtain ⟨o, ho, hlength⟩ := hi
  obtain ⟨o', ho', hlength'⟩ := hj
  obtain ⟨k, -, -, -, hunique, -⟩ := mk_mem_fillCases.1 hf
  have hi := hunique i o ho (by rw [hcount, ← hlength]; exact takes_length o)
  have hj := hunique j o' ho' (by rw [hcount, ← hlength']; exact takes_length o')
  exact hij (hi.trans hj.symm)

theorem getElem?_lengths :
    (overloads.map (·.params.length))[i]? = some args.length ↔ Reaches overloads args i := by
  simp [Reaches]

theorem reaches_unique_iff :
    (∀ args i j, Reaches overloads (forwarded overloads args) i →
      Reaches overloads (forwarded overloads args) j → i = j) ↔
        (overloads.map (·.params.length)).Nodup := by
  constructor
  · intro h
    rw [List.nodup_iff_getElem?_ne_getElem?]
    intro i j hij hj heq
    -- a call with as many arguments as both have parameters
    let args := List.replicate (overloads.map (·.params.length))[j] ""
    have hj' : Reaches overloads args j := by
      rw [← getElem?_lengths, List.length_replicate, List.getElem?_eq_getElem hj]
    have hi' : Reaches overloads args i := by
      rw [← getElem?_lengths, heq, getElem?_lengths]
      exact hj'
    have hargs := forwarded_of_shared (Nat.ne_of_lt hij) hi' hj'
    have heq := h args i j (by rwa [hargs]) (by rwa [hargs])
    exact Nat.ne_of_lt hij heq
  · intro h args i j hi hj
    rw [← getElem?_lengths] at hi hj
    obtain ⟨hlt, -⟩ := List.getElem?_eq_some_iff.1 hi
    exact (List.getElem?_inj hlt h).1 (hi.trans hj.symm)

/-- A fill case completes the arguments for the one overload that accepts their number, which is
then reached.  Nothing else is reached by any call just when the overloads differ in the number of
their parameters. -/
theorem dispatch_of_fillCases (overloads : List Overload) :
    (∀ (args : List String) (f : FillCase), f ∈ fillCases overloads → f.count = args.length →
      ∃ (i : Nat) (o : Overload), overloads[i]? = some o ∧ o.Takes args.length ∧
        (∀ (j : Nat) (o' : Overload), overloads[j]? = some o' → o'.Takes args.length → j = i) ∧
        f.defaults.map some = (o.params.drop args.length).map (·.default?) ∧
        forwarded overloads args = args ++ f.defaults ∧
        Reaches overloads (forwarded overloads args) i) ∧
    (∀ args : List String, (∀ f ∈ fillCases overloads, f.count ≠ args.length) →
      forwarded overloads args = args) ∧
    ((∀ args i j, Reaches overloads (forwarded overloads args) i →
      Reaches overloads (forwarded overloads args) j → i = j) ↔
        (overloads.map (·.params.length)).Nodup) := by
  refine ⟨fun args f hf hcount => ?_, fun args => forwarded_of_not_mem, reaches_unique_iff⟩
  obtain ⟨i, o, ho, htakes, hunique, hlt, hdefaults⟩ := mk_mem_fillCases.1 hf
  rw [hcount] at htakes hunique hlt hdefaults
  have hforwarded := forwarded_of_mem hf hcount
  refine ⟨i, o, ho, htakes, hunique, hdefaults, hforwarded, o, ho, ?_⟩
  have hlength := congrArg List.length hdefaults
  simp only [List.length_map, List.length_drop] at hlength
  rw [hforwarded, List.length_append]
  omega

def loadModels : List Overload :=
  [⟨⟨"LoadModel", "bool", [⟨"model", "std::string", none⟩, ⟨"addPath", "bool", some "true"⟩],
        .empty⟩,
      [⟨"model", "string", none⟩, ⟨"addPath", "boolean", some "true"⟩], "boolean"⟩,
    ⟨⟨"LoadModel", "bool", [⟨"path", "SGPath", none⟩, ⟨"model", "std::string", none⟩], .empty⟩,
      [⟨"path", "string", none⟩, ⟨"model", "string", none⟩], "boolean"⟩]

theorem dispatch_ambiguous_loadModel :
    fillCases loadModels = [⟨1, ["true"]⟩] ∧
      forwarded loadModels ["model"] = ["model", "true"] ∧
      Reaches loadModels ["model", "true"] 0 ∧ Reaches loadModels ["model", "true"] 1 ∧
      ¬ ∀ i j, Reaches loadModels (forwarded loadModels ["model"]) i →
        Reaches loadModels (forwarded loadModels ["model"]) j → i = j := by
  have hfill : fillCases loadModels = [⟨1, ["true"]⟩] := by decide +kernel
  have hforwarded : forwarded loadModels ["model"] = ["model", "true"] := by
    rw [forwarded, hfill]
    rfl
  have hfirst : Reaches loadModels ["model", "true"] 0 := ⟨_, rfl, rfl⟩
  have hsecond : Reaches loadModels ["model", "true"] 1 := ⟨_, rfl, rfl⟩
  refine ⟨hfill, hforwarded, hfirst, hsecond, fun h => ?_⟩
  rw [hforwarded] at h
  exact absurd (h 0 1 hfirst hsecond) (by decide)

end WasmBindings
