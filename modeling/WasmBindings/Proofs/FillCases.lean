import Mathlib.Data.List.Induction
import WasmBindings.Emit.ApiClass
import WasmBindings.Proofs.Text.Numeral

namespace WasmBindings

namespace Overload

/-- A call with `n` arguments fits: there are not too many, and every parameter that gets none
has a default. -/
def Takes (o : Overload) (n : Nat) : Prop :=
  n ≤ o.params.length ∧ ∀ p ∈ o.params.drop n, p.default?.isSome = true

theorem length_dropWhile_reverse_le {ps : List ApiParam} {n : Nat} :
    (ps.reverse.dropWhile (·.default?.isSome)).length ≤ n ↔
      ∀ p ∈ ps.drop n, p.default?.isSome = true := by
  induction ps using List.reverseRecOn with
  | nil => simp
  | append_singleton ps p ih =>
    rw [List.reverse_concat, List.dropWhile_cons]
    split
    · next hp =>
      rw [ih, List.drop_append]
      constructor
      · intro h q hq
        rcases List.mem_append.1 hq with hq | hq
        · exact h q hq
        · cases List.mem_singleton.1 (List.mem_of_mem_drop hq)
          exact hp
      · intro h q hq
        exact h q (List.mem_append_left _ hq)
    · next hp =>
      rw [List.length_cons, List.length_reverse]
      constructor
      · intro hn q hq
        rw [List.drop_eq_nil_of_le (by simpa using hn)] at hq
        cases hq
      · intro h
        by_contra hn
        have hlast : p ∈ (ps ++ [p]).drop n := by
          rw [List.drop_append_of_le_length (by omega)]
          simp
        exact hp (h p hlast)

theorem accepts_iff_le {o : Overload} {n : Nat} :
    o.accepts n = true ↔ o.minArgs ≤ n ∧ n ≤ o.maxArgs := by
  rw [accepts, Bool.and_eq_true, decide_eq_true_eq, decide_eq_true_eq]

theorem accepts_iff {o : Overload} {n : Nat} : o.accepts n = true ↔ o.Takes n := by
  rw [accepts_iff_le, minArgs, length_dropWhile_reverse_le]
  exact And.comm

end Overload

theorem mapM_default?_eq_some {ps : List ApiParam} {ds : List String} :
    ps.mapM ApiParam.default? = some ds ↔ ds.map some = ps.map (·.default?) := by
  induction ps generalizing ds with
  | nil => cases ds <;> simp
  | cons p ps ih =>
    cases ds with
    | nil => simp [Option.bind_eq_some_iff]
    | cons d ds => simp [Option.bind_eq_some_iff, ih, @eq_comm _ (some d)]

theorem fillCase?_eq_some {overloads : List Overload} {o : Overload} {n : Nat} {f : FillCase} :
    fillCase? overloads o n = some f ↔
      overloads.countP (·.accepts n) = 1 ∧ f.count = n ∧
        f.defaults.map some = (o.params.drop n).map (·.default?) := by
  rw [fillCase?]
  split
  · next h =>
    simp only [Option.map_eq_some_iff, mapM_default?_eq_some, h, true_and]
    constructor
    · rintro ⟨ds, hds, rfl⟩
      exact ⟨rfl, hds⟩
    · rintro ⟨rfl, hds⟩
      exact ⟨f.defaults, hds, rfl⟩
  · next h => simp [h]

theorem mem_fillCases {overloads : List Overload} {f : FillCase} :
    f ∈ fillCases overloads ↔ ∃ o ∈ overloads, o.minArgs ≤ f.count ∧ f.count < o.maxArgs ∧
      overloads.countP (·.accepts f.count) = 1 ∧
        f.defaults.map some = (o.params.drop f.count).map (·.default?) := by
  rw [fillCases, List.mem_mergeSort, List.mem_flatMap]
  apply exists_congr
  intro o
  have hle := o.minArgs_le_maxArgs
  simp only [List.mem_filterMap, List.mem_range'_1, fillCase?_eq_some]
  constructor
  · rintro ⟨ho, n, hn, hcount, rfl, hds⟩
    exact ⟨ho, hn.1, by omega, hcount, hds⟩
  · rintro ⟨ho, hmin, hmax, hcount, hds⟩
    exact ⟨ho, f.count, ⟨hmin, by omega⟩, hcount, rfl, hds⟩

theorem not_accepts_of_sublist {overloads : List Overload} {a b : Overload} {n : Nat}
    (h : [a, b].Sublist overloads) (hn : overloads.countP (·.accepts n) = 1)
    (ha : a.accepts n = true) : b.accepts n = false := by
  have hle := h.countP_le (p := (·.accepts n))
  rw [hn] at hle
  cases hb : b.accepts n with
  | false => rfl
  | true => simp [ha, hb] at hle

theorem accepts_of_fillCase?_mem {overloads : List Overload} {o : Overload} {f : FillCase}
    (h : f ∈ (List.range' o.minArgs (o.maxArgs - o.minArgs)).filterMap (fillCase? overloads o)) :
    overloads.countP (·.accepts f.count) = 1 ∧ o.accepts f.count = true := by
  obtain ⟨n, hn, hf⟩ := List.mem_filterMap.1 h
  obtain ⟨hcount, rfl, -⟩ := fillCase?_eq_some.1 hf
  rw [List.mem_range'_1] at hn
  exact ⟨hcount, Overload.accepts_iff_le.2 ⟨hn.1, by omega⟩⟩

theorem fillCases_count_ne (overloads : List Overload) :
    (fillCases overloads).Pairwise (·.count ≠ ·.count) := by
  have hcases : (overloads.flatMap fun o => (List.range' o.minArgs (o.maxArgs - o.minArgs)).filterMap
      (fillCase? overloads o)).Pairwise (·.count ≠ ·.count) := by
    rw [List.pairwise_flatMap]
    constructor
    · intro o _
      rw [List.pairwise_filterMap]
      have hrange : (List.range' o.minArgs (o.maxArgs - o.minArgs)).Nodup := List.nodup_range' ..
      apply hrange.imp
      intro n n' hne f hf f' hf'
      rw [(fillCase?_eq_some.1 hf).2.1, (fillCase?_eq_some.1 hf').2.1]
      exact hne
    · rw [List.pairwise_iff_forall_sublist]
      intro a b hab f hf f' hf' he
      obtain ⟨hcount, ha⟩ := accepts_of_fillCase?_mem hf
      obtain ⟨-, hb⟩ := accepts_of_fillCase?_mem hf'
      rw [← he, not_accepts_of_sublist hab hcount ha] at hb
      cases hb
  exact (List.mergeSort_perm _ _).symm.pairwise hcases fun h => h.symm

theorem fillCases_ascending (overloads : List Overload) :
    (fillCases overloads).Pairwise (·.count < ·.count) := by
  have hle : (fillCases overloads).Pairwise fun a b => decide (a.count ≤ b.count) = true := by
    apply List.pairwise_mergeSort
    · intro a b c hab hbc
      simp only [decide_eq_true_eq] at *
      omega
    · intro a b
      simp only [Bool.or_eq_true, decide_eq_true_eq]
      omega
  apply (hle.and (fillCases_count_ne overloads)).imp
  rintro a b ⟨hab, hne⟩
  simp only [decide_eq_true_eq] at hab
  omega

theorem countP_eq_one_iff {α : Type} {p : α → Bool} {l : List α} :
    l.countP p = 1 ↔ ∃ (i : Nat) (a : α), l[i]? = some a ∧ p a = true ∧
      ∀ (j : Nat) (b : α), l[j]? = some b → p b = true → j = i := by
  induction l with
  | nil => simp
  | cons x l ih =>
    by_cases hx : p x = true
    · rw [List.countP_cons_of_pos hx, Nat.add_eq_right, List.countP_eq_zero]
      constructor
      · intro hl
        refine ⟨0, x, rfl, hx, ?_⟩
        intro j b hj hb
        cases j with
        | zero => rfl
        | succ j => exact absurd hb (hl b (List.mem_of_getElem? hj))
      · rintro ⟨i, a, hi, ha, huniq⟩ b hb hpb
        obtain ⟨j, hj⟩ := List.mem_iff_getElem?.1 hb
        have hzero := huniq 0 x rfl hx
        have hsucc := huniq (j + 1) b hj hpb
        omega
    · rw [List.countP_cons_of_neg hx, ih]
      constructor
      · rintro ⟨i, a, hi, ha, huniq⟩
        refine ⟨i + 1, a, hi, ha, ?_⟩
        intro j b hj hb
        cases j with
        | zero =>
          cases hj
          exact absurd hb hx
        | succ j => rw [huniq j b hj hb]
      · rintro ⟨i, a, hi, ha, huniq⟩
        cases i with
        | zero =>
          cases hi
          exact absurd ha hx
        | succ i =>
          refine ⟨i, a, hi, ha, ?_⟩
          intro j b hj hb
          have hsucc := huniq (j + 1) b hj hb
          omega

theorem countP_accepts_eq_one_iff {overloads : List Overload} {n : Nat} :
    overloads.countP (·.accepts n) = 1 ↔ ∃ (i : Nat) (o : Overload), overloads[i]? = some o ∧
      o.Takes n ∧ ∀ (j : Nat) (o' : Overload), overloads[j]? = some o' → o'.Takes n → j = i := by
  simp only [countP_eq_one_iff, Overload.accepts_iff]

theorem count_eq_of_label_eq {f f' : FillCase}
    (h : (Emit.ApiClass.fillLines f).head? = (Emit.ApiClass.fillLines f').head?) :
    f.count = f'.count := by
  apply Text.eq_of_toString_eq
  simpa [Emit.ApiClass.fillLines] using h

theorem mk_mem_fillCases {overloads : List Overload} {n : Nat} {ds : List String} :
    ⟨n, ds⟩ ∈ fillCases overloads ↔
      ∃ (i : Nat) (o : Overload), overloads[i]? = some o ∧ o.Takes n ∧
        (∀ (j : Nat) (o' : Overload), overloads[j]? = some o' → o'.Takes n → j = i) ∧
        n < o.params.length ∧ ds.map some = (o.params.drop n).map (·.default?) := by
  rw [mem_fillCases]
  constructor
  · rintro ⟨o, ho, hmin, hmax, hcount, hds⟩
    have htakes : o.Takes n :=
      Overload.accepts_iff.1 (Overload.accepts_iff_le.2 ⟨hmin, Nat.le_of_lt hmax⟩)
    obtain ⟨i, a, hi, ha, huniq⟩ := countP_accepts_eq_one_iff.1 hcount
    obtain ⟨j, hj⟩ := List.mem_iff_getElem?.1 ho
    cases huniq j o hj htakes
    exact ⟨i, o, hj, htakes, huniq, hmax, hds⟩
  · rintro ⟨i, o, hi, htakes, huniq, hlt, hds⟩
    obtain ⟨hmin, -⟩ := Overload.accepts_iff_le.1 (Overload.accepts_iff.2 htakes)
    exact ⟨o, List.mem_of_getElem? hi, hmin, hlt,
      countP_accepts_eq_one_iff.2 ⟨i, o, hi, htakes, huniq⟩, hds⟩

/-- The fill cases are exactly the numbers of arguments that one overload alone accepts through
its defaults, each with the defaults it leaves out, and no label of the switch is written twice. -/
theorem fillCases_unique (overloads : List Overload) :
    (fillCases overloads).Pairwise (·.count < ·.count) ∧
    (∀ n ds, ⟨n, ds⟩ ∈ fillCases overloads ↔
      ∃ (i : Nat) (o : Overload), overloads[i]? = some o ∧ o.Takes n ∧
        (∀ (j : Nat) (o' : Overload), overloads[j]? = some o' → o'.Takes n → j = i) ∧
        n < o.params.length ∧ ds.map some = (o.params.drop n).map (·.default?)) ∧
    (∀ f ∈ fillCases overloads, ∀ o ∈ overloads, o.Takes f.count →
      f.count + f.defaults.length = o.params.length) ∧
    ((fillCases overloads).map fun f => (Emit.ApiClass.fillLines f).head?).Nodup := by
  refine ⟨fillCases_ascending overloads, fun n ds => mk_mem_fillCases, ?_, ?_⟩
  · intro f hf o ho htakes
    obtain ⟨i, o₁, hi, -, huniq, hlt, hds⟩ := mk_mem_fillCases.1 hf
    obtain ⟨j, hj⟩ := List.mem_iff_getElem?.1 ho
    cases huniq j o hj htakes
    cases hi.symm.trans hj
    have hlength := congrArg List.length hds
    simp only [List.length_map, List.length_drop] at hlength
    omega
  · apply List.pairwise_map.2
    apply (fillCases_ascending overloads).imp
    intro f f' hlt h
    exact absurd (count_eq_of_label_eq h) (Nat.ne_of_lt hlt)

end WasmBindings
