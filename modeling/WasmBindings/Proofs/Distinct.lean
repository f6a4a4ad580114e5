import Mathlib.Data.List.Induction

namespace WasmBindings.Distinct

variable {α κ : Type} [DecidableEq κ]

theorem eraseDups_concat_of_mem {ks : List κ} {k : κ} (h : k ∈ ks) :
    (ks ++ [k]).eraseDups = ks.eraseDups := by
  simp [List.eraseDups_append, List.removeAll, h]

theorem eraseDups_concat_of_not_mem {ks : List κ} {k : κ} (h : k ∉ ks) :
    (ks ++ [k]).eraseDups = ks.eraseDups ++ [k] := by
  simp [List.eraseDups_append, List.removeAll, h, List.eraseDups_cons]

theorem nodup_eraseDups (ks : List κ) : ks.eraseDups.Nodup := by
  induction ks using List.reverseRecOn with
  | nil => exact List.nodup_nil
  | append_singleton ks k ih =>
    by_cases hk : k ∈ ks
    · rw [eraseDups_concat_of_mem hk]
      exact ih
    · rw [eraseDups_concat_of_not_mem hk]
      have hfresh : k ∉ ks.eraseDups := fun h => hk (List.mem_eraseDups.1 h)
      refine List.nodup_append.2 ⟨ih, by simp, ?_⟩
      rintro a ha b hb rfl
      exact hfresh (List.mem_singleton.1 hb ▸ ha)

theorem flatMap_filter_perm (key : α → κ) {ks : List κ} (hks : ks.Nodup) {xs : List α}
    (h : ∀ x ∈ xs, key x ∈ ks) : (ks.flatMap fun k => xs.filter (key · = k)).Perm xs := by
  induction ks generalizing xs with
  | nil =>
    cases xs with
    | nil => exact .refl []
    | cons x xs => exact absurd (h x List.mem_cons_self) (by simp)
  | cons k ks ih =>
    obtain ⟨hk, hks⟩ := List.nodup_cons.1 hks
    have hothers : ∀ x ∈ xs.filter (fun x => !decide (key x = k)), key x ∈ ks := by
      intro x hx
      obtain ⟨hx, hne⟩ := List.mem_filter.1 hx
      exact (List.mem_cons.1 (h x hx)).resolve_left (by simpa using hne)
    have hparts : (ks.flatMap fun j => xs.filter (key · = j)) =
        ks.flatMap fun j => (xs.filter fun x => !decide (key x = k)).filter (key · = j) := by
      rw [List.flatMap_def, List.flatMap_def]
      apply congrArg List.flatten
      apply List.map_congr_left
      intro j hj
      have hne : j ≠ k := fun e => hk (e ▸ hj)
      rw [List.filter_filter]
      apply List.filter_congr
      intro x _
      by_cases hx : key x = j
      · simp [hx, hne]
      · simp [hx]
    rw [List.flatMap_cons, hparts]
    exact ((ih hks hothers).append_left _).trans (List.filter_append_perm _ xs)

end WasmBindings.Distinct
