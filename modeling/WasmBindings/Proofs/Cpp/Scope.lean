import WasmBindings.Proofs.Cpp.EnumKey

namespace WasmBindings.Scope

open Text Spelling

def ending (s : List Char) : List Char := (s.reverse.takeWhile (· != ':')).reverse

theorem ending_colon (s t : List Char) : ending (s ++ ':' :: t) = ending t := by
  have hr : (s ++ ':' :: t).reverse = t.reverse ++ ':' :: s.reverse := by simp
  rw [ending, hr, List.takeWhile_append, ending]
  split
  · next h =>
    have ht := (List.takeWhile_prefix (p := (· != ':')) (l := t.reverse)).eq_of_length h
    simp [ht]
  · rfl

theorem ending_scope (s t : List Char) : ending (s ++ ':' :: ':' :: t) = ending t := by
  have hcolon := ending_colon [] t
  rw [List.nil_append] at hcolon
  rw [ending_colon, hcolon]

theorem ending_of_not_mem {s : List Char} (h : ':' ∉ s) : ending s = s := by
  have hs : s.reverse.takeWhile (· != ':') = s.reverse := by
    rw [List.takeWhile_eq_self_iff]
    intro c hc
    have hne : c ≠ ':' := fun e => h (e ▸ List.mem_reverse.1 hc)
    simp [hne]
  rw [ending, hs, List.reverse_reverse]

theorem intercalate_consHead (sep : List Char) (c : Char) {ps : List (List Char)} (h : ps ≠ []) :
    sep.intercalate (consHead c ps) = c :: sep.intercalate ps := by
  cases ps with
  | nil => exact absurd rfl h
  | cons p ps => cases ps <;> simp [consHead, List.intercalate_cons_cons]

theorem intercalate_components (s : List Char) : [':', ':'].intercalate (components s) = s := by
  fun_induction components s with
  | case1 r ih =>
    obtain ⟨p, ps, hps⟩ := List.exists_cons_of_ne_nil (components_ne_nil r)
    rw [hps] at ih ⊢
    rw [List.intercalate_cons_cons, ih]
    rfl
  | case2 c r _ ih => rw [intercalate_consHead _ _ (components_ne_nil r), ih]
  | case3 => rfl

theorem exists_intercalate {ps : List (List Char)} (h : ps ≠ []) :
    ∃ q, [':', ':'].intercalate ps = q ++ ps.getLastD [] ∧
      (q = [] ∨ ∃ q', q = q' ++ [':', ':']) := by
  induction ps with
  | nil => exact absurd rfl h
  | cons p ps ih =>
    cases ps with
    | nil => exact ⟨[], by simp, .inl rfl⟩
    | cons r ps =>
      obtain ⟨q, hq, hend⟩ := ih (List.cons_ne_nil r ps)
      rw [List.intercalate_cons_cons, hq]
      refine ⟨p ++ [':', ':'] ++ q, by simp, .inr ?_⟩
      rcases hend with rfl | ⟨q', rfl⟩
      · exact ⟨p, by simp⟩
      · exact ⟨p ++ [':', ':'] ++ q', by simp⟩

theorem ending_simpleName (name : String) :
    ending (simpleName name).toList = ending name.toList := by
  obtain ⟨q, hq, hend⟩ := exists_intercalate (components_ne_nil name.toList)
  rw [intercalate_components] at hq
  rw [simpleName, String.toList_ofList]
  generalize (components name.toList).getLastD [] = last at hq ⊢
  rw [hq]
  rcases hend with rfl | ⟨q', rfl⟩
  · rfl
  · rw [List.append_assoc]
    exact (ending_scope q' last).symm

theorem components_of_not_scoped {s : List Char} (h : occursIn [':', ':'] s = false) :
    components s = [s] := by
  fun_induction components s with
  | case1 r ih => simp [occursIn] at h
  | case2 c r hc ih =>
    rw [occursIn, Bool.or_eq_false_iff] at h
    rw [ih h.2, consHead]
  | case3 => rfl

theorem simpleName_of_not_scoped {name : String} (h : isScoped name = false) :
    simpleName name = name := by
  rw [simpleName, components_of_not_scoped h]
  simp

theorem components_append {n : List Char} (h : ':' ∉ n) (p : List Char) :
    components (n ++ ':' :: ':' :: p) = n :: components p := by
  induction n with
  | nil => rw [List.nil_append, components]
  | cons c n ih =>
    have hc : c ≠ ':' := fun e => h (e ▸ List.mem_cons_self)
    rw [List.cons_append, components, ih fun hn => h (List.mem_cons_of_mem c hn), consHead]
    intro r hcolon
    exact absurd hcolon hc

theorem components_of_not_mem {n : List Char} (h : ':' ∉ n) : components n = [n] := by
  induction n with
  | nil => rfl
  | cons c n ih =>
    have hc : c ≠ ':' := fun e => h (e ▸ List.mem_cons_self)
    rw [components, ih fun hn => h (List.mem_cons_of_mem c hn), consHead]
    intro r hcolon
    exact absurd hcolon hc

end WasmBindings.Scope

namespace WasmBindings.Spelling

theorem IsName.not_colon {n : List Char} (h : IsName n) : ':' ∉ n := by
  intro hmem
  exact absurd (h.word ':' hmem) (by decide)

theorem IsPath.isName_simpleName {p : String} (h : IsPath p.toList) :
    IsName (Scope.simpleName p).toList := by
  have hlast : ∀ {s : List Char}, IsPath s → IsName ((Scope.components s).getLastD []) := by
    intro s hs
    induction hs with
    | name hn =>
      rw [Scope.components_of_not_mem hn.not_colon]
      exact hn
    | @cons n p hn _ ih =>
      rw [Scope.components_append hn.not_colon]
      obtain ⟨q, qs, hq⟩ := List.exists_cons_of_ne_nil (Scope.components_ne_nil p)
      rw [hq] at ih ⊢
      simpa using ih
  rw [Scope.simpleName, String.toList_ofList]
  exact hlast h

theorem IsPath.ending_eq {p : String} (h : IsPath p.toList) :
    Scope.ending p.toList = (Scope.simpleName p).toList := by
  rw [← Scope.ending_simpleName, Scope.ending_of_not_mem h.isName_simpleName.not_colon]

end WasmBindings.Spelling
