import Mathlib.Data.List.Induction
import WasmBindings.Config.Basic
import WasmBindings.Proofs.Cpp.Scope
import WasmBindings.Proofs.HeaderSearch

namespace WasmBindings.Path

open Text

def IsPlain (path : String) : Prop := ∀ p ∈ splitAt '/' path.toList, PlainName (String.ofList p)

instance (path : String) : Decidable (IsPlain path) :=
  inferInstanceAs (Decidable (∀ p ∈ splitAt '/' path.toList, PlainName (String.ofList p)))

def stem (n : String) : String := String.ofList (stemChars n.toList)

def stemLast : List String → List String
  | [] => []
  | [n] => [stem n]
  | n :: m :: rest => n :: stemLast (m :: rest)

/-- Walks down the names of a relative path: a dot stays, and two dots take back the name before
them, where there is one to take back. -/
def normalFrom : List String → List String → List String
  | here, [] => here
  | here, c :: r =>
    if c == "." then normalFrom here r
    else if c == ".." && here.getLast?.any (· != "..") then normalFrom here.dropLast r
    else normalFrom (here ++ [c]) r

def normal (path : String) : String :=
  match normalFrom [] (components path) with
  | [] => "."
  | names => String.intercalate "/" names

theorem isStep_dots : IsStep ".." := ⟨by decide, by decide⟩

theorem isStep_dot : IsStep "." := ⟨by decide, by decide⟩

theorem intercalate_splitAt (sep : Char) (s : List Char) :
    [sep].intercalate (splitAt sep s) = s := by
  induction s with
  | nil => rfl
  | cons c r ih =>
    rw [splitAt]
    split
    · next hc =>
      rw [List.intercalate_cons_of_ne_nil (splitAt_ne_nil sep r), ih, hc]
      rfl
    · rw [Scope.intercalate_consHead _ _ (splitAt_ne_nil sep r), ih]

theorem IsPlain.exists_names {path : String} (h : IsPlain path) : ∃ names : List String,
    names ≠ [] ∧ (∀ n ∈ names, PlainName n) ∧ path = String.intercalate "/" names := by
  refine ⟨(splitAt '/' path.toList).map String.ofList, ?_, ?_, ?_⟩
  · simpa using splitAt_ne_nil '/' path.toList
  · intro n hn
    obtain ⟨p, hp, rfl⟩ := List.mem_map.1 hn
    exact h p hp
  · rw [← String.toList_inj, String.toList_intercalate, List.map_map]
    simpa [Function.comp_def] using (intercalate_splitAt '/' path.toList).symm

section Steps

variable {names dirs : List String} {name : String}

theorem components_intercalate (h : ∀ n ∈ names, IsStep n) :
    components (String.intercalate "/" names) = names := by
  by_cases hne : names = []
  · rw [hne]
    rfl
  rw [components, splitAt_names hne h, filter_map_names h]

def lead (names : List String) : List Char := names.flatMap fun n => n.toList ++ ['/']

theorem toList_intercalate_concat (dirs : List String) (name : String) :
    (String.intercalate "/" (dirs ++ [name])).toList = lead dirs ++ name.toList := by
  induction dirs with
  | nil => simp [lead]
  | cons d dirs ih =>
    rw [List.cons_append, String.intercalate_cons_of_ne_nil (by simp), String.toList_append,
      String.toList_append, ih]
    simp [lead]

theorem lead_eq (hne : dirs ≠ []) : lead dirs = (String.intercalate "/" dirs).toList ++ ['/'] := by
  obtain ⟨init, l, rfl⟩ := (List.eq_nil_or_concat dirs).resolve_left hne
  rw [List.concat_eq_append, toList_intercalate_concat]
  simp [lead]

theorem baseChars_lead (dirs : List String) {b : List Char} (h : '/' ∉ b) :
    baseChars (lead dirs ++ b) = b := by
  by_cases hne : dirs = []
  · have hsplit : splitAt '/' b = [] ++ [b] := splitAt_of_not_mem h
    rw [hne]
    exact baseChars_of_splitAt hsplit
  · rw [lead_eq hne, List.append_assoc]
    exact baseChars_append h _

theorem take_lead (dirs : List String) {b : List Char} (h : '/' ∉ b) :
    (lead dirs ++ b).take ((lead dirs ++ b).length - (baseChars (lead dirs ++ b)).length) =
      lead dirs := by
  rw [baseChars_lead dirs h, List.length_append, Nat.add_sub_cancel, List.take_left]

theorem getLast?_intercalate (hne : dirs ≠ []) (h : ∀ n ∈ dirs, IsStep n) :
    ∃ d, (String.intercalate "/" dirs).toList.getLast? = some d ∧ d ≠ '/' := by
  obtain ⟨init, l, rfl⟩ := (List.eq_nil_or_concat dirs).resolve_left hne
  have hl := h l (by simp)
  have hchars : l.toList ≠ [] := by simpa using hl.nonempty
  refine ⟨l.toList.getLast hchars, ?_, fun hslash => hl.noSlash ?_⟩
  · rw [List.concat_eq_append, toList_intercalate_concat, List.getLast?_append,
      List.getLast?_eq_some_getLast hchars, Option.some_or]
  · exact hslash ▸ List.getLast_mem hchars

theorem dirName_intercalate (hdirs : ∀ n ∈ dirs, IsStep n) (hname : '/' ∉ name.toList) :
    dirName (String.intercalate "/" (dirs ++ [name])) = String.intercalate "/" dirs := by
  rw [dirName, toList_intercalate_concat, dirChars, take_lead dirs hname]
  by_cases hne : dirs = []
  · rw [hne]
    rfl
  · obtain ⟨d, hlast, hd⟩ := getLast?_intercalate hne hdirs
    obtain ⟨u, hu⟩ := List.getLast?_eq_some_iff.1 hlast
    rw [lead_eq hne, hu, if_neg (by simp [hd]), ← String.toList_inj, String.toList_ofList, hu]
    simp [hd]

theorem withoutExtension_intercalate (dirs : List String) (hname : '/' ∉ name.toList) :
    withoutExtension (String.intercalate "/" (dirs ++ [name])) =
      String.intercalate "/" (dirs ++ [stem name]) := by
  rw [withoutExtension, ← String.toList_inj, String.toList_ofList, toList_intercalate_concat,
    toList_intercalate_concat, take_lead dirs hname, baseChars_lead dirs hname, stem,
    String.toList_ofList]

end Steps

theorem stemChars_cases (b : List Char) : stemChars b = b ∨
    ((∃ c ∈ stemChars b, c ≠ '.') ∧ ∃ extension, b = stemChars b ++ '.' :: extension) := by
  rw [stemChars]
  split
  · exact .inl rfl
  · next hdots =>
    rw [Bool.not_eq_true, List.all_eq_false] at hdots
    obtain ⟨c, hc, hne⟩ := hdots
    refine .inr ⟨⟨c, List.mem_reverse.2 hc, by simpa using hne⟩, ?_⟩
    obtain ⟨d, rest, hrest⟩ :=
      List.exists_cons_of_ne_nil (List.ne_nil_of_mem (List.mem_of_mem_drop hc))
    have hd : d = '.' := by
      simpa [hrest] using List.head?_dropWhile_not (· != '.') b.reverse
    refine ⟨(b.reverse.takeWhile (· != '.')).reverse, ?_⟩
    rw [← List.reverse_inj]
    conv_lhs => rw [← List.takeWhile_append_dropWhile (p := (· != '.')) (l := b.reverse), hrest]
    rw [hrest, hd]
    simp

theorem head?_stem (n : String) : (stem n).toList.head? = n.toList.head? := by
  rw [stem, String.toList_ofList]
  rcases stemChars_cases n.toList with h | ⟨⟨c, hc, -⟩, extension, h⟩
  · rw [h]
  · obtain ⟨d, rest, hrest⟩ := List.exists_cons_of_ne_nil (List.ne_nil_of_mem hc)
    conv_rhs => rw [h, hrest]
    rw [hrest]
    rfl

theorem plainName_stem {n : String} (h : PlainName n) : PlainName (stem n) := by
  rcases stemChars_cases n.toList with hstem | ⟨⟨c, hc, hdot⟩, extension, hn⟩
  · rwa [stem, hstem, String.ofList_toList]
  · have hchars : (stem n).toList = stemChars n.toList := String.toList_ofList
    have hne : ∀ m : String, c ∉ m.toList → stem n ≠ m := by
      rintro m hm rfl
      exact hm (hchars ▸ hc)
    refine ⟨hne "" List.not_mem_nil, fun hslash => h.noSlash ?_, hne "." ?_, hne ".." ?_⟩
    · rw [hn]
      exact List.mem_append_left _ (hchars ▸ hslash)
    · simpa using hdot
    · simpa using hdot

theorem stem_dots : stem ".." = ".." := by decide

theorem stemLast_ne_nil {names : List String} (h : names ≠ []) : stemLast names ≠ [] := by
  fun_induction stemLast names with
  | case1 => exact h
  | case2 => exact List.cons_ne_nil _ _
  | case3 => exact List.cons_ne_nil _ _

theorem stemLast_append (ns : List String) {ms : List String} (hne : ms ≠ []) :
    stemLast (ns ++ ms) = ns ++ stemLast ms := by
  induction ns with
  | nil => rfl
  | cons n ns ih =>
    obtain ⟨m, rest, hrest⟩ :=
      List.exists_cons_of_ne_nil (List.append_ne_nil_of_right_ne_nil ns hne)
    rw [List.cons_append, hrest, stemLast, ← hrest, ih]
    rfl

theorem stemLast_replicate (k : Nat) :
    stemLast (List.replicate k "..") = List.replicate k ".." := by
  induction k with
  | zero => rfl
  | succ k ih =>
    cases k with
    | zero => rw [List.replicate_succ, List.replicate_zero, stemLast, stem_dots]
    | succ k => rw [List.replicate_succ, List.replicate_succ, stemLast, ← List.replicate_succ, ih]

theorem stemLast_replicate_append (k : Nat) (names : List String) :
    stemLast (List.replicate k ".." ++ names) = List.replicate k ".." ++ stemLast names := by
  by_cases hne : names = []
  · rw [hne, List.append_nil, stemLast_replicate, stemLast, List.append_nil]
  · exact stemLast_append _ hne

theorem plainName_of_mem_stemLast {names : List String} (h : ∀ n ∈ names, PlainName n) :
    ∀ n ∈ stemLast names, PlainName n := by
  fun_induction stemLast names with
  | case1 => exact h
  | case2 n => exact List.forall_mem_singleton.2 (plainName_stem (h n List.mem_cons_self))
  | case3 n m rest ih =>
    obtain ⟨hn, hrest⟩ := List.forall_mem_cons.1 h
    exact List.forall_mem_cons.2 ⟨hn, ih hrest⟩

theorem withoutExtension_eq {names : List String} (hne : names ≠ [])
    (h : ∀ n ∈ names, IsStep n) :
    withoutExtension (String.intercalate "/" names) = String.intercalate "/" (stemLast names) := by
  obtain ⟨dirs, n, rfl⟩ := (List.eq_nil_or_concat names).resolve_left hne
  rw [List.concat_eq_append] at h ⊢
  rw [stemLast_append dirs (List.cons_ne_nil n []), stemLast,
    withoutExtension_intercalate dirs (h n (by simp)).noSlash]

theorem exists_steps (start target : List String) : ∃ shared up down, start = shared ++ up ∧
    target = shared ++ down ∧ steps start target = List.replicate up.length ".." ++ down ∧
    ∀ n ∈ up.head?, n ∉ down.head? := by
  fun_induction steps start target with
  | case1 s start t target hst ih =>
    obtain ⟨shared, up, down, hstart, htarget, hsteps, hapart⟩ := ih
    rw [beq_iff_eq] at hst
    exact ⟨s :: shared, up, down, by rw [hstart, List.cons_append],
      by rw [htarget, hst, List.cons_append], hsteps, hapart⟩
  | case2 s start t target hst =>
    refine ⟨[], s :: start, t :: target, rfl, rfl, rfl, ?_⟩
    rintro n hn hn'
    cases Option.some.inj hn
    cases Option.some.inj hn'
    exact hst BEq.rfl
  | case3 start target hnil =>
    refine ⟨[], start, target, rfl, rfl, rfl, ?_⟩
    intro n hn hn'
    obtain ⟨r, rfl⟩ := List.head?_eq_some_iff.1 hn
    obtain ⟨r', rfl⟩ := List.head?_eq_some_iff.1 hn'
    exact hnil _ _ _ _ rfl rfl

theorem normal_eq {path : String} {names : List String}
    (h : normalFrom [] (components path) = names) (hne : names ≠ []) :
    normal path = String.intercalate "/" names := by
  rw [normal, h]
  cases names with
  | nil => exact absurd rfl hne
  | cons n rest => rfl

theorem normalFrom_append (here a b : List String) :
    normalFrom here (a ++ b) = normalFrom (normalFrom here a) b := by
  induction a generalizing here with
  | nil => rfl
  | cons c a ih =>
    rw [List.cons_append, normalFrom, normalFrom]
    repeat' split
    all_goals exact ih _

theorem normalFrom_of_plain (here : List String) {names : List String}
    (h : ∀ n ∈ names, PlainName n) : normalFrom here names = here ++ names := by
  induction names generalizing here with
  | nil => rw [normalFrom, List.append_nil]
  | cons n rest ih =>
    have hn := h n List.mem_cons_self
    rw [normalFrom, if_neg (by simpa using hn.noDot), if_neg (by simp [hn.noDots]),
      ih _ fun m hm => h m (List.mem_cons_of_mem n hm), List.append_assoc, List.singleton_append]

theorem normalFrom_replicate (here : List String) {up : List String}
    (h : ∀ n ∈ up, PlainName n) :
    normalFrom (here ++ up) (List.replicate up.length "..") = here := by
  induction up using List.reverseRecOn with
  | nil => rw [List.append_nil, List.length_nil, List.replicate_zero, normalFrom]
  | append_singleton up n ih =>
    have hn : n ≠ ".." := (h n (by simp)).noDots
    rw [List.length_append, List.length_singleton, List.replicate_succ, normalFrom,
      if_neg (by decide), if_pos (by simp [hn]), ← List.append_assoc, List.dropLast_concat,
      ih fun m hm => h m (List.mem_append_left _ hm)]

end WasmBindings.Path
