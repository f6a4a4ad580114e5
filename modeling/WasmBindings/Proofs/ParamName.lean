import Mathlib.Data.List.Nodup
import Mathlib.Data.List.Perm.Subperm
import WasmBindings.Conversion
import WasmBindings.ParamName
import WasmBindings.Proofs.Text.Numeral

namespace WasmBindings.ParamName

open Text

inductive Search (name : Nat → String) (taken : List String) : Nat → Nat → Prop
  | stop {i : Nat} (h : name i ∉ taken) : Search name taken i i
  | next {i j : Nat} (h : name i ∈ taken) (rest : Search name taken (i + 1) j) :
      Search name taken i j

namespace Search

variable {name : Nat → String} {taken taken' : List String} {i j : Nat}

theorem not_mem (h : Search name taken i j) : name j ∉ taken := by
  induction h with
  | stop h => exact h
  | next _ _ ih => exact ih

theorem congr (htaken : ∀ s, s ∈ taken ↔ s ∈ taken') (h : Search name taken i j) :
    Search name taken' i j := by
  induction h with
  | stop h => exact .stop (mt (htaken _).2 h)
  | next h _ ih => exact .next ((htaken _).1 h) ih

theorem shift (h : Search (fun i => name (i + 1)) taken i j) :
    Search name taken (i + 1) (j + 1) := by
  induction h with
  | stop h => exact .stop h
  | next h _ ih => exact .next h ih

theorem of_first (hij : i ≤ j) (htaken : ∀ k, i ≤ k → k < j → name k ∈ taken)
    (hfree : name j ∉ taken) : Search name taken i j := by
  obtain ⟨n, rfl⟩ := Nat.exists_eq_add_of_le hij
  induction n generalizing i with
  | zero => exact .stop hfree
  | succ n ih =>
    have hnext : i + (n + 1) = i + 1 + n := by omega
    rw [hnext] at htaken hfree ⊢
    apply Search.next (htaken i (Nat.le_refl i) (by omega))
    exact ih (Nat.le_add_right _ n) (fun k hk => htaken k (by omega)) hfree

end Search

theorem exists_free {name : Nat → String} (h : Function.Injective name) (taken : List String) :
    ∃ i ∈ List.range (taken.length + 1), name i ∉ taken := by
  by_contra hall
  simp only [not_exists, not_and, Decidable.not_not] at hall
  have hnames : ((List.range (taken.length + 1)).map name).Nodup :=
    List.Nodup.map h List.nodup_range
  have hlength := (hnames.subperm (List.forall_mem_map.2 hall)).length_le
  rw [List.length_map, List.length_range] at hlength
  omega

theorem firstFree_eq {name : Nat → String} (h : Function.Injective name) (taken : List String) :
    ∃ j, Search name taken 0 j ∧ firstFree name taken = name j := by
  rw [firstFree]
  split
  · next j hj =>
    obtain ⟨hfree, -, hbefore⟩ := List.find?_range_eq_some.1 hj
    refine ⟨j, .of_first (Nat.zero_le j) (fun k _ hk => ?_) (by simpa using hfree), rfl⟩
    simpa using hbefore k hk
  · next hnone =>
    obtain ⟨i, hi, hfree⟩ := exists_free h taken
    exact absurd (List.find?_eq_none.1 hnone i hi) (by simpa using hfree)

theorem numbered_injective (name : String) : Function.Injective (numbered name) := by
  intro m n h
  apply eq_of_toString_eq
  simpa [numbered] using h

theorem append_toString_ne (s : String) (n : Nat) : s ≠ s ++ toString n := by
  intro h
  have hnil : (toString n).toList = [] := by simpa using congrArg String.toList h
  rw [Nat.toString_eq_ofList_toDigits, String.toList_ofList] at hnil
  exact Nat.toDigits_ne_nil hnil

theorem escaped_injective (name : String) : Function.Injective (escaped name) := by
  intro m n h
  cases m with
  | zero =>
    cases n with
    | zero => rfl
    | succ n => exact absurd h (append_toString_ne _ _)
  | succ m =>
    cases n with
    | zero => exact absurd h.symm (append_toString_ne _ _)
    | succ n => rw [numbered_injective name h]

theorem isIdentRun_append {s t : List Char} (hs : Piece.isIdentRun s = true)
    (ht : ∀ c ∈ t, isIdentChar c = true) : Piece.isIdentRun (s ++ t) = true := by
  cases s with
  | nil => cases hs
  | cons c r =>
    simp only [Piece.isIdentRun, Bool.and_eq_true, List.all_eq_true] at hs
    simp only [List.cons_append, Piece.isIdentRun, Bool.and_eq_true, List.all_append,
      List.all_eq_true]
    exact ⟨hs.1, hs.2, ht⟩

theorem isIdentChar_toString (n : Nat) : ∀ c ∈ (toString n).toList, isIdentChar c = true := by
  intro c hc
  rw [Nat.toString_eq_ofList_toDigits, String.toList_ofList] at hc
  have hdigit := Nat.isDigit_of_mem_toDigits (by decide) (by decide) hc
  simp [isIdentChar, Char.isAlphanum, hdigit]

theorem isIdentRun_numbered {name : String} (h : Piece.isIdentRun name.toList = true) (n : Nat) :
    Piece.isIdentRun (numbered name n).toList = true := by
  rw [numbered, String.toList_append, String.toList_append]
  apply isIdentRun_append (isIdentRun_append h _) (isIdentChar_toString n)
  exact List.forall_mem_singleton.2 (by decide)

theorem isIdentifier_eq {name : String} (h : '\n' ∉ name.toList) :
    isIdentifier name = Piece.isIdentRun name.toList := by
  rw [isIdentifier]
  cases hname : name.toList with
  | nil => rfl
  | cons c r =>
    have hrest : isIdentifier.endsWell (r.dropWhile isIdentChar) = r.all isIdentChar := by
      cases hr : r.dropWhile isIdentChar with
      | nil =>
        rw [isIdentifier.endsWell, eq_comm]
        exact List.all_eq_true.2 (List.dropWhile_eq_nil_iff.1 hr)
      | cons d t =>
        have hsub : d :: t ⊆ r := hr ▸ (List.dropWhile_suffix isIdentChar).subset
        have hline : d ≠ '\n' := by
          rintro rfl
          exact h (hname ▸ List.mem_cons_of_mem c (hsub List.mem_cons_self))
        have hstop : isIdentChar d = false := by
          simpa [hr] using List.head?_dropWhile_not isIdentChar r
        have hall : r.all isIdentChar = false :=
          List.all_eq_false.2 ⟨d, hsub List.mem_cons_self, by simp [hstop]⟩
        rw [hall]
        simp [isIdentifier.endsWell, hline]
    simp only [Piece.isIdentRun, hrest]

theorem isIdentRun_proposed (index : Nat) {name : String} (h : '\n' ∉ name.toList) :
    Piece.isIdentRun (proposed index name).toList = true := by
  rw [proposed, isIdentifier_eq h]
  split
  · next hname => exact hname
  · rw [String.toList_append]
    exact isIdentRun_append (by decide) (isIdentChar_toString index)

theorem proposed_of_isIdentRun (index : Nat) {name : String}
    (h : Piece.isIdentRun name.toList = true) : proposed index name = name := by
  have hline : '\n' ∉ name.toList := by
    intro hmem
    cases hname : name.toList with
    | nil => simp [hname] at hmem
    | cons c r =>
      simp only [hname, Piece.isIdentRun, Bool.and_eq_true, List.all_eq_true] at h
      rw [hname] at hmem
      rcases List.mem_cons.1 hmem with rfl | hmem
      · exact absurd h.1 (by decide)
      · exact absurd (h.2 _ hmem) (by decide)
  rw [proposed, isIdentifier_eq hline, if_pos h]

/-- What a proposal becomes where some names are taken: it stays as it is if it is free, and else
gets the number at which the search ends. -/
inductive Settles (taken : List String) (proposal : String) : String → Prop
  | free (h : proposal ∉ taken) : Settles taken proposal proposal
  | numbered {n : Nat} (h : proposal ∈ taken) (search : Search (numbered proposal) taken 1 n) :
      Settles taken proposal (numbered proposal n)

namespace Settles

variable {taken taken' : List String} {proposal name : String}

theorem not_mem (h : Settles taken proposal name) : name ∉ taken := by
  cases h with
  | free h => exact h
  | numbered _ search => exact search.not_mem

theorem congr (htaken : ∀ s, s ∈ taken ↔ s ∈ taken') (h : Settles taken proposal name) :
    Settles taken' proposal name := by
  cases h with
  | free h => exact .free (mt (htaken _).2 h)
  | numbered h search => exact .numbered ((htaken _).1 h) (search.congr htaken)

theorem isIdentRun (h : Settles taken proposal name)
    (hproposal : Piece.isIdentRun proposal.toList = true) :
    Piece.isIdentRun name.toList = true := by
  cases h with
  | free _ => exact hproposal
  | numbered _ _ => exact isIdentRun_numbered hproposal _

end Settles

theorem settles_distinct (taken : List String) (proposal : String) :
    Settles taken proposal (distinct taken proposal) := by
  rw [distinct]
  split
  · next h =>
    have hinj : Function.Injective fun i => numbered proposal (i + 1) :=
      (numbered_injective proposal).comp Nat.succ_injective
    obtain ⟨j, hsearch, hname⟩ := firstFree_eq hinj taken
    rw [hname]
    exact .numbered (List.contains_iff_mem.1 h) hsearch.shift
  · next h => exact .free (by simpa using h)

theorem settles_assignFrom {taken names : List String} {index i : Nat} {name : String}
    (h : (assignFrom taken index names)[i]? = some name) :
    ∃ given, names[i]? = some given ∧
      Settles ((assignFrom taken index names).take i ++ taken) (proposed (index + i) given)
        name := by
  induction names generalizing taken index i with
  | nil => cases h
  | cons n rest ih =>
    rw [assignFrom] at h ⊢
    cases i with
    | zero =>
      cases h
      exact ⟨n, rfl, settles_distinct taken (proposed index n)⟩
    | succ i =>
      obtain ⟨given, hgiven, hsettles⟩ := ih h
      rw [Nat.add_right_comm] at hsettles
      refine ⟨given, hgiven, hsettles.congr fun s => ?_⟩
      rw [List.take_succ_cons, List.cons_append]
      exact List.perm_middle.mem_iff

theorem nodup_of_not_mem_take {names : List String}
    (h : ∀ i name, names[i]? = some name → name ∉ names.take i) : names.Nodup := by
  rw [List.nodup_iff_getElem?_ne_getElem?]
  intro i j hij hj heq
  rw [List.getElem?_eq_getElem hj] at heq
  apply h j _ (List.getElem?_eq_getElem hj)
  rw [List.mem_iff_getElem?]
  exact ⟨i, by rw [List.getElem?_take_of_lt hij, heq]⟩

theorem settles_assign {names : List String} {i : Nat} {name : String}
    (h : (assign names)[i]? = some name) :
    ∃ given, names[i]? = some given ∧
      Settles ((assign names).take i) (proposed i given) name := by
  obtain ⟨given, hgiven, hsettles⟩ := settles_assignFrom h
  rw [Nat.zero_add, List.append_nil] at hsettles
  exact ⟨given, hgiven, hsettles⟩

theorem nodup_assign (names : List String) : (assign names).Nodup := by
  apply nodup_of_not_mem_take
  intro i name hname
  obtain ⟨given, -, hsettles⟩ := settles_assign hname
  exact hsettles.not_mem

/-- The names of parameters are identifiers of their own.  An identifier that is given is kept
unless a parameter before it has it, and every search for a number ends. -/
structure Named (given : List (Option String)) (names : List String) : Prop where
  length : names.length = given.length
  nodup : names.Nodup
  identifier : ∀ name ∈ names, Piece.isIdentRun name.toList = true
  kept : ∀ (i : Nat) (name : String), given[i]? = some (some name) →
    Piece.isIdentRun name.toList = true → name ∉ names.take i → names[i]? = some name
  settles : ∀ (i : Nat) (name : String), names[i]? = some name → ∃ raw, given[i]? = some raw ∧
    Settles (names.take i) (proposed i (raw.getD "")) name

theorem settles_given {given : List (Option String)} {i : Nat} {name : String}
    (h : (assign (given.map (·.getD "")))[i]? = some name) :
    ∃ raw, given[i]? = some raw ∧
      Settles ((assign (given.map (·.getD ""))).take i) (proposed i (raw.getD "")) name := by
  obtain ⟨n, hn, hsettles⟩ := settles_assign h
  rw [List.getElem?_map, Option.map_eq_some_iff] at hn
  obtain ⟨raw, hraw, rfl⟩ := hn
  exact ⟨raw, hraw, hsettles⟩

theorem named_assign {given : List (Option String)}
    (h : ∀ name, some name ∈ given → '\n' ∉ name.toList) :
    Named given (assign (given.map (·.getD ""))) := by
  refine ⟨by simp, nodup_assign _, ?_, ?_, fun i name => settles_given⟩
  · intro name hmem
    obtain ⟨i, hname⟩ := List.mem_iff_getElem?.1 hmem
    obtain ⟨raw, hraw, hsettles⟩ := settles_given hname
    apply hsettles.isIdentRun
    apply isIdentRun_proposed
    cases raw with
    | none => simp
    | some name => exact h name (List.mem_of_getElem? hraw)
  · intro i name hgiven hident hfree
    have hlt : i < (assign (given.map (·.getD ""))).length := by
      simpa using (List.getElem?_eq_some_iff.1 hgiven).1
    have hname := List.getElem?_eq_getElem hlt
    obtain ⟨raw, hraw, hsettles⟩ := settles_given hname
    rw [hgiven] at hraw
    cases hraw
    rw [Option.getD_some, proposed_of_isIdentRun i hident] at hsettles
    generalize (assign (given.map (·.getD "")))[i] = final at hname hsettles
    cases hsettles with
    | free _ => exact hname
    | numbered htaken _ => exact absurd htaken hfree

theorem underscore_mem_escaped (name : String) (n : Nat) : '_' ∈ (escaped name n).toList := by
  cases n <;> simp [escaped, numbered]

inductive Escapes (taken : List String) (name : String) : String → Prop
  | kept (h : name ∉ reservedWords) : Escapes taken name name
  | escaped {n : Nat} (h : name ∈ reservedWords) (search : Search (escaped name) taken 0 n) :
      Escapes taken name (escaped name n)

namespace Escapes

variable {taken taken' : List String} {name shown : String}

theorem congr (htaken : ∀ s, s ∈ taken ↔ s ∈ taken') (h : Escapes taken name shown) :
    Escapes taken' name shown := by
  cases h with
  | kept h => exact .kept h
  | escaped h search => exact .escaped h (search.congr htaken)

theorem not_reserved (h : Escapes taken name shown) : shown ∉ reservedWords := by
  cases h with
  | kept h => exact h
  | @escaped n _ _ =>
    have hwords : ∀ word ∈ reservedWords, '_' ∉ word.toList := by decide
    exact fun hmem => hwords _ hmem (underscore_mem_escaped name n)

end Escapes

theorem escapes_unreserveFrom {taken names : List String} (hnames : names ⊆ taken) {i : Nat}
    {shown : String} (h : (unreserveFrom taken names)[i]? = some shown) :
    ∃ name, names[i]? = some name ∧
      Escapes ((unreserveFrom taken names).take i ++ taken) name shown := by
  induction names generalizing taken i with
  | nil => cases h
  | cons n rest ih =>
    obtain ⟨hn, hrest⟩ := List.cons_subset.1 hnames
    rw [unreserveFrom] at h ⊢
    split at h
    · next hreserved =>
      rw [if_pos hreserved]
      cases i with
      | zero =>
        obtain ⟨j, hsearch, hname⟩ := firstFree_eq (escaped_injective n) taken
        rw [List.getElem?_cons_zero, hname] at h
        cases h
        exact ⟨n, rfl, .escaped (List.contains_iff_mem.1 hreserved) hsearch⟩
      | succ i =>
        obtain ⟨name, hname, hescapes⟩ := ih (List.subset_cons_of_subset _ hrest) h
        refine ⟨name, hname, hescapes.congr fun s => ?_⟩
        rw [List.take_succ_cons, List.cons_append]
        exact List.perm_middle.mem_iff
    · next hfree =>
      rw [if_neg hfree]
      cases i with
      | zero =>
        cases h
        exact ⟨_, rfl, .kept (by simpa using hfree)⟩
      | succ i =>
        obtain ⟨name, hname, hescapes⟩ := ih hrest h
        refine ⟨name, hname, hescapes.congr fun s => ?_⟩
        rw [List.take_succ_cons, List.cons_append, List.mem_cons, List.mem_append]
        constructor
        · exact .inr
        · rintro (rfl | hs)
          · exact .inr hn
          · exact hs

/-- The names in TypeScript are still distinct and none of them is reserved.  A name that is not
reserved stays as it is, and every search for another name ends. -/
structure Shown (names shown : List String) : Prop where
  length : shown.length = names.length
  nodup : shown.Nodup
  unreserved : ∀ name ∈ shown, name ∉ reservedWords
  kept : ∀ (i : Nat) (name : String), names[i]? = some name → name ∉ reservedWords →
    shown[i]? = some name
  escapes : ∀ (i : Nat) (final : String), shown[i]? = some final → ∃ name, names[i]? = some name ∧
    Escapes (shown.take i ++ names) name final

theorem escapes_unreserve {names : List String} {i : Nat} {shown : String}
    (h : (unreserve names)[i]? = some shown) :
    ∃ name, names[i]? = some name ∧
      Escapes ((unreserve names).take i ++ names) name shown :=
  escapes_unreserveFrom (List.Subset.refl names) h

theorem nodup_unreserve {names : List String} (h : names.Nodup) : (unreserve names).Nodup := by
  apply nodup_of_not_mem_take
  intro j shown hj hmem
  obtain ⟨name, hname, hescapes⟩ := escapes_unreserve hj
  cases hescapes with
  | escaped _ search => exact search.not_mem (List.mem_append_left names hmem)
  | kept hfree =>
    -- The name stands for itself, so an earlier one is neither the same name nor made from another.
    obtain ⟨i, hi⟩ := List.mem_iff_getElem?.1 hmem
    have hij : i < j := by
      have hlt := (List.getElem?_eq_some_iff.1 hi).1
      rw [List.length_take] at hlt
      omega
    rw [List.getElem?_take_of_lt hij] at hi
    obtain ⟨earlier, hearlier, hescapes⟩ := escapes_unreserve hi
    generalize hshown : shown = final at hi hescapes
    cases hescapes with
    | escaped _ search =>
      apply search.not_mem
      rw [← hshown]
      exact List.mem_append_right _ (List.mem_of_getElem? hname)
    | kept _ =>
      rw [← hshown, ← hname] at hearlier
      have hlt := (List.getElem?_eq_some_iff.1 hname).1
      exact List.nodup_iff_getElem?_ne_getElem?.1 h i j hij hlt hearlier

theorem shown_unreserve {names : List String} (h : names.Nodup) :
    Shown names (unreserve names) := by
  refine ⟨length_unreserve names, nodup_unreserve h, ?_, ?_, fun i shown => escapes_unreserve⟩
  · intro shown hmem
    obtain ⟨i, hi⟩ := List.mem_iff_getElem?.1 hmem
    obtain ⟨name, -, hescapes⟩ := escapes_unreserve hi
    exact hescapes.not_reserved
  · intro i name hname hfree
    have hlt : i < (unreserve names).length := by
      simpa using (List.getElem?_eq_some_iff.1 hname).1
    have hshown := List.getElem?_eq_getElem hlt
    obtain ⟨given, hgiven, hescapes⟩ := escapes_unreserve hshown
    rw [hname] at hgiven
    cases hgiven
    generalize (unreserve names)[i] = shown at hshown hescapes
    cases hescapes with
    | kept _ => exact hshown
    | escaped hreserved _ => exact absurd hreserved hfree

/-- Every list of given names, some of them missing, gives distinct identifiers, and those give
distinct names that are free to use in TypeScript. -/
theorem names_distinct (given : List (Option String))
    (h : ∀ name, some name ∈ given → '\n' ∉ name.toList) :
    Named given (assign (given.map (·.getD ""))) ∧
      Shown (assign (given.map (·.getD ""))) (unreserve (assign (given.map (·.getD "")))) :=
  ⟨named_assign h, shown_unreserve (named_assign h).nodup⟩

def clashingNames : List (Option String) :=
  [some "in", some "arg4", some "in_", some "in", none, some "x y", some "in_1", some "arg5"]

theorem names_distinct_clashing :
    assign (clashingNames.map (·.getD "")) =
        ["in", "arg4", "in_", "in_1", "arg4_1", "arg5", "in_1_1", "arg5_1"] ∧
      unreserve ["in", "arg4", "in_", "in_1", "arg4_1", "arg5", "in_1_1", "arg5_1"] =
        ["in_2", "arg4", "in_", "in_1", "arg4_1", "arg5", "in_1_1", "arg5_1"] ∧
      Named clashingNames (assign (clashingNames.map (·.getD ""))) ∧
      Shown (assign (clashingNames.map (·.getD "")))
        (unreserve (assign (clashingNames.map (·.getD "")))) := by
  have hlines : ∀ name, some name ∈ clashingNames → '\n' ∉ name.toList := by
    intro name hmem
    simp only [clashingNames, List.mem_cons, Option.some.injEq, reduceCtorEq, false_or,
      List.not_mem_nil, or_false] at hmem
    rcases hmem with rfl | rfl | rfl | rfl | rfl | rfl | rfl <;> decide
  exact ⟨by decide +kernel, by decide +kernel, names_distinct clashingNames hlines⟩

end WasmBindings.ParamName
