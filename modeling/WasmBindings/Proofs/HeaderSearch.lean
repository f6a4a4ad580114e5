import WasmBindings.Proofs.Outcome
import WasmBindings.Proofs.Text.Run
import WasmBindings.Proofs.Workspace.Temporary

namespace WasmBindings

namespace Text

/-- The text has the token in it, with no word character next to it on either side. -/
def HoldsWord (token s : List Char) : Prop :=
  ∃ u v, s = u ++ (token ++ v) ∧ (∀ c ∈ u.getLast?, isWord c = false) ∧ StartsApart v

theorem any_isWord_eq_false {c? : Option Char} :
    c?.any isWord = false ↔ ∀ c ∈ c?, isWord c = false := by
  cases c? <;> simp

theorem getLast?_cons_or (c : Char) (u : List Char) (before : Option Char) :
    (c :: u).getLast?.or before = u.getLast?.or (some c) := by
  rw [List.getLast?_cons]
  cases u.getLast? <;> rfl

theorem hasBounded_iff {token : List Char} (hne : token ≠ []) (hword : ∀ c ∈ token, isWord c = true)
    {before : Option Char} {s : List Char} :
    hasBounded token before s = true ↔ ∃ u v, s = u ++ (token ++ v) ∧
      (∀ c ∈ u.getLast?.or before, isWord c = false) ∧ StartsApart v := by
  obtain ⟨d, token, rfl⟩ := List.exists_cons_of_ne_nil hne
  -- between a character and the token there is a boundary where the character is no word character
  have hfirst : ∀ c?, isBoundary c? (some d) = true ↔ c?.any isWord = false := by
    intro c?
    simp [isBoundary, hword d List.mem_cons_self]
  have hlast : ∀ b v : Option Char, isBoundary ((d :: token).getLast?.or b) v = true ↔
      v.any isWord = false := by
    intro b v
    obtain ⟨e, he⟩ : ∃ e, (d :: token).getLast? = some e := ⟨_, List.getLast?_cons⟩
    simp [isBoundary, he, hword e (List.mem_of_getLast? he)]
  induction s generalizing before with
  | nil => simp [hasBounded]
  | cons c r ih =>
    rw [hasBounded, Bool.or_eq_true, Bool.and_eq_true, Bool.and_eq_true, hlast,
      List.isPrefixOf_iff_prefix, any_isWord_eq_false]
    constructor
    · rintro (⟨⟨⟨v, hv⟩, hbefore⟩, hafter⟩ | hrest)
      · cases (List.cons.inj hv).1
        refine ⟨[], v, hv.symm, any_isWord_eq_false.1 ((hfirst before).1 hbefore), ?_⟩
        rw [← hv, List.getElem?_append_right (Nat.le_refl _), Nat.sub_self] at hafter
        rwa [StartsApart, List.head?_eq_getElem?]
      · obtain ⟨u, v, rfl, hu, hv⟩ := ih.1 hrest
        exact ⟨c :: u, v, rfl, getLast?_cons_or c u before ▸ hu, hv⟩
    · rintro ⟨u, v, hs, hu, hv⟩
      cases u with
      | nil =>
        have hc : c = d := (List.cons.inj hs).1
        refine .inl ⟨⟨⟨v, hs.symm⟩, ?_⟩, ?_⟩
        · rw [hc, hfirst, any_isWord_eq_false]
          exact hu
        · rw [hs, List.nil_append, List.getElem?_append_right (Nat.le_refl _), Nat.sub_self,
            ← List.head?_eq_getElem?]
          exact hv
      | cons b u =>
        cases hs
        exact .inr (ih.2 ⟨u, v, rfl, getLast?_cons_or c u before ▸ hu, hv⟩)

theorem hasBounded_none {token : List Char} (hne : token ≠ [])
    (hword : ∀ c ∈ token, isWord c = true) {s : List Char} :
    hasBounded token none s = true ↔ HoldsWord token s := by
  rw [hasBounded_iff hne hword]
  simp only [Option.or_none]
  rfl

theorem HoldsWord.isInfix {token s : List Char} (h : HoldsWord token s) : token <:+: s := by
  obtain ⟨u, v, rfl, -⟩ := h
  exact ⟨u, v, by simp⟩

theorem splitAt_intercalate {sep : Char} {pieces : List (List Char)} (hne : pieces ≠ [])
    (h : ∀ p ∈ pieces, sep ∉ p) : splitAt sep ([sep].intercalate pieces) = pieces := by
  induction pieces with
  | nil => exact absurd rfl hne
  | cons p ps ih =>
    have hp := h p List.mem_cons_self
    cases ps with
    | nil => simpa using splitAt_of_not_mem hp
    | cons q ps =>
      rw [List.intercalate_cons_cons, List.append_assoc, List.singleton_append, splitAt_append hp,
        ih (List.cons_ne_nil q ps) fun p hp => h p (List.mem_cons_of_mem _ hp)]

end Text

structure PlainName (n : String) : Prop where
  nonempty : n ≠ ""
  noSlash : '/' ∉ n.toList
  noDot : n ≠ "."
  noDots : n ≠ ".."

instance (n : String) : Decidable (PlainName n) :=
  decidable_of_iff (n ≠ "" ∧ '/' ∉ n.toList ∧ n ≠ "." ∧ n ≠ "..")
    ⟨fun ⟨hn, hslash, hdot, hdots⟩ => ⟨hn, hslash, hdot, hdots⟩,
      fun ⟨hn, hslash, hdot, hdots⟩ => ⟨hn, hslash, hdot, hdots⟩⟩

namespace Path

structure IsStep (n : String) : Prop where
  nonempty : n ≠ ""
  noSlash : '/' ∉ n.toList

theorem isStep_of_plain {names : List String} (h : ∀ n ∈ names, PlainName n) :
    ∀ n ∈ names, IsStep n := fun n hn => ⟨(h n hn).nonempty, (h n hn).noSlash⟩

open Text

def ofNames (root : String) (names : List String) : String :=
  join root (String.intercalate "/" names)

theorem baseChars_of_splitAt {s last : List Char} {pieces : List (List Char)}
    (h : splitAt '/' s = pieces ++ [last]) : baseChars s = last := by
  by_cases hs : '/' ∈ s
  · obtain ⟨b, u, hb, hfree⟩ := List.eq_append_cons_of_mem (List.mem_reverse.2 hs)
    have hcut : s = u.reverse ++ '/' :: b.reverse := by
      rw [← List.reverse_reverse s, hb]
      simp
    have hfree' : '/' ∉ b.reverse := by simpa using hfree
    rw [hcut, splitAt_append_cons, splitAt_of_not_mem hfree'] at h
    rw [hcut, baseChars_append hfree']
    exact List.singleton_inj.1 (List.append_inj' h rfl).2
  · rw [splitAt_of_not_mem hs] at h
    have hall : ∀ c ∈ s.reverse, (c != '/') = true := by
      intro c hc
      rw [bne_iff_ne]
      rintro rfl
      exact hs (List.mem_reverse.1 hc)
    rw [baseChars, List.takeWhile_eq_self_iff.2 hall, List.reverse_reverse]
    exact List.singleton_inj.1 (List.append_inj' ((List.nil_append [s]).trans h) rfl).2

variable {names : List String}

theorem splitAt_names (hne : names ≠ []) (h : ∀ n ∈ names, IsStep n) :
    splitAt '/' (String.intercalate "/" names).toList = names.map String.toList := by
  rw [String.toList_intercalate]
  apply splitAt_intercalate
  · simpa using hne
  · intro p hp
    obtain ⟨n, hn, rfl⟩ := List.mem_map.1 hp
    exact (h n hn).noSlash

theorem isAbsolute_names (hne : names ≠ []) (h : ∀ n ∈ names, IsStep n) :
    isAbsolute (String.intercalate "/" names) = false := by
  obtain ⟨n, rest, rfl⟩ := List.exists_cons_of_ne_nil hne
  have hn := h n List.mem_cons_self
  obtain ⟨c, s, hs⟩ := List.exists_cons_of_ne_nil (l := n.toList) (by simpa using hn.nonempty)
  have hc : c ≠ '/' := by
    rintro rfl
    exact hn.noSlash (hs ▸ List.mem_cons_self)
  rw [isAbsolute, String.toList_intercalate]
  cases rest <;> simp [List.intercalate_cons_cons, hs, hc]

theorem exists_splitAt_ofNames (root : String) : ∃ pieces : List (List Char),
    ((pieces.filter fun c => !c.isEmpty).map String.ofList = components root) ∧
      ∀ names : List String, names ≠ [] → (∀ n ∈ names, IsStep n) →
        splitAt '/' (ofNames root names).toList = pieces ++ names.map String.toList := by
  by_cases hroot : (root == "" || root.toList.getLast? == some '/') = true
  · rw [Bool.or_eq_true, beq_iff_eq, beq_iff_eq] at hroot
    rcases hroot with rfl | hslash
    · refine ⟨[], rfl, fun names hne h => ?_⟩
      rw [ofNames, join, isAbsolute_names hne h, if_neg Bool.false_ne_true, if_pos (by simp)]
      exact splitAt_names hne h
    · obtain ⟨dir, hdir⟩ := List.getLast?_eq_some_iff.1 hslash
      refine ⟨splitAt '/' dir, ?_, fun names hne h => ?_⟩
      · rw [components, hdir, splitAt_append_cons]
        simp [splitAt]
      · rw [ofNames, join, isAbsolute_names hne h, if_neg Bool.false_ne_true,
          if_pos (by simp [hslash]), String.toList_append, hdir, List.append_assoc,
          List.singleton_append, splitAt_append_cons, splitAt_names hne h]
  · refine ⟨splitAt '/' root.toList, rfl, fun names hne h => ?_⟩
    rw [ofNames, join, isAbsolute_names hne h, if_neg Bool.false_ne_true, if_neg hroot,
      String.toList_append, String.toList_append, List.append_assoc]
    exact (splitAt_append_cons '/' _ _).trans (congrArg _ (splitAt_names hne h))

theorem filter_map_names (h : ∀ n ∈ names, IsStep n) :
    ((names.map String.toList).filter fun c => !c.isEmpty).map String.ofList = names := by
  rw [List.filter_eq_self.2, List.map_map]
  · simp
  · intro p hp
    obtain ⟨n, hn, rfl⟩ := List.mem_map.1 hp
    simpa using (h n hn).nonempty

theorem components_ofNames (root : String) (hne : names ≠ []) (h : ∀ n ∈ names, IsStep n) :
    components (ofNames root names) = components root ++ names := by
  obtain ⟨pieces, hroot, hpieces⟩ := exists_splitAt_ofNames root
  rw [components, hpieces names hne h, List.filter_append, List.map_append, hroot,
    filter_map_names h]

theorem baseChars_ofNames (root : String) (hne : names ≠ []) (h : ∀ n ∈ names, IsStep n) :
    baseChars (ofNames root names).toList = (names.getLastD "").toList := by
  obtain ⟨pieces, -, hpieces⟩ := exists_splitAt_ofNames root
  obtain ⟨parents, name, rfl⟩ := (List.eq_nil_or_concat names).resolve_left hne
  have hsplit := hpieces _ hne h
  rw [List.concat_eq_append, List.map_append, ← List.append_assoc] at hsplit
  rw [List.concat_eq_append, baseChars_of_splitAt hsplit, List.getLastD_concat]

theorem isAbsolute_ofNames {root : String} (hroot : root ≠ "") (hne : names ≠ [])
    (h : ∀ n ∈ names, IsStep n) : isAbsolute (ofNames root names) = isAbsolute root := by
  obtain ⟨c, s, hs⟩ := List.exists_cons_of_ne_nil (l := root.toList) (by simpa using hroot)
  rw [ofNames, join, isAbsolute_names hne h, if_neg Bool.false_ne_true]
  split <;> simp [isAbsolute, hs]

theorem resolveFrom_append (here a b : List String) :
    resolveFrom here (a ++ b) = resolveFrom (resolveFrom here a) b := by
  induction a generalizing here with
  | nil => rfl
  | cons c a ih =>
    rw [List.cons_append, resolveFrom, resolveFrom]
    repeat' split
    all_goals exact ih _

theorem resolveFrom_of_plain (here : List String) (h : ∀ n ∈ names, PlainName n) :
    resolveFrom here names = here ++ names := by
  induction names generalizing here with
  | nil => rw [resolveFrom, List.append_nil]
  | cons n rest ih =>
    have hn := h n List.mem_cons_self
    rw [resolveFrom, if_neg (by simpa using hn.noDot), if_neg (by simpa using hn.noDots),
      ih _ fun m hm => h m (List.mem_cons_of_mem n hm), List.append_assoc, List.singleton_append]

theorem steps_append_append (here start target : List String) :
    steps (here ++ start) (here ++ target) = steps start target := by
  induction here with
  | nil => rfl
  | cons n here ih => rw [List.cons_append, List.cons_append, steps, if_pos BEq.rfl, ih]

theorem steps_append (here names : List String) : steps here (here ++ names) = names := by
  have hsteps := steps_append_append here [] names
  rw [List.append_nil] at hsteps
  rw [hsteps]
  cases names <;> rfl

theorem relative_ofNames (workingDir : List String) {root : String} (hroot : root ≠ "")
    (hne : names ≠ []) (h : ∀ n ∈ names, PlainName n) :
    relative workingDir (ofNames root names) root = .ok (String.intercalate "/" names) := by
  have hsteps := isStep_of_plain h
  have hpath : ofNames root names ≠ "" := by
    intro hempty
    have hcomponents := components_ofNames root hne hsteps
    rw [hempty] at hcomponents
    exact hne (List.append_eq_nil_iff.1 hcomponents.symm).2
  rw [relative, if_neg (by simpa using hpath), resolve, resolve,
    isAbsolute_ofNames hroot hne hsteps, components_ofNames root hne hsteps, resolveFrom_append,
    resolveFrom_of_plain _ h, steps_append]
  cases names with
  | nil => exact absurd rfl hne
  | cons n rest => rfl

end Path

namespace FileTree

/-- What a file system grants of the files below a directory: each has a place of its own, and plain
names lead to it. -/
structure Tidy (t : FileTree) (dir : Location) : Prop where
  nodup : t.keys.Nodup
  names : ∀ names c, (dir ++ names, .file c) ∈ t → names ≠ [] ∧ ∀ n ∈ names, PlainName n

theorem eq_append_of_below {dir here names : Location} {node node' : FileNode}
    (h : (match node with
      | .directory => none
      | node => if dir.isPrefixOf here then some (here.drop dir.length, node) else none) =
        some (names, node')) : here = dir ++ names ∧ node = node' ∧ node ≠ .directory := by
  cases node <;> simp only [reduceCtorEq, Option.ite_none_right_eq_some, Option.some.injEq,
    Prod.mk.injEq, List.isPrefixOf_iff_prefix] at h
  all_goals
    obtain ⟨⟨names, rfl⟩, rfl, rfl⟩ := h
    simp

theorem mem_filesBelow {t : FileTree} {dir : Location} {names : List String} {node : FileNode} :
    (names, node) ∈ t.filesBelow dir ↔ (dir ++ names, node) ∈ t ∧ node ≠ .directory := by
  rw [filesBelow, List.mem_filterMap]
  constructor
  · rintro ⟨⟨here, node'⟩, hmem, hsome⟩
    obtain ⟨rfl, rfl, hnode⟩ := eq_append_of_below hsome
    exact ⟨hmem, hnode⟩
  · rintro ⟨hmem, hnode⟩
    refine ⟨_, hmem, ?_⟩
    cases node <;> simp at hnode ⊢

theorem nodup_filesBelow {t : FileTree} (h : t.keys.Nodup) (dir : Location) :
    ((t.filesBelow dir).map Prod.fst).Nodup := by
  rw [Table.keys, List.nodup_iff_pairwise_ne, List.pairwise_map] at h
  rw [List.nodup_iff_pairwise_ne, List.pairwise_map, filesBelow, List.pairwise_filterMap]
  refine h.imp ?_
  rintro ⟨here, node⟩ ⟨here', node'⟩ hne e he e' he' heq
  obtain ⟨rfl, -⟩ := eq_append_of_below he
  obtain ⟨rfl, -⟩ := eq_append_of_below he'
  exact hne (congrArg (dir ++ ·) heq)

end FileTree

namespace HeaderSearch

open FileTree Text

/-- The file is a header, and its text has `enum` in it and the token as a word. -/
structure Mentions (token name : String) (c : Content) : Prop where
  header : ∃ ending ∈ [".h", ".hpp", ".hxx"], ending.toList <:+ lower name.toList
  enum : "enum".toList <:+: unifyLineEnds c.read.toList
  word : HoldsWord token.toList (unifyLineEnds c.read.toList)

def LeadsTo (t : FileTree) (root token : String) (names : List String) : Prop :=
  ∃ dir c, t.locate root = some dir ∧ t.isDirectory dir = true ∧ (dir ++ names, .file c) ∈ t ∧
    Mentions token (names.getLastD "") c

def Precedes (a b : String) : Prop := a.length < b.length ∨ a.length = b.length ∧ a < b

theorem comesBefore_iff {a b : String} : comesBefore a b = true ↔
    a.length < b.length ∨ a.length = b.length ∧ a ≤ b := by
  simp [comesBefore]

theorem pairwise_mergeSort_comesBefore (paths : List String) :
    (paths.mergeSort comesBefore).Pairwise (comesBefore · · = true) := by
  apply List.pairwise_mergeSort
  · intro a b c hab hbc
    rw [comesBefore_iff] at *
    rcases hab with hab | ⟨hab, hle⟩ <;> rcases hbc with hbc | ⟨hbc, hle'⟩
    · exact .inl (hab.trans hbc)
    · exact .inl (hbc ▸ hab)
    · exact .inl (hab ▸ hbc)
    · exact .inr ⟨hab.trans hbc, String.le_trans hle hle'⟩
  · intro a b
    rw [Bool.or_eq_true, comesBefore_iff, comesBefore_iff]
    rcases Nat.lt_trichotomy a.length b.length with h | h | h
    · exact .inl (.inl h)
    · exact (String.le_total a b).imp (fun hle => .inr ⟨h, hle⟩) fun hle => .inr ⟨h.symm, hle⟩
    · exact .inr (.inl h)

theorem pairwise_precedes {paths : List String} (h : paths.Nodup) :
    (paths.mergeSort comesBefore).Pairwise Precedes := by
  have hsorted := pairwise_mergeSort_comesBefore paths
  have hdistinct := (List.mergeSort_perm paths comesBefore).nodup_iff.2 h
  refine (hsorted.and hdistinct).imp ?_
  rintro a b ⟨hab, hne⟩
  rcases comesBefore_iff.1 hab with hab | ⟨hab, hle⟩
  · exact .inl hab
  · exact .inr ⟨hab, String.not_le.1 fun hge => hne (String.le_antisymm hle hge)⟩

section Tidy

variable {t : FileTree} {dir : Location} {root token : String}

def placesIn (t : FileTree) (dir : Location) (root token : String) : List (List String) :=
  ((t.filesBelow dir).filter fun e => isCandidate token (Path.ofNames root e.1, e.2)).map Prod.fst

theorem candidates_of_locate (hlocate : t.locate root = some dir)
    (hdir : t.isDirectory dir = true) : candidates t root token =
      ((placesIn t dir root token).map (Path.ofNames root)).mergeSort comesBefore := by
  rw [candidates, listFiles, hlocate, placesIn, List.map_map]
  dsimp only
  rw [if_pos hdir, List.filter_map, List.map_map]
  rfl

variable (htoken : token ≠ "") (hword : ∀ c ∈ token.toList, isWord c = true)

include htoken hword

theorem isCandidate_ofNames {names : List String} (hne : names ≠ [])
    (hnames : ∀ n ∈ names, PlainName n) (c : Content) :
    isCandidate token (Path.ofNames root names, .file c) = true ↔
      Mentions token (names.getLastD "") c := by
  have htoken' : token.toList ≠ [] := by simpa using htoken
  have hendings : headerEndings = [".h", ".hpp", ".hxx"].map String.toList := rfl
  simp only [isCandidate, isHeader, mayDeclare, hendings,
    Path.baseChars_ofNames root hne (Path.isStep_of_plain hnames), Bool.and_eq_true, occursIn_iff,
    hasBounded_none htoken' hword, List.any_map, List.any_eq_true, Function.comp_apply,
    List.isSuffixOf_iff_suffix]
  constructor
  · rintro ⟨hheader, ⟨-, henum⟩, hholds⟩
    exact ⟨hheader, henum, hholds⟩
  · rintro ⟨hheader, henum, hholds⟩
    exact ⟨hheader, ⟨hholds.isInfix, henum⟩, hholds⟩

theorem mem_placesIn (htidy : Tidy t dir) {names : List String} :
    names ∈ placesIn t dir root token ↔
      ∃ c, (dir ++ names, .file c) ∈ t ∧ Mentions token (names.getLastD "") c := by
  rw [placesIn, List.mem_map]
  constructor
  · rintro ⟨⟨names, node⟩, he, rfl⟩
    obtain ⟨hbelow, hcandidate⟩ := List.mem_filter.1 he
    obtain ⟨hfile, -⟩ := mem_filesBelow.1 hbelow
    cases node with
    | file c =>
      obtain ⟨hne, hnames⟩ := htidy.names names c hfile
      exact ⟨c, hfile, (isCandidate_ofNames htoken hword hne hnames c).1 hcandidate⟩
    | _ => cases hcandidate
  · rintro ⟨c, hfile, hmentions⟩
    obtain ⟨hne, hnames⟩ := htidy.names names c hfile
    refine ⟨(names, .file c), List.mem_filter.2 ⟨mem_filesBelow.2 ⟨hfile, by simp⟩, ?_⟩, rfl⟩
    exact (isCandidate_ofNames htoken hword hne hnames c).2 hmentions

theorem nodup_placesIn (htidy : Tidy t dir) :
    ((placesIn t dir root token).map (Path.ofNames root)).Nodup := by
  have hnodup : (placesIn t dir root token).Nodup :=
    (nodup_filesBelow htidy.nodup dir).sublist (List.filter_sublist.map _)
  have hsteps : ∀ names ∈ placesIn t dir root token, names ≠ [] ∧ ∀ n ∈ names, Path.IsStep n := by
    intro names hnames
    obtain ⟨c, hfile, -⟩ := (mem_placesIn htoken hword htidy).1 hnames
    exact (htidy.names names c hfile).imp_right Path.isStep_of_plain
  refine List.pairwise_map.2 (hnodup.imp_of_mem ?_)
  intro a b ha hb hne heq
  have hcomponents := congrArg Path.components heq
  rw [Path.components_ofNames root (hsteps a ha).1 (hsteps a ha).2,
    Path.components_ofNames root (hsteps b hb).1 (hsteps b hb).2] at hcomponents
  exact hne (List.append_cancel_left hcomponents)

theorem exists_candidates (htree : ∀ dir, t.locate root = some dir → Tidy t dir) :
    ∃ found : List (List String), candidates t root token = found.map (Path.ofNames root) ∧
      (found.map (Path.ofNames root)).Pairwise Precedes ∧
      ∀ names, names ∈ found ↔ LeadsTo t root token names := by
  by_cases h : ∃ dir, t.locate root = some dir ∧ t.isDirectory dir = true
  · obtain ⟨dir, hlocate, hdir⟩ := h
    have htidy := htree dir hlocate
    have hfound : ((placesIn t dir root token).mergeSort fun a b =>
        comesBefore (Path.ofNames root a) (Path.ofNames root b)).map (Path.ofNames root) =
          candidates t root token := by
      rw [candidates_of_locate hlocate hdir]
      exact List.map_mergeSort fun _ _ _ _ => rfl
    refine ⟨_, hfound.symm, ?_, fun names => ?_⟩
    · rw [hfound, candidates_of_locate hlocate hdir]
      exact pairwise_precedes (nodup_placesIn htoken hword htidy)
    · rw [List.mem_mergeSort, mem_placesIn htoken hword htidy]
      simp [LeadsTo, hlocate, hdir]
  · refine ⟨[], ?_, .nil, fun names => ?_⟩
    · rw [candidates, listFiles]
      cases hlocate : t.locate root with
      | none => simp
      | some dir =>
        have hdir : t.isDirectory dir ≠ true := fun hdir => h ⟨dir, hlocate, hdir⟩
        simp [hdir]
    · constructor
      · intro hnames
        cases hnames
      · rintro ⟨dir, c, hlocate, hdir, -⟩
        exact absurd ⟨dir, hlocate, hdir⟩ h

end Tidy

theorem relative_of_leadsTo {t : FileTree} {root token : String} {names : List String}
    (htree : ∀ dir, t.locate root = some dir → Tidy t dir) (h : LeadsTo t root token names)
    (workingDir : List String) :
    Path.relative workingDir (Path.ofNames root names) root =
      .ok (String.intercalate "/" names) := by
  obtain ⟨dir, c, hlocate, -, hfile, -⟩ := h
  have hroot : root ≠ "" := by
    rintro rfl
    cases hlocate
  obtain ⟨hne, hnames⟩ := (htree dir hlocate).names names c hfile
  exact Path.relative_ofNames workingDir hroot hne hnames

end HeaderSearch

end WasmBindings
