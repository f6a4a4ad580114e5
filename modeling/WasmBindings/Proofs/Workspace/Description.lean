import Mathlib.Data.List.Nodup
import WasmBindings.Proofs.HeaderSearch
import WasmBindings.Workspace.Description

namespace WasmBindings

theorem Text.not_mem_of_mem_splitAt {sep : Char} {s p : List Char} (h : p ∈ splitAt sep s) :
    sep ∉ p := by
  induction s generalizing p with
  | nil =>
    rw [splitAt, List.mem_singleton] at h
    simp [h]
  | cons c r ih =>
    obtain ⟨q, qs, hq⟩ := List.exists_cons_of_ne_nil (splitAt_ne_nil sep r)
    rw [splitAt, hq] at h
    rw [hq] at ih
    split at h
    · rcases List.mem_cons.1 h with rfl | h
      · simp
      · exact ih h
    · next hc =>
      rcases List.mem_cons.1 h with rfl | h
      · simpa [Ne.symm hc] using ih List.mem_cons_self
      · exact ih (List.mem_cons_of_mem q h)

namespace Path

theorem mem_components {path n : String} (h : n ∈ components path) : n ≠ "" ∧ '/' ∉ n.toList := by
  obtain ⟨p, hp, rfl⟩ := List.mem_map.1 h
  obtain ⟨hp, hne⟩ := List.mem_filter.1 hp
  rw [String.toList_ofList]
  exact ⟨by simpa using hne, Text.not_mem_of_mem_splitAt hp⟩

theorem slash_not_mem_baseName (path : String) : '/' ∉ (baseName path).toList := by
  rw [baseName, String.toList_ofList, baseChars, List.mem_reverse]
  intro h
  simpa using List.mem_takeWhile_imp h

theorem dirChars_prefix (s : List Char) : dirChars s <+: s := by
  rw [dirChars]
  split
  · exact List.take_prefix _ _
  · exact (List.reverse_suffix.1 (by
      rw [List.reverse_reverse]
      exact List.dropWhile_suffix _)).trans (List.take_prefix _ _)

theorem isAbsolute_dirName {path : String} (h : isAbsolute path = false) :
    isAbsolute (dirName path) = false := by
  rw [isAbsolute, beq_eq_false_iff_ne] at h ⊢
  rw [dirName, String.toList_ofList]
  intro hhead
  obtain ⟨rest, hrest⟩ := dirChars_prefix path.toList
  rw [← hrest, List.head?_append, hhead] at h
  exact h rfl

end Path

namespace FileTree

def Placed (here : Location) : Prop :=
  ∃ ups names, here = List.replicate ups ".." ++ names ∧ ∀ n ∈ names, PlainName n

theorem placed_nil : Placed [] := ⟨0, [], rfl, by simp⟩

theorem Placed.up {here : Location} (h : Placed here) : Placed (up here) := by
  obtain ⟨ups, names, rfl, hnames⟩ := h
  rw [FileTree.up]
  split
  · exact ⟨ups, names, rfl, hnames⟩
  · split
    · next hall =>
      cases names with
      | nil => exact ⟨ups + 1, [], by simp [List.replicate_succ'], by simp⟩
      | cons n rest => simp [(hnames n List.mem_cons_self).noDots] at hall
    · next hall =>
      have hne : names ≠ [] := by
        rintro rfl
        simp at hall
      refine ⟨ups, names.dropLast, List.dropLast_append_of_ne_nil hne, fun n hn => ?_⟩
      exact hnames n (List.dropLast_subset names hn)

theorem Placed.step {here : Location} (h : Placed here) {n : String} (hne : n ≠ "")
    (hslash : '/' ∉ n.toList) : Placed (step here n) := by
  rw [FileTree.step]
  split
  · exact h
  · next hdot =>
    split
    · exact h.up
    · next hdots =>
      obtain ⟨ups, names, rfl, hnames⟩ := h
      refine ⟨ups, names ++ [n], List.append_assoc _ _ _, fun m hm => ?_⟩
      rcases List.mem_append.1 hm with hm | hm
      · exact hnames m hm
      · rw [List.mem_singleton.1 hm]
        exact ⟨hne, hslash, by simpa using hdot, by simpa using hdots⟩

theorem Placed.trail {here : Location} (h : Placed here) {names : List String}
    (hnames : ∀ n ∈ names, n ≠ "" ∧ '/' ∉ n.toList) :
    (∀ l ∈ trail here names, Placed l) ∧ Placed (reach here names) := by
  induction names generalizing here with
  | nil => exact ⟨by simp [FileTree.trail], h⟩
  | cons n rest ih =>
    have hn := h.step (hnames n List.mem_cons_self).1 (hnames n List.mem_cons_self).2
    obtain ⟨htrail, hreach⟩ := ih hn fun m hm => hnames m (List.mem_cons_of_mem n hm)
    refine ⟨fun l hl => ?_, hreach⟩
    rcases List.mem_cons.1 hl with rfl | hl
    · exact hn
    · exact htrail l hl

theorem nodup_keys_makeFrom {t : FileTree} (h : t.keys.Nodup) (here : Location)
    (names : List String) : (t.makeFrom here names).1.keys.Nodup := by
  induction names generalizing t here with
  | nil => exact h
  | cons n rest ih =>
    rw [makeFrom]
    split
    · exact ih h _
    · split
      · exact h
      · exact h
      · next hnone _ =>
        apply ih
        rw [← Table.insert_of_get?_eq_none hnone]
        exact Table.nodup_keys_insert h _ _

theorem nodup_keys_enter {t : FileTree} (h : t.keys.Nodup) (path : String)
    (objection : FileTree → Location → Option Fault) (node : FileNode) :
    (t.enter path objection node).1.keys.Nodup := by
  have hmade := nodup_keys_makeFrom h (start (Path.dirName path))
    (Path.components (Path.dirName path))
  rw [← makeDirs] at hmade
  rw [enter]
  split
  · next hmake => rwa [hmake] at hmade
  · next hmake =>
    rw [hmake] at hmade
    dsimp only
    split
    · exact hmade
    · exact hmade
    · exact Table.nodup_keys_insert hmade _ _

structure Described (t : FileTree) : Prop where
  nodup : t.keys.Nodup
  placed : ∀ l ∈ t.keys, Placed l
  source : t.get? [sourceDir] = some .directory

theorem described_bare : Described bare := by
  refine ⟨by decide, fun l hl => ?_, rfl⟩
  simp only [bare, Table.keys, List.map_cons, List.map_nil, List.mem_cons, List.not_mem_nil,
    or_false] at hl
  rcases hl with rfl | rfl
  · exact placed_nil.step (n := sourceDir) (by decide) (by decide)
  · exact placed_nil.step (n := Workspace.tempRoot) (by decide) (by decide)

theorem Described.enter {t t' : FileTree} (h : Described t) {path : String}
    (hpath : Path.isAbsolute path = false) {objection : FileTree → Location → Option Fault}
    {node : FileNode}
    (hfree : ∀ made here, objection made here = none → made.isDirectory here = false)
    (hput : t.enter path objection node = (t', .ok ())) : Described t' := by
  have hnodup := nodup_keys_enter h.nodup path objection node
  rw [hput] at hnodup
  obtain ⟨hwritable, made, hmade, hplace, rfl⟩ := enter_eq_ok hfree hput
  have hstart : start (Path.dirName path) = [] := by
    rw [start, Path.isAbsolute_dirName hpath]
    rfl
  have hnames : ∀ n ∈ Path.components (Path.dirName path), n ≠ "" ∧ '/' ∉ n.toList :=
    fun n hn => Path.mem_components hn
  obtain ⟨hfolders, hfolder⟩ := placed_nil.trail hnames
  rw [← hstart] at hfolders hfolder
  refine ⟨hnodup, fun l hl => ?_, ?_⟩
  · obtain ⟨ds, rfl, hds⟩ := hmade.added
    obtain ⟨e, he, rfl⟩ := List.mem_map.1 hl
    rcases Table.mem_insert he with rfl | he
    · have htarget := hfolder.step hwritable.named (Path.slash_not_mem_baseName path)
      rwa [← folder, hwritable.proper] at htarget
    · rcases List.mem_append.1 he with he | he
      · exact h.placed e.1 (List.mem_map_of_mem he)
      · exact hfolders e.1 (hds e he).2.1
  · have hsource : made.get? [sourceDir] = some .directory := by
      rw [hmade.get?_eq, h.source, Option.some_or]
    have hne : [sourceDir] ≠ target path := by
      intro heq
      rw [← heq, isDirectory, hsource, Bool.or_true] at hplace
      cases hplace
    rw [Table.get?_insert_of_ne _ _ hne, hsource]

theorem isAbsolute_below (path : String) : Path.isAbsolute (Path.below sourceDir path) = false := by
  rw [Path.isAbsolute, Path.below, String.toList_append, String.toList_append]
  rfl

theorem Described.putSource {t t' : FileTree} (h : Described t) {path : String}
    {content : Option Content} (hput : t.putSource path content = (t', .ok ())) :
    Described t' := by
  cases content with
  | none =>
    rw [FileTree.putSource, link] at hput
    refine h.enter (isAbsolute_below path) (fun made here hobjection => ?_) hput
    rw [Bool.eq_false_iff]
    intro hdirectory
    rw [hdirectory, Bool.true_or] at hobjection
    cases hobjection
  | some c =>
    rw [FileTree.putSource, write] at hput
    split at hput
    · cases hput
    · refine h.enter (isAbsolute_below path) (fun made here hobjection => ?_) hput
      rw [Bool.eq_false_iff]
      intro hdirectory
      rw [if_pos hdirectory] at hobjection
      cases hobjection

theorem Described.foldlM {t t' : FileTree} (h : Described t) {fields : List (String × Json)}
    (hputs : fields.foldlM (fun t f =>
      let (t, outcome) := t.putSource f.1 (Content.ofJson? f.2)
      outcome.map fun () => t) t = .ok t') : Described t' := by
  induction fields generalizing t with
  | nil =>
    cases hputs
    exact h
  | cons f fields ih =>
    obtain ⟨t₁, hput, hputs⟩ := Outcome.bind_eq_ok.1 hputs
    dsimp only at hput
    rcases hrun : t.putSource f.1 (Content.ofJson? f.2) with ⟨t₂, fault | done⟩
    · rw [hrun] at hput
      cases hput
    · rw [hrun] at hput
      cases hput
      exact ih (h.putSource hrun) hputs

theorem described_ofJson {v : Json} {t : FileTree} (h : ofJson v = .ok t) : Described t := by
  cases v with
  | obj fields => exact described_bare.foldlM h
  | _ =>
    cases h
    exact described_bare

theorem tidy_ofJson {v : Json} {t : FileTree} (h : ofJson v = .ok t) {dir : Location}
    (hdir : t.locate sourceDir = some dir) : Tidy t dir := by
  have hdescribed := described_ofJson h
  have hsource : reach (start sourceDir) (pathNames sourceDir) = [sourceDir] := by decide
  rw [eq_reach_of_locate hdir, hsource]
  refine ⟨hdescribed.nodup, fun names c hfile => ⟨?_, ?_⟩⟩
  · -- the source directory itself is no file
    rintro rfl
    have hentry := Table.mem_of_get? hdescribed.source
    cases List.inj_on_of_nodup_map hdescribed.nodup hfile hentry rfl
  · obtain ⟨ups, down, hplace, hdown⟩ := hdescribed.placed _ (List.mem_map_of_mem hfile)
    cases ups with
    | zero =>
      intro n hn
      apply hdown
      rw [List.replicate_zero, List.nil_append] at hplace
      rw [← hplace]
      exact List.mem_cons_of_mem _ hn
    | succ ups =>
      rw [List.replicate_succ] at hplace
      exact absurd (List.cons.inj hplace).1 (by decide)

end FileTree

end WasmBindings
