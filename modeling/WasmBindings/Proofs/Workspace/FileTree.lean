import Mathlib.Data.List.Infix
import WasmBindings.HeaderSearch
import WasmBindings.Proofs.TypeTable

/-!
What writing files does to a tree.  Where a path leads depends on its names alone, so the locations
that a reader looks at and those that a writer changes are known before anything is read or
written.  A tree with files put over it is described location by location, and putting the same
files over it again changes nothing.
-/

namespace WasmBindings

namespace Table

variable {κ α : Type} [BEq κ]

theorem get?_append (t u : Table κ α) (k : κ) : get? (t ++ u) k = (t.get? k).or (u.get? k) :=
  List.lookup_append

variable [LawfulBEq κ]

theorem mem_of_get? {t : Table κ α} {k : κ} {a : α} (h : t.get? k = some a) : (k, a) ∈ t := by
  induction t with
  | nil => cases h
  | cons e t ih =>
    rw [get?_cons] at h
    split at h
    · next hk =>
      cases h
      rw [eq_of_beq hk]
      exact List.mem_cons_self
    · exact List.mem_cons_of_mem _ (ih h)

theorem insert_of_get?_eq_none {t : Table κ α} {k : κ} (h : t.get? k = none) (a : α) :
    t.insert k a = t ++ [(k, a)] := by
  induction t with
  | nil => rfl
  | cons e t ih =>
    obtain ⟨j, b⟩ := e
    rw [get?_cons] at h
    split at h
    · cases h
    · next hk => rw [insert, if_neg hk, ih h, List.cons_append]

theorem mem_insert {t : Table κ α} {k : κ} {a : α} {e : κ × α} (h : e ∈ t.insert k a) :
    e = (k, a) ∨ e ∈ t := by
  induction t with
  | nil => exact .inl (List.mem_singleton.1 h)
  | cons d t ih =>
    rw [insert] at h
    split at h
    · next hk =>
      rw [← eq_of_beq hk] at h
      exact (List.mem_cons.1 h).imp_right (List.mem_cons_of_mem _)
    · rcases List.mem_cons.1 h with rfl | h
      · exact .inr List.mem_cons_self
      · exact (ih h).imp_right (List.mem_cons_of_mem _)

theorem filterMap_insert {β : Type} {f : κ × α → Option β} {k : κ} (h : ∀ a, f (k, a) = none)
    (t : Table κ α) (a : α) : (t.insert k a).filterMap f = t.filterMap f := by
  induction t with
  | nil => simp [insert, h]
  | cons d t ih =>
    rw [insert]
    split
    · next hk =>
      obtain ⟨j, b⟩ := d
      cases eq_of_beq hk
      rw [List.filterMap_cons_none (h a), List.filterMap_cons_none (h b)]
    · rw [List.filterMap_cons, List.filterMap_cons, ih]

end Table

namespace FileTree

def trail (here : Location) : List String → List Location
  | [] => []
  | n :: rest => step here n :: trail (step here n) rest

def reach (here : Location) (names : List String) : Location := names.foldl step here

theorem reach_mem_trail {here : Location} {names : List String} (h : names ≠ []) :
    reach here names ∈ trail here names := by
  induction names generalizing here with
  | nil => exact absurd rfl h
  | cons n rest ih =>
    cases rest with
    | nil => exact List.mem_singleton_self _
    | cons m rest => exact List.mem_cons_of_mem _ (ih (by simp))

theorem reach_append (here : Location) (names more : List String) :
    reach here (names ++ more) = reach (reach here names) more :=
  List.foldl_append

theorem trail_append (here : Location) (names more : List String) :
    trail here (names ++ more) = trail here names ++ trail (reach here names) more := by
  induction names generalizing here with
  | nil => rfl
  | cons n rest ih =>
    rw [List.cons_append, trail, ih]
    rfl

def sights (path : String) : List Location :=
  start path :: trail (start path) (pathNames path)

def folders (path : String) : List Location :=
  trail (start (Path.dirName path)) (Path.components (Path.dirName path))

def folder (path : String) : Location :=
  reach (start (Path.dirName path)) (Path.components (Path.dirName path))

def target (path : String) : Location := folder path ++ [Path.baseName path]

/-- The locations that writing a file may change. -/
def marks (path : String) : List Location := folders path ++ [target path]

theorem isDirectory_congr {t t' : FileTree} {here : Location} (h : t'.get? here = t.get? here) :
    t'.isDirectory here = t.isDirectory here := by
  rw [isDirectory, isDirectory, h]

theorem locateFrom_congr {t t' : FileTree} {here : Location} {names : List String}
    (h : ∀ l ∈ here :: trail here names, t'.get? l = t.get? l) :
    t'.locateFrom here names = t.locateFrom here names := by
  have hhere := h here List.mem_cons_self
  induction names generalizing here with
  | nil => rw [locateFrom, locateFrom, isDirectory_congr hhere, hhere]
  | cons n rest ih =>
    have hrest : ∀ l ∈ step here n :: trail (step here n) rest, t'.get? l = t.get? l :=
      fun l hl => h l (List.mem_cons_of_mem _ hl)
    rw [locateFrom, locateFrom, isDirectory_congr hhere, ih hrest (hrest _ List.mem_cons_self)]

theorem locateFrom_append {t : FileTree} {here : Location} {names : List String}
    (h : ∀ l ∈ here :: trail here names, t.isDirectory l = true) (more : List String) :
    t.locateFrom here (names ++ more) = t.locateFrom (reach here names) more := by
  induction names generalizing here with
  | nil => rfl
  | cons n rest ih =>
    rw [List.cons_append, locateFrom, if_pos (h here List.mem_cons_self),
      ih fun l hl => h l (List.mem_cons_of_mem _ hl)]
    rfl

theorem eq_reach_of_locateFrom {t : FileTree} {here l : Location} {names : List String}
    (h : t.locateFrom here names = some l) : l = reach here names := by
  induction names generalizing here with
  | nil =>
    rw [locateFrom] at h
    split at h
    · exact (Option.some.inj h).symm
    · split at h
      · exact (Option.some.inj h).symm
      · cases h
  | cons n rest ih =>
    rw [locateFrom] at h
    split at h
    · exact ih h
    · cases h

theorem locate_congr {t t' : FileTree} {path : String}
    (h : ∀ l ∈ sights path, t'.get? l = t.get? l) : t'.locate path = t.locate path := by
  rw [locate, locate]
  split
  · rfl
  · exact locateFrom_congr h

theorem pathExists_congr {t t' : FileTree} {path : String}
    (h : ∀ l ∈ sights path, t'.get? l = t.get? l) : t'.pathExists path = t.pathExists path := by
  rw [pathExists, pathExists, locate_congr h]

theorem eq_reach_of_locate {t : FileTree} {path : String} {l : Location}
    (h : t.locate path = some l) : l = reach (start path) (pathNames path) := by
  rw [locate] at h
  split at h
  · cases h
  · exact eq_reach_of_locateFrom h

theorem mem_sights_of_locate {t : FileTree} {path : String} {l : Location}
    (h : t.locate path = some l) : l ∈ sights path := by
  rw [eq_reach_of_locate h, sights]
  by_cases hnames : pathNames path = []
  · rw [hnames]
    exact List.mem_cons_self
  · exact List.mem_cons_of_mem _ (reach_mem_trail hnames)

theorem readText?_congr {t t' : FileTree} {path : String}
    (h : ∀ l ∈ sights path, t'.get? l = t.get? l) : t'.readText? path = t.readText? path := by
  rw [readText?, readText?, locate_congr h]
  cases hl : t.locate path with
  | none => rfl
  | some l => rw [Option.bind_some, Option.bind_some, h l (mem_sights_of_locate hl)]

def Rooted (t : FileTree) (here : Location) : Prop := ∀ l, l <+: here → t.isDirectory l = true

theorem isDirectory_of_isGiven (t : FileTree) {here : Location} (h : isGiven here = true) :
    t.isDirectory here = true := by
  rw [isDirectory, h, Bool.true_or]

theorem isGiven_of_all {here : Location} (h : here.all (· == "..") = true) :
    isGiven here = true := by
  rw [isGiven, h, Bool.true_or]

theorem Rooted.start (t : FileTree) (path : String) : t.Rooted (FileTree.start path) := by
  intro l hl
  apply isDirectory_of_isGiven
  rw [FileTree.start] at hl
  split at hl
  · rcases List.prefix_cons_iff.1 hl with rfl | ⟨m, rfl, hm⟩
    · rfl
    · rw [List.prefix_nil.1 hm]
      rfl
  · rw [List.prefix_nil.1 hl]
    rfl

theorem Rooted.up {t : FileTree} {here : Location} (h : t.Rooted here) :
    t.Rooted (FileTree.up here) := by
  rw [FileTree.up]
  split
  · exact h
  · split
    · next hall =>
      intro l hl
      apply isDirectory_of_isGiven
      apply isGiven_of_all
      rw [List.all_eq_true] at hall ⊢
      intro n hn
      rcases List.mem_append.1 (hl.subset hn) with hn | hn
      · exact hall n hn
      · rw [List.mem_singleton.1 hn]
        rfl
    · exact fun l hl => h l (hl.trans (List.dropLast_prefix here))

theorem Rooted.step {t : FileTree} {here : Location} (h : t.Rooted here) {n : String}
    (hn : t.isDirectory (step here n) = true) : t.Rooted (FileTree.step here n) := by
  rw [FileTree.step] at hn ⊢
  split
  · exact h
  · split
    · exact h.up
    · next hdot hdots =>
      rw [if_neg hdot, if_neg hdots] at hn
      intro l hl
      rcases List.prefix_concat_iff.1 hl with rfl | hl
      · exact hn
      · exact h l hl

/-- The tree `t'` is `t` with directories added such that all locations are directories. -/
structure Made (t : FileTree) (locations : List Location) (t' : FileTree) : Prop where
  added : ∃ ds : FileTree, t' = t ++ ds ∧
    ∀ e ∈ ds, e.2 = .directory ∧ e.1 ∈ locations ∧ isGiven e.1 = false
  directories : ∀ l ∈ locations, t'.isDirectory l = true

theorem isDirectory_append {t : FileTree} {l : Location} (h : t.isDirectory l = true)
    (ds : FileTree) : (t ++ ds).isDirectory l = true := by
  rw [isDirectory, Bool.or_eq_true] at h ⊢
  refine h.imp_right fun h => ?_
  split at h
  · next hl =>
    rw [Table.get?_append, hl]
    rfl
  · cases h

theorem isDirectory_concat (t : FileTree) {l : Location} (h : t.get? l = none) :
    isDirectory (t ++ [(l, .directory)]) l = true := by
  rw [isDirectory, Table.get?_append, h, Option.none_or, Table.get?_cons, if_pos BEq.rfl,
    Bool.or_true]

theorem makeFrom_append {t : FileTree} {here : Location} {names : List String}
    (h : ∀ l ∈ trail here names, t.isDirectory l = true) (more : List String) :
    t.makeFrom here (names ++ more) = t.makeFrom (reach here names) more := by
  induction names generalizing here with
  | nil => rfl
  | cons n rest ih =>
    rw [List.cons_append, makeFrom, if_pos (h _ List.mem_cons_self),
      ih fun l hl => h l (List.mem_cons_of_mem _ hl)]
    rfl

theorem makeFrom_of_directories {t : FileTree} {here : Location} {names : List String}
    (h : ∀ l ∈ trail here names, t.isDirectory l = true) :
    t.makeFrom here names = (t, .ok (reach here names)) := by
  have hmake := makeFrom_append h []
  rwa [List.append_nil] at hmake

theorem made_of_makeFrom {t t' : FileTree} {here dir : Location} {names : List String}
    (h : t.makeFrom here names = (t', .ok dir)) (hhere : t.Rooted here) :
    dir = reach here names ∧ Made t (trail here names) t' ∧ t'.Rooted dir := by
  induction names generalizing t here with
  | nil =>
    cases h
    exact ⟨rfl, ⟨⟨[], by simp, by simp⟩, by simp [trail]⟩, hhere⟩
  | cons n rest ih =>
    rw [makeFrom] at h
    split at h
    · next hdir =>
      -- nothing is made for this name; from a rooted location it may also lead up
      obtain ⟨hreach, ⟨⟨ds, rfl, hds⟩, hdirs⟩, hrooted⟩ := ih h (hhere.step hdir)
      refine ⟨hreach, ⟨⟨ds, rfl, ?_⟩, ?_⟩, hrooted⟩
      · intro e he
        obtain ⟨hnode, hmem, hgiven⟩ := hds e he
        exact ⟨hnode, List.mem_cons_of_mem _ hmem, hgiven⟩
      · intro l hl
        rcases List.mem_cons.1 hl with rfl | hl
        · exact isDirectory_append hdir ds
        · exact hdirs l hl
    · next hdir =>
      split at h
      · cases h
      · cases h
      · next hnone hname =>
        have hnext := isDirectory_concat t hnone
        have hrooted' : Rooted (t ++ [(step here n, .directory)]) here :=
          fun l hl => isDirectory_append (hhere l hl) _
        obtain ⟨hreach, ⟨⟨ds, rfl, hds⟩, hdirs⟩, hrooted⟩ := ih h (hrooted'.step hnext)
        refine ⟨hreach, ⟨⟨(step here n, .directory) :: ds, by simp, ?_⟩, ?_⟩, hrooted⟩
        · intro e he
          rcases List.mem_cons.1 he with rfl | he
          · refine ⟨rfl, List.mem_cons_self, ?_⟩
            rw [isDirectory, Bool.or_eq_true, not_or] at hdir
            exact Bool.eq_false_iff.2 hdir.1
          · obtain ⟨hnode, hmem, hgiven⟩ := hds e he
            exact ⟨hnode, List.mem_cons_of_mem _ hmem, hgiven⟩
        · intro l hl
          rcases List.mem_cons.1 hl with rfl | hl
          · exact isDirectory_append hnext ds
          · exact hdirs l hl

theorem Made.isDirectory {t t' : FileTree} {ls : List Location} (h : Made t ls t') {l : Location}
    (hl : t.isDirectory l = true) : t'.isDirectory l = true := by
  obtain ⟨ds, rfl, -⟩ := h.added
  exact isDirectory_append hl ds

theorem Made.get?_eq {t t' : FileTree} {ls : List Location} (h : Made t ls t') (l : Location) :
    t'.get? l = (t.get? l).or
      (if l ∈ ls ∧ isGiven l = false then some .directory else none) := by
  obtain ⟨ds, rfl, hds⟩ := h.added
  rw [Table.get?_append]
  cases hl : t.get? l with
  | some node => rfl
  | none =>
    rw [Option.none_or, Option.none_or]
    split
    · next hmem =>
      have hdir := h.directories l hmem.1
      rw [FileTree.isDirectory, hmem.2, Bool.false_or, Table.get?_append, hl,
        Option.none_or] at hdir
      split at hdir
      · next hget => exact hget
      · cases hdir
    · next hmem =>
      rw [Option.eq_none_iff_forall_ne_some]
      intro node hnode
      exact hmem (hds _ (Table.mem_of_get? hnode)).2

structure Writable (path : String) : Prop where
  nonempty : path ≠ ""
  checked : checkName (Path.baseName path) = .ok ()
  named : Path.baseName path ≠ ""
  proper : step (folder path) (Path.baseName path) = target path
  notGiven : isGiven (target path) = false

theorem isGiven_of_not_isDirectory {t : FileTree} {l : Location} (h : t.isDirectory l = false) :
    isGiven l = false := by
  rw [isDirectory, Bool.or_eq_false_iff] at h
  exact h.1

theorem Rooted.step_eq_concat {t : FileTree} {dir : Location} (h : t.Rooted dir) {n : String}
    (hn : t.isDirectory (FileTree.step dir n) = false) : FileTree.step dir n = dir ++ [n] := by
  rw [FileTree.step] at hn ⊢
  split at hn
  · rw [h dir (List.prefix_refl dir)] at hn
    cases hn
  · next hdot =>
    rw [if_neg hdot]
    split at hn
    · rw [h.up _ (List.prefix_refl _)] at hn
      cases hn
    · next hdots => rw [if_neg hdots]

theorem enter_eq_ok {t t' : FileTree} {path : String}
    {objection : FileTree → Location → Option Fault} {node : FileNode}
    (hfree : ∀ made here, objection made here = none → made.isDirectory here = false)
    (h : t.enter path objection node = (t', .ok ())) :
    Writable path ∧ ∃ made, Made t (folders path) made ∧
      made.isDirectory (target path) = false ∧ t' = made.insert (target path) node := by
  rw [enter] at h
  split at h
  · cases h
  · next made dir hmake =>
    obtain ⟨hdir, hmade, hrooted⟩ := made_of_makeFrom hmake (Rooted.start t _)
    change dir = folder path at hdir
    dsimp only at h
    split at h
    · cases h
    · cases h
    · next hname hobjection =>
      rw [hdir] at hobjection hrooted h
      have hplace := hfree made _ hobjection
      have hnamed : Path.baseName path ≠ "" := by
        intro hempty
        rw [if_pos (by rw [hempty]; rfl), hrooted _ (List.prefix_refl _)] at hplace
        cases hplace
      rw [if_neg (by simpa using hnamed)] at hplace
      have hproper : step (folder path) (Path.baseName path) = target path :=
        hrooted.step_eq_concat hplace
      rw [hproper] at hplace
      have hpath : path ≠ "" := by
        rintro rfl
        exact hnamed rfl
      cases h
      exact ⟨⟨hpath, hname, hnamed, hproper, isGiven_of_not_isDirectory hplace⟩,
        made, hmade, hplace, rfl⟩

theorem write_eq_ok {t t' : FileTree} {path : String} {c : Content}
    (h : t.write path c = (t', .ok ())) :
    Writable path ∧ ∃ made, Made t (folders path) made ∧
      made.isDirectory (target path) = false ∧ t' = made.insert (target path) (.file c) := by
  rw [write] at h
  split at h
  · cases h
  · refine enter_eq_ok (fun made here hobjection => ?_) h
    rw [Bool.eq_false_iff]
    intro hdirectory
    rw [if_pos hdirectory] at hobjection
    cases hobjection

section Write

variable {t t' : FileTree} {path : String} {c : Content} {l : Location}

theorem get?_write (h : t.write path c = (t', .ok ())) (l : Location) :
    t'.get? l = if l = target path then some (.file c) else (t.get? l).or
      (if l ∈ folders path ∧ isGiven l = false then some .directory else none) := by
  obtain ⟨-, made, hmade, -, rfl⟩ := write_eq_ok h
  split
  · next hl => rw [hl, Table.get?_insert_self]
  · next hl => rw [Table.get?_insert_of_ne _ _ hl, hmade.get?_eq]

theorem ne_target_of_isDirectory (h : t.write path c = (t', .ok ()))
    (hl : t.isDirectory l = true) : l ≠ target path := by
  obtain ⟨-, made, hmade, hplace, -⟩ := write_eq_ok h
  -- it would still be a directory when the file is entered
  intro heq
  rw [← heq, hmade.isDirectory hl] at hplace
  cases hplace

theorem get?_write_of_directory (h : t.write path c = (t', .ok ()))
    (hl : l ∈ marks path → t.isDirectory l = true) : t'.get? l = t.get? l := by
  have htarget : l ≠ target path := by
    intro heq
    have hmark : l ∈ marks path := List.mem_append_right _ (List.mem_singleton.2 heq)
    exact ne_target_of_isDirectory h (hl hmark) heq
  rw [get?_write h, if_neg htarget]
  split
  · next hfolder =>
    have hdir := hl (List.mem_append_left _ hfolder.1)
    rw [isDirectory, hfolder.2, Bool.false_or] at hdir
    split at hdir
    · next hget => rw [hget, Option.some_or]
    · cases hdir
  · rw [Option.or_none]

theorem isDirectory_write (h : t.write path c = (t', .ok ())) (hl : t.isDirectory l = true) :
    t'.isDirectory l = true := by
  rw [isDirectory_congr (get?_write_of_directory h fun _ => hl), hl]

theorem mem_keys_write (h : t.write path c = (t', .ok ())) (hl : l ∈ t'.keys) :
    l ∈ t.keys ∨ l ∈ marks path := by
  obtain ⟨-, made, hmade, -, rfl⟩ := write_eq_ok h
  obtain ⟨ds, rfl, hds⟩ := hmade.added
  obtain ⟨e, he, rfl⟩ := List.mem_map.1 hl
  rcases Table.mem_insert he with rfl | he
  · exact .inr (List.mem_append_right _ (List.mem_singleton_self _))
  · rcases List.mem_append.1 he with he | he
    · exact .inl (List.mem_map_of_mem he)
    · exact .inr (List.mem_append_left _ (hds e he).2.1)

theorem filterMap_write {β : Type} {f : Location × FileNode → Option β}
    (h : t.write path c = (t', .ok ())) (hdirectory : ∀ l, f (l, .directory) = none)
    (htarget : ∀ node, f (target path, node) = none) : t'.filterMap f = t.filterMap f := by
  obtain ⟨-, made, hmade, -, rfl⟩ := write_eq_ok h
  obtain ⟨ds, rfl, hds⟩ := hmade.added
  have hnone : ds.filterMap f = [] := by
    rw [List.filterMap_eq_nil_iff]
    rintro ⟨l, node⟩ he
    cases (hds _ he).1
    exact hdirectory l
  rw [Table.filterMap_insert htarget, List.filterMap_append, hnone, List.append_nil]

structure Written (t : FileTree) (path : String) : Prop where
  writable : Writable path
  folders : ∀ l ∈ folders path, t.isDirectory l = true
  file : ∃ c, t.get? (target path) = some (.file c)

theorem written_of_write (h : t.write path c = (t', .ok ())) : t'.Written path := by
  obtain ⟨hpath, made, hmade, hplace, rfl⟩ := write_eq_ok h
  refine ⟨hpath, ?_, c, ?_⟩
  · intro l hl
    have hdir := hmade.directories l hl
    have hne : l ≠ target path := by
      intro heq
      rw [heq, hplace] at hdir
      cases hdir
    rwa [isDirectory_congr (Table.get?_insert_of_ne _ _ hne)]
  · rw [Table.get?_insert_self]

theorem Written.write (h : t.Written path) {other : String}
    (hwrite : t.write other c = (t', .ok ())) : t'.Written path := by
  refine ⟨h.writable, fun l hl => isDirectory_write hwrite (h.folders l hl), ?_⟩
  obtain ⟨c', hfile⟩ := h.file
  rw [get?_write hwrite]
  split
  · exact ⟨c, rfl⟩
  · exact ⟨c', by rw [hfile, Option.some_or]⟩

theorem Written.exists_write (h : t.Written path) (c : Content) :
    ∃ t', t.write path c = (t', .ok ()) := by
  obtain ⟨c', hfile⟩ := h.file
  have hplace : t.isDirectory (target path) = false := by
    rw [isDirectory, h.writable.notGiven, hfile]
    rfl
  have hmake : t.makeDirs (Path.dirName path) = (t, .ok (folder path)) :=
    makeFrom_of_directories h.folders
  have hstep : (if Path.baseName path == "" then folder path
      else step (folder path) (Path.baseName path)) = target path := by
    rw [if_neg (by simpa using h.writable.named), h.writable.proper]
  refine ⟨t.insert (target path) (.file c), ?_⟩
  rw [FileTree.write, if_neg (by simpa using h.writable.nonempty), enter, hmake]
  dsimp only
  rw [hstep, hplace, h.writable.checked]
  rfl

end Write

inductive Puts : FileTree → List (String × String) → FileTree → Prop
  | nil {t : FileTree} : Puts t [] t
  | cons {t t₁ t' : FileTree} {file : String × String} {files : List (String × String)} :
      t.write file.1 (.text file.2) = (t₁, .ok ()) → Puts t₁ files t' → Puts t (file :: files) t'

/-- What is at a location after files have been put over a tree: the last of the files there, or
else what was there, or else a directory if one of the files needs it. -/
def overlay (t : FileTree) (files : List (String × String)) (here : Location) : Option FileNode :=
  match files.reverse.find? (target ·.1 = here) with
  | some file => some (.file (.text file.2))
  | none => (t.get? here).or
    (if (∃ file ∈ files, here ∈ folders file.1) ∧ isGiven here = false then some .directory
      else none)

theorem ite_or_ite {α : Type} (p q : Prop) [Decidable p] [Decidable q] (a : α) :
    (if p then some a else none).or (if q then some a else none) =
      if p ∨ q then some a else none := by
  by_cases hp : p <;> simp [hp]

namespace Puts

variable {t t₁ t' t'' : FileTree} {files more : List (String × String)}

theorem append (h : Puts t files t₁) (hmore : Puts t₁ more t') : Puts t (files ++ more) t' := by
  induction h with
  | nil => exact hmore
  | cons hwrite _ ih => exact .cons hwrite (ih hmore)

theorem get?_eq (h : Puts t files t') (here : Location) : t'.get? here = overlay t files here := by
  induction h with
  | nil => simp [overlay]
  | @cons t t₁ t' file files hwrite _ ih =>
    -- the first file counts only where none of the later ones is put
    rw [ih, overlay, overlay, List.reverse_cons, List.find?_append]
    cases hlast : files.reverse.find? (target ·.1 = here) with
    | some last => rfl
    | none =>
      rw [Option.none_or, get?_write hwrite]
      by_cases htarget : here = target file.1
      · simp [htarget]
      · have hfile : [file].find? (target ·.1 = here) = none := by simpa using Ne.symm htarget
        simp only [if_neg htarget, hfile, Option.or_assoc, List.mem_cons, exists_eq_or_imp,
          ite_or_ite, ← or_and_right]

theorem get?_of_again (h : Puts t files t') (hagain : Puts t' files t'') (here : Location) :
    t''.get? here = t'.get? here := by
  have h' := h.get?_eq here
  rw [hagain.get?_eq, overlay]
  rw [overlay] at h'
  split
  · next file hlast => rw [h', hlast]
  · next hlast =>
    rw [hlast] at h'
    rw [h', Option.or_assoc, Option.or_self]

theorem isDirectory (h : Puts t files t') {l : Location} (hl : t.isDirectory l = true) :
    t'.isDirectory l = true := by
  induction h with
  | nil => exact hl
  | cons hwrite _ ih => exact ih (isDirectory_write hwrite hl)

theorem get?_of_directory (h : Puts t files t') {l : Location}
    (hl : ∀ file ∈ files, l ∈ marks file.1 → t.isDirectory l = true) : t'.get? l = t.get? l := by
  induction h with
  | nil => rfl
  | @cons t t₁ t' file files hwrite _ ih =>
    rw [ih fun other hother hmark => isDirectory_write hwrite
      (hl other (List.mem_cons_of_mem _ hother) hmark)]
    exact get?_write_of_directory hwrite (hl file List.mem_cons_self)

theorem mem_keys (h : Puts t files t') {l : Location} (hl : l ∈ t'.keys) :
    l ∈ t.keys ∨ ∃ file ∈ files, l ∈ marks file.1 := by
  induction h with
  | nil => exact .inl hl
  | @cons t t₁ t' file files hwrite _ ih =>
    rcases ih hl with hl | ⟨other, hother, hmark⟩
    · exact (mem_keys_write hwrite hl).imp_right fun hmark => ⟨file, List.mem_cons_self, hmark⟩
    · exact .inr ⟨other, List.mem_cons_of_mem _ hother, hmark⟩

theorem filterMap_eq {β : Type} {f : Location × FileNode → Option β} (h : Puts t files t')
    (hdirectory : ∀ l, f (l, .directory) = none)
    (htarget : ∀ file ∈ files, ∀ node, f (target file.1, node) = none) :
    t'.filterMap f = t.filterMap f := by
  induction h with
  | nil => rfl
  | @cons t t₁ t' file files hwrite _ ih =>
    rw [ih fun other hother => htarget other (List.mem_cons_of_mem _ hother)]
    exact filterMap_write hwrite hdirectory (htarget file List.mem_cons_self)

theorem written (h : Puts t files t') {path : String}
    (hpath : t.Written path ∨ path ∈ files.map Prod.fst) : t'.Written path := by
  induction h with
  | nil => simpa using hpath
  | @cons t t₁ t' file files hwrite _ ih =>
    apply ih
    rcases hpath with hpath | hpath
    · exact .inl (hpath.write hwrite)
    · rcases List.mem_cons.1 hpath with rfl | hpath
      · exact .inl (written_of_write hwrite)
      · exact .inr hpath

end Puts

theorem exists_puts {t : FileTree} {files : List (String × String)}
    (h : ∀ file ∈ files, t.Written file.1) : ∃ t', Puts t files t' := by
  induction files generalizing t with
  | nil => exact ⟨t, .nil⟩
  | cons file files ih =>
    obtain ⟨t₁, hwrite⟩ := (h file List.mem_cons_self).exists_write (.text file.2)
    obtain ⟨t', hputs⟩ := ih fun other hother =>
      (h other (List.mem_cons_of_mem _ hother)).write hwrite
    exact ⟨t', .cons hwrite hputs⟩

end FileTree

namespace HeaderSearch

open FileTree

def Skips (root : String) (file : String) : Prop :=
  ∀ names, target file = reach (start root) (pathNames root) ++ names →
    isHeader (Path.join root (String.intercalate "/" names)) = false

theorem skips_of_outside {root file : String}
    (h : ¬ reach (start root) (pathNames root) <+: target file) : Skips root file :=
  fun names hnames => absurd ⟨names, hnames.symm⟩ h

theorem isCandidate_of_not_isHeader {path : String} (h : isHeader path = false) (token : String)
    (node : FileNode) : isCandidate token (path, node) = false := by
  cases node with
  | file c =>
    rw [isCandidate, h]
    rfl
  | _ => rfl

theorem candidates_congr {t t' : FileTree} {files : List (String × String)} (h : Puts t files t')
    {root : String} (hroot : ∀ l ∈ sights root, t'.get? l = t.get? l)
    (hfiles : ∀ file ∈ files, Skips root file.1) (token : String) :
    candidates t' root token = candidates t root token := by
  rw [candidates, candidates, listFiles, listFiles, locate_congr hroot]
  cases hlocate : t.locate root with
  | none => rfl
  | some here =>
    have hsight := mem_sights_of_locate hlocate
    have hhere : here = reach (start root) (pathNames root) := eq_reach_of_locate hlocate
    dsimp only
    rw [isDirectory_congr (hroot here hsight)]
    split
    · congr 2
      rw [filesBelow, filesBelow, List.map_filterMap, List.map_filterMap, List.filter_filterMap,
        List.filter_filterMap]
      apply h.filterMap_eq
      · intro l
        rfl
      · intro file hfile node
        have hskip : here.isPrefixOf (target file.1) = true → ∀ node, isCandidate token
            (Path.join root (String.intercalate "/" ((target file.1).drop here.length)), node) =
              false := by
          intro hbelow node
          obtain ⟨names, hnames⟩ := List.isPrefixOf_iff_prefix.1 hbelow
          rw [← hnames, List.drop_left]
          exact isCandidate_of_not_isHeader (hfiles file hfile names (hhere ▸ hnames.symm)) token
            node
        cases node with
        | directory => rfl
        | _ =>
          dsimp only
          split
          · next hbelow => rw [Option.map_some, Option.filter_some, hskip hbelow]; rfl
          · rfl
    · rfl

end HeaderSearch

end WasmBindings
