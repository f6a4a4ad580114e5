import WasmBindings.Proofs.Agreement
import WasmBindings.Workspace.Description

/-!
What a whole run leaves behind.  A class that fails writes nothing, so the tree after a run is the
tree before it with the files of the earlier classes put over it.  Where these files lie apart from
what is read, a second run reads the same and writes the same.
-/

namespace WasmBindings

open FileTree Workspace

theorem Table.mem_foldl_insert {κ α : Type} [BEq κ] [LawfulBEq κ] {entries : List (κ × α)}
    {t : Table κ α} {e : κ × α} (h : e ∈ entries.foldl (fun t e => t.insert e.1 e.2) t) :
    e ∈ t ∨ e ∈ entries := by
  induction entries generalizing t with
  | nil => exact .inl h
  | cons d entries ih =>
    rcases ih h with h | h
    · exact (mem_insert h).symm.imp_right fun h => List.mem_cons.2 (.inl h)
    · exact .inr (List.mem_cons_of_mem _ h)

theorem Table.mem_ofList {κ α : Type} [BEq κ] [LawfulBEq κ] {entries : List (κ × α)} {e : κ × α}
    (h : e ∈ Table.ofList entries) : e ∈ entries :=
  (mem_foldl_insert h).resolve_left List.not_mem_nil

namespace Session

theorem write_of_writeFile {path text : String} {w w' : Workspace}
    (h : (writeFile path text).run.run w = (.ok (), w')) :
    w.files.write path (.text text) = (w'.files, .ok ()) ∧ w' = { w with files := w'.files } := by
  rw [writeFile, run_changeFiles] at h
  obtain ⟨hok, rfl⟩ := Prod.mk.inj h
  exact ⟨Prod.ext rfl hok, rfl⟩

theorem run_eq {α : Type} {s : Session α} {w : Workspace} {r : Except Fault α}
    (h : (s.run.run w).1 = r) : s.run.run w = (r, (s.run.run w).2) :=
  Prod.ext h rfl

theorem run_print (line : String) (w : Workspace) :
    (print line).run.run w = (.ok (), { w with printed := w.printed ++ [line] }) := rfl

theorem run_forM_print (lines : List String) (w : Workspace) :
    (lines.forM print).run.run w = (.ok (), { w with printed := w.printed ++ lines }) := by
  induction lines generalizing w with
  | nil =>
    rw [List.append_nil]
    rfl
  | cons line lines ih =>
    change (print line >>= fun _ => lines.forM print).run.run w = _
    rw [run_bind_of_ok (run_print line w), ih]
    simp

end Session

def Workspace.setting (w : Workspace) : Setting := ⟨w.compiler, w.workingDir, w.tempCount⟩

namespace Generator

variable (g : Generator)

def outputPaths (name : String) : List String :=
  [(g.config name).cppOutput, (g.config name).interfaceOutput, (g.config name).apiOutput].map
    (Path.join g.outputRoot)

def sourcePaths (name : String) : List String :=
  Path.join g.sourceRoot (g.config name).header ::
    (g.implementationPath (g.config name)).toList

def placed (outputs : Table String String) : List (String × String) :=
  outputs.map fun file => (Path.join g.outputRoot file.1, file.2)

def writeOutputs (outputs : Table String String) : Session Unit :=
  outputs.forM fun file => Session.writeFile (Path.join g.outputRoot file.1) file.2

theorem run_writeOutputs {outputs : Table String String} {w : Workspace} {t : FileTree}
    (h : Puts w.files (g.placed outputs) t) :
    (g.writeOutputs outputs).run.run w = (.ok (), { w with files := t }) := by
  induction outputs generalizing w with
  | nil =>
    cases h
    rfl
  | cons file outputs ih =>
    cases h with
    | cons hwrite hputs =>
      change (Session.writeFile _ _ >>= fun _ => g.writeOutputs outputs).run.run w = _
      rw [Session.run_bind_of_ok (Session.run_writeFile hwrite)]
      exact ih hputs

theorem puts_of_writeOutputs {outputs : Table String String} {w w' : Workspace}
    (h : (g.writeOutputs outputs).run.run w = (.ok (), w')) :
    Puts w.files (g.placed outputs) w'.files ∧ w' = { w with files := w'.files } := by
  induction outputs generalizing w with
  | nil =>
    cases h
    exact ⟨.nil, rfl⟩
  | cons file outputs ih =>
    obtain ⟨⟨⟩, w₁, hfile, hrest⟩ := Session.run_bind_eq_ok.1 h
    obtain ⟨hwrite, hw₁⟩ := Session.write_of_writeFile hfile
    obtain ⟨hputs, hw'⟩ := ih hrest
    refine ⟨.cons hwrite hputs, ?_⟩
    rw [hw', hw₁]

theorem run_generateClass {name : String} {w w₁ : Workspace} {outputs : Table String String}
    {lines : List String} {t : FileTree}
    (hprepare : (g.prepare name).run.run w = (.ok (outputs, lines), w₁))
    (hputs : Puts w₁.files (g.placed outputs) t) : (g.generateClass name).run.run w =
      (.ok outputs, { w₁ with files := t, printed := w₁.printed ++ lines }) := by
  refine (Session.run_bind_of_ok hprepare).trans ?_
  refine (Session.run_bind_of_ok (g.run_writeOutputs hputs)).trans ?_
  refine (Session.run_bind_of_ok (Session.run_forM_print lines _)).trans ?_
  rfl

theorem puts_of_generateClass {name : String} {w w' : Workspace} {outputs : Table String String}
    (h : (g.generateClass name).run.run w = (.ok outputs, w')) :
    ∃ lines w₁, (g.prepare name).run.run w = (.ok (outputs, lines), w₁) ∧
      Puts w₁.files (g.placed outputs) w'.files ∧ w'.compiler = w₁.compiler ∧
      w'.workingDir = w₁.workingDir ∧ w'.tempCount = w₁.tempCount := by
  obtain ⟨⟨outputs', lines⟩, w₁, hprepare, h⟩ := Session.run_bind_eq_ok.1 h
  obtain ⟨⟨⟩, w₂, hwrite, h⟩ := Session.run_bind_eq_ok.1 h
  obtain ⟨⟨⟩, w₃, hprint, h⟩ := Session.run_bind_eq_ok.1 h
  obtain ⟨hputs, hw₂⟩ := g.puts_of_writeOutputs hwrite
  rw [Session.run_forM_print] at hprint
  cases hprint
  cases h
  refine ⟨lines, w₁, hprepare, hputs, ?_⟩
  rw [hw₂]
  exact ⟨rfl, rfl, rfl⟩

theorem generateClass_of_fault {name : String} {w w₁ : Workspace} {f : Fault}
    (h : (g.prepare name).run.run w = (.error f, w₁)) :
    (g.generateClass name).run.run w = (.error f, w₁) :=
  Session.run_bind_of_error h

theorem mem_outputPaths {name : String} {w w' : Workspace} {outputs : Table String String}
    {lines : List String} (h : (g.prepare name).run.run w = (.ok (outputs, lines), w')) :
    ∀ file ∈ g.placed outputs, file.1 ∈ g.outputPaths name := by
  obtain ⟨⟨methods, data⟩, w₁, -, h⟩ := Session.run_bind_eq_ok.1 h
  obtain ⟨w₂, w₃, -, h⟩ := Session.run_bind_eq_ok.1 h
  obtain ⟨outputs', w₄, hfiles, h⟩ := Session.run_bind_eq_ok.1 h
  cases h
  have hfiles := Session.run_ofExcept_eq_ok hfiles
  obtain ⟨module, -, hfiles⟩ := Outcome.bind_eq_ok.1 hfiles
  obtain ⟨api, -, hfiles⟩ := Outcome.bind_eq_ok.1 hfiles
  cases hfiles
  intro file hfile
  obtain ⟨entry, hentry, rfl⟩ := List.mem_map.1 hfile
  have hmem := Table.mem_ofList hentry
  simp only [List.mem_cons, List.not_mem_nil, or_false] at hmem
  rcases hmem with rfl | rfl | rfl <;> simp [outputPaths]

def readPaths (names : List String) : List String := g.sourceRoot :: names.flatMap g.sourcePaths

def Clear (w : Workspace) (path : String) : Prop :=
  ∀ n, w.tempCount ≤ n → ∀ l ∈ marks path, ¬ tempPlace g.tempStem n <+: l

theorem clear_of_outside {w : Workspace} {path : String} (hstem : '/' ∉ g.tempStem.toList)
    (h : ∀ l ∈ marks path, l.head? ≠ some tempRoot) : g.Clear w path :=
  fun _ _ l hl hplace => h l hl (head?_of_below_tempPlace hstem hplace).1

/-- Writing the path changes nothing that is read for the classes: no location that is looked at
for a source, unless it is a directory already, and no header below the source directory. -/
structure Apart (w : Workspace) (names : List String) (path : String) : Prop where
  sources : ∀ source ∈ g.readPaths names, ∀ l ∈ sights source, l ∈ marks path →
    w.files.isDirectory l = true
  headers : HeaderSearch.Skips g.sourceRoot path

variable {g}

theorem SameSources.refl (g : Generator) (name : String) (t : FileTree) : g.SameSources name t t :=
  ⟨fun _ _ => rfl, fun _ _ _ _ => rfl, fun _ => rfl⟩

theorem SameSources.symm {name : String} {t t' : FileTree} (h : g.SameSources name t t') :
    g.SameSources name t' t :=
  ⟨fun l hl => (h.header l hl).symm, fun path hpath l hl => (h.implementation path hpath l hl).symm,
    fun token => (h.candidates token).symm⟩

theorem SameSources.trans {name : String} {t t' t'' : FileTree} (h : g.SameSources name t t')
    (h' : g.SameSources name t' t'') : g.SameSources name t t'' :=
  ⟨fun l hl => (h'.header l hl).trans (h.header l hl),
    fun path hpath l hl => (h'.implementation path hpath l hl).trans
      (h.implementation path hpath l hl),
    fun token => (h'.candidates token).trans (h.candidates token)⟩

/-- The tree is that of the workspace with files put over it, all of them under the paths. -/
def Over (w : Workspace) (paths : List String) (t : FileTree) : Prop :=
  ∃ files, Puts w.files files t ∧ ∀ file ∈ files, file.1 ∈ paths

namespace Over

variable {w : Workspace} {paths names : List String} {t t' : FileTree}

theorem refl : Over w paths w.files := ⟨[], .nil, by simp⟩

theorem puts (h : Over w paths t) {more : List (String × String)} (hputs : Puts t more t')
    (hmore : ∀ file ∈ more, file.1 ∈ paths) : Over w paths t' := by
  obtain ⟨files, hfiles, hpaths⟩ := h
  refine ⟨files ++ more, hfiles.append hputs, fun file hfile => ?_⟩
  rcases List.mem_append.1 hfile with hfile | hfile
  · exact hpaths file hfile
  · exact hmore file hfile

theorem probing (h : Over w paths t) (hw : Probing w.setting g.tempStem w.files)
    (hclear : ∀ path ∈ paths, g.Clear w path) : Probing w.setting g.tempStem t := by
  obtain ⟨files, hfiles, hpaths⟩ := h
  refine ⟨hw.steady, fun n hn => ?_⟩
  refine ⟨fun l hl => hfiles.isDirectory ((hw.spare n hn).parents l hl), fun l hl => ?_⟩
  rcases hfiles.mem_keys hl with hl | ⟨file, hfile, hmark⟩
  · exact (hw.spare n hn).free l hl
  · exact hclear file.1 (hpaths file hfile) n hn l hmark

theorem sameAt (h : Over w paths t) (hapart : ∀ path ∈ paths, g.Apart w names path)
    {source : String} (hsource : source ∈ g.readPaths names) : w.files.SameAt t source := by
  obtain ⟨files, hfiles, hpaths⟩ := h
  intro l hl
  exact hfiles.get?_of_directory fun file hfile =>
    (hapart file.1 (hpaths file hfile)).sources source hsource l hl

theorem sameSources (h : Over w paths t) (hapart : ∀ path ∈ paths, g.Apart w names path)
    {name : String} (hname : name ∈ names) : g.SameSources name w.files t := by
  have hsource : ∀ path ∈ g.sourcePaths name, w.files.SameAt t path := fun path hpath =>
    h.sameAt hapart (List.mem_cons_of_mem _ (List.mem_flatMap.2 ⟨name, hname, hpath⟩))
  refine ⟨hsource _ List.mem_cons_self, fun path hpath => hsource path ?_, ?_⟩
  · rw [sourcePaths, hpath]
    exact List.mem_cons_of_mem _ (List.mem_singleton_self path)
  · obtain ⟨files, hfiles, hpaths⟩ := id h
    exact HeaderSearch.candidates_congr hfiles (h.sameAt hapart List.mem_cons_self)
      fun file hfile => (hapart file.1 (hpaths file hfile)).headers

end Over

section Runs

variable {w v v' u : Workspace} {paths names : List String} {t t' : FileTree}
  (hw : Probing w.setting g.tempStem w.files) (hclear : ∀ path ∈ paths, g.Clear w path)

include hw hclear

theorem ready_prepare (ht : Over w paths t) (hv : Ready w.setting t v) (name : String) :
    Ready w.setting t ((g.prepare name).run.run v).2 :=
  (g.agree_prepare (ht.probing hw hclear) (ht.probing hw hclear) (.refl g name t)).left v hv

theorem exists_puts_of_generateClass {name : String} (hname : g.outputPaths name ⊆ paths)
    (ht : Over w paths t) (hv : Ready w.setting t v) {outputs : Table String String}
    (h : (g.generateClass name).run.run v = (.ok outputs, v')) :
    ∃ t', Puts t (g.placed outputs) t' ∧ Ready w.setting t' v' ∧ Over w paths t' := by
  obtain ⟨lines, v₁, hprepare, hputs, hcompiler, hdir, hcount⟩ := g.puts_of_generateClass h
  have hready := ready_prepare hw hclear ht hv name
  rw [hprepare] at hready
  rw [hready.files] at hputs
  refine ⟨v'.files, hputs, ⟨rfl, ?_, ?_, ?_⟩, ht.puts hputs fun file hfile =>
    hname (g.mem_outputPaths hprepare file hfile)⟩
  · rw [hcompiler, hready.compiler]
  · rw [hdir, hready.workingDir]
  · rw [hcount]
    exact hready.tempCount

theorem exists_puts_of_mapM {some : List String} (hsome : some.flatMap g.outputPaths ⊆ paths)
    (ht : Over w paths t) (hv : Ready w.setting t v) {outs : List (Table String String)}
    (h : (some.mapM g.generateClass).run.run v = (.ok outs, v')) :
    ∃ t', Puts t (outs.flatMap g.placed) t' ∧ Ready w.setting t' v' ∧ Over w paths t' := by
  induction some generalizing t v outs with
  | nil =>
    cases h
    exact ⟨t, .nil, hv, ht⟩
  | cons name rest ih =>
    rw [List.flatMap_cons] at hsome
    obtain ⟨hname, hrest⟩ := List.append_subset.1 hsome
    rw [List.mapM_cons] at h
    obtain ⟨outputs, v₁, hclass, h⟩ := Session.run_bind_eq_ok.1 h
    obtain ⟨outs, v₂, hothers, h⟩ := Session.run_bind_eq_ok.1 h
    cases h
    obtain ⟨t₁, hputs, hv₁, ht₁⟩ := exists_puts_of_generateClass hw hclear hname ht hv hclass
    obtain ⟨t₂, hputs', hv₂, ht₂⟩ := ih hrest ht₁ hv₁ hothers
    exact ⟨t₂, hputs.append hputs', hv₂, ht₂⟩

variable (hapart : ∀ path ∈ paths, g.Apart w names path)

include hapart

theorem agree_prepare_over (ht : Over w paths t) (ht' : Over w paths t') {name : String}
    (hname : name ∈ names) : Agree w.setting t t' (g.prepare name) (g.prepare name) :=
  g.agree_prepare (ht.probing hw hclear) (ht'.probing hw hclear)
    ((ht.sameSources hapart hname).symm.trans (ht'.sameSources hapart hname))

theorem generateClass_again {name : String} (hname : name ∈ names) (ht : Over w paths t)
    (hv : Ready w.setting t v) {outputs : Table String String}
    (h : (g.generateClass name).run.run v = (.ok outputs, v')) (ht' : Over w paths t')
    (hu : Ready w.setting t' u) (hwritten : ∀ file ∈ g.placed outputs, t'.Written file.1) :
    (∃ u', (g.generateClass name).run.run u = (.error .nameTooLong, u')) ∨
      ∃ u', (g.generateClass name).run.run u = (.ok outputs, u') := by
  obtain ⟨lines, v₁, hprepare, -⟩ := g.puts_of_generateClass h
  -- the outputs are made from the same sources, and their places can be written again
  have hagree := agree_prepare_over hw hclear hapart ht ht' hname
  have houtcome := hagree.outcome v u hv hu
  have hready := hagree.right u hu
  rw [hprepare] at houtcome
  rcases hrun : (g.prepare name).run.run u with ⟨r, u₁⟩
  rw [hrun] at houtcome hready
  rcases houtcome with houtcome | houtcome | houtcome
  · right
    rw [← hready.files] at hwritten
    obtain ⟨t'', hputs⟩ := exists_puts hwritten
    cases houtcome
    exact ⟨_, g.run_generateClass hrun hputs⟩
  · cases houtcome
  · left
    cases houtcome
    exact ⟨u₁, g.generateClass_of_fault hrun⟩

theorem mapM_again {some : List String} (hsome : some ⊆ names)
    (hpaths : some.flatMap g.outputPaths ⊆ paths) (ht : Over w paths t)
    (hv : Ready w.setting t v) {outs : List (Table String String)}
    (h : (some.mapM g.generateClass).run.run v = (.ok outs, v')) (ht' : Over w paths t')
    (hu : Ready w.setting t' u)
    (hwritten : ∀ file ∈ outs.flatMap g.placed, t'.Written file.1) :
    (∃ u', (some.mapM g.generateClass).run.run u = (.error .nameTooLong, u')) ∨
      ∃ u', (some.mapM g.generateClass).run.run u = (.ok outs, u') := by
  induction some generalizing t t' v u outs with
  | nil =>
    cases h
    exact .inr ⟨u, rfl⟩
  | cons name rest ih =>
    obtain ⟨hname, hrest⟩ := List.cons_subset.1 hsome
    rw [List.flatMap_cons] at hpaths
    obtain ⟨hfirst, hothers⟩ := List.append_subset.1 hpaths
    rw [List.mapM_cons] at h ⊢
    obtain ⟨outputs, v₁, hclass, h⟩ := Session.run_bind_eq_ok.1 h
    obtain ⟨outs, v₂, hmap, h⟩ := Session.run_bind_eq_ok.1 h
    cases h
    rw [List.flatMap_cons] at hwritten
    obtain ⟨t₁, -, hv₁, ht₁⟩ := exists_puts_of_generateClass hw hclear hfirst ht hv hclass
    rcases generateClass_again hw hclear hapart hname ht hv hclass ht' hu fun file hfile =>
      hwritten file (List.mem_append_left _ hfile) with ⟨u₁, hrun⟩ | ⟨u₁, hrun⟩
    · exact .inl ⟨u₁, Session.run_bind_of_error hrun⟩
    · -- the files of the other classes are still there to be written over
      obtain ⟨t₂, hputs, hu₁, ht₂⟩ := exists_puts_of_generateClass hw hclear hfirst ht' hu hrun
      have hstill : ∀ file ∈ outs.flatMap g.placed, t₂.Written file.1 := fun file hfile =>
        hputs.written (.inl (hwritten file (List.mem_append_right _ hfile)))
      rw [Session.run_bind_of_ok hrun]
      rcases ih hrest hothers ht₁ hv₁ hmap ht₂ hu₁ hstill with ⟨u₂, hrun'⟩ | ⟨u₂, hrun'⟩
      · exact .inl ⟨u₂, Session.run_bind_of_error hrun'⟩
      · exact .inr ⟨u₂, Session.run_bind_of_ok hrun'⟩

end Runs

/-- How a run goes on after some classes: there are no more, or the next one fails before it writes
anything. -/
inductive Stops (g : Generator) (w : Workspace) : List String → Except Fault Unit → Prop
  | done : Stops g w [] (.ok ())
  | fault {name : String} {rest : List String} {f : Fault} :
      ((g.prepare name).run.run w).1 = .error f → Stops g w (name :: rest) (.error f)

def generateSome (g : Generator) (names : List String) : Session (List (Table String String)) := do
  Session.print title
  names.mapM g.generateClass

def generateEach (g : Generator) (names : List String) : Session Unit :=
  names.forM fun name => do
    let _ ← g.generateClass name

theorem generateEach_cons (name : String) (rest : List String) :
    g.generateEach (name :: rest) = (do
      let _ ← g.generateClass name
      g.generateEach rest) := by
  change (do let _ ← g.generateClass name : Session Unit) >>= (fun _ => g.generateEach rest) = _
  simp

theorem generateEach_append (some rest : List String) :
    g.generateEach (some ++ rest) = (do
      let _ ← some.mapM g.generateClass
      g.generateEach rest) := by
  induction some with
  | nil => simp
  | cons name some ih => simp [generateEach_cons, List.mapM_cons, ih]

theorem run_generateAll (g : Generator) (w : Workspace) : g.generateAll.run.run w =
    (g.generateEach g.classes.keys).run.run { w with printed := w.printed ++ [title] } := rfl

section Stops

variable {w v u : Workspace} {paths names rest : List String} {t t' : FileTree}
  {r : Except Fault Unit} (hw : Probing w.setting g.tempStem w.files)
  (hclear : ∀ path ∈ paths, g.Clear w path)

include hw hclear

theorem Stops.exists_run (h : g.Stops v rest r) (ht : Over w paths t) (hv : Ready w.setting t v) :
    ∃ v', (g.generateEach rest).run.run v = (r, v') ∧ Ready w.setting t v' := by
  cases h with
  | done => exact ⟨v, rfl, hv⟩
  | @fault name rest f hfault =>
    refine ⟨_, ?_, ready_prepare hw hclear ht hv name⟩
    rw [generateEach_cons]
    exact Session.run_bind_of_error (g.generateClass_of_fault (Session.run_eq hfault))

theorem Stops.again (hapart : ∀ path ∈ paths, g.Apart w names path) (hnext : rest.take 1 ⊆ names)
    (h : g.Stops v rest r) (hr : r ≠ .error .nameTooLong) (ht : Over w paths t)
    (hv : Ready w.setting t v) (ht' : Over w paths t') (hu : Ready w.setting t' u) :
    g.Stops u rest r ∨ g.Stops u rest (.error .nameTooLong) := by
  cases h with
  | done => exact .inl .done
  | @fault name rest f hfault =>
    have hagree := agree_prepare_over hw hclear hapart ht ht' (hnext List.mem_cons_self)
    have houtcome := hagree.outcome v u hv hu
    rw [hfault] at houtcome
    rcases houtcome with houtcome | houtcome | houtcome
    · exact .inl (.fault houtcome.symm)
    · cases houtcome
      exact absurd rfl hr
    · exact .inr (.fault houtcome)

end Stops

/-- After a run that ends with a class that fails, or with the last class, the files of the classes
before lie over the tree and no temporary directory is left.  If they lie apart from what is read,
a second run ends in the same way and changes nothing. -/
theorem generateAll_leaves {w v : Workspace} {before rest : List String}
    {outs : List (Table String String)} {r : Except Fault Unit}
    (hkeys : g.classes.keys = before ++ rest)
    (hbefore : (g.generateSome before).run.run w = (.ok outs, v))
    (hstops : g.Stops v rest r) (hw : Probing w.setting g.tempStem w.files)
    (hclear : ∀ path ∈ before.flatMap g.outputPaths, g.Clear w path) :
    ∃ w₁, g.generateAll.run.run w = (r, w₁) ∧
      (∀ here, w₁.files.get? here = overlay w.files (outs.flatMap g.placed) here) ∧
      (∀ n, w.tempCount ≤ n → w₁.files.pathExists (tempPath g.tempStem n) = false) ∧
      ((∀ path ∈ before.flatMap g.outputPaths, g.Apart w (before ++ rest.take 1) path) →
        r ≠ .error .nameTooLong → ∀ r' w₂, g.generateAll.run.run w₁ = (r', w₂) →
          r' ≠ .error .nameTooLong →
            r' = r ∧ ∀ here, w₂.files.get? here = w₁.files.get? here) := by
  obtain ⟨⟨⟩, w₀, hprint, hmap⟩ := Session.run_bind_eq_ok.1 hbefore
  cases hprint
  have hw₀ : Ready w.setting w.files { w with printed := w.printed ++ [title] } :=
    ⟨rfl, rfl, rfl, Nat.le_refl _⟩
  obtain ⟨t₁, hputs, hv, ht₁⟩ :=
    exists_puts_of_mapM hw hclear (List.Subset.refl _) .refl hw₀ hmap
  obtain ⟨w₁, hrun, hw₁⟩ := hstops.exists_run hw hclear ht₁ hv
  refine ⟨w₁, ?_, ?_, ?_, ?_⟩
  · rw [run_generateAll, hkeys, generateEach_append, Session.run_bind_of_ok hmap, hrun]
  · intro here
    rw [hw₁.files, hputs.get?_eq]
  · intro n hn
    rw [hw₁.files]
    exact ((ht₁.probing hw hclear).spare n hn).pathExists_eq_false
  · -- the second run starts where its outputs have been written, and makes the same ones
    intro hapart hr r' w₂ hrun' hr'
    have hu : Ready w.setting t₁ { w₁ with printed := w₁.printed ++ [title] } :=
      ⟨hw₁.files, hw₁.compiler, hw₁.workingDir, hw₁.tempCount⟩
    have hwritten : ∀ file ∈ outs.flatMap g.placed, t₁.Written file.1 := fun file hfile =>
      hputs.written (.inr (List.mem_map_of_mem hfile))
    rw [run_generateAll, hkeys, generateEach_append] at hrun'
    rcases mapM_again hw hclear hapart (List.subset_append_left _ _) (List.Subset.refl _) .refl hw₀
      hmap ht₁ hu hwritten with ⟨u, hagain⟩ | ⟨u, hagain⟩
    · rw [Session.run_bind_of_error hagain] at hrun'
      cases hrun'
      exact absurd rfl hr'
    · rw [Session.run_bind_of_ok hagain] at hrun'
      obtain ⟨t₂, hputs', hu', ht₂⟩ :=
        exists_puts_of_mapM hw hclear (List.Subset.refl _) ht₁ hu hagain
      rcases hstops.again hw hclear hapart (List.subset_append_right _ _) hr ht₁ hv ht₂ hu' with
        hstops' | hstops'
      · obtain ⟨u₂, hrest, hu₂⟩ := hstops'.exists_run hw hclear ht₂ hu'
        rw [hrest] at hrun'
        cases hrun'
        refine ⟨rfl, fun here => ?_⟩
        rw [hu₂.files, hw₁.files, hputs.get?_of_again hputs']
      · obtain ⟨u₂, hrest, -⟩ := hstops'.exists_run hw hclear ht₂ hu'
        rw [hrest] at hrun'
        cases hrun'
        exact absurd rfl hr'

def emptyClass (name : String) : Json :=
  .obj [("kind", .str "CXXRecordDecl"), ("name", .str name), ("tagUsed", .str "class"),
    ("completeDefinition", .bool true), ("inner", .arr [])]

def emptyClassRule (name : String) : CompilerRule :=
  ⟨none, some name, none, .exited 0 (emptyClass name).render⟩

def withHeaders (names : List String) (rules : List CompilerRule) : Workspace :=
  .ofFiles (names.foldl (fun t name => (t.putSource name (some (.text ""))).1) .bare)
    (.scripted rules) []

def missingHeader (name header root : String) : Fault :=
  .diagnosed ⟨.missingSource, "Missing " ++ name ++ " header: " ++ Path.join root header,
    [("source_root", root)]⟩

theorem probing_withHeaders {names : List String} {rules : List CompilerRule} {stem : String}
    (hstem : '/' ∉ stem.toList)
    (hroot : (withHeaders names rules).files.isDirectory [tempRoot] = true)
    (hempty : ∀ l ∈ (withHeaders names rules).files.keys,
      l.head? = some tempRoot → l = [tempRoot]) :
    Probing (withHeaders names rules).setting stem (withHeaders names rules).files :=
  ⟨Compiler.steady_scripted rules stem, fun n _ => spare_of_empty hstem hroot hempty n⟩

def twoClasses : Generator := ((Generator.new "src" "out" []).bind "A").bind "B"

def firstHeader : Workspace := withHeaders ["A.h"] [emptyClassRule "A"]

theorem exists_generateSome_firstHeader :
    ∃ outs v, (twoClasses.generateSome ["A"]).run.run firstHeader = (.ok outs, v) ∧
      (outs.flatMap twoClasses.placed).map Prod.fst = twoClasses.outputPaths "A" ∧
      twoClasses.Stops v ["B"] (.error (missingHeader "B" "B.h" "src")) := by
  have hrun : (((twoClasses.generateSome ["A"]).run.run firstHeader).1.toOption.map fun outs =>
        (outs.flatMap twoClasses.placed).map Prod.fst) = some (twoClasses.outputPaths "A") ∧
      ((twoClasses.prepare "B").run.run
          ((twoClasses.generateSome ["A"]).run.run firstHeader).2).1 =
        .error (missingHeader "B" "B.h" "src") := by
    decide +kernel
  obtain ⟨hfiles, hfault⟩ := hrun
  rcases hok : ((twoClasses.generateSome ["A"]).run.run firstHeader).1 with fault | outs
  · rw [hok] at hfiles
    cases hfiles
  · rw [hok] at hfiles
    exact ⟨outs, _, Session.run_eq hok, Option.some.inj hfiles, .fault hfault⟩

theorem generateAll_leaves_twoClasses : ∃ (outs : List (Table String String)) (w₁ : Workspace),
    twoClasses.generateAll.run.run firstHeader =
        (.error (missingHeader "B" "B.h" "src"), w₁) ∧
      (∀ here, w₁.files.get? here =
        overlay firstHeader.files (outs.flatMap twoClasses.placed) here) ∧
      (outs.flatMap twoClasses.placed).map Prod.fst = twoClasses.outputPaths "A" ∧
      (∀ n, w₁.files.pathExists (tempPath "bindgen-" n) = false) ∧
      ∀ r' w₂, twoClasses.generateAll.run.run w₁ = (r', w₂) → r' ≠ .error .nameTooLong →
        r' = .error (missingHeader "B" "B.h" "src") ∧
          ∀ here, w₂.files.get? here = w₁.files.get? here := by
  obtain ⟨outs, v, hbefore, hpaths, hstops⟩ := exists_generateSome_firstHeader
  have hkeys : twoClasses.classes.keys = ["A"] ++ ["B"] := by decide
  have hmarks : ∀ path ∈ ["A"].flatMap twoClasses.outputPaths, ∀ l ∈ marks path,
      l.head? ≠ some tempRoot := by decide +kernel
  have hsources : ∀ path ∈ ["A"].flatMap twoClasses.outputPaths,
      ∀ source ∈ twoClasses.readPaths ["A", "B"], ∀ l ∈ sights source, l ∈ marks path →
        firstHeader.files.isDirectory l = true := by decide +kernel
  have houtside : ∀ path ∈ ["A"].flatMap twoClasses.outputPaths,
      ¬ reach (start "src") (pathNames "src") <+: target path := by decide +kernel
  obtain ⟨w₁, hrun, hleft, htemp, hagain⟩ := generateAll_leaves hkeys hbefore hstops
    (probing_withHeaders (by decide) (by decide +kernel) (by decide +kernel))
    fun path hpath => clear_of_outside _ (by decide) (hmarks path hpath)
  refine ⟨outs, w₁, hrun, hleft, hpaths, fun n => htemp n (Nat.zero_le n), ?_⟩
  refine hagain (fun path hpath => ⟨hsources path hpath, ?_⟩) (by decide)
  exact HeaderSearch.skips_of_outside (houtside path hpath)

def crossing : Generator :=
  (((Generator.new "src" "out" []).configure "A" fun config =>
    { config with implementation := none, apiOutput := "api.ts" }).configure "B" fun config =>
    { config with
      implementation := some "../out/generated/BBindings.cpp", apiOutput := "api.ts" }).bind "C"

def firstHeaders : Workspace :=
  withHeaders ["A.h", "B.h"] [emptyClassRule "A", emptyClassRule "B",
    ⟨none, some "B::", none, .crashed "killed"⟩]

/-- Outputs that are read as sources: the first run comes as far as `C`, which has no header, but
the second one ends with `B`, after the API class of `A` has been written over that of `B`. -/
theorem generateAll_again_changes :
    Probing firstHeaders.setting crossing.tempStem firstHeaders.files ∧ ∃ w₁ w₂,
      crossing.generateAll.run.run firstHeaders = (.error (missingHeader "C" "C.h" "src"), w₁) ∧
      crossing.generateAll.run.run w₁ = (.error (.crash "killed"), w₂) ∧
      w₂.files.readText? "out/api.ts" ≠ w₁.files.readText? "out/api.ts" := by
  have hruns : (crossing.generateAll.run.run firstHeaders).1 =
        .error (missingHeader "C" "C.h" "src") ∧
      (crossing.generateAll.run.run (crossing.generateAll.run.run firstHeaders).2).1 =
        .error (.crash "killed") ∧
      (crossing.generateAll.run.run
          (crossing.generateAll.run.run firstHeaders).2).2.files.readText? "out/api.ts" ≠
        (crossing.generateAll.run.run firstHeaders).2.files.readText? "out/api.ts" := by
    decide +kernel
  obtain ⟨hfirst, hsecond, htext⟩ := hruns
  exact ⟨probing_withHeaders (by decide) (by decide +kernel) (by decide +kernel),
    _, _, Session.run_eq hfirst, Session.run_eq hsecond, htext⟩

end Generator

end WasmBindings
