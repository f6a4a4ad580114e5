import WasmBindings.FrontEnd
import WasmBindings.Proofs.Text.Numeral
import WasmBindings.Proofs.Workspace.FileTree

namespace WasmBindings

namespace Text

theorem exists_splitAt_append (sep : Char) (s : List Char) :
    ∃ pieces last, ∀ t, sep ∉ t → splitAt sep (s ++ t) = pieces ++ [last ++ t] := by
  induction s with
  | nil => exact ⟨[], [], fun t ht => splitAt_of_not_mem ht⟩
  | cons c r ih =>
    obtain ⟨pieces, last, hsplit⟩ := ih
    by_cases hc : c = sep
    · refine ⟨[] :: pieces, last, fun t ht => ?_⟩
      rw [List.cons_append, splitAt, if_pos hc, hsplit t ht]
      rfl
    · cases pieces with
      | nil =>
        refine ⟨[], c :: last, fun t ht => ?_⟩
        rw [List.cons_append, splitAt, if_neg hc, hsplit t ht]
        rfl
      | cons p ps =>
        refine ⟨(c :: p) :: ps, last, fun t ht => ?_⟩
        rw [List.cons_append, splitAt, if_neg hc, hsplit t ht]
        rfl

end Text

def EndsInDigit (s : List Char) : Prop := ∃ d, s.getLast? = some d ∧ d.isDigit = true

theorem endsInDigit_append_toDigits (s : List Char) (n : Nat) :
    EndsInDigit (s ++ Nat.toDigits 10 n) := by
  have hlast := List.getLast?_eq_some_getLast (Nat.toDigits_ne_nil (n := n) (b := 10))
  refine ⟨_, by rw [List.getLast?_append, hlast]; rfl, ?_⟩
  exact Nat.isDigit_of_mem_toDigits (by decide) (by decide) (List.getLast_mem _)

theorem EndsInDigit.ne {s t : List Char} (h : EndsInDigit s) {d : Char} (ht : t.getLast? = some d)
    (hd : d.isDigit = false) : s ≠ t := by
  rintro rfl
  obtain ⟨c, hc, hdigit⟩ := h
  rw [hc] at ht
  cases ht
  rw [hd] at hdigit
  cases hdigit

namespace Path

theorem baseChars_append {b : List Char} (h : '/' ∉ b) (s : List Char) :
    baseChars (s ++ '/' :: b) = b := by
  have hb : ∀ c ∈ b.reverse, (c != '/') = true := by
    intro c hc
    rw [List.mem_reverse] at hc
    simp only [bne_iff_ne, ne_eq]
    rintro rfl
    exact h hc
  rw [baseChars, List.reverse_append, List.reverse_cons, List.append_assoc,
    List.takeWhile_append_of_pos hb]
  simp

theorem dirChars_append {b : List Char} (h : '/' ∉ b) {s : List Char} (hs : EndsInDigit s) :
    dirChars (s ++ '/' :: b) = s := by
  obtain ⟨d, hlast, hdigit⟩ := hs
  obtain ⟨u, rfl⟩ := List.getLast?_eq_some_iff.1 hlast
  have hd : (d == '/') = false := by
    rw [beq_eq_false_iff_ne]
    rintro rfl
    exact absurd hdigit (by decide)
  have hhead : (u ++ [d] ++ '/' :: b).take
      ((u ++ [d] ++ '/' :: b).length - (baseChars (u ++ [d] ++ '/' :: b)).length) =
        u ++ [d] ++ ['/'] := by
    rw [baseChars_append h, List.append_cons, List.length_append, Nat.add_sub_cancel,
      List.take_left]
  rw [dirChars, hhead, if_neg (by simp [hd])]
  simp [hd]

theorem components_append (s t : List Char) :
    components (String.ofList (s ++ '/' :: t)) =
      components (String.ofList s) ++ components (String.ofList t) := by
  simp [components, Text.splitAt_append_cons]

end Path

namespace Workspace

open FileTree

def tempPath (stem : String) (n : Nat) : String := Path.below tempRoot (stem ++ toString n)

def probePath (stem : String) (n : Nat) : String := Path.join (tempPath stem n) "probe.cpp"

def tempPlace (stem : String) (n : Nat) : Location := reach [] (Path.components (tempPath stem n))

theorem toList_tempPath (stem : String) (n : Nat) : (tempPath stem n).toList =
    "tmp/".toList ++ stem.toList ++ Nat.toDigits 10 n := by
  rw [tempPath, Path.below, tempRoot, Nat.toString_eq_ofList_toDigits]
  simp

theorem endsInDigit_tempPath (stem : String) (n : Nat) : EndsInDigit (tempPath stem n).toList := by
  rw [toList_tempPath]
  exact endsInDigit_append_toDigits _ n

theorem start_tempPath (stem : String) (n : Nat) : start (tempPath stem n) = [] := by
  rw [start, Path.isAbsolute, toList_tempPath]
  rfl

theorem getLast?_tempPath (stem : String) (n : Nat) :
    ((tempPath stem n).toList.getLast? == some '/') = false := by
  obtain ⟨d, hlast, hdigit⟩ := endsInDigit_tempPath stem n
  rw [hlast, beq_eq_false_iff_ne]
  rintro ⟨⟩
  exact absurd hdigit (by decide)

theorem tempPath_ne_empty (stem : String) (n : Nat) : (tempPath stem n == "") = false := by
  rw [beq_eq_false_iff_ne]
  intro h
  have hlist := toList_tempPath stem n
  rw [h] at hlist
  cases hlist

theorem toList_probePath (stem : String) (n : Nat) :
    (probePath stem n).toList = (tempPath stem n).toList ++ '/' :: "probe.cpp".toList := by
  rw [probePath, Path.join, if_neg (by decide), tempPath_ne_empty, getLast?_tempPath]
  simp

theorem probePath_eq (stem : String) (n : Nat) :
    probePath stem n = "tmp/" ++ stem ++ toString n ++ "/probe.cpp" := by
  apply String.toList_injective
  rw [toList_probePath, toList_tempPath, Nat.toString_eq_ofList_toDigits]
  simp

theorem probePath_ne_empty (stem : String) (n : Nat) : (probePath stem n == "") = false := by
  rw [beq_eq_false_iff_ne]
  intro h
  have hlist := toList_probePath stem n
  rw [h, toList_tempPath] at hlist
  cases hlist

theorem start_probePath (stem : String) (n : Nat) : start (probePath stem n) = [] := by
  rw [start, Path.isAbsolute, toList_probePath, toList_tempPath]
  rfl

theorem baseName_probePath (stem : String) (n : Nat) :
    Path.baseName (probePath stem n) = "probe.cpp" := by
  rw [Path.baseName, toList_probePath, Path.baseChars_append (by decide)]
  rfl

theorem dirName_probePath (stem : String) (n : Nat) :
    Path.dirName (probePath stem n) = tempPath stem n := by
  rw [Path.dirName, toList_probePath, Path.dirChars_append (by decide) (endsInDigit_tempPath stem n),
    String.ofList_toList]

theorem pathNames_tempPath (stem : String) (n : Nat) :
    pathNames (tempPath stem n) = Path.components (tempPath stem n) := by
  rw [pathNames, endsInSlash, getLast?_tempPath]
  simp

theorem pathNames_probePath (stem : String) (n : Nat) :
    pathNames (probePath stem n) = Path.components (tempPath stem n) ++ ["probe.cpp"] := by
  have hslash : endsInSlash (probePath stem n) = false := by
    rw [endsInSlash, toList_probePath, List.getLast?_append]
    rfl
  have hpath : probePath stem n =
      String.ofList ((tempPath stem n).toList ++ '/' :: "probe.cpp".toList) := by
    rw [← toList_probePath, String.ofList_toList]
  rw [pathNames, hslash, hpath, Path.components_append, String.ofList_toList,
    if_neg Bool.false_ne_true, List.append_nil]
  rfl

theorem exists_components_tempPath (stem : String) : ∃ (parents : List String) (head : List Char),
    ∀ n, Path.components (tempPath stem n) =
      parents ++ [String.ofList (head ++ Nat.toDigits 10 n)] := by
  obtain ⟨pieces, last, hsplit⟩ := Text.exists_splitAt_append '/' ("tmp/".toList ++ stem.toList)
  refine ⟨(pieces.filter fun c => !c.isEmpty).map String.ofList, last, fun n => ?_⟩
  rw [Path.components, toList_tempPath, hsplit _ (Text.not_mem_toDigits (by decide) n)]
  simp [Nat.toDigits_ne_nil]

def tempParents (stem : String) (n : Nat) : List String :=
  (Path.components (tempPath stem n)).dropLast

def tempName (stem : String) (n : Nat) : String :=
  (Path.components (tempPath stem n)).getLastD ""

theorem components_tempPath (stem : String) (n : Nat) :
    Path.components (tempPath stem n) = tempParents stem n ++ [tempName stem n] := by
  obtain ⟨parents, head, hnames⟩ := exists_components_tempPath stem
  rw [tempParents, tempName, hnames]
  simp

theorem endsInDigit_tempName (stem : String) (n : Nat) : EndsInDigit (tempName stem n).toList := by
  obtain ⟨parents, head, hnames⟩ := exists_components_tempPath stem
  rw [tempName, hnames, List.getLastD_concat, String.toList_ofList]
  exact endsInDigit_append_toDigits head n

theorem tempName_ne (stem : String) (n : Nat) {s : String} {d : Char}
    (hlast : s.toList.getLast? = some d) (hd : d.isDigit = false) : tempName stem n ≠ s :=
  fun h => (endsInDigit_tempName stem n).ne hlast hd (congrArg String.toList h)

theorem holdsNull_tempName (stem : String) (m n : Nat) :
    Path.holdsNull (tempName stem m) = Path.holdsNull (tempName stem n) := by
  obtain ⟨parents, head, hnames⟩ := exists_components_tempPath stem
  have hname : ∀ n, Path.holdsNull (tempName stem n) = head.contains (Char.ofNat 0) := by
    intro n
    rw [Path.holdsNull, tempName, hnames, List.getLastD_concat, String.toList_ofList,
      Bool.eq_iff_iff, List.contains_iff_mem, List.contains_iff_mem, List.mem_append]
    exact or_iff_left (Text.not_mem_toDigits (by decide) n)
  rw [hname, hname]

theorem step_tempName (here : Location) (stem : String) (n : Nat) :
    step here (tempName stem n) = here ++ [tempName stem n] := by
  have hdot : (tempName stem n == ".") = false :=
    beq_eq_false_iff_ne.2 (tempName_ne stem n (d := '.') rfl rfl)
  have hdots : (tempName stem n == "..") = false :=
    beq_eq_false_iff_ne.2 (tempName_ne stem n (d := '.') rfl rfl)
  rw [step, hdot, hdots]
  rfl

theorem tempPlace_eq (stem : String) (n : Nat) :
    tempPlace stem n = reach [] (tempParents stem n) ++ [tempName stem n] := by
  rw [tempPlace, components_tempPath, reach_append]
  exact step_tempName _ stem n

theorem isGiven_concat (here : Location) {n : String} (hdots : n ≠ "..") (hroot : n ≠ rootName) :
    isGiven (here ++ [n]) = false := by
  rw [isGiven, Bool.or_eq_false_iff]
  constructor
  · simp [hdots]
  · rw [beq_eq_false_iff_ne]
    intro h
    have hlast := congrArg List.getLast? h
    rw [List.getLast?_concat] at hlast
    exact hroot (Option.some.inj hlast)

theorem isGiven_tempPlace (stem : String) (n : Nat) : isGiven (tempPlace stem n) = false := by
  rw [tempPlace_eq]
  exact isGiven_concat _ (tempName_ne stem n (d := '.') rfl rfl)
    (tempName_ne stem n (d := '/') rfl rfl)

/-- The temporary directory with the number can be made: its parents are there, and nothing is in
its place. -/
structure Spare (t : FileTree) (stem : String) (n : Nat) : Prop where
  parents : ∀ l ∈ trail [] (tempParents stem n), t.isDirectory l = true
  free : ∀ l ∈ t.keys, ¬ tempPlace stem n <+: l

def withDir (t : FileTree) (stem : String) (n : Nat) : FileTree :=
  t ++ [(tempPlace stem n, .directory)]

def withProbe (t : FileTree) (stem : String) (n : Nat) (text : String) : FileTree :=
  withDir t stem n ++ [(tempPlace stem n ++ ["probe.cpp"], .file (.text text))]

theorem components_tempPath_of_not_mem {stem : String} (h : '/' ∉ stem.toList) (n : Nat) :
    Path.components (tempPath stem n) = [tempRoot, stem ++ toString n] := by
  have hname : '/' ∉ stem.toList ++ Nat.toDigits 10 n := by
    simp [h, Text.not_mem_toDigits]
  rw [Path.components, toList_tempPath, Nat.toString_eq_ofList_toDigits]
  change ((Text.splitAt '/' (tempRoot.toList ++ '/' :: (stem.toList ++ _))).filter _).map _ = _
  rw [Text.splitAt_append_cons, Text.splitAt_of_not_mem (by decide), Text.splitAt_of_not_mem hname]
  simp [tempRoot, Nat.toDigits_ne_nil]

theorem head?_of_below_tempPlace {stem : String} (h : '/' ∉ stem.toList) {n : Nat} {l : Location}
    (hl : tempPlace stem n <+: l) : l.head? = some tempRoot ∧ l ≠ [tempRoot] := by
  rw [tempPlace_eq, tempParents, components_tempPath_of_not_mem h] at hl
  obtain ⟨names, rfl⟩ := hl
  exact ⟨rfl, by simp [reach, step, tempRoot]⟩

theorem spare_of_empty {t : FileTree} {stem : String} (hstem : '/' ∉ stem.toList)
    (hroot : t.isDirectory [tempRoot] = true)
    (hempty : ∀ l ∈ t.keys, l.head? = some tempRoot → l = [tempRoot]) (n : Nat) :
    Spare t stem n := by
  refine ⟨fun l hl => ?_, fun l hl hplace => ?_⟩
  · rw [tempParents, components_tempPath_of_not_mem hstem] at hl
    rw [List.mem_singleton.1 hl]
    exact hroot
  · obtain ⟨hhead, hne⟩ := head?_of_below_tempPlace hstem hplace
    exact hne (hempty l hl hhead)

namespace Spare

variable {t : FileTree} {stem : String} {n : Nat}

theorem get?_eq_none (h : Spare t stem n) {l : Location} (hl : tempPlace stem n <+: l) :
    t.get? l = none := by
  rw [Option.eq_none_iff_forall_ne_some]
  intro node hnode
  exact h.free l (List.mem_map_of_mem (Table.mem_of_get? hnode)) hl

theorem isDirectory_eq_false (h : Spare t stem n) : t.isDirectory (tempPlace stem n) = false := by
  rw [FileTree.isDirectory, isGiven_tempPlace, h.get?_eq_none (List.prefix_refl _)]
  rfl

theorem pathExists_eq_false (h : Spare t stem n) : t.pathExists (tempPath stem n) = false := by
  have hparents : ∀ l ∈ [] :: trail [] (tempParents stem n), t.isDirectory l = true := by
    intro l hl
    rcases List.mem_cons.1 hl with rfl | hl
    · rfl
    · exact h.parents l hl
  have hdown : t.locateFrom [] (Path.components (tempPath stem n)) = none := by
    rw [components_tempPath, locateFrom_append hparents, locateFrom, step_tempName, ← tempPlace_eq,
      locateFrom, h.isDirectory_eq_false, h.get?_eq_none (List.prefix_refl _)]
    split <;> rfl
  rw [pathExists, locate, tempPath_ne_empty, start_tempPath, pathNames_tempPath, hdown]
  rfl

theorem makeNewDir (h : Spare t stem n) : t.makeNewDir (tempPath stem n) =
    match checkName (tempName stem n) with
    | .error f => (t, .error f)
    | .ok () => (withDir t stem n, .ok (tempPlace stem n)) := by
  have hplace : step (reach [] (tempParents stem n)) (tempName stem n) = tempPlace stem n := by
    rw [step_tempName, tempPlace_eq]
  have hdir := h.isDirectory_eq_false
  have hmake : t.makeDirs (tempPath stem n) =
      match checkName (tempName stem n) with
      | .error f => (t, .error f)
      | .ok () => (withDir t stem n, .ok (tempPlace stem n)) := by
    rw [makeDirs, start_tempPath, components_tempPath, makeFrom_append h.parents, makeFrom]
    rw [hplace, hdir, h.get?_eq_none (List.prefix_refl _)]
    cases checkName (tempName stem n) <;> rfl
  rw [FileTree.makeNewDir, hmake]
  cases checkName (tempName stem n) with
  | error f => rfl
  | ok =>
    dsimp only
    rw [hdir]
    rfl

theorem directories (h : Spare t stem n) :
    ∀ l ∈ [] :: trail [] (Path.components (tempPath stem n)),
      (withDir t stem n).isDirectory l = true := by
  intro l hl
  rw [components_tempPath, trail_append, List.mem_cons, List.mem_append] at hl
  rcases hl with rfl | hl | hl
  · rfl
  · exact isDirectory_append (h.parents l hl) _
  · rw [trail, trail, List.mem_singleton, step_tempName, ← tempPlace_eq] at hl
    rw [hl]
    exact isDirectory_concat t (h.get?_eq_none (List.prefix_refl _))

theorem isGiven_probe (stem : String) (n : Nat) :
    isGiven (tempPlace stem n ++ ["probe.cpp"]) = false :=
  isGiven_concat _ (by decide) (by decide)

theorem get?_withDir_probe (h : Spare t stem n) :
    (withDir t stem n).get? (tempPlace stem n ++ ["probe.cpp"]) = none := by
  rw [withDir, Table.get?_append, h.get?_eq_none (List.prefix_append _ _), Option.none_or,
    Table.get?_cons, if_neg (by simp)]
  rfl

theorem write_probe (h : Spare t stem n) (text : String) :
    (withDir t stem n).write (probePath stem n) (.text text) =
      (withProbe t stem n text, .ok ()) := by
  have hmake : (withDir t stem n).makeDirs (tempPath stem n) =
      (withDir t stem n, .ok (tempPlace stem n)) := by
    rw [makeDirs, start_tempPath, makeFrom_of_directories fun l hl =>
      h.directories l (List.mem_cons_of_mem _ hl)]
    rfl
  have hplace : (withDir t stem n).isDirectory (tempPlace stem n ++ ["probe.cpp"]) = false := by
    rw [FileTree.isDirectory, isGiven_probe, h.get?_withDir_probe]
    rfl
  have hstep : (if "probe.cpp" == "" then tempPlace stem n
      else step (tempPlace stem n) "probe.cpp") = tempPlace stem n ++ ["probe.cpp"] := rfl
  rw [write, probePath_ne_empty, if_neg Bool.false_ne_true, enter, dirName_probePath, hmake]
  dsimp only
  rw [baseName_probePath]
  rw [hstep, hplace, Table.insert_of_get?_eq_none h.get?_withDir_probe]
  rfl

theorem locateFrom_withProbe (h : Spare t stem n) (text : String) (more : List String) :
    (withProbe t stem n text).locateFrom [] (Path.components (tempPath stem n) ++ more) =
      (withProbe t stem n text).locateFrom (tempPlace stem n) more :=
  locateFrom_append (fun l hl => isDirectory_append (h.directories l hl) _) more

theorem isDirectory_withProbe (h : Spare t stem n) (text : String) :
    (withProbe t stem n text).isDirectory (tempPlace stem n) = true :=
  isDirectory_append (isDirectory_concat t (h.get?_eq_none (List.prefix_refl _))) _

theorem locate_tempPath (h : Spare t stem n) (text : String) :
    (withProbe t stem n text).locate (tempPath stem n) = some (tempPlace stem n) := by
  have hdown := h.locateFrom_withProbe text []
  rw [List.append_nil] at hdown
  rw [locate, tempPath_ne_empty, start_tempPath, pathNames_tempPath, hdown, locateFrom,
    h.isDirectory_withProbe]
  rfl

theorem readText?_probe (h : Spare t stem n) (text : String) :
    (withProbe t stem n text).readText? (probePath stem n) = some text := by
  have hget : (withProbe t stem n text).get? (tempPlace stem n ++ ["probe.cpp"]) =
      some (.file (.text text)) := by
    rw [withProbe, Table.get?_append, h.get?_withDir_probe, Option.none_or, Table.get?_cons,
      if_pos BEq.rfl]
  have hfile : (withProbe t stem n text).isDirectory (tempPlace stem n ++ ["probe.cpp"]) =
      false := by
    rw [FileTree.isDirectory, isGiven_probe, hget]
    rfl
  have hlocate : (withProbe t stem n text).locate (probePath stem n) =
      some (tempPlace stem n ++ ["probe.cpp"]) := by
    rw [locate, probePath_ne_empty, start_probePath, pathNames_probePath, h.locateFrom_withProbe,
      if_neg Bool.false_ne_true, locateFrom, if_pos (h.isDirectory_withProbe text)]
    change (withProbe t stem n text).locateFrom (tempPlace stem n ++ ["probe.cpp"]) [] = _
    rw [locateFrom, hfile, hget]
    rfl
  rw [readText?, hlocate, Option.bind_some, hget]
  rfl

theorem removeTree_withProbe (h : Spare t stem n) (text : String) :
    (withProbe t stem n text).removeTree (tempPlace stem n) = t := by
  have ht : t.filter (fun e => !(tempPlace stem n).isPrefixOf e.1) = t := by
    rw [List.filter_eq_self]
    intro e he
    rw [Bool.not_eq_true', Bool.eq_false_iff, ne_eq, List.isPrefixOf_iff_prefix]
    exact h.free e.1 (List.mem_map_of_mem he)
  rw [removeTree, withProbe, withDir, List.filter_append, List.filter_append, ht]
  simp

end Spare

end Workspace

end WasmBindings
