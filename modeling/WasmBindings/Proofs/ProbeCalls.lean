import WasmBindings.Enumeration.Resolver
import WasmBindings.Proofs.FrontEnd
import WasmBindings.Proofs.Resolution
import WasmBindings.Proofs.Workspace.Description

/-!
The calls of a resolver.  Headers, spellings and compilers are three searches inside one another,
and each of them stops for a reason of its own.  What is asked of the compilers is what the three
searches try, in this order, and nothing else.
-/

namespace WasmBindings

open FileTree Text Workspace

/-- The next `count` temporary directories can be made. -/
def Workspace.Room (w : Workspace) (stem : String) (count : Nat) : Prop :=
  ∀ i < count, Spare w.files stem (w.tempCount + i) ∧
    checkName (tempName stem (w.tempCount + i)) = .ok ()

/-- A header and a spelling, and the number of the temporary directory in which they are tried. -/
structure Probe where
  header : String
  type : String
  number : Nat

namespace EnumResolver

def probesFrom (n : Nat) (attempts : List (String × String)) : List Probe :=
  (attempts.zipIdx n).map fun a => ⟨a.1.1, a.1.2, a.2⟩

/-- The calls for a probe, one for each compiler: the declarations of the name are asked for, in a
source that includes the header and gives a variable the type. -/
def callsOf (r : EnumResolver) (simple : String) (p : Probe) : List CompilerCall :=
  r.frontEnd.compilers.map fun compiler =>
    { command := [compiler, "-std=" ++ r.frontEnd.standard, "-I", r.frontEnd.includeDir,
        "-fsyntax-only", "-Xclang", "-ast-dump-filter=" ++ simple, "-Xclang", "-ast-dump=json",
        "tmp/" ++ r.frontEnd.tempStem ++ toString p.number ++ "/probe.cpp"]
      source := some ("#include \"" ++ p.header ++ "\"\n"
        ++ p.type ++ " __bindgen_enum_probe = static_cast<" ++ p.type ++ ">(0);\n"
        ++ "int main() \x7b return static_cast<int>(__bindgen_enum_probe); \x7d\n") }

/-- What a probe comes to: no tree, a tree without the definition, or the definition. -/
def outcomeOf (r : EnumResolver) (k : Compiler) (qualified simple : String) (p : Probe) :
    Except Fault (Option EnumDef) :=
  match Outcome.first ((r.callsOf simple p).map fun call => r.frontEnd.answer (k call)) with
  | .error f => .error f
  | .ok none => .ok none
  | .ok (some tree) => Enumeration.parseExternal tree simple qualified

def tried (r : EnumResolver) (k : Compiler) (qualified simple : String) (probes : List Probe) :
    List Probe :=
  Outcome.upTo (fun p => Outcome.ends (r.outcomeOf k qualified simple p)) probes

def issuedBy (r : EnumResolver) (k : Compiler) (simple : String) (probes : List Probe) :
    List CompilerCall :=
  probes.flatMap fun p => r.frontEnd.issued k (r.callsOf simple p)

theorem callsOf_eq (r : EnumResolver) {simple : String} (hsimple : simple ≠ "") (p : Probe) :
    r.callsOf simple p = r.frontEnd.callsFor (probePath r.frontEnd.tempStem p.number)
      (some (probeText p.header p.type)) (some simple) r.frontEnd.compilers := by
  have hfilter : FrontEnd.filterArgs (some simple) =
      ["-Xclang", "-ast-dump-filter=" ++ simple] := by
    rw [FrontEnd.filterArgs, if_neg (by simpa using hsimple)]
  refine List.map_congr_left fun compiler _ => ?_
  rw [FrontEnd.command, hfilter, probePath_eq]
  rfl

theorem probesFrom_cons (n : Nat) (header type : String) (attempts : List (String × String)) :
    probesFrom n ((header, type) :: attempts) = ⟨header, type, n⟩ :: probesFrom (n + 1) attempts :=
  rfl

theorem tried_cons (r : EnumResolver) (k : Compiler) (qualified simple : String) (p : Probe)
    (probes : List Probe) : r.tried k qualified simple (p :: probes) =
      p :: if Outcome.ends (r.outcomeOf k qualified simple p) then []
        else r.tried k qualified simple probes :=
  Outcome.upTo_cons _ _ _

def after (r : EnumResolver) (w : Workspace) (simple : String) (probes : List Probe)
    (log : List LogRecord) : Workspace :=
  { w with
    tempCount := w.tempCount + probes.length
    calls := w.calls ++ r.issuedBy w.compiler simple probes
    log := log }

theorem after_nil (r : EnumResolver) (w : Workspace) (simple : String) (log : List LogRecord) :
    r.after w simple [] log = { w with log := log } := by
  rw [after, issuedBy, List.flatMap_nil, List.append_nil]
  rfl

theorem after_cons (r : EnumResolver) (w : Workspace) (simple : String) (p : Probe)
    (probes : List Probe) (log log' : List LogRecord) :
    r.after (r.after w simple [p] log) simple probes log' =
      r.after w simple (p :: probes) log' := by
  simp [after, issuedBy, Nat.add_assoc, Nat.add_comm 1]

theorem room_after {r : EnumResolver} {w : Workspace} {count : Nat}
    (h : w.Room r.frontEnd.tempStem (count + 1)) (simple : String) (p : Probe)
    (log : List LogRecord) : (r.after w simple [p] log).Room r.frontEnd.tempStem count := by
  intro i hi
  have hnext := h (i + 1) (Nat.succ_lt_succ hi)
  rwa [Nat.add_comm i 1, ← Nat.add_assoc] at hnext

theorem run_dumpText (r : EnumResolver) {simple : String} (hsimple : simple ≠ "")
    (header type : String) {w : Workspace} {count : Nat}
    (h : w.Room r.frontEnd.tempStem (count + 1)) :
    ∃ log, (r.frontEnd.dumpText (probeText header type) (some simple)).run.run w =
      (Outcome.first ((r.callsOf simple ⟨header, type, w.tempCount⟩).map
        fun call => r.frontEnd.answer (w.compiler call)),
        r.after w simple [⟨header, type, w.tempCount⟩] log) := by
  obtain ⟨hspare, hname⟩ := h 0 (Nat.succ_pos count)
  obtain ⟨log, hdump⟩ := r.frontEnd.run_dumpText_of_checkName hspare hname
    (probeText header type) (some simple)
  refine ⟨log, hdump.trans ?_⟩
  rw [FrontEnd.firstTree_eq, after, issuedBy, List.flatMap_singleton, r.callsOf_eq hsimple,
    FrontEnd.callsFor, List.map_map]
  rfl

theorem run_found (parsed : Except Fault (Option EnumDef)) (next : Session (Option EnumDef))
    (message : String) (w : Workspace) : ∃ log,
    (do
      match ← Session.ofExcept parsed with
      | none => next
      | some d =>
        Session.log .info logSource message
        return some d : Session (Option EnumDef)).run.run w =
      if Outcome.ends parsed then (parsed, { w with log := log }) else next.run.run w := by
  cases parsed with
  | error f => exact ⟨w.log, rfl⟩
  | ok d =>
    cases d with
    | none => exact ⟨w.log, rfl⟩
    | some d => exact ⟨_, rfl⟩

theorem run_probe (r : EnumResolver) (qualified : String) {simple : String}
    (hsimple : simple ≠ "") (attempts : List (String × String)) {w : Workspace}
    (h : w.Room r.frontEnd.tempStem attempts.length) :
    ∃ log, (r.probe qualified simple attempts).run.run w =
      (Outcome.first ((probesFrom w.tempCount attempts).map
        (r.outcomeOf w.compiler qualified simple)),
        r.after w simple (r.tried w.compiler qualified simple (probesFrom w.tempCount attempts))
          log) := by
  induction attempts generalizing w with
  | nil =>
    change ∃ log, _ = (_, r.after w simple [] log)
    exact ⟨_, congrArg _ (r.after_nil w simple _).symm⟩
  | cons attempt attempts ih =>
    obtain ⟨header, type⟩ := attempt
    have hlog : (Session.log .debug logSource ("probing " ++ header ++ " as " ++ type)).run.run w =
        (.ok (), { w with
          log := w.log ++ [⟨.debug, logSource, "probing " ++ header ++ " as " ++ type⟩] }) := rfl
    rw [probe, Session.run_bind_of_ok hlog, probesFrom_cons, List.map_cons, Outcome.first_cons,
      tried_cons]
    obtain ⟨log, hdump⟩ := r.run_dumpText hsimple header type (w := { w with
      log := w.log ++ [⟨.debug, logSource, "probing " ++ header ++ " as " ++ type⟩] }) h
    -- a probe without a definition leaves the rest of the search to the induction hypothesis
    obtain ⟨log', hrest⟩ := ih (room_after h simple ⟨header, type, w.tempCount⟩ log)
    rw [after_cons] at hrest
    cases hdumped : Outcome.first ((r.callsOf simple ⟨header, type, w.tempCount⟩).map
      fun call => r.frontEnd.answer (w.compiler call)) with
    | error f =>
      rw [hdumped] at hdump
      rw [Session.run_bind_of_error hdump, outcomeOf, hdumped]
      exact ⟨log, rfl⟩
    | ok tree =>
      rw [hdumped] at hdump
      rw [Session.run_bind_of_ok hdump, outcomeOf, hdumped]
      cases tree with
      | none => exact ⟨log', hrest⟩
      | some tree =>
        obtain ⟨log'', hfound⟩ := run_found (Enumeration.parseExternal tree simple qualified)
          (r.probe qualified simple attempts) ("resolved enum " ++ qualified ++ " from " ++ header)
          (r.after w simple [⟨header, type, w.tempCount⟩] log)
        dsimp only
        split
        · next hends =>
          rw [if_pos hends] at hfound
          exact ⟨log'', hfound⟩
        · next hends =>
          rw [if_neg hends] at hfound
          exact ⟨log', hfound.trans hrest⟩

theorem length_attempts (r : EnumResolver) (qualified simple : String) (headers : List String) :
    (r.attempts qualified simple headers).length =
      headers.length * (r.probeTypes qualified simple).length := by
  simp [attempts]

theorem probeTypes_eq (r : EnumResolver) (qualified simple : String) :
    r.probeTypes qualified simple = ([qualified, simple] ++
      if Scope.isScoped qualified = false ∧ r.namespaceName ≠ "" then
        [r.namespaceName ++ "::" ++ simple] else []).eraseDups := by
  rw [probeTypes]
  congr 1
  simp only [Bool.and_eq_true, Bool.not_eq_true', bne_iff_ne]
  split <;> simp

theorem run_resolve_of_candidates (r : EnumResolver) {type : String} {w : Workspace}
    {found : List (List String)} (hname : Scope.simpleName (Spelling.enumKey type) ≠ "")
    (hcandidates : HeaderSearch.candidates w.files r.sourceRoot
      (Scope.simpleName (Spelling.enumKey type)) = found.map (Path.ofNames r.sourceRoot))
    (hrelative : ∀ names ∈ found, Path.relative w.workingDir
      (Path.ofNames r.sourceRoot names) r.sourceRoot = .ok (String.intercalate "/" names)) :
    (r.resolve type).run.run w =
      (r.probe (Spelling.enumKey type) (Scope.simpleName (Spelling.enumKey type))
        (r.attempts (Spelling.enumKey type) (Scope.simpleName (Spelling.enumKey type))
          (found.map (String.intercalate "/")))).run.run w := by
  have hheaders : (found.map (Path.ofNames r.sourceRoot)).mapM
      (fun p => Path.relative w.workingDir p r.sourceRoot) =
        .ok (found.map (String.intercalate "/")) := by
    rw [Outcome.mapM_eq_ok, List.forall₂_map_left_iff, List.forall₂_map_right_iff,
      List.forall₂_same]
    exact hrelative
  rw [resolve]
  dsimp only
  rw [if_neg (by simpa using hname), Session.run_get_bind, hcandidates, hheaders]
  exact Session.run_bind_of_ok (Session.run_ofExcept _ w)

/-- The compilers are asked about the headers that mention the name, each with each of its
spellings, up to the first probe that gives a definition, and about each probe up to the first
compiler that gives a tree. -/
theorem resolve_calls (r : EnumResolver) {type : String} {w : Workspace}
    (hname : Scope.simpleName (Spelling.enumKey type) ≠ "")
    (hword : ∀ c ∈ (Scope.simpleName (Spelling.enumKey type)).toList, isWord c = true)
    (htree : ∀ dir, w.files.locate r.sourceRoot = some dir → Tidy w.files dir)
    (hroom : w.Room r.frontEnd.tempStem
      ((HeaderSearch.candidates w.files r.sourceRoot
        (Scope.simpleName (Spelling.enumKey type))).length *
      (r.probeTypes (Spelling.enumKey type)
        (Scope.simpleName (Spelling.enumKey type))).length)) :
    let qualified := Spelling.enumKey type
    let simple := Scope.simpleName qualified
    let types := ([qualified, simple] ++
      if Scope.isScoped qualified = false ∧ r.namespaceName ≠ "" then
        [r.namespaceName ++ "::" ++ simple] else []).eraseDups
    let result := (r.resolve type).run.run w
    ∃ (found : List (List String)) (log : List LogRecord),
      (found.map (Path.ofNames r.sourceRoot)).Pairwise HeaderSearch.Precedes ∧
      (∀ names, names ∈ found ↔ HeaderSearch.LeadsTo w.files r.sourceRoot simple names) ∧
      let probes := probesFrom w.tempCount
        (found.flatMap fun names => types.map (String.intercalate "/" names, ·))
      let outcome := r.outcomeOf w.compiler qualified simple
      result.2.calls = w.calls ++ ((r.tried w.compiler qualified simple probes).flatMap fun p =>
        r.frontEnd.issued w.compiler (r.callsOf simple p)) ∧
      result.2 = r.after w simple (r.tried w.compiler qualified simple probes) log ∧
      result.1 = Outcome.first (probes.map outcome) ∧
      (result.1 = .ok none ↔ ∀ p ∈ probes, outcome p = .ok none) ∧
      ∀ d, result.1 = .ok (some d) ↔ ∃ before p rest, probes = before ++ p :: rest ∧
        (∀ q ∈ before, outcome q = .ok none) ∧ outcome p = .ok (some d) := by
  intro qualified simple types result
  obtain ⟨found, hcandidates, hsorted, hfound⟩ :=
    HeaderSearch.exists_candidates hname hword htree
  have hroom' : w.Room r.frontEnd.tempStem
      (r.attempts qualified simple (found.map (String.intercalate "/"))).length := by
    rwa [length_attempts, List.length_map, ← List.length_map, ← hcandidates]
  obtain ⟨log, hprobe⟩ := r.run_probe qualified hname _ hroom'
  have hresult := r.run_resolve_of_candidates hname hcandidates fun names hnames =>
    HeaderSearch.relative_of_leadsTo htree ((hfound names).1 hnames) w.workingDir
  have hattempts : r.attempts qualified simple (found.map (String.intercalate "/")) =
      found.flatMap fun names => types.map (String.intercalate "/" names, ·) := by
    rw [attempts, List.flatMap_map, probeTypes_eq]
  rw [hprobe, hattempts] at hresult
  change result = _ at hresult
  refine ⟨found, log, hsorted, hfound, ?_, ?_, ?_, ?_, ?_⟩
  · rw [hresult]
    rfl
  · rw [hresult]
  · rw [hresult]
  · rw [hresult, Outcome.first_eq_none, List.forall_mem_map]
  · intro d
    rw [hresult, Outcome.first_map_eq_some]

def flapTree : FileTree :=
  [([sourceDir], .directory), ([tempRoot], .directory),
    ([sourceDir, "Flap.h"], .file (.text "enum FlapMode;\n")),
    ([sourceDir, "Flaps.h"], .file (.text "enum FlapModes;\n"))]

theorem ofJson_flapTree : FileTree.ofJson (.obj [("Flap.h", .str "enum FlapMode;\n"),
    ("Flaps.h", .str "enum FlapModes;\n")]) = .ok flapTree := rfl

def flapHeaders : Workspace :=
  .ofFiles flapTree (.scripted [⟨some "clang", none, some "JSBSim::FlapMode",
    .exited 0 (Metadata.enumNode "FlapMode" ["fUp"]).render⟩]) []

def flapResolver : EnumResolver :=
  ⟨⟨sourceDir, FrontEnd.defaultCompilers, FrontEnd.defaultStandard, FrontEnd.defaultMaxOutput,
    FrontEnd.defaultTempStem⟩, sourceDir, "JSBSim"⟩

theorem room_flapHeaders : flapHeaders.Room flapResolver.frontEnd.tempStem 2 := by
  have hnames : ∀ i < 2, checkName (tempName FrontEnd.defaultTempStem i) = .ok () := by
    decide +kernel
  intro i hi
  refine ⟨spare_of_empty (by decide) (by decide) (by decide) _, ?_⟩
  rw [show flapHeaders.tempCount = 0 from rfl, Nat.zero_add]
  exact hnames i hi

def flapCall (compiler number type : String) : CompilerCall where
  command := [compiler, "-std=c++17", "-I", "src", "-fsyntax-only", "-Xclang",
    "-ast-dump-filter=FlapMode", "-Xclang", "-ast-dump=json",
    "tmp/bindgen-" ++ number ++ "/probe.cpp"]
  source := some ("#include \"Flap.h\"\n" ++ type ++ " __bindgen_enum_probe = static_cast<" ++ type
    ++ ">(0);\nint main() \x7b return static_cast<int>(__bindgen_enum_probe); \x7d\n")

theorem run_flapHeaders :
    let result := (flapResolver.resolve "const FlapMode").run.run flapHeaders
    result.2.calls =
        [flapCall "clang++" "0" "FlapMode", flapCall "clang" "0" "FlapMode",
          flapCall "clang++" "1" "JSBSim::FlapMode", flapCall "clang" "1" "JSBSim::FlapMode"] ∧
      (result.1.map fun d => d.map (·.tsName)).toOption = some (some "FlapMode") := by
  decide +kernel

theorem resolve_calls_flapMode :
    (∀ dir, flapHeaders.files.locate sourceDir = some dir → Tidy flapHeaders.files dir) ∧
      flapHeaders.Room flapResolver.frontEnd.tempStem 2 ∧
      ((flapResolver.resolve "const FlapMode").run.run flapHeaders).2.calls =
        [flapCall "clang++" "0" "FlapMode", flapCall "clang" "0" "FlapMode",
          flapCall "clang++" "1" "JSBSim::FlapMode", flapCall "clang" "1" "JSBSim::FlapMode"] ∧
      (((flapResolver.resolve "const FlapMode").run.run flapHeaders).1.map fun d =>
        d.map (·.tsName)).toOption = some (some "FlapMode") ∧
      ∃ (found : List (List String)) (log : List LogRecord),
        (∀ names, names ∈ found ↔
          HeaderSearch.LeadsTo flapHeaders.files sourceDir "FlapMode" names) ∧
        let tried := flapResolver.tried flapHeaders.compiler "FlapMode" "FlapMode" (probesFrom 0
          (found.flatMap fun names =>
            ["FlapMode", "JSBSim::FlapMode"].map (String.intercalate "/" names, ·)))
        ((flapResolver.resolve "const FlapMode").run.run flapHeaders).2.calls =
          (tried.flatMap fun p => flapResolver.frontEnd.issued flapHeaders.compiler
            (flapResolver.callsOf "FlapMode" p)) ∧
        ((flapResolver.resolve "const FlapMode").run.run flapHeaders).2 =
          flapResolver.after flapHeaders "FlapMode" tried log := by
  have hkey : Spelling.enumKey "const FlapMode" = "FlapMode" := by decide +kernel
  have hsimple : Scope.simpleName "FlapMode" = "FlapMode" := by decide +kernel
  have hprobes : (HeaderSearch.candidates flapHeaders.files sourceDir "FlapMode").length *
      (flapResolver.probeTypes "FlapMode" "FlapMode").length = 2 := by decide +kernel
  have hword : "FlapMode".toList.all isWord = true := by decide
  have htidy : ∀ dir, flapHeaders.files.locate sourceDir = some dir → Tidy flapHeaders.files dir :=
    fun dir hdir => tidy_ofJson ofJson_flapTree hdir
  have hcalls := @resolve_calls flapResolver "const FlapMode" flapHeaders
  rw [hkey, hsimple, show flapResolver.sourceRoot = sourceDir from rfl, hprobes] at hcalls
  obtain ⟨found, log, -, hfound, hissued, hstate, -⟩ :=
    hcalls (by decide) (List.all_eq_true.1 hword) htidy room_flapHeaders
  exact ⟨htidy, room_flapHeaders, run_flapHeaders.1, run_flapHeaders.2, found, log, hfound,
    hissued, hstate⟩

end EnumResolver

end WasmBindings
