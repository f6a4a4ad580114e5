import WasmBindings.Generator
import WasmBindings.Proofs.FrontEnd

/-!
Sessions that only read.  Two runs of such a session, on trees that look the same where it reads,
have one outcome and leave their trees as they are.  What one step reads is compared for each part
of the generator, up to the files of a class.
-/

namespace WasmBindings

open FileTree Workspace

/-- The compiler does not mind in which temporary directory its source is. -/
def Compiler.Steady (k : Compiler) (stem : String) : Prop :=
  ∀ program words source m n, k ⟨program :: words ++ [probePath stem m], source⟩ =
    k ⟨program :: words ++ [probePath stem n], source⟩

theorem CompilerRule.filterOf_concat_probePath (words : List String) (stem : String) (n : Nat) :
    filterOf (words ++ [probePath stem n]) = filterOf words := by
  have hprobe : filterOption.isPrefixOf (probePath stem n).toList = false := by
    rw [toList_probePath, toList_tempPath]
    rfl
  rw [filterOf, filterOf, List.find?_append, List.find?_cons_of_neg (by simp [hprobe]),
    List.find?_nil, Option.or_none]

theorem Compiler.steady_scripted (rules : List CompilerRule) (stem : String) :
    (scripted rules).Steady stem := by
  intro program words source m n
  have happlies : ∀ r : CompilerRule, r.applies ⟨program :: words ++ [probePath stem m], source⟩ =
      r.applies ⟨program :: words ++ [probePath stem n], source⟩ := by
    intro r
    rw [CompilerRule.applies, CompilerRule.applies, CompilerRule.filterOf_concat_probePath,
      CompilerRule.filterOf_concat_probePath]
    rfl
  rw [scripted, scripted]
  simp only [happlies]

structure Setting where
  compiler : Compiler
  workingDir : List String
  first : Nat

structure Ready (e : Setting) (t : FileTree) (w : Workspace) : Prop where
  files : w.files = t
  compiler : w.compiler = e.compiler
  workingDir : w.workingDir = e.workingDir
  tempCount : e.first ≤ w.tempCount

/-- The outcomes are equal, unless the name of a temporary directory has become too long. -/
def Alike {α : Type} (r r' : Except Fault α) : Prop :=
  r = r' ∨ r = .error .nameTooLong ∨ r' = .error .nameTooLong

theorem Alike.error {α β : Type} {f f' : Fault}
    (h : Alike (.error f : Except Fault α) (.error f')) :
    Alike (.error f : Except Fault β) (.error f') := by
  rcases h with h | h | h
  · cases h
    exact .inl rfl
  · cases h
    exact .inr (.inl rfl)
  · cases h
    exact .inr (.inr rfl)

structure Agree {α : Type} (e : Setting) (t t' : FileTree) (s s' : Session α) : Prop where
  left : ∀ w, Ready e t w → Ready e t (s.run.run w).2
  right : ∀ w, Ready e t' w → Ready e t' (s'.run.run w).2
  outcome : ∀ w w', Ready e t w → Ready e t' w' → Alike (s.run.run w).1 (s'.run.run w').1

namespace Agree

variable {α β : Type} {e : Setting} {t t' : FileTree}

theorem ofExcept (r : Except Fault α) :
    Agree e t t' (Session.ofExcept r) (Session.ofExcept r) := by
  refine ⟨fun w hw => ?_, fun w hw => ?_, fun w w' _ _ => ?_⟩
  · rwa [Session.run_ofExcept]
  · rwa [Session.run_ofExcept]
  · rw [Session.run_ofExcept, Session.run_ofExcept]
    exact .inl rfl

theorem pure (a : α) : Agree e t t' (Pure.pure a : Session α) (Pure.pure a) :=
  ofExcept (.ok a)

theorem throw (f : Fault) : Agree e t t' (MonadExcept.throw f : Session α) (MonadExcept.throw f) :=
  ofExcept (.error f)

theorem logAll (level : LogLevel) (source : String) (messages : List String) :
    Agree e t t' (Session.logAll level source messages) (Session.logAll level source messages) :=
  ⟨fun _ hw => ⟨hw.files, hw.compiler, hw.workingDir, hw.tempCount⟩,
    fun _ hw => ⟨hw.files, hw.compiler, hw.workingDir, hw.tempCount⟩, fun _ _ _ _ => .inl rfl⟩

theorem log (level : LogLevel) (source message : String) :
    Agree e t t' (Session.log level source message) (Session.log level source message) :=
  logAll level source [message]

theorem ready_bind {x : Session α} {f : α → Session β}
    (hx : ∀ w, Ready e t w → Ready e t (x.run.run w).2)
    (hf : ∀ a w, Ready e t w → Ready e t ((f a).run.run w).2) (w : Workspace) (hw : Ready e t w) :
    Ready e t ((x >>= f).run.run w).2 := by
  have hready := hx w hw
  rcases hrun : x.run.run w with ⟨fault | a, v⟩
  · rw [Session.run_bind_of_error hrun]
    rwa [hrun] at hready
  · rw [Session.run_bind_of_ok hrun]
    rw [hrun] at hready
    exact hf a v hready

theorem bind {x x' : Session α} {f f' : α → Session β} (hx : Agree e t t' x x')
    (hf : ∀ a, Agree e t t' (f a) (f' a)) : Agree e t t' (x >>= f) (x' >>= f') := by
  refine ⟨ready_bind hx.left fun a => (hf a).left, ready_bind hx.right fun a => (hf a).right, ?_⟩
  intro w w' hw hw'
  -- a name that is too long ends one side; otherwise both go on with one value
  have houtcome := hx.outcome w w' hw hw'
  have hleft := hx.left w hw
  have hright := hx.right w' hw'
  rcases hrun : x.run.run w with ⟨fault | a, v⟩ <;>
    rcases hrun' : x'.run.run w' with ⟨fault' | a', v'⟩ <;>
    rw [hrun] at houtcome hleft <;> rw [hrun'] at houtcome hright
  · rw [Session.run_bind_of_error hrun, Session.run_bind_of_error hrun']
    exact houtcome.error
  · rcases houtcome with h | h | h
    · cases h
    · cases h
      rw [Session.run_bind_of_error hrun]
      exact .inr (.inl rfl)
    · cases h
  · rcases houtcome with h | h | h
    · cases h
    · cases h
    · cases h
      rw [Session.run_bind_of_error hrun']
      exact .inr (.inr rfl)
  · rcases houtcome with h | h | h
    · cases h
      rw [Session.run_bind_of_ok hrun, Session.run_bind_of_ok hrun']
      exact (hf a).outcome v v' hleft hright
    · cases h
    · cases h

end Agree

theorem Setting.exists_ready (e : Setting) (t : FileTree) : ∃ w, Ready e t w :=
  ⟨⟨t, e.compiler, e.workingDir, e.first, [], [], []⟩, rfl, rfl, rfl, Nat.le_refl _⟩

theorem Agree.get {α : Type} {e : Setting} {t t' : FileTree} {f f' : Workspace → Session α}
    (h : ∀ w w', Ready e t w → Ready e t' w' → Agree e t t' (f w) (f' w')) :
    Agree e t t' (MonadState.get >>= f) (MonadState.get >>= f') := by
  obtain ⟨v, hv⟩ := e.exists_ready t
  obtain ⟨v', hv'⟩ := e.exists_ready t'
  exact ⟨fun w hw => (h w v' hw hv').left w hw, fun w hw => (h v w hv hw).right w hw,
    fun w w' hw hw' => (h w w' hw hw').outcome w w' hw hw'⟩

/-- Source texts can be compiled in temporary directories, and it does not matter in which. -/
structure Probing (e : Setting) (stem : String) (t : FileTree) : Prop where
  steady : e.compiler.Steady stem
  spare : ∀ n, e.first ≤ n → Spare t stem n

def FileTree.SameAt (t t' : FileTree) (path : String) : Prop :=
  ∀ l ∈ sights path, t'.get? l = t.get? l

namespace FrontEnd

variable {e : Setting} {t t' : FileTree} (fe : FrontEnd)

theorem command_eq (compiler source : String) (filter : Option String) :
    fe.command compiler source filter =
      compiler :: (["-std=" ++ fe.standard, "-I", fe.includeDir, "-fsyntax-only"]
        ++ filterArgs filter ++ ["-Xclang", "-ast-dump=json"]) ++ [source] := by
  simp [command]

theorem ready_dumpFile {w : Workspace} (hw : Ready e t w) (path : String)
    (filter : Option String) : Ready e t ((fe.dumpFile path filter).run.run w).2 := by
  obtain ⟨log, hrun⟩ := fe.run_dumpWith path filter fe.compilers w
  rw [dumpFile, hrun]
  exact ⟨hw.files, hw.compiler, hw.workingDir, hw.tempCount⟩

theorem agree_dumpFile {path : String} (h : t.SameAt t' path) (filter : Option String) :
    Agree e t t' (fe.dumpFile path filter) (fe.dumpFile path filter) := by
  refine ⟨fun w hw => fe.ready_dumpFile hw path filter,
    fun w hw => fe.ready_dumpFile hw path filter, ?_⟩
  intro w w' hw hw'
  obtain ⟨log, hrun⟩ := fe.run_dumpWith path filter fe.compilers w
  obtain ⟨log', hrun'⟩ := fe.run_dumpWith path filter fe.compilers w'
  rw [dumpFile, hrun, hrun', hw.compiler, hw'.compiler, hw.files, hw'.files, readText?_congr h]
  exact .inl rfl

theorem ready_dumpText (h : Probing e fe.tempStem t) {w : Workspace} (hw : Ready e t w)
    (text : String) (filter : Option String) :
    Ready e t ((fe.dumpText text filter).run.run w).2 := by
  have hspare := h.spare w.tempCount hw.tempCount
  rw [← hw.files] at hspare
  obtain ⟨calls, log, hrun⟩ := fe.run_dumpText hspare text filter
  rw [hrun]
  exact ⟨hw.files, hw.compiler, hw.workingDir, Nat.le_succ_of_le hw.tempCount⟩

theorem checkName_alike {a b : String} (h : Path.holdsNull a = Path.holdsNull b) :
    Alike (checkName a) (checkName b) := by
  rw [checkName, checkName, h]
  split
  · exact .inl rfl
  · split
    · exact .inr (.inl rfl)
    · split
      · exact .inr (.inr rfl)
      · exact .inl rfl

theorem agree_dumpText (h : Probing e fe.tempStem t) (h' : Probing e fe.tempStem t')
    (text : String) (filter : Option String) :
    Agree e t t' (fe.dumpText text filter) (fe.dumpText text filter) := by
  refine ⟨fun w hw => fe.ready_dumpText h hw text filter,
    fun w hw => fe.ready_dumpText h' hw text filter, ?_⟩
  intro w w' hw hw'
  have hspare := h.spare w.tempCount hw.tempCount
  have hspare' := h'.spare w'.tempCount hw'.tempCount
  rw [← hw.files] at hspare
  rw [← hw'.files] at hspare'
  obtain ⟨calls, log, hrun⟩ := fe.run_dumpText hspare text filter
  obtain ⟨calls', log', hrun'⟩ := fe.run_dumpText hspare' text filter
  -- the compilers get the same text under two names
  have hreplies : (fun c => w.compiler
      ⟨fe.command c (probePath fe.tempStem w.tempCount) filter, some text⟩) =
        fun c => w'.compiler
          ⟨fe.command c (probePath fe.tempStem w'.tempCount) filter, some text⟩ := by
    funext c
    rw [hw.compiler, hw'.compiler, command_eq, command_eq]
    exact h.steady c _ _ _ _
  rw [hrun, hrun', hreplies]
  rcases checkName_alike (holdsNull_tempName fe.tempStem w.tempCount w'.tempCount) with
    hname | hname | hname
  · rw [hname]
    exact .inl rfl
  · rw [hname]
    exact .inr (.inl rfl)
  · rw [hname]
    exact .inr (.inr rfl)

end FrontEnd

section Parts

variable {e : Setting} {t t' : FileTree}

theorem EnumResolver.agree_probe (r : EnumResolver) (h : Probing e r.frontEnd.tempStem t)
    (h' : Probing e r.frontEnd.tempStem t') (qualified simple : String)
    (attempts : List (String × String)) :
    Agree e t t' (r.probe qualified simple attempts) (r.probe qualified simple attempts) := by
  induction attempts with
  | nil => exact .bind (.log ..) fun _ => .pure none
  | cons attempt rest ih =>
    obtain ⟨header, type⟩ := attempt
    refine .bind (.log ..) fun _ => .bind (r.frontEnd.agree_dumpText h h' _ _) fun tree => ?_
    cases tree with
    | none => exact ih
    | some tree =>
      refine .bind (.ofExcept _) fun d => ?_
      cases d with
      | none => exact ih
      | some d => exact .bind (.log ..) fun _ => .pure (some d)

theorem EnumResolver.agree_resolve (r : EnumResolver) (h : Probing e r.frontEnd.tempStem t)
    (h' : Probing e r.frontEnd.tempStem t')
    (hheaders : ∀ token, HeaderSearch.candidates t' r.sourceRoot token =
      HeaderSearch.candidates t r.sourceRoot token) (type : String) :
    Agree e t t' (r.resolve type) (r.resolve type) := by
  rw [resolve]
  dsimp only
  split
  · exact .pure none
  · refine .get fun w w' hw hw' => ?_
    rw [hw.files, hw'.files, hheaders, hw.workingDir, hw'.workingDir]
    exact .bind (.ofExcept _) fun headers => r.agree_probe h h' _ _ _

theorem Casts.agree_load (fe : FrontEnd) {path : Option String}
    (h : ∀ p, path = some p → t.SameAt t' p) (className : String) (methods : List Method) :
    Agree e t t' (load fe path className methods) (load fe path className methods) := by
  refine .get fun w w' hw hw' => ?_
  have hpath : path.filter w'.files.pathExists = path.filter w.files.pathExists := by
    cases path with
    | none => rfl
    | some p => rw [Option.filter_some, Option.filter_some, hw.files, hw'.files,
        pathExists_congr (h p rfl)]
  rw [hpath]
  cases hsome : path.filter w.files.pathExists with
  | none => exact .bind (.log ..) fun _ => .pure _
  | some p =>
    have hp := (Option.filter_eq_some_iff.1 hsome).1
    refine .bind (fe.agree_dumpFile (h p hp) _) fun tree => ?_
    cases tree with
    | none => exact .bind (.log ..) fun _ => .pure _
    | some tree => exact .ofExcept _

namespace Metadata

theorem agree_addEnum (defs : List EnumDef) (d : EnumDef) :
    Agree e t t' (addEnum defs d) (addEnum defs d) := by
  rw [addEnum]
  split
  · exact .bind (.log ..) fun _ => .pure _
  · exact .pure _

theorem agree_resolveAll (c : Converter) {ask : String → Session (Option EnumDef)}
    (hask : ∀ type, Agree e t t' (ask type) (ask type)) (defs : List EnumDef)
    (types : List String) :
    Agree e t t' (resolveAll c ask defs types) (resolveAll c ask defs types) := by
  induction types generalizing defs with
  | nil => exact .pure _
  | cons type rest ih =>
    rw [resolveAll]
    split
    · exact ih defs
    · refine .bind (hask type) fun d => ?_
      cases d with
      | none => exact .bind (ih defs) fun _ => .pure _
      | some d => exact .bind (agree_addEnum defs d) fun defs' => ih defs'

theorem agree_build (c : Converter) {resolver : Option EnumResolver}
    (hresolver : ∀ type, Agree e t t' (resolveWith resolver type) (resolveWith resolver type))
    (casts : Casts) (cls : Json) (methods : List Method) :
    Agree e t t' (build c resolver casts cls methods) (build c resolver casts cls methods) := by
  refine .bind (.bind (.logAll ..) fun _ => .ofExcept _) fun own => ?_
  exact .bind (agree_resolveAll c hresolver own.enums _) fun _ => .pure _

end Metadata

namespace Generator

structure SameSources (g : Generator) (name : String) (t t' : FileTree) : Prop where
  header : t.SameAt t' (Path.join g.sourceRoot (g.config name).header)
  implementation : ∀ path, g.implementationPath (g.config name) = some path → t.SameAt t' path
  candidates : ∀ token, HeaderSearch.candidates t' g.sourceRoot token =
    HeaderSearch.candidates t g.sourceRoot token

variable (g : Generator)

theorem agree_loadClass (h : Probing e g.frontEnd.tempStem t)
    (h' : Probing e g.frontEnd.tempStem t') (header name : String) :
    Agree e t t' (loadClass g.frontEnd header name) (loadClass g.frontEnd header name) := by
  refine .bind (g.frontEnd.agree_dumpText h h' _ _) fun tree => ?_
  cases tree with
  | none => exact .throw _
  | some tree =>
    dsimp only
    split
    · exact .pure _
    · exact .throw _

theorem agree_analyse (h : Probing e g.tempStem t) (h' : Probing e g.tempStem t') {name : String}
    (hsame : g.SameSources name t t') :
    Agree e t t' (g.analyse name) (g.analyse name) := by
  refine .get fun w w' hw hw' => ?_
  rw [hw.files, hw'.files, pathExists_congr hsame.header, hw.workingDir, hw'.workingDir]
  split
  · exact .throw _
  · refine .bind (.ofExcept _) fun includePath => ?_
    refine .bind (g.agree_loadClass h h' includePath name) fun cls => ?_
    refine .bind (.bind (.logAll ..) fun _ => .ofExcept _) fun methods => ?_
    refine .bind (.log ..) fun _ => ?_
    refine .bind (Casts.agree_load g.frontEnd hsame.implementation name methods) fun casts => ?_
    let resolver : EnumResolver := ⟨g.frontEnd, g.sourceRoot, (g.config name).namespaceName⟩
    have hresolver : ∀ type, Agree e t t' (Metadata.resolveWith (some resolver) type)
        (Metadata.resolveWith (some resolver) type) :=
      fun type => resolver.agree_resolve h h' hsame.candidates type
    exact .bind (Metadata.agree_build _ hresolver casts cls methods) fun data => .pure _

theorem agree_prepare (h : Probing e g.tempStem t) (h' : Probing e g.tempStem t') {name : String}
    (hsame : g.SameSources name t t') :
    Agree e t t' (g.prepare name) (g.prepare name) := by
  refine .bind (g.agree_analyse h h' hsame) fun part => ?_
  obtain ⟨methods, data⟩ := part
  refine .get fun w w' hw hw' => ?_
  rw [hw.workingDir, hw'.workingDir]
  exact .bind (.ofExcept _) fun outputs => .pure _

end Generator

end Parts

end WasmBindings
