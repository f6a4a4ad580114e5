import WasmBindings.Proofs.Outcome
import WasmBindings.Proofs.Workspace.Temporary

namespace WasmBindings

open FileTree Workspace

namespace Session

variable {α β : Type} {x : Session α} {f : α → Session β} {w w₁ : Workspace}

theorem run_bind_of_ok {a : α} (h : x.run.run w = (.ok a, w₁)) :
    (x >>= f).run.run w = (f a).run.run w₁ := by
  rw [ExceptT.run_bind, StateT.run_bind, h]
  rfl

theorem run_bind_of_error {e : Fault} (h : x.run.run w = (.error e, w₁)) :
    (x >>= f).run.run w = (.error e, w₁) := by
  rw [ExceptT.run_bind, StateT.run_bind, h]
  rfl

theorem run_get_bind (f : Workspace → Session β) (w : Workspace) :
    ((get : Session Workspace) >>= f).run.run w = (f w).run.run w := rfl

theorem run_set_bind (v : Workspace) (f : PUnit → Session β) (w : Workspace) :
    ((set v : Session PUnit) >>= f).run.run w = (f ⟨⟩).run.run v := rfl

theorem run_modify (change : Workspace → Workspace) (w : Workspace) :
    (modify change : Session PUnit).run.run w = (.ok ⟨⟩, change w) := rfl

theorem run_ofExcept (r : Except Fault α) (w : Workspace) : (ofExcept r).run.run w = (r, w) := by
  cases r <;> rfl

theorem run_attempt (s : Session α) (w : Workspace) :
    (attempt s).run.run w = (.ok (s.run.run w).1, (s.run.run w).2) := rfl

theorem run_changeFiles (change : FileTree → FileTree × Except Fault α) (w : Workspace) :
    (changeFiles change).run.run w =
      ((change w.files).2, { w with files := (change w.files).1 }) :=
  run_ofExcept (change w.files).2 { w with files := (change w.files).1 }

theorem run_writeFile {path text : String} {t : FileTree}
    (h : w.files.write path (.text text) = (t, .ok ())) :
    (writeFile path text).run.run w = (.ok (), { w with files := t }) := by
  rw [writeFile, run_changeFiles, h]

theorem run_makeTemp {stem : String} (h : Spare w.files stem w.tempCount) :
    (makeTemp stem).run.run w =
      match checkName (tempName stem w.tempCount) with
      | .error f => (.error f, { w with tempCount := w.tempCount + 1 })
      | .ok () => (.ok (tempPath stem w.tempCount), { w with
          tempCount := w.tempCount + 1, files := withDir w.files stem w.tempCount }) := by
  have hmake := run_changeFiles (·.makeNewDir (tempPath stem w.tempCount))
    { w with tempCount := w.tempCount + 1 }
  dsimp only at hmake
  rw [h.makeNewDir] at hmake
  rw [makeTemp, run_get_bind, run_set_bind, ← tempPath]
  cases hname : checkName (tempName stem w.tempCount) with
  | error f =>
    rw [hname] at hmake
    exact run_bind_of_error hmake
  | ok =>
    rw [hname] at hmake
    exact run_bind_of_ok hmake

theorem run_removeTemp {path : String} {dir : Location}
    (h : w.files.locate path = some dir) :
    (removeTemp path).run.run w = (.ok (), { w with files := w.files.removeTree dir }) := by
  rw [removeTemp, run_modify, h]

end Session

namespace FrontEnd

def firstTree (fe : FrontEnd) (reply : String → CompilerReply) :
    List String → Except Fault (Option Json)
  | [] => .ok none
  | compiler :: rest =>
    match reply compiler with
    | .crashed reason => .error (.crash reason)
    | r =>
      match fe.accept compiler "" r with
      | .ok tree => .ok (some tree)
      | .error _ => firstTree fe reply rest

/-- The tree in a reply: a program that exits with status 0, prints no more than is read, and prints
a tree. -/
def answer (fe : FrontEnd) : CompilerReply → Except Fault (Option Json)
  | .unavailable _ => .ok none
  | .crashed reason => .error (.crash reason)
  | .exited status output =>
    .ok (if status = 0 ∧ output.length ≤ fe.maxOutput then Documents.parse output else none)

def callsFor (fe : FrontEnd) (source : String) (text filter : Option String)
    (compilers : List String) : List CompilerCall :=
  compilers.map fun c => ⟨fe.command c source filter, text⟩

/-- The calls that are made: those up to the first that is answered with a tree or breaks down. -/
def issued (fe : FrontEnd) (k : Compiler) (calls : List CompilerCall) : List CompilerCall :=
  Outcome.upTo (fun call => Outcome.ends (fe.answer (k call))) calls

theorem answer_eq (fe : FrontEnd) (compiler source : String) {r : CompilerReply}
    (h : ∀ reason, r ≠ .crashed reason) :
    fe.answer r = .ok (fe.accept compiler source r).toOption := by
  cases r with
  | unavailable reason => rfl
  | crashed reason => exact absurd rfl (h reason)
  | exited status output =>
    rw [answer, accept]
    split
    · next hread =>
      rw [if_neg (not_not.2 hread.1), if_neg (Int.not_lt.2 hread.2)]
      cases Documents.parse output <;> rfl
    · next hread =>
      split
      · rfl
      · next hstatus =>
        rw [if_pos (Int.not_le.1 fun hlength => hread ⟨not_not.1 hstatus, hlength⟩)]
        rfl

theorem firstTree_eq (fe : FrontEnd) (reply : String → CompilerReply) (compilers : List String) :
    fe.firstTree reply compilers =
      Outcome.first (compilers.map fun c => fe.answer (reply c)) := by
  induction compilers with
  | nil => rfl
  | cons compiler rest ih =>
    rw [firstTree, List.map_cons, Outcome.first_cons]
    split
    · next reason hreply =>
      rw [hreply]
      rfl
    · next hreply =>
      rw [fe.answer_eq compiler "" hreply, ih]
      cases fe.accept compiler "" (reply compiler) <;> rfl

theorem getLastD_command (fe : FrontEnd) (compiler source : String) (filter : Option String) :
    (fe.command compiler source filter).getLastD "" = source := by
  rw [command, List.getLastD_eq_getLast?, List.getLast?_append]
  rfl

theorem run_runCompiler (fe : FrontEnd) (compiler source : String) (filter : Option String)
    (w : Workspace) :
    (Session.runCompiler (fe.command compiler source filter)).run.run w =
      let call : CompilerCall := ⟨fe.command compiler source filter, w.files.readText? source⟩
      (.ok (w.compiler call), { w with calls := w.calls ++ [call] }) := by
  have h : (Session.runCompiler (fe.command compiler source filter)).run.run w =
      (.ok (w.compiler ⟨_, w.files.readText? ((fe.command compiler source filter).getLastD "")⟩),
        { w with calls := w.calls ++ [⟨_, _⟩] }) := rfl
  rwa [getLastD_command] at h

theorem run_dumpWith (fe : FrontEnd) (source : String) (filter : Option String)
    (compilers : List String) (w : Workspace) :
    ∃ log, (fe.dumpWith source filter compilers).run.run w =
      (fe.firstTree (fun c => w.compiler ⟨fe.command c source filter, w.files.readText? source⟩)
        compilers, { w with
          calls := w.calls ++ fe.issued w.compiler
            (fe.callsFor source (w.files.readText? source) filter compilers),
          log := log }) := by
  induction compilers generalizing w with
  | nil => exact ⟨_, by rw [callsFor, List.map_nil, issued, Outcome.upTo_nil, List.append_nil]; rfl⟩
  | cons compiler rest ih =>
    rw [dumpWith, Session.run_bind_of_ok (fe.run_runCompiler compiler source filter w), callsFor,
      List.map_cons, issued, Outcome.upTo_cons, firstTree_eq, List.map_cons, Outcome.first_cons]
    have haccept := fun h => fe.answer_eq compiler source
      (r := w.compiler ⟨fe.command compiler source filter, w.files.readText? source⟩) h
    generalize hreply : w.compiler ⟨fe.command compiler source filter,
      w.files.readText? source⟩ = reply at haccept ⊢
    split
    · next reason => exact ⟨_, rfl⟩
    · next hcrashed =>
      rw [haccept hcrashed]
      cases fe.accept compiler source reply with
      | ok tree => exact ⟨_, rfl⟩
      | error reason =>
        -- the rest runs in a workspace with one more call
        obtain ⟨log, hrest⟩ := ih { w with
          calls := w.calls ++ [⟨fe.command compiler source filter, w.files.readText? source⟩],
          log := w.log ++ [⟨.debug, logSource, reason⟩] }
        rw [firstTree_eq] at hrest
        refine ⟨log, hrest.trans ?_⟩
        simp only [List.append_assoc]
        rfl

theorem run_withProbe {α : Type} {stem text : String} {w : Workspace}
    (h : Spare w.files stem w.tempCount) (hname : checkName (tempName stem w.tempCount) = .ok ())
    (read : String → Session α) {outcome : Except Fault α} {calls : List CompilerCall}
    {log : List LogRecord}
    (hread : (read (probePath stem w.tempCount)).run.run { w with
        tempCount := w.tempCount + 1, files := withProbe w.files stem w.tempCount text } =
      (outcome, { w with
        tempCount := w.tempCount + 1, files := withProbe w.files stem w.tempCount text,
        calls := calls, log := log })) :
    (Session.withTemp stem fun dir => do
      Session.writeFile (Path.join dir "probe.cpp") text
      read (Path.join dir "probe.cpp")).run.run w =
        (outcome, { w with tempCount := w.tempCount + 1, calls := calls, log := log }) := by
  have htemp := Session.run_makeTemp h
  rw [hname] at htemp
  have hwrite := Session.run_writeFile (w := { w with
    tempCount := w.tempCount + 1, files := withDir w.files stem w.tempCount }) (h.write_probe text)
  have hbody := (Session.run_bind_of_ok (f := fun _ => read (probePath stem w.tempCount))
    hwrite).trans hread
  have hattempt := Session.run_attempt (do
    Session.writeFile (probePath stem w.tempCount) text
    read (probePath stem w.tempCount)) { w with
      tempCount := w.tempCount + 1, files := withDir w.files stem w.tempCount }
  rw [hbody] at hattempt
  -- the read leaves the source where it is, so the directory to remove is found
  have hremove := Session.run_removeTemp (w := { w with
    tempCount := w.tempCount + 1, files := withProbe w.files stem w.tempCount text,
    calls := calls, log := log }) (h.locate_tempPath text)
  rw [h.removeTree_withProbe] at hremove
  rw [Session.withTemp, Session.run_bind_of_ok htemp]
  refine (Session.run_bind_of_ok hattempt).trans ?_
  refine (Session.run_bind_of_ok hremove).trans ?_
  exact Session.run_ofExcept outcome _

theorem run_dumpText_of_checkName (fe : FrontEnd) {w : Workspace}
    (h : Spare w.files fe.tempStem w.tempCount)
    (hname : checkName (tempName fe.tempStem w.tempCount) = .ok ()) (text : String)
    (filter : Option String) :
    ∃ log, (fe.dumpText text filter).run.run w =
      (fe.firstTree (fun c => w.compiler
        ⟨fe.command c (probePath fe.tempStem w.tempCount) filter, some text⟩) fe.compilers,
        { w with
          tempCount := w.tempCount + 1,
          calls := w.calls ++ fe.issued w.compiler
            (fe.callsFor (probePath fe.tempStem w.tempCount) (some text) filter fe.compilers),
          log := log }) := by
  obtain ⟨log, hdump⟩ := fe.run_dumpWith (probePath fe.tempStem w.tempCount) filter
    fe.compilers { w with
      tempCount := w.tempCount + 1, files := withProbe w.files fe.tempStem w.tempCount text }
  dsimp only at hdump
  rw [h.readText?_probe] at hdump
  exact ⟨log, run_withProbe h hname (fe.dumpFile · filter) hdump⟩

theorem run_dumpText (fe : FrontEnd) {w : Workspace} (h : Spare w.files fe.tempStem w.tempCount)
    (text : String) (filter : Option String) :
    ∃ calls log, (fe.dumpText text filter).run.run w =
      (match checkName (tempName fe.tempStem w.tempCount) with
        | .error f => .error f
        | .ok () => fe.firstTree (fun c => w.compiler
            ⟨fe.command c (probePath fe.tempStem w.tempCount) filter, some text⟩) fe.compilers,
        { w with tempCount := w.tempCount + 1, calls := calls, log := log }) := by
  cases hname : checkName (tempName fe.tempStem w.tempCount) with
  | error f =>
    have htemp := Session.run_makeTemp h
    rw [hname] at htemp
    exact ⟨_, _, Session.run_bind_of_error htemp⟩
  | ok =>
    obtain ⟨log, hrun⟩ := fe.run_dumpText_of_checkName h hname text filter
    exact ⟨_, log, hrun⟩

end FrontEnd

end WasmBindings
