import UniversalMachine.Command.Line
import UniversalMachine.Proofs.Command.Start
import UniversalMachine.Proofs.Machine.Run
/-! Exit codes. A command that starts a machine ends as its machine does; one that starts none has
done nothing but speak. -/

universe u

namespace UniversalMachine.CommandLine

variable {ι : Type u} {σ : Type} [Sink σ]

def Concludes [Host] (line : List String) (s : Session) (code : ExitCode) (s' : Session) : Prop :=
  ∃ fuel, (perform fuel line).outcome s = some (code, s')

/-- The command line starts one of the machines of `Starts` and ends with its run, and `Leaves` tells
what the machine at the end of the run leaves behind; or it starts none. -/
structure Launches [Host] (line : List String) (s : Session) (Starts : ι → Machine σ → Prop)
    (Leaves : ι → Machine σ → Session → Prop) : Prop where
  ended : ∀ {i m fuel r m'}, Starts i m → m.run fuel = some (r, m') →
    ∃ s', (perform fuel line).outcome s = some (.ofRun r, s') ∧ Leaves i m' s'
  unfinished : ∀ {i m fuel}, Starts i m → m.run fuel = none → (perform fuel line).outcome s = none
  refused : ∀ fuel, (∀ i m, ¬Starts i m) →
    ∃ s', (perform fuel line).outcome s = some (.refused, s') ∧ s.Says s'

structure Exits [Host] (Starts : Machine σ → Prop) (s : Session) (code : ExitCode) (s' : Session) :
    Prop where
  success : code.toNat = 0 ↔ ∃ m n m', Starts m ∧ m.RunsTo (.ok n) m'
  faulted : code.toNat = 2 ↔ ∃ m fault m', Starts m ∧ m.RunsTo (.error fault) m'
  refused : code.toNat = 1 ↔ ¬∃ m, Starts m
  untouched : code.toNat = 1 → s'.files = s.files ∧ s'.output = s.output

section Launches

variable [Host] {line : List String} {s s' : Session} {code : ExitCode}
  {Starts : ι → Machine σ → Prop} {Leaves : ι → Machine σ → Session → Prop} {i : ι} {m : Machine σ}

theorem Launches.of_starts (h : Launches line s Starts Leaves) (hstarts : Starts i m)
    (hconcludes : Concludes line s code s') :
    ∃ r m', m.RunsTo r m' ∧ code = .ofRun r ∧ Leaves i m' s' := by
  obtain ⟨fuel, houtcome⟩ := hconcludes
  cases hrun : m.run fuel with
  | none => cases (h.unfinished hstarts hrun).symm.trans houtcome
  | some result =>
    obtain ⟨r, m'⟩ := result
    obtain ⟨s'', hended, hleaves⟩ := h.ended hstarts hrun
    cases hended.symm.trans houtcome
    exact ⟨r, m', ⟨fuel, hrun⟩, rfl, hleaves⟩

theorem Launches.of_not_starts (h : Launches line s Starts Leaves) (hstarts : ∀ i m, ¬Starts i m)
    (hconcludes : Concludes line s code s') : code = .refused ∧ s.Says s' := by
  obtain ⟨fuel, houtcome⟩ := hconcludes
  obtain ⟨s'', hrefused, hspoke⟩ := h.refused fuel hstarts
  cases hrefused.symm.trans houtcome
  exact ⟨rfl, hspoke⟩

theorem Launches.concludes (h : Launches line s Starts Leaves) {r : Except Fault Nat}
    {m' : Machine σ} (hstarts : Starts i m) (hruns : m.RunsTo r m') :
    ∃ s', Concludes line s (.ofRun r) s' := by
  obtain ⟨fuel, hrun⟩ := hruns
  obtain ⟨s', houtcome, -⟩ := h.ended hstarts hrun
  exact ⟨s', fuel, houtcome⟩

theorem Launches.exists_concludes_iff (h : Launches line s Starts Leaves) :
    (∃ code s', Concludes line s code s') ↔ ∀ i m, Starts i m → ∃ r m', m.RunsTo r m' := by
  constructor
  · rintro ⟨code, s', hconcludes⟩ i m hstarts
    obtain ⟨r, m', hruns, -⟩ := h.of_starts hstarts hconcludes
    exact ⟨r, m', hruns⟩
  · intro hruns
    by_cases hstarts : ∃ i m, Starts i m
    · obtain ⟨i, m, hstarts⟩ := hstarts
      obtain ⟨r, m', hrun⟩ := hruns i m hstarts
      exact ⟨_, h.concludes hstarts hrun⟩
    · obtain ⟨s', houtcome, -⟩ := h.refused 0 fun i m hm => hstarts ⟨i, m, hm⟩
      exact ⟨_, s', 0, houtcome⟩

theorem Launches.code_eq (h : Launches line s Starts Leaves) (hconcludes : Concludes line s code s')
    {r : Except Fault Nat} {m' : Machine σ} (hstarts : Starts i m) (hruns : m.RunsTo r m') :
    code = .ofRun r := by
  obtain ⟨r', m'', hruns', rfl, -⟩ := h.of_starts hstarts hconcludes
  rw [(hruns.unique hruns').1]

theorem Launches.exits (h : Launches line s Starts Leaves) (hconcludes : Concludes line s code s') :
    Exits (fun m => ∃ i, Starts i m) s code s' := by
  by_cases hstarts : ∃ m i, Starts i m
  · obtain ⟨m, i, hm⟩ := hstarts
    obtain ⟨r, m', hruns, rfl, -⟩ := h.of_starts hm hconcludes
    cases r with
    | ok n =>
      refine ⟨iff_of_true rfl ⟨m, n, m', ⟨i, hm⟩, hruns⟩, iff_of_false nofun ?_,
        iff_of_false nofun (not_not_intro ⟨m, i, hm⟩), nofun⟩
      rintro ⟨m₁, fault, m₁', ⟨i₁, hm₁⟩, hruns₁⟩
      cases h.code_eq hconcludes hm₁ hruns₁
    | error fault =>
      refine ⟨iff_of_false nofun ?_, iff_of_true rfl ⟨m, fault, m', ⟨i, hm⟩, hruns⟩,
        iff_of_false nofun (not_not_intro ⟨m, i, hm⟩), nofun⟩
      rintro ⟨m₁, n, m₁', ⟨i₁, hm₁⟩, hruns₁⟩
      cases h.code_eq hconcludes hm₁ hruns₁
  · obtain ⟨rfl, hspoke⟩ :=
      h.of_not_starts (fun i m hm => hstarts ⟨m, i, hm⟩) hconcludes
    exact ⟨iff_of_false nofun fun ⟨m, _, _, hm, _⟩ => hstarts ⟨m, hm⟩,
      iff_of_false nofun fun ⟨m, _, _, hm, _⟩ => hstarts ⟨m, hm⟩, iff_of_true rfl hstarts,
      fun _ => ⟨hspoke.files, hspoke.output⟩⟩

end Launches

section Run

variable [Host] {args : List String} {o : RunOptions} {fuel : Nat}

theorem perform_run (h : RunOptions.ofArguments args = .ok o) :
    perform fuel ("run" :: args) = o.perform fuel := by
  rw [perform, h]
  rfl

theorem perform_run_of_error {e : UsageError} (h : RunOptions.ofArguments args = .error e) :
    perform fuel ("run" :: args) = Action.refuse (e.lines RunOptions.usage) := by
  rw [perform, h]
  rfl

theorem launches_run (args : List String) (s : Session) :
    Launches ("run" :: args) s (fun (_ : Unit) m => RunOptions.Starts s.files s.input args m)
      fun _ m s' => s'.files = s.files ∧ s'.output = s.output ++ m.sink.accepted.toList where
  ended := by
    intro _ m fuel r m' hstarts hrun
    obtain ⟨o, hargs, hloads⟩ := RunOptions.starts_iff.mp hstarts
    obtain ⟨s₁, hprepare, hspoke₁⟩ := o.checks_prepare.granted hloads
    obtain ⟨s₂, hmachine, hspoke₂⟩ := Action.on_runMachine hrun s₁
    obtain ⟨s', houtcome, hspoke'⟩ := Action.outcome_concludeRun RunOptions.halted r
      { s₂ with output := s₂.output ++ m'.sink.accepted.toList }
    refine ⟨s', ?_, ?_, ?_⟩
    · rw [perform_run hargs, ← houtcome]
      exact Action.outcome_congr ((Action.on_bind_of_ok hprepare).trans
        (Action.on_bind_of_ok hmachine))
    · rw [hspoke'.files]
      exact hspoke₂.files.trans hspoke₁.files
    · rw [hspoke'.output, hspoke₂.output, hspoke₁.output]
  unfinished := by
    intro _ m fuel hstarts hrun
    obtain ⟨o, hargs, hloads⟩ := RunOptions.starts_iff.mp hstarts
    obtain ⟨s₁, hprepare, -⟩ := o.checks_prepare.granted hloads
    obtain ⟨s₂, hmachine⟩ := Action.on_runMachine_of_unfinished hrun s₁
    rw [perform_run hargs]
    exact Action.outcome_of_unfinished ((Action.on_bind_of_ok hprepare).trans
      (Action.on_bind_of_error hmachine))
  refused := by
    intro fuel hnone
    cases hargs : RunOptions.ofArguments args with
    | error e =>
      rw [perform_run_of_error hargs]
      exact Action.outcome_refuse _ s
    | ok o =>
      rw [perform_run hargs]
      obtain ⟨s', hon, hspoke⟩ := o.checks_prepare.refused fun m hm =>
        hnone () m (RunOptions.starts_iff.mpr ⟨o, hargs, hm⟩)
      exact ⟨s', Action.outcome_of_exit (Action.on_bind_of_error hon), hspoke⟩

end Run

section Dump

variable [Host] {args : List String} {o : DumpOptions} {fuel : Nat}

theorem perform_dump (h : DumpOptions.ofArguments args = .ok o) :
    perform fuel ("dump" :: args) = o.perform fuel := by
  rw [perform, h]
  rfl

theorem perform_dump_of_error {e : UsageError} (h : DumpOptions.ofArguments args = .error e) :
    perform fuel ("dump" :: args) = Action.refuse (e.lines DumpOptions.usage) := by
  rw [perform, h]
  rfl

def dumpMachine (o : DumpOptions) (fuel : Nat) (m : Machine (Split ScriptedSink ScriptedSink)) :
    Action Unit := do
  let (result, m) ← Action.runMachine fuel m
  modify fun s => { s with output := s.output ++ m.sink.first.accepted.toList }
  Action.writeFile o.output m.sink.second.accepted.toList
  Action.concludeRun DumpOptions.halted result
  Action.say ("<redirected to '" ++ o.output ++ "'>")

section Loads

variable {s : Session} {path : Path} {m : Machine (Split ScriptedSink ScriptedSink)}

theorem on_perform_of_loads (fuel : Nat) (h : o.Loads s.files path m) :
    ∃ s', (o.perform fuel).on s = (dumpMachine o fuel m).on s' ∧
      Session.Says { s with files := s.files.insert path [] } s' := by
  obtain ⟨himage, hkey, hplace⟩ := h
  obtain ⟨s₁, hon₁, hspoke₁⟩ := (Action.checks_readImage o.codex).granted himage
  rw [← hspoke₁.files] at hkey
  obtain ⟨s₂, hon₂, hspoke₂⟩ := (DumpOptions.checks_readKey o.key).granted hkey
  obtain ⟨messages, rfl⟩ := hspoke₁.trans hspoke₂
  have hwrite := Action.on_writeFile (s := { s with messages }) hplace []
  let emptied : Session := { s with messages, files := s.files.insert path [] }
  exact ⟨emptied.say "running the codex on the Universal Machine...",
    (Action.on_bind_of_ok hon₁).trans ((Action.on_bind_of_ok hon₂).trans
      ((Action.on_bind_of_ok hwrite).trans (Action.on_bind_of_ok (Action.on_say _ _)))), _, rfl⟩

theorem on_perform_of_not_loads (fuel : Nat) (h : ∀ path m, ¬o.Loads s.files path m) :
    ∃ s', (o.perform fuel).on s = (.error (.exit .refused), s') ∧ s.Says s' := by
  -- The codex is looked at first, then the key, and the output last.
  by_cases himage : ∃ image : Image, s.files.read o.codex = .ok image.toBytes
  · obtain ⟨image, himage⟩ := himage
    obtain ⟨s₁, hon₁, hspoke₁⟩ := (Action.checks_readImage o.codex).granted himage
    by_cases hkey : ∃ key : String,
        s.files.read o.key = .ok (key.toList.flatMap String.utf8EncodeChar)
    · obtain ⟨key, hkey⟩ := hkey
      have hkey₁ := hkey
      rw [← hspoke₁.files] at hkey₁
      obtain ⟨s₂, hon₂, hspoke₂⟩ := (DumpOptions.checks_readKey o.key).granted hkey₁
      have hplace : ∀ path, s₂.files.place o.output ≠ .ok path := by
        intro path hplace
        rw [(hspoke₁.trans hspoke₂).files] at hplace
        exact h path _ (.intro himage hkey hplace)
      obtain ⟨s₃, hon₃, hspoke₃⟩ := Action.on_writeFile_of_unplaced hplace []
      exact ⟨s₃, (Action.on_bind_of_ok hon₁).trans ((Action.on_bind_of_ok hon₂).trans
        (Action.on_bind_of_error hon₃)), (hspoke₁.trans hspoke₂).trans hspoke₃⟩
    · rw [← hspoke₁.files, not_exists] at hkey
      obtain ⟨s₂, hon₂, hspoke₂⟩ := (DumpOptions.checks_readKey o.key).refused hkey
      exact ⟨s₂, (Action.on_bind_of_ok hon₁).trans (Action.on_bind_of_error hon₂),
        hspoke₁.trans hspoke₂⟩
  · obtain ⟨s₁, hon₁, hspoke₁⟩ := (Action.checks_readImage o.codex).refused (not_exists.mp himage)
    exact ⟨s₁, Action.on_bind_of_error hon₁, hspoke₁⟩

end Loads

theorem outcome_dumpMachine {s : Session} {path : Path} {r : Except Fault Nat}
    {m m' : Machine (Split ScriptedSink ScriptedSink)} (hplace : s.files.place o.output = .ok path)
    (hrun : m.run fuel = some (r, m')) :
    ∃ s', (dumpMachine o fuel m).outcome s = some (.ofRun r, s') ∧
      s'.files = s.files.insert path m'.sink.second.accepted.toList ∧
      s'.output = s.output ++ m'.sink.first.accepted.toList := by
  obtain ⟨s₁, hmachine, messages, rfl⟩ := Action.on_runMachine hrun s
  let s₂ : Session :=
    { s with messages, output := s.output ++ m'.sink.first.accepted.toList }
  have hwrite := Action.on_writeFile (s := s₂) hplace m'.sink.second.accepted.toList
  obtain ⟨s', houtcome, hspoke⟩ := Action.outcome_concludeRun_bind DumpOptions.halted r
    (Action.checks_say ("<redirected to '" ++ o.output ++ "'>"))
    { s₂ with files := s₂.files.insert path m'.sink.second.accepted.toList }
  refine ⟨s', ?_, hspoke.files, hspoke.output⟩
  rw [← houtcome]
  exact Action.outcome_congr ((Action.on_bind_of_ok hmachine).trans
    ((Action.on_bind_of_ok (Action.on_modify _ _)).trans (Action.on_bind_of_ok hwrite)))

theorem outcome_dumpMachine_of_unfinished {m : Machine (Split ScriptedSink ScriptedSink)}
    (hrun : m.run fuel = none) (s : Session) : (dumpMachine o fuel m).outcome s = none := by
  obtain ⟨s', hon⟩ := Action.on_runMachine_of_unfinished hrun s
  exact Action.outcome_of_unfinished (Action.on_bind_of_error hon)

theorem launches_dump (args : List String) (s : Session) :
    Launches ("dump" :: args) s (DumpOptions.Starts s.files args) fun path m s' =>
      s'.files = s.files.insert path m.sink.second.accepted.toList ∧
        s'.output = s.output ++ m.sink.first.accepted.toList where
  ended := by
    intro path m fuel r m' hstarts hrun
    obtain ⟨o, hargs, hloads⟩ := DumpOptions.starts_iff.mp hstarts
    obtain ⟨s₁, hon, hspoke⟩ := on_perform_of_loads fuel hloads
    have hplace : s₁.files.place o.output = .ok path := by
      rw [hspoke.files]
      exact FileTree.place_insert_eq_ok_iff.mpr hloads.place
    obtain ⟨s', houtcome, hfiles, houtput⟩ := outcome_dumpMachine hplace hrun
    refine ⟨s', ?_, ?_, ?_⟩
    · rw [perform_dump hargs, Action.outcome_congr hon, houtcome]
    · rw [hfiles, hspoke.files, FileTree.insert_insert]
    · rw [houtput, hspoke.output]
  unfinished := by
    intro path m fuel hstarts hrun
    obtain ⟨o, hargs, hloads⟩ := DumpOptions.starts_iff.mp hstarts
    obtain ⟨s₁, hon, -⟩ := on_perform_of_loads fuel hloads
    rw [perform_dump hargs, Action.outcome_congr hon, outcome_dumpMachine_of_unfinished hrun]
  refused := by
    intro fuel hnone
    cases hargs : DumpOptions.ofArguments args with
    | error e =>
      rw [perform_dump_of_error hargs]
      exact Action.outcome_refuse _ s
    | ok o =>
      rw [perform_dump hargs]
      obtain ⟨s', hon, hspoke⟩ := on_perform_of_not_loads fuel fun path m hm =>
        hnone path m (DumpOptions.starts_iff.mpr ⟨o, hargs, hm⟩)
      exact ⟨s', Action.outcome_of_exit hon, hspoke⟩

end Dump

/-- Exit codes of runs and dumps, for all arguments, files and inputs. Both end if their machine does. A
run leaves all files as they are, a dump all but its output; and if they start no machine nothing at
all has happened but that messages were shown. -/
theorem exit_codes [Host] (t : FileTree) (input : Source) (verbosity : Verbosity) (args : List String) :
    let s := Session.start t input verbosity
    ((∃ code s', Concludes ("run" :: args) s code s') ↔
      ∀ m, RunOptions.Starts t input args m → ∃ r m', m.RunsTo r m') ∧
    (∀ code s', Concludes ("run" :: args) s code s' →
      Exits (RunOptions.Starts t input args) s code s' ∧ s'.files = t) ∧
    ((∃ code s', Concludes ("dump" :: args) s code s') ↔
      ∀ path m, DumpOptions.Starts t args path m → ∃ r m', m.RunsTo r m') ∧
    ∀ code s', Concludes ("dump" :: args) s code s' →
      Exits (fun m => ∃ path, DumpOptions.Starts t args path m) s code s' ∧
      ∀ path m, DumpOptions.Starts t args path m → ∀ p ≠ path, s'.files.node? p = t.node? p := by
  intro s
  have hrun := launches_run args s
  have hdump := launches_dump args s
  refine ⟨?_, fun code s' hconcludes => ⟨?_, ?_⟩, hdump.exists_concludes_iff,
    fun code s' hconcludes => ⟨hdump.exits hconcludes, fun path m hstarts p hp => ?_⟩⟩
  · rw [hrun.exists_concludes_iff, forall_const]
    rfl
  · have hexits := hrun.exits hconcludes
    simp only [exists_const] at hexits
    exact hexits
  · by_cases hstarts : ∃ m, RunOptions.Starts t input args m
    · obtain ⟨m, hm⟩ := hstarts
      obtain ⟨-, -, -, -, hfiles, -⟩ := hrun.of_starts (i := ()) hm hconcludes
      exact hfiles
    · exact (hrun.of_not_starts (fun _ m hm => hstarts ⟨m, hm⟩) hconcludes).2.files
  · obtain ⟨-, m', -, -, hfiles, -⟩ := hdump.of_starts hstarts hconcludes
    rw [hfiles]
    exact FileTree.node?_insert_of_ne hp

open Host

/-- A key that is no text is found before the output is written, and a number that is none before any
file is opened. -/
example :
    let t : FileTree := ⟨[], [], [(["codex"], []), (["key"], [0xff]), (["out"], [1])]⟩
    let ends (args : List String) := ((perform 1 ("dump" :: args)).outcome (.start t [] .warn)).map
      fun r => (r.1, r.2.files, r.2.messages)
    ends ["codex", "--key", "key", "-o", "out"] =
        some (.refused, t, #["error: cannot read 'key': stream did not contain valid UTF-8"]) ∧
      ends ["none", "--key", "key", "--intro-bytes", "-1"] =
        some (.refused, t, #["error: --intro-bytes expects a non-negative integer, got '-1'"]) := by
  decide +kernel

end UniversalMachine.CommandLine
