import UniversalMachine.Proofs.Command.Exit
import UniversalMachine.Proofs.Machine.Output

universe u

namespace UniversalMachine

section Split

variable {σ : Type u} [Sink σ] [Host] {R : Sink.Reliable σ} {image : Image} {source : Source}
  {plain : σ}

theorem Machine.RunsTo.split {r : Except Fault Nat} {m' : Machine σ}
    (h : (Machine.load image source plain).RunsTo r m') (hplain : R.Fresh plain) (n : Nat) :
    ∃ m'', (Machine.load image source (⟨n, .plain, .plain⟩ : Split ScriptedSink ScriptedSink)).RunsTo
        r m'' ∧
      m''.sink.first.accepted.toList = (R.accepted m'.sink).take n ∧
      m''.sink.second.accepted.toList = (R.accepted m'.sink).drop n := by
  obtain ⟨fuel, hrun⟩ := h
  let S := ScriptedSink.reliable
  have hfresh : S.Fresh .plain := ⟨ScriptedSink.steady_plain, rfl⟩
  have hlevel := Machine.level_load image source n hfresh hfresh hplain
  have hsimulation := Machine.simulation_level R (Split.reliable S S n)
  obtain ⟨-, hafter⟩ := hsimulation.after hlevel fuel fun _ _ => id
  have hsplit := hsimulation.run hlevel fuel fun _ _ => id
  rw [hrun] at hsplit
  rw [Machine.after_of_run hrun] at hafter
  have hsteady : Split.Steady S S n _ := hafter.sink.right
  refine ⟨_, ⟨fuel, hsplit⟩, ?_, ?_⟩
  · rw [← hafter.sink.accepted]
    exact hsteady.accepted_first
  · rw [← hafter.sink.accepted]
    exact hsteady.accepted_second

end Split

namespace DumpOptions

variable {codex key : String} {output : Option String} {introLength : Option Nat}

def arguments (codex key : String) (output : Option String) (introLength : Option Nat) :
    List Argument :=
  [.file codex, .option "--key" key] ++ output.elim [] (fun name => [.option "-o" name]) ++
    introLength.elim [] fun n => [.option "--intro-bytes" (Nat.repr n)]

def line (codex key : String) (output : Option String) (introLength : Option Nat) : List String :=
  ["dump", codex, "--key", key] ++ output.elim [] (fun name => ["-o", name]) ++
    introLength.elim [] fun n => ["--intro-bytes", Nat.repr n]

theorem line_eq :
    line codex key output introLength =
      "dump" :: (arguments codex key output introLength).flatMap Argument.strings := by
  cases output <;> cases introLength <;> rfl

theorem whole_of_mem_arguments (hcodex : codex ∉ flags) :
    ∀ a ∈ arguments codex key output introLength, a.Whole flags := by
  have hflags : "--key" ∈ flags ∧ "-o" ∈ flags ∧ "--intro-bytes" ∈ flags := by decide
  cases output <;> cases introLength <;>
    simp [arguments, Argument.Whole, hcodex, hflags]

theorem stated_arguments (hlength : ∀ n ∈ introLength, n < Numeral.countBound) :
    Stated (arguments codex key output introLength)
      ⟨codex, key, output.getD "umix.um", introLength.getD Codex.introLength⟩ where
  codex := by cases output <;> cases introLength <;> rfl
  key := by cases output <;> cases introLength <;> rfl
  output := by cases output <;> cases introLength <;> rfl
  introLength := by
    refine ⟨introLength.toList, ?_, ?_⟩
    · cases introLength with
      | none => cases output <;> rfl
      | some n =>
        have hn := Numeral.count?_repr (hlength n rfl)
        cases output <;> exact congrArg (fun r => [r]) hn
    · cases introLength <;> rfl

end DumpOptions

namespace CommandLine

/-- A dump of a codex with its key. Whenever the codex run with the key ends, with some sink that does
not fail, the dump ends; and then its output is the introduction, and its file holds the rest and
nothing else, also if it is the file of the codex or of the key. -/
theorem dump_divides {σ : Type u} [Sink σ] [Host] (R : Sink.Reliable σ) {plain : σ}
    (hplain : R.Fresh plain) (t : FileTree) (input : Source) (verbosity : Verbosity)
    (codex keyFile key : String) (output : Option String) (introLength : Option Nat)
    {bytes : List UInt8} {path : Path} (hflag : codex ∉ DumpOptions.flags)
    (hcodex : t.read codex = .ok bytes) (hwhole : bytes.length % 4 = 0)
    (hkey : t.read keyFile = .ok (key.toList.flatMap String.utf8EncodeChar))
    (hplace : t.place (output.getD "umix.um") = .ok path)
    (hlength : ∀ n ∈ introLength, n < Numeral.countBound) :
    ∃ image, Image.ofBytes bytes = .ok image ∧ ∀ r m',
      (Machine.load image (.ofBytes (Codex.input key)) plain).RunsTo r m' →
        let line := DumpOptions.line codex keyFile output introLength
        let s := Session.start t input verbosity
        (∃ code s', Concludes line s code s') ∧
        ∀ code s', Concludes line s code s' →
          code.toNat = (if r.isOk then 0 else 2) ∧
          s'.output = (R.accepted m'.sink).take (introLength.getD 195) ∧
          s'.files.read (output.getD "umix.um") =
            .ok ((R.accepted m'.sink).drop (introLength.getD 195)) := by
  obtain ⟨image, himage⟩ : ∃ image, Image.ofBytes bytes = .ok image := ⟨_, if_pos hwhole⟩
  refine ⟨image, himage, fun r m' hruns => ?_⟩
  obtain ⟨m'', hsplit, hfirst, hsecond⟩ := hruns.split hplain (introLength.getD 195)
  rw [Image.ofBytes_eq_ok_iff] at himage
  subst himage
  have hstarts : DumpOptions.Starts t
      ((DumpOptions.arguments codex keyFile output introLength).flatMap Argument.strings) path _ :=
    ⟨_, _, ⟨DumpOptions.whole_of_mem_arguments hflag, rfl⟩, DumpOptions.stated_arguments hlength,
      .intro hcodex hkey hplace⟩
  intro line s
  have hlaunches := launches_dump
    ((DumpOptions.arguments codex keyFile output introLength).flatMap Argument.strings) s
  rw [← DumpOptions.line_eq] at hlaunches
  refine ⟨⟨_, hlaunches.concludes hstarts hsplit⟩, fun code s' hconcludes => ?_⟩
  obtain ⟨r', m₁, hruns', rfl, hfiles, houtput⟩ := hlaunches.of_starts hstarts hconcludes
  obtain ⟨rfl, rfl⟩ := hruns'.unique hsplit
  refine ⟨?_, ?_, ?_⟩
  · cases r' <;> rfl
  · exact houtput.trans hfirst
  · rw [hfiles, hsecond]
    exact FileTree.read_insert hplace

open Host

theorem dump_divides_over_codex :
    let image : Image := ⟨[0xb0000000, 0xa0000000, 0xb0000000, 0xa0000000, 0x70000000]⟩
    let t : FileTree := ⟨[], [], [(["codex"], image.toBytes), (["key"], [0x6b])]⟩
    let m := Machine.load image (.ofBytes (Codex.input "k")) ScriptedSink.plain
    let line := ["dump", "codex", "--key", "key", "-o", "codex", "--intro-bytes", "1"]
    t.read "codex" = .ok image.toBytes ∧ t.place "codex" = .ok ["codex"] ∧
      m.RunsTo (.ok 5) (m.after 5) ∧ ∃ code s', Concludes line (.start t [] .warn) code s' ∧
        code.toNat = 0 ∧ s'.output = [0x6b] ∧ s'.files.read "codex" = .ok [0x0a] := by
  intro image t m line
  have hcodex : t.read "codex" = .ok image.toBytes := by decide +kernel
  have hplace : t.place "codex" = .ok ["codex"] := by decide +kernel
  have hgoes : m.GoesOn 4 := by
    rintro (_ | _ | _ | _ | j) hj
    · exact ⟨1, by decide +kernel⟩
    · exact ⟨2, by decide +kernel⟩
    · exact ⟨3, by decide +kernel⟩
    · exact ⟨4, by decide +kernel⟩
    · omega
  have hhalt : (m.after 4).step.1 = .ok .halt := by decide +kernel
  have hruns : m.RunsTo (.ok 5) (m.after 5) :=
    Machine.runsTo_iff.mpr ⟨4, hgoes, hhalt ▸ .halt, rfl⟩
  have houtput : (m.after 5).sink.accepted.toList = [0x6b, 0x0a] := by decide +kernel
  have hplain : ScriptedSink.reliable.Fresh .plain := ⟨ScriptedSink.steady_plain, rfl⟩
  have hlength : ∀ n ∈ some 1, n < Numeral.countBound := by decide
  obtain ⟨image', himage, hdump⟩ := dump_divides ScriptedSink.reliable hplain t [] .warn "codex"
    "key" "k" (some "codex") (some 1) (by decide) hcodex (by decide) (by decide +kernel) hplace
    hlength
  have hline : DumpOptions.line "codex" "key" (some "codex") (some 1) = line := by decide +kernel
  rw [← Except.ok.inj ((Image.ofBytes_toBytes image).symm.trans himage), hline] at hdump
  obtain ⟨⟨code, s', hconcludes⟩, hends⟩ := hdump (.ok 5) (m.after 5) hruns
  obtain ⟨hcode, hout, hfile⟩ := hends code s' hconcludes
  refine ⟨hcodex, hplace, hruns, code, s', hconcludes, hcode, hout.trans ?_, hfile.trans ?_⟩
  · exact congrArg (List.take 1) houtput
  · exact congrArg (Except.ok ∘ List.drop 1) houtput

end CommandLine

end UniversalMachine
