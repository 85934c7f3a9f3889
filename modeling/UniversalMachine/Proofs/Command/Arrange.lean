import Mathlib.Data.List.Nodup
import UniversalMachine.Command.Line
import UniversalMachine.Proofs.Command.Argument

namespace UniversalMachine

theorem filterMap_eq_toList {α β : Type*} {f : α → Option β} {xs : List α} {x : α}
    (hnodup : xs.Nodup) (hx : x ∈ xs) (hf : ∀ y, y ≠ x → f y = none) :
    xs.filterMap f = (f x).toList := by
  obtain ⟨before, after, rfl⟩ := List.append_of_mem hx
  have hnot := (List.nodup_cons.mp (List.nodup_middle.mp hnodup)).1
  rw [List.mem_append, not_or] at hnot
  have hbefore : before.filterMap f = [] :=
    List.filterMap_eq_nil_iff.mpr fun y hy => hf y fun heq => hnot.1 (heq ▸ hy)
  have hafter : after.filterMap f = [] :=
    List.filterMap_eq_nil_iff.mpr fun y hy => hf y fun heq => hnot.2 (heq ▸ hy)
  rw [List.filterMap_append, List.filterMap_cons, hbefore, hafter]
  cases f x <;> rfl

namespace Argument

def arranged (order : List String) (arguments : List Argument) : List Argument :=
  (files arguments).map file ++
    order.filterMap fun flag => (values flag arguments).getLast?.map (option flag)

variable {flags order : List String} {arguments : List Argument} {flag : String} {a : Argument}

theorem file_mem_of_mem_files {name : String} (h : name ∈ files arguments) :
    file name ∈ arguments := by
  obtain ⟨a, ha, hname⟩ := List.mem_filterMap.mp h
  cases a with
  | file name' => exact Option.some.inj hname ▸ ha
  | option flag value => cases hname
  | dangling flag => cases hname

theorem mem_arranged_iff :
    a ∈ arranged order arguments ↔ (∃ name ∈ files arguments, file name = a) ∨
      ∃ flag ∈ order, ∃ value ∈ (values flag arguments).getLast?, option flag value = a := by
  simp only [arranged, List.mem_append, List.mem_map, List.mem_filterMap, Option.map_eq_some_iff,
    Option.mem_def]

theorem whole_arranged (hwhole : ∀ a ∈ arguments, a.Whole flags) (horder : order ⊆ flags) :
    ∀ a ∈ arranged order arguments, a.Whole flags := by
  intro a ha
  obtain ⟨name, hname, rfl⟩ | ⟨flag, hflag, value, -, rfl⟩ := mem_arranged_iff.mp ha
  · exact hwhole _ (file_mem_of_mem_files hname)
  · exact horder hflag

theorem files_arranged (order : List String) (arguments : List Argument) :
    files (arranged order arguments) = files arguments := by
  have hoptions : files (order.filterMap fun flag =>
      (values flag arguments).getLast?.map (option flag)) = [] := by
    rw [files, List.filterMap_filterMap, List.filterMap_eq_nil_iff]
    intro flag _
    cases (values flag arguments).getLast? <;> rfl
  rw [arranged, files, List.filterMap_append, ← files, ← files, files_map_file, hoptions, List.append_nil]

theorem values_arranged (hnodup : order.Nodup) (hflag : flag ∈ order) :
    values flag (arranged order arguments) = (values flag arguments).getLast?.toList := by
  rw [arranged, values, List.filterMap_append, ← values, values_map_file, List.nil_append,
    List.filterMap_filterMap, filterMap_eq_toList hnodup hflag]
  · cases (values flag arguments).getLast? with
    | none => rfl
    | some value => exact congrArg Option.toList (if_pos rfl)
  · intro flag' hne
    cases (values flag' arguments).getLast? with
    | none => rfl
    | some value => exact if_neg hne

theorem getLast?_values_arranged (hnodup : order.Nodup) (hflag : flag ∈ order) :
    (values flag (arranged order arguments)).getLast? = (values flag arguments).getLast? := by
  rw [values_arranged hnodup hflag]
  cases (values flag arguments).getLast? <;> rfl

section LastCount

variable {fallback n : Nat}

theorem exists_lastCount (fallback : Nat)
    (hcounts : ∀ value ∈ values flag arguments, (Numeral.count? value).isSome) :
    ∃ n, LastCount flag fallback arguments n := by
  refine ⟨_, (values flag arguments).map fun value => (Numeral.count? value).getD 0, ?_, rfl⟩
  rw [List.map_map]
  refine List.map_congr_left fun value hvalue => ?_
  obtain ⟨n, hn⟩ := Option.isSome_iff_exists.mp (hcounts value hvalue)
  rw [Function.comp_apply, hn, Option.getD_some]

theorem LastCount.arranged (h : LastCount flag fallback arguments n) (hnodup : order.Nodup)
    (hflag : flag ∈ order) : LastCount flag fallback (arranged order arguments) n := by
  obtain ⟨counts, hcounts, rfl⟩ := h
  have hlast := congrArg List.getLast? hcounts
  rw [List.getLast?_map, List.getLast?_map] at hlast
  refine ⟨counts.getLast?.toList, ?_, ?_⟩
  · rw [values_arranged hnodup hflag, ← Option.toList_map, hlast, Option.toList_map]
  · rw [List.getLastD_eq_getLast?, List.getLastD_eq_getLast?]
    cases counts.getLast? <;> rfl

end LastCount

theorem foldlM_arranged {α ε : Type} {add : α → Argument → Except ε α} {start o : α}
    {R : List Argument → α → Prop}
    (hread : ∀ {args o}, (ofStrings flags args).foldlM add start = .ok o ↔
      ∃ arguments, Written flags arguments args ∧ R arguments o)
    (hwhole : ∀ a ∈ arguments, a.Whole flags) (horder : order ⊆ flags)
    (h : R arguments o) (h' : R (arranged order arguments) o) :
    (ofStrings flags ((arranged order arguments).flatMap strings)).foldlM add start =
      (ofStrings flags (arguments.flatMap strings)).foldlM add start := by
  have hwritten : Written flags (arranged order arguments) _ :=
    ⟨whole_arranged hwhole horder, rfl⟩
  exact (hread.mpr ⟨_, hwritten, h'⟩).trans (hread.mpr ⟨_, ⟨hwhole, rfl⟩, h⟩).symm

end Argument

section Options

variable {arguments : List Argument} {order : List String}

theorem RunOptions.Stated.arranged {o : RunOptions} (h : Stated arguments o)
    (horder : order.Perm flags) : Stated (Argument.arranged order arguments) o := by
  have hnodup : order.Nodup := horder.nodup_iff.mpr (by decide)
  refine ⟨?_, ?_, h.limit.arranged hnodup (horder.mem_iff.mpr (by decide))⟩
  · rw [Argument.files_arranged, h.files]
  · rw [Argument.getLast?_values_arranged hnodup (horder.mem_iff.mpr (by decide)), h.input]

theorem DisassembleOptions.Stated.arranged {o : DisassembleOptions} (h : Stated arguments o)
    (horder : order.Perm flags) : Stated (Argument.arranged order arguments) o := by
  have hnodup : order.Nodup := horder.nodup_iff.mpr (by decide)
  refine ⟨?_, ?_⟩
  · rw [Argument.files_arranged, h.files]
  · rw [Argument.getLast?_values_arranged hnodup (horder.mem_iff.mpr (by decide)), h.output]

theorem DumpDraft.Stated.arranged {o : DumpDraft} (h : Stated arguments o)
    (horder : order.Perm DumpOptions.flags) : Stated (Argument.arranged order arguments) o := by
  have hnodup : order.Nodup := horder.nodup_iff.mpr (by decide)
  refine ⟨?_, ?_, ?_, h.introLength.arranged hnodup (horder.mem_iff.mpr (by decide))⟩
  · rw [Argument.files_arranged, h.codex]
  · rw [Argument.getLast?_values_arranged hnodup (horder.mem_iff.mpr (by decide)), h.key]
  · rw [List.getLastD_eq_getLast?,
      Argument.getLast?_values_arranged hnodup (horder.mem_iff.mpr (by decide)), h.output,
      List.getLastD_eq_getLast?]

theorem RunOptions.ofArguments_arranged (hwhole : ∀ a ∈ arguments, a.Whole flags)
    (horder : order.Perm flags)
    (hcounts : ∀ value ∈ Argument.values "--max-segment-words" arguments,
      (Numeral.count? value).isSome) :
    ofArguments ((Argument.arranged order arguments).flatMap Argument.strings) =
      ofArguments (arguments.flatMap Argument.strings) := by
  obtain ⟨limit, hlimit⟩ := Argument.exists_lastCount Memory.noLimit hcounts
  have hstated : Stated arguments ⟨_, _, limit⟩ := ⟨rfl, rfl, hlimit⟩
  rw [ofArguments, ofArguments, Argument.foldlM_arranged foldlM_add_eq_ok_iff hwhole horder.subset
    hstated (hstated.arranged horder)]

theorem DisassembleOptions.ofArguments_arranged (hwhole : ∀ a ∈ arguments, a.Whole flags)
    (horder : order.Perm flags) :
    ofArguments ((Argument.arranged order arguments).flatMap Argument.strings) =
      ofArguments (arguments.flatMap Argument.strings) := by
  have hstated : Stated arguments ⟨_, _⟩ := ⟨rfl, rfl⟩
  rw [ofArguments, ofArguments, Argument.foldlM_arranged foldlM_add_eq_ok_iff hwhole horder.subset
    hstated (hstated.arranged horder)]

theorem DumpOptions.ofArguments_arranged (hwhole : ∀ a ∈ arguments, a.Whole flags)
    (horder : order.Perm flags)
    (hcounts : ∀ value ∈ Argument.values "--intro-bytes" arguments,
      (Numeral.count? value).isSome)
    (hfiles : (Argument.files arguments).length ≤ 1) :
    ofArguments ((Argument.arranged order arguments).flatMap Argument.strings) =
      ofArguments (arguments.flatMap Argument.strings) := by
  obtain ⟨introLength, hlength⟩ := Argument.exists_lastCount Codex.introLength hcounts
  obtain ⟨codex, hcodex⟩ : ∃ codex : Option String, Argument.files arguments = codex.toList := by
    rcases hnames : Argument.files arguments with _ | ⟨codex, _ | ⟨other, names⟩⟩
    · exact ⟨none, rfl⟩
    · exact ⟨some codex, rfl⟩
    · simp [hnames] at hfiles
  have hstated : DumpDraft.Stated arguments ⟨codex, _, _, introLength⟩ :=
    ⟨hcodex, rfl, rfl, hlength⟩
  rw [ofArguments, ofArguments, Argument.foldlM_arranged DumpDraft.foldlM_add_eq_ok_iff hwhole
    horder.subset hstated (hstated.arranged horder)]

end Options

namespace CommandLine

/-- Each of the three commands does the same, in every session and with any number of steps, whether
its files and flags are mixed or arranged. Flags that want a count have to be given one, and `dump` at
most one file. -/
theorem perform_arranged [Host] (fuel : Nat) (arguments : List Argument) (order : List String) :
    ((∀ a ∈ arguments, a.Whole RunOptions.flags) → order.Perm RunOptions.flags →
      (∀ value ∈ Argument.values "--max-segment-words" arguments,
        (Numeral.count? value).isSome) →
      perform fuel ("run" :: arguments.flatMap Argument.strings) =
        perform fuel ("run" :: (Argument.arranged order arguments).flatMap Argument.strings)) ∧
    ((∀ a ∈ arguments, a.Whole DumpOptions.flags) → order.Perm DumpOptions.flags →
      (∀ value ∈ Argument.values "--intro-bytes" arguments, (Numeral.count? value).isSome) →
      (Argument.files arguments).length ≤ 1 →
      perform fuel ("dump" :: arguments.flatMap Argument.strings) =
        perform fuel ("dump" :: (Argument.arranged order arguments).flatMap Argument.strings)) ∧
    ((∀ a ∈ arguments, a.Whole DisassembleOptions.flags) → order.Perm DisassembleOptions.flags →
      perform fuel ("disassemble" :: arguments.flatMap Argument.strings) =
        perform fuel
          ("disassemble" :: (Argument.arranged order arguments).flatMap Argument.strings)) := by
  refine ⟨fun hwhole horder hcounts => ?_, fun hwhole horder hcounts hfiles => ?_,
    fun hwhole horder => ?_⟩
  · rw [perform, perform, RunOptions.ofArguments_arranged hwhole horder hcounts]
  · rw [perform, perform, DumpOptions.ofArguments_arranged hwhole horder hcounts hfiles]
  · rw [perform, perform, DisassembleOptions.ofArguments_arranged hwhole horder]

open Host

theorem perform_arranged_of_mixed :
    perform 9 ["run", "--input", "a", "x", "--max-segment-words", "+7", "--input", "--input", "-o"] =
        perform 9 ["run", "x", "-o", "--max-segment-words", "+7", "--input", "--input"] ∧
      perform 9 ["dump", "--key", "-o", "-o", "b", "x", "--intro-bytes", "07", "-o", "c"] =
        perform 9 ["dump", "x", "-o", "c", "--intro-bytes", "07", "--key", "-o"] ∧
      perform 9 ["disassemble", "-o", "a", "x", "-o", "-o"] =
        perform 9 ["disassemble", "x", "-o", "-o"] := by
  have hrun := (perform_arranged 9
    [.option "--input" "a", .file "x", .option "--max-segment-words" "+7",
      .option "--input" "--input", .file "-o"] ["--max-segment-words", "--input"]).1
    (by decide +kernel) (by decide) (by decide +kernel)
  have hdump := (perform_arranged 9
    [.option "--key" "-o", .option "-o" "b", .file "x", .option "--intro-bytes" "07",
      .option "-o" "c"] ["-o", "--intro-bytes", "--key"]).2.1
    (by decide +kernel) (by decide) (by decide +kernel) (by decide)
  have hdisassemble := (perform_arranged 9
    [.option "-o" "a", .file "x", .option "-o" "-o"] ["-o"]).2.2 (by decide +kernel) (by decide)
  exact ⟨hrun, hdump, hdisassemble⟩

end CommandLine

end UniversalMachine
