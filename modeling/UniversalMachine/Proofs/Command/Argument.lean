import Mathlib.Data.List.Induction
import UniversalMachine.Command.Disassemble
import UniversalMachine.Command.Dump
import UniversalMachine.Proofs.Traverse
/-! What arguments say. A command reads its options out of them from left to right; here they are told
from the arguments as a whole: all files, and of each flag the values it was given. -/

namespace UniversalMachine

namespace Numeral

theorem ofDigits?_toDigits (n : Nat) : ofDigits? (Nat.toDigits 10 n) = some n := by
  have hdigits : (Nat.toDigits 10 n).all Char.isDigit :=
    List.all_eq_true.mpr fun c hc => Nat.isDigit_of_mem_toDigits (by decide) (by decide) hc
  rw [ofDigits?, if_pos ⟨Nat.toDigits_ne_nil, hdigits⟩, Nat.ofDigitChars_ten_toDigits]

theorem count?_repr {n : Nat} (h : n < countBound) : count? (Nat.repr n) = some n := by
  have hplus : ∀ cs, Nat.toDigits 10 n ≠ '+' :: cs := by
    intro cs hcs
    have hdigit : '+' ∈ Nat.toDigits 10 n := hcs ▸ List.mem_cons_self
    exact absurd (Nat.isDigit_of_mem_toDigits (by decide) (by decide) hdigit) (by decide)
  rw [count?, Nat.toList_repr]
  split
  · next cs hcs => exact absurd hcs (hplus cs)
  · rw [ofDigits?_toDigits]
    exact Option.filter_some_pos (decide_eq_true h)

end Numeral

namespace Argument

variable {flags args : List String} {name flag value : String} {arguments : List Argument}

def strings : Argument → List String
  | file name => [name]
  | option flag value => [flag, value]
  | dangling flag => [flag]

def Whole (flags : List String) : Argument → Prop
  | file name => name ∉ flags
  | option flag _ => flag ∈ flags
  | dangling _ => False

instance (flags : List String) : (a : Argument) → Decidable (a.Whole flags)
  | file name => inferInstanceAs (Decidable (name ∉ flags))
  | option flag _ => inferInstanceAs (Decidable (flag ∈ flags))
  | dangling _ => inferInstanceAs (Decidable False)

structure Written (flags : List String) (arguments : List Argument) (args : List String) : Prop where
  whole : ∀ a ∈ arguments, a.Whole flags
  eq : args = arguments.flatMap strings

def files (arguments : List Argument) : List String :=
  arguments.filterMap fun
    | file name => some name
    | _ => none

def values (flag : String) (arguments : List Argument) : List String :=
  arguments.filterMap fun
    | option flag' value => if flag' = flag then some value else none
    | _ => none

def LastCount (flag : String) (fallback : Nat) (arguments : List Argument) (n : Nat) : Prop :=
  ∃ counts : List Nat, (values flag arguments).map Numeral.count? = counts.map some ∧
    n = counts.getLastD fallback

theorem ofStrings_file (h : name ∉ flags) :
    ofStrings flags (name :: args) = .file name :: ofStrings flags args := by
  cases args with
  | nil => exact if_neg h
  | cons next rest => rw [ofStrings, if_neg h]

theorem ofStrings_option (h : flag ∈ flags) :
    ofStrings flags (flag :: value :: args) = .option flag value :: ofStrings flags args := by
  rw [ofStrings, if_pos h]

theorem ofStrings_flatMap (h : ∀ a ∈ arguments, a.Whole flags) :
    ofStrings flags (arguments.flatMap strings) = arguments := by
  induction arguments with
  | nil => rfl
  | cons a arguments ih =>
    have ha := h a List.mem_cons_self
    have ih := ih fun a' ha' => h a' (List.mem_cons_of_mem a ha')
    rw [List.flatMap_cons]
    cases a with
    | file name => exact (ofStrings_file ha).trans (congrArg _ ih)
    | option flag value => exact (ofStrings_option ha).trans (congrArg _ ih)
    | dangling flag => exact ha.elim

theorem flatMap_strings (flags args : List String) :
    (ofStrings flags args).flatMap strings = args := by
  fun_induction ofStrings flags args with
  | case1 | case2 | case3 => rfl
  | case4 flag value rest h ih | case5 name next rest h ih =>
    rw [List.flatMap_cons, ih]
    rfl

theorem whole_or_dangling {a : Argument} (ha : a ∈ ofStrings flags args) :
    a.Whole flags ∨ ∃ flag, a = .dangling flag := by
  fun_induction ofStrings flags args with
  | case1 => cases ha
  | case2 flag h => exact .inr ⟨flag, List.mem_singleton.mp ha⟩
  | case3 name h =>
    rw [List.mem_singleton.mp ha]
    exact .inl h
  | case4 flag value rest h ih =>
    obtain rfl | ha := List.mem_cons.mp ha
    · exact .inl h
    · exact ih ha
  | case5 name next rest h ih =>
    obtain rfl | ha := List.mem_cons.mp ha
    · exact .inl h
    · exact ih ha

theorem files_map_file (names : List String) : files (names.map file) = names := by
  rw [files, List.filterMap_map]
  exact List.filterMap_some

theorem values_map_file (flag : String) (names : List String) :
    values flag (names.map file) = [] := by
  rw [values, List.filterMap_map, List.filterMap_eq_nil_iff]
  exact fun _ _ => rfl

section Append

variable {flag' : String} {fallback n : Nat}

@[simp] theorem files_append_file : files (arguments ++ [file name]) = files arguments ++ [name] := by
  simp [files]

@[simp] theorem files_append_option :
    files (arguments ++ [option flag value]) = files arguments := by
  simp [files]

@[simp] theorem values_append_file :
    values flag (arguments ++ [file name]) = values flag arguments := by
  simp [values]

@[simp] theorem values_append_self :
    values flag (arguments ++ [option flag value]) = values flag arguments ++ [value] := by
  simp [values]

@[simp] theorem values_append_of_ne (h : flag' ≠ flag) :
    values flag (arguments ++ [option flag' value]) = values flag arguments := by
  simp [values, h]

theorem lastCount_nil : LastCount flag fallback [] n ↔ n = fallback := by
  constructor
  · rintro ⟨counts, hcounts, rfl⟩
    rw [List.map_eq_nil_iff.mp hcounts.symm]
    rfl
  · rintro rfl
    exact ⟨[], rfl, rfl⟩

@[simp] theorem lastCount_append_file :
    LastCount flag fallback (arguments ++ [file name]) n ↔ LastCount flag fallback arguments n := by
  rw [LastCount, LastCount, values_append_file]

@[simp] theorem lastCount_append_self :
    LastCount flag fallback (arguments ++ [option flag value]) n ↔
      (∃ n', LastCount flag fallback arguments n') ∧ Numeral.count? value = some n := by
  rw [LastCount, values_append_self, List.map_append]
  constructor
  · rintro ⟨counts, hcounts, rfl⟩
    obtain ⟨before, last, rfl, hbefore, hlast⟩ := List.map_eq_append_iff.mp hcounts.symm
    obtain ⟨n, rest, rfl, hn, hrest⟩ := List.map_eq_cons_iff.mp hlast
    rw [List.map_eq_nil_iff.mp hrest, List.getLastD_concat]
    exact ⟨⟨_, before, hbefore.symm, rfl⟩, hn.symm⟩
  · rintro ⟨⟨_, counts, hcounts, rfl⟩, hvalue⟩
    refine ⟨counts ++ [n], ?_, List.getLastD_concat.symm⟩
    rw [hcounts, List.map_cons, hvalue, List.map_append]
    rfl

@[simp] theorem lastCount_append_of_ne (h : flag' ≠ flag) :
    LastCount flag fallback (arguments ++ [option flag' value]) n ↔
      LastCount flag fallback arguments n := by
  rw [LastCount, LastCount, values_append_of_ne h]

end Append

section Fold

variable {α ε : Type} {add : α → Argument → Except ε α} {start o : α} {R : List Argument → α → Prop}

theorem foldlM_eq_ok_iff_of_whole (hnil : ∀ o, R [] o ↔ o = start)
    (hconcat : ∀ arguments a o, a.Whole flags →
      (R (arguments ++ [a]) o ↔ ∃ o', R arguments o' ∧ add o' a = .ok o))
    (hwhole : ∀ a ∈ arguments, a.Whole flags) :
    arguments.foldlM add start = .ok o ↔ R arguments o := by
  induction arguments using List.reverseRecOn generalizing o with
  | nil =>
    rw [hnil, List.foldlM_nil]
    change Except.ok start = .ok o ↔ _
    rw [Except.ok.injEq, eq_comm]
  | append_singleton arguments a ih =>
    obtain ⟨hwhole, ha⟩ := List.forall_mem_append.mp hwhole
    rw [hconcat arguments a o (ha a List.mem_cons_self), foldlM_concat_eq_ok_iff]
    simp only [ih hwhole]

theorem foldlM_ofStrings_eq_ok_iff (hnil : ∀ o, R [] o ↔ o = start)
    (hconcat : ∀ arguments a o, a.Whole flags →
      (R (arguments ++ [a]) o ↔ ∃ o', R arguments o' ∧ add o' a = .ok o))
    (hdangling : ∀ o flag, ∃ e, add o (.dangling flag) = .error e) :
    (ofStrings flags args).foldlM add start = .ok o ↔
      ∃ arguments, Written flags arguments args ∧ R arguments o := by
  constructor
  · intro h
    have hwhole : ∀ a ∈ ofStrings flags args, a.Whole flags := by
      intro a ha
      obtain hwhole | ⟨flag, rfl⟩ := whole_or_dangling ha
      · exact hwhole
      · obtain ⟨o₁, o₂, hok⟩ := exists_of_foldlM h ha
        obtain ⟨e, herror⟩ := hdangling o₁ flag
        cases hok.symm.trans herror
    exact ⟨_, ⟨hwhole, (flatMap_strings flags args).symm⟩,
      (foldlM_eq_ok_iff_of_whole hnil hconcat hwhole).mp h⟩
  · rintro ⟨arguments, ⟨hwhole, rfl⟩, hR⟩
    rw [ofStrings_flatMap hwhole]
    exact (foldlM_eq_ok_iff_of_whole hnil hconcat hwhole).mpr hR

end Fold

end Argument

structure RunOptions.Stated (arguments : List Argument) (o : RunOptions) : Prop where
  files : o.files = Argument.files arguments
  input : o.input = (Argument.values "--input" arguments).getLast?
  limit : Argument.LastCount "--max-segment-words" Memory.noLimit arguments o.limit

namespace RunOptions

variable {args : List String} {o : RunOptions} {arguments : List Argument}

theorem stated_mk {files : List String} {input : Option String} {limit : Nat} :
    Stated arguments ⟨files, input, limit⟩ ↔ files = Argument.files arguments ∧
      input = (Argument.values "--input" arguments).getLast? ∧
      Argument.LastCount "--max-segment-words" Memory.noLimit arguments limit :=
  ⟨fun h => ⟨h.files, h.input, h.limit⟩, fun ⟨hfiles, hinput, hlimit⟩ => ⟨hfiles, hinput, hlimit⟩⟩

theorem exists_iff {P : RunOptions → Prop} :
    (∃ o, P o) ↔ ∃ files input limit, P ⟨files, input, limit⟩ :=
  ⟨fun ⟨⟨files, input, limit⟩, h⟩ => ⟨files, input, limit, h⟩, fun ⟨_, _, _, h⟩ => ⟨_, h⟩⟩

theorem stated_nil : Stated [] o ↔ o = {} := by
  obtain ⟨files, input, limit⟩ := o
  simp [stated_mk, Argument.lastCount_nil, Argument.files, Argument.values]

theorem stated_append {a : Argument} (ha : a.Whole flags) :
    Stated (arguments ++ [a]) o ↔ ∃ o', Stated arguments o' ∧ add o' a = .ok o := by
  obtain ⟨files, input, limit⟩ := o
  rw [exists_iff]
  cases a with
  | file name => simp [stated_mk, add, eq_comm, and_comm, and_left_comm, and_assoc]
  | option flag value =>
    have hflag : flag ∈ ["--input", "--max-segment-words"] := ha
    simp only [List.mem_cons, List.not_mem_nil, or_false] at hflag
    obtain rfl | rfl := hflag
    · simp [stated_mk, add, eq_comm, and_comm, and_left_comm, and_assoc]
    · cases hvalue : Numeral.count? value <;>
        simp [stated_mk, add, hvalue, eq_comm, and_comm, and_left_comm, and_assoc]
  | dangling flag => exact ha.elim

theorem foldlM_add_eq_ok_iff :
    (Argument.ofStrings flags args).foldlM add {} = .ok o ↔
      ∃ arguments, Argument.Written flags arguments args ∧ Stated arguments o :=
  Argument.foldlM_ofStrings_eq_ok_iff (fun _ => stated_nil) (fun _ _ _ ha => stated_append ha)
    fun _ flag => ⟨.missingValue flag, rfl⟩

theorem ofArguments_eq_ok_iff :
    ofArguments args = .ok o ↔
      ∃ arguments, Argument.Written flags arguments args ∧ Stated arguments o ∧
        o.files ≠ [] := by
  rw [ofArguments, bind_eq_ok_iff]
  constructor
  · rintro ⟨o', hread, h⟩
    obtain ⟨arguments, hwritten, hstated⟩ := foldlM_add_eq_ok_iff.mp hread
    split at h
    · cases h
    · next hne =>
      cases h
      exact ⟨arguments, hwritten, hstated, hne⟩
  · rintro ⟨arguments, hwritten, hstated, hne⟩
    exact ⟨o, foldlM_add_eq_ok_iff.mpr ⟨arguments, hwritten, hstated⟩, if_neg hne⟩

end RunOptions

structure DisassembleOptions.Stated (arguments : List Argument) (o : DisassembleOptions) : Prop where
  files : o.files = Argument.files arguments
  output : o.output = (Argument.values "-o" arguments).getLast?

namespace DisassembleOptions

variable {args : List String} {o : DisassembleOptions} {arguments : List Argument}

theorem stated_mk {files : List String} {output : Option String} :
    Stated arguments ⟨files, output⟩ ↔ files = Argument.files arguments ∧
      output = (Argument.values "-o" arguments).getLast? :=
  ⟨fun h => ⟨h.files, h.output⟩, fun ⟨hfiles, houtput⟩ => ⟨hfiles, houtput⟩⟩

theorem exists_iff {P : DisassembleOptions → Prop} :
    (∃ o, P o) ↔ ∃ files output, P ⟨files, output⟩ :=
  ⟨fun ⟨⟨files, output⟩, h⟩ => ⟨files, output, h⟩, fun ⟨_, _, h⟩ => ⟨_, h⟩⟩

theorem stated_nil : Stated [] o ↔ o = {} := by
  obtain ⟨files, output⟩ := o
  simp [stated_mk, Argument.files, Argument.values]

theorem stated_append {a : Argument} (ha : a.Whole flags) :
    Stated (arguments ++ [a]) o ↔ ∃ o', Stated arguments o' ∧ add o' a = .ok o := by
  obtain ⟨files, output⟩ := o
  rw [exists_iff]
  cases a with
  | file name => simp [stated_mk, add, eq_comm, and_comm]
  | option flag value =>
    obtain rfl : flag = "-o" := List.mem_singleton.mp ha
    simp [stated_mk, add, eq_comm]
  | dangling flag => exact ha.elim

theorem foldlM_add_eq_ok_iff :
    (Argument.ofStrings flags args).foldlM add {} = .ok o ↔
      ∃ arguments, Argument.Written flags arguments args ∧ Stated arguments o :=
  Argument.foldlM_ofStrings_eq_ok_iff (fun _ => stated_nil) (fun _ _ _ ha => stated_append ha)
    fun _ flag => ⟨.missingValue flag, rfl⟩

end DisassembleOptions

structure DumpDraft.Stated (arguments : List Argument) (o : DumpDraft) : Prop where
  codex : Argument.files arguments = o.codex.toList
  key : o.key = (Argument.values "--key" arguments).getLast?
  output : o.output = (Argument.values "-o" arguments).getLastD "umix.um"
  introLength : Argument.LastCount "--intro-bytes" Codex.introLength arguments o.introLength

structure DumpOptions.Stated (arguments : List Argument) (o : DumpOptions) : Prop where
  codex : Argument.files arguments = [o.codex]
  key : (Argument.values "--key" arguments).getLast? = some o.key
  output : o.output = (Argument.values "-o" arguments).getLastD "umix.um"
  introLength : Argument.LastCount "--intro-bytes" Codex.introLength arguments o.introLength

namespace DumpDraft

variable {args : List String} {o : DumpDraft} {arguments : List Argument}

theorem stated_mk {codex key : Option String} {output : String} {introLength : Nat} :
    Stated arguments ⟨codex, key, output, introLength⟩ ↔
      Argument.files arguments = codex.toList ∧
      key = (Argument.values "--key" arguments).getLast? ∧
      output = (Argument.values "-o" arguments).getLastD "umix.um" ∧
      Argument.LastCount "--intro-bytes" Codex.introLength arguments introLength :=
  ⟨fun h => ⟨h.codex, h.key, h.output, h.introLength⟩,
    fun ⟨hcodex, hkey, houtput, hlength⟩ => ⟨hcodex, hkey, houtput, hlength⟩⟩

theorem exists_iff {P : DumpDraft → Prop} :
    (∃ o, P o) ↔ ∃ codex key output introLength, P ⟨codex, key, output, introLength⟩ :=
  ⟨fun ⟨⟨codex, key, output, introLength⟩, h⟩ => ⟨codex, key, output, introLength, h⟩,
    fun ⟨_, _, _, _, h⟩ => ⟨_, h⟩⟩

theorem stated_nil : Stated [] o ↔ o = {} := by
  obtain ⟨codex, key, output, introLength⟩ := o
  simp [stated_mk, Argument.lastCount_nil, Argument.files, Argument.values]

theorem stated_append_file {name : String} :
    Stated (arguments ++ [.file name]) o ↔
      ∃ o', Stated arguments o' ∧ DumpOptions.add o' (.file name) = .ok o := by
  constructor
  · intro h
    obtain ⟨codex, key, output, introLength⟩ := o
    rw [stated_mk, Argument.files_append_file, Argument.values_append_file,
      Argument.values_append_file, Argument.lastCount_append_file] at h
    obtain ⟨hcodex, hrest⟩ := h
    cases codex with
    | none => simp at hcodex
    | some codex =>
      obtain ⟨hnone, rfl⟩ : Argument.files arguments = [] ∧ name = codex := by
        simpa [List.append_eq_cons_iff] using hcodex
      exact ⟨⟨none, key, output, introLength⟩, stated_mk.mpr ⟨hnone, hrest⟩, rfl⟩
  · rintro ⟨⟨codex, key, output, introLength⟩, h, hadd⟩
    obtain ⟨hcodex, hrest⟩ := stated_mk.mp h
    cases codex with
    | some codex => cases hadd
    | none =>
      cases hadd
      rw [stated_mk, Argument.files_append_file, Argument.values_append_file,
        Argument.values_append_file, Argument.lastCount_append_file, hcodex]
      exact ⟨rfl, hrest⟩

theorem stated_append {a : Argument} (ha : a.Whole DumpOptions.flags) :
    Stated (arguments ++ [a]) o ↔ ∃ o', Stated arguments o' ∧ DumpOptions.add o' a = .ok o := by
  cases a with
  | file name => exact stated_append_file
  | option flag value =>
    obtain ⟨codex, key, output, introLength⟩ := o
    rw [exists_iff]
    have hflag : flag ∈ ["--key", "-o", "--intro-bytes"] := ha
    simp only [List.mem_cons, List.not_mem_nil, or_false] at hflag
    obtain rfl | rfl | rfl := hflag
    · simp [stated_mk, DumpOptions.add, @eq_comm _ key, and_comm, and_left_comm, and_assoc]
    · simp [stated_mk, DumpOptions.add, @eq_comm _ output, and_comm, and_left_comm, and_assoc]
    · cases hvalue : Numeral.count? value <;>
        simp [stated_mk, DumpOptions.add, hvalue, and_comm, and_left_comm, and_assoc]
  | dangling flag => exact ha.elim

theorem foldlM_add_eq_ok_iff :
    (Argument.ofStrings DumpOptions.flags args).foldlM DumpOptions.add {} = .ok o ↔
      ∃ arguments, Argument.Written DumpOptions.flags arguments args ∧ Stated arguments o :=
  Argument.foldlM_ofStrings_eq_ok_iff (fun _ => stated_nil) (fun _ _ _ ha => stated_append ha)
    fun _ flag => ⟨.missingValue flag, rfl⟩

end DumpDraft

theorem DumpOptions.ofArguments_eq_ok_iff {args : List String} {o : DumpOptions} :
    ofArguments args = .ok o ↔
      ∃ arguments, Argument.Written flags arguments args ∧ Stated arguments o := by
  rw [ofArguments, bind_eq_ok_iff]
  constructor
  · rintro ⟨draft, hread, h⟩
    obtain ⟨arguments, hwritten, hstated⟩ := DumpDraft.foldlM_add_eq_ok_iff.mp hread
    obtain ⟨_ | codex, _ | key, output, introLength⟩ := draft
    · cases h
    · cases h
    · cases h
    · cases h
      exact ⟨arguments, hwritten, hstated.codex, hstated.key.symm, hstated.output,
        hstated.introLength⟩
  · rintro ⟨arguments, hwritten, hstated⟩
    obtain ⟨codex, key, output, introLength⟩ := o
    have hdraft : DumpDraft.Stated arguments ⟨some codex, some key, output, introLength⟩ :=
      ⟨hstated.codex, hstated.key.symm, hstated.output, hstated.introLength⟩
    exact ⟨_, DumpDraft.foldlM_add_eq_ok_iff.mpr ⟨arguments, hwritten, hdraft⟩, rfl⟩

end UniversalMachine
