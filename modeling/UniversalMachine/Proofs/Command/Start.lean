import UniversalMachine.Proofs.Codex
import UniversalMachine.Proofs.Command.Action
import UniversalMachine.Proofs.Command.Argument
import UniversalMachine.Proofs.Image.Codec

namespace UniversalMachine

inductive FileTree.Supplies (t : FileTree) (input : Source) : Option String → Source → Prop
  | standard : Supplies t input none input
  | file {name bytes} : t.find name = .ok (.file bytes) →
      Supplies t input (some name) (.ofBytes bytes)
  | directory {name} : t.find name = .ok .directory →
      Supplies t input (some name) [.fail .isADirectory]

inductive RunOptions.Loads (o : RunOptions) (t : FileTree) (input : Source) :
    Machine ScriptedSink → Prop
  | intro {images source} : o.files.map t.read = images.map (fun image => .ok image.toBytes) →
      t.Supplies input o.input source →
      Loads o t input ((Machine.load (.join images) source .plain).setLimit o.limit)

def RunOptions.Starts (t : FileTree) (input : Source) (args : List String)
    (m : Machine ScriptedSink) : Prop :=
  ∃ arguments o, Argument.Written flags arguments args ∧ Stated arguments o ∧ o.files ≠ [] ∧
    o.Loads t input m

inductive DumpOptions.Loads (o : DumpOptions) (t : FileTree) :
    Path → Machine (Split ScriptedSink ScriptedSink) → Prop
  | intro {image key path} : t.read o.codex = .ok image.toBytes →
      t.read o.key = .ok (key.toList.flatMap String.utf8EncodeChar) →
      t.place o.output = .ok path → Loads o t path (o.load image key)

theorem DumpOptions.Loads.place {o : DumpOptions} {t : FileTree} {path : Path}
    {m : Machine (Split ScriptedSink ScriptedSink)} (h : o.Loads t path m) :
    t.place o.output = .ok path := by
  obtain ⟨-, -, hplace⟩ := h
  exact hplace

def DumpOptions.Starts (t : FileTree) (args : List String) (path : Path)
    (m : Machine (Split ScriptedSink ScriptedSink)) : Prop :=
  ∃ arguments o, Argument.Written flags arguments args ∧ Stated arguments o ∧ o.Loads t path m

namespace Action

theorem checks_readImageBytes (name : String) :
    Checks (readImageBytes name) fun t _ bytes => t.read name = .ok bytes :=
  ((checks_readFile name).bind fun bytes => (checks_log _).after (checks_pure bytes)).congr
    fun _ _ bytes => ⟨fun h => ⟨bytes, h, rfl⟩, fun ⟨_, h, heq⟩ => heq ▸ h⟩

theorem checks_readImages (names : List String) :
    Checks (readImages names) fun t _ image => ∃ images : List Image,
      names.map t.read = images.map (fun image => .ok image.toBytes) ∧ image = .join images := by
  refine ((checks_mapM checks_readImageBytes names).bind fun parts =>
    checks_of_except (Image.joinBytes parts) (fun _ h => by rw [h])
      fun _ h => ⟨_, by rw [h]⟩).congr fun t _ image => ?_
  constructor
  · rintro ⟨images, hread, rfl⟩
    refine ⟨images.map Image.toBytes, ?_, Image.joinBytes_eq_ok_iff.mpr ⟨images, rfl, rfl⟩⟩
    rw [hread, List.map_map]
    rfl
  · rintro ⟨parts, hread, hparts⟩
    obtain ⟨images, rfl, rfl⟩ := Image.joinBytes_eq_ok_iff.mp hparts
    refine ⟨images, ?_, rfl⟩
    rw [hread, List.map_map]
    rfl

theorem checks_readImage (name : String) :
    Checks (readImage name) fun t _ image => t.read name = .ok image.toBytes := by
  refine (checks_readImages [name]).congr fun t _ image => ?_
  constructor
  · intro hread
    exact ⟨[image], congrArg (fun r => [r]) hread, (Image.join_singleton image).symm⟩
  · rintro ⟨images, hread, rfl⟩
    obtain ⟨image, _, rfl, himage, hnone⟩ := List.map_eq_cons_iff.mp hread.symm
    rw [List.map_eq_nil_iff.mp hnone, Image.join_singleton]
    exact himage.symm

theorem checks_openFile (name : String) :
    Checks (openFile name) fun t input source => t.Supplies input (some name) source := by
  refine checks_get fun s => ?_
  cases hfind : s.files.find name with
  | error e =>
    refine (checks_refuse _).congr fun _ _ source => ⟨fun h => ?_, False.elim⟩
    cases h with
    | file h | directory h => cases hfind.symm.trans h
  | ok node =>
    cases node with
    | file bytes =>
      refine (checks_pure _).congr fun _ _ source => ⟨fun h => ?_, fun h => h ▸ .file hfind⟩
      cases h with
      | file h => cases hfind.symm.trans h; rfl
      | directory h => cases hfind.symm.trans h
    | directory =>
      refine (checks_pure _).congr fun _ _ source => ⟨fun h => ?_, fun h => h ▸ .directory hfind⟩
      cases h with
      | file h => cases hfind.symm.trans h
      | directory h => rfl

theorem checks_runInput (name : Option String) :
    Checks (runInput name) fun t input source => t.Supplies input name source := by
  cases name with
  | none =>
    refine checks_get fun s => (checks_pure s.input).congr fun _ _ source => ?_
    constructor
    · rintro ⟨⟩
      rfl
    · rintro rfl
      exact .standard
  | some name => exact checks_openFile name

end Action

theorem DumpOptions.checks_readKey (name : String) :
    (readKey name).Checks fun t _ key =>
      t.read name = .ok (key.toList.flatMap String.utf8EncodeChar) := by
  refine ((Action.checks_readFile name).bind
    (Q := fun bytes _ _ key => bytes = key.toList.flatMap String.utf8EncodeChar)
    fun bytes => ?_).congr fun t _ key => ?_
  · simp only [← fromUTF8?_eq_some_iff]
    cases String.fromUTF8? bytes.toByteArray with
    | some key =>
      refine (Action.checks_pure key).congr fun _ _ key' => ?_
      rw [Option.some.injEq, eq_comm]
    | none => exact (Action.checks_refuse _).congr fun _ _ _ => ⟨nofun, False.elim⟩
  · constructor
    · intro h
      exact ⟨_, h, rfl⟩
    · rintro ⟨bytes, h, rfl⟩
      exact h

theorem RunOptions.checks_prepare (o : RunOptions) :
    o.prepare.Checks fun t input m => o.Loads t input m := by
  refine ((Action.checks_readImages o.files).bind fun image => (Action.checks_log _).after
    ((Action.checks_runInput o.input).bind fun source => Action.checks_pure _)).congr
    fun t input m => ?_
  constructor
  · rintro ⟨himages, hsource⟩
    exact ⟨_, ⟨_, himages, rfl⟩, _, hsource, rfl⟩
  · rintro ⟨_, ⟨images, himages, rfl⟩, source, hsource, rfl⟩
    exact .intro himages hsource

theorem RunOptions.starts_iff {t : FileTree} {input : Source} {args : List String}
    {m : Machine ScriptedSink} :
    Starts t input args m ↔ ∃ o, ofArguments args = .ok o ∧ o.Loads t input m := by
  constructor
  · rintro ⟨arguments, o, hwritten, hstated, hne, hloads⟩
    exact ⟨o, ofArguments_eq_ok_iff.mpr ⟨arguments, hwritten, hstated, hne⟩, hloads⟩
  · rintro ⟨o, hargs, hloads⟩
    obtain ⟨arguments, hwritten, hstated, hne⟩ := ofArguments_eq_ok_iff.mp hargs
    exact ⟨arguments, o, hwritten, hstated, hne, hloads⟩

theorem DumpOptions.starts_iff {t : FileTree} {args : List String} {path : Path}
    {m : Machine (Split ScriptedSink ScriptedSink)} :
    Starts t args path m ↔ ∃ o, ofArguments args = .ok o ∧ o.Loads t path m := by
  constructor
  · rintro ⟨arguments, o, hwritten, hstated, hloads⟩
    exact ⟨o, ofArguments_eq_ok_iff.mpr ⟨arguments, hwritten, hstated⟩, hloads⟩
  · rintro ⟨o, hargs, hloads⟩
    obtain ⟨arguments, hwritten, hstated⟩ := ofArguments_eq_ok_iff.mp hargs
    exact ⟨arguments, o, hwritten, hstated, hloads⟩

end UniversalMachine
