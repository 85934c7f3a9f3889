import UniversalMachine.Proofs.Command.Exit
import UniversalMachine.Proofs.File.Name
import UniversalMachine.Proofs.Listing.Reading

universe u v

namespace UniversalMachine

theorem le_length_flatMap {α : Type u} {β : Type v} {f : α → List β} {n : Nat} {xs : List α}
    (h : ∀ x ∈ xs, n ≤ (f x).length) : n * xs.length ≤ (xs.flatMap f).length := by
  induction xs with
  | nil => exact Nat.le_refl _
  | cons x xs ih =>
    obtain ⟨hx, hxs⟩ := List.forall_mem_cons.mp h
    have hrest := ih hxs
    rw [List.flatMap_cons, List.length_append, List.length_cons, Nat.mul_succ]
    omega

namespace Image

def listingBytes (image : Image) : List UInt8 :=
  image.listing.toList.flatMap String.utf8EncodeChar

variable {image image' : Image}

theorem listingBytes_inj (h : image.listingBytes = image'.listingBytes) : image = image' :=
  listing_inj (flatMap_utf8EncodeChar_inj.mp h)

theorem le_length_listingBytes (image : Image) :
    10 * image.words.length ≤ image.listingBytes.length := by
  have hline (r : Word × Nat) : 10 ≤ (listingLine r.2 r.1).toList.length := by
    simp only [listingLine, String.toList_append, List.length_append, Word.toList_hex,
      List.length_cons, Numeral.length_hexDigits]
    omega
  have htext : image.listing.toList =
      image.words.zipIdx.flatMap fun r => (listingLine r.2 r.1).toList := by
    rw [listing, String.toList_join, List.flatMap_map]
  calc 10 * image.words.length
    _ = 10 * image.words.zipIdx.length := by rw [List.length_zipIdx]
    _ ≤ image.listing.toList.length := by
      rw [htext]
      exact le_length_flatMap fun r _ => hline r
    _ = 1 * image.listing.toList.length := (Nat.one_mul _).symm
    _ ≤ image.listingBytes.length := le_length_flatMap fun c _ => by
      rw [String.length_utf8EncodeChar]
      exact c.utf8Size_pos

theorem words_eq_nil_of_listingBytes (h : image.listingBytes = image.toBytes) :
    image.words = [] := by
  have hle := image.le_length_listingBytes
  rw [h, length_toBytes] at hle
  exact List.eq_nil_of_length_eq_zero (by omega)

end Image

namespace DisassembleOptions

def Lists (output : Option String) (name : String) (t t' : FileTree) : Prop :=
  ∃ image path, t.read name = .ok (Image.toBytes image) ∧
    t.place (output.getD (Path.listing name)) = .ok path ∧ t' = t.insert path image.listingBytes

inductive ListsAll (output : Option String) : List String → FileTree → FileTree → Prop
  | nil {t} : ListsAll output [] t t
  | cons {name names t t' t''} : Lists output name t t' → ListsAll output names t' t'' →
      ListsAll output (name :: names) t t''

variable {output : Option String} {name : String} {names : List String} {t t' : FileTree}
  {s : Session}

theorem on_performOn (h : Lists output name s.files t') :
    ∃ s', (performOn output name).on s = (.ok (), s') ∧ s'.files = t' ∧ s'.output = s.output := by
  obtain ⟨image, path, hread, hplace, rfl⟩ := h
  obtain ⟨s₁, hon₁, messages, rfl⟩ := (Action.checks_readImage name).granted hread
  have hon₂ := Action.on_writeFile (s := { s with messages }) hplace image.listingBytes
  exact ⟨_, (Action.on_bind_of_ok hon₁).trans ((Action.on_bind_of_ok hon₂).trans
    (Action.on_say _ _)), rfl, rfl⟩

theorem on_performOn_of_not_lists (h : ∀ t', ¬Lists output name s.files t') :
    ∃ s', (performOn output name).on s = (.error (.exit .refused), s') ∧ s.Says s' := by
  by_cases himage : ∃ image : Image, s.files.read name = .ok image.toBytes
  · obtain ⟨image, himage⟩ := himage
    obtain ⟨s₁, hon₁, hspoke₁⟩ := (Action.checks_readImage name).granted himage
    have hplace : ∀ path, s₁.files.place (output.getD (Path.listing name)) ≠ .ok path := by
      intro path hplace
      rw [hspoke₁.files] at hplace
      exact h _ ⟨image, path, himage, hplace, rfl⟩
    obtain ⟨s₂, hon₂, hspoke₂⟩ := Action.on_writeFile_of_unplaced hplace image.listingBytes
    exact ⟨s₂, (Action.on_bind_of_ok hon₁).trans (Action.on_bind_of_error hon₂),
      hspoke₁.trans hspoke₂⟩
  · obtain ⟨s₁, hon₁, hspoke₁⟩ := (Action.checks_readImage name).refused (not_exists.mp himage)
    exact ⟨s₁, Action.on_bind_of_error hon₁, hspoke₁⟩

structure Advances (output : Option String) (listed rest : List String) (s s' : Session) : Prop where
  lists : ListsAll output listed s.files s'.files
  stops : ∀ name ∈ rest.head?, ∀ t', ¬Lists output name s'.files t'
  output : s'.output = s.output

theorem on_forM_performOn (output : Option String) (names : List String) (s : Session) :
    ∃ listed rest s', names = listed ++ rest ∧ Advances output listed rest s s' ∧
      (names.forM (performOn output)).on s =
        (if rest = [] then .ok () else .error (.exit .refused), s') := by
  induction names generalizing s with
  | nil => exact ⟨[], [], s, rfl, ⟨.nil, nofun, rfl⟩, rfl⟩
  | cons name names ih =>
    by_cases hlists : ∃ t', Lists output name s.files t'
    · obtain ⟨t', hlists⟩ := hlists
      obtain ⟨s₁, hon₁, rfl, houtput₁⟩ := on_performOn hlists
      obtain ⟨listed, rest, s', rfl, ⟨hall, hstops, houtput⟩, hon⟩ := ih s₁
      exact ⟨name :: listed, rest, s', rfl, ⟨.cons hlists hall, hstops, houtput.trans houtput₁⟩,
        (Action.on_bind_of_ok hon₁).trans hon⟩
    · rw [not_exists] at hlists
      obtain ⟨s', hon, hspoke⟩ := on_performOn_of_not_lists hlists
      rw [← hspoke.files] at hlists
      refine ⟨[], name :: names, s', rfl, ⟨?_, ?_, hspoke.output⟩, Action.on_bind_of_error hon⟩
      · rw [hspoke.files]
        exact .nil
      · rintro _ ⟨⟩
        exact hlists

theorem ofArguments_files (hflag : "-o" ∉ names) (hne : names ≠ []) :
    ofArguments names = .ok ⟨names, none⟩ := by
  have hwritten : Argument.Written flags (names.map .file) names := by
    refine ⟨List.forall_mem_map.mpr fun name hname hmem => ?_, ?_⟩
    · exact hflag (List.mem_singleton.mp hmem ▸ hname)
    · rw [List.flatMap_map]
      exact (List.flatMap_singleton' names).symm
  have hstated : Stated (names.map .file) ⟨names, none⟩ := by
    rw [stated_mk, Argument.files_map_file, Argument.values_map_file]
    exact ⟨rfl, rfl⟩
  rw [ofArguments, bind_eq_ok_iff]
  refine ⟨_, foldlM_add_eq_ok_iff.mpr ⟨_, hwritten, hstated⟩, ?_⟩
  simp [hne]

section Keeping

variable {image : String → Image}

/-- No listing has to stand where a file of another content does: an image under the name of a
listing is empty, and images that share the name of their listing are the same. -/
def Compatible (names : List String) (image : String → Image) : Prop :=
  ∀ name ∈ names, ∀ name' ∈ names,
    (Path.listing name = name' → (image name').words = []) ∧
      (Path.listing name = Path.listing name' → image name = image name')

structure Stands (names listed : List String) (image : String → Image) (t : FileTree) : Prop where
  kept : ∀ name ∈ names, t.read name = .ok (image name).toBytes
  plain : ∀ name ∈ listed, Path.IsPlain (Path.listing name)
  read : ∀ name ∈ listed, t.read (Path.listing name) = .ok (image name).listingBytes

variable {listed : List String} (hplain : ∀ name ∈ names, Path.IsPlain name)

include hplain

theorem Compatible.listingBytes_eq (h : Compatible names image) {name' : String}
    (hname : name ∈ names) (hname' : name' ∈ names) (hlisting : Path.listing name = name') :
    (image name).listingBytes = (image name').toBytes := by
  have hempty := (h name hname name' hname').1 hlisting
  have hsame : image name = image name' := by
    refine (h name hname name' hname').2 ?_
    rw [← hlisting, Path.listing_listing (hplain name hname)]
  have hnil : image name' = ⟨[]⟩ := congrArg Image.mk hempty
  rw [hsame, hnil]
  rfl

theorem Stands.step (h : Stands names listed image t) (hcompatible : Compatible names image)
    (hlisted : ∀ name ∈ listed, name ∈ names) (hname : name ∈ names)
    (hlists : Lists none name t t') : Stands names (listed ++ [name]) image t' := by
  obtain ⟨shown, path, hread, hplace, rfl⟩ := hlists
  have hshown : shown = image name :=
    Image.toBytes_inj (Except.ok.inj (hread.symm.trans (h.kept name hname)))
  subst hshown
  have hplainListing := FileTree.isPlain_listing (hplain name hname) hplace
  refine ⟨fun name' hname' => ?_, ?_, ?_⟩
  -- An image, or a listing, is only ever written over with what it holds.
  · by_cases hlisting : Path.listing name = name'
    · rw [← Compatible.listingBytes_eq hplain hcompatible hname hname' hlisting, ← hlisting]
      exact FileTree.read_insert hplace
    · exact (FileTree.read_insert_of_ne hplainListing (hplain name' hname') (Ne.symm hlisting)
        hplace).mpr (h.kept name' hname')
  · exact List.forall_mem_append.mpr ⟨h.plain, List.forall_mem_singleton.mpr hplainListing⟩
  · refine List.forall_mem_append.mpr ⟨fun name' hname' => ?_,
      List.forall_mem_singleton.mpr (FileTree.read_insert hplace)⟩
    by_cases hlisting : Path.listing name = Path.listing name'
    · rw [← (hcompatible name hname name' (hlisted name' hname')).2 hlisting, ← hlisting]
      exact FileTree.read_insert hplace
    · exact (FileTree.read_insert_of_ne hplainListing (h.plain name' hname') (Ne.symm hlisting)
        hplace).mpr (h.read name' hname')

theorem Stands.run {todo : List String} (h : Stands names listed image t)
    (hcompatible : Compatible names image) (hlisted : ∀ name ∈ listed, name ∈ names)
    (htodo : ∀ name ∈ todo, name ∈ names) (hall : ListsAll none todo t t') :
    Stands names (listed ++ todo) image t' := by
  induction hall generalizing listed with
  | nil => rwa [List.append_nil]
  | @cons name todo _ _ _ hlists _ ih =>
    obtain ⟨hname, htodo⟩ := List.forall_mem_cons.mp htodo
    have hstands := ih (h.step hplain hcompatible hlisted hname hlists)
      (List.forall_mem_append.mpr ⟨hlisted, List.forall_mem_singleton.mpr hname⟩) htodo
    rwa [List.append_assoc] at hstands

theorem compatible_of_read
    (h : ∀ name ∈ names, t.read name = .ok (image name).toBytes ∧
      t.read (Path.listing name) = .ok (image name).listingBytes) : Compatible names image := by
  intro name hname name' hname'
  have hlisted := (h name hname).2
  obtain ⟨hkept', hlisted'⟩ := h name' hname'
  constructor
  · intro hlisting
    have hown : Path.listing name' = name' := by
      rw [← hlisting, Path.listing_listing (hplain name hname)]
    rw [hown, hkept'] at hlisted'
    exact Image.words_eq_nil_of_listingBytes (Except.ok.inj hlisted').symm
  · intro hlisting
    rw [hlisting, hlisted'] at hlisted
    exact (Image.listingBytes_inj (Except.ok.inj hlisted)).symm

end Keeping

end DisassembleOptions

namespace CommandLine

theorem perform_disassemble [Host] {args : List String} {o : DisassembleOptions} {fuel : Nat}
    (h : DisassembleOptions.ofArguments args = .ok o) :
    perform fuel ("disassemble" :: args) = o.perform := by
  rw [perform, h]
  rfl

section Disassemble

variable {names : List String} {t : FileTree} {input : Source} {verbosity : Verbosity}
  {s' : Session} {image : String → Image}

theorem outcome_disassemble [Host] (hflag : "-o" ∉ names) (hne : names ≠ []) (s : Session) :
    ∃ listed rest s', names = listed ++ rest ∧
      DisassembleOptions.Advances none listed rest s s' ∧
      ∀ fuel, (perform fuel ("disassemble" :: names)).outcome s =
        some (if rest = [] then .success else .refused, s') := by
  obtain ⟨listed, rest, s', hnames, hadvances, hon⟩ :=
    DisassembleOptions.on_forM_performOn none names s
  refine ⟨listed, rest, s', hnames, hadvances, fun fuel => ?_⟩
  rw [perform_disassemble (DisassembleOptions.ofArguments_files hflag hne)]
  by_cases hrest : rest = []
  · rw [if_pos hrest] at hon ⊢
    exact Action.outcome_of_ok hon
  · rw [if_neg hrest] at hon ⊢
    exact Action.outcome_of_exit hon

theorem listsAll_of_concludes [Host] (hflag : "-o" ∉ names) {s : Session}
    (h : Concludes ("disassemble" :: names) s .success s') :
    DisassembleOptions.ListsAll none names s.files s'.files := by
  obtain ⟨fuel, houtcome⟩ := h
  by_cases hne : names = []
  · subst hne
    cases houtcome
  · obtain ⟨listed, rest, s'', hnames, hadvances, hends⟩ := outcome_disassemble hflag hne s
    have hends := (hends fuel).symm.trans houtcome
    split at hends
    · next hrest =>
      cases hends
      rw [hnames, hrest, List.append_nil]
      exact hadvances.lists
    · cases hends

/-- A command line that lists images, with no target given, and ends well: all images are as they
were and each has its listing next to it exactly if no listing was to replace an image, or the
listing of a different one. The command does not look to that. -/
theorem images_kept_iff [Host] (hplain : ∀ name ∈ names, Path.IsPlain name)
    (hflag : "-o" ∉ names)
    (himages : ∀ name ∈ names, t.read name = .ok (image name).toBytes)
    (hends : Concludes ("disassemble" :: names) (.start t input verbosity) .success s') :
    (∀ name ∈ names, s'.files.read name = t.read name ∧
      s'.files.read (Path.listing name) = .ok (image name).listingBytes) ↔
    ∀ name ∈ names, ∀ name' ∈ names,
      (Path.listing name = name' → (image name').words = []) ∧
        (Path.listing name = Path.listing name' → image name = image name') := by
  have hall := listsAll_of_concludes hflag hends
  constructor
  · intro h
    have hread : ∀ name ∈ names, s'.files.read name = .ok (image name).toBytes ∧
        s'.files.read (Path.listing name) = .ok (image name).listingBytes := by
      intro name hname
      rw [← himages name hname]
      exact h name hname
    exact DisassembleOptions.compatible_of_read hplain hread
  · intro hcompatible name hname
    have hstart : DisassembleOptions.Stands names [] image t := ⟨himages, nofun, nofun⟩
    have hstands := hstart.run hplain hcompatible nofun (fun _ => id) hall
    rw [himages name hname]
    exact ⟨hstands.kept name hname, hstands.read name hname⟩

open Host

theorem images_kept_of_same :
    let names := ["a.um", "a.bin", "e.asm"]
    let image (name : String) : Image := if name = "e.asm" then ⟨[]⟩ else ⟨[0x70000000]⟩
    let t : FileTree := ⟨[], [], names.map fun name => ([name], (image name).toBytes)⟩
    ∃ s', Concludes ("disassemble" :: names) (.start t [] .warn) .success s' ∧
      ∀ name ∈ names, s'.files.read name = t.read name ∧
        s'.files.read (Path.listing name) = .ok (image name).listingBytes := by
  intro names image t
  have houtcome : ((perform 0 ("disassemble" :: names)).outcome (.start t [] .warn)).map Prod.fst =
      some .success := by
    decide +kernel
  obtain ⟨⟨code, s'⟩, hends, rfl⟩ := Option.map_eq_some_iff.mp houtcome
  have hconcludes : Concludes ("disassemble" :: names) (.start t [] .warn) .success s' := ⟨0, hends⟩
  have himages : ∀ name ∈ names, t.read name = .ok (image name).toBytes := by decide +kernel
  exact ⟨s', hconcludes, (images_kept_iff (by decide +kernel) (by decide) himages hconcludes).mpr
    (by decide +kernel)⟩

theorem image_lost_to_listing :
    let t : FileTree := ⟨[], [], [(["a.um"], [0xd0, 0, 0, 5]), (["a.asm"], [0x70, 0, 0, 0])]⟩
    let names := ["a.um", "a.asm"]
    names.Nodup ∧ (∀ name ∈ names, Path.IsPlain name) ∧
      t.read "a.um" = .ok (Image.toBytes ⟨[0xd0000005]⟩) ∧
      t.read "a.asm" = .ok (Image.toBytes ⟨[0x70000000]⟩) ∧
      ∃ s', Concludes ("disassemble" :: names) (.start t [] .warn) .success s' ∧
        s'.files.read "a.asm" ≠ t.read "a.asm" ∧ Path.listing "a.um" = "a.asm" ∧
        s'.files.read "a.asm" ≠ .ok (Image.listingBytes ⟨[0xd0000005]⟩) := by
  intro t names
  have hends : ∃ r ∈ (perform 0 ("disassemble" :: names)).outcome (.start t [] .warn),
      r.1 = .success ∧ r.2.files.read "a.asm" ≠ t.read "a.asm" ∧
        r.2.files.read "a.asm" ≠ .ok (Image.listingBytes ⟨[0xd0000005]⟩) := by
    decide +kernel
  obtain ⟨⟨_, s'⟩, houtcome, rfl, hkept, hlisted⟩ := hends
  exact ⟨by decide, by decide +kernel, by decide +kernel, by decide +kernel, s', ⟨0, houtcome⟩,
    hkept, by decide, hlisted⟩

end Disassemble

end CommandLine

end UniversalMachine
