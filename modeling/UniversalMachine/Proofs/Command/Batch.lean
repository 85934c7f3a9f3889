import UniversalMachine.Proofs.Command.Disassemble
import UniversalMachine.Proofs.Image.Bytes

namespace UniversalMachine

namespace DisassembleOptions

def Listable (t : FileTree) (name : String) : Prop :=
  (∃ bytes, t.read name = .ok bytes ∧ bytes.length % 4 = 0) ∧
    ∃ path, t.place (Path.listing name) = .ok path

instance (t : FileTree) (name : String) : Decidable (Listable t name) :=
  match hread : t.read name, hplace : t.place (Path.listing name) with
  | .ok bytes, .ok path =>
    decidable_of_iff (bytes.length % 4 = 0)
      ⟨fun h => ⟨⟨bytes, hread, h⟩, path, hplace⟩,
        fun ⟨⟨_, hread', h⟩, _⟩ => Except.ok.inj (hread.symm.trans hread') ▸ h⟩
  | .error _, _ => isFalse fun ⟨⟨_, hread', _⟩, _⟩ => nomatch hread.symm.trans hread'
  | _, .error _ => isFalse fun ⟨_, _, hplace'⟩ => nomatch hplace.symm.trans hplace'

variable {output : Option String} {name name' : String} {names listed rest : List String}
  {t t' : FileTree} {path : Path} {bytes : List UInt8} {s s' : Session}

theorem exists_lists_iff : (∃ t', Lists none name t t') ↔ Listable t name := by
  constructor
  · rintro ⟨t', image, path, hread, hplace, -⟩
    have hlength : image.toBytes.length % 4 = 0 :=
      Image.exists_ofBytes_iff.mp ⟨image, Image.ofBytes_toBytes image⟩
    exact ⟨⟨_, hread, hlength⟩, path, hplace⟩
  · rintro ⟨⟨bytes, hread, hlength⟩, path, hplace⟩
    obtain ⟨image, himage⟩ := Image.exists_ofBytes_iff.mpr hlength
    rw [Image.ofBytes_eq_ok_iff.mp himage] at hread
    exact ⟨_, image, path, hread, hplace, rfl⟩

section Frame

theorem ListsAll.place_eq_ok_iff (h : ListsAll output names t t') :
    t'.place name' = .ok path ↔ t.place name' = .ok path := by
  induction h with
  | nil => rfl
  | cons hlists _ ih =>
    obtain ⟨_, _, -, -, rfl⟩ := hlists
    rw [ih, FileTree.place_insert_eq_ok_iff]

theorem ListsAll.read_eq_ok_iff (h : ListsAll none names t t')
    (hplain : ∀ name ∈ names, Path.IsPlain name) (hplain' : Path.IsPlain name')
    (hname' : name' ∉ names.map Path.listing) :
    t'.read name' = .ok bytes ↔ t.read name' = .ok bytes := by
  induction h with
  | nil => rfl
  | cons hlists _ ih =>
    obtain ⟨hname, hnames⟩ := List.forall_mem_cons.mp hplain
    obtain ⟨hne, hnot⟩ := not_or.mp (mt List.mem_cons.mpr hname')
    obtain ⟨_, _, -, hplace, rfl⟩ := hlists
    rw [ih hnames hnot, FileTree.read_insert_of_ne (FileTree.isPlain_listing hname hplace) hplain' hne
      hplace]

theorem ListsAll.node?_eq (h : ListsAll none names t t')
    (hpath : ∀ name ∈ names, t.place (Path.listing name) ≠ .ok path) :
    t'.node? path = t.node? path := by
  induction h with
  | nil => rfl
  | cons hlists _ ih =>
    obtain ⟨hne, hnames⟩ := List.forall_mem_cons.mp hpath
    obtain ⟨_, path', -, hplace, rfl⟩ := hlists
    rw [ih fun name hname hplace' => hnames name hname (FileTree.place_insert_eq_ok_iff.mp hplace')]
    exact FileTree.node?_insert_of_ne fun heq => hne (heq ▸ hplace)

theorem ListsAll.listable_iff (h : ListsAll none names t t')
    (hplain : ∀ name ∈ names, Path.IsPlain name) (hplain' : Path.IsPlain name')
    (hname' : name' ∉ names.map Path.listing) : Listable t' name' ↔ Listable t name' := by
  simp only [Listable, h.read_eq_ok_iff hplain hplain' hname', h.place_eq_ok_iff]

end Frame

section Apart

variable (hapart : ∀ name ∈ names, Path.listing name ∉ names)

include hapart

theorem listing_not_mem_of_subset (hlisted : listed ⊆ names) :
    ∀ name ∈ listed, Path.listing name ∉ listed :=
  fun name hname hmem => hapart name (hlisted hname) (hlisted hmem)

theorem not_mem_map_listing (hlisted : listed ⊆ names) (hname : name ∈ names) :
    name ∉ listed.map Path.listing := by
  intro hmem
  obtain ⟨name', hname', rfl⟩ := List.mem_map.mp hmem
  exact hapart name' (hlisted hname') hname

variable (hplain : ∀ name ∈ names, Path.IsPlain name)

include hplain

theorem ListsAll.listable (h : ListsAll none names t t') : ∀ name ∈ names, Listable t name := by
  induction h with
  | nil => exact nofun
  | @cons name names _ _ _ hlists _ ih =>
    obtain ⟨hname, hnames⟩ := List.forall_mem_cons.mp hplain
    have hrest := listing_not_mem_of_subset hapart (List.subset_cons_self name names)
    refine List.forall_mem_cons.mpr ⟨exists_lists_iff.mp ⟨_, hlists⟩, fun name' hname' => ?_⟩
    have hnot : name' ∉ [name].map Path.listing :=
      not_mem_map_listing hapart (List.cons_subset.mpr ⟨List.mem_cons_self, List.nil_subset _⟩)
        (List.mem_cons_of_mem _ hname')
    exact ((ListsAll.cons hlists .nil).listable_iff (List.forall_mem_singleton.mpr hname)
      (hnames name' hname') hnot).mp (ih hrest hnames name' hname')

theorem ListsAll.read_listing (h : ListsAll none names t t')
    (hdistinct : (names.map Path.listing).Nodup) :
    ∀ name ∈ names, ∃ image : Image, t.read name = .ok image.toBytes ∧
      t'.read (Path.listing name) = .ok image.listingBytes := by
  have himages : ∀ name ∈ names, ∃ image : Image, t.read name = .ok image.toBytes := by
    intro name hname
    obtain ⟨_, image, _, hread, -⟩ := exists_lists_iff.mpr (h.listable hapart hplain name hname)
    exact ⟨image, hread⟩
  have : Nonempty Image := ⟨⟨[]⟩⟩
  choose! image himage using himages
  have hcompatible : Compatible names image := by
    intro name hname name' hname'
    exact ⟨fun heq => absurd (heq ▸ hname') (hapart name hname),
      fun heq => congrArg image (List.inj_on_of_nodup_map hdistinct hname hname' heq)⟩
  have hstart : Stands names [] image t := ⟨himage, nofun, nofun⟩
  have hstands := hstart.run hplain hcompatible nofun (fun _ => id) h
  exact fun name hname => ⟨image name, himage name hname, hstands.read name hname⟩

end Apart

theorem Advances.takeWhile_listable (h : Advances none listed rest s s')
    (hplain : ∀ name ∈ listed ++ rest, Path.IsPlain name)
    (hapart : ∀ name ∈ listed ++ rest, Path.listing name ∉ listed ++ rest) :
    (listed ++ rest).takeWhile (fun name => Listable s.files name) = listed := by
  obtain ⟨hlisted, hrest⟩ := List.forall_mem_append.mp hplain
  apply takeWhile_append_eq_left
  · intro name hname
    have hapart := listing_not_mem_of_subset hapart (List.subset_append_left listed rest)
    exact decide_eq_true (h.lists.listable hapart hlisted name hname)
  · intro name hname
    have hmem := List.mem_of_mem_head? hname
    have hnot := not_mem_map_listing hapart (List.subset_append_left listed rest)
      (List.mem_append_right listed hmem)
    rw [decide_eq_true_iff, ← h.lists.listable_iff hlisted (hrest name hmem) hnot, ← exists_lists_iff,
      not_exists]
    exact h.stops name hname

end DisassembleOptions

namespace CommandLine

/-- A command line that lists images, where no listing bears the name of an image or of another
listing: the first `k` files, those before the first that cannot be listed, have their listings, and
no other place holds anything else than before. -/
theorem listed_up_to_bad [Host] (names : List String) (t : FileTree) (input : Source)
    (verbosity : Verbosity) (hne : names ≠ []) (hplain : ∀ name ∈ names, Path.IsPlain name)
    (hflag : "-o" ∉ names) (hdistinct : (names.map Path.listing).Nodup)
    (hapart : ∀ name ∈ names, Path.listing name ∉ names) :
    let k := (names.takeWhile fun name => DisassembleOptions.Listable t name).length
    ∃ code s', (∀ fuel, (perform fuel ("disassemble" :: names)).outcome (.start t input verbosity) =
        some (code, s')) ∧
      code.toNat = (if k = names.length then 0 else 1) ∧ s'.output = [] ∧
      (∀ name ∈ names.take k, ∃ image : Image, t.read name = .ok image.toBytes ∧
        s'.files.read (Path.listing name) = .ok image.listingBytes) ∧
      (∀ name ∈ names.drop k, ∀ bytes, s'.files.read (Path.listing name) = .ok bytes ↔
        t.read (Path.listing name) = .ok bytes) ∧
      (∀ name, Path.IsPlain name → name ∉ (names.take k).map Path.listing →
        ∀ bytes, s'.files.read name = .ok bytes ↔ t.read name = .ok bytes) ∧
      ∀ path, (∀ name ∈ names.take k, t.place (Path.listing name) ≠ .ok path) →
        s'.files.node? path = t.node? path := by
  obtain ⟨listed, rest, s', rfl, hadvances, hends⟩ :=
    outcome_disassemble hflag hne (.start t input verbosity)
  intro k
  have hk : k = listed.length :=
    congrArg List.length (hadvances.takeWhile_listable hplain hapart)
  rw [hk, List.take_left, List.drop_left]
  have hall : DisassembleOptions.ListsAll none listed t s'.files := hadvances.lists
  obtain ⟨hplainListed, hplainRest⟩ := List.forall_mem_append.mp hplain
  rw [List.map_append] at hdistinct
  obtain ⟨hdistinctListed, -, hdisjoint⟩ := List.nodup_append.mp hdistinct
  have hapartListed :=
    DisassembleOptions.listing_not_mem_of_subset hapart (List.subset_append_left listed rest)
  refine ⟨_, s', hends, ?_, hadvances.output,
    hall.read_listing hapartListed hplainListed hdistinctListed, fun name hname bytes => ?_,
    fun name hname hnot bytes => hall.read_eq_ok_iff hplainListed hname hnot,
    fun path hpath => hall.node?_eq hpath⟩
  · rw [List.length_append]
    by_cases hrest : rest = []
    · rw [if_pos hrest, if_pos (by simp [hrest])]
      rfl
    · rw [if_neg hrest, if_neg (by simpa using hrest)]
      rfl
  -- What would not be a plain name is the name of a directory, before and after.
  · by_cases hlisting : Path.IsPlain (Path.listing name)
    · exact hall.read_eq_ok_iff hplainListed hlisting fun hmem =>
        hdisjoint _ hmem _ (List.mem_map_of_mem hname) rfl
    · have hnone (t : FileTree) : t.read (Path.listing name) ≠ .ok bytes := fun hread =>
        hlisting (FileTree.isPlain_listing_of_read (hplainRest name hname) hread)
      exact iff_of_false (hnone _) (hnone _)

open Host

theorem listed_up_to_bad_of_partial_word :
    let names := ["a.um", "d/b.um", "c.um"]
    let t : FileTree :=
      ⟨[], [["d"]], [(["a.um"], [0x70, 0, 0, 0]), (["d", "b.um"], [0x70, 0, 0]), (["c.um"], [])]⟩
    ∃ code s', (∀ fuel, (perform fuel ("disassemble" :: names)).outcome (.start t [] .warn) =
        some (code, s')) ∧
      code.toNat = 1 ∧ s'.output = [] ∧
      s'.files.read "a.asm" = .ok (Image.listingBytes ⟨[0x70000000]⟩) ∧
      ∀ name ∈ ["d/b.um", "c.um"], ∀ bytes, s'.files.read (Path.listing name) ≠ .ok bytes := by
  intro names t
  have hk : (names.takeWhile fun name => DisassembleOptions.Listable t name).length = 1 := by
    decide +kernel
  obtain ⟨code, s', hends, hcode, houtput, hlisted, hlater, -⟩ :=
    listed_up_to_bad names t [] .warn (by decide) (by decide +kernel) (by decide)
      (by decide +kernel) (by decide +kernel)
  rw [hk] at hcode hlisted hlater
  refine ⟨code, s', hends, hcode, houtput, ?_, ?_⟩
  · obtain ⟨image, himage, hread⟩ := hlisted "a.um" (by decide)
    have hstart : t.read "a.um" = .ok (Image.toBytes ⟨[0x70000000]⟩) := by decide +kernel
    rw [Image.toBytes_inj (Except.ok.inj (himage.symm.trans hstart))] at hread
    exact hread
  · have hnone : ∀ name ∈ ["d/b.um", "c.um"], t.read (Path.listing name) = .error .notFound := by
      decide +kernel
    intro name hname bytes hread
    exact nomatch (hnone name hname).symm.trans ((hlater name hname bytes).mp hread)

end CommandLine

end UniversalMachine
