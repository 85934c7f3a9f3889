import UniversalMachine.File.Tree
import UniversalMachine.Proofs.Traverse

namespace UniversalMachine.FileTree

variable {t : FileTree} {path p q : Path} {bytes : List UInt8} {name : String}

theorem lookup_filter_of_ne (files : List (Path × List UInt8)) (hp : p ≠ path) :
    (files.filter (·.1 ≠ path)).lookup p = files.lookup p := by
  induction files with
  | nil => rfl
  | cons file files ih =>
    obtain ⟨path', bytes⟩ := file
    by_cases h : path' = path
    · subst h
      rw [List.filter_cons_of_neg (by simp), ih, List.lookup_cons, beq_eq_false_iff_ne.mpr hp]
    · rw [List.filter_cons_of_pos (by simp [h]), List.lookup_cons, List.lookup_cons, ih]

theorem node?_insert_of_ne (hp : p ≠ path) : (t.insert path bytes).node? p = t.node? p := by
  have hlookup : (t.insert path bytes).files.lookup p = t.files.lookup p := by
    rw [insert, List.lookup_cons, beq_eq_false_iff_ne.mpr hp]
    exact lookup_filter_of_ne t.files hp
  rw [node?, node?, hlookup]
  rfl

theorem node?_eq_directory_iff : t.node? p = some .directory ↔ p = [] ∨ p ∈ t.directories := by
  rw [node?]
  split
  · next hp => exact iff_of_true rfl hp
  · next hp =>
    refine iff_of_false (fun h => ?_) hp
    obtain ⟨bytes, -, hbytes⟩ := Option.map_eq_some_iff.mp h
    cases hbytes

@[simp] theorem node?_insert_eq_directory_iff :
    (t.insert path bytes).node? p = some .directory ↔ t.node? p = some .directory := by
  rw [node?_eq_directory_iff, node?_eq_directory_iff]
  rfl

theorem node?_insert_self (h : t.node? path ≠ some .directory) :
    (t.insert path bytes).node? path = some (.file bytes) := by
  have hpath := mt node?_eq_directory_iff.mpr h
  have hlookup : (t.insert path bytes).files.lookup path = some bytes := by
    rw [insert, List.lookup_cons_self]
  rw [node?, hlookup]
  exact if_neg hpath

theorem insert_insert (t : FileTree) (path : Path) (bytes bytes' : List UInt8) :
    (t.insert path bytes).insert path bytes' = t.insert path bytes' := by
  simp [insert]

theorem entry_eq_ok_iff {c : String} {node : Option FileNode} :
    t.entry p c = .ok node ↔ c.utf8ByteSize ≤ 255 ∧ t.node? (p ++ [c]) = node := by
  rw [entry]
  split
  · next hlength => exact iff_of_false nofun fun h => absurd h.1 (Nat.not_le.mpr hlength)
  · next hlength => rw [Except.ok.injEq, and_iff_right (Nat.not_lt.mp hlength)]

theorem walk_cons_eq_ok_iff {c : String} {rest : List String} (hc : IsProper c) :
    t.walk p (c :: rest) = .ok q ↔
      t.entry p c = .ok (some .directory) ∧ t.walk (p ++ [c]) rest = .ok q := by
  rw [walk, if_neg (not_or_intro hc.1 hc.2.1), if_neg hc.2.2]
  split
  · next e h => exact iff_of_false nofun fun h' => nomatch h.symm.trans h'.1
  · next h => exact (and_iff_right h).symm
  · next bytes h => exact iff_of_false nofun fun h' => nomatch h.symm.trans h'.1
  · next h => exact iff_of_false nofun fun h' => nomatch h.symm.trans h'.1

@[simp] theorem walk_insert_eq_ok_iff {components : List String} :
    (t.insert path bytes).walk p components = .ok q ↔ t.walk p components = .ok q := by
  induction components generalizing p with
  | nil => rfl
  | cons c rest ih =>
    by_cases hempty : c = "" ∨ c = "."
    · rw [walk, walk, if_pos hempty, if_pos hempty, ih]
    · by_cases hparent : c = ".."
      · rw [walk, walk, if_neg hempty, if_neg hempty, if_pos hparent, if_pos hparent, ih]
      · obtain ⟨hblank, hdot⟩ := not_or.mp hempty
        have hc : IsProper c := ⟨hblank, hdot, hparent⟩
        rw [walk_cons_eq_ok_iff hc, walk_cons_eq_ok_iff hc, ih, entry_eq_ok_iff, entry_eq_ok_iff,
          node?_insert_eq_directory_iff]

theorem locate_eq_ok_iff {components : List String} {directory : Path} {last : String} :
    t.locate components = .ok (directory, some last) ↔
      IsProper last ∧ components.getLast?.getD "" = last ∧
        t.walk (t.origin components) components.dropLast = .ok directory := by
  rw [locate]
  split
  · next hproper =>
    rw [map_eq_ok_iff]
    constructor
    · rintro ⟨q, hwalk, ⟨⟩⟩
      exact ⟨hproper, rfl, hwalk⟩
    · rintro ⟨-, rfl, hwalk⟩
      exact ⟨directory, hwalk, rfl⟩
  · next hproper =>
    rw [map_eq_ok_iff]
    exact iff_of_false (fun ⟨_, _, h⟩ => nomatch h) fun ⟨hlast, heq, _⟩ => hproper (heq ▸ hlast)

@[simp] theorem locate_insert_eq_ok_iff {components : List String} {directory : Path}
    {last : String} :
    (t.insert path bytes).locate components = .ok (directory, some last) ↔
      t.locate components = .ok (directory, some last) := by
  have horigin : (t.insert path bytes).origin components = t.origin components := rfl
  rw [locate_eq_ok_iff, locate_eq_ok_iff, horigin, walk_insert_eq_ok_iff]

theorem components_of_route {components : List String} (h : route name = .ok components) :
    components = Path.components name := by
  rw [route] at h
  split at h
  · cases h
  · split at h
    · cases h
    · cases h
      rfl

theorem read_eq_ok_iff_find : t.read name = .ok bytes ↔ t.find name = .ok (.file bytes) := by
  rw [read]
  cases t.find name with
  | error e => exact iff_of_false nofun nofun
  | ok node =>
    cases node with
    | directory => exact iff_of_false nofun nofun
    | file bytes' => rw [Except.ok.injEq, Except.ok.injEq, FileNode.file.injEq]

theorem read_eq_ok_iff :
    t.read name = .ok bytes ↔ ∃ components directory last,
      route name = .ok components ∧ t.locate components = .ok (directory, some last) ∧
        t.entry directory last = .ok (some (.file bytes)) := by
  simp only [read_eq_ok_iff_find, find, bind_eq_ok_iff]
  constructor
  · rintro ⟨components, hroute, ⟨directory, _ | last⟩, hlocate, h⟩
    · cases h
    · obtain ⟨_ | node, hentry, h⟩ := bind_eq_ok_iff.mp h
      · cases h
      · cases h
        exact ⟨components, directory, last, hroute, hlocate, hentry⟩
  · rintro ⟨components, directory, last, hroute, hlocate, hentry⟩
    exact ⟨components, hroute, _, hlocate, bind_eq_ok_iff.mpr ⟨_, hentry, rfl⟩⟩

theorem place_eq_ok_iff :
    t.place name = .ok path ↔ ∃ components directory last,
      route name = .ok components ∧ (components.reverse.dropWhile (· = "")).reverse = components ∧
        t.locate components = .ok (directory, some last) ∧ last.utf8ByteSize ≤ 255 ∧
        t.node? (directory ++ [last]) ≠ some .directory ∧ path = directory ++ [last] := by
  simp only [place, bind_eq_ok_iff]
  constructor
  · rintro ⟨components, hroute, ⟨directory, _ | last⟩, hlocate, h⟩
    · cases h
    · dsimp only at h
      split at h
      · cases h
      · next hnamed =>
        rw [Decidable.not_not] at hnamed
        rw [hnamed] at hlocate
        obtain ⟨node, hentry, h⟩ := bind_eq_ok_iff.mp h
        obtain ⟨hlength, rfl⟩ := entry_eq_ok_iff.mp hentry
        split at h
        · cases h
        · next hnode =>
          cases h
          exact ⟨components, directory, last, hroute, hnamed, hlocate, hlength, hnode, rfl⟩
  · rintro ⟨components, directory, last, hroute, hnamed, hlocate, hlength, hnode, rfl⟩
    refine ⟨components, hroute, _, hnamed.symm ▸ hlocate, ?_⟩
    dsimp only
    rw [if_neg (not_not_intro hnamed)]
    refine bind_eq_ok_iff.mpr ⟨_, entry_eq_ok_iff.mpr ⟨hlength, rfl⟩, ?_⟩
    split
    · next hdirectory => exact absurd hdirectory hnode
    · rfl

@[simp] theorem place_insert_eq_ok_iff :
    (t.insert path bytes).place name = .ok p ↔ t.place name = .ok p := by
  simp only [place_eq_ok_iff, locate_insert_eq_ok_iff, ne_eq, node?_insert_eq_directory_iff]

theorem read_insert (h : t.place name = .ok path) :
    (t.insert path bytes).read name = .ok bytes := by
  obtain ⟨components, directory, last, hroute, -, hlocate, hlength, hnode, rfl⟩ :=
    place_eq_ok_iff.mp h
  exact read_eq_ok_iff.mpr ⟨components, directory, last, hroute, locate_insert_eq_ok_iff.mpr hlocate,
    entry_eq_ok_iff.mpr ⟨hlength, node?_insert_self hnode⟩⟩

end UniversalMachine.FileTree
