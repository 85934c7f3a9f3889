import UniversalMachine.Proofs.File.Tree
/-! Plain names, which say without detours where a file is. Different ones are names of different
places, so a file that is written under one of them can still be read under the others. -/

namespace UniversalMachine

namespace Path

def IsPlain (name : String) : Prop := ∀ c ∈ components name, FileTree.IsProper c

instance (name : String) : Decidable (IsPlain name) := inferInstanceAs (Decidable (∀ _ ∈ _, _))

def file (name : String) : List Char := (name.toList.reverse.takeWhile (· ≠ '/')).reverse

def directory (name : String) : List Char := (name.toList.reverse.dropWhile (· ≠ '/')).reverse

variable {name name' : String}

theorem components_ne_nil (name : String) : components name ≠ [] :=
  fun h => List.splitOn_ne_nil '/' _ (List.map_eq_nil_iff.mp h)

theorem components_inj (h : components name = components name') : name = name' := by
  have hsplit : name.toList.splitOn '/' = name'.toList.splitOn '/' :=
    (List.map_inj_right fun _ _ => String.ofList_inj.mp).mp h
  apply String.toList_inj.mp
  calc name.toList
    _ = ['/'].intercalate (name.toList.splitOn '/') := (List.intercalate_splitOn '/').symm
    _ = ['/'].intercalate (name'.toList.splitOn '/') := by rw [hsplit]
    _ = name'.toList := List.intercalate_splitOn '/'

theorem directory_append_file (name : String) : directory name ++ file name = name.toList := by
  rw [directory, file, ← List.reverse_append, List.takeWhile_append_dropWhile, List.reverse_reverse]

theorem slash_not_mem_file (name : String) : '/' ∉ file name := by
  intro h
  have hne := List.all_eq_true.mp List.all_takeWhile '/' (List.mem_reverse.mp h)
  simp at hne

theorem directory_eq (name : String) :
    directory name = [] ∨ ∃ cs, directory name = cs ++ ['/'] := by
  rw [directory]
  have hhead := List.head?_dropWhile_not (· ≠ '/') name.toList.reverse
  cases h : name.toList.reverse.dropWhile (· ≠ '/') with
  | nil => exact .inl rfl
  | cons c cs =>
    rw [h] at hhead
    have hslash : c = '/' := by simpa using hhead
    exact .inr ⟨cs.reverse, by rw [hslash, List.reverse_cons]⟩

theorem splitOn_of_not_mem {cs : List Char} (h : '/' ∉ cs) : cs.splitOn '/' = [cs] := by
  rw [List.splitOn_eq_splitOnP]
  exact List.splitOnP_eq_singleton fun c hc => beq_false_of_ne fun heq => h (heq ▸ hc)

theorem exists_parents (name : String) :
    ∃ parents, ∀ cs, '/' ∉ cs →
      components (String.ofList (directory name ++ cs)) = parents ++ [String.ofList cs] := by
  simp only [components, String.toList_ofList]
  obtain h | ⟨ds, h⟩ := directory_eq name
  · refine ⟨[], fun cs hcs => ?_⟩
    rw [h, List.nil_append, splitOn_of_not_mem hcs]
    rfl
  · refine ⟨(ds.splitOn '/').map String.ofList, fun cs hcs => ?_⟩
    have hsplit : (ds ++ '/' :: cs).splitOn '/' = ds.splitOn '/' ++ cs.splitOn '/' := by
      simp only [List.splitOn_eq_splitOnP]
      exact List.splitOnP_append_cons ds cs BEq.rfl
    rw [h, List.append_assoc, List.singleton_append, hsplit, splitOn_of_not_mem hcs,
      List.map_append]
    rfl

section Stem

variable {cs : List Char}

theorem stem_isPrefix (cs : List Char) : stem cs <+: cs := by
  rw [stem]
  split
  · next c rest h =>
    split
    · exact List.prefix_rfl
    · have hsplit : cs.reverse = cs.reverse.takeWhile (· ≠ '.') ++ c :: rest := by
        rw [← h, List.takeWhile_append_dropWhile]
      refine ⟨c :: (cs.reverse.takeWhile (· ≠ '.')).reverse, ?_⟩
      simpa using (congrArg List.reverse hsplit).symm
  · exact List.prefix_rfl

theorem stem_ne_nil (h : cs ≠ []) : stem cs ≠ [] := by
  rw [stem]
  split
  · next c rest _ =>
    split
    · exact h
    · next hrest => simpa using hrest
  · exact h

theorem stem_append_extension (h : cs ≠ []) : stem (cs ++ ['.', 'a', 's', 'm']) = cs := by
  have hdrop : (cs ++ ['.', 'a', 's', 'm']).reverse.dropWhile (· ≠ '.') = '.' :: cs.reverse := by
    rw [List.reverse_append]
    rfl
  rw [stem, hdrop]
  simp [h]

end Stem

def listingFile (name : String) : List Char :=
  stem (file name) ++ if stem (file name) = ['.'] then ['.'] else ['.', 'a', 's', 'm']

theorem listing_eq (name : String) :
    listing name = String.ofList (directory name ++ listingFile name) := by
  rw [listingFile, ← List.append_assoc]
  rfl

theorem slash_not_mem_listingFile (name : String) : '/' ∉ listingFile name := by
  rw [listingFile, List.mem_append, not_or]
  refine ⟨fun h => slash_not_mem_file name ((stem_isPrefix _).subset h), ?_⟩
  split <;> decide

theorem components_listing (name : String) :
    ∃ parents, components name = parents ++ [String.ofList (file name)] ∧
      components (listing name) = parents ++ [String.ofList (listingFile name)] := by
  obtain ⟨parents, h⟩ := exists_parents name
  refine ⟨parents, ?_, ?_⟩
  · rw [← h _ (slash_not_mem_file name), directory_append_file, String.ofList_toList]
  · rw [listing_eq, h _ (slash_not_mem_listingFile name)]

theorem directory_file_ofList {cs : List Char} (h : '/' ∉ cs) (name : String) :
    directory (String.ofList (directory name ++ cs)) = directory name ∧
      file (String.ofList (directory name ++ cs)) = cs := by
  have hfile : ∀ c ∈ cs.reverse, decide (c ≠ '/') = true := fun c hc =>
    decide_eq_true fun heq => h (heq ▸ List.mem_reverse.mp hc)
  rw [directory, file, String.toList_ofList, List.reverse_append,
    List.dropWhile_append_of_pos hfile, List.takeWhile_append_of_pos hfile]
  obtain hdirectory | ⟨ds, hdirectory⟩ := directory_eq name
  · rw [hdirectory]
    simp
  · rw [hdirectory]
    simp

theorem file_ne_nil (h : IsPlain name) : file name ≠ [] := by
  obtain ⟨parents, hname, -⟩ := components_listing name
  have hproper := h (String.ofList (file name)) (by rw [hname]; exact List.mem_concat_self)
  intro hfile
  rw [hfile] at hproper
  exact hproper.1 rfl

theorem listing_listing (h : IsPlain name) : listing (listing name) = listing name := by
  obtain ⟨hdirectory, hfile⟩ := directory_file_ofList (slash_not_mem_listingFile name) name
  rw [← listing_eq] at hdirectory hfile
  have hstem : stem (listingFile name) = stem (file name) := by
    rw [listingFile]
    split
    · next hdot => rw [hdot]; rfl
    · exact stem_append_extension (stem_ne_nil (file_ne_nil h))
  rw [listing_eq (listing name), hdirectory, listingFile, hfile, hstem, ← listingFile, ← listing_eq]

end Path

namespace FileTree

variable {t : FileTree} {path directory : Path} {last : String} {name name' : String}
  {bytes bytes' : List UInt8}

theorem walk_of_proper {p q : Path} {components : List String}
    (hproper : ∀ c ∈ components, IsProper c) (h : t.walk p components = .ok q) :
    q = p ++ components := by
  induction components generalizing p with
  | nil => rw [List.append_nil]; exact (Except.ok.inj h).symm
  | cons c rest ih =>
    obtain ⟨hc, hrest⟩ := List.forall_mem_cons.mp hproper
    rw [ih hrest ((walk_cons_eq_ok_iff hc).mp h).2, List.append_assoc, List.singleton_append]

theorem locate_plain (hplain : Path.IsPlain name)
    (h : t.locate (Path.components name) = .ok (directory, some last)) :
    directory ++ [last] = t.workingDirectory ++ Path.components name := by
  obtain ⟨-, hlast, hwalk⟩ := locate_eq_ok_iff.mp h
  have hne := Path.components_ne_nil name
  have hdirectory := walk_of_proper (fun c hc => hplain c (List.dropLast_subset _ hc)) hwalk
  have horigin : t.origin (Path.components name) = t.workingDirectory := by
    refine if_neg fun hhead => ?_
    exact (hplain "" (List.mem_of_mem_head? hhead)).1 rfl
  rw [List.getLast?_eq_some_getLast hne, Option.getD_some] at hlast
  rw [hdirectory, horigin, ← hlast, List.append_assoc, List.dropLast_concat_getLast hne]

theorem place_plain (hplain : Path.IsPlain name) (h : t.place name = .ok path) :
    path = t.workingDirectory ++ Path.components name := by
  obtain ⟨components, directory, last, hroute, -, hlocate, -, -, rfl⟩ := place_eq_ok_iff.mp h
  rw [components_of_route hroute] at hlocate
  exact locate_plain hplain hlocate

theorem read_insert_of_ne (hplain : Path.IsPlain name) (hplain' : Path.IsPlain name')
    (hne : name' ≠ name) (hplace : t.place name = .ok path) :
    (t.insert path bytes).read name' = .ok bytes' ↔ t.read name' = .ok bytes' := by
  simp only [read_eq_ok_iff, locate_insert_eq_ok_iff]
  refine exists_congr fun components => exists_congr fun directory => exists_congr fun last =>
    and_congr_right fun hroute => and_congr_right fun hlocate => ?_
  have hpath : directory ++ [last] ≠ path := by
    rw [components_of_route hroute] at hlocate
    rw [locate_plain hplain' hlocate, place_plain hplain hplace]
    exact fun heq => hne (Path.components_inj (List.append_cancel_left heq))
  rw [entry_eq_ok_iff, entry_eq_ok_iff, node?_insert_of_ne hpath]

section Listing

variable (hplain : Path.IsPlain name)

include hplain

theorem isPlain_listing_of_locate
    (h : t.locate (Path.components (Path.listing name)) = .ok (directory, some last)) :
    Path.IsPlain (Path.listing name) := by
  obtain ⟨hproper, hlast, -⟩ := locate_eq_ok_iff.mp h
  obtain ⟨parents, hname, hlisting⟩ := Path.components_listing name
  rw [hlisting, List.getLast?_concat, Option.getD_some] at hlast
  rw [Path.IsPlain, hlisting]
  intro c hc
  obtain hc | hc := List.mem_append.mp hc
  · exact hplain c (by rw [hname]; exact List.mem_append_left _ hc)
  · rw [List.mem_singleton.mp hc, hlast]
    exact hproper

theorem isPlain_listing (hplace : t.place (Path.listing name) = .ok path) :
    Path.IsPlain (Path.listing name) := by
  obtain ⟨components, directory, last, hroute, -, hlocate, -⟩ := place_eq_ok_iff.mp hplace
  rw [components_of_route hroute] at hlocate
  exact isPlain_listing_of_locate hplain hlocate

theorem isPlain_listing_of_read (hread : t.read (Path.listing name) = .ok bytes) :
    Path.IsPlain (Path.listing name) := by
  obtain ⟨components, directory, last, hroute, hlocate, -⟩ := read_eq_ok_iff.mp hread
  rw [components_of_route hroute] at hlocate
  exact isPlain_listing_of_locate hplain hlocate

end Listing

end FileTree

end UniversalMachine
