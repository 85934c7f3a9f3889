import UniversalMachine.Proofs.Listing.Control
import UniversalMachine.Proofs.Numeral

namespace UniversalMachine

theorem splitOn_lines {α : Type*} [BEq α] [LawfulBEq α] {x : α} {lines : List (List α)}
    (h : ∀ line ∈ lines, x ∉ line) :
    (lines.flatMap (· ++ [x])).splitOn x = lines ++ [[]] := by
  induction lines with
  | nil => rw [List.flatMap_nil, List.splitOn_nil]; rfl
  | cons line lines ih =>
    have hline : ∀ y ∈ line, (y == x) = false := fun y hy =>
      beq_false_of_ne fun hyx => h line List.mem_cons_self (hyx ▸ hy)
    rw [List.flatMap_cons, List.append_assoc, List.singleton_append, List.splitOn_eq_splitOnP,
      List.splitOnP_append_cons_of_forall_mem hline x BEq.rfl, ← List.splitOn_eq_splitOnP,
      ih fun line' hmem => h line' (List.mem_cons_of_mem _ hmem), List.cons_append]

theorem not_mem_of_controls_eq_nil {c : Char} {text : String} (h : controls text = [])
    (hc : IsControl c) : c ∉ text.toList := by
  intro hmem
  have hcontrol : c ∈ controls text := mem_controls_iff.mpr ⟨hmem, hc⟩
  rw [h] at hcontrol
  cases hcontrol

def table (text : String) : List (List (List Char)) :=
  (text.toList.splitOn '\n').dropLast.map (List.splitOn '\t')

namespace Image

def ofListing? (text : String) : Option Image :=
  ((table text).mapM fun fields => fields[1]?.bind Word.ofHex?).map Image.mk

def listingFields (index : Nat) (w : Word) : List (List Char) :=
  [(Numeral.aligned 4 index).toList, w.hex.toList, (Operation.decode w).pseudocode.toList]

def listingBody (index : Nat) (w : Word) : List Char := ['\t'].intercalate (listingFields index w)

theorem not_mem_listingFields {c : Char} (hc : c.toNat ≤ 0x1f) (index : Nat) (w : Word) :
    ∀ field ∈ listingFields index w, c ∉ field := by
  simp only [listingFields, List.forall_mem_cons, List.not_mem_nil, false_imp_iff, implies_true,
    and_true]
  exact ⟨not_mem_of_controls_eq_nil (controls_aligned 4 index) (.inl hc),
    not_mem_of_controls_eq_nil (controls_hex w) (.inl hc), Operation.not_mem_pseudocode hc⟩

theorem splitOn_listingBody (index : Nat) (w : Word) :
    (listingBody index w).splitOn '\t' = listingFields index w :=
  List.splitOn_intercalate '\t' (not_mem_listingFields (by decide) index w) (List.cons_ne_nil _ _)

theorem toList_listingLine (index : Nat) (w : Word) :
    (listingLine index w).toList = listingBody index w ++ ['\n'] := by
  simp [listingLine, listingBody, listingFields, List.intercalate]

theorem newline_not_mem_listingBody (index : Nat) (w : Word) : '\n' ∉ listingBody index w := by
  have hfields := not_mem_listingFields (c := '\n') (by decide) index w
  simp only [listingFields, List.forall_mem_cons] at hfields
  simp [listingBody, listingFields, List.intercalate, hfields]

variable (image : Image)

def listingBodies : List (List Char) := image.words.zipIdx.map fun (w, index) => listingBody index w

theorem toList_listing : image.listing.toList = image.listingBodies.flatMap (· ++ ['\n']) := by
  rw [listing, String.toList_join, listingBodies, List.flatMap_map, List.flatMap_map]
  simp only [toList_listingLine]

theorem newline_not_mem_listingBodies : ∀ line ∈ image.listingBodies, '\n' ∉ line := by
  intro line hline
  obtain ⟨⟨w, index⟩, -, rfl⟩ := List.mem_map.mp hline
  exact newline_not_mem_listingBody index w

theorem table_listing :
    table image.listing = image.words.zipIdx.map fun (w, index) => listingFields index w := by
  rw [table, toList_listing, splitOn_lines (newline_not_mem_listingBodies image),
    List.dropLast_concat, listingBodies, List.map_map]
  simp only [Function.comp_def, splitOn_listingBody]

theorem ofListing?_listing : ofListing? image.listing = some image := by
  have hsecond (index : Nat) (w : Word) : (listingFields index w)[1]? = some w.hex.toList := rfl
  have hwords : image.words.zipIdx.mapM (fun r => some r.1) = some image.words :=
    List.mapM_pure.trans (congrArg some (List.zipIdx_map_fst 0 image.words))
  rw [ofListing?, table_listing, List.mapM_map]
  simp only [Function.comp_def, hsecond, Option.bind_some, Word.ofHex?_hex, hwords, Option.map_some]

theorem listing_inj {image image' : Image} (h : image.listing = image'.listing) :
    image = image' := by
  have hread := congrArg ofListing? h
  rw [ofListing?_listing, ofListing?_listing] at hread
  exact Option.some.inj hread

/-- The lines of a listing and their fields, and that a listing tells its image. -/
theorem listing_read :
    (∃ lines : List (List Char),
      image.listing.toList = lines.flatMap (· ++ ['\n']) ∧ (∀ line ∈ lines, '\n' ∉ line) ∧
      lines.length = image.words.length ∧
      ∀ index w, image.words[index]? = some w → ∃ line number stored text,
        lines[index]? = some line ∧ line.splitOn '\t' = [number, stored, text] ∧
        number = List.replicate (4 - (Nat.repr index).length) ' ' ++ (Nat.repr index).toList ∧
        stored = '0' :: 'x' :: Numeral.hexDigits 8 w.toNat ∧ Word.ofHex? stored = some w ∧
        text = (Operation.decode w).pseudocode.toList ∧ '\t' ∉ text ∧ '\n' ∉ text) ∧
    ofListing? image.listing = some image ∧
    ∀ image', image.listing = image'.listing ↔ image = image' := by
  refine ⟨⟨image.listingBodies, toList_listing image, newline_not_mem_listingBodies image, ?_, ?_⟩,
    ofListing?_listing image, fun image' => ⟨listing_inj, congrArg listing⟩⟩
  · rw [listingBodies, List.length_map, List.length_zipIdx]
  · intro index w hw
    have htab : '\t' ∉ (Operation.decode w).pseudocode.toList :=
      Operation.not_mem_pseudocode (by decide)
    have hnewline : '\n' ∉ (Operation.decode w).pseudocode.toList :=
      Operation.not_mem_pseudocode (by decide)
    refine ⟨listingBody index w, _, _, _, ?_, splitOn_listingBody index w, ?_, Word.toList_hex w,
      Word.ofHex?_hex w, rfl, htab, hnewline⟩
    · rw [listingBodies, List.getElem?_map, List.getElem?_zipIdx, hw, Option.map_some,
        Option.map_some, Nat.zero_add]
    · rw [Numeral.aligned, String.toList_ofList, ← String.length_toList, Nat.toList_repr]
      rfl

/-- Beyond four digits the first field is as wide as its number. -/
example : listingLine 10000 0x70000000 = "10000\t0x70000000\t=== HALT ===\n" := by decide +kernel

end Image

end UniversalMachine
