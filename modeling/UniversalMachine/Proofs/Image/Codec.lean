import UniversalMachine.Image
import UniversalMachine.Proofs.Instruction.Codec
import UniversalMachine.Proofs.Traverse

namespace UniversalMachine

namespace Image

theorem length_flatMap_toBytes (words : List Word) :
    (words.flatMap Word.toBytes).length = 4 * words.length := by
  induction words with
  | nil => rfl
  | cons w words ih =>
    rw [List.flatMap_cons, List.length_append, Word.length_toBytes, ih, List.length_cons]
    omega

theorem length_toBytes (image : Image) : image.toBytes.length = 4 * image.words.length :=
  length_flatMap_toBytes image.words

theorem readWords_flatMap_toBytes (words read : List Word) :
    readWords read (words.flatMap Word.toBytes) = read.reverse ++ words := by
  induction words generalizing read with
  | nil => exact (List.append_nil _).symm
  | cons w words ih =>
    rw [List.flatMap_cons, Word.toBytes, List.cons_append, List.cons_append, List.cons_append,
      List.cons_append, List.nil_append, readWords, Word.ofBytes_toBytes, ih, List.reverse_cons,
      List.append_assoc]
    rfl

theorem ofBytes_toBytes (image : Image) : ofBytes image.toBytes = .ok image := by
  rw [ofBytes, if_pos (by rw [length_toBytes, Nat.mul_mod_right]), toBytes,
    readWords_flatMap_toBytes]
  rfl

theorem toBytes_inj {image image' : Image} (h : image.toBytes = image'.toBytes) :
    image = image' := by
  have hread := ofBytes_toBytes image
  rw [h, ofBytes_toBytes] at hread
  exact (Except.ok.inj hread).symm

theorem flatMap_readWords {bytes : List UInt8} (h : bytes.length % 4 = 0) (read : List Word) :
    (readWords read bytes).flatMap Word.toBytes = read.reverse.flatMap Word.toBytes ++ bytes := by
  fun_induction readWords read bytes with
  | case1 read b₀ b₁ b₂ b₃ rest ih =>
    rw [ih (by simp only [List.length_cons] at h; omega), List.reverse_cons, List.flatMap_append,
      List.append_assoc, List.flatMap_cons, List.flatMap_nil, Word.toBytes_ofBytes]
    rfl
  | case2 bytes read hshort =>
    rcases bytes with _ | ⟨b₀, _ | ⟨b₁, _ | ⟨b₂, _ | ⟨b₃, rest⟩⟩⟩⟩
    · rw [List.append_nil]
    · simp at h
    · simp at h
    · simp at h
    · exact (hshort b₀ b₁ b₂ b₃ rest rfl).elim

theorem ofBytes_eq_ok_iff {bytes : List UInt8} {image : Image} :
    ofBytes bytes = .ok image ↔ bytes = image.toBytes := by
  constructor
  · intro h
    rw [ofBytes] at h
    split at h
    · next hlength =>
      cases h
      have hwords := flatMap_readWords hlength []
      exact hwords.symm
    · cases h
  · rintro rfl
    exact ofBytes_toBytes image

section Join

variable {parts : List (List UInt8)} {images : List Image} {image : Image}

theorem map_ofBytes_iff : parts.map ofBytes = images.map .ok ↔ parts = images.map toBytes := by
  induction parts generalizing images with
  | nil => cases images <;> simp
  | cons part parts ih =>
    cases images with
    | nil => simp
    | cons image images => simp [ih, ofBytes_eq_ok_iff]

theorem joinBytes_eq_ok_iff :
    joinBytes parts = .ok image ↔ ∃ images, parts = images.map toBytes ∧ image = join images := by
  rw [joinBytes, map_eq_ok_iff]
  constructor
  · rintro ⟨images, hparts, rfl⟩
    exact ⟨images, map_ofBytes_iff.mp (mapM_eq_ok_iff.mp hparts), rfl⟩
  · rintro ⟨images, hparts, rfl⟩
    exact ⟨images, mapM_eq_ok_iff.mpr (map_ofBytes_iff.mpr hparts), rfl⟩

theorem join_singleton (image : Image) : join [image] = image := by
  rw [join, List.flatMap_cons, List.flatMap_nil, List.append_nil]

end Join

section Assembly

variable {instructions : List Instruction} {image : Image}

theorem ofInstructions_eq_ok_iff :
    ofInstructions instructions = .ok image ↔
      instructions.mapM Instruction.encode = .ok image.words := by
  rw [ofInstructions, map_eq_ok_iff]
  constructor
  · rintro ⟨words, h, rfl⟩
    exact h
  · intro h
    exact ⟨image.words, h, rfl⟩

theorem ofInstructions_eq_error_iff {e : AssemblyError} :
    ofInstructions instructions = .error e ↔ instructions.mapM Instruction.encode = .error e :=
  map_eq_error_iff

theorem map_encode (h : ofInstructions instructions = .ok image) :
    instructions.map Instruction.encode = image.words.map .ok :=
  mapM_eq_ok_iff.mp (ofInstructions_eq_ok_iff.mp h)

theorem length_words (h : ofInstructions instructions = .ok image) :
    image.words.length = instructions.length := by
  have hlength := congrArg List.length (map_encode h)
  rw [List.length_map, List.length_map] at hlength
  exact hlength.symm

theorem map_decode (h : ofInstructions instructions = .ok image) :
    image.words.map Instruction.decode = instructions.map .ok :=
  map_of_inverse (fun _ _ => Instruction.decode_encode) (map_encode h)

theorem ofInstructions_inj {instructions' : List Instruction}
    (h : ofInstructions instructions = .ok image) (h' : ofInstructions instructions' = .ok image) :
    instructions = instructions' :=
  (List.map_inj_right fun _ _ => Except.ok.inj).mp ((map_decode h).symm.trans (map_decode h'))

theorem forall_encode_iff :
    (∀ i ∈ instructions, ∃ w, i.encode = .ok w) ↔
      ∀ a value, .orthography a value ∈ instructions → value ≤ Instruction.immediateMax := by
  constructor
  · intro hall a value hmem
    exact Instruction.exists_encode_iff_le.mp (hall _ hmem) a value rfl
  · intro hfits i hmem
    apply Instruction.exists_encode_iff_le.mpr
    rintro a value rfl
    exact hfits a value hmem

theorem exists_ofInstructions_iff :
    (∃ image, ofInstructions instructions = .ok image) ↔
      ∀ a value, .orthography a value ∈ instructions → value ≤ Instruction.immediateMax := by
  rw [← forall_encode_iff, ← exists_mapM_eq_ok_iff]
  exact exists_map_eq_ok_iff

theorem ofInstructions_eq_error_iff_first {e : AssemblyError} :
    ofInstructions instructions = .error e ↔
      ∃ before a value after, instructions = before ++ .orthography a value :: after ∧
        (∀ a' value', .orthography a' value' ∈ before → value' ≤ Instruction.immediateMax) ∧
        Instruction.immediateMax < value ∧ e = .immediateOutOfRange value := by
  rw [ofInstructions_eq_error_iff, mapM_eq_error_iff]
  constructor
  · rintro ⟨before, i, after, rfl, hbefore, hi⟩
    obtain ⟨a, value, rfl, hgt, rfl⟩ := Instruction.encode_eq_error_iff.mp hi
    exact ⟨before, a, value, after, rfl, forall_encode_iff.mp hbefore, hgt, rfl⟩
  · rintro ⟨before, a, value, after, rfl, hbefore, hgt, rfl⟩
    exact ⟨before, _, after, rfl, forall_encode_iff.mpr hbefore,
      Instruction.encode_eq_error_iff.mpr ⟨a, value, rfl, hgt, rfl⟩⟩

/-- Which lists can be assembled, which instruction decides the error of the others, and that an image
gives back its words from its bytes and the instructions from its words. -/
theorem ofInstructions_lossless (instructions : List Instruction) :
    ((∃ image, ofInstructions instructions = .ok image) ↔
      ∀ a value, .orthography a value ∈ instructions → value ≤ 0x1ffffff) ∧
    (∀ e, ofInstructions instructions = .error e ↔
      ∃ before a value after, instructions = before ++ .orthography a value :: after ∧
        (∀ a' value', .orthography a' value' ∈ before → value' ≤ 0x1ffffff) ∧
        0x1ffffff < value ∧ e = .immediateOutOfRange value) ∧
    (∀ image, ofInstructions instructions = .ok image →
      image.toBytes.length = 4 * instructions.length ∧ ofBytes image.toBytes = .ok image ∧
      image.words.map Instruction.decode = instructions.map .ok ∧
      ∀ instructions' image', ofInstructions instructions' = .ok image' →
        instructions ≠ instructions' → image.toBytes ≠ image'.toBytes) ∧
    ∀ (i i' : Instruction) w w', i.encode = .ok w → i'.encode = .ok w' → i ≠ i' → w ≠ w' := by
  refine ⟨exists_ofInstructions_iff, fun e => ofInstructions_eq_error_iff_first,
    fun image h => ⟨?_, ofBytes_toBytes image, map_decode h, ?_⟩, ?_⟩
  · rw [length_toBytes, length_words h]
  · intro instructions' image' h' hne hbytes
    have himage := toBytes_inj hbytes
    exact hne (ofInstructions_inj h (himage ▸ h'))
  · rintro i i' w w' h h' hne rfl
    exact hne (Instruction.encode_inj h h')

theorem ofInstructions_lossless_largest :
    ofInstructions [.orthography 7 0x1ffffff, .halt] = .ok ⟨[0xdfffffff, 0x70000000]⟩ ∧
      ofBytes [0xdf, 0xff, 0xff, 0xff, 0x70, 0, 0, 0] = .ok ⟨[0xdfffffff, 0x70000000]⟩ ∧
      [0xdfffffff, 0x70000000].map Instruction.decode =
        [.orthography 7 0x1ffffff, .halt].map .ok := by
  have h : ofInstructions [.orthography 7 0x1ffffff, .halt] = .ok ⟨[0xdfffffff, 0x70000000]⟩ := rfl
  obtain ⟨-, -, hread, -⟩ := ofInstructions_lossless [.orthography 7 0x1ffffff, .halt]
  obtain ⟨-, hbytes, hdecode, -⟩ := hread _ h
  exact ⟨h, hbytes, hdecode⟩

end Assembly

end Image

end UniversalMachine
