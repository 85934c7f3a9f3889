universe u v w u'

namespace UniversalMachine

variable {ε : Type u} {α : Type v} {β : Type w} {f : α → Except ε β} {x : α} {xs : List α}

section Results

variable {γ : Type u'} {g : β → γ} {r : Except ε β}

theorem map_eq_error_iff {e : ε} : r.map g = .error e ↔ r = .error e := by
  cases r with
  | error e' => constructor <;> intro h <;> cases h <;> rfl
  | ok b => constructor <;> intro h <;> cases h

theorem map_eq_ok_iff {c : γ} : r.map g = .ok c ↔ ∃ b, r = .ok b ∧ g b = c := by
  cases r with
  | error e => exact ⟨nofun, fun ⟨_, h, _⟩ => nomatch h⟩
  | ok b =>
    constructor
    · intro h
      exact ⟨b, rfl, Except.ok.inj h⟩
    · rintro ⟨_, ⟨⟩, rfl⟩
      rfl

theorem exists_map_eq_ok_iff : (∃ c, r.map g = .ok c) ↔ ∃ b, r = .ok b :=
  ⟨fun ⟨_, h⟩ => (map_eq_ok_iff.mp h).imp fun _ => And.left,
    fun ⟨b, h⟩ => ⟨g b, map_eq_ok_iff.mpr ⟨b, h, rfl⟩⟩⟩

theorem bind_eq_ok_iff {α β : Type v} {r : Except ε α} {k : α → Except ε β} {b : β} :
    (r >>= k) = .ok b ↔ ∃ a, r = .ok a ∧ k a = .ok b := by
  cases r with
  | error e => exact ⟨nofun, fun ⟨_, h, _⟩ => nomatch h⟩
  | ok a => exact ⟨fun h => ⟨a, rfl, h⟩, fun ⟨_, h, h'⟩ => Except.ok.inj h ▸ h'⟩

end Results

theorem takeWhile_append_eq_left {p : α → Bool} {ys : List α} (hxs : ∀ x ∈ xs, p x)
    (hys : ∀ y ∈ ys.head?, ¬p y) : (xs ++ ys).takeWhile p = xs := by
  have hnone : ys.takeWhile p = [] := by
    cases ys with
    | nil => rfl
    | cons y ys => exact List.takeWhile_cons_of_neg (hys y rfl)
  rw [List.takeWhile_append_of_pos hxs, hnone, List.append_nil]

theorem mapM_cons_ok {y : β} (h : f x = .ok y) :
    (x :: xs).mapM f = (xs.mapM f).map (y :: ·) := by
  rw [List.mapM_cons, h]
  cases xs.mapM f <;> rfl

theorem mapM_cons_error {e : ε} (h : f x = .error e) : (x :: xs).mapM f = .error e := by
  rw [List.mapM_cons, h]
  rfl

theorem mapM_cons_eq_ok_iff {ys : List β} :
    (x :: xs).mapM f = .ok ys ↔ ∃ z, f x = .ok z ∧ ∃ zs, xs.mapM f = .ok zs ∧ z :: zs = ys := by
  simp only [List.mapM_cons, bind_eq_ok_iff, pure, Except.pure, Except.ok.injEq]

theorem mapM_eq_ok_iff {ys : List β} : xs.mapM f = .ok ys ↔ xs.map f = ys.map .ok := by
  induction xs generalizing ys with
  | nil =>
    rw [List.mapM_nil, List.map_nil]
    cases ys with
    | nil => exact ⟨fun _ => rfl, fun _ => rfl⟩
    | cons y ys => constructor <;> intro h <;> cases h
  | cons x xs ih =>
    rw [mapM_cons_eq_ok_iff, List.map_cons]
    constructor
    · rintro ⟨z, hz, zs, hzs, rfl⟩
      rw [List.map_cons, hz, ih.mp hzs]
    · intro h
      obtain ⟨z, zs, rfl, hz, hzs⟩ := List.map_eq_cons_iff.mp h.symm
      exact ⟨z, hz.symm, zs, ih.mpr hzs.symm, rfl⟩

theorem map_of_inverse {ε' : Type u'} {g : β → Except ε' α} {ys : List β}
    (hg : ∀ x y, f x = .ok y → g y = .ok x) (h : xs.map f = ys.map .ok) :
    ys.map g = xs.map .ok := by
  induction xs generalizing ys with
  | nil => rw [List.map_eq_nil_iff.mp h.symm]; rfl
  | cons x xs ih =>
    cases ys with
    | nil => cases h
    | cons y ys =>
      obtain ⟨hy, hys⟩ := List.cons.inj h
      rw [List.map_cons, List.map_cons, hg x y hy, ih hys]

theorem mapM_eq_error_iff {e : ε} :
    xs.mapM f = .error e ↔
      ∃ before x after, xs = before ++ x :: after ∧ (∀ y ∈ before, ∃ z, f y = .ok z) ∧
        f x = .error e := by
  induction xs with
  | nil =>
    constructor
    · intro h; cases h
    · rintro ⟨before, x, after, hxs, -⟩
      cases before <;> cases hxs
  | cons x xs ih =>
    constructor
    · intro h
      cases hx : f x with
      | error e' =>
        rw [mapM_cons_error hx] at h
        cases h
        exact ⟨[], x, xs, rfl, (fun y hy => nomatch hy), hx⟩
      | ok z =>
        rw [mapM_cons_ok hx] at h
        cases hxs : xs.mapM f with
        | ok zs => rw [hxs] at h; cases h
        | error e' =>
          rw [hxs] at h
          cases h
          obtain ⟨before, x', after, rfl, hbefore, hx'⟩ := ih.mp hxs
          refine ⟨x :: before, x', after, rfl, fun y hy => ?_, hx'⟩
          cases hy with
          | head => exact ⟨z, hx⟩
          | tail _ hy => exact hbefore y hy
    · rintro ⟨before, x', after, hxs, hbefore, hx'⟩
      cases before with
      | nil => cases hxs; exact mapM_cons_error hx'
      | cons y before =>
        cases hxs
        obtain ⟨z, hz⟩ := hbefore _ (.head _)
        rw [mapM_cons_ok hz, ih.mpr ⟨before, x', after, rfl, fun y hy => hbefore y (.tail _ hy), hx'⟩]
        rfl

theorem exists_mapM_eq_ok_iff : (∃ ys, xs.mapM f = .ok ys) ↔ ∀ x ∈ xs, ∃ y, f x = .ok y := by
  constructor
  · rintro ⟨ys, h⟩ x hx
    have hmem : f x ∈ ys.map .ok := mapM_eq_ok_iff.mp h ▸ List.mem_map_of_mem hx
    obtain ⟨y, -, hy⟩ := List.mem_map.mp hmem
    exact ⟨y, hy.symm⟩
  · intro hall
    cases h : xs.mapM f with
    | ok ys => exact ⟨ys, rfl⟩
    | error e =>
      obtain ⟨before, x, after, rfl, -, hx⟩ := mapM_eq_error_iff.mp h
      obtain ⟨y, hy⟩ := hall x (List.mem_append_right before (.head after))
      rw [hx] at hy
      cases hy

section Fold

variable {γ : Type u'} {step : γ → α → Except ε γ} {c c' : γ}

theorem foldlM_cons_eq_ok_iff :
    (x :: xs).foldlM step c = .ok c' ↔ ∃ d, step c x = .ok d ∧ xs.foldlM step d = .ok c' := by
  rw [List.foldlM_cons, bind_eq_ok_iff]

theorem foldlM_concat_eq_ok_iff :
    (xs ++ [x]).foldlM step c = .ok c' ↔ ∃ d, xs.foldlM step c = .ok d ∧ step d x = .ok c' := by
  simp only [List.foldlM_append, bind_eq_ok_iff, List.foldlM_cons, List.foldlM_nil, bind_pure]

theorem exists_of_foldlM (h : xs.foldlM step c = .ok c') (hx : x ∈ xs) :
    ∃ d d', step d x = .ok d' := by
  induction xs generalizing c with
  | nil => cases hx
  | cons y xs ih =>
    obtain ⟨d, hd, hrest⟩ := foldlM_cons_eq_ok_iff.mp h
    cases hx with
    | head => exact ⟨c, d, hd⟩
    | tail _ hx => exact ih hrest hx

end Fold

end UniversalMachine
