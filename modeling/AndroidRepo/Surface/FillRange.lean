import AndroidRepo.Surface.Fill

/-! How large a buffer the loops can fill: surface1 counts its bytes in an `int`, vsync_anim its
words. -/
namespace AndroidRepo.Surface

open StoreLog

variable {buffer : ANativeWindow_Buffer} {h w s y x : ℕ} {n : Int} {bits : List UInt8}

/-- The index of the last pixel that a loop reaches. -/
def ANativeWindow_Buffer.last (buffer : ANativeWindow_Buffer) : Int :=
  (buffer.height - 1) * buffer.stride + (buffer.width - 1)

/-- It is that of the pixel in the last row and the last column. -/
theorem last_eq (hh : 0 < h) (hw : 0 < w) :
    (⟨w, h, s, bits⟩ : ANativeWindow_Buffer).last =
      ((h - 1 : ℕ) : Int) * s + ((w - 1 : ℕ) : Int) := by
  simp only [ANativeWindow_Buffer.last]
  rw [Int.natCast_sub hh, Int.natCast_sub hw]
  rfl

/-- No pixel has a larger one. -/
theorem index_le_last (hy : y < h) (hx : x < w) :
    ((y * s + x : ℕ) : Int) ≤ (⟨w, h, s, bits⟩ : ANativeWindow_Buffer).last := by
  have hrow : y * s ≤ (h - 1) * s := Nat.mul_le_mul_right s (by omega)
  rw [last_eq (by omega) (by omega), ← Int.natCast_mul]
  omega

/-- A loop that has an iteration without a result has none. -/
theorem forUpTo_none {σ : Type} {body : σ → Int → Option σ} {i : ℕ} (hi : (i : Int) < n)
    (hnone : ∀ s, body s i = none) (s : σ) : forUpTo n body s = none := by
  have hmem : i ∈ List.range n.toNat := List.mem_range.mpr (by omega)
  rw [forUpTo]
  generalize List.range n.toNat = is at hmem
  induction is generalizing s with
  | nil => cases hmem
  | cons j js ih =>
    rw [List.foldlM_cons]
    rcases List.mem_cons.mp hmem with rfl | hmem
    · rw [hnone]
      rfl
    · cases body s j with
      | none => rfl
      | some t => exact ih t hmem

/-- So have the two loops, if the pixel is one of those they reach. -/
theorem forUpTo_pixel_none {body : Buffer UInt8 → Int → Int → Option (Buffer UInt8)}
    (hy : y < h) (hx : x < w) (hnone : ∀ b, body b y x = none) (b : Buffer UInt8) :
    forUpTo h (fun b y => forUpTo w (fun b x => body b y x) b) b = none := by
  apply forUpTo_none (Int.ofNat_lt.mpr hy)
  intro b
  exact forUpTo_none (Int.ofNat_lt.mpr hx) hnone b

/-- The index of a pixel is computed without an overflow if it is an `int`. -/
theorem checked_index_le (hint : ((y * s + x : ℕ) : Int) ≤ intMax) :
    checked ((y : Int) * s) = some ((y * s : ℕ) : Int) ∧
    checked (((y * s : ℕ) : Int) + x) = some ((y * s + x : ℕ) : Int) := by
  simp only [intMax] at hint
  refine ⟨?_, ?_⟩
  · exact_mod_cast checked_natCast (n := y * s) (by omega)
  · exact_mod_cast checked_natCast (n := y * s + x) (by omega)

/-- At a pixel that the loops reach, the condition is one on the number alone. -/
theorem le_of_not_overflow (hnot : ¬ (0 < (h : Int) ∧ 0 < (w : Int) ∧ intMax < n)) (hy : y < h)
    (hx : x < w) : n ≤ intMax := by
  by_contra hgt
  exact hnot ⟨by omega, by omega, Int.not_le.mp hgt⟩

theorem Surface1.fill_eq_ite : Surface1.fill ⟨w, h, s, bits⟩ =
    if 0 < (h : Int) ∧ 0 < (w : Int) ∧ intMax < (⟨w, h, s, bits⟩ : ANativeWindow_Buffer).last * 4
    then none else Buffer.storeAll ⟨bits, []⟩ (bufferStores h w s [255, 0, 0, 255]) := by
  split
  · rename_i hlast
    obtain ⟨hh, hw, hlast⟩ := hlast
    rw [last_eq (by omega) (by omega)] at hlast
    have hpixel := checked_of_gt hlast
    apply forUpTo_pixel_none (y := h - 1) (x := w - 1) (by omega) (by omega)
    intro b
    -- any of the three steps may be the one that overflows
    rcases checked_cases (((h - 1 : ℕ) : Int) * s) with hrow | hrow
    · rcases checked_cases (((h - 1 : ℕ) : Int) * s + ((w - 1 : ℕ) : Int)) with hindex | hindex
      · simp only [hrow, hindex, hpixel, Option.bind_eq_bind, Option.bind_some, Option.bind_none]
      · simp only [hrow, hindex, Option.bind_eq_bind, Option.bind_some, Option.bind_none]
    · simp only [hrow, Option.bind_eq_bind, Option.bind_none]
  · rename_i hlast
    apply forUpTo_pixels
    intro y x hy hx b
    have hle : ((y * s + x : ℕ) : Int) ≤ (⟨w, h, s, bits⟩ : ANativeWindow_Buffer).last :=
      index_le_last hy hx
    have hfit := le_of_not_overflow hlast hy hx
    obtain ⟨hrow, hindex⟩ := checked_index_le (y := y) (s := s) (x := x) (by omega)
    have hlt : (y * s + x) * 4 < 2 ^ 31 := by
      simp only [intMax] at hfit
      omega
    have hpixel : checked (((y * s + x : ℕ) : Int) * 4) = some (offset s y x 0 : Int) := by
      exact_mod_cast checked_natCast hlt
    simp only [hrow, hindex, hpixel, storeAll_pixel, Option.bind_eq_bind, Option.bind_some]

theorem VSyncAnim.fill_eq_ite : VSyncAnim.fill ⟨w, h, s, bits⟩ =
    if 0 < (h : Int) ∧ 0 < (w : Int) ∧ intMax < (⟨w, h, s, bits⟩ : ANativeWindow_Buffer).last
    then none else Buffer.storeAll ⟨bits, []⟩ (bufferStores h w s [0, 255, 0, 255]) := by
  split
  · rename_i hlast
    obtain ⟨hh, hw, hlast⟩ := hlast
    rw [last_eq (by omega) (by omega)] at hlast
    have hindex := checked_of_gt hlast
    apply forUpTo_pixel_none (y := h - 1) (x := w - 1) (by omega) (by omega)
    intro b
    rcases checked_cases (((h - 1 : ℕ) : Int) * s) with hrow | hrow
    · simp only [hrow, hindex, Option.bind_eq_bind, Option.bind_some, Option.bind_none]
    · simp only [hrow, Option.bind_eq_bind, Option.bind_none]
  · rename_i hlast
    apply forUpTo_pixels
    intro y x hy hx b
    have hle : ((y * s + x : ℕ) : Int) ≤ (⟨w, h, s, bits⟩ : ANativeWindow_Buffer).last :=
      index_le_last hy hx
    have hfit := le_of_not_overflow hlast hy hx
    obtain ⟨hrow, hindex⟩ := checked_index_le (y := y) (s := s) (x := x) (by omega)
    have hoff : ((y * s + x : ℕ) : Int) * 4 = offset s y x 0 := by simp [offset]
    simp only [hrow, hindex, storeWord, hoff, storeAll_pixel, Option.bind_eq_bind,
      Option.bind_some]
    rfl

/-- Buffers of any size. The loop of surface1 overflows exactly where the byte offset of the last
pixel is not an `int`, that of vsync_anim where its index is none: four times as many pixels. A
buffer without an overflow is filled, by both loops in the same order. -/
theorem fill_range (hh : 0 ≤ buffer.height) (hw : 0 ≤ buffer.width)
    (hws : buffer.width ≤ buffer.stride)
    (hlen : (buffer.bits.length : Int) = buffer.height * buffer.stride * 4) :
    (Surface1.fill buffer = none ↔
      0 < buffer.height ∧ 0 < buffer.width ∧ intMax < buffer.last * 4) ∧
    (VSyncAnim.fill buffer = none ↔
      0 < buffer.height ∧ 0 < buffer.width ∧ intMax < buffer.last) ∧
    (∀ t, Surface1.fill buffer = some t → Filled buffer [255, 0, 0, 255] t ∧
      ∃ u, VSyncAnim.fill buffer = some u ∧ u.written = t.written) ∧
    ∀ u, VSyncAnim.fill buffer = some u → Filled buffer [0, 255, 0, 255] u := by
  obtain ⟨w, h, s, bits⟩ := buffer
  obtain ⟨h, rfl⟩ := Int.eq_ofNat_of_zero_le hh
  obtain ⟨w, rfl⟩ := Int.eq_ofNat_of_zero_le hw
  obtain ⟨s, rfl⟩ := Int.eq_ofNat_of_zero_le (Int.le_trans hw hws)
  have hws' : w ≤ s := Int.ofNat_le.mp hws
  have hbytes : (bits.length : Int) = h * s * 4 := hlen
  have hlen' : bits.length = h * s * 4 := by exact_mod_cast hbytes
  obtain ⟨t, ht, htlog, hft⟩ := filled_of_stores [255, 0, 0, 255] hws' rfl hlen'
  obtain ⟨u, hu, hulog, hfu⟩ := filled_of_stores [0, 255, 0, 255] hws' rfl hlen'
  have hlog : u.written = t.written := by
    rw [htlog, hulog, bufferStores_offsets, bufferStores_offsets]
    rfl
  -- where the bytes can be counted, so can the words
  have hwords : intMax < (⟨w, h, s, bits⟩ : ANativeWindow_Buffer).last →
      intMax < (⟨w, h, s, bits⟩ : ANativeWindow_Buffer).last * 4 := by
    simp only [intMax]
    omega
  rw [Surface1.fill_eq_ite, VSyncAnim.fill_eq_ite, ht, hu]
  refine ⟨by split <;> simp_all, by split <;> simp_all, ?_, ?_⟩
  · intro t' ht'
    split at ht'
    · cases ht'
    · rename_i hlast
      obtain rfl := Option.some.inj ht'
      refine ⟨hft, u, if_neg ?_, hlog⟩
      rintro ⟨hh, hw, hgt⟩
      exact hlast ⟨hh, hw, hwords hgt⟩
  · intro u' hu'
    split at hu'
    · cases hu'
    · obtain rfl := Option.some.inj hu'
      exact hfu

/-- A column of 2^29 + 1 pixels: the byte offset of the last one is 2^31. -/
theorem fill_range_column :
    Surface1.fill ⟨1, 2 ^ 29 + 1, 1, List.replicate (4 * 2 ^ 29 + 4) 0⟩ = none ∧
    VSyncAnim.fill ⟨1, 2 ^ 29 + 1, 1, List.replicate (4 * 2 ^ 29 + 4) 0⟩ ≠ none := by
  obtain ⟨hred, hgreen, -⟩ := @fill_range ⟨1, 2 ^ 29 + 1, 1, List.replicate (4 * 2 ^ 29 + 4) 0⟩
    (by decide) (by decide) (by decide) (by simp only [List.length_replicate]; rfl)
  rw [hred, Ne, hgreen]
  exact ⟨by decide, by decide⟩

end AndroidRepo.Surface
