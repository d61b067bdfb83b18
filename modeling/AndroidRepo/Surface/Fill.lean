import AndroidRepo.MachineInt
import AndroidRepo.StoreLog

/-! The loops that fill a locked window buffer: by bytes in surface_test/surface1/main.cpp, by
32-bit words in surface_test/vsync_anim/vsync_anim.cpp. -/
namespace AndroidRepo.Surface

open StoreLog

/-- `ANativeWindow_Buffer`, and the bytes behind `bits`. -/
structure ANativeWindow_Buffer where
  width : Int
  height : Int
  stride : Int
  bits : List UInt8
  deriving DecidableEq, Repr

/-- `for (int i = 0; i < n; ++i)`, where the body leaves `i` alone. -/
def forUpTo {σ : Type} (n : Int) (body : σ → Int → Option σ) (s : σ) : Option σ :=
  (List.range n.toNat).foldlM (fun s (i : ℕ) => body s i) s

/-- `p[i] = w` for `uint32_t *p`, on a little-endian machine. -/
def storeWord (b : Buffer UInt8) (i : Int) (w : UInt32) : Option (Buffer UInt8) := do
  let b ← b.store (i * 4) w.toUInt8
  let b ← b.store (i * 4 + 1) (w >>> 8).toUInt8
  let b ← b.store (i * 4 + 2) (w >>> 16).toUInt8
  b.store (i * 4 + 3) (w >>> 24).toUInt8

/-- The loop of surface1. The arithmetic before the pointer's is that of `int`. -/
def Surface1.fill (buffer : ANativeWindow_Buffer) : Option (Buffer UInt8) :=
  forUpTo buffer.height (fun b y => forUpTo buffer.width (fun b x => do
    let row ← checked (y * buffer.stride)
    let index ← checked (row + x)
    let pixel ← checked (index * 4)
    let b ← b.store pixel 255
    let b ← b.store (pixel + 1) 0
    let b ← b.store (pixel + 2) 0
    b.store (pixel + 3) 255) b) ⟨buffer.bits, []⟩

/-- The loop of vsync_anim. -/
def VSyncAnim.fill (buf : ANativeWindow_Buffer) : Option (Buffer UInt8) :=
  forUpTo buf.height (fun b y => forUpTo buf.width (fun b x => do
    let row ← checked (y * buf.stride)
    let index ← checked (row + x)
    storeWord b index 0xFF00FF00) b) ⟨buf.bits, []⟩

/-! Both loops as one sequence of stores -/

variable {buffer : ANativeWindow_Buffer} {h w s y y' x x' c c' : ℕ} {px : List UInt8}

/-- Where byte `c` of a pixel is, in a buffer of rows of `s` pixels. -/
def offset (s y x c : ℕ) : ℕ := (y * s + x) * 4 + c

def pixelStores (s : ℕ) (px : List UInt8) (y x : ℕ) : List (ℕ × UInt8) :=
  px.zipIdx.map fun p => (offset s y x p.2, p.1)

def bufferStores (h w s : ℕ) (px : List UInt8) : List (ℕ × UInt8) :=
  (List.range h).flatMap fun y => (List.range w).flatMap (pixelStores s px y)

theorem mem_bufferStores {i : ℕ} {v : UInt8} : (i, v) ∈ bufferStores h w s px ↔
    ∃ y < h, ∃ x < w, ∃ c, px[c]? = some v ∧ i = offset s y x c := by
  simp [bufferStores, pixelStores, List.mem_zipIdx_iff_getElem?, eq_comm]

theorem bufferStores_offsets : (bufferStores h w s px).map Prod.fst =
    (List.range h).flatMap fun y => (List.range w).flatMap fun x =>
      (List.range px.length).map (offset s y x) := by
  have hpixel : ∀ y x, (pixelStores s px y x).map Prod.fst =
      (List.range px.length).map (offset s y x) := by
    intro y x
    rw [pixelStores, List.map_map, List.range_eq_range', ← List.zipIdx_map_snd 0 px, List.map_map]
    rfl
  simp only [bufferStores, List.map_flatMap, hpixel]

theorem offset_row_lt (hy : y < y') (hx : x < s) (hc : c < 4) :
    offset s y x c < offset s y' x' c' := by
  have hrow : (y + 1) * s ≤ y' * s := Nat.mul_le_mul_right s hy
  rw [Nat.add_mul, Nat.one_mul] at hrow
  simp only [offset]
  omega

theorem offset_pixel_lt (hx : x < x') (hc : c < 4) : offset s y x c < offset s y x' c' := by
  simp only [offset]
  omega

/-- Different pixels of a buffer have different bytes, the padding included. -/
theorem offset_injective (hx : x < s) (hx' : x' < s) (hc : c < 4) (hc' : c' < 4)
    (he : offset s y x c = offset s y' x' c') : y = y' ∧ x = x' ∧ c = c' := by
  have hy : y = y' := by
    rcases Nat.lt_trichotomy y y' with hlt | heq | hlt
    · exact absurd he (Nat.ne_of_lt (offset_row_lt hlt hx hc))
    · exact heq
    · exact absurd he.symm (Nat.ne_of_lt (offset_row_lt hlt hx' hc'))
  subst y'
  simp only [offset] at he
  omega

theorem offset_lt (hy : y < h) (hx : x < s) (hc : c < 4) : offset s y x c < h * s * 4 := by
  have hrow : offset s y x c < offset s h 0 0 := offset_row_lt hy hx hc
  simpa only [offset, Nat.add_zero] using hrow

theorem bufferStores_nodup (hws : w ≤ s) (hpx : px.length = 4) :
    ((bufferStores h w s px).map Prod.fst).Nodup := by
  -- the loops write from the start of the buffer to its end
  have hsorted : ((bufferStores h w s px).map Prod.fst).Pairwise (· < ·) := by
    rw [bufferStores_offsets, hpx, List.pairwise_flatMap]
    refine ⟨?_, List.pairwise_lt_range.imp ?_⟩
    · intro y _
      rw [List.pairwise_flatMap]
      refine ⟨?_, List.pairwise_lt_range.imp ?_⟩
      · intro x _
        rw [List.pairwise_map]
        apply List.pairwise_lt_range.imp
        intro c c' hc
        simp only [offset]
        omega
      · intro x x' hx i hi j hj
        obtain ⟨c, hc, rfl⟩ := List.mem_map.mp hi
        obtain ⟨c', -, rfl⟩ := List.mem_map.mp hj
        exact offset_pixel_lt hx (List.mem_range.mp hc)
    · intro y y' hy i hi j hj
      obtain ⟨x, hx, hi⟩ := List.mem_flatMap.mp hi
      obtain ⟨c, hc, rfl⟩ := List.mem_map.mp hi
      obtain ⟨x', -, hj⟩ := List.mem_flatMap.mp hj
      obtain ⟨c', -, rfl⟩ := List.mem_map.mp hj
      exact offset_row_lt hy (Nat.lt_of_lt_of_le (List.mem_range.mp hx) hws) (List.mem_range.mp hc)
  exact hsorted.imp fun {i j} hij => Nat.ne_of_lt hij

/-- The index of a pixel in a buffer of less than 2^31 bytes is an `int`, and so is its offset. -/
theorem checked_index (hmax : h * s * 4 < 2 ^ 31) (hy : y < h) (hx : x < s) :
    checked ((y : Int) * s) = some ((y * s : ℕ) : Int) ∧
    checked (((y * s : ℕ) : Int) + x) = some ((y * s + x : ℕ) : Int) ∧
    checked (((y * s + x : ℕ) : Int) * 4) = some (offset s y x 0 : Int) := by
  have hlt := offset_lt (c := 0) hy hx (by decide)
  simp only [offset] at hlt ⊢
  refine ⟨?_, ?_, ?_⟩
  · exact_mod_cast checked_natCast (n := y * s) (by omega)
  · exact_mod_cast checked_natCast (n := y * s + x) (by omega)
  · exact_mod_cast checked_natCast (n := (y * s + x) * 4 + 0) (by omega)

theorem storeAll_pixel (b : Buffer UInt8) (v₀ v₁ v₂ v₃ : UInt8) :
    b.storeAll (pixelStores s [v₀, v₁, v₂, v₃] y x) =
      (do
        let b ← b.store (offset s y x 0 : Int) v₀
        let b ← b.store ((offset s y x 0 : Int) + 1) v₁
        let b ← b.store ((offset s y x 0 : Int) + 2) v₂
        b.store ((offset s y x 0 : Int) + 3) v₃) := by
  simp only [pixelStores, Buffer.storeAll, List.zipIdx_cons, List.zipIdx_nil, List.map_cons,
    List.map_nil, List.foldlM_cons, List.foldlM_nil]
  simp [offset]

/-- Loops whose inner body stores the pixels store all of them. -/
theorem forUpTo_pixels {body : Buffer UInt8 → Int → Int → Option (Buffer UInt8)}
    (hbody : ∀ y x : ℕ, y < h → x < w → ∀ b, body b y x = b.storeAll (pixelStores s px y x))
    (b : Buffer UInt8) :
    forUpTo h (fun b y => forUpTo w (fun b x => body b y x) b) b =
      b.storeAll (bufferStores h w s px) := by
  simp only [forUpTo, Int.toNat_natCast]
  apply foldlM_storeAll
  intro y hy b
  apply foldlM_storeAll
  intro x hx b
  exact hbody y x (List.mem_range.mp hy) (List.mem_range.mp hx) b

theorem Surface1.fill_eq (hmax : h * s * 4 < 2 ^ 31) (hws : w ≤ s) (bits : List UInt8) :
    Surface1.fill ⟨w, h, s, bits⟩ =
      Buffer.storeAll ⟨bits, []⟩ (bufferStores h w s [255, 0, 0, 255]) := by
  apply forUpTo_pixels
  intro y x hy hx b
  obtain ⟨hrow, hindex, hpixel⟩ := checked_index hmax hy (Nat.lt_of_lt_of_le hx hws)
  simp only [hrow, hindex, hpixel, storeAll_pixel, Option.bind_eq_bind, Option.bind_some]

theorem VSyncAnim.fill_eq (hmax : h * s * 4 < 2 ^ 31) (hws : w ≤ s) (bits : List UInt8) :
    VSyncAnim.fill ⟨w, h, s, bits⟩ =
      Buffer.storeAll ⟨bits, []⟩ (bufferStores h w s [0, 255, 0, 255]) := by
  apply forUpTo_pixels
  intro y x hy hx b
  obtain ⟨hrow, hindex, -⟩ := checked_index hmax hy (Nat.lt_of_lt_of_le hx hws)
  have hoff : ((y * s + x : ℕ) : Int) * 4 = offset s y x 0 := by simp [offset]
  simp only [hrow, hindex, storeWord, hoff, storeAll_pixel, Option.bind_eq_bind, Option.bind_some]
  rfl

/-- What a fill with this pixel does to a buffer. -/
structure Filled (buffer : ANativeWindow_Buffer) (px : List UInt8) (t : Buffer UInt8) : Prop where
  length : t.cells.length = buffer.bits.length
  once : ∀ y x c : ℕ, (y : Int) < buffer.height → (x : Int) < buffer.width → c < 4 →
    t.written.count (offset buffer.stride.toNat y x c) = 1
  only : ∀ i ∈ t.written, ∃ y x c : ℕ, (y : Int) < buffer.height ∧ (x : Int) < buffer.width ∧
    c < 4 ∧ i = offset buffer.stride.toNat y x c
  pixels : ∀ y x c : ℕ, (y : Int) < buffer.height → (x : Int) < buffer.width → c < 4 →
    t.cells[offset buffer.stride.toNat y x c]? = px[c]?
  padding : ∀ y x c : ℕ, (y : Int) < buffer.height → buffer.width ≤ x →
    (x : Int) < buffer.stride → c < 4 →
    t.cells[offset buffer.stride.toNat y x c]? = buffer.bits[offset buffer.stride.toNat y x c]?
  others : ∀ i ∉ t.written, t.cells[i]? = buffer.bits[i]?

theorem filled_of_stores (px : List UInt8) (hws : w ≤ s) (hpx : px.length = 4) {bits : List UInt8}
    (hlen : bits.length = h * s * 4) :
    ∃ t, Buffer.storeAll ⟨bits, []⟩ (bufferStores h w s px) = some t ∧
      t.written = (bufferStores h w s px).map Prod.fst ∧ Filled ⟨w, h, s, bits⟩ px t := by
  have hnd := bufferStores_nodup (h := h) hws hpx
  have hlt : ∀ p ∈ bufferStores h w s px, p.1 < bits.length := by
    intro p hp
    obtain ⟨y, hy, x, hx, c, hc, he⟩ := mem_bufferStores.mp hp
    obtain ⟨hc', -⟩ := List.getElem?_eq_some_iff.mp hc
    rw [he, hlen]
    exact offset_lt hy (Nat.lt_of_lt_of_le hx hws) (by omega)
  obtain ⟨t, ht, hlog, htlen, hthere, hother⟩ := storeAll_spec (b := ⟨bits, []⟩) hlt hnd
  rw [List.nil_append] at hlog
  have hstored : ∀ y x c : ℕ, y < h → x < w → c < 4 →
      ∃ v, px[c]? = some v ∧ (offset s y x c, v) ∈ bufferStores h w s px := by
    intro y x c hy hx hc
    have hv := List.getElem?_eq_getElem (l := px) (i := c) (by omega)
    exact ⟨_, hv, mem_bufferStores.mpr ⟨y, hy, x, hx, c, hv, rfl⟩⟩
  refine ⟨t, ht, hlog, htlen, ?_, ?_, ?_, ?_, ?_⟩
  · intro y x c hy hx hc
    obtain ⟨v, -, hm⟩ := hstored y x c (by simpa using hy) (by simpa using hx) hc
    rw [hlog, Int.toNat_natCast]
    apply List.count_eq_one_of_mem hnd
    exact List.mem_map_of_mem hm
  · intro i hi
    rw [hlog] at hi
    obtain ⟨p, hp, rfl⟩ := List.mem_map.mp hi
    obtain ⟨y, hy, x, hx, c, hc, he⟩ := mem_bufferStores.mp hp
    obtain ⟨hc', -⟩ := List.getElem?_eq_some_iff.mp hc
    exact ⟨y, x, c, by simpa using hy, by simpa using hx, by omega, he⟩
  · intro y x c hy hx hc
    obtain ⟨v, hv, hm⟩ := hstored y x c (by simpa using hy) (by simpa using hx) hc
    rw [hv, Int.toNat_natCast]
    exact hthere _ hm
  · intro y x c hy hwx hxs hc
    apply hother
    intro hi
    obtain ⟨p, hp, he⟩ := List.mem_map.mp hi
    obtain ⟨y', hy', x', hx', c', hc', he'⟩ := mem_bufferStores.mp hp
    obtain ⟨hlt', -⟩ := List.getElem?_eq_some_iff.mp hc'
    rw [Int.toNat_natCast, he'] at he
    have hxs' : x < s := by simpa using hxs
    have hwx' : w ≤ x := by simpa using hwx
    obtain ⟨-, hxx, -⟩ := offset_injective (Nat.lt_of_lt_of_le hx' hws) hxs' (by omega) hc he
    omega
  · intro i hi
    rw [hlog] at hi
    exact hother i hi

/-- Both loops come through for every buffer, write the bytes of its pixels once each, in the
same order, and no other byte; no two pixels share a byte. -/
theorem fill_loops (hh : 0 ≤ buffer.height) (hw : 0 ≤ buffer.width)
    (hws : buffer.width ≤ buffer.stride)
    (hlen : (buffer.bits.length : Int) = buffer.height * buffer.stride * 4)
    (hmax : buffer.bits.length < 2 ^ 31) :
    (∃ t u, Surface1.fill buffer = some t ∧ VSyncAnim.fill buffer = some u ∧
      Filled buffer [255, 0, 0, 255] t ∧ Filled buffer [0, 255, 0, 255] u ∧
      t.written = u.written) ∧
    ∀ y x c y' x' c' : ℕ, (x : Int) < buffer.stride → (x' : Int) < buffer.stride → c < 4 → c' < 4 →
      offset buffer.stride.toNat y x c = offset buffer.stride.toNat y' x' c' →
      y = y' ∧ x = x' ∧ c = c' := by
  obtain ⟨w, h, s, bits⟩ := buffer
  obtain ⟨h, rfl⟩ := Int.eq_ofNat_of_zero_le hh
  obtain ⟨w, rfl⟩ := Int.eq_ofNat_of_zero_le hw
  obtain ⟨s, rfl⟩ := Int.eq_ofNat_of_zero_le (Int.le_trans hw hws)
  have hws' : w ≤ s := by simpa using hws
  have hbytes : (bits.length : Int) = h * s * 4 := hlen
  have hlen' : bits.length = h * s * 4 := by exact_mod_cast hbytes
  have hmax' : h * s * 4 < 2 ^ 31 := hlen' ▸ hmax
  constructor
  · obtain ⟨t, ht, htlog, hft⟩ := filled_of_stores [255, 0, 0, 255] hws' rfl hlen'
    obtain ⟨u, hu, hulog, hfu⟩ := filled_of_stores [0, 255, 0, 255] hws' rfl hlen'
    refine ⟨t, u, ?_, ?_, hft, hfu, ?_⟩
    · rw [← ht]
      exact Surface1.fill_eq hmax' hws' bits
    · rw [← hu]
      exact VSyncAnim.fill_eq hmax' hws' bits
    · rw [htlog, hulog, bufferStores_offsets, bufferStores_offsets]
      rfl
  · intro y x c y' x' c' hx hx' hc hc' he
    exact offset_injective (by simpa using hx) (by simpa using hx') hc hc' he

/-- Two rows of one pixel each, with a padding of one. -/
theorem fill_loops_padded :
    ∃ t u, Surface1.fill ⟨1, 2, 2, List.replicate 16 7⟩ = some t ∧
      VSyncAnim.fill ⟨1, 2, 2, List.replicate 16 7⟩ = some u ∧ t.written = u.written ∧
      t.cells[4]? = some 7 := by
  obtain ⟨⟨t, u, ht, hu, hft, -, hlog⟩, -⟩ := @fill_loops ⟨1, 2, 2, List.replicate 16 7⟩
    (by decide) (by decide) (by decide) (by decide) (by decide)
  exact ⟨t, u, ht, hu, hlog, hft.padding 0 1 0 (by decide) (by decide) (by decide) (by decide)⟩

end AndroidRepo.Surface
