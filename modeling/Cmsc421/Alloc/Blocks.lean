import Cmsc421.Alloc.Realloc
import Cmsc421.Layout

/-!
# Cmsc421.Alloc.Blocks

The table as a layout of blocks.

`Describes flags A` says that the table `flags` stores the layout `A`: the start
of a block carries its length, the other frames of a block are neither free nor a
start — the count they carry is stale after a cut, and nobody reads it — and
every other frame is clean.  Each section of the allocator refines an operation
of the layout: `reserve` an `insert`, `release` an `erase`, the cutting loop a
`shrink`.
-/

namespace Cmsc421.Alloc

open LockProg

/-- The table stores the layout. -/
structure Describes {N : Nat} (flags : Nat → MemFlag) (A : Layout N) : Prop where
  start : ∀ {i n}, A.size i = some n → flags i = ⟨false, true, n⟩
  inner : ∀ {j}, A.Covers j → A.size j = none →
    (flags j).free = false ∧ (flags j).startFrame = false
  rest : ∀ {j}, j < N → ¬ A.Covers j → flags j = freeFlag

section describes

variable {N : Nat} {flags : Nat → MemFlag} {A : Layout N}

/-- No frame of a block is free. -/
theorem Describes.free_of_covers (h : Describes flags A) {j : Nat} (hj : A.Covers j) :
    (flags j).free = false := by
  cases hs : A.size j with
  | none => exact (h.inner hj hs).1
  | some n => rw [h.start hs]

/-- A free frame belongs to no block. -/
theorem Describes.not_covers (h : Describes flags A) {j : Nat} (hj : (flags j).free = true) :
    ¬ A.Covers j := by
  intro hc
  rw [h.free_of_covers hc] at hj
  contradiction

/-- The frames with `start_frame` set are the starts of the blocks. -/
theorem Describes.startFrame_iff (h : Describes flags A) {i : Nat} (hi : i < N) :
    (flags i).startFrame = true ↔ (A.size i).isSome = true := by
  cases hs : A.size i with
  | some n => simp [h.start hs]
  | none =>
      by_cases hc : A.Covers i
      · simp [h.inner hc hs]
      · simp [h.rest hi hc, freeFlag]

theorem Describes.num (h : Describes flags A) {i n : Nat} (hs : A.size i = some n) :
    (flags i).numOfFrames = n := by rw [h.start hs]

/-- The address of a block is one `my_free` finds. -/
theorem Describes.startOf_frameAddr {d : Region} (h : Describes d.totalFlags A) {i n : Nat}
    (hs : A.size i = some n) : startOf N d (frameAddr i) = some i := by
  have hi : i < N := Layout.lt_of_covers (Layout.covers_start hs)
  rw [startOf, frameOf_frameAddr hi, Option.filter_eq_some_iff]
  exact ⟨rfl, by simp [h.start hs]⟩

/-- And the only ones. -/
theorem Describes.of_startOf {d : Region} (h : Describes d.totalFlags A) {ptr : Ptr} {i : Nat}
    (hp : startOf N d ptr = some i) : ptr = frameAddr i ∧ ∃ n, A.size i = some n := by
  obtain ⟨hframe, hflag⟩ := Option.filter_eq_some_iff.mp hp
  obtain ⟨hi, rfl⟩ := frameOf_eq_some hframe
  refine ⟨rfl, Option.isSome_iff_exists.mp ((h.startFrame_iff hi).mp ?_)⟩
  exact (Bool.and_eq_true_iff.mp hflag).1

end describes

/-- The table `main` builds has no block. -/
theorem describes_initRegion (N : Nat) : Describes (initRegion N).totalFlags (Layout.empty N) where
  start hs := by simp at hs
  inner hc := absurd hc (Layout.not_covers_empty _)
  rest hj _ := if_pos hj

/-! ## writing the table -/

section writing

variable {N : Nat} {d : Region} {A : Layout N}

theorem setFlag_self (i : Nat) (f : MemFlag) : (d.setFlag i f).totalFlags i = f := by
  simp [Region.setFlag]

theorem setFlag_ne {i j : Nat} (f : MemFlag) (h : j ≠ i) :
    (d.setFlag i f).totalFlags j = d.totalFlags j := by
  simp [Region.setFlag, h]

theorem fill_inside {f : MemFlag} {i bound j : Nat} (h : i ≤ j ∧ j < bound) :
    (d.fill f i bound).totalFlags j = f := if_pos h

theorem fill_outside {f : MemFlag} {i bound j : Nat} (h : ¬ (i ≤ j ∧ j < bound)) :
    (d.fill f i bound).totalFlags j = d.totalFlags j := if_neg h

/-- Putting a block down. -/
theorem describes_reserve (h : Describes d.totalFlags A) {i n : Nat} (hn : 0 < n) (hb : i + n ≤ N)
    (hN : N < 2 ^ 32) (hfree : ∀ j, i ≤ j → j < i + n → ¬ A.Covers j) :
    Describes (d.reserve i n).totalFlags (A.insert i n hn hb hfree) := by
  have hbound : uadd i n = i + n := Nat.mod_eq_of_lt (by omega)
  have hstart : (d.reserve i n).totalFlags i = ⟨false, true, n⟩ := by
    rw [Region.reserve, fill_outside (by omega), setFlag_self]
  have hinner : ∀ j, i < j → j < i + n → (d.reserve i n).totalFlags j = ⟨false, false, n⟩ := by
    intro j h₁ h₂
    rw [Region.reserve, hbound, fill_inside (by omega)]
  have hother : ∀ j, ¬ (i ≤ j ∧ j < i + n) → (d.reserve i n).totalFlags j = d.totalFlags j := by
    intro j hj
    rw [Region.reserve, hbound, fill_outside (by omega), setFlag_ne _ (by omega)]
  constructor
  · intro k m hk
    by_cases hki : k = i
    · subst hki
      obtain rfl : n = m := by simpa using hk
      exact hstart
    · rw [Layout.size_insert_ne hki] at hk
      rw [hother k fun hki => hfree k hki.1 hki.2 (Layout.covers_start hk), h.start hk]
  · intro j hc hs
    have hji : j ≠ i := by
      rintro rfl
      simp at hs
    rw [Layout.size_insert_ne hji] at hs
    rcases Layout.covers_insert.mp hc with hc | hj
    · rw [hother j fun hj => hfree j hj.1 hj.2 hc]
      exact h.inner hc hs
    · rw [hinner j (by omega) hj.2]
      exact ⟨rfl, rfl⟩
  · intro j hj hc
    rw [Layout.covers_insert] at hc
    rw [hother j fun hij => hc (.inr hij)]
    exact h.rest hj fun hc' => hc (.inl hc')

/-- Taking a block up. -/
theorem describes_release (h : Describes d.totalFlags A) {i n : Nat} (hs : A.size i = some n)
    (hN : N < 2 ^ 32) : Describes (d.release i n).totalFlags (A.erase i) := by
  have hb := A.bound hs
  have hbound : uadd i n = i + n := Nat.mod_eq_of_lt (by omega)
  have hother : ∀ j, ¬ (i ≤ j ∧ j < i + n) → (d.release i n).totalFlags j = d.totalFlags j := by
    intro j hj
    rw [Region.release, hbound, fill_outside hj]
  constructor
  · intro k m hk
    have hki : k ≠ i := by
      rintro rfl
      simp at hk
    rw [Layout.size_erase_ne hki] at hk
    rw [hother k fun hj => hki (Layout.start_unique hk hs ⟨Nat.le_refl k, ?_⟩ hj), h.start hk]
    have := A.pos hk
    omega
  · intro j hc hsj
    obtain ⟨hc, hj⟩ := (Layout.covers_erase hs).mp hc
    have hji : j ≠ i := by
      rintro rfl
      have := A.pos hs
      omega
    rw [Layout.size_erase_ne hji] at hsj
    rw [hother j hj]
    exact h.inner hc hsj
  · intro j hj hc
    rw [Layout.covers_erase hs] at hc
    by_cases hij : i ≤ j ∧ j < i + n
    · rw [Region.release, hbound, fill_inside hij]
    · rw [hother j hij]
      exact h.rest hj fun hc' => hc ⟨hc', hij⟩

/-- Cutting a block: the frames past the cut are cleaned, and the start gets the
new length. -/
theorem describes_cut (h : Describes d.totalFlags A) {i n k : Nat} (hs : A.size i = some k)
    (hn : 0 < n) (hk : n ≤ k) {d' : Region} (hd : d' = d.fill freeFlag (i + n) (i + k)) :
    Describes (d'.setFlag i { d'.totalFlags i with numOfFrames := n }).totalFlags
      (A.shrink i n hs hn hk) := by
  have hstart : d'.totalFlags i = ⟨false, true, k⟩ := by
    rw [hd, fill_outside (by omega), h.start hs]
  have hother : ∀ j, j ≠ i → ¬ (i + n ≤ j ∧ j < i + k) →
      (d'.setFlag i { d'.totalFlags i with numOfFrames := n }).totalFlags j = d.totalFlags j := by
    intro j hji hj
    rw [setFlag_ne _ hji, hd, fill_outside hj]
  have hinside : ∀ {j}, A.size j ≠ none → j ≠ i → ¬ (i + n ≤ j ∧ j < i + k) := by
    intro j hj hji hij
    obtain ⟨m, hm⟩ := Option.ne_none_iff_exists'.mp hj
    have := A.pos hm
    exact hji (Layout.start_unique hm hs ⟨Nat.le_refl j, by omega⟩ ⟨by omega, hij.2⟩)
  constructor
  · intro j m hj
    by_cases hji : j = i
    · subst hji
      obtain rfl : n = m := by simpa using hj
      rw [setFlag_self, hstart]
    · rw [Layout.size_shrink_ne hji] at hj
      rw [hother j hji (hinside (by simp [hj]) hji), h.start hj]
  · intro j hc hsj
    have hji : j ≠ i := by
      rintro rfl
      simp at hsj
    obtain ⟨hc, hj⟩ := Layout.covers_shrink.mp hc
    rw [Layout.size_shrink_ne hji] at hsj
    rw [hother j hji hj]
    exact h.inner hc hsj
  · intro j hj hc
    rw [Layout.covers_shrink] at hc
    have hji : j ≠ i := by
      rintro rfl
      exact hc ⟨Layout.covers_start hs, by omega⟩
    by_cases hij : i + n ≤ j ∧ j < i + k
    · rw [setFlag_ne _ hji, hd, fill_inside hij]
    · rw [hother j hji hij]
      exact h.rest hj fun hc' => hc ⟨hc', hij⟩

end writing

/-! ## the search of my_malloc -/

/-- The region of `size` frames at `start` consists of free frames below
`bound`. -/
def FreeRegion (flags : Nat → MemFlag) (start : Int) (size bound : Nat) : Prop :=
  ∃ c : Nat, start = c ∧ c + size ≤ bound ∧ ∀ j, c ≤ j → j < c + size → (flags j).free = true

theorem FreeRegion.mono {flags : Nat → MemFlag} {start : Int} {size b b' : Nat}
    (h : FreeRegion flags start size b) (hb : b ≤ b') : FreeRegion flags start size b' := by
  obtain ⟨c, hc, hle, hfree⟩ := h
  exact ⟨c, hc, Nat.le_trans hle hb, hfree⟩

/-- What the search knows before it looks at frame `i`. -/
structure Scanned (flags : Nat → MemFlag) (i : Nat) (st : Scan) : Prop where
  largest : 0 < st.largestRegionSize → FreeRegion flags st.largestRegionStart st.largestRegionSize i
  curr : st.first = false → FreeRegion flags st.currRegionStart st.currRegionSize i
  next : st.first = false → st.currRegionStart + st.currRegionSize = i
  none : st.first = true → st.currRegionSize = 0

theorem Scanned.keep {flags : Nat → MemFlag} {i : Nat} {st : Scan} (h : Scanned flags i st) :
    Scanned flags i st.keep := by
  rw [Scan.keep]
  split
  · next hlt =>
      have hfirst : st.first = false := by
        by_contra hf
        have := h.none (by simpa using hf)
        omega
      exact ⟨fun _ => h.curr hfirst, h.curr, h.next, h.none⟩
  · exact h

/-- A free frame makes the current region longer, or begins it. -/
def Scan.grow (st : Scan) (i : Nat) : Scan :=
  if st.first then { st with currRegionStart := i, currRegionSize := 1, first := false }
  else { st with currRegionSize := st.currRegionSize + 1 }

theorem Scan.frame_free (st : Scan) (N i : Nat) :
    st.frame N true i = if i = N - 1 then (st.grow i).keep else st.grow i := rfl

theorem Scan.frame_reserved (st : Scan) (N i : Nat) :
    st.frame N false i = { st.keep with first := true, currRegionSize := 0 } := rfl

theorem Scanned.grow {flags : Nat → MemFlag} {i : Nat} {st : Scan} (h : Scanned flags i st)
    (hfree : (flags i).free = true) : Scanned flags (i + 1) (st.grow i) := by
  have hlargest := fun hpos => (h.largest hpos).mono (Nat.le_succ i)
  unfold Scan.grow
  split
  · -- the first frame of a region
    refine ⟨hlargest, fun _ => ⟨i, rfl, Nat.le_refl _, ?_⟩, fun _ => rfl, by simp⟩
    intro j h₁ h₂
    dsimp only at h₂
    rw [show j = i by omega, hfree]
  · -- one more frame of the current region
    next hfirst =>
      have hfirst : st.first = false := by simpa using hfirst
      obtain ⟨c, hc, hle, hregion⟩ := h.curr hfirst
      have hnext := h.next hfirst
      refine ⟨hlargest, fun _ => ⟨c, hc, by dsimp only; omega, ?_⟩,
        fun _ => by dsimp only; omega, by simp [hfirst]⟩
      intro j h₁ h₂
      by_cases hj : j = i
      · rw [hj, hfree]
      · exact hregion j h₁ (by dsimp only at h₂; omega)

/-- One round of the search. -/
theorem Scanned.frame {flags : Nat → MemFlag} {i : Nat} {st : Scan} (h : Scanned flags i st)
    (N : Nat) : Scanned flags (i + 1) (st.frame N (flags i).free i) := by
  cases hfree : (flags i).free with
  | false =>
      rw [Scan.frame_reserved]
      exact ⟨fun hpos => (h.keep.largest hpos).mono (Nat.le_succ i), by simp, by simp, by simp⟩
  | true =>
      rw [Scan.frame_free]
      split
      · exact (h.grow hfree).keep
      · exact h.grow hfree

/-- The region the search finds is free. -/
theorem freeRegion_scanResult (N : Nat) (flags : Nat → MemFlag)
    (hpos : 0 < (scanResult N flags).largestRegionSize) :
    FreeRegion flags (scanResult N flags).largestRegionStart
      (scanResult N flags).largestRegionSize N := by
  have hscan : ∀ n, Scanned flags n
      ((List.range n).foldl (fun st i => st.frame N (flags i).free i) .init) := by
    intro n
    induction n with
    | zero => constructor <;> simp [Scan.init]
    | succ n ih =>
        rw [List.range_succ, List.foldl_append, List.foldl_cons, List.foldl_nil]
        exact ih.frame N
  exact (hscan N).largest hpos

/-! ## sizes -/

/-- The frames of a block of `size` bytes: `⌈size / BYTES_PER_FRAME⌉`. -/
def frames (size : Nat) : Nat := (size + (BYTES_PER_FRAME - 1)) / BYTES_PER_FRAME

theorem frames_pos {size : Nat} (h : size ≠ 0) : 0 < frames size := by
  simp only [frames, BYTES_PER_FRAME]
  omega

theorem frames_le {size n : Nat} (h : size ≤ n * BYTES_PER_FRAME) : frames size ≤ n := by
  simp only [frames, BYTES_PER_FRAME] at h ⊢
  omega

theorem le_frames (size : Nat) : size ≤ frames size * BYTES_PER_FRAME := by
  simp only [frames, BYTES_PER_FRAME]
  omega

theorem frames_lt {N : Nat} (h : N * BYTES_PER_FRAME < 2 ^ 31) : N < 2 ^ 32 := by
  simp only [BYTES_PER_FRAME] at h
  omega

/-- The `int` of `my_malloc` and `my_realloc` is the number of frames modulo
`2 ^ 32`. -/
theorem uint32_numOfFrames_mod (size : Nat) :
    uint32 (numOfFrames size) = frames size % 2 ^ 32 := by
  have hr : size % BYTES_PER_FRAME < 2 ^ 31 := by
    simp only [BYTES_PER_FRAME]
    omega
  simp only [numOfFrames, int32_natCast hr]
  split
  · next hne =>
      rw [uint32_int32, uint32_int32_add_one, uint32]
      simp only [frames, BYTES_PER_FRAME] at hne ⊢
      omega
  · next heq =>
      rw [uint32_int32, uint32]
      simp only [frames, BYTES_PER_FRAME] at heq ⊢
      omega

/-- For a size below `2 ^ 35` it is the number of frames. -/
theorem uint32_numOfFrames {size : Nat} (h : size < 2 ^ 35) :
    uint32 (numOfFrames size) = frames size := by
  rw [uint32_numOfFrames_mod, Nat.mod_eq_of_lt]
  simp only [frames, BYTES_PER_FRAME]
  omega

end Cmsc421.Alloc
