import Cmsc421.Alloc.WorstFit
import Cmsc421.Alloc.Contents

/-!
# Cmsc421.Alloc.Resize

What `my_realloc` promises of a block.

`Resized` is the promise, one field for each of its four cases: the block is cut in
place, left alone, moved, or cannot grow.  It is stated on the layout that the table
stores.  Three of the cases are kept wherever the lock lets them through; a resize to
the number of frames that the block has already breaks it always, since `my_realloc`
runs to its end there (`resized_iff`).
-/

namespace Cmsc421.Alloc

open LockProg

/-- What is promised of a resize of the block of `k` frames at `i`, which finds `s`,
returns `p` and leaves `s'`. -/
structure Resized {N : Nat} (A : Layout N) (i k size : Nat) (s : Shared Region) (p : Ptr)
    (s' : Shared Region) : Prop where
  cut : frames size < k →
    p = frameAddr i ∧
    (∃ B : Layout N, Describes s'.data.totalFlags B ∧
      B.size = Function.update A.size i (some (frames size))) ∧
    (∀ j, i + frames size ≤ j → j < i + k → IsFree s'.data.totalFlags j) ∧
    ∀ b < frames size * BYTES_PER_FRAME, s'.data.bytesAt p b = s.data.bytesAt (frameAddr i) b
  same : frames size = k →
    p = frameAddr i ∧ s'.data.totalFlags = s.data.totalFlags ∧
    s'.data.totalMem = s.data.totalMem ∧ s'.sem = s.sem
  moved : k < frames size → ∀ c, Stretch (IsFree s.data.totalFlags) N c (frames size) →
    ∃ q, p = frameAddr q ∧ (∀ j, q ≤ j → j < q + frames size → ¬ A.Covers j) ∧
    (∃ B : Layout N, Describes s'.data.totalFlags B ∧
      B.size = Function.update (Function.update A.size q (some (frames size))) i none) ∧
    ∀ b < k * BYTES_PER_FRAME, s'.data.bytesAt p b = s.data.bytesAt (frameAddr i) b
  full : k < frames size → (¬ ∃ c, Stretch (IsFree s.data.totalFlags) N c (frames size)) →
    p = .null ∧ s'.data.errno = ENOMEM ∧
    s'.data.totalFlags = s.data.totalFlags ∧ s'.data.totalMem = s.data.totalMem

section resized

variable {N i k size m : Nat} {A : Layout N} {d : Region}

/-- A smaller size. -/
theorem resized_cut (hd : Describes d.totalFlags A) (hs : A.size i = some k)
    (hN : N * BYTES_PER_FRAME < 2 ^ 31) (hpos : 0 < size) (hsize : size ≤ N * BYTES_PER_FRAME)
    (hlt : frames size < k) :
    ∃ p s', (myRealloc N (frameAddr i) size).runAlone act ⟨m + 1, d⟩ = some (p, s') ∧
      Resized A i k size ⟨m + 1, d⟩ p s' := by
  have hb := A.bound hs
  have hN' := frames_lt hN
  have hsize0 := Nat.pos_iff_ne_zero.mp hpos
  have hfpos := frames_pos hsize0
  have hcount : uint32 (numOfFrames size) = frames size := uint32_numOfFrames (by omega)
  have hcut : dataRun act (cutLoop i (uint32 (numOfFrames size))
      ((d.totalFlags i).numOfFrames + 1) i) d =
      some ((), d.fill freeFlag (i + frames size) (i + k)) := by
    rw [hcount, dataRun_cutLoop_eq hfpos (by omega) hlt (hd.num hs) (by rw [hd.num hs]; omega),
      show max i (i + frames size) = i + frames size by omega]
  have hcall := runAlone_reallocAt_cut (N := N) (m := m) (by rwa [hcount, hd.num hs]) hcut
  rw [← runAlone_myRealloc_block hsize0 (hd.startOf_frameAddr hs), hcount] at hcall
  have hblocks := describes_cut hd hs hfpos hlt.le rfl
  refine ⟨_, _, hcall, fun _ => ⟨rfl, ⟨_, hblocks, ?_⟩, ?_, fun _ _ => rfl⟩,
    fun h => absurd h hlt.ne, fun h => absurd h hlt.asymm, fun h => absurd h hlt.asymm⟩
  · funext j
    by_cases hj : j = i
    · subst hj
      rw [Layout.size_shrink_self, Function.update_self]
    · rw [Layout.size_shrink_ne hj, Function.update_of_ne hj]
  · intro j hle hj
    rw [IsFree, setFlag_ne _ (by omega), fill_inside ⟨hle, hj⟩]
    rfl

/-- A larger size for which there is no room. -/
theorem resized_full (hd : Describes d.totalFlags A) (hs : A.size i = some k)
    (hN : N * BYTES_PER_FRAME < 2 ^ 31) (hpos : 0 < size) (hsize : size ≤ N * BYTES_PER_FRAME)
    (hgt : k < frames size) (hroom : ¬ ∃ c, Stretch (IsFree d.totalFlags) N c (frames size)) :
    ∃ p s', (myRealloc N (frameAddr i) size).runAlone act ⟨m + 2, d⟩ = some (p, s') ∧
      Resized A i k size ⟨m + 2, d⟩ p s' := by
  have hN' := frames_lt hN
  have hsize0 := Nat.pos_iff_ne_zero.mp hpos
  have hcount : uint32 (numOfFrames size) = frames size := uint32_numOfFrames (by omega)
  have hlongest := longest_scanResult N d.totalFlags
  have hfew : ¬ size ≤ (scanResult N d.totalFlags).largestRegionSize * BYTES_PER_FRAME :=
    fun hfit => hroom ⟨_, hlongest.stretch.take (frames_le hfit)⟩
  have hm := mallocResult_of_longest hlongest hN hpos hsize
  rw [if_neg hfew] at hm
  have hcall := runAlone_reallocAt_full (m := m) (by rwa [hcount, hd.num hs]) hm
  rw [← runAlone_myRealloc_block hsize0 (hd.startOf_frameAddr hs)] at hcall
  exact ⟨_, _, hcall, fun h => absurd h hgt.asymm, fun h => absurd h hgt.ne',
    fun _ c hc => absurd ⟨c, hc⟩ hroom, fun _ _ => ⟨rfl, rfl, rfl, rfl⟩⟩

/-- The block at `i` is still where it was when a new block has been put down. -/
theorem size_insert_other {q n : Nat} {hn : 0 < n} {hb : q + n ≤ N}
    {hfree : ∀ j, q ≤ j → j < q + n → ¬ A.Covers j} (hs : A.size i = some k) :
    (A.insert q n hn hb hfree).size i = some k := by
  have hqi : i ≠ q := by
    rintro rfl
    exact hfree i (Nat.le_refl i) (by omega) (Layout.covers_start hs)
  rwa [Layout.size_insert_ne hqi]

/-- A larger size for which there is room: the new frames are taken, and the bytes
copied there, before the old frames are given back. -/
theorem resized_moved (hd : Describes d.totalFlags A) (hs : A.size i = some k)
    (hN : N * BYTES_PER_FRAME < 2 ^ 31) (hpos : 0 < size) (hsize : size ≤ N * BYTES_PER_FRAME)
    (hgt : k < frames size) {c : Nat} (hroom : Stretch (IsFree d.totalFlags) N c (frames size)) :
    ∃ p s', (myRealloc N (frameAddr i) size).runAlone act ⟨m + 2, d⟩ = some (p, s') ∧
      Resized A i k size ⟨m + 2, d⟩ p s' := by
  have hN' := frames_lt hN
  have hsize0 := Nat.pos_iff_ne_zero.mp hpos
  have hfpos := frames_pos hsize0
  have hcount : uint32 (numOfFrames size) = frames size := uint32_numOfFrames (by omega)
  -- the frames that `my_malloc` takes
  obtain ⟨q, L, hlongest⟩ : ∃ q L, Longest (IsFree d.totalFlags) N q L :=
    ⟨_, _, longest_scanResult N d.totalFlags⟩
  have hfits : frames size ≤ L := hlongest.longest hroom
  have hnew := hlongest.stretch.take hfits
  have hle := hnew.le
  have hm := mallocResult_of_longest hlongest hN hpos hsize
  rw [if_pos ((le_frames size).trans (Nat.mul_le_mul_right _ hfits)), ← reserve_eq d (by omega)] at hm
  have hfree : ∀ j, q ≤ j → j < q + frames size → ¬ A.Covers j :=
    fun j h₁ h₂ => hd.not_covers (hnew.all j h₁ h₂)
  -- the copy leaves the table alone
  obtain ⟨e, he⟩ : ∃ e, e = (d.reserve q (frames size)).copy (q * BYTES_PER_FRAME : Nat) i :=
    ⟨_, rfl⟩
  have hblocks : Describes e.totalFlags (A.insert q (frames size) hfpos hle hfree) := by
    rw [he]
    exact describes_reserve hd hfpos hle hN' hfree
  have hold : (A.insert q (frames size) hfpos hle hfree).size i = some k := size_insert_other hs
  have hstart := hblocks.startOf_frameAddr hold
  have hfreed := atomic_myFree (N := N) (.inr (by rw [hstart, Option.isSome_some]))
  rw [hstart, Option.elim_some, hblocks.num hold] at hfreed
  obtain ⟨n, hn⟩ := Nat.exists_eq_add_one_of_ne_zero (afterPost_pos m).ne'
  have hcall := runAlone_reallocAt_move (m := m) (by rwa [hcount, hd.num hs]) hm
  rw [← runAlone_myRealloc_block hsize0 (hd.startOf_frameAddr hs), ← he, hn,
    runAlone_of_atomic act hfreed, Option.map_some] at hcall
  refine ⟨_, _, hcall, fun h => absurd h hgt.asymm, fun h => absurd h hgt.ne', fun _ _ _ =>
    ⟨q, rfl, hfree, ⟨_, describes_release hblocks hold hN', rfl⟩, fun b hb => ?_⟩,
    fun _ h => absurd ⟨c, hroom⟩ h⟩
  have hbytes : ((d.reserve q (frames size)).totalFlags i).numOfFrames * BYTES_PER_FRAME % 2 ^ 32 =
      k * BYTES_PER_FRAME := by
    rw [(describes_reserve hd hfpos hle hN' hfree).num hold, Nat.mod_eq_of_lt]
    have := A.bound hs
    simp only [BYTES_PER_FRAME] at hN ⊢
    omega
  show e.bytesAt (.mem (q * BYTES_PER_FRAME : Nat)) b = _
  rw [he, bytesAt_copy (by rwa [hbytes])]
  rfl

/-- The same size: `my_realloc` returns `NULL`. -/
theorem not_resized_same (hd : Describes d.totalFlags A) (hs : A.size i = some k)
    (hpos : 0 < size) (hcount : uint32 (numOfFrames size) = frames size) (heq : frames size = k) :
    ¬ ∃ p s', (myRealloc N (frameAddr i) size).runAlone act ⟨m + 1, d⟩ = some (p, s') ∧
      Resized A i k size ⟨m + 1, d⟩ p s' := by
  rintro ⟨p, s', hcall, hr⟩
  rw [runAlone_myRealloc_block (Nat.pos_iff_ne_zero.mp hpos) (hd.startOf_frameAddr hs),
    runAlone_reallocAt_same (by rw [hcount, hd.num hs, heq])] at hcall
  obtain ⟨rfl, -⟩ := Prod.mk.inj (Option.some.inj hcall)
  exact absurd (hr.same heq).1 nofun

/-- **When a resize does what is promised**: with the lock free, and free once more
where the block grows, a resize of a block to a size that the machine has does what is
promised exactly when the block does not have that number of frames already. -/
theorem resized_iff (hd : Describes d.totalFlags A) (hs : A.size i = some k)
    (hN : N * BYTES_PER_FRAME < 2 ^ 31) (hpos : 0 < size) (hsize : size ≤ N * BYTES_PER_FRAME)
    (hlock : 0 < m) (hnested : k < frames size → 1 < m) :
    (∃ p s', (myRealloc N (frameAddr i) size).runAlone act ⟨m, d⟩ = some (p, s') ∧
      Resized A i k size ⟨m, d⟩ p s') ↔ frames size ≠ k := by
  obtain ⟨m, rfl⟩ := Nat.exists_eq_add_one_of_ne_zero hlock.ne'
  have hN' := frames_lt hN
  rcases Nat.lt_trichotomy (frames size) k with hlt | heq | hgt
  · exact iff_of_true (resized_cut hd hs hN hpos hsize hlt) hlt.ne
  · have hcount : uint32 (numOfFrames size) = frames size := uint32_numOfFrames (by omega)
    exact iff_of_false (not_resized_same hd hs hpos hcount heq) (not_not_intro heq)
  · have hm := hnested hgt
    obtain ⟨m, rfl⟩ : ∃ n, m = n + 1 := Nat.exists_eq_add_one_of_ne_zero (by omega)
    refine iff_of_true ?_ hgt.ne'
    by_cases hroom : ∃ c, Stretch (IsFree d.totalFlags) N c (frames size)
    · obtain ⟨c, hc⟩ := hroom
      exact resized_moved hd hs hN hpos hsize hgt hc
    · exact resized_full hd hs hN hpos hsize hgt hroom

end resized

/-! ## one block -/

/-- The layout of one block of two frames. -/
def oneBlock : Layout NUM_OF_FRAMES :=
  (Layout.empty NUM_OF_FRAMES).insert 0 2 (by decide) (by decide) fun j _ _ =>
    Layout.not_covers_empty j

/-- The data after the first request of 64 bytes. -/
def oneBlockRegion : Region := (initRegion NUM_OF_FRAMES).reserve 0 2

theorem describes_oneBlock : Describes oneBlockRegion.totalFlags oneBlock :=
  describes_reserve (describes_initRegion NUM_OF_FRAMES) (by decide) (by decide) (by decide) _

theorem size_oneBlock : oneBlock.size 0 = some 2 := Layout.size_insert_self

/-- Growing it to 100 bytes does what is promised, if the nested calls get the lock, and so
does a cut to 20 bytes. -/
theorem resized_iff_oneBlock :
    (∃ p s', (myRealloc NUM_OF_FRAMES (frameAddr 0) 100).runAlone act ⟨2, oneBlockRegion⟩ =
        some (p, s') ∧ Resized oneBlock 0 2 100 ⟨2, oneBlockRegion⟩ p s') ∧
    ∃ p s', (myRealloc NUM_OF_FRAMES (frameAddr 0) 20).runAlone act ⟨1, oneBlockRegion⟩ =
        some (p, s') ∧ Resized oneBlock 0 2 20 ⟨1, oneBlockRegion⟩ p s' :=
  ⟨(resized_iff describes_oneBlock size_oneBlock (by decide) (by decide) (by decide) (by decide)
      (fun _ => by decide)).mpr (by decide),
    (resized_iff describes_oneBlock size_oneBlock (by decide) (by decide) (by decide) (by decide)
      (fun h => absurd h (by decide))).mpr (by decide)⟩

/-- A resize to 40 bytes, two frames again, does not. -/
theorem resize_same_fails :
    ¬ ∃ p s', (myRealloc NUM_OF_FRAMES (frameAddr 0) 40).runAlone act ⟨1, oneBlockRegion⟩ =
        some (p, s') ∧ Resized oneBlock 0 2 40 ⟨1, oneBlockRegion⟩ p s' :=
  not_resized_same describes_oneBlock size_oneBlock (by decide) (by decide) (by decide)

end Cmsc421.Alloc
