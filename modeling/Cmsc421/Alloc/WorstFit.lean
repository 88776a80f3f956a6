import Cmsc421.Alloc.Live
import Cmsc421.Stretch

/-!
# Cmsc421.Alloc.WorstFit

Which free frames `my_malloc` takes.

The search keeps a current region and the largest one so far.  What it knows before
frame `i` is `Searched`: the largest region is the longest stretch of free frames that
lies before the current one, and the current one is the whole stretch that ends at
`i`.  So the search ends with the longest stretch of all, the leftmost if there are
several (`longest_scanResult`), and the block is put down at its start, whatever the
table says about its frames (`myMalloc_worst_fit`).
-/

namespace Cmsc421.Alloc

open LockProg

/-- The frame is free. -/
def IsFree (flags : Nat → MemFlag) (j : Nat) : Prop := (flags j).free = true

instance (flags : Nat → MemFlag) (j : Nat) : Decidable (IsFree flags j) :=
  inferInstanceAs (Decidable (_ = _))

/-! ## the search -/

/-- What the search knows about the largest region before it looks at frame `i`. -/
structure Searched (flags : Nat → MemFlag) (i : Nat) (st : Scan) : Prop where
  scanned : Scanned flags i st
  left : i - st.currRegionSize = 0 ∨ ¬ IsFree flags (i - st.currRegionSize - 1)
  largest : Longest (IsFree flags) (i - st.currRegionSize) st.largestRegionStart.toNat
    st.largestRegionSize

section searched

variable {flags : Nat → MemFlag} {i : Nat} {st : Scan}

theorem searched_init (flags : Nat → MemFlag) : Searched flags 0 .init where
  scanned := by constructor <;> simp [Scan.init]
  left := .inl rfl
  largest := longest_zero

/-- The current region is a stretch that ends at `i`. -/
theorem Scanned.curr_stretch (h : Scanned flags i st) :
    st.currRegionSize ≤ i ∧ (st.first = false → st.currRegionStart = (i - st.currRegionSize : Nat)) ∧
      Stretch (IsFree flags) i (i - st.currRegionSize) st.currRegionSize := by
  cases hfirst : st.first with
  | true =>
      rw [h.none hfirst]
      exact ⟨Nat.zero_le i, nofun, by simp, fun j _ hj => absurd hj (by omega)⟩
  | false =>
      obtain ⟨c, hc, hle, hfree⟩ := h.curr hfirst
      have hnext := h.next hfirst
      obtain rfl : c = i - st.currRegionSize := by omega
      exact ⟨by omega, fun _ => hc, hle, hfree⟩

/-- The larger one of the two regions is the longest stretch so far. -/
theorem Searched.keep (h : Searched flags i st) :
    Longest (IsFree flags) i st.keep.largestRegionStart.toNat st.keep.largestRegionSize := by
  obtain ⟨hle, hstart, hcurr⟩ := h.scanned.curr_stretch
  have hi : i - st.currRegionSize + st.currRegionSize = i := Nat.sub_add_cancel hle
  have hcurr : Stretch (IsFree flags) (i - st.currRegionSize + st.currRegionSize)
      (i - st.currRegionSize) st.currRegionSize := by rwa [hi]
  obtain ⟨hlonger, hshorter⟩ := h.largest.extend h.left hcurr
  rw [hi] at hlonger hshorter
  unfold Scan.keep
  split
  · next hlt =>
      have hfirst : st.first = false := by
        by_contra hf
        have := h.scanned.none (by simpa using hf)
        omega
      simpa only [hstart hfirst, Int.toNat_natCast] using hlonger hlt
  · next hge => exact hshorter (Nat.le_of_not_lt hge)

/-- A free frame belongs to the current region, … -/
theorem Searched.grow (h : Searched flags i st) (hi : IsFree flags i) :
    Searched flags (i + 1) (st.grow i) := by
  have hsize : (st.grow i).currRegionSize = st.currRegionSize + 1 := by
    unfold Scan.grow
    split
    · next hfirst => rw [h.scanned.none hfirst]
    · rfl
  have hkeeps : (st.grow i).largestRegionStart = st.largestRegionStart ∧
      (st.grow i).largestRegionSize = st.largestRegionSize := by
    unfold Scan.grow
    split <;> exact ⟨rfl, rfl⟩
  have hbegin : i + 1 - (st.currRegionSize + 1) = i - st.currRegionSize := by omega
  refine ⟨?_, ?_, ?_⟩
  · exact h.scanned.grow hi
  · rw [hsize, hbegin]
    exact h.left
  · rw [hsize, hbegin, hkeeps.1, hkeeps.2]
    exact h.largest

/-- … and a reserved frame ends it. -/
theorem Searched.stop (h : Searched flags i st) (hi : ¬ IsFree flags i) (N : Nat) :
    Searched flags (i + 1) (st.frame N (flags i).free i) ∧
      Longest (IsFree flags) (i + 1) (st.frame N (flags i).free i).largestRegionStart.toNat
        (st.frame N (flags i).free i).largestRegionSize := by
  have hscanned := h.scanned.frame N
  have hfree : (flags i).free = false := by simpa [IsFree] using hi
  rw [hfree, Scan.frame_reserved] at hscanned ⊢
  exact ⟨⟨hscanned, .inr hi, h.keep.skip hi⟩, h.keep.skip hi⟩

/-- One round of the search, but for the last. -/
theorem Searched.frame (h : Searched flags i st) {N : Nat} (hN : i ≠ N - 1) :
    Searched flags (i + 1) (st.frame N (flags i).free i) := by
  by_cases hi : IsFree flags i
  · have hgrow := h.grow hi
    rwa [show (flags i).free = true from hi, Scan.frame_free, if_neg hN]
  · exact (h.stop hi N).1

/-- The last round: the current region is looked at although it has not ended. -/
theorem Searched.last (h : Searched flags i st) :
    Longest (IsFree flags) (i + 1) (st.frame (i + 1) (flags i).free i).largestRegionStart.toNat
      (st.frame (i + 1) (flags i).free i).largestRegionSize := by
  by_cases hi : IsFree flags i
  · have hkeep := (h.grow hi).keep
    rwa [show (flags i).free = true from hi, Scan.frame_free, if_pos (by omega)]
  · exact (h.stop hi (i + 1)).2

end searched

/-- **The search finds the longest stretch of free frames**, the one closest to address
zero if there are several. -/
theorem longest_scanResult (N : Nat) (flags : Nat → MemFlag) :
    Longest (IsFree flags) N (scanResult N flags).largestRegionStart.toNat
      (scanResult N flags).largestRegionSize := by
  cases N with
  | zero => exact longest_zero
  | succ M =>
      have hsearch : ∀ n ≤ M, Searched flags n
          ((List.range n).foldl (fun st i => st.frame (M + 1) (flags i).free i) .init) := by
        intro n hn
        induction n with
        | zero => exact searched_init flags
        | succ n ih =>
            rw [List.range_succ, List.foldl_append, List.foldl_cons, List.foldl_nil]
            exact (ih (by omega)).frame (by omega)
      rw [scanResult, List.range_succ, List.foldl_append, List.foldl_cons, List.foldl_nil]
      exact (hsearch M (Nat.le_refl M)).last

/-! ## the request -/

/-- The table with a block of `n` frames put down at `i`. -/
def withBlock (flags : Nat → MemFlag) (i n j : Nat) : MemFlag :=
  if j = i then ⟨false, true, n⟩
  else if i < j ∧ j < i + n then ⟨false, false, n⟩
  else flags j

theorem reserve_eq (d : Region) {i n : Nat} (h : i + n < 2 ^ 32) :
    d.reserve i n = { d with totalFlags := withBlock d.totalFlags i n } := by
  have hbound : uadd i n = i + n := Nat.mod_eq_of_lt h
  simp only [Region.reserve, Region.fill, Region.setFlag, hbound]
  congr 1
  funext j
  rw [withBlock]
  by_cases hj : j = i
  · subst hj
    rw [if_neg (by omega), Function.update_self, if_pos rfl]
  · rw [Function.update_of_ne hj, if_neg hj]
    exact ite_congr (propext (by omega)) (fun _ => rfl) fun _ => rfl

/-- What `my_malloc` makes of the longest stretch of free frames. -/
theorem mallocResult_of_longest {N size s L : Nat} {d : Region}
    (hL : Longest (IsFree d.totalFlags) N s L) (hN : N * BYTES_PER_FRAME < 2 ^ 31)
    (hpos : 0 < size) (hsize : size ≤ N * BYTES_PER_FRAME) :
    mallocResult N size d =
      if size ≤ L * BYTES_PER_FRAME then
        (frameAddr s, { d with totalFlags := withBlock d.totalFlags s (frames size) })
      else (.null, { d with errno := ENOMEM }) := by
  have hle := hL.stretch.le
  have hN' := frames_lt hN
  obtain ⟨rfl, rfl⟩ := (longest_scanResult N d.totalFlags).unique hL
  rw [mallocResult, if_neg (by omega)]
  dsimp only
  split
  · next hfit =>
      have hframes := frames_le hfit
      rw [uint32_numOfFrames (by omega), reserve_eq d (by omega)]
  · rfl

/-- **Worst fit**: on any table, a request that fits the longest stretch of free
frames gets the first frames of it, and any other request fails with `ENOMEM`. -/
theorem myMalloc_worst_fit {N size : Nat} (hN : N * BYTES_PER_FRAME < 2 ^ 31) (hpos : 0 < size)
    (hsize : size ≤ N * BYTES_PER_FRAME) (m : Nat) (d : Region) :
    ∃ s L, Longest (IsFree d.totalFlags) N s L ∧
      (myMalloc N size).runAlone act ⟨m + 1, d⟩ =
        if size ≤ L * BYTES_PER_FRAME then
          some (frameAddr s, ⟨afterPost m,
            { d with totalFlags := withBlock d.totalFlags s (frames size) }⟩)
        else some (.null, ⟨afterPost m, { d with errno := ENOMEM }⟩) := by
  refine ⟨_, _, longest_scanResult N d.totalFlags, ?_⟩
  have hresult := mallocResult_of_longest (longest_scanResult N d.totalFlags) hN hpos hsize
  have hcall := atomic_myMalloc N size d
  rw [hresult] at hcall
  split at hcall
  · next hfit => rw [runAlone_of_atomic act hcall, if_pos hfit]
  · next hfit => rw [runAlone_of_atomic act hcall, if_neg hfit]

/-- The table of `main` with the frames 3 and 8 reserved: the stretches before, between
and after them have three, four and three frames. -/
def twoReserved : Region :=
  ((initRegion NUM_OF_FRAMES).setFlag 3 ⟨false, true, 1⟩).setFlag 8 ⟨false, true, 1⟩

/-- The block is put down between them. -/
theorem myMalloc_worst_fit_twoReserved :
    (myMalloc NUM_OF_FRAMES 100).runAlone act ⟨1, twoReserved⟩ =
      some (frameAddr 4,
        ⟨1, { twoReserved with totalFlags := withBlock twoReserved.totalFlags 4 4 }⟩) := by
  obtain ⟨s, L, hlongest, hcall⟩ := myMalloc_worst_fit (N := NUM_OF_FRAMES)
    (by decide) (by decide : 0 < 100) (by decide) 0 twoReserved
  obtain ⟨hs, hL⟩ := (longest_scanResult NUM_OF_FRAMES twoReserved.totalFlags).unique hlongest
  have hscan : (scanResult NUM_OF_FRAMES twoReserved.totalFlags).largestRegionStart.toNat = 4 ∧
      (scanResult NUM_OF_FRAMES twoReserved.totalFlags).largestRegionSize = 4 := by decide +kernel
  rw [hscan.1] at hs
  rw [hscan.2] at hL
  subst hs hL
  exact hcall

end Cmsc421.Alloc
