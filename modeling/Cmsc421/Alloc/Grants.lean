import Cmsc421.Alloc.Session

/-!
# Cmsc421.Alloc.Grants

A granted block and the size that was asked for.

`my_malloc` refuses what it has no frames for before it counts frames.
`my_realloc` counts first, in an `int`: for sizes from `2 ^ 37` on the count is
the number of frames modulo `2 ^ 32`, and a block can be cut although more was
asked for than it holds.  A session gets what it asks for exactly when no resize
is miscounted in this way (`grants_iff`).
-/

namespace Cmsc421.Alloc

open LockProg

/-- The size that a call asks a block for. -/
def Call.asked : Call → Option Nat
  | .malloc size | .realloc _ size => some size
  | .free _ | .usableSize _ => none

/-- `q` is the start of a block, and `my_malloc_usable_size` finds at least `size`
bytes there. -/
def Granted (N : Nat) (s : Shared Region) (q : Ptr) (size : Nat) : Prop :=
  (startOf N s.data q).isSome = true ∧
    ∃ n s', ((Call.usableSize q).body N).runAlone act s = some (.size n, s') ∧ size ≤ n

/-- If the call returns a pointer, the block there is as large as asked for. -/
def Grants (N : Nat) (st : Option (Shared Region)) (c : Call) : Prop :=
  ∀ s ∈ st, ∀ size ∈ c.asked, 0 < size → ∀ q s',
    (c.body N).runAlone act s = some (.ptr q, s') → q ≠ .null → Granted N s' q size

/-- If the call gets the lock, it does not cut a block to less than was asked for. -/
def Counts (N : Nat) (st : Option (Shared Region)) (c : Call) : Prop :=
  ∀ s ∈ st, 0 < s.sem → CountFits N s.data c

section grants

variable {N : Nat} {s s' : Shared Region} {L : Live}

theorem afterPost_pos (m : Nat) : 0 < afterPost m := by
  unfold afterPost
  split <;> simp only [SEM_VALUE_MAX] at * <;> omega

/-- What `my_malloc_usable_size` returns for a block. -/
theorem runAlone_usableSize_block {q : Ptr} {i : Nat} (hsem : 0 < s.sem)
    (hq : startOf N s.data q = some i) :
    ((Call.usableSize q).body N).runAlone act s =
      some (.size ((s.data.totalFlags i).numOfFrames * BYTES_PER_FRAME % 2 ^ 32),
        ⟨afterPost (s.sem - 1), s.data⟩) := by
  obtain ⟨sem, d⟩ := s
  obtain ⟨m, rfl⟩ := Nat.exists_eq_add_one_of_ne_zero (Nat.pos_iff_ne_zero.mp hsem)
  rw [runAlone_usableSize, runAlone_myMallocUsableSize (ne_null_of_startOf hq), hq]
  rfl

/-- A live block is as large as asked for. -/
theorem granted_of_live (h : Tracks N s.data.totalFlags L) (hN : N * BYTES_PER_FRAME < 2 ^ 31)
    {q : Ptr} {size : Nat} (hL : (q, size) ∈ L) (hsem : 0 < s.sem) : Granted N s q size := by
  obtain ⟨A, hd, hm⟩ := h
  obtain ⟨i, rfl⟩ := hm.start hL
  have hs : A.size i = some (frames size) := hm.size.mpr ⟨size, hL, rfl⟩
  have hq := hd.startOf_frameAddr hs
  have hb := A.bound hs
  refine ⟨by rw [hq, Option.isSome_some], _, _, runAlone_usableSize_block hsem hq, ?_⟩
  rw [hd.num hs]
  simp only [frames, BYTES_PER_FRAME] at hN hb ⊢
  omega

theorem sem_pos_of_myMalloc {size : Nat} {p : Ptr}
    (hr : (myMalloc N size).runAlone act s = some (p, s')) : 0 < s'.sem := by
  obtain ⟨sem, d⟩ := s
  cases sem with
  | zero =>
      rw [runAlone_zero_of_atomic act (by rw [atomic_myMalloc, Option.isSome_some])] at hr
      contradiction
  | succ m =>
      rw [runAlone_of_atomic act (atomic_myMalloc N size d)] at hr
      obtain ⟨-, rfl⟩ := Prod.mk.inj (Option.some.inj hr)
      exact afterPost_pos m

theorem sem_pos_of_myRealloc {ptr p : Ptr} {size : Nat}
    (hr : (myRealloc N ptr size).runAlone act s = some (p, s')) (hp : p ≠ .null) : 0 < s'.sem := by
  by_cases hnull : ptr = .null
  · subst hnull
    rw [myRealloc_null] at hr
    exact sem_pos_of_myMalloc hr
  by_cases hsize : size = 0
  · subst hsize
    rw [runAlone_myRealloc_zero hnull, Option.map_eq_some_iff] at hr
    obtain ⟨r, -, heq⟩ := hr
    exact absurd (Prod.mk.inj heq).1.symm hp
  obtain ⟨m, d⟩ := s
  have hcases := myRealloc_cases N hnull hsize d m
  generalize (myRealloc N ptr size).runAlone act ⟨m, d⟩ = res at hr hcases
  cases hcases with
  | waits | waitsInside => simp at hr
  | faulted | same | full => exact absurd (Prod.mk.inj (Option.some.inj hr)).1.symm hp
  | cut =>
      obtain ⟨-, rfl⟩ := Prod.mk.inj (Option.some.inj hr)
      exact afterPost_pos _
  | moved =>
      obtain ⟨r, -, heq⟩ := Option.map_eq_some_iff.mp hr
      obtain ⟨-, rfl⟩ := Prod.mk.inj heq
      exact afterPost_pos _

/-- A call that returns a pointer leaves the lock free. -/
theorem sem_pos_of_ptr {c : Call} {q : Ptr}
    (hr : (c.body N).runAlone act s = some (.ptr q, s')) (hq : q ≠ .null) : 0 < s'.sem := by
  cases call_cases hr with
  | malloc hp => exact sem_pos_of_myMalloc hp
  | realloc hp => exact sem_pos_of_myRealloc hp hq

/-- The block a call returns is live afterwards. -/
theorem mem_after {c : Call} {q : Ptr} {size : Nat} (hsize : size ∈ c.asked) (hpos : 0 < size)
    (hq : q ≠ .null) : (q, size) ∈ L.after c (.ptr q) := by
  have hgrant : ∀ M : Live, (q, size) ∈ M.grant q size := fun M => by simp [Live.grant, hq]
  cases c with
  | malloc n =>
      obtain rfl := Option.some.inj hsize
      exact hgrant L
  | realloc ptr n =>
      obtain rfl := Option.some.inj hsize
      simp only [Live.after, if_neg (Nat.pos_iff_ne_zero.mp hpos), if_neg hq]
      split
      · exact hgrant L
      · exact hgrant _
  | free ptr => simp [Call.asked] at hsize
  | usableSize ptr => simp [Call.asked] at hsize

/-- A call that returns has found the lock free, or does not count. -/
theorem countFits_of_returned {c : Call} {r : Ret} (hr : (c.body N).runAlone act s = some (r, s'))
    (h : 0 < s.sem → CountFits N s.data c) : CountFits N s.data c := by
  cases c with
  | realloc ptr size =>
      intro hsize i hp
      refine h (Nat.pos_of_ne_zero fun hzero => ?_) hsize i hp
      obtain ⟨m, d⟩ := s
      obtain rfl : m = 0 := hzero
      rw [runAlone_realloc, myRealloc, if_neg (ne_null_of_startOf hp), if_neg hsize] at hr
      simp [semWait, runAlone] at hr
  | malloc | free | usableSize => trivial

/-- A block that is cut to fewer frames than were asked for is too small. -/
theorem countFits_of_granted {size m i : Nat} {d d' : Region}
    (hlt : uint32 (numOfFrames size) < (d.totalFlags i).numOfFrames)
    (hd' : (d'.totalFlags i).numOfFrames = uint32 (numOfFrames size))
    (h : Granted N ⟨afterPost m, d'⟩ (frameAddr i) size) :
    frames size < (d.totalFlags i).numOfFrames := by
  obtain ⟨hstart, n, s', hu, hn⟩ := h
  obtain ⟨j, hj⟩ := Option.isSome_iff_exists.mp hstart
  obtain rfl : i = j := frameAddr_inj (frameOf_eq_some (Option.filter_eq_some_iff.mp hj).1).2
  rw [runAlone_usableSize_block (afterPost_pos m) hj, hd'] at hu
  obtain ⟨hret, -⟩ := Prod.mk.inj (Option.some.inj hu)
  obtain rfl := Ret.size.inj hret
  have hle : frames size ≤ uint32 (numOfFrames size) := frames_le (hn.trans (Nat.mod_le _ _))
  omega

/-- **Exactness, one call.** -/
theorem grants_iff_counts (h : Tracks N s.data.totalFlags L) (hN : N * BYTES_PER_FRAME < 2 ^ 31)
    (c : Call) : Grants N (some s) c ↔ Counts N (some s) c := by
  constructor
  · intro hgrants t ht hsem
    obtain rfl := Option.some.inj ht
    obtain ⟨sem, d⟩ := s
    cases c with
    | realloc ptr size =>
        intro hsize i hp hlt
        obtain ⟨m, rfl⟩ := Nat.exists_eq_add_one_of_ne_zero (Nat.pos_iff_ne_zero.mp hsem)
        obtain ⟨d', hcut⟩ := dataRun_cutLoop i (uint32 (numOfFrames size))
          ((d.totalFlags i).numOfFrames + 1) i d
        have hr : ((Call.realloc ptr size).body N).runAlone act ⟨m + 1, d⟩ =
            some (.ptr (frameAddr i), ⟨afterPost m, d'.setFlag i
              { d'.totalFlags i with numOfFrames := uint32 (numOfFrames size) }⟩) := by
          rw [runAlone_realloc, runAlone_myRealloc_block hsize hp, runAlone_reallocAt_cut hlt hcut]
          rfl
        have hgranted := hgrants _ rfl size rfl (Nat.pos_of_ne_zero hsize) _ _ hr nofun
        exact countFits_of_granted hlt (by rw [setFlag_self]) hgranted
    | malloc | free | usableSize => trivial
  · intro hcounts t ht size hsize hpos q s' hr hq
    obtain rfl := Option.some.inj ht
    have hfits := countFits_of_returned hr (hcounts s rfl)
    exact granted_of_live (tracks_call h hN hfits hr) hN (mem_after hsize hpos hq)
      (sem_pos_of_ptr hr hq)

end grants

/-- **When a granted block is as large as asked for**: in every session, every block
that a call returns is, exactly when no resize that gets the lock cuts a block,
because of the `int` it counts in, to less than was asked for. -/
theorem grants_iff {tr : List (Option (Shared Region) × Call)} {st : Option (Shared Region)}
    (h : (session NUM_OF_FRAMES).Run tr st) :
    (∀ p ∈ tr, Grants NUM_OF_FRAMES p.1 p.2) ↔ ∀ p ∈ tr, Counts NUM_OF_FRAMES p.1 p.2 := by
  have hN : NUM_OF_FRAMES * BYTES_PER_FRAME < 2 ^ 31 := by decide
  refine h.steps_iff_meets (I := fun tr st => ∀ s ∈ st,
    Tracks NUM_OF_FRAMES s.data.totalFlags (Live.ofCalls (completed NUM_OF_FRAMES tr))) ?_ ?_ ?_
  · intro st hst s hs
    rw [eq_initSession hst] at hs
    obtain rfl := Option.some.inj hs
    exact tracks_initRegion NUM_OF_FRAMES
  · intro tr st c st' hI hstep
    obtain ⟨s, rfl, -⟩ := Option.map_eq_some_iff.mp hstep
    exact grants_iff_counts (hI s rfl) hN c
  · intro tr st c st' hI hcounts hstep s' hs'
    rw [Option.mem_def.mp hs'] at hstep
    obtain ⟨s, r, rfl, hr⟩ := session_step hstep
    exact tracks_completed (hI s rfl) hN (countFits_of_returned hr (hcounts s rfl)) hr

/-- A block of two frames, and a resize to `2 ^ 37 + 32` bytes: it returns the block, with one
frame. -/
theorem realloc_grants_less :
    ∃ s, (session NUM_OF_FRAMES).Run
        ((session NUM_OF_FRAMES).trace (initSession NUM_OF_FRAMES) [.malloc 64]) (some s) ∧
      ∃ s', ((Call.realloc (frameAddr 0) (2 ^ 37 + 32)).body NUM_OF_FRAMES).runAlone act s =
          some (.ptr (frameAddr 0), s') ∧
        ¬ Granted NUM_OF_FRAMES s' (frameAddr 0) (2 ^ 37 + 32) := by
  obtain ⟨s, hrun, hs⟩ := exists_session_of_exec NUM_OF_FRAMES [.malloc 64]
    (b := fun s =>
      (((Call.realloc (frameAddr 0) (2 ^ 37 + 32)).body NUM_OF_FRAMES).runAlone act s).any
        fun r : Ret × Shared Region => decide (r.1 = .ptr (frameAddr 0)) &&
          (((Call.usableSize (frameAddr 0)).body NUM_OF_FRAMES).runAlone act r.2).all
            fun u : Ret × Shared Region => decide (u.1 = .size 32)) (by decide +kernel)
  obtain ⟨⟨r, s'⟩, hr, hs'⟩ := (Option.any_eq_true _ _).mp hs
  simp only [Bool.and_eq_true, decide_eq_true_eq] at hs'
  obtain ⟨rfl, husable⟩ := hs'
  refine ⟨s, hrun, s', hr, ?_⟩
  rintro ⟨-, n, s'', hu, hn⟩
  obtain rfl : n = 32 := by simpa [hu] using husable
  omega

/-- Every call of a session with small resizes grants what it was asked for. -/
theorem grants_iff_cutAndFree :
    ∃ st, (session NUM_OF_FRAMES).Run
        ((session NUM_OF_FRAMES).trace (initSession NUM_OF_FRAMES) cutAndFree) st ∧
      ∀ p ∈ (session NUM_OF_FRAMES).trace (initSession NUM_OF_FRAMES) cutAndFree,
        Grants NUM_OF_FRAMES p.1 p.2 := by
  obtain ⟨st, hrun, -⟩ := Machine.exists_run_of_exec (M := session NUM_OF_FRAMES)
    (session_init NUM_OF_FRAMES) cutAndFree (b := Option.isSome) (by decide +kernel)
  have hbelow : ∀ p ∈ (session NUM_OF_FRAMES).trace (initSession NUM_OF_FRAMES) cutAndFree,
      p.2.ReallocBelow (2 ^ 35) := by decide +kernel
  exact ⟨st, hrun, (grants_iff hrun).mpr fun p hp s _ _ => .of_below (hbelow p hp)⟩

end Cmsc421.Alloc
