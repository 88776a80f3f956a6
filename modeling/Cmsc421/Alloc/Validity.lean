import Cmsc421.Alloc.Resize

/-!
# Cmsc421.Alloc.Validity

Which pointers the allocator takes for valid.

A pointer is live when it has been returned and not been freed or moved since; the
code asks two flags of one frame.  `JudgedAlike` says that the two agree for
`my_free`, `my_realloc` and `my_malloc_usable_size`.  They do as long as the calls get
the lock (`judgedAlike_iff`): a resize to the size a block has keeps it for good,
and from then on no call judges anything.

A call that waits forever is judged by what it has done until then (`stopsAt`).
-/

namespace Cmsc421.Alloc

open LockProg

/-- The data in which a call stops, by returning or by waiting forever. -/
def Call.stopsAt (N : Nat) (c : Call) (s : Shared Region) : Region :=
  ((c.body N).final (handle act) s).data

/-- The call raises `SIGSEGV`. -/
def Raises (N : Nat) (s : Shared Region) (c : Call) : Prop := s.data.faults < (c.stopsAt N s).faults

/-- The call leaves the table as it is. -/
def KeepsTable (N : Nat) (s : Shared Region) (c : Call) : Prop :=
  (c.stopsAt N s).totalFlags = s.data.totalFlags

/-- A live block starts at the pointer. -/
def IsLive (L : Live) (ptr : Ptr) : Prop := ∃ size, (ptr, size) ∈ L

/-- The three calls that take a pointer agree with the callers on whether it is that
of a live block.  If it is not, they leave the table alone; if it is, `my_free` frees
the frames of the block, and a second `my_free` raises. -/
structure JudgedAlike (N : Nat) (s : Shared Region) (L : Live) (ptr : Ptr) : Prop where
  free : IsLive L ptr ↔ ¬ Raises N s (.free ptr)
  realloc : ∀ size, 0 < size → (IsLive L ptr ↔ ¬ Raises N s (.realloc ptr size))
  usableSize : IsLive L ptr ↔
    ∃ n s', ((Call.usableSize ptr).body N).runAlone act s = some (.size n, s') ∧ n ≠ 0
  invalid : ¬ IsLive L ptr → KeepsTable N s (.free ptr) ∧
    (∀ size, 0 < size → KeepsTable N s (.realloc ptr size)) ∧ KeepsTable N s (.usableSize ptr)
  valid : ∀ size, (ptr, size) ∈ L →
    ∃ s', ((Call.free ptr).body N).runAlone act s = some (.void, s') ∧
      (∀ j, Occupies (ptr, size) j →
        (s.data.totalFlags j).free = false ∧ s'.data.totalFlags j = freeFlag) ∧
      (∀ j, ¬ Occupies (ptr, size) j → s'.data.totalFlags j = s.data.totalFlags j) ∧
      Raises N s' (.free ptr)

section stops

variable {N m i size : Nat} {d : Region} {ptr : Ptr}

/-! ## where the calls stop -/

theorem stopsAt_free (s : Shared Region) :
    (Call.free ptr).stopsAt N s = ((myFree N ptr).final (handle act) s).data :=
  congrArg Shared.data (Prog.final_bind_ret _ _ _ s)

theorem stopsAt_realloc (s : Shared Region) :
    (Call.realloc ptr size).stopsAt N s = ((myRealloc N ptr size).final (handle act) s).data :=
  congrArg Shared.data (Prog.final_bind_ret _ _ _ s)

theorem stopsAt_usableSize (s : Shared Region) :
    (Call.usableSize ptr).stopsAt N s = ((myMallocUsableSize N ptr).final (handle act) s).data :=
  congrArg Shared.data (Prog.final_bind_ret _ _ _ s)

/-- Without the lock a call does nothing. -/
theorem stopsAt_free_waits : (Call.free ptr).stopsAt N ⟨0, d⟩ = d := by
  rw [stopsAt_free]
  rfl

/-- `my_free` of what is no block. -/
theorem stopsAt_free_invalid (hnull : ptr ≠ .null) (hp : startOf N d ptr = none) :
    (Call.free ptr).stopsAt N ⟨m + 1, d⟩ = { d with faults := d.faults + 1 } := by
  rw [stopsAt_free, Prog.final_of_run _ (runAlone_myFree_fault hnull hp)]

/-- `my_realloc` of what is no block. -/
theorem stopsAt_realloc_invalid (hnull : ptr ≠ .null) (hsize : size ≠ 0)
    (hp : startOf N d ptr = none) :
    (Call.realloc ptr size).stopsAt N ⟨m + 1, d⟩ = { d with faults := d.faults + 1 } := by
  rw [stopsAt_realloc, Prog.final_of_run _ (runAlone_myRealloc_fault hnull hsize hp)]

theorem stopsAt_usableSize_eq (hnull : ptr ≠ .null) :
    (Call.usableSize ptr).stopsAt N ⟨m + 1, d⟩ = d := by
  rw [stopsAt_usableSize, Prog.final_of_run _ (runAlone_myMallocUsableSize hnull)]

/-- `my_free` of a block. -/
theorem runAlone_free_valid (hp : startOf N d ptr = some i) :
    ((Call.free ptr).body N).runAlone act ⟨m + 1, d⟩ =
      some (.void, ⟨afterPost m, d.release i (d.totalFlags i).numOfFrames⟩) := by
  have hfree := atomic_myFree (N := N) (d := d) (.inr (by rw [hp, Option.isSome_some]))
  rw [runAlone_free, runAlone_of_atomic act hfree, hp]
  rfl

theorem stopsAt_free_valid (hp : startOf N d ptr = some i) :
    (Call.free ptr).stopsAt N ⟨m + 1, d⟩ = d.release i (d.totalFlags i).numOfFrames := by
  rw [Call.stopsAt, Prog.final_of_run _ (runAlone_free_valid hp)]

/-! ## my_realloc of a block -/

/-- `my_realloc` of a block stops where its work on the block does. -/
theorem stopsAt_realloc_block (hsize : size ≠ 0) (hp : startOf N d ptr = some i) :
    (Call.realloc ptr size).stopsAt N ⟨m + 1, d⟩ =
      ((reallocAt N i size).final (handle act) ⟨m, d⟩).data := by
  obtain ⟨hframe, hflag⟩ := Option.filter_eq_some_iff.mp hp
  have hbad := runAlone_of_dataRun (n := m) act (dataRun_notAllocated i d)
  rw [hflag, Bool.not_true] at hbad
  rw [stopsAt_realloc, myRealloc, if_neg (ne_null_of_startOf hp), if_neg hsize, hframe]
  exact congrArg Shared.data (Prog.final_bind _ _ hbad)

/-- A larger size while the semaphore is zero: nothing is done before `my_malloc` waits. -/
theorem final_reallocAt_blocked (h : (d.totalFlags i).numOfFrames < uint32 (numOfFrames size)) :
    (reallocAt N i size).final (handle act) ⟨0, d⟩ = ⟨0, d⟩ := by
  have hread := runAlone_of_dataRun (n := 0) act (dataRun_readNum i d)
  rw [reallocAt, Prog.final_bind _ _ hread, if_neg (by omega), Prog.final_bind _ _ hread, if_pos h]
  rfl

theorem mallocResult_faults (N size : Nat) (d : Region) :
    (mallocResult N size d).2.faults = d.faults := by
  unfold mallocResult
  split
  · rfl
  · dsimp only
    split <;> rfl

/-- A block that has been put down leaves the other blocks where they were. -/
theorem startOf_mallocResult {A : Layout N} {k : Nat} {p : Ptr} {d' : Region}
    (hd : Describes d.totalFlags A) (hs : A.size i = some k) (hN : N * BYTES_PER_FRAME < 2 ^ 31)
    (hm : mallocResult N size d = (p, d')) : startOf N d' (frameAddr i) = some i := by
  obtain ⟨-, hflags⟩ | ⟨c, -, hpos, hle, hfree, rfl⟩ := mallocResult_cases hN hm
  · exact (hflags ▸ hd : Describes d'.totalFlags A).startOf_frameAddr hs
  · have hfree' : ∀ j, c ≤ j → j < c + frames size → ¬ A.Covers j := fun j h₁ h₂ =>
      hd.not_covers (hfree j h₁ h₂)
    exact (describes_reserve hd hpos hle (frames_lt hN) hfree').startOf_frameAddr
      (size_insert_other hs)

/-- `my_realloc` of a block raises nothing. -/
theorem faults_realloc_valid {A : Layout N} {k : Nat} (hd : Describes d.totalFlags A)
    (hs : A.size i = some k) (hN : N * BYTES_PER_FRAME < 2 ^ 31) (hsize : size ≠ 0) :
    ((Call.realloc (frameAddr i) size).stopsAt N ⟨m + 1, d⟩).faults = d.faults := by
  have hp := hd.startOf_frameAddr hs
  have hcases := myRealloc_cases N (ne_null_of_startOf hp) hsize d (m + 1)
  generalize hr : (myRealloc N (frameAddr i) size).runAlone act ⟨m + 1, d⟩ = res at hcases
  cases hcases with
  | faulted hnone => exact absurd (hnone.symm.trans hp) nofun
  | cut _ _ hcut =>
      rw [stopsAt_realloc, Prog.final_of_run _ hr, cutLoop_writes hcut]
      rfl
  | same => rw [stopsAt_realloc, Prog.final_of_run _ hr]
  | waitsInside hp' hgt =>
      obtain rfl := Option.some.inj (hp.symm.trans hp')
      rw [stopsAt_realloc_block hsize hp, final_reallocAt_blocked hgt]
  | full hp' _ hm =>
      rw [stopsAt_realloc, Prog.final_of_run _ hr]
      have hfaults := mallocResult_faults N size d
      rwa [hm] at hfaults
  | @moved m _ off d' hp' _ hm =>
      obtain rfl := Option.some.inj (hp.symm.trans hp')
      have hold : startOf N d' (frameAddr i) = some i := startOf_mallocResult hd hs hN hm
      -- the copy leaves the table alone
      have hold' : startOf N (d'.copy off i) (frameAddr i) = some i := hold
      have hfree := atomic_myFree (N := N) (.inr (by rw [hold', Option.isSome_some]))
      obtain ⟨n, hn⟩ := Nat.exists_eq_add_one_of_ne_zero (afterPost_pos m).ne'
      rw [hn, runAlone_of_atomic act hfree, hold'] at hr
      rw [stopsAt_realloc, Prog.final_of_run _ hr]
      have hfaults := mallocResult_faults N size d
      rwa [hm] at hfaults

end stops

/-! ## judging -/

section judged

variable {N m : Nat} {d : Region} {L : Live} {ptr : Ptr}

/-- The two flags tell the starts of the live blocks. -/
theorem isLive_iff (h : Tracks N d.totalFlags L) :
    IsLive L ptr ↔ (startOf N d ptr).isSome = true := by
  constructor
  · rintro ⟨size, hL⟩
    by_contra hp
    exact h.not_live (by simpa using hp) size hL
  · intro hp
    obtain ⟨i, hi⟩ := Option.isSome_iff_exists.mp hp
    obtain ⟨-, size, hL, -⟩ := h.exists_live hi
    exact ⟨size, hL⟩

/-- The frames of a live block are the ones `my_free` goes over. -/
theorem occupies_iff (h : Tracks N d.totalFlags L) {i size : Nat} (hN : N * BYTES_PER_FRAME < 2 ^ 31)
    (hL : (frameAddr i, size) ∈ L) (j : Nat) :
    Occupies (frameAddr i, size) j ↔ i ≤ j ∧ j < uadd i (d.totalFlags i).numOfFrames := by
  obtain ⟨A, hd, hm⟩ := h
  have hs : A.size i = some (frames size) := hm.size.mpr ⟨size, hL, rfl⟩
  have hb := A.bound hs
  have hN' := frames_lt hN
  rw [hd.num hs, uadd, Nat.mod_eq_of_lt (by omega)]
  constructor
  · rintro ⟨k, hk, hj⟩
    obtain rfl := frameAddr_inj hk
    exact hj
  · exact fun hj => ⟨i, rfl, hj⟩

/-- A block that has been taken up starts nowhere. -/
theorem startOf_release {A : Layout N} {i k : Nat} (hd : Describes d.totalFlags A)
    (hs : A.size i = some k) (hN : N < 2 ^ 32) :
    startOf N (d.release i (d.totalFlags i).numOfFrames) (frameAddr i) = none := by
  rw [hd.num hs]
  by_contra hstill
  obtain ⟨j, hj⟩ := Option.ne_none_iff_exists'.mp hstill
  obtain ⟨hji, n, hn⟩ := (describes_release hd hs hN).of_startOf hj
  obtain rfl := frameAddr_inj hji
  simp at hn

/-- The calls find no block. -/
theorem judgedAlike_of_none (h : Tracks N d.totalFlags L) (hnull : ptr ≠ .null)
    (hp : startOf N d ptr = none) : JudgedAlike N ⟨m + 1, d⟩ L ptr := by
  have hdead : ¬ IsLive L ptr := by
    rw [isLive_iff h, hp]
    exact Bool.false_ne_true
  have hfree := stopsAt_free_invalid (m := m) hnull hp
  have hrealloc : ∀ size, 0 < size → (Call.realloc ptr size).stopsAt N ⟨m + 1, d⟩ =
      { d with faults := d.faults + 1 } := fun size hpos =>
    stopsAt_realloc_invalid hnull hpos.ne' hp
  refine ⟨?_, ?_, ?_, ?_, ?_⟩
  · refine iff_of_false hdead (not_not_intro ?_)
    rw [Raises, hfree]
    exact Nat.lt_succ_self _
  · intro size hpos
    refine iff_of_false hdead (not_not_intro ?_)
    rw [Raises, hrealloc size hpos]
    exact Nat.lt_succ_self _
  · refine iff_of_false hdead ?_
    rintro ⟨n, s', hr, hn⟩
    rw [runAlone_usableSize, runAlone_myMallocUsableSize hnull, hp] at hr
    obtain ⟨hn', -⟩ := Prod.mk.inj (Option.some.inj hr)
    exact hn (Ret.size.inj hn').symm
  · intro _
    refine ⟨?_, fun size hpos => ?_, ?_⟩
    · rw [KeepsTable, hfree]
    · rw [KeepsTable, hrealloc size hpos]
    · rw [KeepsTable, stopsAt_usableSize_eq hnull]
  · exact fun size hL => absurd ⟨size, hL⟩ hdead

/-- The calls find a block. -/
theorem judgedAlike_of_some (h : Tracks N d.totalFlags L) (hN : N * BYTES_PER_FRAME < 2 ^ 31)
    {i : Nat} (hp : startOf N d ptr = some i) : JudgedAlike N ⟨m + 1, d⟩ L ptr := by
  have hl : IsLive L ptr := by
    rw [isLive_iff h, hp]
    rfl
  have hcovers : ∀ {size}, (frameAddr i, size) ∈ L → _ := fun hL => occupies_iff h hN hL
  obtain ⟨rfl, old, hold, hnum⟩ := h.exists_live hp
  obtain ⟨A, hd, hm⟩ := h
  have hs : A.size i = some (frames old) := hm.size.mpr ⟨old, hold, rfl⟩
  refine ⟨?_, ?_, ?_, fun hdead => absurd hl hdead, ?_⟩
  · refine iff_of_true hl ?_
    rw [Raises, stopsAt_free_valid hp]
    exact Nat.lt_irrefl _
  · intro size hpos
    refine iff_of_true hl ?_
    rw [Raises, faults_realloc_valid hd hs hN hpos.ne']
    exact Nat.lt_irrefl _
  · refine iff_of_true hl ⟨_, _, runAlone_usableSize_block (Nat.succ_pos m) hp, ?_⟩
    have hpos := A.pos hs
    have hb := A.bound hs
    simp only [hnum, BYTES_PER_FRAME] at hN ⊢
    omega
  · intro size hL
    have hs' : A.size i = some (frames size) := hm.size.mpr ⟨size, hL, rfl⟩
    refine ⟨_, runAlone_free_valid hp, fun j hj => ⟨?_, ?_⟩, fun j hj => ?_, ?_⟩
    · obtain ⟨k, hk, hjk⟩ := hj
      obtain rfl := frameAddr_inj hk
      exact hd.free_of_covers ⟨_, _, hs', hjk⟩
    · exact fill_inside ((hcovers hL j).mp hj)
    · exact fill_outside fun hj' => hj ((hcovers hL j).mpr hj')
    · obtain ⟨n, hn⟩ := Nat.exists_eq_add_one_of_ne_zero (afterPost_pos m).ne'
      rw [hn, Raises, stopsAt_free_invalid (m := n) (ne_null_of_startOf hp)
        (startOf_release hd hs (frames_lt hN))]
      exact Nat.lt_succ_self _

/-- Without the lock they judge nothing. -/
theorem not_judgedAlike_zero (hnull : ptr ≠ .null) : ¬ JudgedAlike N ⟨0, d⟩ L ptr := by
  intro h
  have hraise : ¬ Raises N ⟨0, d⟩ (.free ptr) := by
    rw [Raises, stopsAt_free_waits]
    exact Nat.lt_irrefl _
  obtain ⟨n, s', hr, -⟩ := h.usableSize.mp (h.free.mpr hraise)
  rw [runAlone_usableSize, runAlone_myMallocUsableSize_zero hnull] at hr
  contradiction

end judged

/-! ## sessions -/

/-- **When pointers are judged alike**: after every session of completed calls, and for
every pointer but `NULL`, exactly when the lock can still be had. -/
theorem judgedAlike_iff {tr : List (Option (Shared Region) × Call)} {s : Shared Region}
    (h : (session NUM_OF_FRAMES).Run tr (some s)) (hlt : ∀ p ∈ tr, p.2.ReallocBelow (2 ^ 35))
    {ptr : Ptr} (hnull : ptr ≠ .null) :
    JudgedAlike NUM_OF_FRAMES s (Live.ofCalls (completed NUM_OF_FRAMES tr)) ptr ↔ 0 < s.sem := by
  have htracks := tracks_of_run (by decide) h hlt s rfl
  obtain ⟨m, d⟩ := s
  cases m with
  | zero => exact iff_of_false (not_judgedAlike_zero hnull) (Nat.lt_irrefl 0)
  | succ m =>
      refine iff_of_true ?_ (Nat.succ_pos m)
      cases hp : startOf NUM_OF_FRAMES d ptr with
      | none => exact judgedAlike_of_none htracks hnull hp
      | some i => exact judgedAlike_of_some htracks (by decide) hp

/-- After a cut and two releases of the same block, the cut block is still judged
alike. -/
theorem judgedAlike_iff_cutAndFree :
    ∃ s, (session NUM_OF_FRAMES).Run
        ((session NUM_OF_FRAMES).trace (initSession NUM_OF_FRAMES) cutAndFree) (some s) ∧
      JudgedAlike NUM_OF_FRAMES s (Live.ofCalls (completed NUM_OF_FRAMES
        ((session NUM_OF_FRAMES).trace (initSession NUM_OF_FRAMES) cutAndFree))) (frameAddr 0) := by
  obtain ⟨s, hrun, hs⟩ := exists_session_of_exec NUM_OF_FRAMES cutAndFree
    (b := fun s => decide (0 < s.sem)) (by decide +kernel)
  have hnull : frameAddr 0 ≠ .null := nofun
  exact ⟨s, hrun, (judgedAlike_iff hrun (by decide +kernel) hnull).mpr (of_decide_eq_true hs)⟩

/-- The calls after which nothing is judged any more: a request, and a resize to the same
size. -/
def resizeSame : List Call := [.malloc 32, .realloc (frameAddr 0) 32]

/-- The address one byte into the block is no block's, and `my_free` does not raise. -/
theorem interior_not_raised :
    ∃ s, (session NUM_OF_FRAMES).Run
        ((session NUM_OF_FRAMES).trace (initSession NUM_OF_FRAMES) resizeSame) (some s) ∧
      (∀ p ∈ (session NUM_OF_FRAMES).trace (initSession NUM_OF_FRAMES) resizeSame,
        p.2.ReallocBelow (2 ^ 35)) ∧
      ¬ IsLive (Live.ofCalls (completed NUM_OF_FRAMES
        ((session NUM_OF_FRAMES).trace (initSession NUM_OF_FRAMES) resizeSame))) (.mem 1) ∧
      ¬ Raises NUM_OF_FRAMES s (.free (.mem 1)) := by
  obtain ⟨⟨m, d⟩, hrun, hs⟩ := exists_session_of_exec NUM_OF_FRAMES resizeSame
    (b := fun s => decide (s.sem = 0)) (by decide +kernel)
  obtain rfl : m = 0 := of_decide_eq_true hs
  have hlt : ∀ p ∈ (session NUM_OF_FRAMES).trace (initSession NUM_OF_FRAMES) resizeSame,
      p.2.ReallocBelow (2 ^ 35) := by decide +kernel
  refine ⟨_, hrun, hlt, ?_, ?_⟩
  · rw [isLive_iff (tracks_of_run (by decide) hrun hlt _ rfl)]
    have hframe : frameOf NUM_OF_FRAMES (.mem 1) = none := by decide
    simp [startOf, hframe]
  · rw [Raises, stopsAt_free_waits]
    exact Nat.lt_irrefl _

end Cmsc421.Alloc
