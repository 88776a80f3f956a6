import Cmsc421.Alloc.Table

/-!
# Cmsc421.Alloc.Sections

What the functions of the allocator do to the data.

Every loop over the table comes down to `Region.fill`, which writes one flag to a
range of frames; a block is put down by `reserve` and taken up by `release`.
The lemmas of this module run the programs operation by operation once and for
all: from here on `my_malloc` is the function `mallocResult`, and `myFree_cases`
says all that `my_free` can do.  `my_realloc` has a module of its own.
-/

namespace Cmsc421.Alloc

open LockProg

/-! ## single operations -/

@[simp] theorem dataRun_readFree (i : Nat) (d : Region) :
    dataRun act (readFree i) d = some ((d.totalFlags i).free, d) := rfl

@[simp] theorem dataRun_readStart (i : Nat) (d : Region) :
    dataRun act (readStart i) d = some ((d.totalFlags i).startFrame, d) := rfl

@[simp] theorem dataRun_readNum (i : Nat) (d : Region) :
    dataRun act (readNum i) d = some ((d.totalFlags i).numOfFrames, d) := rfl

@[simp] theorem dataRun_writeFree (i : Nat) (b : Bool) (d : Region) :
    dataRun act (writeFree i b) d = some ((), d.setFlag i { d.totalFlags i with free := b }) := rfl

@[simp] theorem dataRun_writeStart (i : Nat) (b : Bool) (d : Region) :
    dataRun act (writeStart i b) d =
      some ((), d.setFlag i { d.totalFlags i with startFrame := b }) := rfl

@[simp] theorem dataRun_writeNum (i n : Nat) (d : Region) :
    dataRun act (writeNum i n) d =
      some ((), d.setFlag i { d.totalFlags i with numOfFrames := n }) := rfl

@[simp] theorem dataRun_memcpy (dst src n : Nat) (d : Region) :
    dataRun act (memcpy dst src n) d = some ((), (act (.memcpy dst src n) d).2) := rfl

/-! ## ranges of the table -/

/-- Write the flag `f` to the frames from `i` up to, and without, `bound`. -/
def Region.fill (d : Region) (f : MemFlag) (i bound : Nat) : Region :=
  { d with totalFlags := fun j => if i ≤ j ∧ j < bound then f else d.totalFlags j }

/-- Put a block of `n` frames down at `i`. -/
def Region.reserve (d : Region) (i n : Nat) : Region :=
  (d.setFlag i ⟨false, true, n⟩).fill ⟨false, false, n⟩ (i + 1) (uadd i n)

/-- Take the block of `n` frames at `i` up. -/
def Region.release (d : Region) (i n : Nat) : Region := d.fill freeFlag i (uadd i n)

/-- Copy the block at `i` to the address `off`. -/
def Region.copy (d : Region) (off : Int) (i : Nat) : Region :=
  (act (.memcpy off.toNat (i * BYTES_PER_FRAME)
    ((d.totalFlags i).numOfFrames * BYTES_PER_FRAME % 2 ^ 32)) d).2

theorem fill_empty {d : Region} {f : MemFlag} {i bound : Nat} (h : bound ≤ i) :
    d.fill f i bound = d := by
  simp only [Region.fill]
  congr 1
  funext j
  rw [if_neg (by omega)]

theorem fill_succ {d : Region} {f : MemFlag} {i bound : Nat} (h : i < bound) :
    (d.setFlag i f).fill f (i + 1) bound = d.fill f i bound := by
  simp only [Region.fill, Region.setFlag]
  congr 1
  funext j
  by_cases hj : j = i
  · subst hj
    simp [h]
  · rw [Function.update_of_ne hj]
    have : (i + 1 ≤ j ∧ j < bound) ↔ (i ≤ j ∧ j < bound) := by omega
    simp only [this]

/-- Writing the three fields one after the other writes the flag. -/
theorem dataRun_writeFlag (f : MemFlag) (i : Nat) (d : Region) :
    dataRun act (writeFlag f i) d = some ((), d.setFlag i f) := by
  simp [writeFlag, Region.setFlag]

/-- The loop over a range fills it. -/
theorem dataRun_writeFlags (f : MemFlag) (i bound : Nat) (d : Region) :
    dataRun act (writeFlags f i bound) d = some ((), d.fill f i bound) := by
  have hfold : ∀ k i (d : Region), i + k = max i bound →
      (List.range' i k).foldl (fun d j => d.setFlag j f) d = d.fill f i bound := by
    intro k
    induction k with
    | zero =>
        intro i d hk
        exact (fill_empty (by omega)).symm
    | succ k ih =>
        intro i d hk
        rw [List.range'_succ, List.foldl_cons, ih (i + 1) _ (by omega), fill_succ (by omega)]
  rw [writeFlags, dataRun_forM (g := fun d j => d.setFlag j f) act
    (fun j d => dataRun_writeFlag f j d), hfold _ _ _ (by omega)]

/-! ## my_malloc -/

/-- The outcome of the search. -/
def scanResult (N : Nat) (flags : Nat → MemFlag) : Scan :=
  (List.range N).foldl (fun st i => st.frame N (flags i).free i) .init

theorem dataRun_scan (N : Nat) (d : Region) :
    dataRun act (scan N) d = some (scanResult N d.totalFlags, d) := by
  refine dataRun_foldlM act (fun st i => ?_) _ _
  simp [scanFrame]

/-- What `my_malloc` returns and leaves behind. -/
def mallocResult (N size : Nat) (d : Region) : Ptr × Region :=
  if size = 0 ∨ N * BYTES_PER_FRAME < size then (.null, d)
  else
    let st := scanResult N d.totalFlags
    if size ≤ st.largestRegionSize * BYTES_PER_FRAME then
      let start := st.largestRegionStart.toNat
      (frameAddr start, d.reserve start (uint32 (numOfFrames size)))
    else (.null, { d with errno := ENOMEM })

/-- **`my_malloc` is one atomic section.** -/
theorem atomic_myMalloc (N size : Nat) (d : Region) :
    atomic act (myMalloc N size) d = some (mallocResult N size d) := by
  simp only [myMalloc, semWait, Prog.perform_bind, atomic_wait, mallocResult]
  split
  · rfl
  · rw [finish_bind act (dataRun_scan N d)]
    split
    · rw [finish_bind act (dataRun_writeFlag _ _ _), finish_bind act (dataRun_writeFlags _ _ _ _)]
      rfl
    · rfl

theorem runAlone_myMalloc (N size m : Nat) (d : Region) :
    (myMalloc N size).runAlone act ⟨m + 1, d⟩ =
      some ((mallocResult N size d).1, ⟨afterPost m, (mallocResult N size d).2⟩) :=
  runAlone_of_atomic act (atomic_myMalloc N size d)

/-! ## my_free -/

theorem frameOf_eq_some {N i : Nat} {ptr : Ptr} (h : frameOf N ptr = some i) :
    i < N ∧ ptr = frameAddr i := by
  have hmem := List.mem_of_find?_eq_some h
  have heq := List.find?_some h
  exact ⟨List.mem_range.mp hmem, (of_decide_eq_true heq).symm⟩

theorem frameAddr_inj {i j : Nat} (h : frameAddr i = frameAddr j) : i = j := by
  simp only [frameAddr, BYTES_PER_FRAME, Ptr.mem.injEq] at h
  omega

theorem frameOf_frameAddr {N i : Nat} (h : i < N) : frameOf N (frameAddr i) = some i := by
  have hex : (frameOf N (frameAddr i)).isSome = true := by
    simp only [frameOf, List.find?_isSome, List.mem_range, decide_eq_true_eq]
    exact ⟨i, h, rfl⟩
  obtain ⟨j, hj⟩ := Option.isSome_iff_exists.mp hex
  rw [hj, frameAddr_inj (frameOf_eq_some hj).2]

/-- The frame at an address, if a block starts there. -/
def startOf (N : Nat) (d : Region) (ptr : Ptr) : Option Nat :=
  (frameOf N ptr).filter fun i => (d.totalFlags i).startFrame && !(d.totalFlags i).free

theorem startOf_null (N : Nat) (d : Region) : startOf N d .null = none := by
  have : frameOf N .null = none := by simp [frameOf, frameAddr]
  simp [startOf, this]

theorem ne_null_of_startOf {N i : Nat} {d : Region} {ptr : Ptr} (h : startOf N d ptr = some i) :
    ptr ≠ .null := by
  rintro rfl
  rw [startOf_null] at h
  contradiction

/-- The frame of a pointer to no block does not start one. -/
theorem notAllocated_of_startOf {N i : Nat} {d : Region} {ptr : Ptr} (h : startOf N d ptr = none)
    (hframe : frameOf N ptr = some i) :
    ((d.totalFlags i).startFrame && !(d.totalFlags i).free) = false := by
  simpa [startOf, hframe] using h

theorem dataRun_notAllocated (i : Nat) (d : Region) :
    dataRun act (notAllocated i) d =
      some (!((d.totalFlags i).startFrame && !(d.totalFlags i).free), d) := by
  simp only [notAllocated, dataRun_bind, dataRun_readStart, Option.bind_some]
  by_cases h : (d.totalFlags i).startFrame = true
  · rw [if_pos h, dataRun_readFree, h]
    simp
  · rw [if_neg h]
    simp [h]

/-- `my_free` of nothing, or of a block, is one atomic section. -/
theorem atomic_myFree {N : Nat} {d : Region} {ptr : Ptr}
    (h : ptr = .null ∨ (startOf N d ptr).isSome = true) :
    atomic act (myFree N ptr) d =
      some ((), (startOf N d ptr).elim d fun i => d.release i (d.totalFlags i).numOfFrames) := by
  simp only [myFree, semWait, Prog.perform_bind, atomic_wait]
  rcases h with rfl | h
  · rw [if_neg (by simp), startOf_null]
    rfl
  · obtain ⟨i, hi⟩ := Option.isSome_iff_exists.mp h
    obtain ⟨hframe, hflag⟩ := Option.filter_eq_some_iff.mp hi
    rw [if_pos (ne_null_of_startOf hi), hframe, finish_bind act (dataRun_notAllocated i d), hi]
    simp only [hflag, Bool.not_true, Bool.false_eq_true, if_false]
    rw [finish_bind act (dataRun_readNum i d), finish_bind act (dataRun_writeFlags _ _ _ _)]
    rfl

/-- `my_free` of anything else posts twice and raises the signal in between. -/
theorem runAlone_myFree_fault {N m : Nat} {d : Region} {ptr : Ptr} (hnull : ptr ≠ .null)
    (h : startOf N d ptr = none) :
    (myFree N ptr).runAlone act ⟨m + 1, d⟩ =
      some ((), ⟨afterPost (afterPost m), { d with faults := d.faults + 1 }⟩) := by
  simp only [myFree, semWait, Prog.perform_bind, runAlone, Prog.run_op, handle_wait_succ,
    Option.bind_some, if_pos hnull]
  cases hframe : frameOf N ptr with
  | none => rfl
  | some i =>
      refine (runAlone_bind act (dataRun_notAllocated i d)).trans ?_
      rw [notAllocated_of_startOf h hframe]
      rfl

/-- **All that `my_free` can do**, with the semaphore at some value: wait forever,
ignore `NULL`, take up a block, or fault. -/
inductive FreeOutcome (N : Nat) (ptr : Ptr) (d : Region) : Nat → Option (Unit × Shared Region) → Prop
  | waits : FreeOutcome N ptr d 0 none
  | nothing {m : Nat} (hnull : ptr = .null) : FreeOutcome N ptr d (m + 1) (some ((), ⟨afterPost m, d⟩))
  | released {m i : Nat} (hp : startOf N d ptr = some i) :
      FreeOutcome N ptr d (m + 1)
        (some ((), ⟨afterPost m, d.release i (d.totalFlags i).numOfFrames⟩))
  | faulted {m : Nat} (hnull : ptr ≠ .null) (hp : startOf N d ptr = none) :
      FreeOutcome N ptr d (m + 1)
        (some ((), ⟨afterPost (afterPost m), { d with faults := d.faults + 1 }⟩))

theorem myFree_cases (N : Nat) (ptr : Ptr) (d : Region) (m : Nat) :
    FreeOutcome N ptr d m ((myFree N ptr).runAlone act ⟨m, d⟩) := by
  cases m with
  | zero =>
      have hwait : (myFree N ptr).runAlone act ⟨0, d⟩ = none := by simp [myFree, semWait, runAlone]
      rw [hwait]
      exact .waits
  | succ m =>
      cases hp : startOf N d ptr with
      | some i =>
          have hat := atomic_myFree (N := N) (d := d) (.inr (by rw [hp, Option.isSome_some]))
          rw [runAlone_of_atomic act hat, hp]
          exact .released hp
      | none =>
          by_cases hnull : ptr = .null
          · rw [runAlone_of_atomic act (atomic_myFree (.inl hnull)), hp]
            exact .nothing hnull
          · rw [runAlone_myFree_fault hnull hp]
            exact .faulted hnull hp

/-! ## my_malloc_usable_size -/

/-- `my_malloc_usable_size` takes the lock once and changes nothing. -/
theorem runAlone_myMallocUsableSize {N m : Nat} {d : Region} {ptr : Ptr} (hnull : ptr ≠ .null) :
    (myMallocUsableSize N ptr).runAlone act ⟨m + 1, d⟩ =
      some ((startOf N d ptr).elim 0
          fun i => (d.totalFlags i).numOfFrames * BYTES_PER_FRAME % 2 ^ 32,
        ⟨afterPost m, d⟩) := by
  rw [myMallocUsableSize, if_neg hnull]
  simp only [semWait, Prog.perform_bind, runAlone, Prog.run_op, handle_wait_succ, Option.bind_some]
  cases hframe : frameOf N ptr with
  | none => simp [startOf, hframe, semPost]
  | some i =>
      refine (runAlone_bind act (dataRun_notAllocated i d)).trans ?_
      cases hflag : (d.totalFlags i).startFrame && !(d.totalFlags i).free <;>
        simp [startOf, hframe, Option.filter, hflag, semPost, readNum, access, Prog.perform, act]

/-- With the semaphore at zero it never returns. -/
theorem runAlone_myMallocUsableSize_zero {N : Nat} {d : Region} {ptr : Ptr} (hnull : ptr ≠ .null) :
    (myMallocUsableSize N ptr).runAlone act ⟨0, d⟩ = none := by
  simp [myMallocUsableSize, hnull, semWait, runAlone]

/-! ## main -/

/-- `main` writes every entry of the table, and leaves the lock free. -/
theorem runAlone_setUp (N : Nat) :
    (setUp N).runAlone act ⟨1, staticRegion⟩ = some ((), ⟨1, initRegion N⟩) := by
  have hmem : dataRun act ((List.range (N * BYTES_PER_FRAME)).forM fun b => writeMem b 0)
      staticRegion = some ((), staticRegion) := by
    rw [dataRun_forM (g := fun d b => { d with totalMem := Function.update d.totalMem b 0 }) act
      fun _ _ => rfl]
    have hzero : ∀ b, { staticRegion with totalMem := Function.update staticRegion.totalMem b 0 } =
        staticRegion := by
      intro b
      simp [staticRegion]
    induction List.range (N * BYTES_PER_FRAME) with
    | nil => rfl
    | cons b l ih => rw [List.foldl_cons, hzero, ih]
  have hat : atomic act (setUp N) staticRegion = some ((), staticRegion.fill freeFlag 0 N) := by
    simp only [setUp, semWait, Prog.perform_bind, atomic_wait]
    rw [finish_bind act hmem, finish_bind act (dataRun_writeFlags _ _ _ _)]
    rfl
  rw [runAlone_of_atomic act hat, afterPost_of_lt (by decide)]
  simp [Region.fill, initRegion, staticRegion]

end Cmsc421.Alloc
