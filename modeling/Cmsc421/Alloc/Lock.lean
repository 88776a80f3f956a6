import Cmsc421.Alloc.Session

/-!
# Cmsc421.Alloc.Lock

The lock of the allocator in a session of one thread.

A session keeps the lock when every call returns and leaves the semaphore at one.
`KeepsLock` says which calls do, on the table they find: releasing what is no
block posts twice, a resize to the same number of frames never posts, and a
resize to more frames waits for the lock it holds.  A session keeps the lock
exactly when all its calls are of the other kinds (`lock_kept_iff`).
-/

namespace Cmsc421.Alloc

open LockProg

/-- The last call has returned, and nobody holds the lock. -/
def LockFree (st : Option (Shared Region)) : Prop := st.map Shared.sem = some 1

instance : DecidablePred LockFree := fun st =>
  inferInstanceAs (Decidable (st.map Shared.sem = some 1))

/-- The calls that give back the lock once, on the table they find. -/
def KeepsLock (N : Nat) (d : Region) : Call → Prop
  | .malloc _ => True
  | .free ptr => ptr = .null ∨ (startOf N d ptr).isSome = true
  | .realloc ptr size => ptr = .null ∨
      if size = 0 then (startOf N d ptr).isSome = true
      else ∀ i ∈ startOf N d ptr, uint32 (numOfFrames size) < (d.totalFlags i).numOfFrames
  | .usableSize _ => True

section calls

variable {N : Nat} {d : Region}

private theorem afterPost_zero : afterPost 0 = 1 := afterPost_of_lt (by decide)

private theorem afterPost_one : afterPost 1 = 2 := afterPost_of_lt (by decide)

theorem lock_myMalloc (size : Nat) :
    ((myMalloc N size).runAlone act ⟨1, d⟩).map (·.2.sem) = some 1 := by
  rw [runAlone_of_atomic act (atomic_myMalloc N size d), Option.map_some, afterPost_zero]

/-- `my_free` gives the lock back once, or twice. -/
theorem lock_myFree (ptr : Ptr) :
    ((myFree N ptr).runAlone act ⟨1, d⟩).map (·.2.sem) = some 1 ↔
      ptr = .null ∨ (startOf N d ptr).isSome = true := by
  have hcases := myFree_cases N ptr d 1
  generalize (myFree N ptr).runAlone act ⟨1, d⟩ = res at hcases
  cases hcases with
  | nothing hnull =>
      rw [Option.map_some, afterPost_zero]
      exact iff_of_true rfl (.inl hnull)
  | released hp =>
      rw [Option.map_some, afterPost_zero, hp]
      exact iff_of_true rfl (.inr rfl)
  | faulted hnull hp =>
      rw [Option.map_some, afterPost_zero, afterPost_one, hp]
      exact iff_of_false (by simp) (by simp [hnull])

/-- `my_realloc` of a pointer gives it back once when it faults or cuts; a resize
to the same size never does, and a larger one waits for it. -/
theorem lock_myRealloc (ptr : Ptr) (size : Nat) :
    ((myRealloc N ptr size).runAlone act ⟨1, d⟩).map (·.2.sem) = some 1 ↔
      KeepsLock N d (.realloc ptr size) := by
  by_cases hnull : ptr = .null
  · subst hnull
    rw [myRealloc_null]
    exact iff_of_true (lock_myMalloc size) (.inl rfl)
  simp only [KeepsLock, hnull, false_or]
  by_cases hsize : size = 0
  · subst hsize
    rw [runAlone_myRealloc_zero hnull, Option.map_map, if_pos rfl]
    exact (lock_myFree ptr).trans (or_iff_right hnull)
  rw [if_neg hsize]
  have hcases := myRealloc_cases N hnull hsize d 1
  generalize (myRealloc N ptr size).runAlone act ⟨1, d⟩ = res at hcases
  cases hcases with
  | faulted hp =>
      rw [Option.map_some, afterPost_zero, hp]
      exact iff_of_true rfl (by simp)
  | cut hp hlt hcut =>
      rw [Option.map_some, afterPost_zero, hp]
      exact iff_of_true rfl (by simpa using hlt)
  | same hp heq =>
      rw [hp]
      exact iff_of_false (by simp) (by simp [heq])
  | waitsInside hp hgt =>
      rw [hp]
      exact iff_of_false (by simp) (by simp [hgt.le])

theorem lock_myMallocUsableSize (ptr : Ptr) :
    ((myMallocUsableSize N ptr).runAlone act ⟨1, d⟩).map (·.2.sem) = some 1 := by
  by_cases hnull : ptr = .null
  · rw [myMallocUsableSize, if_pos hnull]
    rfl
  · rw [runAlone_myMallocUsableSize hnull, Option.map_some, afterPost_zero]

/-- **One call**: it returns and leaves the semaphore at one iff it keeps the
lock. -/
theorem lockFree_call_iff (c : Call) :
    LockFree (((c.body N).runAlone act ⟨1, d⟩).map Prod.snd) ↔ KeepsLock N d c := by
  unfold LockFree
  cases c with
  | malloc size =>
      rw [runAlone_malloc, Option.map_map, Option.map_map]
      exact iff_of_true (lock_myMalloc size) trivial
  | free ptr =>
      rw [runAlone_free, Option.map_map, Option.map_map]
      exact lock_myFree ptr
  | realloc ptr size =>
      rw [runAlone_realloc, Option.map_map, Option.map_map]
      exact lock_myRealloc ptr size
  | usableSize ptr =>
      rw [runAlone_usableSize, Option.map_map, Option.map_map]
      exact iff_of_true (lock_myMallocUsableSize ptr) trivial

end calls

/-- **A session keeps the lock iff all its calls do**: every call returns, and
the semaphore is one after it, exactly when each call is one that gives back the
lock once on the table it finds. -/
theorem lock_kept_iff {N : Nat} {tr : List (Option (Shared Region) × Call)}
    {st : Option (Shared Region)} (h : (session N).Run tr st) :
    ((∀ p ∈ tr, LockFree p.1) ∧ LockFree st) ↔ ∀ p ∈ tr, ∀ s ∈ p.1, KeepsLock N s.data p.2 := by
  refine h.stays_iff_meets (H := fun _ _ => True) (I := fun _ _ => True)
    (P := fun st c => ∀ s ∈ st, KeepsLock N s.data c) ?_ ?_ (fun _ _ _ _ _ _ _ _ _ => trivial)
    fun _ _ => trivial
  · intro st hst
    rw [eq_initSession hst]
    exact ⟨trivial, rfl⟩
  · intro _ st c st' _ hfree _ hstep
    obtain ⟨s, rfl, rfl⟩ := Option.map_eq_some_iff.mp hstep
    have hsem : s = ⟨1, s.data⟩ := by
      have : s.sem = 1 := Option.some.inj hfree
      rw [← this]
    rw [hsem, lockFree_call_iff]
    simp

/-- A request, a cut and a release. -/
def cutOnce : List Call := [.malloc 96, .realloc (frameAddr 0) 33, .free (frameAddr 0)]

theorem lock_kept_iff_cutOnce :
    ∃ st, (session NUM_OF_FRAMES).Run
        ((session NUM_OF_FRAMES).trace (initSession NUM_OF_FRAMES) cutOnce) st ∧
      ∀ p ∈ (session NUM_OF_FRAMES).trace (initSession NUM_OF_FRAMES) cutOnce,
        ∀ s ∈ p.1, KeepsLock NUM_OF_FRAMES s.data p.2 := by
  obtain ⟨st, hrun, hst⟩ := Machine.exists_run_of_exec (M := session NUM_OF_FRAMES)
    (session_init NUM_OF_FRAMES) cutOnce (b := fun st => decide (LockFree st)) (by decide +kernel)
  exact ⟨st, hrun, (lock_kept_iff hrun).mp ⟨by decide +kernel, of_decide_eq_true hst⟩⟩

/-- The three ways to lose the lock: growing a block never returns, a resize to
the same number of frames leaves the semaphore at zero, and releasing a block
twice leaves it at two. -/
theorem lock_lost :
    (session NUM_OF_FRAMES).Run ((session NUM_OF_FRAMES).trace (initSession NUM_OF_FRAMES)
      [.malloc 32, .realloc (frameAddr 0) 64]) none ∧
    (∃ s, (session NUM_OF_FRAMES).Run
        ((session NUM_OF_FRAMES).trace (initSession NUM_OF_FRAMES)
          [.malloc 32, .realloc (frameAddr 0) 32]) (some s) ∧ s.sem = 0) ∧
    ∃ s, (session NUM_OF_FRAMES).Run
        ((session NUM_OF_FRAMES).trace (initSession NUM_OF_FRAMES)
          [.malloc 32, .free (frameAddr 0), .free (frameAddr 0)]) (some s) ∧ s.sem = 2 := by
  have hinit := session_init NUM_OF_FRAMES
  refine ⟨?_, ?_, ?_⟩
  · obtain ⟨st, hrun, hst⟩ := Machine.exists_run_of_exec hinit
      [.malloc 32, .realloc (frameAddr 0) 64] (b := Option.isNone) (by decide +kernel)
    rwa [Option.isNone_iff_eq_none.mp hst] at hrun
  · obtain ⟨s, hrun, hs⟩ := exists_session_of_exec NUM_OF_FRAMES
      [.malloc 32, .realloc (frameAddr 0) 32] (b := fun s => s.sem == 0) (by decide +kernel)
    exact ⟨s, hrun, beq_iff_eq.mp hs⟩
  · obtain ⟨s, hrun, hs⟩ := exists_session_of_exec NUM_OF_FRAMES
      [.malloc 32, .free (frameAddr 0), .free (frameAddr 0)] (b := fun s => s.sem == 2)
      (by decide +kernel)
    exact ⟨s, hrun, beq_iff_eq.mp hs⟩

end Cmsc421.Alloc
