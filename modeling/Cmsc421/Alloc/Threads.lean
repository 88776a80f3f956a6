import Cmsc421.Alloc.Session

/-!
# Cmsc421.Alloc.Threads

Any number of threads that call `my_malloc` and `my_free`.

A step is one operation of one thread: a wait, a post, a read or write of one
field of the table, or the signal.  `my_malloc` gives the lock back once on every
path; `my_free` does so when it is handed `NULL` or the address of a block, and
twice otherwise.  As long as no thread that gets the lock in `my_free` holds any
other pointer, at most one thread is between its wait and the matching post, and
no two live blocks share a frame (`threads_safe`).
-/

namespace Cmsc421.Alloc

open LockProg

/-- The calls the threads make. -/
inductive ThreadCall
  | malloc (size : Nat)
  | free (ptr : Ptr)
  deriving DecidableEq

/-- As a call of the allocator. -/
def ThreadCall.toCall : ThreadCall → Call
  | .malloc size => .malloc size
  | .free ptr => .free ptr

/-- The threads, the data they share and the calls they have completed. -/
abbrev Threads : Type := Pool ThreadCall Access Ret Region Access.Ans

/-- The machine of the threads, on what `main` has set up. -/
def threads (N : Nat) : Machine Threads (PoolStep ThreadCall) :=
  Pool.machine act (fun c => c.toCall.body N) (initRegion N)

/-- Nobody has called anything. -/
def initThreads (N : Nat) : Threads := ⟨⟨1, initRegion N⟩, fun _ => .idle, []⟩

/-- The blocks that are live. -/
def liveBlocks (s : Threads) : Live := Live.ofCalls (s.completed.map fun c => (c.1.toCall, c.2))

/-- The call does not free anything but `NULL` or the address of a block. -/
def ThreadCall.FreesBlock (N : Nat) (d : Region) : ThreadCall → Prop
  | .malloc _ => True
  | .free ptr => ptr = .null ∨ (startOf N d ptr).isSome = true

instance (N : Nat) (d : Region) : DecidablePred (ThreadCall.FreesBlock N d)
  | .malloc _ => instDecidableTrue
  | .free ptr => inferInstanceAs (Decidable (ptr = .null ∨ (startOf N d ptr).isSome = true))

/-- The step is not a wait at the start of a `my_free` of anything else. -/
def FreesBlock (N : Nat) (s : Threads) : PoolStep ThreadCall → Prop
  | .call _ _ => True
  | .step t => (s.threads t).atWait = true → ∀ c ∈ (s.threads t).call?, c.FreesBlock N s.shared.data

instance (N : Nat) (s : Threads) : DecidablePred (FreesBlock N s)
  | .call _ _ => instDecidableTrue
  | .step t => inferInstanceAs (Decidable ((s.threads t).atWait = true →
      ∀ c ∈ (s.threads t).call?, c.FreesBlock N s.shared.data))

variable {N : Nat}

/-- Every call begins with a wait. -/
theorem body_eq_wait (c : ThreadCall) :
    ∃ k, c.toCall.body N = (.op .wait k : AllocProg Ret) := by
  cases c with
  | malloc size => exact ⟨_, rfl⟩
  | free ptr => exact ⟨_, rfl⟩

/-- `my_malloc` is one atomic section on any table, and `my_free` on one where its
pointer is `NULL` or the address of a block. -/
theorem entersSafely_of_freesBlock {s : Threads} {l : PoolStep ThreadCall} (h : FreesBlock N s l) :
    Pool.EntersSafely act (fun c => c.toCall.body N) s l := by
  cases l with
  | call t c => trivial
  | step t =>
      intro hwait c hc
      cases c with
      | malloc size =>
          refine (congrArg Option.isSome (atomic_bind_ret act (myMalloc N size) Ret.ptr _)).trans ?_
          rw [atomic_myMalloc]
          rfl
      | free ptr =>
          refine (congrArg Option.isSome
            (atomic_bind_ret act (myFree N ptr) (fun _ => Ret.void) _)).trans ?_
          rw [atomic_myFree (h hwait _ hc)]
          rfl

/-- The table stores the live blocks after every serial history. -/
theorem tracks_of_serial (hN : N * BYTES_PER_FRAME < 2 ^ 31) {log : List (ThreadCall × Ret)}
    {d : Region} (h : Pool.Serial act (fun c : ThreadCall => c.toCall.body N) (initRegion N) log d) :
    Tracks N d.totalFlags (Live.ofCalls (log.map fun c => (c.1.toCall, c.2))) := by
  refine h.invariant act _
    (J := fun log d => Tracks N d.totalFlags (Live.ofCalls (log.map fun c => (c.1.toCall, c.2))))
    (tracks_initRegion N) ?_
  intro log c v d d' hJ hat
  rw [List.map_append, List.map_singleton, Live.ofCalls_append]
  refine tracks_call hJ hN ?_ (runAlone_of_atomic (n := 0) act hat)
  cases c <;> trivial

/-- **Mutual exclusion, and live blocks that share no frame**, in every
interleaving in which `my_free` only gets the lock with `NULL` or the address of
a block. -/
theorem threads_safe {tr : List (Threads × PoolStep ThreadCall)} {s : Threads}
    (h : (threads NUM_OF_FRAMES).Run tr s) (hfree : ∀ p ∈ tr, FreesBlock NUM_OF_FRAMES p.1 p.2) :
    (∀ t u, (s.threads t).inside = true → (s.threads u).inside = true → t = u) ∧
    (liveBlocks s).Pairwise fun b c => ∀ j, ¬ (Occupies b j ∧ Occupies c j) := by
  have hinv := Pool.lockInv_of_run body_eq_wait h fun p hp =>
    entersSafely_of_freesBlock (hfree p hp)
  refine ⟨fun t u ht hu => hinv.inside_unique ht hu, ?_⟩
  obtain ⟨d, hser⟩ := hinv.serial
  exact (tracks_of_serial (by decide) hser).disjoint

/-- The steps with which thread `t` makes a request of one frame on an empty
table: the wait, a look at every frame, three writes and the post. -/
def oneFrame (t : Nat) : List (PoolStep ThreadCall) :=
  List.replicate (NUM_OF_FRAMES + 5) (.step t)

/-- Two threads ask for a frame each, and wait for each other; then the first one
frees its block. -/
def inTurn : List (PoolStep ThreadCall) :=
  [.call 0 (.malloc 32), .call 1 (.malloc 32)] ++ oneFrame 0 ++ oneFrame 1 ++
    [.call 0 (.free (frameAddr 0))] ++ List.replicate 8 (.step 0)

theorem threads_safe_inTurn :
    ∃ s, (threads NUM_OF_FRAMES).Run
        ((threads NUM_OF_FRAMES).trace (initThreads NUM_OF_FRAMES) inTurn) s ∧
      liveBlocks s = [(frameAddr 1, 32)] ∧
      (liveBlocks s).Pairwise fun b c => ∀ j, ¬ (Occupies b j ∧ Occupies c j) := by
  obtain ⟨s, hrun, hs⟩ := Machine.exists_run_of_exec (M := threads NUM_OF_FRAMES)
    (s := initThreads NUM_OF_FRAMES) rfl inTurn
    (b := fun s : Threads => decide (liveBlocks s = [(frameAddr 1, 32)])) (by decide +kernel)
  exact ⟨s, hrun, of_decide_eq_true hs, (threads_safe hrun (by decide +kernel)).2⟩

/-- One release of a foreign pointer, then two requests that begin at the same
time, … -/
def foreignFree : List (PoolStep ThreadCall) :=
  [.call 0 (.free (.mem 5)), .step 0, .step 0, .step 0, .step 0,
    .call 1 (.malloc 32), .call 2 (.malloc 32), .step 1, .step 2]

/-- … and go on to their ends. -/
def bothReturn : List (PoolStep ThreadCall) :=
  foreignFree ++ List.replicate NUM_OF_FRAMES (.step 1) ++ List.replicate NUM_OF_FRAMES (.step 2) ++
    List.replicate 4 (.step 1) ++ List.replicate 4 (.step 2)

/-- Both requests are inside at the same time, and they return the same frame. -/
theorem threads_unsafe :
    (∃ s, (threads NUM_OF_FRAMES).Run
        ((threads NUM_OF_FRAMES).trace (initThreads NUM_OF_FRAMES) foreignFree) s ∧
      (s.threads 1).inside = true ∧ (s.threads 2).inside = true) ∧
    ∃ s, (threads NUM_OF_FRAMES).Run
        ((threads NUM_OF_FRAMES).trace (initThreads NUM_OF_FRAMES) bothReturn) s ∧
      ¬ (liveBlocks s).Pairwise fun b c => ∀ j, ¬ (Occupies b j ∧ Occupies c j) := by
  have hinit : (threads NUM_OF_FRAMES).init (initThreads NUM_OF_FRAMES) := rfl
  constructor
  · obtain ⟨s, hrun, hs⟩ := Machine.exists_run_of_exec hinit foreignFree
      (b := fun s : Threads => (s.threads 1).inside && (s.threads 2).inside) (by decide +kernel)
    exact ⟨s, hrun, Bool.and_eq_true_iff.mp hs⟩
  · obtain ⟨s, hrun, hs⟩ := Machine.exists_run_of_exec hinit bothReturn
      (b := fun s : Threads => decide (liveBlocks s = [(frameAddr 0, 32), (frameAddr 0, 32)]))
      (by decide +kernel)
    refine ⟨s, hrun, fun h => ?_⟩
    rw [of_decide_eq_true hs] at h
    have hfirst : Occupies (frameAddr 0, 32) 0 := ⟨0, rfl, Nat.le_refl 0, by decide⟩
    exact List.rel_of_pairwise_cons h (List.mem_singleton_self _) 0 ⟨hfirst, hfirst⟩

end Cmsc421.Alloc
