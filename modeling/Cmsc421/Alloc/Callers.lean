import Cmsc421.Alloc.Lock
import Cmsc421.Critical

/-!
# Cmsc421.Alloc.Callers

Any number of threads that make any of the four calls.

A `my_realloc` that gets the lock for a block of the same number of frames returns with it, and
one for a larger block waits for it a second time; `my_malloc_usable_size` and a `my_realloc`
that faults go on after their post.  None of this lets a second thread in, and no two live
blocks share a frame; but the lock can be had again only as long as no thread gets it for such
a resize (`callers_of_run`).
-/

namespace Cmsc421.Alloc

open LockProg

/-- The threads, the data they share and the calls they have completed. -/
abbrev Callers : Type := Pool Call Access Ret Region Access.Ans

/-- The machine of the threads, on what `main` has set up. -/
def callers (N : Nat) : Machine Callers (PoolStep Call) :=
  Pool.machine act (fun c => c.body N) (initRegion N)

/-- Nobody has called anything. -/
def initCallers (N : Nat) : Callers := ⟨⟨1, initRegion N⟩, fun _ => .idle, []⟩

/-- The call frees nothing but `NULL` or a block. -/
def Call.FreesBlock (N : Nat) (d : Region) : Call → Prop
  | .free ptr => ptr = .null ∨ (startOf N d ptr).isSome = true
  | .realloc ptr size => ptr = .null ∨ size ≠ 0 ∨ (startOf N d ptr).isSome = true
  | _ => True

instance (N : Nat) (d : Region) : DecidablePred (Call.FreesBlock N d)
  | .malloc _ | .usableSize _ => instDecidableTrue
  | .free ptr => inferInstanceAs (Decidable (ptr = .null ∨ (startOf N d ptr).isSome = true))
  | .realloc ptr size =>
      inferInstanceAs (Decidable (ptr = .null ∨ size ≠ 0 ∨ (startOf N d ptr).isSome = true))

instance (N : Nat) (d : Region) : DecidablePred (KeepsLock N d)
  | .malloc _ | .usableSize _ => instDecidableTrue
  | .free ptr => inferInstanceAs (Decidable (ptr = .null ∨ (startOf N d ptr).isSome = true))
  | .realloc ptr size => inferInstanceAs (Decidable (ptr = .null ∨
      if size = 0 then (startOf N d ptr).isSome = true
      else ∀ i ∈ startOf N d ptr, uint32 (numOfFrames size) < (d.totalFlags i).numOfFrames))

/-- What the completed calls say about the table. -/
def InStep (N : Nat) (log : List (Call × Ret)) (d : Region) : Prop :=
  Tracks N d.totalFlags (Live.ofCalls log)

section calls

variable {N : Nat} {d : Region} {c : Call}

/-! ## after the post -/

/-- Nobody looks at the number of signals. -/
theorem unseen_faults : Unseen act fun d => { d with faults := d.faults + 1 } := by
  intro o d
  cases o <;> rfl

theorem quiet_raise : Quiet act .raise := ⟨_, unseen_faults, fun _ => rfl⟩

theorem quiet_readNum (i : Nat) : Quiet act (.readNum i) := ⟨_, Unseen.id act, fun _ => rfl⟩

/-- What nobody notices leaves the table alone. -/
theorem Unseen.totalFlags {g : Region → Region} (hg : Unseen act g) (d : Region) :
    (g d).totalFlags = d.totalFlags := by
  funext i
  have hfree : ((g d).totalFlags i).free = (d.totalFlags i).free :=
    congrArg Prod.fst (hg (.readFree i) d)
  have hstart : ((g d).totalFlags i).startFrame = (d.totalFlags i).startFrame :=
    congrArg Prod.fst (hg (.readStart i) d)
  have hnum : ((g d).totalFlags i).numOfFrames = (d.totalFlags i).numOfFrames :=
    congrArg Prod.fst (hg (.readNum i) d)
  cases h : (g d).totalFlags i
  cases h' : d.totalFlags i
  simp_all

theorem InStep.unseen {g : Region → Region} {log : List (Call × Ret)} (hg : Unseen act g)
    (h : InStep N log d) : InStep N log (g d) := by
  rw [InStep, Unseen.totalFlags hg]
  exact h

/-- A call that is recorded late, with a result that says nothing about the live blocks. -/
theorem late_of_after {r : Ret} (h : ∀ L : Live, L.after c r = L) : Pool.Late (InStep N) c r := by
  intro log d hJ
  rw [InStep, Live.ofCalls_append, h]
  exact hJ

theorem late_usableSize (ptr : Ptr) (n : Nat) :
    Pool.Late (InStep N) (.usableSize ptr) (.size n) := late_of_after fun _ => rfl

theorem late_realloc {ptr : Ptr} {size : Nat} (hnull : ptr ≠ .null) (hsize : size ≠ 0) :
    Pool.Late (InStep N) (.realloc ptr size) (.ptr .null) :=
  late_of_after fun _ => by simp [Live.after, hnull, hsize]

/-! ## with the lock -/

/-- `my_realloc` of a pointer from its wait on. -/
def reallocLocked (N : Nat) (ptr : Ptr) (size : Nat) : AllocProg Ptr :=
  match frameOf N ptr with
  | some i => do
      let bad ← notAllocated i
      if bad then
        fault
        return .null
      else reallocAt N i size
  | none => do
      fault
      return .null

/-- `my_malloc_usable_size` from its wait on. -/
def usableLocked (N : Nat) (ptr : Ptr) : AllocProg Nat :=
  match frameOf N ptr with
  | some i => do
      let bad ← notAllocated i
      semPost
      if bad then return 0
      else
        let k ← readNum i
        return k * BYTES_PER_FRAME % 2 ^ 32
  | none => do
      semPost
      return 0

theorem myRealloc_eq {ptr : Ptr} {size : Nat} (hnull : ptr ≠ .null) (hsize : size ≠ 0) :
    myRealloc N ptr size = .op .wait fun _ => reallocLocked N ptr size := by
  rw [myRealloc, if_neg hnull, if_neg hsize]
  rfl

theorem myMallocUsableSize_eq {ptr : Ptr} (hnull : ptr ≠ .null) :
    myMallocUsableSize N ptr = .op .wait fun _ => usableLocked N ptr := by
  rw [myMallocUsableSize, if_neg hnull]
  rfl

theorem toLock_reallocLocked_fault {ptr : Ptr} {size : Nat} (h : startOf N d ptr = none) :
    toLock act (reallocLocked N ptr size) d =
      (.op .post fun _ => .op (.data .raise) fun _ => .ret .null, d) := by
  unfold reallocLocked
  split
  · next i hframe =>
      rw [toLock_bind act (dataRun_notAllocated i d), notAllocated_of_startOf h hframe]
      rfl
  · rfl

theorem toLock_reallocLocked_block {ptr : Ptr} {size i : Nat} (h : startOf N d ptr = some i) :
    toLock act (reallocLocked N ptr size) d = toLock act (reallocAt N i size) d := by
  obtain ⟨hframe, hflag⟩ := Option.filter_eq_some_iff.mp h
  simp only [reallocLocked, hframe]
  rw [toLock_bind act (dataRun_notAllocated i d), hflag, Bool.not_true, if_neg Bool.false_ne_true]

theorem toLock_reallocAt_cut {i size : Nat}
    (h : uint32 (numOfFrames size) < (d.totalFlags i).numOfFrames) :
    ∃ k d', toLock act (reallocAt N i size) d = (.op .post k, d') ∧ k () = .ret (frameAddr i) := by
  obtain ⟨d', hcut⟩ := dataRun_cutLoop i (uint32 (numOfFrames size))
    ((d.totalFlags i).numOfFrames + 1) i d
  rw [reallocAt, toLock_bind act (dataRun_readNum i d), if_pos h, toLock_bind act hcut,
    toLock_bind act (dataRun_writeNum _ _ _)]
  exact ⟨_, _, rfl, rfl⟩

theorem toLock_reallocAt_same {i size : Nat}
    (h : uint32 (numOfFrames size) = (d.totalFlags i).numOfFrames) :
    toLock act (reallocAt N i size) d = (.ret .null, d) := by
  rw [reallocAt, toLock_bind act (dataRun_readNum i d), if_neg (by omega),
    toLock_bind act (dataRun_readNum i d), if_neg (by omega)]
  rfl

theorem toLock_reallocAt_waits {i size : Nat}
    (h : (d.totalFlags i).numOfFrames < uint32 (numOfFrames size)) :
    ∃ k, toLock act (reallocAt N i size) d = (.op .wait k, d) := by
  rw [reallocAt, toLock_bind act (dataRun_readNum i d), if_neg (by omega),
    toLock_bind act (dataRun_readNum i d), if_pos h]
  exact ⟨_, rfl⟩

theorem toLock_usableLocked (ptr : Ptr) : ∃ k, toLock act (usableLocked N ptr) d = (.op .post k, d) ∧
    Tail act (fun _ => True) (k ()) := by
  unfold usableLocked
  split
  · next i _ =>
      rw [toLock_bind act (dataRun_notAllocated i d)]
      refine ⟨_, rfl, ?_⟩
      split
      · exact .ret trivial
      · exact .data (quiet_readNum i) fun _ => .ret trivial
  · exact ⟨_, rfl, .ret trivial⟩

/-! ## what becomes of a call that gets the lock -/

/-- All that a call can do which gets the lock and frees nothing but `NULL` or a block: post
and return, post and go on, return with the lock, or wait for it a second time. -/
inductive Course (N : Nat) (d : Region) (c : Call) (p : AllocProg Ret) : Prop
  | returns {k : Unit → AllocProg Ret} {v : Ret} {d' : Region} (hkeeps : KeepsLock N d c)
      (h : toLock act p d = (.op .post k, d')) (hv : k () = .ret v)
  | goesOn {k : Unit → AllocProg Ret} (hkeeps : KeepsLock N d c)
      (h : toLock act p d = (.op .post k, d)) (htail : Tail act (Pool.Late (InStep N) c) (k ()))
  | leaves {v : Ret} (hkeeps : ¬ KeepsLock N d c) (h : toLock act p d = (.ret v, d))
  | waits {k : Unit → AllocProg Ret} (hkeeps : ¬ KeepsLock N d c)
      (h : toLock act p d = (.op .wait k, d))

/-- A call that is one atomic section. -/
theorem course_of_atomic {k : Unit → AllocProg Ret} (hk : c.body N = .op .wait k)
    (hkeeps : KeepsLock N d c) (h : (atomic act (c.body N) d).isSome = true) :
    Course N d c (k ()) := by
  obtain ⟨⟨v, d'⟩, h⟩ := Option.isSome_iff_exists.mp h
  rw [hk, atomic_wait] at h
  obtain ⟨k', hpost, hv⟩ := toLock_of_finish act h
  exact .returns hkeeps hpost hv

theorem isSome_atomic_myMalloc (size : Nat) : (atomic act (myMalloc N size) d).isSome = true := by
  rw [atomic_myMalloc]
  rfl

theorem isSome_atomic_myFree {ptr : Ptr} (h : ptr = .null ∨ (startOf N d ptr).isSome = true) :
    (atomic act (myFree N ptr) d).isSome = true := by
  rw [atomic_myFree h]
  rfl

/-- Wrapping up the result. -/
theorem isSome_atomic_bind_ret {α β : Type} (p : AllocProg α) (f : α → β)
    (h : (atomic act p d).isSome = true) :
    (atomic act (p >>= fun a => .ret (f a)) d).isSome = true := by
  rw [atomic_bind_ret, Option.isSome_map]
  exact h

theorem course_realloc {ptr : Ptr} {size : Nat} (hnull : ptr ≠ .null) (hsize : size ≠ 0) :
    Course N d (.realloc ptr size) (reallocLocked N ptr size >>= fun p => .ret (.ptr p)) := by
  cases hp : startOf N d ptr with
  | none =>
      have hpost : toLock act (reallocLocked N ptr size >>= fun p => .ret (Ret.ptr p)) d =
          (.op .post fun _ => .op (.data .raise) fun _ => .ret (Ret.ptr .null), d) := by
        rw [toLock_seq, toLock_reallocLocked_fault hp]
        rfl
      exact .goesOn (by simp [KeepsLock, hsize, hp]) hpost
        (.data quiet_raise fun _ => .ret (late_realloc hnull hsize))
  | some i =>
      have hcuts : KeepsLock N d (.realloc ptr size) ↔
          uint32 (numOfFrames size) < (d.totalFlags i).numOfFrames := by
        simp [KeepsLock, hnull, hsize, hp]
      rcases Nat.lt_trichotomy (uint32 (numOfFrames size)) (d.totalFlags i).numOfFrames with
        hlt | heq | hgt
      · obtain ⟨k, d', hpost, hv⟩ := toLock_reallocAt_cut (N := N) hlt
        have hall : toLock act (reallocLocked N ptr size >>= fun p => .ret (Ret.ptr p)) d =
            (.op .post fun r => k r >>= fun p => .ret (Ret.ptr p), d') := by
          rw [toLock_seq, toLock_reallocLocked_block hp, hpost]
        exact .returns (v := .ptr (frameAddr i)) (hcuts.mpr hlt) hall (by rw [hv]; rfl)
      · refine .leaves (v := .ptr .null) (fun h => by have := hcuts.mp h; omega) ?_
        rw [toLock_seq, toLock_reallocLocked_block hp, toLock_reallocAt_same heq]
        rfl
      · obtain ⟨k, hwait⟩ := toLock_reallocAt_waits (N := N) hgt
        refine .waits (k := fun r => k r >>= fun p => .ret (.ptr p))
          (fun h => by have := hcuts.mp h; omega) ?_
        rw [toLock_seq, toLock_reallocLocked_block hp, hwait]

theorem course_usableSize (ptr : Ptr) :
    Course N d (.usableSize ptr) (usableLocked N ptr >>= fun n => .ret (.size n)) := by
  obtain ⟨k, hpost, htail⟩ := toLock_usableLocked (N := N) (d := d) ptr
  refine .goesOn (k := fun r => k r >>= fun n => .ret (.size n)) trivial ?_ ?_
  · rw [toLock_seq, hpost]
  · exact htail.map fun n _ => late_usableSize ptr n

theorem course_call {k : Unit → AllocProg Ret} (hk : c.body N = .op .wait k)
    (hfree : c.FreesBlock N d) : Course N d c (k ()) := by
  cases c with
  | malloc size =>
      exact course_of_atomic hk trivial (isSome_atomic_bind_ret _ _ (isSome_atomic_myMalloc size))
  | free ptr =>
      exact course_of_atomic hk hfree (isSome_atomic_bind_ret _ _ (isSome_atomic_myFree hfree))
  | realloc ptr size =>
      by_cases hnull : ptr = .null
      · subst hnull
        refine course_of_atomic hk (.inl rfl) (isSome_atomic_bind_ret _ _ ?_)
        rw [myRealloc_null]
        exact isSome_atomic_myMalloc size
      by_cases hsize : size = 0
      · subst hsize
        have hsome : (startOf N d ptr).isSome = true := by simpa [Call.FreesBlock, hnull] using hfree
        refine course_of_atomic hk (.inr (by simpa using hsome)) (isSome_atomic_bind_ret _ _ ?_)
        rw [myRealloc, if_neg hnull, if_pos rfl]
        exact isSome_atomic_bind_ret _ _ (isSome_atomic_myFree (.inr hsome))
      · have hbody : (Call.realloc ptr size).body N =
            .op .wait fun _ => reallocLocked N ptr size >>= fun p => .ret (.ptr p) := by
          rw [Call.body, myRealloc_eq hnull hsize]
          rfl
        obtain rfl := eq_of_heq (Prog.op.inj (hbody.symm.trans hk)).2
        exact course_realloc hnull hsize
  | usableSize ptr =>
      by_cases hnull : ptr = .null
      · subst hnull
        cases hk
      · have hbody : (Call.usableSize ptr).body N =
            .op .wait fun _ => usableLocked N ptr >>= fun n => .ret (.size n) := by
          rw [Call.body, myMallocUsableSize_eq hnull]
          rfl
        obtain rfl := eq_of_heq (Prog.op.inj (hbody.symm.trans hk)).2
        exact course_usableSize ptr

/-- A call begins with a wait, but for one. -/
theorem call_eq_wait (hc : c ≠ .usableSize .null) : ∃ k, c.body N = .op .wait k := by
  cases c with
  | malloc size => exact ⟨_, rfl⟩
  | free ptr => exact ⟨_, rfl⟩
  | realloc ptr size =>
      simp only [Call.body, myRealloc]
      split
      · exact ⟨_, rfl⟩
      · split <;> exact ⟨_, rfl⟩
  | usableSize ptr =>
      have hnull : ptr ≠ .null := fun h => hc (by rw [h])
      simp only [Call.body, myMallocUsableSize_eq hnull]
      exact ⟨_, rfl⟩

theorem rest_call (c : Call) : Pool.Rest act (fun c => c.body N) (InStep N) c (c.body N) := by
  by_cases hc : c = .usableSize .null
  · subst hc
    exact .inr (.ret (late_usableSize _ _))
  · obtain ⟨k, hk⟩ := call_eq_wait (N := N) hc
    exact .inl ⟨k, hk, hk⟩

/-- The calls that come to a post are those that give the lock back. -/
theorem postsAt_iff (hfree : c.FreesBlock N d) :
    Pool.PostsAt act (fun c => c.body N) d c ↔ KeepsLock N d c := by
  by_cases hc : c = .usableSize .null
  · subst hc
    exact iff_of_true (fun _ hk => by cases hk) trivial
  obtain ⟨k, hk⟩ := call_eq_wait (N := N) hc
  constructor
  · intro hpost
    obtain ⟨k', hk'⟩ := hpost k hk
    cases course_call hk hfree with
    | returns hkeeps _ _ | goesOn hkeeps _ _ => exact hkeeps
    | leaves _ h | waits _ h =>
        rw [h] at hk'
        cases hk'
  · intro hkeeps k hk
    cases course_call hk hfree with
    | returns _ h _ | goesOn _ h _ => exact ⟨_, congrArg Prod.fst h⟩
    | leaves hno _ | waits hno _ => exact absurd hkeeps hno

theorem keepsAt_call (hN : N * BYTES_PER_FRAME < 2 ^ 31) (hfree : c.FreesBlock N d)
    (hbelow : c.ReallocBelow (2 ^ 35)) :
    Pool.KeepsAt act (fun c => c.body N) (InStep N) d c := by
  intro log k hJ hk
  replace hk : c.body N = .op .wait k := hk
  -- run alone with the lock to be had, the call would do the same
  have halone {v : Ret} {n : Nat} {d' : Region}
      (hrun : runAlone act (k ()) ⟨0, d⟩ = some (v, ⟨n, d'⟩)) : InStep N (log ++ [(c, v)]) d' := by
    rw [InStep, Live.ofCalls_append]
    have hcall : (c.body N).runAlone act ⟨1, d⟩ = some (v, ⟨n, d'⟩) := by
      rw [hk, runAlone, Prog.run_op, handle_wait_succ]
      exact hrun
    exact tracks_call hJ hN (.of_below hbelow) hcall
  cases course_call hk hfree with
  | returns _ h hv =>
      rw [h]
      refine .inl ⟨_, hv, halone (n := afterPost 0) ?_⟩
      rw [runAlone_toLock, h]
      simp [runAlone, hv]
  | goesOn _ h htail =>
      rw [h]
      exact .inr ⟨hJ, htail⟩
  | leaves _ h =>
      rw [h]
      refine halone (n := 0) ?_
      rw [runAlone_toLock, h]
      rfl
  | waits _ h =>
      rw [h]
      trivial

end calls

/-! ## runs -/

/-- A call that frees nothing but `NULL` or a block, and is no resize to `2 ^ 35` bytes or
more. -/
def Call.Proper (N : Nat) (d : Region) (c : Call) : Prop :=
  c.FreesBlock N d ∧ c.ReallocBelow (2 ^ 35)

instance (N : Nat) (d : Region) : DecidablePred (Call.Proper N d) := fun c =>
  inferInstanceAs (Decidable (c.FreesBlock N d ∧ c.ReallocBelow (2 ^ 35)))

/-- Some continuation makes the lock available. -/
abbrev LockUsable (N : Nat) (s : Callers) : Prop :=
  Pool.Usable act (fun c : Call => c.body N) (initRegion N) s

/-- **Any number of threads, any of the four calls.**  Where no thread gets the lock to free
anything but `NULL` or a block, at most one thread is between its wait and its post and no two
live blocks share a frame, whatever is resized; and the lock can be had again at every point of
the run exactly where each call that gets it finds the table so that it gives it back. -/
theorem callers_of_run {N : Nat} (hN : N * BYTES_PER_FRAME < 2 ^ 31)
    {tr : List (Callers × PoolStep Call)} {s : Callers} (h : (callers N).Run tr s)
    (hproper : ∀ p ∈ tr, Pool.Getting (Call.Proper N) p.1 p.2) :
    (∀ t u, (s.threads t).inside = true → (s.threads u).inside = true → t = u) ∧
      ((Live.ofCalls s.completed).Pairwise fun b c => ∀ j, ¬ (Occupies b j ∧ Occupies c j)) ∧
      (((∀ p ∈ tr, LockUsable N p.1) ∧ LockUsable N s) ↔
        ∀ p ∈ tr, Pool.Getting (KeepsLock N) p.1 p.2) := by
  have hkeeps : ∀ p ∈ tr, Pool.Getting (Pool.KeepsAt act (fun c : Call => c.body N) (InStep N))
      p.1 p.2 := fun p hp => (hproper p hp).imp fun _ _ hc => keepsAt_call hN hc.1 hc.2
  have hJu : ∀ g log d, Unseen act g → InStep N log d → InStep N log (g d) :=
    fun _ _ _ hg => InStep.unseen hg
  have hinv := Pool.poolInv_of_run rest_call hJu (tracks_initRegion N) h hkeeps
  obtain ⟨d, htracks⟩ := hinv.keeps
  refine ⟨fun t u ht hu => hinv.inside_unique ht hu, Tracks.disjoint htracks, ?_⟩
  rw [Pool.usable_iff rest_call hJu (tracks_initRegion N) h hkeeps]
  refine forall₂_congr fun p hp => ?_
  exact (hproper p hp).congr fun _ _ hc => postsAt_iff hc.1

/-- Thread 0 takes a block and cuts it to one frame, while thread 1 asks for the size of a block
that there is not; … -/
def cutOneFrame : List (PoolStep Call) :=
  [.call 0 (.malloc 64), .call 1 (.usableSize (frameAddr 5))] ++
    List.replicate (NUM_OF_FRAMES + 8) (.step 0) ++ [.call 0 (.realloc (frameAddr 0) 32)] ++
    List.replicate 3 (.step 1) ++ List.replicate 12 (.step 0)

/-- … then thread 0 resizes the block to the size that it has. -/
def cutThenSame : List (PoolStep Call) :=
  cutOneFrame ++ [.call 0 (.realloc (frameAddr 0) 32)] ++ List.replicate 5 (.step 0)

theorem callers_of_run_cutThenSame :
    ∃ s, (callers NUM_OF_FRAMES).Run
        ((callers NUM_OF_FRAMES).trace (initCallers NUM_OF_FRAMES) cutThenSame) s ∧
      Live.ofCalls s.completed = [(frameAddr 0, 32)] ∧
      ¬ ((∀ p ∈ (callers NUM_OF_FRAMES).trace (initCallers NUM_OF_FRAMES) cutThenSame,
        LockUsable NUM_OF_FRAMES p.1) ∧ LockUsable NUM_OF_FRAMES s) := by
  obtain ⟨s, hrun, hs⟩ := Machine.exists_run_of_exec (M := callers NUM_OF_FRAMES)
    (s := initCallers NUM_OF_FRAMES) rfl cutThenSame
    (b := fun s : Callers => decide (Live.ofCalls s.completed = [(frameAddr 0, 32)]))
    (by decide +kernel)
  refine ⟨s, hrun, of_decide_eq_true hs, ?_⟩
  rw [(callers_of_run (by decide) hrun (by decide +kernel)).2.2]
  decide +kernel

end Cmsc421.Alloc
