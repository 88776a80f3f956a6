import Cmsc421.Alloc.Sections

/-!
# Cmsc421.Alloc.Realloc

What `my_realloc` does to the data and to the lock.

The loop that cuts a block is run on its own first: it always comes to its end,
within the fuel it is given, and a proper cut frees the frames past the new
length.  `myRealloc_cases` then says all that a resize can do, the paths on which
it keeps the lock or waits for itself among them.
-/

namespace Cmsc421.Alloc

open LockProg

/-! ## the cutting loop of my_realloc -/

/-- One round of the loop. -/
theorem dataRun_cutLoop_succ (i n fuel j : Nat) (d : Region) :
    dataRun act (cutLoop i n (fuel + 1) j) d =
      if j < uadd i (d.totalFlags i).numOfFrames then
        dataRun act (cutLoop i n fuel (j + 1)) (if uadd i n ≤ j then d.setFlag j freeFlag else d)
      else some ((), d) := by
  rw [cutLoop, dataRun_bind, dataRun_readNum]
  dsimp only [Option.bind_some]
  split
  · split
    · rw [dataRun_bind, dataRun_writeFlag]
      rfl
    · rfl
  · rfl

/-- The loop only works on the data, and always comes to its end. -/
theorem dataRun_cutLoop (i n fuel j : Nat) (d : Region) :
    ∃ d', dataRun act (cutLoop i n fuel j) d = some ((), d') := by
  induction fuel generalizing j d with
  | zero => exact ⟨d, rfl⟩
  | succ fuel ih =>
      rw [dataRun_cutLoop_succ]
      split
      · exact ih _ _
      · exact ⟨d, rfl⟩

/-- Cutting a block writes the table only. -/
theorem cutLoop_writes {i n fuel j : Nat} {d d' : Region}
    (h : dataRun act (cutLoop i n fuel j) d = some ((), d')) :
    d' = { d with totalFlags := d'.totalFlags } := by
  induction fuel generalizing j d with
  | zero =>
      obtain ⟨-, rfl⟩ := Prod.mk.inj (Option.some.inj h)
      rfl
  | succ fuel ih =>
      rw [dataRun_cutLoop_succ] at h
      split at h
      · have hrest := ih h
        split at hrest <;> exact hrest
      · obtain ⟨-, rfl⟩ := Prod.mk.inj (Option.some.inj h)
        rfl

/-- One round more than the block has frames is enough: the loop never runs out
of fuel.  Where the cut reaches frame `i` itself, its length becomes zero and the
next test ends the loop. -/
theorem cutLoop_fuel {i n fuel j : Nat} {d : Region} (hij : i ≤ j)
    (h : uadd i (d.totalFlags i).numOfFrames < j + fuel) :
    dataRun act (cutLoop i n (fuel + 1) j) d = dataRun act (cutLoop i n fuel j) d := by
  induction fuel generalizing j d with
  | zero =>
      rw [dataRun_cutLoop_succ, if_neg (by omega)]
      rfl
  | succ fuel ih =>
      rw [dataRun_cutLoop_succ i n (fuel + 1) j, dataRun_cutLoop_succ i n fuel j]
      split
      · refine ih (by omega) ?_
        split
        · by_cases hj : i = j
          · subst hj
            have : uadd i 0 ≤ i := Nat.mod_le _ _
            simp only [Region.setFlag, Function.update_self, freeFlag]
            omega
          · simp only [Region.setFlag, Function.update_of_ne hj]
            omega
        · omega
      · rfl

/-- A proper cut frees the frames from `i + n` on. -/
theorem dataRun_cutLoop_eq {i n k fuel j : Nat} {d : Region} (hn : 0 < n) (hw : i + k < 2 ^ 32)
    (hnk : n < k) (hnum : (d.totalFlags i).numOfFrames = k) (hf : i + k < j + fuel) :
    dataRun act (cutLoop i n fuel j) d = some ((), d.fill freeFlag (max j (i + n)) (i + k)) := by
  induction fuel generalizing j d with
  | zero =>
      rw [fill_empty (by omega)]
      rfl
  | succ fuel ih =>
      have hk : uadd i k = i + k := Nat.mod_eq_of_lt hw
      have hn' : uadd i n = i + n := Nat.mod_eq_of_lt (by omega)
      rw [dataRun_cutLoop_succ, hnum, hk, hn']
      split
      · split
        · have hne : i ≠ j := by omega
          rw [ih (by simpa [Region.setFlag, hne] using hnum) (by omega),
            show max (j + 1) (i + n) = j + 1 by omega, show max j (i + n) = j by omega,
            fill_succ (by omega)]
        · rw [ih hnum (by omega), show max (j + 1) (i + n) = max j (i + n) by omega]
      · rw [fill_empty (by omega)]

/-! ## my_realloc -/

/-- `NULL`: as `my_malloc`. -/
theorem myRealloc_null (N size : Nat) : myRealloc N .null size = myMalloc N size := if_pos rfl

/-- Size zero: as `my_free`. -/
theorem runAlone_myRealloc_zero {N : Nat} {ptr : Ptr} (hnull : ptr ≠ .null) (s : Shared Region) :
    (myRealloc N ptr 0).runAlone act s =
      ((myFree N ptr).runAlone act s).map fun r => (.null, r.2) := by
  rw [myRealloc, if_neg hnull, if_pos rfl]
  exact runAlone_bind_ret act _ _ s

/-- A pointer to no block: one post, and the signal. -/
theorem runAlone_myRealloc_fault {N size m : Nat} {d : Region} {ptr : Ptr} (hnull : ptr ≠ .null)
    (hsize : size ≠ 0) (h : startOf N d ptr = none) :
    (myRealloc N ptr size).runAlone act ⟨m + 1, d⟩ =
      some (.null, ⟨afterPost m, { d with faults := d.faults + 1 }⟩) := by
  rw [myRealloc, if_neg hnull, if_neg hsize]
  simp only [semWait, Prog.perform_bind, runAlone, Prog.run_op, handle_wait_succ, Option.bind_some]
  cases hframe : frameOf N ptr with
  | none => rfl
  | some i =>
      refine (runAlone_bind act (dataRun_notAllocated i d)).trans ?_
      rw [notAllocated_of_startOf h hframe]
      rfl

/-- A pointer to a block: the work on the block, with the lock taken. -/
theorem runAlone_myRealloc_block {N size m i : Nat} {d : Region} {ptr : Ptr} (hsize : size ≠ 0)
    (h : startOf N d ptr = some i) :
    (myRealloc N ptr size).runAlone act ⟨m + 1, d⟩ = (reallocAt N i size).runAlone act ⟨m, d⟩ := by
  obtain ⟨hframe, hflag⟩ := Option.filter_eq_some_iff.mp h
  rw [myRealloc, if_neg (ne_null_of_startOf h), if_neg hsize]
  simp only [semWait, Prog.perform_bind, runAlone, Prog.run_op, handle_wait_succ, Option.bind_some,
    hframe]
  refine (runAlone_bind act (dataRun_notAllocated i d)).trans ?_
  rw [hflag, Bool.not_true, if_neg Bool.false_ne_true]

/-- A smaller size: the block is cut, with one post. -/
theorem runAlone_reallocAt_cut {N i size m : Nat} {d d' : Region}
    (h : uint32 (numOfFrames size) < (d.totalFlags i).numOfFrames)
    (hcut : dataRun act (cutLoop i (uint32 (numOfFrames size))
      ((d.totalFlags i).numOfFrames + 1) i) d = some ((), d')) :
    (reallocAt N i size).runAlone act ⟨m, d⟩ =
      some (frameAddr i, ⟨afterPost m,
        d'.setFlag i { d'.totalFlags i with numOfFrames := uint32 (numOfFrames size) }⟩) := by
  rw [reallocAt, runAlone_bind act (dataRun_readNum i d), if_pos h, runAlone_bind act hcut,
    runAlone_bind act (dataRun_writeNum _ _ _)]
  rfl

/-- The same size: nothing is done, and nothing is posted. -/
theorem runAlone_reallocAt_same {N i size m : Nat} {d : Region}
    (h : uint32 (numOfFrames size) = (d.totalFlags i).numOfFrames) :
    (reallocAt N i size).runAlone act ⟨m, d⟩ = some (.null, ⟨m, d⟩) := by
  rw [reallocAt, runAlone_bind act (dataRun_readNum i d), if_neg (by omega),
    runAlone_bind act (dataRun_readNum i d), if_neg (by omega)]
  rfl

/-- A larger size while the semaphore is zero: `my_malloc` waits for the lock its
caller holds. -/
theorem runAlone_reallocAt_blocked {N i size : Nat} {d : Region}
    (h : (d.totalFlags i).numOfFrames < uint32 (numOfFrames size)) :
    (reallocAt N i size).runAlone act ⟨0, d⟩ = none := by
  rw [reallocAt, runAlone_bind act (dataRun_readNum i d), if_neg (by omega),
    runAlone_bind act (dataRun_readNum i d), if_pos h, runAlone_call_zero]
  rw [atomic_myMalloc, Option.isSome_some]

/-- A larger size for which there is no room. -/
theorem runAlone_reallocAt_full {N i size m : Nat} {d d' : Region}
    (h : (d.totalFlags i).numOfFrames < uint32 (numOfFrames size))
    (hm : mallocResult N size d = (.null, d')) :
    (reallocAt N i size).runAlone act ⟨m + 1, d⟩ =
      some (.null, ⟨afterPost (afterPost m), { d' with errno := ENOMEM }⟩) := by
  have hcall : atomic act (myMalloc N size) d = some (.null, d') := by rw [atomic_myMalloc, hm]
  rw [reallocAt, runAlone_bind act (dataRun_readNum i d), if_neg (by omega),
    runAlone_bind act (dataRun_readNum i d), if_pos h, runAlone_call act hcall]
  rfl

/-- A larger size for which there is room: the block is copied and freed, and
there is one more post. -/
theorem runAlone_reallocAt_move {N i size m : Nat} {off : Int} {d d' : Region}
    (h : (d.totalFlags i).numOfFrames < uint32 (numOfFrames size))
    (hm : mallocResult N size d = (.mem off, d')) :
    (reallocAt N i size).runAlone act ⟨m + 1, d⟩ =
      ((myFree N (frameAddr i)).runAlone act ⟨afterPost m, d'.copy off i⟩).map
        fun r => (.mem off, ⟨afterPost r.2.sem, r.2.data⟩) := by
  have hcall : atomic act (myMalloc N size) d = some (.mem off, d') := by rw [atomic_myMalloc, hm]
  rw [reallocAt, runAlone_bind act (dataRun_readNum i d), if_neg (by omega),
    runAlone_bind act (dataRun_readNum i d), if_pos h, runAlone_call act hcall]
  dsimp only
  rw [runAlone_bind act (dataRun_readNum i d'), runAlone_bind act (dataRun_memcpy _ _ _ _),
    ← Region.copy, runAlone, Prog.run_bind, Option.map_eq_bind]
  rfl

/-- **All that a resize of a pointer can do**, with the semaphore at some value:
wait forever, fault, cut the block, leave it with the lock taken, wait forever
for the lock it holds, find no room, or move the block. -/
inductive ReallocOutcome (N : Nat) (ptr : Ptr) (size : Nat) (d : Region) :
    Nat → Option (Ptr × Shared Region) → Prop
  | waits : ReallocOutcome N ptr size d 0 none
  | faulted {m : Nat} (hp : startOf N d ptr = none) :
      ReallocOutcome N ptr size d (m + 1)
        (some (.null, ⟨afterPost m, { d with faults := d.faults + 1 }⟩))
  | cut {m i : Nat} {d' : Region} (hp : startOf N d ptr = some i)
      (hlt : uint32 (numOfFrames size) < (d.totalFlags i).numOfFrames)
      (hcut : dataRun act (cutLoop i (uint32 (numOfFrames size))
        ((d.totalFlags i).numOfFrames + 1) i) d = some ((), d')) :
      ReallocOutcome N ptr size d (m + 1)
        (some (frameAddr i, ⟨afterPost m,
          d'.setFlag i { d'.totalFlags i with numOfFrames := uint32 (numOfFrames size) }⟩))
  | same {m i : Nat} (hp : startOf N d ptr = some i)
      (heq : uint32 (numOfFrames size) = (d.totalFlags i).numOfFrames) :
      ReallocOutcome N ptr size d (m + 1) (some (.null, ⟨m, d⟩))
  | waitsInside {i : Nat} (hp : startOf N d ptr = some i)
      (hgt : (d.totalFlags i).numOfFrames < uint32 (numOfFrames size)) :
      ReallocOutcome N ptr size d 1 none
  | full {m i : Nat} {d' : Region} (hp : startOf N d ptr = some i)
      (hgt : (d.totalFlags i).numOfFrames < uint32 (numOfFrames size))
      (hm : mallocResult N size d = (.null, d')) :
      ReallocOutcome N ptr size d (m + 2)
        (some (.null, ⟨afterPost (afterPost m), { d' with errno := ENOMEM }⟩))
  | moved {m i : Nat} {off : Int} {d' : Region} (hp : startOf N d ptr = some i)
      (hgt : (d.totalFlags i).numOfFrames < uint32 (numOfFrames size))
      (hm : mallocResult N size d = (.mem off, d')) :
      ReallocOutcome N ptr size d (m + 2)
        (((myFree N (frameAddr i)).runAlone act ⟨afterPost m, d'.copy off i⟩).map
          fun r => (.mem off, ⟨afterPost r.2.sem, r.2.data⟩))

theorem myRealloc_cases (N : Nat) {ptr : Ptr} {size : Nat} (hnull : ptr ≠ .null) (hsize : size ≠ 0)
    (d : Region) (m : Nat) :
    ReallocOutcome N ptr size d m ((myRealloc N ptr size).runAlone act ⟨m, d⟩) := by
  cases m with
  | zero =>
      have hwait : (myRealloc N ptr size).runAlone act ⟨0, d⟩ = none := by
        simp [myRealloc, hnull, hsize, semWait, runAlone]
      rw [hwait]
      exact .waits
  | succ m =>
      cases hp : startOf N d ptr with
      | none =>
          rw [runAlone_myRealloc_fault hnull hsize hp]
          exact .faulted hp
      | some i =>
          rw [runAlone_myRealloc_block hsize hp]
          rcases Nat.lt_trichotomy (uint32 (numOfFrames size)) (d.totalFlags i).numOfFrames with
            hlt | heq | hgt
          · obtain ⟨d', hcut⟩ := dataRun_cutLoop i (uint32 (numOfFrames size))
              ((d.totalFlags i).numOfFrames + 1) i d
            rw [runAlone_reallocAt_cut hlt hcut]
            exact .cut hp hlt hcut
          · rw [runAlone_reallocAt_same heq]
            exact .same hp heq
          · cases m with
            | zero =>
                rw [runAlone_reallocAt_blocked hgt]
                exact .waitsInside hp hgt
            | succ m =>
                obtain ⟨q, d', hm⟩ : ∃ q d', mallocResult N size d = (q, d') := ⟨_, _, rfl⟩
                cases q with
                | null =>
                    rw [runAlone_reallocAt_full hgt hm]
                    exact .full hp hgt hm
                | mem off =>
                    rw [runAlone_reallocAt_move hgt hm]
                    exact .moved hp hgt hm

/-! ## calls -/

section calls

variable (N : Nat) (s : Shared Region)

theorem runAlone_malloc (size : Nat) :
    ((Call.malloc size).body N).runAlone act s =
      ((myMalloc N size).runAlone act s).map fun r => (.ptr r.1, r.2) :=
  runAlone_bind_ret act _ _ s

theorem runAlone_free (ptr : Ptr) :
    ((Call.free ptr).body N).runAlone act s =
      ((myFree N ptr).runAlone act s).map fun r => (.void, r.2) :=
  runAlone_bind_ret act _ _ s

theorem runAlone_realloc (ptr : Ptr) (size : Nat) :
    ((Call.realloc ptr size).body N).runAlone act s =
      ((myRealloc N ptr size).runAlone act s).map fun r => (.ptr r.1, r.2) :=
  runAlone_bind_ret act _ _ s

theorem runAlone_usableSize (ptr : Ptr) :
    ((Call.usableSize ptr).body N).runAlone act s =
      ((myMallocUsableSize N ptr).runAlone act s).map fun r => (.size r.1, r.2) :=
  runAlone_bind_ret act _ _ s

/-- What a call that returns comes to. -/
inductive Call.Effect : Call → Ret → Shared Region → Prop
  | malloc {size : Nat} {p : Ptr} {s' : Shared Region}
      (h : (myMalloc N size).runAlone act s = some (p, s')) : Effect (.malloc size) (.ptr p) s'
  | free {ptr : Ptr} {s' : Shared Region} (h : (myFree N ptr).runAlone act s = some ((), s')) :
      Effect (.free ptr) .void s'
  | realloc {ptr : Ptr} {size : Nat} {p : Ptr} {s' : Shared Region}
      (h : (myRealloc N ptr size).runAlone act s = some (p, s')) :
      Effect (.realloc ptr size) (.ptr p) s'
  | usableSize {ptr : Ptr} {n : Nat} {s' : Shared Region}
      (h : (myMallocUsableSize N ptr).runAlone act s = some (n, s')) :
      Effect (.usableSize ptr) (.size n) s'

variable {N s}

/-- Every call that returns has one of the effects. -/
theorem call_cases {c : Call} {r : Ret} {s' : Shared Region}
    (hr : (c.body N).runAlone act s = some (r, s')) : c.Effect N s r s' := by
  cases c with
  | malloc size =>
      rw [runAlone_malloc, Option.map_eq_some_iff] at hr
      obtain ⟨⟨p, t⟩, hp, heq⟩ := hr
      obtain ⟨rfl, rfl⟩ := Prod.mk.inj heq
      exact .malloc hp
  | free ptr =>
      rw [runAlone_free, Option.map_eq_some_iff] at hr
      obtain ⟨⟨u, t⟩, hu, heq⟩ := hr
      obtain ⟨rfl, rfl⟩ := Prod.mk.inj heq
      exact .free hu
  | realloc ptr size =>
      rw [runAlone_realloc, Option.map_eq_some_iff] at hr
      obtain ⟨⟨p, t⟩, hp, heq⟩ := hr
      obtain ⟨rfl, rfl⟩ := Prod.mk.inj heq
      exact .realloc hp
  | usableSize ptr =>
      rw [runAlone_usableSize, Option.map_eq_some_iff] at hr
      obtain ⟨⟨n, t⟩, hn, heq⟩ := hr
      obtain ⟨rfl, rfl⟩ := Prod.mk.inj heq
      exact .usableSize hn

end calls

end Cmsc421.Alloc
