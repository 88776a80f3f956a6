import Cmsc421.Alloc.Grants

/-!
# Cmsc421.Alloc.Refusal

What the allocator leaves behind when it refuses a request.

A refusal is reported if, whatever `errno` was, it is `ENOMEM` afterwards and nothing
else has changed.  Finding no room is reported, by `my_malloc` and, once more, by
`my_realloc`.  Two refusals are not: `my_malloc` of more than the whole memory, and
`my_realloc` to the size the block has, which keeps the lock on top.  `reports_iff`
says that these are all, next to the resize of what is no block.
-/

namespace Cmsc421.Alloc

open LockProg

/-- If the call returns `NULL`, it has set `errno` to `ENOMEM`, and table, memory and
semaphore are as before. -/
def Reports (N : Nat) (s : Shared Region) (c : Call) : Prop :=
  ∀ e s', (c.body N).runAlone act ⟨s.sem, { s.data with errno := e }⟩ = some (.ptr .null, s') →
    s'.data.errno = ENOMEM ∧ s'.data.totalFlags = s.data.totalFlags ∧
    s'.data.totalMem = s.data.totalMem ∧ s'.sem = s.sem

/-- The requests whose refusal is reported, on the table they find: for a new block, at
most the whole memory; for a block that there is, some other number of frames. -/
def Reported (N : Nat) (d : Region) : Call → Prop
  | .malloc size => size ≤ N * BYTES_PER_FRAME
  | .realloc ptr size =>
      if ptr = .null then size ≤ N * BYTES_PER_FRAME
      else ∃ i ∈ startOf N d ptr, frames size % 2 ^ 32 ≠ (d.totalFlags i).numOfFrames
  | .free _ | .usableSize _ => True

section reports

variable {N size : Nat} {s : Shared Region}

theorem zero_ne_ENOMEM : (0 : Int) ≠ ENOMEM := by decide

/-- The refusals of `my_malloc`. -/
theorem mallocResult_null {d d' : Region} (hpos : 0 < size)
    (h : mallocResult N size d = (.null, d')) :
    (N * BYTES_PER_FRAME < size ∧ d' = d) ∨
      (size ≤ N * BYTES_PER_FRAME ∧ d' = { d with errno := ENOMEM }) := by
  unfold mallocResult at h
  split at h
  · next hrefused =>
      obtain ⟨-, rfl⟩ := Prod.mk.inj h
      exact .inl ⟨by omega, rfl⟩
  · dsimp only at h
    split at h
    · exact absurd (Prod.mk.inj h).1 nofun
    · obtain ⟨-, rfl⟩ := Prod.mk.inj h
      exact .inr ⟨by omega, rfl⟩

/-- A request for a new block. -/
theorem reports_malloc (hsem : s.sem ≤ SEM_VALUE_MAX) (hpos : 0 < size) :
    Reports N s (.malloc size) ↔ (0 < s.sem → size ≤ N * BYTES_PER_FRAME) := by
  obtain ⟨m, d⟩ := s
  unfold Reports
  simp only [runAlone_malloc, Option.map_eq_some_iff]
  cases m with
  | zero =>
      refine iff_of_true ?_ (fun h => absurd h (Nat.lt_irrefl 0))
      rintro e s' ⟨r, hr, -⟩
      rw [runAlone_zero_of_atomic act (by rw [atomic_myMalloc, Option.isSome_some])] at hr
      contradiction
  | succ m =>
      simp only [Nat.succ_pos, true_implies]
      constructor
      · intro h
        by_contra hlarge
        have hrefused : mallocResult N size { d with errno := 0 } = (.null, { d with errno := 0 }) :=
          if_pos (.inr (Nat.lt_of_not_ge hlarge))
        have hcall := runAlone_myMalloc N size m { d with errno := 0 }
        rw [hrefused] at hcall
        exact zero_ne_ENOMEM (h 0 _ ⟨_, hcall, rfl⟩).1
      · rintro hfits e s' ⟨⟨p, t⟩, hr, heq⟩
        obtain ⟨hp, rfl⟩ := Prod.mk.inj heq
        obtain rfl := Ret.ptr.inj hp
        obtain ⟨q, d', hm⟩ : ∃ q d', mallocResult N size { d with errno := e } = (q, d') :=
          ⟨_, _, rfl⟩
        rw [runAlone_myMalloc, hm] at hr
        obtain ⟨rfl, rfl⟩ := Prod.mk.inj (Option.some.inj hr)
        obtain ⟨hlarge, -⟩ | ⟨-, rfl⟩ := mallocResult_null hpos hm
        · omega
        · exact ⟨rfl, rfl, rfl, afterPost_of_lt hsem⟩

/-- A request to resize. -/
theorem reports_realloc (hsem : s.sem ≤ SEM_VALUE_MAX) (hpos : 0 < size) {ptr : Ptr}
    (hnull : ptr ≠ .null) :
    Reports N s (.realloc ptr size) ↔ (0 < s.sem → ∃ i ∈ startOf N s.data ptr,
      frames size % 2 ^ 32 ≠ (s.data.totalFlags i).numOfFrames) := by
  obtain ⟨m, d⟩ := s
  have hsize := Nat.pos_iff_ne_zero.mp hpos
  unfold Reports
  simp only [runAlone_realloc, Option.map_eq_some_iff, ← uint32_numOfFrames_mod]
  constructor
  · intro h hlock
    have hcases := myRealloc_cases N hnull hsize { d with errno := 0 } m
    generalize hr : (myRealloc N ptr size).runAlone act ⟨m, { d with errno := 0 }⟩ = res at hcases
    cases hcases with
    | waits => exact absurd hlock (Nat.lt_irrefl 0)
    | faulted => exact absurd (h 0 _ ⟨_, hr, rfl⟩).1 zero_ne_ENOMEM
    | same => exact absurd (h 0 _ ⟨_, hr, rfl⟩).1 zero_ne_ENOMEM
    | cut hp hlt => exact ⟨_, hp, hlt.ne⟩
    | waitsInside hp hgt | full hp hgt | moved hp hgt => exact ⟨_, hp, hgt.ne'⟩
  · rintro hother e s' ⟨⟨p, t⟩, hr, heq⟩
    obtain ⟨hp, rfl⟩ := Prod.mk.inj heq
    obtain rfl := Ret.ptr.inj hp
    have hcases := myRealloc_cases N hnull hsize { d with errno := e } m
    generalize (myRealloc N ptr size).runAlone act ⟨m, { d with errno := e }⟩ = res at hr hcases
    cases hcases with
    | waits | waitsInside => simp at hr
    | cut => exact absurd (Prod.mk.inj (Option.some.inj hr)).1 nofun
    | moved =>
        obtain ⟨_, _, heq⟩ := Option.map_eq_some_iff.mp hr
        exact absurd (Prod.mk.inj heq).1 nofun
    | faulted hp =>
        obtain ⟨i, hi, -⟩ := hother (Nat.succ_pos _)
        exact absurd (hp.symm.trans hi) nofun
    | same hp heq =>
        obtain ⟨i, hi, hne⟩ := hother (Nat.succ_pos _)
        obtain rfl := Option.some.inj (hp.symm.trans hi)
        exact absurd heq hne
    | @full m i d' hp hgt hm =>
        obtain ⟨-, rfl⟩ := Prod.mk.inj (Option.some.inj hr)
        have hlt : m + 1 < SEM_VALUE_MAX := hsem
        have hsem : afterPost (afterPost m) = m + 2 := by
          rw [afterPost_of_lt (v := m) (by omega), afterPost_of_lt hlt]
        obtain ⟨-, rfl⟩ | ⟨-, rfl⟩ := mallocResult_null hpos hm <;>
          exact ⟨rfl, rfl, rfl, hsem⟩

end reports

/-! ## sessions -/

/-- The semaphore of a session stays within its bounds. -/
theorem session_sem_le {N : Nat} {tr : List (Option (Shared Region) × Call)}
    {st : Option (Shared Region)} (h : (session N).Run tr st) : ∀ s ∈ st, s.sem ≤ SEM_VALUE_MAX := by
  refine h.invariant (I := fun _ st => ∀ s ∈ st, s.sem ≤ SEM_VALUE_MAX) ?_ ?_
  · intro st hst s hs
    rw [eq_initSession hst] at hs
    obtain rfl := Option.some.inj hs
    exact (by decide : 1 ≤ SEM_VALUE_MAX)
  · intro _ st c st' hI hstep s' hs'
    rw [Option.mem_def.mp hs'] at hstep
    obtain ⟨s, r, rfl, hr⟩ := session_step hstep
    exact sem_le_of_runAlone act hr (hI s rfl)

/-- **When a refusal is reported**: after every session, a request for a positive size
that returns `NULL` has set `errno` to `ENOMEM` and changed nothing else, exactly when it
does not get the lock or is one of those in `Reported`. -/
theorem reports_iff {N : Nat} {tr : List (Option (Shared Region) × Call)} {s : Shared Region}
    (h : (session N).Run tr (some s)) {c : Call} {size : Nat} (hsize : size ∈ c.asked)
    (hpos : 0 < size) : Reports N s c ↔ (0 < s.sem → Reported N s.data c) := by
  have hsem := session_sem_le h s rfl
  cases c with
  | malloc n =>
      obtain rfl := Option.some.inj hsize
      exact reports_malloc hsem hpos
  | realloc ptr n =>
      obtain rfl := Option.some.inj hsize
      by_cases hnull : ptr = .null
      · subst hnull
        have hsame : Reports N s (.realloc .null n) ↔ Reports N s (.malloc n) := by
          simp only [Reports, runAlone_realloc, runAlone_malloc, myRealloc_null]
        rw [hsame, reports_malloc hsem hpos, Reported, if_pos rfl]
      · rw [reports_realloc hsem hpos hnull, Reported, if_neg hnull]
  | free ptr | usableSize ptr => simp [Call.asked] at hsize

/-- After these calls the request is refused: it returns `NULL` and sets `errno`, and table,
memory and semaphore are as before. -/
def RefusedAfter (N : Nat) (calls : List Call) (c : Call) : Prop :=
  ∃ s s', (session N).Run ((session N).trace (initSession N) calls) (some s) ∧
    (c.body N).runAlone act s = some (.ptr .null, s') ∧ s'.data.errno = ENOMEM ∧
    s'.data.totalFlags = s.data.totalFlags ∧ s'.data.totalMem = s.data.totalMem ∧ s'.sem = s.sem

/-- The table is full, and the block is released twice, so that a resize that grows it can take
the lock again inside. -/
def fullTable : List Call :=
  [.malloc 32, .free (frameAddr 0), .free (frameAddr 0), .malloc 64, .malloc 320]

/-- In a full table a request for a new block and one for a greater block are refused. -/
theorem reports_iff_fullTable :
    RefusedAfter NUM_OF_FRAMES [.malloc 384] (.malloc 32) ∧
      RefusedAfter NUM_OF_FRAMES fullTable (.realloc (frameAddr 0) 100) := by
  constructor
  · obtain ⟨s, hrun, hs⟩ := exists_session_of_exec NUM_OF_FRAMES [.malloc 384]
      (b := fun s => (((Call.malloc 32).body NUM_OF_FRAMES).runAlone act s).any
        fun r : Ret × Shared Region => decide (r.1 = .ptr .null)) (by decide +kernel)
    obtain ⟨⟨r, s'⟩, hr, hnull⟩ := (Option.any_eq_true _ _).mp hs
    obtain rfl := of_decide_eq_true hnull
    have hreports : Reports NUM_OF_FRAMES s (.malloc 32) :=
      (reports_iff hrun rfl (by decide)).mpr
        fun _ => (by decide : 32 ≤ NUM_OF_FRAMES * BYTES_PER_FRAME)
    exact ⟨s, s', hrun, hr, hreports s.data.errno s' hr⟩
  · obtain ⟨s, hrun, hs⟩ := exists_session_of_exec NUM_OF_FRAMES fullTable
      (b := fun s => decide (startOf NUM_OF_FRAMES s.data (frameAddr 0) = some 0 ∧
        (s.data.totalFlags 0).numOfFrames = 2) &&
        (((Call.realloc (frameAddr 0) 100).body NUM_OF_FRAMES).runAlone act s).any
          fun r : Ret × Shared Region => decide (r.1 = .ptr .null)) (by decide +kernel)
    simp only [Bool.and_eq_true, decide_eq_true_eq] at hs
    obtain ⟨⟨hstart, hnum⟩, hany⟩ := hs
    obtain ⟨⟨r, s'⟩, hr, hnull⟩ := (Option.any_eq_true _ _).mp hany
    obtain rfl := of_decide_eq_true hnull
    have hother : Reported NUM_OF_FRAMES s.data (.realloc (frameAddr 0) 100) := by
      rw [Reported, if_neg (by decide)]
      exact ⟨0, hstart, by rw [hnum]; decide⟩
    have hreports : Reports NUM_OF_FRAMES s (.realloc (frameAddr 0) 100) :=
      (reports_iff hrun rfl (by decide)).mpr fun _ => hother
    exact ⟨s, s', hrun, hr, hreports s.data.errno s' hr⟩

/-- The first request, of one byte more than there is, and a resize of the first block
to its own size: neither refusal is reported. -/
theorem unreported :
    (session NUM_OF_FRAMES).Run [] (initSession NUM_OF_FRAMES) ∧
    ¬ Reports NUM_OF_FRAMES ⟨1, initRegion NUM_OF_FRAMES⟩ (.malloc 385) ∧
    ∃ s, (session NUM_OF_FRAMES).Run
        ((session NUM_OF_FRAMES).trace (initSession NUM_OF_FRAMES) [.malloc 32]) (some s) ∧
      ¬ Reports NUM_OF_FRAMES s (.realloc (frameAddr 0) 32) := by
  have hinit := session_init NUM_OF_FRAMES
  refine ⟨.start hinit, ?_, ?_⟩
  · rw [reports_malloc (by decide) (by decide)]
    exact fun h => absurd (h (by decide)) (by decide)
  · obtain ⟨st, hrun, hst⟩ := Machine.exists_run_of_exec hinit [.malloc 32]
      (b := fun st => st.any fun s : Shared Region =>
        decide (s.sem = 1 ∧ startOf NUM_OF_FRAMES s.data (frameAddr 0) = some 0 ∧
          (s.data.totalFlags 0).numOfFrames = 1)) (by decide +kernel)
    obtain ⟨s, rfl, hs⟩ := (Option.any_eq_true _ _).mp hst
    obtain ⟨hsem, hstart, hnum⟩ := of_decide_eq_true hs
    refine ⟨s, hrun, ?_⟩
    have hnull : frameAddr 0 ≠ .null := nofun
    rw [reports_realloc (session_sem_le hrun s rfl) (by decide) hnull]
    intro h
    obtain ⟨i, hi, hne⟩ := h (by omega)
    obtain rfl := Option.some.inj (hstart.symm.trans hi)
    exact hne (by rw [hnum]; rfl)

end Cmsc421.Alloc
