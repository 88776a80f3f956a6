import Cmsc421.Alloc.Live

/-!
# Cmsc421.Alloc.Session

One thread that makes call after call, and the table as it finds it.

`Partition` spells out what the table says about its frames, in terms of the
table alone: the frames with `start_frame` set start disjoint blocks, these are
the live ones, and every other frame is clean.  It holds after every sequence of
completed calls (`partition_of_run`), whether or not the calls leave the lock as
they should.
-/

namespace Cmsc421.Alloc

open LockProg

/-- Frame `j` is in the block that starts at frame `i`. -/
def InBlock (flags : Nat → MemFlag) (i j : Nat) : Prop :=
  (flags i).startFrame = true ∧ i ≤ j ∧ j < i + (flags i).numOfFrames

/-- The table describes a partition of the frames into the live blocks and clean
frames. -/
structure Partition (N : Nat) (flags : Nat → MemFlag) (L : Live) : Prop where
  start : ∀ i < N, (flags i).startFrame = true →
    (flags i).free = false ∧ 1 ≤ (flags i).numOfFrames ∧ i + (flags i).numOfFrames ≤ N
  inner : ∀ i < N, ∀ j, InBlock flags i j → i < j →
    (flags j).free = false ∧ (flags j).startFrame = false
  apart : ∀ i < N, ∀ k < N, i ≠ k → ∀ j, ¬ (InBlock flags i j ∧ InBlock flags k j)
  live : ∀ ptr n,
    (∃ i < N, ptr = frameAddr i ∧ (flags i).startFrame = true ∧ (flags i).numOfFrames = n) ↔
      ∃ size, (ptr, size) ∈ L ∧ n = frames size
  once : (L.map Prod.fst).Nodup
  rest : ∀ j < N, (∀ i < N, ¬ InBlock flags i j) → flags j = ⟨true, false, 0⟩

section partition

variable {N : Nat} {flags : Nat → MemFlag} {A : Layout N} {L : Live}

/-- The blocks of the table are the blocks of the layout. -/
theorem Describes.inBlock_iff (h : Describes flags A) {i j : Nat} (hi : i < N) :
    InBlock flags i j ↔ ∃ n, A.size i = some n ∧ i ≤ j ∧ j < i + n := by
  constructor
  · rintro ⟨hstart, hj⟩
    obtain ⟨n, hn⟩ := Option.isSome_iff_exists.mp ((h.startFrame_iff hi).mp hstart)
    rw [h.num hn] at hj
    exact ⟨n, hn, hj⟩
  · rintro ⟨n, hn, hj⟩
    exact ⟨(h.startFrame_iff hi).mpr (Option.isSome_iff_exists.mpr ⟨n, hn⟩), by rwa [h.num hn]⟩

/-- Frame `j` is in some block of the table iff the layout covers it. -/
theorem Describes.covers_iff (h : Describes flags A) {j : Nat} :
    A.Covers j ↔ ∃ i < N, InBlock flags i j := by
  constructor
  · rintro ⟨i, n, hn, hj⟩
    have hi : i < N := Layout.lt_of_covers (Layout.covers_start hn)
    exact ⟨i, hi, (h.inBlock_iff hi).mpr ⟨n, hn, hj⟩⟩
  · rintro ⟨i, hi, hj⟩
    obtain ⟨n, hn⟩ := (h.inBlock_iff hi).mp hj
    exact ⟨i, n, hn⟩

/-- A table that stores the live blocks describes a partition. -/
theorem Tracks.partition (h : Tracks N flags L) : Partition N flags L := by
  obtain ⟨A, hd, hm⟩ := h
  constructor
  · intro i hi hstart
    obtain ⟨n, hn⟩ := Option.isSome_iff_exists.mp ((hd.startFrame_iff hi).mp hstart)
    rw [hd.start hn]
    exact ⟨rfl, A.pos hn, A.bound hn⟩
  · intro i hi j hj hlt
    obtain ⟨n, hn, hij⟩ := (hd.inBlock_iff hi).mp hj
    refine hd.inner ⟨i, n, hn, hij⟩ ?_
    -- a block that starts at `j` would meet the block at `i`
    by_contra hs
    obtain ⟨k, hk⟩ := Option.ne_none_iff_exists'.mp hs
    have := A.apart hn hk hlt
    omega
  · rintro i hi k hk hne j ⟨hij, hkj⟩
    obtain ⟨n, hn, hij⟩ := (hd.inBlock_iff hi).mp hij
    obtain ⟨m, hm', hkj⟩ := (hd.inBlock_iff hk).mp hkj
    exact Layout.disjoint hn hm' hne j ⟨hij, hkj⟩
  · intro ptr n
    constructor
    · rintro ⟨i, hi, rfl, hstart, hnum⟩
      obtain ⟨k, hk⟩ := Option.isSome_iff_exists.mp ((hd.startFrame_iff hi).mp hstart)
      rw [← hnum, hd.num hk]
      exact hm.size.mp hk
    · rintro ⟨size, hsize, rfl⟩
      obtain ⟨i, rfl⟩ := hm.start hsize
      have hs : A.size i = some (frames size) := hm.size.mpr ⟨size, hsize, rfl⟩
      have hi : i < N := Layout.lt_of_covers (Layout.covers_start hs)
      exact ⟨i, hi, rfl, by rw [hd.start hs], hd.num hs⟩
  · exact hm.once
  · intro j hj hout
    exact hd.rest hj fun hc =>
      let ⟨i, hi, hij⟩ := hd.covers_iff.mp hc
      hout i hi hij

end partition

/-! ## sessions -/

/-- A thread that makes call after call on what `main` has set up.  The state is
`none` as soon as a call does not return. -/
def session (N : Nat) : Machine (Option (Shared Region)) Call where
  init st := st = ((setUp N).runAlone act ⟨1, staticRegion⟩).map Prod.snd
  step st c := st.map fun s => ((c.body N).runAlone act s).map Prod.snd

/-- The calls of a session that have returned, with their results. -/
def completed (N : Nat) (tr : List (Option (Shared Region) × Call)) : List (Call × Ret) :=
  tr.filterMap fun p => p.1.bind fun s => ((p.2.body N).runAlone act s).map fun r => (p.2, r.1)

/-- The state before the first call. -/
def initSession (N : Nat) : Option (Shared Region) := some ⟨1, initRegion N⟩

theorem session_init (N : Nat) : (session N).init (initSession N) := by
  rw [session, runAlone_setUp]
  rfl

theorem eq_initSession {N : Nat} {st : Option (Shared Region)} (h : (session N).init st) :
    st = initSession N := by
  rwa [session, runAlone_setUp] at h

/-- A call that returns. -/
theorem session_step {N : Nat} {st : Option (Shared Region)} {c : Call} {s' : Shared Region}
    (h : (session N).step st c = some (some s')) :
    ∃ s r, st = some s ∧ (c.body N).runAlone act s = some (r, s') := by
  obtain ⟨s, rfl, hs⟩ := Option.map_eq_some_iff.mp h
  obtain ⟨⟨r, t⟩, hr, rfl⟩ := Option.map_eq_some_iff.mp hs
  exact ⟨s, r, rfl, hr⟩

/-- The table stores the live blocks after one more completed call. -/
theorem tracks_completed {N : Nat} {tr : List (Option (Shared Region) × Call)} {s s' : Shared Region}
    {c : Call} {r : Ret} (h : Tracks N s.data.totalFlags (Live.ofCalls (completed N tr)))
    (hN : N * BYTES_PER_FRAME < 2 ^ 31) (hfits : CountFits N s.data c)
    (hr : (c.body N).runAlone act s = some (r, s')) :
    Tracks N s'.data.totalFlags (Live.ofCalls (completed N (tr ++ [(some s, c)]))) := by
  have hlog : completed N (tr ++ [(some s, c)]) = completed N tr ++ [(c, r)] := by
    simp [completed, List.filterMap_append, hr]
  rw [hlog, Live.ofCalls_append]
  exact tracks_call h hN hfits hr

/-- The table stores the live blocks after every session. -/
theorem tracks_of_run {N : Nat} (hN : N * BYTES_PER_FRAME < 2 ^ 31)
    {tr : List (Option (Shared Region) × Call)} {st : Option (Shared Region)}
    (h : (session N).Run tr st) (hlt : ∀ p ∈ tr, p.2.ReallocBelow (2 ^ 35)) :
    ∀ s ∈ st, Tracks N s.data.totalFlags (Live.ofCalls (completed N tr)) := by
  refine Machine.Run.invariant_of_steps (P := fun _ c => c.ReallocBelow (2 ^ 35))
    (I := fun tr st => ∀ s ∈ st, Tracks N s.data.totalFlags (Live.ofCalls (completed N tr)))
    ?_ ?_ h hlt
  · intro st hst s hs
    rw [eq_initSession hst] at hs
    obtain rfl := Option.some.inj hs
    exact tracks_initRegion N
  · intro tr st c st' hI hc hstep s' hs'
    rw [Option.mem_def.mp hs'] at hstep
    obtain ⟨s, r, rfl, hr⟩ := session_step hstep
    exact tracks_completed (hI s rfl) hN (.of_below hc) hr

/-- **The table describes a partition** after every sequence of completed calls. -/
theorem partition_of_run {tr : List (Option (Shared Region) × Call)} {s : Shared Region}
    (h : (session NUM_OF_FRAMES).Run tr (some s)) (hlt : ∀ p ∈ tr, p.2.ReallocBelow (2 ^ 35)) :
    Partition NUM_OF_FRAMES s.data.totalFlags (Live.ofCalls (completed NUM_OF_FRAMES tr)) :=
  (tracks_of_run (by decide) h hlt s rfl).partition

/-- A replay of a session in which every call completes, up to a state that satisfies a
test. -/
theorem exists_session_of_exec (N : Nat) (calls : List Call) {b : Shared Region → Bool}
    (h : ((session N).exec (initSession N) calls).any (·.any b) = true) :
    ∃ s, (session N).Run ((session N).trace (initSession N) calls) (some s) ∧ b s = true := by
  obtain ⟨st, hrun, hst⟩ := Machine.exists_run_of_exec (session_init N) calls h
  obtain ⟨s, rfl, hs⟩ := (Option.any_eq_true _ _).mp hst
  exact ⟨s, hrun, hs⟩

/-- Two requests, a cut, a release, and a second release of the same block. -/
def cutAndFree : List Call :=
  [.malloc 96, .malloc 100, .realloc (frameAddr 0) 33, .free (frameAddr 3), .free (frameAddr 3)]

theorem partition_of_run_cutAndFree :
    ∃ s, (session NUM_OF_FRAMES).Run
        ((session NUM_OF_FRAMES).trace (initSession NUM_OF_FRAMES) cutAndFree) (some s) ∧
      s.data.totalFlags 0 = ⟨false, true, 2⟩ ∧ s.data.faults = 1 ∧
      Partition NUM_OF_FRAMES s.data.totalFlags (Live.ofCalls (completed NUM_OF_FRAMES
        ((session NUM_OF_FRAMES).trace (initSession NUM_OF_FRAMES) cutAndFree))) := by
  obtain ⟨s, hrun, hs⟩ := exists_session_of_exec NUM_OF_FRAMES cutAndFree
    (b := fun s => decide (s.data.totalFlags 0 = ⟨false, true, 2⟩ ∧ s.data.faults = 1))
    (by decide +kernel)
  obtain ⟨hcut, hfault⟩ := of_decide_eq_true hs
  exact ⟨s, hrun, hcut, hfault, partition_of_run hrun (by decide +kernel)⟩

end Cmsc421.Alloc
