import Cmsc421.Alloc.Blocks

/-!
# Cmsc421.Alloc.Live

The blocks that are live, as the callers see them.

`Live` lists the addresses that have been returned and not been freed or moved
since, with the size asked for; it is a function of the calls that have completed
and what they returned.  `Tracks` relates it to the table: the table stores a layout,
and the blocks of the layout are the live ones.  Every call keeps the relation
(`tracks_call`); the lemmas for the single functions also serve the threads of
`Cmsc421.Alloc.Threads`.
-/

namespace Cmsc421.Alloc

open LockProg

/-- The blocks that are live, each with its address and the size asked for; the
latest first. -/
abbrev Live : Type := List (Ptr × Nat)

namespace Live

/-- A request of `size` bytes has returned `ptr`. -/
def grant (L : Live) (ptr : Ptr) (size : Nat) : Live := if ptr = .null then L else (ptr, size) :: L

/-- The block at `ptr` is gone. -/
def drop (L : Live) (ptr : Ptr) : Live := L.filter fun b => b.1 ≠ ptr

/-- What a completed call changes.  A resize that returns `NULL` has not touched
the block, and one that returns an address has moved it there. -/
def after (L : Live) : Call → Ret → Live
  | .malloc size, .ptr p => L.grant p size
  | .free ptr, _ => L.drop ptr
  | .realloc ptr size, .ptr p =>
      if ptr = .null then L.grant p size
      else if size = 0 then L.drop ptr
      else if p = .null then L
      else (L.drop ptr).grant p size
  | _, _ => L

/-- The live blocks after a list of completed calls. -/
def ofCalls (log : List (Call × Ret)) : Live := log.foldl (fun L c => L.after c.1 c.2) []

@[simp] theorem grant_null (L : Live) (size : Nat) : L.grant .null size = L := if_pos rfl

theorem grant_frameAddr (L : Live) (i size : Nat) :
    L.grant (frameAddr i) size = (frameAddr i, size) :: L := if_neg (by simp [frameAddr])

@[simp] theorem mem_drop {L : Live} {ptr : Ptr} {b : Ptr × Nat} :
    b ∈ L.drop ptr ↔ b ∈ L ∧ b.1 ≠ ptr := by simp [drop]

/-- Dropping what is not there. -/
theorem drop_of_not_mem {L : Live} {ptr : Ptr} (h : ∀ size, (ptr, size) ∉ L) : L.drop ptr = L := by
  refine List.filter_eq_self.mpr fun b hb => ?_
  simp only [decide_eq_true_eq]
  rintro rfl
  exact h b.2 hb

theorem ofCalls_append (log : List (Call × Ret)) (c : Call) (r : Ret) :
    ofCalls (log ++ [(c, r)]) = (ofCalls log).after c r := by
  rw [ofCalls, ofCalls, List.foldl_append, List.foldl_cons, List.foldl_nil]

end Live

/-- The blocks of the layout are the live ones, with the frames their sizes
take, and no address is live twice. -/
structure Matches {N : Nat} (L : Live) (A : Layout N) : Prop where
  size : ∀ {i n}, A.size i = some n ↔ ∃ size, (frameAddr i, size) ∈ L ∧ n = frames size
  start : ∀ {b}, b ∈ L → ∃ i, b.1 = frameAddr i
  once : (L.map Prod.fst).Nodup

/-- The table stores the live blocks. -/
def Tracks (N : Nat) (flags : Nat → MemFlag) (L : Live) : Prop :=
  ∃ A : Layout N, Describes flags A ∧ Matches L A

theorem tracks_initRegion (N : Nat) : Tracks N (initRegion N).totalFlags [] :=
  ⟨Layout.empty N, describes_initRegion N, ⟨by simp, by simp, List.nodup_nil⟩⟩

/-- The block `b` takes the frame `j`. -/
def Occupies (b : Ptr × Nat) (j : Nat) : Prop := ∃ i, b.1 = frameAddr i ∧ i ≤ j ∧ j < i + frames b.2

/-- **No two live blocks share a frame.** -/
theorem Tracks.disjoint {N : Nat} {flags : Nat → MemFlag} {L : Live} (h : Tracks N flags L) :
    L.Pairwise fun b c => ∀ j, ¬ (Occupies b j ∧ Occupies c j) := by
  obtain ⟨A, -, hm⟩ := h
  refine (List.pairwise_map.mp hm.once).imp_of_mem ?_
  rintro b c hb hc hne j ⟨⟨i, hi, hij⟩, k, hk, hkj⟩
  have hsi : A.size i = some (frames b.2) := hm.size.mpr ⟨b.2, hi ▸ hb, rfl⟩
  have hsk : A.size k = some (frames c.2) := hm.size.mpr ⟨c.2, hk ▸ hc, rfl⟩
  refine hne ?_
  rw [hi, hk, Layout.start_unique hsi hsk hij hkj]

section tracks

variable {N : Nat} {d : Region} {L : Live}

/-- A pointer to no block is no live block. -/
theorem Tracks.not_live (h : Tracks N d.totalFlags L) {ptr : Ptr} (hp : startOf N d ptr = none)
    (size : Nat) : (ptr, size) ∉ L := by
  obtain ⟨A, hd, hm⟩ := h
  intro hL
  obtain ⟨i, rfl⟩ := hm.start hL
  rw [hd.startOf_frameAddr (hm.size.mpr ⟨size, hL, rfl⟩)] at hp
  contradiction

/-- A block put down at a free place is live. -/
theorem Matches.grant {A : Layout N} (hm : Matches L A) {i size : Nat} (hn : 0 < frames size)
    (hb : i + frames size ≤ N) (hfree : ∀ j, i ≤ j → j < i + frames size → ¬ A.Covers j) :
    Matches (L.grant (frameAddr i) size) (A.insert i (frames size) hn hb hfree) := by
  have hnew : ∀ s, (frameAddr i, s) ∉ L := fun s hs =>
    hfree i (Nat.le_refl i) (by omega) (Layout.covers_start (hm.size.mpr ⟨s, hs, rfl⟩))
  rw [Live.grant_frameAddr]
  constructor
  · intro j n
    by_cases hj : j = i
    · subst hj
      rw [Layout.size_insert_self]
      constructor
      · intro h
        exact ⟨size, by simp, (Option.some.inj h).symm⟩
      · rintro ⟨s, hs, rfl⟩
        rcases List.mem_cons.mp hs with hs | hs
        · rw [(Prod.mk.inj hs).2]
        · exact absurd hs (hnew s)
    · have hne : frameAddr j ≠ frameAddr i := fun h => hj (frameAddr_inj h)
      rw [Layout.size_insert_ne hj, hm.size]
      simp [hne]
  · intro b hb
    rcases List.mem_cons.mp hb with rfl | hb
    · exact ⟨i, rfl⟩
    · exact hm.start hb
  · rw [List.map_cons, List.nodup_cons]
    refine ⟨fun h => ?_, hm.once⟩
    obtain ⟨⟨ptr, s⟩, hb, rfl : ptr = frameAddr i⟩ := List.mem_map.mp h
    exact hnew s hb

/-- A block that is taken up is not. -/
theorem Matches.drop {A : Layout N} (hm : Matches L A) (i : Nat) :
    Matches (L.drop (frameAddr i)) (A.erase i) := by
  constructor
  · intro j n
    by_cases hj : j = i
    · subst hj
      simp
    · have hne : frameAddr j ≠ frameAddr i := fun h => hj (frameAddr_inj h)
      rw [Layout.size_erase_ne hj, hm.size]
      simp [hne]
  · intro b hb
    exact hm.start (Live.mem_drop.mp hb).1
  · exact hm.once.sublist (List.filter_sublist.map _)

/-- What `my_malloc` returns is `NULL`, with the table as it was, or the address
of a region of free frames that is large enough. -/
theorem mallocResult_cases {p : Ptr} {size : Nat} {d' : Region} (hN : N * BYTES_PER_FRAME < 2 ^ 31)
    (h : mallocResult N size d = (p, d')) :
    (p = .null ∧ d'.totalFlags = d.totalFlags) ∨
    ∃ i, p = frameAddr i ∧ 0 < frames size ∧ i + frames size ≤ N ∧
      (∀ j, i ≤ j → j < i + frames size → (d.totalFlags j).free = true) ∧
      d' = d.reserve i (frames size) := by
  unfold mallocResult at h
  split at h
  · obtain ⟨rfl, rfl⟩ := Prod.mk.inj h
    exact .inl ⟨rfl, rfl⟩
  · next hsize =>
      obtain ⟨hpos, hmax⟩ := not_or.mp hsize
      dsimp only at h
      split at h
      · next hfit =>
          obtain ⟨rfl, rfl⟩ := Prod.mk.inj h
          have hlarge : 0 < (scanResult N d.totalFlags).largestRegionSize := by
            by_contra hzero
            rw [show (scanResult N d.totalFlags).largestRegionSize = 0 by omega] at hfit
            omega
          obtain ⟨c, hc, hle, hfree⟩ := freeRegion_scanResult N d.totalFlags hlarge
          have hle' := frames_le hfit
          rw [hc, Int.toNat_natCast, uint32_numOfFrames (by omega)]
          exact .inr ⟨c, rfl, frames_pos hpos, by omega, fun j h₁ h₂ => hfree j h₁ (by omega), rfl⟩
      · obtain ⟨rfl, rfl⟩ := Prod.mk.inj h
        exact .inl ⟨rfl, rfl⟩

/-- `my_malloc`: what it returns is live afterwards. -/
theorem tracks_malloc (h : Tracks N d.totalFlags L) {p : Ptr} {size : Nat} {d' : Region}
    (hN : N * BYTES_PER_FRAME < 2 ^ 31) (hm : mallocResult N size d = (p, d')) :
    Tracks N d'.totalFlags (L.grant p size) := by
  obtain ⟨rfl, hflags⟩ | ⟨i, rfl, hpos, hle, hfree, rfl⟩ := mallocResult_cases hN hm
  · rwa [hflags, Live.grant_null]
  · obtain ⟨A, hd, hA⟩ := h
    have hfree' : ∀ j, i ≤ j → j < i + frames size → ¬ A.Covers j := fun j h₁ h₂ =>
      hd.not_covers (hfree j h₁ h₂)
    exact ⟨_, describes_reserve hd hpos hle (frames_lt hN) hfree', hA.grant hpos hle hfree'⟩

/-- `my_free` of a block: it is not live any more. -/
theorem tracks_free (h : Tracks N d.totalFlags L) {ptr : Ptr} {i : Nat}
    (hN : N * BYTES_PER_FRAME < 2 ^ 31) (hp : startOf N d ptr = some i) :
    Tracks N (d.release i (d.totalFlags i).numOfFrames).totalFlags (L.drop ptr) := by
  obtain ⟨A, hd, hm⟩ := h
  obtain ⟨rfl, n, hs⟩ := hd.of_startOf hp
  rw [hd.num hs]
  exact ⟨_, describes_release hd hs (frames_lt hN), hm.drop i⟩

/-- A cut: the block is live with its new size. -/
theorem tracks_cut (h : Tracks N d.totalFlags L) {ptr : Ptr} {i size : Nat} {d' : Region}
    (hN : N * BYTES_PER_FRAME < 2 ^ 31) (hsize : size ≠ 0) (hp : startOf N d ptr = some i)
    (hlt : frames size < (d.totalFlags i).numOfFrames)
    (hcut : dataRun act (cutLoop i (frames size) ((d.totalFlags i).numOfFrames + 1) i) d =
      some ((), d')) :
    Tracks N (d'.setFlag i { d'.totalFlags i with numOfFrames := frames size }).totalFlags
      ((L.drop ptr).grant (frameAddr i) size) := by
  obtain ⟨A, hd, hm⟩ := h
  obtain ⟨rfl, k, hs⟩ := hd.of_startOf hp
  rw [hd.num hs] at hlt hcut
  have hb := A.bound hs
  have hpos := frames_pos hsize
  have hd' : d' = d.fill freeFlag (i + frames size) (i + k) := by
    have hN' := frames_lt hN
    rw [dataRun_cutLoop_eq hpos (by omega) hlt (hd.num hs) (by omega),
      show max i (i + frames size) = i + frames size by omega] at hcut
    exact (congrArg Prod.snd (Option.some.inj hcut)).symm
  have hfree : ∀ j, i ≤ j → j < i + frames size → ¬ (A.erase i).Covers j := by
    intro j h₁ h₂ hc
    exact ((Layout.covers_erase hs).mp hc).2 ⟨h₁, by omega⟩
  exact ⟨_, describes_cut hd hs hpos (by omega) hd', (hm.drop i).grant hpos (by omega) hfree⟩

/-! ## completed calls -/

/-- A resize asks for fewer than `b` bytes. -/
def Call.ReallocBelow (b : Nat) : Call → Prop
  | .realloc _ size => size < b
  | _ => True

instance (b : Nat) : DecidablePred (Call.ReallocBelow b)
  | .realloc _ size => inferInstanceAs (Decidable (size < b))
  | .malloc _ => instDecidableTrue
  | .free _ => instDecidableTrue
  | .usableSize _ => instDecidableTrue

theorem tracks_myMalloc (h : Tracks N d.totalFlags L) {m size : Nat} {p : Ptr} {s' : Shared Region}
    (hN : N * BYTES_PER_FRAME < 2 ^ 31)
    (hr : (myMalloc N size).runAlone act ⟨m, d⟩ = some (p, s')) :
    Tracks N s'.data.totalFlags (L.grant p size) := by
  cases m with
  | zero =>
      rw [runAlone_zero_of_atomic act (by rw [atomic_myMalloc, Option.isSome_some])] at hr
      contradiction
  | succ m =>
      rw [runAlone_of_atomic act (atomic_myMalloc N size d)] at hr
      obtain ⟨rfl, rfl⟩ := Prod.mk.inj (Option.some.inj hr)
      exact tracks_malloc h hN rfl

theorem tracks_myFree (h : Tracks N d.totalFlags L) {m : Nat} {ptr : Ptr} {s' : Shared Region}
    (hN : N * BYTES_PER_FRAME < 2 ^ 31) (hr : (myFree N ptr).runAlone act ⟨m, d⟩ = some ((), s')) :
    Tracks N s'.data.totalFlags (L.drop ptr) := by
  have hcases := myFree_cases N ptr d m
  rw [hr] at hcases
  cases hcases with
  | nothing hnull =>
      rwa [Live.drop_of_not_mem (h.not_live (hnull ▸ startOf_null N d))]
  | released hp => exact tracks_free h hN hp
  | faulted hnull hp => rwa [Live.drop_of_not_mem (h.not_live hp)]

/-- A block put down while another one is live starts somewhere else. -/
theorem grant_drop_comm (h : Tracks N d.totalFlags L) {ptr q : Ptr} {i size : Nat} {d' : Region}
    (hN : N * BYTES_PER_FRAME < 2 ^ 31) (hp : startOf N d ptr = some i)
    (hm : mallocResult N size d = (q, d')) :
    (L.grant q size).drop ptr = (L.drop ptr).grant q size := by
  obtain ⟨A, hd, -⟩ := h
  obtain ⟨rfl, k, hs⟩ := hd.of_startOf hp
  obtain ⟨rfl, -⟩ | ⟨c, rfl, hpos, hle, hfree, -⟩ := mallocResult_cases hN hm
  · simp
  · have hne : c ≠ i := by
      rintro rfl
      exact hd.not_covers (hfree c (Nat.le_refl c) (by omega)) (Layout.covers_start hs)
    have hptr : frameAddr c ≠ frameAddr i := fun h => hne (frameAddr_inj h)
    rw [Live.grant_frameAddr, Live.grant_frameAddr, Live.drop, Live.drop,
      List.filter_cons_of_pos (by simpa using hptr)]

/-- Where a resize cuts a block, by the count it has computed, the size asked for
takes fewer frames than the block has. -/
def CountFits (N : Nat) (d : Region) : Call → Prop
  | .realloc ptr size => size ≠ 0 → ∀ i, startOf N d ptr = some i →
      uint32 (numOfFrames size) < (d.totalFlags i).numOfFrames →
      frames size < (d.totalFlags i).numOfFrames
  | .malloc _ | .free _ | .usableSize _ => True

theorem CountFits.of_below {c : Call} (h : c.ReallocBelow (2 ^ 35)) : CountFits N d c := by
  cases c with
  | realloc ptr size =>
      intro _ i _ hlt
      rwa [uint32_numOfFrames h] at hlt
  | malloc | free | usableSize => trivial

/-- Then the count is the number of frames. -/
theorem CountFits.count_eq (h : Tracks N d.totalFlags L) (hN : N * BYTES_PER_FRAME < 2 ^ 31)
    {ptr : Ptr} {size i : Nat} (hp : startOf N d ptr = some i)
    (hlt : frames size < (d.totalFlags i).numOfFrames) :
    uint32 (numOfFrames size) = frames size := by
  obtain ⟨A, hd, -⟩ := h
  obtain ⟨-, k, hs⟩ := hd.of_startOf hp
  rw [hd.num hs] at hlt
  have hb := A.bound hs
  have hN' := frames_lt hN
  rw [uint32_numOfFrames_mod, Nat.mod_eq_of_lt (by omega)]

theorem tracks_myRealloc (h : Tracks N d.totalFlags L) {m size : Nat} {ptr p : Ptr}
    {s' : Shared Region} (hN : N * BYTES_PER_FRAME < 2 ^ 31)
    (hfits : CountFits N d (.realloc ptr size))
    (hr : (myRealloc N ptr size).runAlone act ⟨m, d⟩ = some (p, s')) :
    Tracks N s'.data.totalFlags (L.after (.realloc ptr size) (.ptr p)) := by
  simp only [Live.after]
  by_cases hnull : ptr = .null
  · subst hnull
    rw [myRealloc_null] at hr
    exact tracks_myMalloc h hN hr
  by_cases hsize : size = 0
  · subst hsize
    rw [if_neg hnull, if_pos rfl]
    rw [runAlone_myRealloc_zero hnull, Option.map_eq_some_iff] at hr
    obtain ⟨r, hr, heq⟩ := hr
    obtain ⟨rfl, rfl⟩ := Prod.mk.inj heq
    exact tracks_myFree h hN hr
  rw [if_neg hnull, if_neg hsize]
  have hcases := myRealloc_cases N hnull hsize d m
  generalize (myRealloc N ptr size).runAlone act ⟨m, d⟩ = res at hr hcases
  cases hcases with
  | waits => simp at hr
  | waitsInside => simp at hr
  | faulted hp =>
      obtain ⟨rfl, rfl⟩ := Prod.mk.inj (Option.some.inj hr)
      exact h
  | cut hp hcut hloop =>
      obtain ⟨rfl, rfl⟩ := Prod.mk.inj (Option.some.inj hr)
      have hlt := hfits hsize _ hp hcut
      rw [CountFits.count_eq h hN hp hlt] at hloop ⊢
      exact tracks_cut h hN hsize hp hlt hloop
  | same hp heq =>
      obtain ⟨rfl, rfl⟩ := Prod.mk.inj (Option.some.inj hr)
      exact h
  | full hp hgt hm =>
      obtain ⟨rfl, rfl⟩ := Prod.mk.inj (Option.some.inj hr)
      have ht := tracks_malloc h hN hm
      rwa [Live.grant_null] at ht
  | @moved m i off d' hp hgt hm =>
      obtain ⟨⟨u, s₁⟩, hfree, heq⟩ := Option.map_eq_some_iff.mp hr
      obtain ⟨rfl, rfl⟩ := Prod.mk.inj heq
      have ht := tracks_malloc h hN hm
      rw [if_neg (by simp), ← grant_drop_comm h hN hp hm]
      obtain ⟨-, rfl⟩ := frameOf_eq_some (Option.filter_eq_some_iff.mp hp).1
      show Tracks N s₁.data.totalFlags _
      exact tracks_myFree (d := d'.copy off i) ht hN hfree

theorem tracks_myMallocUsableSize (h : Tracks N d.totalFlags L) {m k : Nat} {ptr : Ptr}
    {s' : Shared Region} (hr : (myMallocUsableSize N ptr).runAlone act ⟨m, d⟩ = some (k, s')) :
    Tracks N s'.data.totalFlags L := by
  by_cases hnull : ptr = .null
  · rw [myMallocUsableSize, if_pos hnull] at hr
    obtain ⟨-, rfl⟩ := Prod.mk.inj (Option.some.inj hr)
    exact h
  · cases m with
    | zero =>
        rw [runAlone_myMallocUsableSize_zero hnull] at hr
        contradiction
    | succ m =>
        rw [runAlone_myMallocUsableSize hnull] at hr
        obtain ⟨-, rfl⟩ := Prod.mk.inj (Option.some.inj hr)
        exact h

/-- **Every completed call keeps the table and the live blocks in step.** -/
theorem tracks_call (h : Tracks N d.totalFlags L) {m : Nat} {c : Call} {r : Ret}
    {s' : Shared Region} (hN : N * BYTES_PER_FRAME < 2 ^ 31) (hfits : CountFits N d c)
    (hr : (c.body N).runAlone act ⟨m, d⟩ = some (r, s')) :
    Tracks N s'.data.totalFlags (L.after c r) := by
  cases call_cases hr with
  | malloc hp => exact tracks_myMalloc h hN hp
  | free hu => exact tracks_myFree h hN hu
  | realloc hp => exact tracks_myRealloc h hN hfits hp
  | usableSize hn => exact tracks_myMallocUsableSize h hn

end tracks

end Cmsc421.Alloc
