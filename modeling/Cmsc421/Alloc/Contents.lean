import Cmsc421.Alloc.Grants

/-!
# Cmsc421.Alloc.Contents

What the callers find in their blocks.

The calls of a session are mixed with stores of the callers into their own live
blocks.  `contents` says what the callers expect to find in a block: what stood
there when it was granted, overwritten by their own stores, and carried along when
the block is resized.  The allocator writes to no block but the one it is about to
return, so the memory agrees with `contents` after every call (`contents_of_run`).
-/

namespace Cmsc421.Alloc

open LockProg

/-- The byte at some distance from a pointer. -/
def Ptr.byte : Ptr → Nat → Nat
  | .null, j => j
  | .mem off, j => off.toNat + j

@[simp] theorem byte_frameAddr (i j : Nat) : (frameAddr i).byte j = i * BYTES_PER_FRAME + j := rfl

@[simp] theorem byte_mem (off : Int) (j : Nat) : (Ptr.mem off).byte j = off.toNat + j := rfl

/-- What the callers expect in the block at a pointer. -/
abbrev Contents : Type := Ptr → Nat → UInt8

/-- The frames of the live block at `ptr`, zero if there is none. -/
def Live.framesAt (L : Live) (ptr : Ptr) : Nat :=
  ((L.find? fun b => b.1 = ptr).map fun b => frames b.2).getD 0

/-- The bytes from a pointer on. -/
def Region.bytesAt (d : Region) (ptr : Ptr) : Nat → UInt8 := fun j => d.totalMem (ptr.byte j)

/-- What is expected after a call, which leaves `d` behind: a new block is as it is,
and a resized one has kept its first bytes, as far as both the old and the new block
reach. -/
def Contents.after (C : Contents) (L : Live) (d : Region) : Call → Ret → Contents
  | .malloc _, .ptr q => if q = .null then C else Function.update C q (d.bytesAt q)
  | .realloc ptr size, .ptr q =>
      if q = .null then C
      else Function.update C q fun j =>
        if j < min (L.framesAt ptr) (frames size) * BYTES_PER_FRAME then C ptr j else d.bytesAt q j
  | _, _ => C

/-- The allocator and its callers: the data, the blocks that are live, and what is
expected in them. -/
structure Usage where
  shared : Shared Region
  live : Live
  contents : Contents

/-- A step of the callers: a call, or a store of a byte into a block. -/
inductive Use
  | call (c : Call)
  | store (ptr : Ptr) (off : Nat) (v : UInt8)

/-- The store stays inside a live block. -/
def Live.Holds (L : Live) (ptr : Ptr) (off : Nat) : Prop :=
  ∃ b ∈ L, b.1 = ptr ∧ off < frames b.2 * BYTES_PER_FRAME

instance (L : Live) (ptr : Ptr) (off : Nat) : Decidable (L.Holds ptr off) :=
  inferInstanceAs (Decidable (∃ b ∈ L, _))

/-- A call that returns. -/
def Usage.call (N : Nat) (u : Usage) (c : Call) : Option Usage :=
  ((c.body N).runAlone act u.shared).map fun r =>
    { shared := r.2
      live := u.live.after c r.1
      contents := u.contents.after u.live r.2.data c r.1 }

/-- A store. -/
def Usage.store (u : Usage) (ptr : Ptr) (off : Nat) (v : UInt8) : Usage :=
  { u with
    shared := ⟨u.shared.sem, (act (.writeMem (ptr.byte off) v) u.shared.data).2⟩
    contents := Function.update u.contents ptr (Function.update (u.contents ptr) off v) }

/-- A thread that calls the allocator and uses its blocks.  The state is `none` as
soon as a call does not return. -/
def usage (N : Nat) : Machine (Option Usage) Use where
  init st := st = (((setUp N).runAlone act ⟨1, staticRegion⟩).map fun r => ⟨r.2, [], fun _ _ => 0⟩)
  step st l :=
    st.bind fun u =>
      match l with
      | .call c => some (u.call N c)
      | .store ptr off v => if u.live.Holds ptr off then some (some (u.store ptr off v)) else none

/-! ## what the allocator does to the memory -/

theorem mallocResult_totalMem (N size : Nat) (d : Region) :
    (mallocResult N size d).2.totalMem = d.totalMem := by
  unfold mallocResult
  split
  · rfl
  · dsimp only
    split <;> rfl

section memory

variable {N m : Nat} {d d' : Region} {s' : Shared Region}

theorem cutLoop_totalMem {i n fuel j : Nat}
    (h : dataRun act (cutLoop i n fuel j) d = some ((), d')) : d'.totalMem = d.totalMem := by
  rw [cutLoop_writes h]

theorem myMalloc_totalMem {size : Nat} {p : Ptr}
    (hr : (myMalloc N size).runAlone act ⟨m, d⟩ = some (p, s')) : s'.data.totalMem = d.totalMem := by
  cases m with
  | zero =>
      rw [runAlone_zero_of_atomic act (by rw [atomic_myMalloc, Option.isSome_some])] at hr
      contradiction
  | succ m =>
      rw [runAlone_of_atomic act (atomic_myMalloc N size d)] at hr
      obtain ⟨-, rfl⟩ := Prod.mk.inj (Option.some.inj hr)
      exact mallocResult_totalMem N size d

theorem myFree_totalMem {ptr : Ptr} (hr : (myFree N ptr).runAlone act ⟨m, d⟩ = some ((), s')) :
    s'.data.totalMem = d.totalMem := by
  have hcases := myFree_cases N ptr d m
  rw [hr] at hcases
  cases hcases <;> rfl

theorem myMallocUsableSize_totalMem {k : Nat} {ptr : Ptr}
    (hr : (myMallocUsableSize N ptr).runAlone act ⟨m, d⟩ = some (k, s')) :
    s'.data.totalMem = d.totalMem := by
  by_cases hnull : ptr = .null
  · rw [myMallocUsableSize, if_pos hnull] at hr
    obtain ⟨-, rfl⟩ := Prod.mk.inj (Option.some.inj hr)
    rfl
  · cases m with
    | zero =>
        rw [runAlone_myMallocUsableSize_zero hnull] at hr
        contradiction
    | succ m =>
        rw [runAlone_myMallocUsableSize hnull] at hr
        obtain ⟨-, rfl⟩ := Prod.mk.inj (Option.some.inj hr)
        rfl

end memory

/-! ## one call -/

/-- The bytes of every live block are what its owner expects. -/
def Agrees (d : Region) (L : Live) (C : Contents) : Prop :=
  ∀ b ∈ L, ∀ j < frames b.2 * BYTES_PER_FRAME, d.bytesAt b.1 j = C b.1 j

section agrees

variable {N : Nat} {d d' : Region} {L : Live} {C : Contents}

/-- Two live blocks share no byte. -/
theorem Tracks.byte_ne {flags : Nat → MemFlag} (h : Tracks N flags L) {b c : Ptr × Nat} (hb : b ∈ L)
    (hc : c ∈ L) (hne : b.1 ≠ c.1) {j k : Nat} (hj : j < frames b.2 * BYTES_PER_FRAME)
    (hk : k < frames c.2 * BYTES_PER_FRAME) : b.1.byte j ≠ c.1.byte k := by
  obtain ⟨A, -, hm⟩ := h
  obtain ⟨ptr, n⟩ := b
  obtain ⟨ptr', n'⟩ := c
  obtain ⟨i, rfl⟩ := hm.start hb
  obtain ⟨i', rfl⟩ := hm.start hc
  have hs : A.size i = some (frames n) := hm.size.mpr ⟨n, hb, rfl⟩
  have hs' : A.size i' = some (frames n') := hm.size.mpr ⟨n', hc, rfl⟩
  have hii : i ≠ i' := by
    rintro rfl
    exact hne rfl
  simp only [byte_frameAddr, BYTES_PER_FRAME] at hj hk ⊢
  intro heq
  refine Layout.disjoint hs hs' hii (i + j / 32) ⟨?_, ?_⟩ <;> omega

/-- The frames of a live block. -/
theorem Tracks.framesAt_eq {flags : Nat → MemFlag} (h : Tracks N flags L) {ptr : Ptr} {size : Nat}
    (hL : (ptr, size) ∈ L) : L.framesAt ptr = frames size := by
  obtain ⟨A, -, hm⟩ := h
  unfold Live.framesAt
  cases hfind : L.find? fun b => b.1 = ptr with
  | none => simpa using List.find?_eq_none.mp hfind _ hL
  | some b =>
      obtain ⟨i, rfl⟩ := hm.start hL
      have hb : b.1 = frameAddr i := by simpa using List.find?_some hfind
      have hs : A.size i = some (frames b.2) :=
        hm.size.mpr ⟨b.2, hb ▸ List.mem_of_find?_eq_some hfind, rfl⟩
      exact Option.some.inj (hs.symm.trans (hm.size.mpr ⟨size, hL, rfl⟩))

/-- The block at a pointer that the allocator knows is live. -/
theorem Tracks.exists_live (h : Tracks N d.totalFlags L) {ptr : Ptr} {i : Nat}
    (hp : startOf N d ptr = some i) :
    ptr = frameAddr i ∧ ∃ size, (ptr, size) ∈ L ∧ (d.totalFlags i).numOfFrames = frames size := by
  obtain ⟨A, hd, hm⟩ := h
  obtain ⟨rfl, n, hs⟩ := hd.of_startOf hp
  obtain ⟨size, hL, rfl⟩ := hm.size.mp hs
  exact ⟨rfl, size, hL, hd.num hs⟩

/-- The table carries the frames of a live block. -/
theorem Tracks.num_of_live (h : Tracks N d.totalFlags L) {i size : Nat}
    (hL : (frameAddr i, size) ∈ L) :
    (d.totalFlags i).numOfFrames = frames size ∧ frames size ≤ N := by
  obtain ⟨A, hd, hm⟩ := h
  have hs : A.size i = some (frames size) := hm.size.mpr ⟨size, hL, rfl⟩
  have hb := A.bound hs
  exact ⟨hd.num hs, by omega⟩

/-- A block that has been granted is no other live block. -/
theorem Tracks.ne_granted {flags : Nat → MemFlag} {q : Ptr} {size : Nat}
    (h : Tracks N flags (L.grant q size)) (hq : q ≠ .null) {b : Ptr × Nat} (hb : b ∈ L) : b.1 ≠ q := by
  obtain ⟨A, -, hm⟩ := h
  have honce := hm.once
  rw [Live.grant, if_neg hq, List.map_cons, List.nodup_cons] at honce
  rintro rfl
  exact honce.1 (List.mem_map.mpr ⟨b, hb, rfl⟩)

/-- Memory that is left alone still agrees, … -/
theorem Agrees.of_totalMem (h : Agrees d L C) (hmem : d'.totalMem = d.totalMem) : Agrees d' L C := by
  intro b hb j hj
  rw [Region.bytesAt, hmem]
  exact h b hb j hj

theorem Agrees.drop (h : Agrees d L C) (ptr : Ptr) : Agrees d (L.drop ptr) C :=
  fun b hb => h b (Live.mem_drop.mp hb).1

/-- … and a new block agrees with what is expected there. -/
theorem Agrees.grant (h : Agrees d L C) {q : Ptr} {size : Nat} {f : Nat → UInt8}
    (ht : Tracks N d.totalFlags (L.grant q size)) (hq : q ≠ .null)
    (hnew : ∀ j < frames size * BYTES_PER_FRAME, d.bytesAt q j = f j) :
    Agrees d (L.grant q size) (Function.update C q f) := by
  intro b hb j hj
  have hgrant : L.grant q size = (q, size) :: L := if_neg hq
  rw [hgrant] at hb
  rcases List.mem_cons.mp hb with rfl | hb
  · rw [Function.update_self]
    exact hnew j hj
  · rw [Function.update_of_ne (ht.ne_granted hq hb)]
    exact h b hb j hj

/-- `my_malloc`: what is expected of the new block is what is there. -/
theorem agrees_myMalloc (h : Agrees d L C) {m size : Nat} {p : Ptr} {s' : Shared Region}
    (hr : (myMalloc N size).runAlone act ⟨m, d⟩ = some (p, s'))
    (ht : Tracks N s'.data.totalFlags (L.grant p size)) :
    Agrees s'.data (L.grant p size)
      (if p = .null then C else Function.update C p (s'.data.bytesAt p)) := by
  have hkept := h.of_totalMem (myMalloc_totalMem hr)
  split
  · next hp => rwa [hp, Live.grant_null]
  · next hp => exact hkept.grant ht hp fun _ _ => rfl

/-- The first bytes of the block at `i`, after it has been copied to `off`. -/
theorem bytesAt_copy {off : Int} {i j : Nat}
    (hj : j < (d.totalFlags i).numOfFrames * BYTES_PER_FRAME % 2 ^ 32) :
    (d.copy off i).bytesAt (.mem off) j = d.bytesAt (frameAddr i) j := by
  simp only [Region.bytesAt, Region.copy, act, byte_mem, byte_frameAddr]
  rw [if_pos (by omega), Nat.add_sub_cancel_left]

/-- The copy writes nothing else. -/
theorem totalMem_copy {off : Int} {i x : Nat}
    (h : ∀ j < (d.totalFlags i).numOfFrames * BYTES_PER_FRAME % 2 ^ 32, x ≠ Ptr.byte (.mem off) j) :
    (d.copy off i).totalMem x = d.totalMem x := by
  simp only [Region.copy, act]
  refine if_neg ?_
  rintro ⟨hle, hlt⟩
  exact h (x - off.toNat) (by omega) (by rw [byte_mem]; omega)

/-- `my_realloc` of a block: it is cut in place, or copied into fresh frames while it
still stands. -/
theorem agrees_myRealloc (h : Agrees d L C) (ht : Tracks N d.totalFlags L) {m size : Nat}
    {ptr q : Ptr} {s' : Shared Region} (hN : N * BYTES_PER_FRAME < 2 ^ 31) (hnull : ptr ≠ .null)
    (hsize : size ≠ 0) (hfits : CountFits N d (.realloc ptr size))
    (hr : (myRealloc N ptr size).runAlone act ⟨m, d⟩ = some (q, s')) (hq : q ≠ .null)
    (ht' : Tracks N s'.data.totalFlags ((L.drop ptr).grant q size)) :
    Agrees s'.data ((L.drop ptr).grant q size) (Function.update C q fun j =>
      if j < min (L.framesAt ptr) (frames size) * BYTES_PER_FRAME then C ptr j
      else s'.data.bytesAt q j) := by
  have hcases := myRealloc_cases N hnull hsize d m
  generalize (myRealloc N ptr size).runAlone act ⟨m, d⟩ = res at hr hcases
  cases hcases with
  | waits | waitsInside => simp at hr
  | faulted | same | full => exact absurd (Prod.mk.inj (Option.some.inj hr)).1.symm hq
  | @cut m i d' hp hlt hcut =>
      obtain ⟨rfl, rfl⟩ := Prod.mk.inj (Option.some.inj hr)
      obtain ⟨rfl, old, hold, hnum⟩ := ht.exists_live hp
      have hmem := cutLoop_totalMem hcut
      have hkept : Agrees (d'.setFlag i
          { d'.totalFlags i with numOfFrames := uint32 (numOfFrames size) })
          (L.drop (frameAddr i)) C := (h.drop _).of_totalMem hmem
      refine hkept.grant ht' hq fun j hj => ?_
      split
      · next hj' =>
          rw [ht.framesAt_eq hold] at hj'
          rw [← h _ hold j (by simp only [BYTES_PER_FRAME] at hj' ⊢; omega)]
          simp only [Region.bytesAt, Region.setFlag, hmem]
      · rfl
  | @moved m i off d' hp hgt hm =>
      obtain ⟨⟨u, s₁⟩, hfree, heq⟩ := Option.map_eq_some_iff.mp hr
      obtain ⟨rfl, rfl⟩ := Prod.mk.inj heq
      obtain ⟨rfl, old, hold, hnum⟩ := ht.exists_live hp
      have hgrant : L.grant (.mem off) size = (.mem off, size) :: L := if_neg hq
      have htm := tracks_malloc ht hN hm
      have hmem : d'.totalMem = d.totalMem := by
        rw [← mallocResult_totalMem N size d, hm]
      obtain ⟨hnum', hle⟩ := htm.num_of_live (hgrant ▸ List.mem_cons_of_mem _ hold)
      -- the new block is longer than the bytes that are copied into it
      have hlt : frames old < frames size := by
        rw [hnum, uint32_numOfFrames_mod] at hgt
        exact hgt.trans_le (Nat.mod_le _ _)
      have hbytes : (d'.totalFlags i).numOfFrames * BYTES_PER_FRAME % 2 ^ 32 =
          frames old * BYTES_PER_FRAME := by
        rw [hnum', Nat.mod_eq_of_lt]
        simp only [BYTES_PER_FRAME] at hN ⊢
        omega
      have hfreed := myFree_totalMem hfree
      have hkept : Agrees s₁.data (L.drop (frameAddr i)) C := by
        intro b hb j hj
        have hbL := (Live.mem_drop.mp hb).1
        rw [Region.bytesAt, hfreed, totalMem_copy, hmem]
        · exact h b hbL j hj
        · intro k hk
          rw [hbytes] at hk
          refine htm.byte_ne (c := (.mem off, size)) (hgrant ▸ List.mem_cons_of_mem _ hbL)
            (hgrant ▸ List.mem_cons_self) (htm.ne_granted hq hbL) hj ?_
          simp only [BYTES_PER_FRAME] at hk ⊢
          omega
      refine hkept.grant ht' hq fun j hj => ?_
      split
      · next hj' =>
          rw [ht.framesAt_eq hold, Nat.min_eq_left hlt.le] at hj'
          rw [← h _ hold j hj', Region.bytesAt, hfreed, ← Region.bytesAt,
            bytesAt_copy (by rw [hbytes]; exact hj'), Region.bytesAt, hmem, Region.bytesAt]
      · rfl

/-- A `my_realloc` that returns `NULL` has written no byte. -/
theorem myRealloc_totalMem {m size : Nat} {ptr : Ptr} {s' : Shared Region}
    (hr : (myRealloc N ptr size).runAlone act ⟨m, d⟩ = some (.null, s')) :
    s'.data.totalMem = d.totalMem := by
  by_cases hnull : ptr = .null
  · subst hnull
    rw [myRealloc_null] at hr
    exact myMalloc_totalMem hr
  by_cases hsize : size = 0
  · subst hsize
    rw [runAlone_myRealloc_zero hnull, Option.map_eq_some_iff] at hr
    obtain ⟨r, hr, heq⟩ := hr
    obtain ⟨-, rfl⟩ := Prod.mk.inj heq
    exact myFree_totalMem hr
  have hcases := myRealloc_cases N hnull hsize d m
  generalize (myRealloc N ptr size).runAlone act ⟨m, d⟩ = res at hr hcases
  cases hcases with
  | waits | waitsInside => simp at hr
  | faulted | same =>
      obtain ⟨-, rfl⟩ := Prod.mk.inj (Option.some.inj hr)
      rfl
  | @full _ _ d' _ _ hm =>
      obtain ⟨-, rfl⟩ := Prod.mk.inj (Option.some.inj hr)
      show d'.totalMem = d.totalMem
      rw [← mallocResult_totalMem N size d, hm]
  | cut => exact absurd (Prod.mk.inj (Option.some.inj hr)).1 nofun
  | moved =>
      obtain ⟨_, _, heq⟩ := Option.map_eq_some_iff.mp hr
      exact absurd (Prod.mk.inj heq).1 nofun

/-- `NULL` is no live block. -/
theorem Tracks.framesAt_null {flags : Nat → MemFlag} (h : Tracks N flags L) :
    L.framesAt .null = 0 := by
  obtain ⟨A, -, hm⟩ := h
  have hfind : L.find? (fun b => b.1 = .null) = none := by
    refine List.find?_eq_none.mpr fun b hb => ?_
    obtain ⟨i, hi⟩ := hm.start hb
    simp [hi, frameAddr]
  rw [Live.framesAt, hfind]
  rfl

/-- **Every completed call leaves in the live blocks what is expected there.** -/
theorem agrees_call (h : Agrees d L C) (ht : Tracks N d.totalFlags L) {m : Nat} {c : Call} {r : Ret}
    {s' : Shared Region} (hN : N * BYTES_PER_FRAME < 2 ^ 31) (hfits : CountFits N d c)
    (hr : (c.body N).runAlone act ⟨m, d⟩ = some (r, s')) :
    Agrees s'.data (L.after c r) (C.after L s'.data c r) := by
  have ht' := tracks_call ht hN hfits hr
  cases call_cases hr with
  | malloc hp => exact agrees_myMalloc h hp ht'
  | @free ptr t hu => exact (h.drop ptr).of_totalMem (myFree_totalMem hu)
  | @realloc ptr size q t hp =>
      simp only [Live.after, Contents.after] at ht' ⊢
      by_cases hq : q = .null
      · subst hq
        have hkept := h.of_totalMem (myRealloc_totalMem hp)
        simp only [if_true, Live.grant_null]
        split
        · exact hkept
        · split
          · exact hkept.drop ptr
          · exact hkept
      rw [if_neg hq] at ht' ⊢
      rw [if_neg hq]
      by_cases hnull : ptr = .null
      · subst hnull
        rw [myRealloc_null] at hp
        rw [if_pos rfl] at ht' ⊢
        refine (h.of_totalMem (myMalloc_totalMem hp)).grant ht' hq fun j _ => ?_
        rw [ht.framesAt_null, Nat.zero_min, Nat.zero_mul, if_neg (Nat.not_lt_zero j)]
      rw [if_neg hnull] at ht' ⊢
      by_cases hsize : size = 0
      · subst hsize
        rw [runAlone_myRealloc_zero hnull, Option.map_eq_some_iff] at hp
        obtain ⟨_, _, heq⟩ := hp
        exact absurd (Prod.mk.inj heq).1.symm hq
      rw [if_neg hsize] at ht' ⊢
      exact agrees_myRealloc h ht hN hnull hsize hfits hp hq ht'
  | usableSize hn => exact h.of_totalMem (myMallocUsableSize_totalMem hn)

end agrees

/-! ## runs -/

/-- The table stores the live blocks, and their bytes are what their owners expect. -/
structure Kept (N : Nat) (u : Usage) : Prop where
  tracks : Tracks N u.shared.data.totalFlags u.live
  agrees : Agrees u.shared.data u.live u.contents

/-- A store changes the byte it is made to. -/
theorem Kept.store {N : Nat} {u : Usage} (h : Kept N u) {ptr : Ptr} {off : Nat} {v : UInt8}
    (hin : u.live.Holds ptr off) : Kept N (u.store ptr off v) := by
  refine ⟨h.tracks, fun b hb j hj => ?_⟩
  obtain ⟨c, hc, rfl, hoff⟩ := hin
  simp only [Region.bytesAt, Usage.store, act]
  by_cases hbc : b.1 = c.1
  · rw [hbc, Function.update_self]
    by_cases hj' : j = off
    · rw [hj', Function.update_self, Function.update_self]
    · have hne : c.1.byte j ≠ c.1.byte off := by
        cases c.1 <;> simp only [Ptr.byte] <;> omega
      rw [Function.update_of_ne hj', Function.update_of_ne hne, ← hbc]
      exact h.agrees b hb j hj
  · rw [Function.update_of_ne hbc, Function.update_of_ne (h.tracks.byte_ne hb hc hbc hj hoff)]
    exact h.agrees b hb j hj

theorem Kept.call {N : Nat} {u u' : Usage} (h : Kept N u) (hN : N * BYTES_PER_FRAME < 2 ^ 31)
    {c : Call} (hfits : CountFits N u.shared.data c) (hc : u.call N c = some u') : Kept N u' := by
  obtain ⟨⟨r, s'⟩, hr, rfl⟩ := Option.map_eq_some_iff.mp hc
  exact ⟨tracks_call h.tracks hN hfits hr, agrees_call h.agrees h.tracks hN hfits hr⟩

/-- The step is no resize to `2 ^ 35` bytes or more. -/
def Use.Below : Use → Prop
  | .call c => c.ReallocBelow (2 ^ 35)
  | .store _ _ _ => True

instance : DecidablePred Use.Below
  | .call c => inferInstanceAs (Decidable (c.ReallocBelow _))
  | .store _ _ _ => instDecidableTrue

theorem kept_of_run {N : Nat} (hN : N * BYTES_PER_FRAME < 2 ^ 31) {tr : List (Option Usage × Use)}
    {st : Option Usage} (h : (usage N).Run tr st) (hlt : ∀ p ∈ tr, p.2.Below) :
    ∀ u ∈ st, Kept N u := by
  refine Machine.Run.invariant_of_steps (P := fun _ l => l.Below) (I := fun _ st => ∀ u ∈ st, Kept N u)
    ?_ ?_ h hlt
  · intro st hst u hu
    rw [usage, runAlone_setUp] at hst
    obtain rfl := Option.some.inj (hst.symm.trans hu)
    exact ⟨tracks_initRegion N, nofun⟩
  · intro _ st l st' hI hl hs u' hu'
    obtain ⟨u, rfl, hnext⟩ := Option.bind_eq_some_iff.mp hs
    have hkept := hI u rfl
    cases l with
    | call c =>
        obtain rfl := Option.some.inj hnext
        exact hkept.call hN (.of_below hl) hu'
    | store ptr off v =>
        dsimp only at hnext
        split at hnext
        · next hin =>
            obtain rfl := Option.some.inj hnext
            obtain rfl := Option.some.inj hu'
            exact hkept.store hin
        · contradiction

/-- The pointer that a call works on. -/
def Call.block : Call → Option Ptr
  | .free ptr | .realloc ptr _ => some ptr
  | .malloc _ | .usableSize _ => none

theorem Live.mem_grant {L : Live} {q : Ptr} {size : Nat} {b : Ptr × Nat} (hb : b ∈ L) :
    b ∈ L.grant q size := by
  unfold Live.grant
  split
  · exact hb
  · exact List.mem_cons_of_mem _ hb

/-- A call that does not work on a block leaves it live, with the same bytes expected
in it. -/
theorem untouched {N : Nat} {s s' : Shared Region} {L : Live} {C : Contents} {c : Call} {r : Ret}
    {b : Ptr × Nat} (h : Tracks N s'.data.totalFlags (L.after c r))
    (hr : (c.body N).runAlone act s = some (r, s')) (hb : b ∈ L) (hblock : c.block ≠ some b.1) :
    b ∈ L.after c r ∧ (C.after L s'.data c r) b.1 = C b.1 := by
  cases c with
  | malloc size =>
      cases r with
      | ptr q =>
          refine ⟨Live.mem_grant hb, ?_⟩
          simp only [Contents.after]
          split
          · rfl
          · next hq => rw [Function.update_of_ne (Tracks.ne_granted h hq hb)]
      | size | void => exact ⟨hb, rfl⟩
  | free ptr => exact ⟨Live.mem_drop.mpr ⟨hb, fun heq => hblock (by rw [heq]; rfl)⟩, rfl⟩
  | realloc ptr size =>
      have hdrop : b ∈ L.drop ptr := Live.mem_drop.mpr ⟨hb, fun heq => hblock (by rw [heq]; rfl)⟩
      cases r with
      | ptr q =>
          simp only [Live.after, Contents.after] at h ⊢
          by_cases hq : q = .null
          · subst hq
            simp only [if_true, Live.grant_null, and_true]
            split
            · exact hb
            · split
              · exact hdrop
              · exact hb
          rw [if_neg hq] at h ⊢
          rw [if_neg hq]
          by_cases hnull : ptr = .null
          · rw [if_pos hnull] at h ⊢
            exact ⟨Live.mem_grant hb, Function.update_of_ne (h.ne_granted hq hb) ..⟩
          rw [if_neg hnull] at h ⊢
          by_cases hsize : size = 0
          · subst hsize
            rw [runAlone_realloc, runAlone_myRealloc_zero hnull, Option.map_map,
              Option.map_eq_some_iff] at hr
            obtain ⟨_, _, heq⟩ := hr
            exact absurd (Ret.ptr.inj (Prod.mk.inj heq).1).symm hq
          rw [if_neg hsize] at h ⊢
          exact ⟨Live.mem_grant hdrop, Function.update_of_ne (h.ne_granted hq hdrop) ..⟩
      | size | void => exact ⟨hb, rfl⟩
  | usableSize ptr => exact ⟨hb, rfl⟩

/-- **The contents of blocks are preserved.**  After every run of completed calls, with
resizes below `2 ^ 35` bytes, and of stores of the callers into their own live blocks,
the bytes of each live block are what its owner expects; a further call changes no
byte of a live block it does not work on, and a `my_realloc` that returns a pointer
has kept there the bytes that fit in both the old and the new block. -/
theorem contents_of_run {tr : List (Option Usage × Use)} {u : Usage}
    (h : (usage NUM_OF_FRAMES).Run tr (some u)) (hlt : ∀ p ∈ tr, p.2.Below) :
    (∀ b ∈ u.live, ∀ j < frames b.2 * BYTES_PER_FRAME,
      u.shared.data.bytesAt b.1 j = u.contents b.1 j) ∧
    (∀ c r s', c.ReallocBelow (2 ^ 35) → (c.body NUM_OF_FRAMES).runAlone act u.shared = some (r, s') →
      ∀ b ∈ u.live, c.block ≠ some b.1 → b ∈ u.live.after c r ∧
        ∀ j < frames b.2 * BYTES_PER_FRAME, s'.data.bytesAt b.1 j = u.shared.data.bytesAt b.1 j) ∧
    ∀ ptr old size q s', size < 2 ^ 35 → (ptr, old) ∈ u.live →
      ((Call.realloc ptr size).body NUM_OF_FRAMES).runAlone act u.shared = some (.ptr q, s') →
      q ≠ .null → ∀ j < min (frames old) (frames size) * BYTES_PER_FRAME,
        s'.data.bytesAt q j = u.shared.data.bytesAt ptr j := by
  have hN : NUM_OF_FRAMES * BYTES_PER_FRAME < 2 ^ 31 := by decide
  have hkept := kept_of_run hN h hlt u rfl
  refine ⟨hkept.agrees, ?_, ?_⟩
  · intro c r s' hc hr b hb hblock
    have hfits := CountFits.of_below (d := u.shared.data) (N := NUM_OF_FRAMES) hc
    have htracks := tracks_call hkept.tracks hN hfits hr
    obtain ⟨hmem, hsame⟩ := untouched (C := u.contents) htracks hr hb hblock
    refine ⟨hmem, fun j hj => ?_⟩
    rw [agrees_call hkept.agrees hkept.tracks hN hfits hr b hmem j hj, hsame, hkept.agrees b hb j hj]
  · intro ptr old size q s' hsize hold hr hq j hj
    have hfits : CountFits NUM_OF_FRAMES u.shared.data (.realloc ptr size) :=
      CountFits.of_below hsize
    have hpos : 0 < size := by
      refine Nat.pos_of_ne_zero ?_
      rintro rfl
      simp [frames, BYTES_PER_FRAME] at hj
    have hmem : (q, size) ∈ u.live.after (.realloc ptr size) (.ptr q) := mem_after rfl hpos hq
    have hj' : j < frames size * BYTES_PER_FRAME := by
      simp only [BYTES_PER_FRAME] at hj ⊢
      omega
    rw [agrees_call hkept.agrees hkept.tracks hN hfits hr (q, size) hmem j hj']
    simp only [Contents.after, if_neg hq, Function.update_self]
    rw [hkept.tracks.framesAt_eq hold, if_pos hj, ← hkept.agrees (ptr, old) hold j]
    simp only [BYTES_PER_FRAME] at hj ⊢
    omega

/-- Two blocks, a byte stored in each, and a cut of the first. -/
def storeAndCut : List Use :=
  [.call (.malloc 64), .call (.malloc 32), .store (frameAddr 0) 5 7, .store (frameAddr 2) 5 9,
    .call (.realloc (frameAddr 0) 32)]

theorem contents_of_run_storeAndCut :
    ∃ u, (usage NUM_OF_FRAMES).Run ((usage NUM_OF_FRAMES).trace
        (some ⟨⟨1, initRegion NUM_OF_FRAMES⟩, [], fun _ _ => 0⟩) storeAndCut) (some u) ∧
      (frameAddr 0, 32) ∈ u.live ∧
      u.shared.data.bytesAt (frameAddr 0) 5 = u.contents (frameAddr 0) 5 := by
  have hinit : (usage NUM_OF_FRAMES).init
      (some ⟨⟨1, initRegion NUM_OF_FRAMES⟩, [], fun _ _ => 0⟩) := by
    rw [usage, runAlone_setUp]
    rfl
  obtain ⟨st, hrun, hst⟩ := Machine.exists_run_of_exec hinit storeAndCut
    (b := fun st => st.any fun u : Usage => decide ((frameAddr 0, 32) ∈ u.live)) (by decide +kernel)
  obtain ⟨u, rfl, hu⟩ := (Option.any_eq_true _ _).mp hst
  have hlive := of_decide_eq_true hu
  exact ⟨u, hrun, hlive,
    (contents_of_run hrun (by decide +kernel)).1 (frameAddr 0, 32) hlive 5 (by decide)⟩

end Cmsc421.Alloc
