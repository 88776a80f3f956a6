import Cmsc421.Alloc.Contents
import Cmsc421.Alloc.WorstFit

/-!
# Cmsc421.Alloc.Stats

The report of `my_malloc_stats`.

The report is one text of lines; `memoryLine` and `tableLine` take it apart again.  The
last line tells the frames of the live blocks, and whether the next request is granted
and where (`stats_of_run`).
-/

namespace Cmsc421.Alloc

open LockProg

/-! ## the report -/

/-- What is printed for a byte of the memory. -/
def shown (b : UInt8) : UInt8 := if 32 < schar b ∧ schar b < 126 then b else 46

/-- What `my_malloc_stats` writes between `sem_wait` and `sem_post`. -/
def statsText (N : Nat) (d : Region) : List UInt8 :=
  ascii "Memory contents:\n" ++
    ((List.range N).flatMap fun i =>
      ((List.range BYTES_PER_FRAME).flatMap fun j =>
        (if j = 0 then ascii "  " else []) ++ [shown (d.totalMem (i * BYTES_PER_FRAME + j))]) ++
      ascii "\n") ++
    (ascii "Memory allocations:\n" ++ ascii "  " ++
      (List.range N).flatMap fun i =>
        (if (d.totalFlags i).free then ascii "f" else ascii "R") ++
          if i = N - 1 then ascii "\n" else [])

/-- `my_malloc_stats`, with what it writes; `none` where it waits. -/
def myMallocStats (N : Nat) (s : Shared Region) : Option (List UInt8 × Shared Region) :=
  match s.sem with
  | 0 => none
  | m + 1 => some (statsText N s.data, ⟨afterPost m, s.data⟩)

/-- The bytes shown for frame `i`. -/
def memoryLine (text : List UInt8) (i : Nat) : List UInt8 := ((text.splitOn 10).getD (i + 1) []).drop 2

/-- The table shown for `N` frames. -/
def tableLine (N : Nat) (text : List UInt8) : List UInt8 := ((text.splitOn 10).getD (N + 2) []).drop 2

/-! ## lines -/

/-- Lines that are written one after the other are found again. -/
theorem splitOn_lines {ls : List (List UInt8)} (h : ∀ l ∈ ls, 10 ∉ l) :
    (ls.flatMap fun l => l ++ [10]).splitOn 10 = ls ++ [[]] := by
  induction ls with
  | nil => rfl
  | cons l ls ih =>
      obtain ⟨hl, hls⟩ := List.forall_mem_cons.mp h
      rw [List.flatMap_cons, List.append_assoc, List.singleton_append,
        List.splitOn_append_cons_self, List.splitOn_eq_singleton hl, ih hls]
      rfl

section lines

variable {N : Nat} {d : Region}

/-- The bytes of frame `i`, as they are shown. -/
def frameShown (d : Region) (i : Nat) : List UInt8 :=
  (List.range BYTES_PER_FRAME).map fun j => shown (d.totalMem (i * BYTES_PER_FRAME + j))

/-- A frame is shown as free or as reserved. -/
def flagShown (d : Region) (i : Nat) : UInt8 := if (d.totalFlags i).free then 102 else 82

/-- The lines of the report. -/
def reportLines (N : Nat) (d : Region) : List (List UInt8) :=
  ascii "Memory contents:" :: (List.range N).map (fun i => ascii "  " ++ frameShown d i) ++
    [ascii "Memory allocations:", ascii "  " ++ (List.range N).map (flagShown d)]

theorem shown_ne_newline (b : UInt8) : shown b ≠ 10 := by
  unfold shown
  split
  · next h =>
      rintro rfl
      revert h
      decide
  · decide

theorem newline_not_mem_reportLines : ∀ l ∈ reportLines N d, 10 ∉ l := by
  have hblanks : (10 : UInt8) ∉ ascii "  " := by decide +kernel
  intro l hl
  simp only [reportLines, List.mem_append, List.mem_cons, List.mem_map, List.not_mem_nil,
    or_false] at hl
  rcases hl with (rfl | ⟨i, -, rfl⟩) | rfl | rfl
  · decide +kernel
  · simp [hblanks, frameShown, shown_ne_newline]
  · decide +kernel
  · simp only [List.mem_append, hblanks, List.mem_map, false_or, not_exists, not_and]
    intro i _
    unfold flagShown
    split <;> decide

/-- Something before the first element only. -/
theorem flatMap_first {α : Type*} (f : Nat → α) (l : List α) (n : Nat) :
    ((List.range (n + 1)).flatMap fun j => (if j = 0 then l else []) ++ [f j]) =
      l ++ (List.range (n + 1)).map f := by
  rw [List.range_succ_eq_map, List.flatMap_cons, List.flatMap_map, List.map_cons, List.map_map,
    List.map_eq_flatMap]
  simp

/-- Something after the last element only. -/
theorem flatMap_last {α : Type*} (f : Nat → α) (l : List α) (n : Nat) :
    ((List.range (n + 1)).flatMap fun j => [f j] ++ if j = n then l else []) =
      (List.range (n + 1)).map f ++ l := by
  have hbefore : ((List.range n).flatMap fun j => [f j] ++ if j = n then l else []) =
      (List.range n).map f := by
    rw [List.map_eq_flatMap]
    refine List.flatMap_congr fun j hj => ?_
    rw [if_neg (Nat.ne_of_lt (List.mem_range.mp hj)), List.append_nil]
  simp only [List.range_succ, List.flatMap_append, List.map_append, hbefore]
  simp

theorem statsText_eq (hN : 0 < N) :
    statsText N d = (reportLines N d).flatMap fun l => l ++ [10] := by
  obtain ⟨M, rfl⟩ := Nat.exists_eq_succ_of_ne_zero hN.ne'
  have hframe (i : Nat) : ((List.range BYTES_PER_FRAME).flatMap fun j =>
      (if j = 0 then ascii "  " else []) ++ [shown (d.totalMem (i * BYTES_PER_FRAME + j))]) =
      ascii "  " ++ frameShown d i := flatMap_first _ _ 31
  have hflag (i : Nat) : (if (d.totalFlags i).free then ascii "f" else ascii "R") = [flagShown d i] := by
    unfold flagShown
    split <;> decide +kernel
  have hrow := flatMap_last (flagShown d) [10] M
  have htitles : ascii "Memory contents:\n" = ascii "Memory contents:" ++ [10] ∧
      ascii "Memory allocations:\n" = ascii "Memory allocations:" ++ [10] ∧ ascii "\n" = [10] := by
    decide +kernel
  simp only [statsText, hframe, hflag, Nat.succ_eq_add_one, Nat.add_sub_cancel, hrow, htitles,
    reportLines, List.flatMap_cons, List.flatMap_append, List.flatMap_map, List.flatMap_nil,
    List.append_assoc, List.append_nil]

theorem splitOn_statsText (hN : 0 < N) : (statsText N d).splitOn 10 = reportLines N d ++ [[]] := by
  rw [statsText_eq hN, splitOn_lines newline_not_mem_reportLines]

theorem drop_blanks (l : List UInt8) : (ascii "  " ++ l).drop 2 = l :=
  List.drop_left' (by decide +kernel)

/-- The report shows the bytes of each frame, … -/
theorem memoryLine_statsText {i : Nat} (hi : i < N) : memoryLine (statsText N d) i = frameShown d i := by
  have hline : (reportLines N d ++ [[]])[i + 1]? = some (ascii "  " ++ frameShown d i) := by
    simp [reportLines, List.getElem?_append_left, hi]
  rw [memoryLine, splitOn_statsText (by omega), List.getD_eq_getElem?_getD, hline, Option.getD_some,
    drop_blanks]

/-- … and its entry of the table. -/
theorem tableLine_statsText (hN : 0 < N) :
    tableLine N (statsText N d) = (List.range N).map (flagShown d) := by
  have hline : (reportLines N d ++ [[]])[N + 2]? =
      some (ascii "  " ++ (List.range N).map (flagShown d)) := by
    simp [reportLines]
  rw [tableLine, splitOn_statsText hN, List.getD_eq_getElem?_getD, hline, Option.getD_some,
    drop_blanks]

end lines

/-! ## what the table line tells -/

section table

variable {N : Nat} {d : Region}

/-- The frame is shown as free. -/
def ShownFree (row : List UInt8) (j : Nat) : Prop := row[j]? = some 102

theorem flagShown_eq_free_iff (j : Nat) : flagShown d j = 102 ↔ IsFree d.totalFlags j := by
  unfold flagShown IsFree
  split
  · next h => simp [h]
  · next h => simpa using h

theorem shownFree_iff (hN : 0 < N) {j : Nat} (hj : j < N) :
    ShownFree (tableLine N (statsText N d)) j ↔ IsFree d.totalFlags j := by
  rw [ShownFree, tableLine_statsText hN, List.getElem?_map, List.getElem?_range hj, Option.map_some,
    Option.some.injEq, flagShown_eq_free_iff]

/-- A run of characters of the line is a stretch. -/
theorem replicate_infix_iff {row : List UInt8} {n : Nat} :
    List.replicate n 102 <:+: row ↔ ∃ s, Stretch (ShownFree row) row.length s n := by
  rw [List.infix_iff_getElem?]
  simp only [List.length_replicate, List.getElem_replicate]
  constructor
  · rintro ⟨s, hle, hall⟩
    refine ⟨s, by omega, fun j hs hj => ?_⟩
    have hj' := hall (j - s) (by omega)
    rwa [Nat.sub_add_cancel hs] at hj'
  · rintro ⟨s, hs⟩
    exact ⟨s, by have := hs.le; omega, fun i hi => hs.all (i + s) (by omega) (by omega)⟩

/-- A frame is free unless a live block takes it. -/
theorem Tracks.isFree_iff {flags : Nat → MemFlag} {L : Live} (h : Tracks N flags L) {j : Nat}
    (hj : j < N) : IsFree flags j ↔ ¬ ∃ b ∈ L, Occupies b j := by
  obtain ⟨A, hd, hm⟩ := h
  have hcovers : A.Covers j ↔ ∃ b ∈ L, Occupies b j := by
    constructor
    · rintro ⟨i, n, hn, hij⟩
      obtain ⟨size, hsize, rfl⟩ := hm.size.mp hn
      exact ⟨_, hsize, i, rfl, hij⟩
    · rintro ⟨⟨ptr, size⟩, hb, i, rfl, hij⟩
      exact ⟨i, frames size, hm.size.mpr ⟨size, hb, rfl⟩, hij⟩
  rw [← hcovers]
  constructor
  · exact hd.not_covers
  · intro hout
    rw [IsFree, hd.rest hj hout]
    rfl

/-- The frames of a live block. -/
theorem Tracks.bound {flags : Nat → MemFlag} {L : Live} (h : Tracks N flags L) {b : Ptr × Nat}
    (hb : b ∈ L) : ∃ i, b.1 = frameAddr i ∧ i + frames b.2 ≤ N := by
  obtain ⟨A, -, hm⟩ := h
  obtain ⟨i, hi⟩ := hm.start hb
  have hs : A.size i = some (frames b.2) := hm.size.mpr ⟨b.2, by rwa [← hi], rfl⟩
  exact ⟨i, hi, A.bound hs⟩

theorem getElem?_frameShown {j : Nat} (hj : j < BYTES_PER_FRAME) (i : Nat) :
    (frameShown d i)[j]? = some (shown (d.totalMem (i * BYTES_PER_FRAME + j))) := by
  rw [frameShown, List.getElem?_map, List.getElem?_range hj, Option.map_some]

/-- The table line tells what a request gets. -/
theorem myMalloc_of_tableLine (hpos : 0 < N) (hN : N * BYTES_PER_FRAME < 2 ^ 31) {size : Nat}
    (hsize : 0 < size) (hle : size ≤ N * BYTES_PER_FRAME) (m : Nat) (d : Region) :
    let line := tableLine N (statsText N d)
    ∃ q s', (myMalloc N size).runAlone act ⟨m + 1, d⟩ = some (q, s') ∧
      (q ≠ .null ↔ List.replicate (frames size) 102 <:+: line) ∧
      (q ≠ .null → ∃ s n, q = frameAddr s ∧ Longest (ShownFree line) N s n) := by
  intro line
  obtain ⟨s, n, hlongest, hrun⟩ := myMalloc_worst_fit hN hsize hle m d
  have hlength : line.length = N := by simp [line, tableLine_statsText hpos]
  have hshown : Longest (ShownFree line) N s n :=
    hlongest.congr fun j hj => (shownFree_iff hpos hj).symm
  rw [replicate_infix_iff, hlength]
  split at hrun
  · next hfit =>
      refine ⟨_, _, hrun, ⟨fun _ => ?_, fun _ => by simp [frameAddr]⟩, fun _ => ⟨s, n, rfl, hshown⟩⟩
      exact ⟨s, hshown.stretch.take (frames_le hfit)⟩
  · next hfit =>
      refine ⟨_, _, hrun, ⟨fun hq => absurd rfl hq, ?_⟩, fun hq => absurd rfl hq⟩
      rintro ⟨s', hs'⟩
      have := hshown.longest hs'
      have := le_frames size
      simp only [BYTES_PER_FRAME] at *
      omega

end table

/-! ## reports of runs -/

/-- **The report**: after every run of completed calls and of stores of the callers into their
own live blocks, `my_malloc_stats` changes nothing but for the lock, and its report shows as
reserved the frames of the live blocks and no other, and in the lines of a live block the bytes
its owner expects.  The next request is granted exactly where the table line has so many
consecutive `f`, and gets the first frames of the longest run of them. -/
theorem stats_of_run {N : Nat} (hpos : 0 < N) (hN : N * BYTES_PER_FRAME < 2 ^ 31)
    {tr : List (Option Usage × Use)} {u : Usage} (h : (usage N).Run tr (some u))
    (hlt : ∀ p ∈ tr, p.2.Below) (hsem : 0 < u.shared.sem) :
    ∃ text s', myMallocStats N u.shared = some (text, s') ∧ s'.data = u.shared.data ∧
      (∀ j < N, ((tableLine N text)[j]? = some 82 ↔ ∃ b ∈ u.live, Occupies b j) ∧
        ((tableLine N text)[j]? = some 102 ↔ ¬ ∃ b ∈ u.live, Occupies b j)) ∧
      (∀ b ∈ u.live, ∀ k < frames b.2 * BYTES_PER_FRAME, ∃ i, b.1 = frameAddr i ∧
        (memoryLine text (i + k / BYTES_PER_FRAME))[k % BYTES_PER_FRAME]? =
          some (shown (u.contents b.1 k))) ∧
      ∀ size, 0 < size → size ≤ N * BYTES_PER_FRAME →
        ∃ q s'', (myMalloc N size).runAlone act s' = some (q, s'') ∧
          (q ≠ .null ↔ List.replicate (frames size) 102 <:+: tableLine N text) ∧
          (q ≠ .null → ∃ s n, q = frameAddr s ∧ Longest (ShownFree (tableLine N text)) N s n) := by
  have hkept := kept_of_run hN h hlt u rfl
  obtain ⟨⟨sem, d⟩, live, contents⟩ := u
  obtain ⟨m, rfl⟩ := Nat.exists_eq_succ_of_ne_zero (Nat.ne_of_gt hsem)
  refine ⟨statsText N d, ⟨afterPost m, d⟩, rfl, rfl, fun j hj => ?_, fun b hb k hk => ?_, ?_⟩
  · have hfree := hkept.tracks.isFree_iff hj
    have hline : (tableLine N (statsText N d))[j]? = some (flagShown d j) := by
      rw [tableLine_statsText hpos, List.getElem?_map, List.getElem?_range hj, Option.map_some]
    have hreserved : flagShown d j = 82 ↔ ¬ flagShown d j = 102 := by
      unfold flagShown
      split <;> decide
    rw [hline, Option.some.injEq, Option.some.injEq, hreserved, flagShown_eq_free_iff, hfree,
      not_not]
    exact ⟨.rfl, .rfl⟩
  · obtain ⟨i, hi, hbound⟩ := hkept.tracks.bound hb
    have hlt : i + k / BYTES_PER_FRAME < N := by
      simp only [BYTES_PER_FRAME] at *
      omega
    have hbyte : (i + k / BYTES_PER_FRAME) * BYTES_PER_FRAME + k % BYTES_PER_FRAME =
        i * BYTES_PER_FRAME + k := by
      simp only [BYTES_PER_FRAME]
      omega
    refine ⟨i, hi, ?_⟩
    rw [memoryLine_statsText hlt, getElem?_frameShown (Nat.mod_lt _ (by decide)), hbyte,
      ← hkept.agrees b hb k hk, hi]
    rfl
  · intro size hsize hle
    obtain ⟨k, hk⟩ := Nat.exists_eq_succ_of_ne_zero (afterPost_pos m).ne'
    rw [hk]
    exact myMalloc_of_tableLine hpos hN hsize hle k d

/-- Two blocks, of which the first has been cut: the table shows its second frame as
free. -/
theorem stats_of_run_storeAndCut :
    ∃ u text s', (usage NUM_OF_FRAMES).Run ((usage NUM_OF_FRAMES).trace
        (some ⟨⟨1, initRegion NUM_OF_FRAMES⟩, [], fun _ _ => 0⟩) storeAndCut) (some u) ∧
      myMallocStats NUM_OF_FRAMES u.shared = some (text, s') ∧
      (tableLine NUM_OF_FRAMES text)[2]? = some 82 ∧ (tableLine NUM_OF_FRAMES text)[1]? = some 102 := by
  have hinit : (usage NUM_OF_FRAMES).init
      (some ⟨⟨1, initRegion NUM_OF_FRAMES⟩, [], fun _ _ => 0⟩) := by
    rw [usage, runAlone_setUp]
    rfl
  obtain ⟨st, hrun, hst⟩ := Machine.exists_run_of_exec hinit storeAndCut
    (b := fun st => st.any fun u : Usage => decide (0 < u.shared.sem) &&
      u.live == [(frameAddr 0, 32), (frameAddr 2, 32)]) (by decide +kernel)
  obtain ⟨u, rfl, hu⟩ := (Option.any_eq_true _ _).mp hst
  simp only [Bool.and_eq_true, decide_eq_true_eq, beq_iff_eq] at hu
  obtain ⟨text, s', htext, -, hline, -⟩ :=
    stats_of_run (by decide) (by decide) hrun (by decide +kernel) hu.1
  refine ⟨u, text, s', hrun, htext, (hline 2 (by decide)).1.mpr ?_, (hline 1 (by decide)).2.mpr ?_⟩
  · exact ⟨(frameAddr 2, 32), by simp [hu.2], 2, rfl, by decide, by decide⟩
  · rintro ⟨b, hb, i, hi, hle, hlt⟩
    rw [hu.2, List.mem_pair] at hb
    rcases hb with rfl | rfl
    · obtain rfl := frameAddr_inj hi
      exact absurd hlt (by decide)
    · obtain rfl := frameAddr_inj hi
      exact absurd hle (by decide)

/-! ## unprintable bytes -/

/-- What the comment on `my_malloc_stats` shows for a byte: a dot for a value less than 32 or
greater than 126. -/
def documented (b : UInt8) : UInt8 := if b < 32 ∨ 126 < b then 46 else b

theorem shown_eq_documented_iff (b : UInt8) : shown b = documented b ↔ b ≠ 32 ∧ b ≠ 126 := by
  have hlt := b.toNat_lt
  have hshown : 32 < schar b ∧ schar b < 126 ↔ 32 < b.toNat ∧ b.toNat < 126 := by
    unfold schar
    split <;> omega
  unfold shown documented
  simp only [hshown, UInt8.lt_iff_toNat_lt, Ne, ← UInt8.toNat_inj, apply_ite UInt8.toNat,
    UInt8.reduceToNat]
  split <;> split <;> omega

/-- **The comment**: the lines of the report are those that it describes exactly where no byte
of the memory is a blank or a tilde. -/
theorem shows_documented_iff {N : Nat} {d : Region} :
    (∀ i < N, memoryLine (statsText N d) i =
        (List.range BYTES_PER_FRAME).map fun j => documented (d.totalMem (i * BYTES_PER_FRAME + j))) ↔
      ∀ x < N * BYTES_PER_FRAME, d.totalMem x ≠ 32 ∧ d.totalMem x ≠ 126 := by
  have hline {i : Nat} (hi : i < N) : memoryLine (statsText N d) i =
      ((List.range BYTES_PER_FRAME).map fun j => documented (d.totalMem (i * BYTES_PER_FRAME + j))) ↔
      ∀ j < BYTES_PER_FRAME, d.totalMem (i * BYTES_PER_FRAME + j) ≠ 32 ∧
        d.totalMem (i * BYTES_PER_FRAME + j) ≠ 126 := by
    rw [memoryLine_statsText hi, frameShown, List.map_inj_left]
    simp only [List.mem_range, shown_eq_documented_iff]
  constructor
  · intro h x hx
    have hi : x / BYTES_PER_FRAME < N := Nat.div_lt_of_lt_mul (by rwa [Nat.mul_comm] at hx)
    have hx' := (hline hi).mp (h _ hi) (x % BYTES_PER_FRAME) (Nat.mod_lt _ (by decide))
    rwa [Nat.div_add_mod'] at hx'
  · intro h i hi
    refine (hline hi).mpr fun j hj => h _ ?_
    simp only [BYTES_PER_FRAME] at hj ⊢
    omega

end Cmsc421.Alloc
