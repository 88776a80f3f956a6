import Cmsc421.Quiz.MidtermTranscript
import Cmsc421.Quiz.FinalTranscript
import Mathlib.Algebra.BigOperators.Intervals
import Mathlib.Algebra.Order.BigOperators.Group.Finset

/-!
# Cmsc421.Quiz.Points

How many clues the scores can take.

A contestant has at most one answer in each round, so what it wins or loses is at most
the sum of what the clues are worth.  One that answers all of them right gets that sum.
So the scores are exact in all runs of the two programs exactly when it fits an `int`.
-/

namespace Cmsc421.Quiz

variable {N K : Nat} {b : Board N}

/-! ## at most -/

/-- A sum of different numbers. -/
theorem sum_le_of_nodup {ns : List Nat} (hnodup : ns.Nodup) (hle : ∀ n ∈ ns, n ≤ K) :
    ns.sum * 2 ≤ K * (K + 1) := by
  have hsub : ns.toFinset ⊆ Finset.range (K + 1) := by
    intro n hn
    exact Finset.mem_range.mpr (Nat.lt_succ_of_le (hle n (List.mem_toFinset.mp hn)))
  have hsum := List.sum_toFinset (fun n => n) hnodup
  rw [List.map_id'] at hsum
  calc ns.sum * 2 ≤ (∑ n ∈ Finset.range (K + 1), n) * 2 :=
        Nat.mul_le_mul_right 2 (hsum ▸ Finset.sum_le_sum_of_subset hsub)
    _ = K * (K + 1) := by rw [Finset.sum_range_id_mul_two, Nat.add_sub_cancel, Nat.mul_comm]

theorem natAbs_sum_points (es : List (Entry N)) (hround : ∀ e ∈ es, e.round = e.clue + 1) :
    (es.map Entry.points).sum.natAbs ≤ 200 * (es.map (·.round)).sum := by
  induction es with
  | nil => exact Nat.zero_le _
  | cons e es ih =>
      have hhead : e.points.natAbs = 200 * e.round := by
        rw [hround e List.mem_cons_self, Entry.points]
        split <;> omega
      have htail := ih fun e' he' => hround e' (List.mem_cons_of_mem e he')
      have hadd := Int.natAbs_add_le e.points (es.map Entry.points).sum
      rw [List.map_cons, List.sum_cons, List.map_cons, List.sum_cons]
      omega

/-- **No contestant wins or loses more than all clues are worth.** -/
theorem Booked.natAbs_points_le (h : Booked b) (hK : K < 2 ^ 32) (hle : (tally b.out).round ≤ K)
    (c : Fin N) : (pointsOf (tally b.out).entries c).natAbs ≤ 100 * (K * (K + 1)) := by
  have hround : ∀ e ∈ (tally b.out).entries.filter fun e => e.who = c, e.round = e.clue + 1 :=
    fun e he => h.round_eq hK hle (List.mem_filter.mp he).1
  have hnodup : (((tally b.out).entries.filter fun e => e.who = c).map (·.round)).Nodup := by
    refine List.pairwise_map.mpr ((h.fair.filter _).imp_of_mem ?_)
    intro e e' he he' hne heq
    have hwho := (List.mem_filter.mp he).2
    have hwho' := (List.mem_filter.mp he').2
    rw [decide_eq_true_eq] at hwho hwho'
    exact (hne heq).1 (hwho.trans hwho'.symm)
  have hsum := sum_le_of_nodup (K := K) hnodup fun n hn => by
    obtain ⟨e, he, rfl⟩ := List.mem_map.mp hn
    exact (h.rounds e (List.mem_filter.mp he).1).trans hle
  have habs := natAbs_sum_points _ hround
  rw [pointsOf]
  omega

/-- So the scores are exact while that fits. -/
theorem Booked.score_eq (h : Booked b) (hK : K < 2 ^ 32) (hle : (tally b.out).round ≤ K)
    (hfits : 100 * (K * (K + 1)) < 2 ^ 31) (c : Fin N) :
    b.score c = pointsOf (tally b.out).entries c := by
  have hmax := h.natAbs_points_le hK hle c
  rw [h.score, int32_of_fits] <;> omega

/-! ## and that is reached -/

/-- One contestant answers the first clues right. -/
def allRight (c : Fin N) : Nat → List (Line N)
  | 0 => []
  | k + 1 => allRight c k ++ [.clue k, .answer c k true]

theorem after_allRight (c : Fin N) {k : Nat} (hk : k ≤ K) :
    after K (allRight c k) = some ⟨k, .idle⟩ := by
  induction k with
  | zero => rfl
  | succ k ih =>
      have hclue : Show.next K ⟨k, .idle⟩ (.clue k : Line N) = some ⟨k, .guessing []⟩ := by
        simp [Show.next, Nat.lt_of_succ_le hk]
      have hanswer : Show.next K ⟨k, .guessing []⟩ (.answer c k true) = some ⟨k + 1, .idle⟩ := by
        simp [Show.next, Nat.lt_of_succ_le hk]
      have h := ih (Nat.le_of_succ_le hk)
      rw [after] at h ⊢
      rw [allRight, Machine.exec_append, h]
      simp [Machine.exec, quiz, hclue, hanswer]

theorem tally_allRight (c : Fin N) (k : Nat) :
    (tally (allRight c k)).round = k ∧ pointsOf (tally (allRight c k)).entries c = 100 * (k * (k + 1)) := by
  induction k with
  | zero => exact ⟨rfl, rfl⟩
  | succ k ih =>
      have hsplit : allRight c (k + 1) = (allRight c k ++ [.clue k]) ++ [.answer c k true] := by
        simp [allRight]
      rw [hsplit, tally_concat, tally_concat]
      simp only [Tally.next, pointsOf_concat, ih, Entry.points, if_true, true_and]
      push_cast
      ring

/-- Points that do not fit an `int` are no score. -/
theorem Booked.score_ne (h : Booked b) {c : Fin N} (hbig : ¬ pointsOf (tally b.out).entries c < 2 ^ 31) :
    b.score c ≠ pointsOf (tally b.out).entries c := by
  rw [h.score]
  intro heq
  have hlt : int32 (pointsOf (tally b.out).entries c) < 2 ^ 31 := by
    rw [int32, Int.bmod_def]
    split <;> omega
  omega

/-- The board after all right answers of one contestant. -/
theorem Booked.score_ne_of_allRight (h : Booked b) {c : Fin N} (hout : b.out = allRight c K)
    (hbig : ¬ 100 * (K * (K + 1)) < 2 ^ 31) : b.score c ≠ pointsOf (tally b.out).entries c := by
  refine h.score_ne ?_
  have hpoints := (tally_allRight c K).2
  rw [hout, hpoints, ← Nat.cast_add_one, ← Nat.cast_mul]
  omega

/-- **When the scores are exact.**  In every run of either program each score is the sum of
the points of the contestant's answers exactly when the worth of all clues together fits
an `int`. -/
theorem scores_exact_iff (hN : 0 < N) (hN' : N < 2 ^ 32) (hK : K < 2 ^ 32) :
    ((∀ tr s, (Midterm.midterm N K).Run tr s →
        ∀ c, s.board.score c = pointsOf (tally s.board.out).entries c) ↔
      100 * (K * (K + 1)) < 2 ^ 31) ∧
    ((∀ tr s, (Final.final N K).Run tr s →
        ∀ c, s.board.score c = pointsOf (tally s.board.out).entries c) ↔
      100 * (K * (K + 1)) < 2 ^ 31) := by
  have hright := after_allRight (⟨0, hN⟩ : Fin N) (Nat.le_refl K)
  constructor
  · constructor
    · intro h
      by_contra hbig
      obtain ⟨tr, s, hrun, -, hrecorded, hplaced⟩ := Midterm.exists_run_of_after hN hN' hK hright
      have hout := hrecorded.lines_eq hplaced.told
      exact (Midterm.played_of_run hrun).booked.score_ne_of_allRight hout hbig (h tr s hrun _)
    · intro hfits tr s hrun c
      exact (Midterm.played_of_run hrun).booked.score_eq hK (Midterm.round_le_of_run hK hrun) hfits c
  · constructor
    · intro h
      by_contra hbig
      obtain ⟨tr, s, hrun, hout, -⟩ := Final.exists_run_of_after hN hN' hK hright
      have hbooked := (Final.carried_of_run hrun).sound.kept.booked
      exact hbooked.score_ne_of_allRight hout hbig (h tr s hrun _)
    · intro hfits tr s hrun c
      have hbooked := (Final.carried_of_run hrun).sound.kept.booked
      exact hbooked.score_eq hK (Final.round_le_of_run hK hrun) hfits c

/-- Three contestants can take four clues, but not 4634. -/
theorem scores_exact_iff_three :
    (∀ tr s, (Midterm.midterm 3 4).Run tr s →
        ∀ c, s.board.score c = pointsOf (tally s.board.out).entries c) ∧
    ¬ ∀ tr s, (Final.final 3 4634).Run tr s →
        ∀ c, s.board.score c = pointsOf (tally s.board.out).entries c :=
  ⟨(scores_exact_iff (by decide) (by decide) (by decide)).1.mpr (by decide),
    fun h => absurd ((scores_exact_iff (by decide) (by decide) (by decide)).2.mp h) (by decide)⟩

end Cmsc421.Quiz
