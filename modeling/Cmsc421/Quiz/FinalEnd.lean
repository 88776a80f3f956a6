import Cmsc421.Quiz.FinalTranscript
import Mathlib.Algebra.Order.BigOperators.Group.Finset

/-!
# Cmsc421.Quiz.FinalEnd

`final.c` comes to an end, one way or the other.

As in `Cmsc421.Quiz.MidtermEnd`, every step outside of the loop over `ready` is paid from
a potential.  A wake-up that is left in `cont_cv` is worth five steps, and so is a buzzer:
an answer pays with its buzzer for the wake-up of the next contestant.  So the steps of
every schedule are bounded, and since a dead end is either the end of the quiz or the
state without a token, all schedules lead to one of the two (`ends_or_sticks`).  Which of
them is still open can be told from the state: the quiz can be played to its end unless
the token is lost or with a contestant that will drop it (`can_end_iff`).
-/

namespace Cmsc421.Quiz.Final

variable {N K : Nat} {s s' : State N} {l : Label N}

/-! ## what is left to do -/

/-- The steps of a contestant, and of the one that will be woken by it at the end. -/
def PlayPc.toGo : PlayPc → Nat
  | .starting => 9
  | .started => 8
  | .looping => 7
  | .waiting => 6
  | .taken => 10
  | .locked => 9
  | .checking => 8
  | .leaving => 7
  | .passing => 6
  | .finished => 0

/-- The steps of Alex from the test of `num`, with `n` clues left, and of the contestants
he wakes. -/
def rounds (N n : Nat) : Nat := n * (5 * N + 12) + 8

/-- The steps of Alex, and of the contestants he wakes. -/
def AlexPc.toGo (N K num : Nat) : AlexPc → Nat
  | .spinning | .polling => rounds N (K - num) + 1
  | .asking => rounds N (K - num)
  | .calling => rounds N (K - num - 1) + (5 * N + 11)
  | .pausing => rounds N (K - num - 1) + 5
  | .waiting => rounds N (K - num - 1) + 4
  | .taken => rounds N (K - num - 1) + 3
  | .locked => rounds N (K - num - 1) + 2
  | .resuming => rounds N (K - num - 1) + 1
  | .closing => 7
  | .ending => 6
  | .finished => 0

/-- All that is left to do. -/
def State.toGo (K : Nat) (s : State N) : Nat :=
  (∑ c, (s.play c).toGo) + 5 * s.contCv.done + 5 * counted s.board.canBuzzIn +
    s.alex.toGo N K s.board.num

/-- A step counts, unless it belongs to the loop over `ready`. -/
def counts (s : State N) (l : Label N) : Nat :=
  if l = .alex ∧ (s.alex = .spinning ∨ s.alex = .polling ∧ s.board.ready < N) then 0 else 1

theorem rounds_pred {num : Nat} (h : num < K) :
    rounds N (K - num) = rounds N (K - num - 1) + (5 * N + 12) := by
  obtain ⟨n, hn⟩ : ∃ n, K - num = n + 1 := ⟨K - num - 1, by omega⟩
  rw [hn, Nat.add_sub_cancel, rounds, rounds, Nat.succ_mul]
  omega

theorem counted_le (f : Fin N → Bool) : counted f ≤ N := by
  rw [counted]
  exact (Finset.card_le_univ _).trans_eq (Fintype.card_fin N)

/-- An answer costs the buzzer. -/
theorem counted_buzz {b : Board N} {c : Fin N} (hc : b.canBuzzIn c = true) (ans : Nat) :
    counted (b.buzz c ans).canBuzzIn + 1 ≤ counted b.canBuzzIn := by
  refine Finset.card_lt_card (Finset.ssubset_iff_of_subset ?_ |>.mpr ⟨c, by simpa using hc, ?_⟩)
  · intro c' hc'
    simp only [Finset.mem_filter, Finset.mem_univ, true_and] at hc' ⊢
    exact ((canBuzzIn_buzz b c c' ans).mp hc').1
  · simp [canBuzzIn_buzz]

theorem done_complete_le (c : Completion) : c.complete.done ≤ c.done + 1 := by
  unfold Completion.complete
  split <;> simp

theorem done_of_wait {c d : Completion} (h : c.wait = some d) (hc : c.done ≤ 1) :
    c.done = 1 ∧ d.done = 0 := by
  have := Completion.done_wait h (by unfold UINT_MAX; omega)
  omega

/-- What is left after a contestant has moved on. -/
theorem toGo_of_play {c : Fin N} {pc : PlayPc} (hplay : s'.play = Function.update s.play c pc)
    (halex : s'.alex = s.alex) (hnum : s'.board.num = s.board.num)
    (h : 5 * s'.contCv.done + 5 * counted s'.board.canBuzzIn + pc.toGo + 1 ≤
      5 * s.contCv.done + 5 * counted s.board.canBuzzIn + (s.play c).toGo) :
    s'.toGo K + 1 ≤ s.toGo K := by
  have hsum := Machine.sum_update PlayPc.toGo s.play c pc
  rw [State.toGo, State.toGo, hplay, halex, hnum]
  omega

/-- What is left after Alex has moved on. -/
theorem toGo_of_alex {n : Nat} (hplay : s'.play = s.play)
    (h : 5 * s'.contCv.done + 5 * counted s'.board.canBuzzIn + s'.alex.toGo N K s'.board.num + n ≤
      5 * s.contCv.done + 5 * counted s.board.canBuzzIn + s.alex.toGo N K s.board.num) :
    s'.toGo K + n ≤ s.toGo K := by
  rw [State.toGo, State.toGo, hplay]
  omega

theorem counts_play (s : State N) (c : Fin N) (rnd : UInt32) : counts s (.play c rnd) = 1 := by
  simp [counts]

theorem counts_alex (h : s.alex ≠ .spinning ∧ s.alex ≠ .polling) : counts s .alex = 1 := by
  simp [counts, h.1, h.2]

/-! ## the phases of a round -/

/-- The contestant has left the loop. -/
def PlayPc.left : PlayPc → Bool
  | .leaving | .passing | .finished => true
  | _ => false

/-- The contestants have been called, and Alex has not been woken. -/
def AlexPc.called : AlexPc → Bool
  | .pausing | .waiting => true
  | _ => false

/-- Where `num` is, and when the current clue is still open. -/
structure Timely (K : Nat) (s : State N) : Prop where
  playing : s.alex.phase ≠ .idle → s.board.num < K
  left : ∀ c, (s.play c).left = true → K ≤ s.board.num
  called : 0 < s.alexCv.done → s.alex.called = true
  guessing : 0 < N → s.alex.called = true → s.alexCv.done = 0 → Guessing s.board

theorem timely_init (K : Nat) : Timely K (initState N) where
  playing h := absurd rfl h
  left := nofun
  called h := absurd h (Nat.lt_irrefl 0)
  guessing _ := nofun

/-- A contestant that has the token finds Alex before or at his wait, or out of the loops. -/
theorem Carried.called_of_holds (h : Carried K s) {c : Fin N} (hc : (s.play c).holds = true) :
    s.alex.called = true ∨ s.alex = .finished := by
  have hle := h.le_one
  have hpos := holders_pos hc
  unfold tokens at hle
  cases hpc : s.alex <;> simp [hpc, AlexPc.holds, AlexPc.called] at hle ⊢ <;> omega

/-- An answer is given while Alex is before or at his wait. -/
theorem Carried.called_of_buzz (h : Carried K s) {c : Fin N} (hpc : s.play c = .checking)
    (hbuzz : s.board.canBuzzIn c = true) : s.alex.called = true := by
  rcases h.called_of_holds (c := c) (by rw [hpc]; rfl) with hcalled | halex
  · exact hcalled
  · have := h.sound.kept.phase_eq hbuzz
    rw [halex] at this
    contradiction

theorem Timely.playing_step (h : Timely K s) (hs : Effect K s l s') :
    s'.alex.phase ≠ .idle → s'.board.num < K := by
  have hplaying := h.playing
  cases hs with
  | ask hpc hnum => exact fun _ => hnum
  | review hpc => exact fun hp => absurd rfl hp
  | buzz hpc hnum => exact fun _ => by simpa using hnum
  | lock | enroll | unlock | take | reinit | quit | rest | pass => exact hplaying
  | alexLock _ hpc | alexUnlock hpc =>
      rcases hpc with ⟨hpc, rfl⟩ | ⟨hpc, rfl⟩ <;> rw [hpc] at hplaying <;> exact hplaying
  | call hpc =>
      rw [hpc] at hplaying
      exact fun _ => hplaying nofun
  | again hpc | start hpc | close hpc | alexTake hpc | alexReinit hpc | finish hpc =>
      rw [hpc] at hplaying
      exact hplaying

theorem Timely.left_step (h : Timely K s) (hs : Effect K s l s') (c : Fin N)
    (hc : (s'.play c).left = true) : K ≤ s'.board.num := by
  have hleft := h.left c
  cases hs with
  | review hpc =>
      have := h.playing (by simp [hpc, AlexPc.phase])
      have := hleft hc
      omega
  | buzz hpc hnum =>
      rw [num_buzz]
      grind [PlayPc.left]
  | quit hpc hover => exact hover
  | lock | enroll | unlock | take | reinit | rest | pass => grind [PlayPc.left, Board.enroll]
  | alexLock | again | start | ask | close | call | alexUnlock | alexTake | alexReinit | finish =>
      exact hleft hc

/-- Alex is only woken before or at his wait. -/
theorem Timely.called_step (h : Timely K s) (hcarried : Carried K s) (hs : Effect K s l s') :
    0 < s'.alexCv.done → s'.alex.called = true := by
  have hcalled := h.called
  cases hs with
  | buzz hpc hnum hbuzz => exact fun _ => hcarried.called_of_buzz hpc hbuzz
  | call => exact fun _ => rfl
  | alexTake hpc hd =>
      have hdone := done_of_wait hd ((Nat.le_add_left _ _).trans
        ((Nat.le_add_right _ _).trans ((Nat.le_add_right _ _).trans hcarried.le_one)))
      exact fun hpos => absurd hdone.2 (Nat.ne_of_gt hpos)
  | alexReinit => exact fun hpos => absurd hpos (Nat.lt_irrefl 0)
  | lock | enroll | unlock | take | reinit | quit | rest | pass => exact hcalled
  | alexLock _ hpc | alexUnlock hpc =>
      rcases hpc with ⟨hpc, rfl⟩ | ⟨hpc, rfl⟩ <;> rw [hpc] at hcalled <;> exact hcalled
  | again hpc | start hpc | ask hpc | close hpc | review hpc | finish hpc =>
      rw [hpc] at hcalled
      exact hcalled

/-- Until then the clue is open. -/
theorem Timely.guessing_step (h : Timely K s) (hcarried : Carried K s) (hN : 0 < N)
    (hs : Effect K s l s') (hcalled : s'.alex.called = true) (hdone : s'.alexCv.done = 0) :
    Guessing s'.board := by
  have hguessing := h.guessing hN
  cases hs with
  | @buzz c rnd hpc hnum hbuzz =>
      have hnone := (alone hcarried.le_one (.inr ⟨c, by rw [hpc]; rfl⟩)).2
      cases hsettles : s.board.settles (rnd.toNat % K) with
      | true =>
          simp only [hsettles, if_true] at hdone
          rw [Completion.done_complete (by rw [hnone]; decide)] at hdone
          contradiction
      | false => exact (hguessing hcalled hnone).buzz hsettles c
  | @enroll c rnd hpc =>
      -- Alex is still in the loop over `ready`
      have hstarted : s.alex.started = true := by
        cases halex : s.alex <;> simp [halex, AlexPc.called] at hcalled <;> rfl
      have := (hcarried.sound.started hstarted).2 c
      simp [hpc, PlayPc.enrolled] at this
  | call hpc =>
      have hkept := hcarried.sound.kept
      rw [hpc] at hkept
      exact hkept.booked.guessing (hkept.asked rfl).1 hN
  | lock | unlock | take | reinit | quit | rest | pass => exact hguessing hcalled hdone
  | alexLock _ hpc | alexUnlock hpc =>
      rcases hpc with ⟨hpc, rfl⟩ | ⟨hpc, rfl⟩ <;> rw [hpc] at hguessing
      all_goals first | exact hguessing rfl hdone | contradiction
  | again | start | ask | close | alexTake | alexReinit | review | finish => contradiction

theorem Timely.step (h : Timely K s) (hcarried : Carried K s) (hs : Effect K s l s') : Timely K s' :=
  ⟨h.playing_step hs, h.left_step hs, h.called_step hcarried hs,
    fun hN => h.guessing_step hcarried hN hs⟩

theorem timely_of_run {tr : List (State N × Label N)} (h : (final N K).Run tr s) : Timely K s := by
  suffices hI : Carried K s ∧ Timely K s from hI.2
  refine Machine.Run.invariant (I := fun _ s => Carried K s ∧ Timely K s) ?_ ?_ h
  · rintro s rfl
    exact ⟨carried_init K, timely_init K⟩
  · rintro _ s l t ⟨hcarried, htimely⟩ hs
    have he := step_cases hs
    exact ⟨hcarried.step he, htimely.step hcarried he⟩

/-! ## every step is paid for -/

/-- No completion is above 1. -/
theorem Carried.done_le (h : Carried K s) : s.contCv.done ≤ 1 ∧ s.alexCv.done ≤ 1 := by
  have hle := h.le_one
  unfold tokens at hle
  omega

/-- **Every step is paid for.** -/
theorem toGo_step (h : Timely K s) (hcarried : Carried K s) (hK : K < 2 ^ 32) (hs : Effect K s l s') :
    s'.toGo K + counts s l ≤ s.toGo K := by
  cases hs with
  | lock hfree hpc | unlock hpc =>
      rw [counts_play]
      refine toGo_of_play rfl rfl rfl ?_
      rcases hpc with ⟨hpc, rfl⟩ | ⟨hpc, rfl⟩ <;> simp [hpc, PlayPc.toGo]
  | enroll hpc | quit hpc | rest hpc =>
      rw [counts_play]
      exact toGo_of_play rfl rfl rfl (by simp [hpc, PlayPc.toGo, Board.enroll])
  | take hpc hd =>
      rw [counts_play]
      obtain ⟨hone, hzero⟩ := done_of_wait hd hcarried.done_le.1
      refine toGo_of_play rfl rfl rfl ?_
      simp only [hpc, PlayPc.toGo, hone, hzero, board_move]
      omega
  | reinit hpc =>
      rw [counts_play]
      refine toGo_of_play rfl rfl rfl ?_
      simp only [hpc, PlayPc.toGo, Completion.reinit, board_move]
      omega
  | pass hpc =>
      rw [counts_play]
      have hdone := done_complete_le s.contCv
      refine toGo_of_play rfl rfl rfl ?_
      simp only [hpc, PlayPc.toGo, board_move]
      omega
  | @buzz c rnd hpc hnum hbuzz =>
      rw [counts_play]
      have hcount := counted_buzz hbuzz (rnd.toNat % K)
      have hdone : (if s.board.settles (rnd.toNat % K) then s.contCv else s.contCv.complete).done ≤
          s.contCv.done + 1 := by
        split
        · exact Nat.le_succ _
        · exact done_complete_le _
      refine toGo_of_play rfl rfl (num_buzz _ _ _) ?_
      simp only [hpc, PlayPc.toGo]
      omega
  | alexLock hfree hpc =>
      rcases hpc with ⟨hpc, rfl⟩ | ⟨hpc, rfl⟩ <;>
        exact toGo_of_alex rfl (by simp [counts, hpc, AlexPc.toGo, Nat.add_assoc])
  | again hpc hready => exact toGo_of_alex rfl (by simp [counts, hpc, hready, AlexPc.toGo])
  | start hpc hready =>
      exact toGo_of_alex rfl (by simp [counts, hpc, not_lt.mpr hready, AlexPc.toGo, Nat.add_assoc])
  | ask hpc hnum =>
      rw [counts_alex (by simp [hpc])]
      have hrounds := rounds_pred (N := N) hnum
      refine toGo_of_alex rfl ?_
      simp only [hpc, AlexPc.toGo, Board.ask]
      omega
  | close hpc hnum =>
      rw [counts_alex (by simp [hpc])]
      refine toGo_of_alex rfl ?_
      simp only [hpc, AlexPc.toGo, rounds]
      omega
  | call hpc =>
      rw [counts_alex (by simp [hpc])]
      have hdone := done_complete_le s.contCv
      have hcount := counted_le (s.board.setAllBuzzers true).canBuzzIn
      refine toGo_of_alex rfl ?_
      simp only [hpc, AlexPc.toGo]
      simp only [Board.setAllBuzzers] at hcount ⊢
      omega
  | review hpc =>
      rw [counts_alex (by simp [hpc])]
      have hnum := h.playing (by simp [hpc, AlexPc.phase])
      have hcount : counted s.board.review.canBuzzIn = 0 := by simp [Board.review, counted]
      have hnext : s.board.review.num = s.board.num + 1 := by
        rw [Board.review, uinc, Nat.mod_eq_of_lt (by omega)]
      refine toGo_of_alex rfl ?_
      simp only [hpc, AlexPc.toGo, hcount, hnext, Nat.sub_sub]
      omega
  | alexUnlock hpc =>
      rcases hpc with ⟨hpc, rfl⟩ | ⟨hpc, rfl⟩ <;> rw [counts_alex (by simp [hpc])] <;>
        exact toGo_of_alex rfl (by simp [hpc, AlexPc.toGo, Nat.add_assoc])
  | alexTake hpc hd | alexReinit hpc =>
      rw [counts_alex (by simp [hpc])]
      exact toGo_of_alex rfl (by simp [hpc, AlexPc.toGo, Nat.add_assoc])
  | finish hpc =>
      rw [counts_alex (by simp [hpc])]
      have hdone := done_complete_le s.contCv
      refine toGo_of_alex rfl ?_
      simp only [hpc, AlexPc.toGo, Board.checkScores]
      omega

/-- The number of steps of a run. -/
theorem counted_steps_le (hK : K < 2 ^ 32) {tr : List (State N × Label N)}
    (h : (final N K).Run tr s) : Machine.total counts tr + s.toGo K ≤ K * (5 * N + 12) + 9 * N + 9 := by
  have hle := h.cost_le (J := fun s => Timely K s ∧ Carried K s) (B := K * (5 * N + 12) + 9 * N + 9)
    (State.toGo K) counts (fun _ _ => 0) ?_
    (fun _ _ hr => ⟨timely_of_run hr, carried_of_run hr⟩)
    fun s l t hJ hs => toGo_step hJ.1 hJ.2 hK (step_cases hs)
  · simpa [Machine.total] using hle
  · rintro s rfl
    simp [initState, State.toGo, PlayPc.toGo, AlexPc.toGo, Board.init, rounds, counted, Completion.reinit]
    omega

/-! ## where the quiz can still go -/

/-- The contestant has taken the token and will test `num`. -/
def PlayPc.tests : PlayPc → Bool
  | .taken | .locked | .checking => true
  | _ => false

/-- The token is there, and no contestant that may not buzz has taken it. -/
def Playable (K : Nat) (s : State N) : Prop :=
  tokens s = 1 ∧ ∀ c, (s.play c).tests = true → s.board.num < K → s.board.canBuzzIn c = true

/-- A contestant that takes the token will not drop it. -/
def Keeps (K : Nat) (s : State N) : Label N → Prop
  | .play c _ => s.play c = .waiting → s.board.num < K → s.board.canBuzzIn c = true
  | .alex => True

@[grind →] theorem holds_of_tests {pc : PlayPc} (h : pc.tests = true) : pc.holds = true := by
  cases pc <;> trivial

/-- No two contestants have the token. -/
theorem holder_unique (hle : tokens s ≤ 1) {c c' : Fin N} (hc : (s.play c).holds = true)
    (hc' : (s.play c').holds = true) : c = c' := by
  have hcard : counted (fun c => (s.play c).holds) ≤ 1 := by
    unfold tokens at hle
    omega
  exact Finset.card_le_one.mp hcard c (by simpa using hc) c' (by simpa using hc')

/-- Alex does not have it when a contestant has. -/
theorem alex_of_holds (hle : tokens s ≤ 1) {c : Fin N} (hc : (s.play c).holds = true) :
    s.alex.holds = false := by
  have hpos := holders_pos hc
  unfold tokens at hle
  rw [← Bool.not_eq_true, ← Bool.toNat_eq_one]
  omega

/-- The steps that keep the quiz playable. -/
theorem Playable.step (h : Playable K s) (hcarried : Carried K s) (hs : Effect K s l s')
    (hkeeps : Keeps K s l) : Playable K s' := by
  obtain ⟨hone, htests⟩ := h
  have hle := hcarried.le_one
  refine ⟨?_, fun c hc hnum => ?_⟩
  · rcases tokens_step hle hs with ⟨hdrop, -⟩ | ⟨-, hsame⟩
    · cases l with
      | play c rnd =>
          obtain ⟨hpc, hnum, hbuzz⟩ := hdrop
          simp [htests c (by rw [hpc]; rfl) hnum] at hbuzz
      | alex => exact hdrop.elim
    · omega
  · cases hs with
    | call => rfl
    | review hpc =>
        have := alex_of_holds hle (holds_of_tests hc)
        simp [hpc, AlexPc.holds] at this
    | @take c' rnd d hpc hd =>
        by_cases hcc : c = c'
        · subst hcc
          exact hkeeps hpc hnum
        · exact htests c (by grind) hnum
    | @buzz c' rnd hpc hnum' hbuzz =>
        have hcc : c ≠ c' := by
          rintro rfl
          simp [State.move, PlayPc.tests] at hc
        have hc' : (s.play c).tests = true := by simpa [State.move, hcc] using hc
        exact absurd (holder_unique hle (holds_of_tests hc') (by rw [hpc]; rfl)) hcc
    | alexLock | again | start | ask | close | alexUnlock | alexTake | alexReinit | finish =>
        exact htests c hc hnum
    | lock | enroll | unlock | reinit | quit | rest | pass =>
        exact htests c (by grind [PlayPc.tests]) hnum

/-- Once it is not playable, it stays so. -/
theorem Playable.of_step (hcarried : Carried K s) (hs : Effect K s l s') (h : Playable K s') :
    Playable K s := by
  obtain ⟨hone, htests⟩ := h
  have hle := hcarried.le_one
  have hstep := tokens_step hle hs
  refine ⟨by omega, fun c hc hnum => ?_⟩
  have hnone := alone hle (.inr ⟨c, holds_of_tests hc⟩)
  have halex := alex_of_holds hle (holds_of_tests hc)
  cases hs with
  | rest hpc hnum' hbuzz =>
      rcases hstep with ⟨-, hlost⟩ | ⟨hkeep, -⟩
      · omega
      · exact absurd ⟨hpc, hnum', hbuzz⟩ hkeep
  | take hpc hd => simp [Completion.wait, hnone.1] at hd
  | alexTake hpc hd => simp [Completion.wait, hnone.2] at hd
  | @buzz c' rnd hpc hnum' hbuzz =>
      obtain rfl : c = c' := holder_unique hle (holds_of_tests hc) (by rw [hpc]; rfl)
      exact hbuzz
  | @quit c' rnd hpc hover => omega
  | lock | enroll | unlock | reinit | pass => exact htests c (by grind [PlayPc.tests]) hnum
  | alexUnlock hpc => exact htests c hc hnum
  | alexLock _ hpc => rcases hpc with ⟨hpc, -⟩ | ⟨hpc, -⟩ <;> simp [hpc, AlexPc.holds] at halex
  | again hpc | start hpc | ask hpc | close hpc | call hpc | alexReinit hpc | review hpc
  | finish hpc => simp [hpc, AlexPc.holds] at halex

/-! ## somebody can go on -/

/-- The potential can be brought down, and a playable quiz kept playable. -/
def Proceeds (K : Nat) (s : State N) : Prop :=
  ∃ t, Leads K s t ∧ t.toGo K < s.toGo K ∧ (Playable K s → Playable K t)

section proceeds

variable (h : Timely K s) (hcarried : Carried K s) (hK : K < 2 ^ 32)
include h hcarried hK

/-- One step that counts. -/
theorem Proceeds.single (hs : Effect K s l s') (hkeeps : Keeps K s l) (hcounts : counts s l = 1) :
    Proceeds K s := by
  have hpay := toGo_step h hcarried hK hs
  exact ⟨s', leads_of_effect hs, by omega, fun hp => hp.step hcarried hs hkeeps⟩

/-- A step of Alex, in front. -/
theorem Proceeds.head (hs : Effect K s .alex s') (hp : Proceeds K s') : Proceeds K s := by
  obtain ⟨t, ht, hlt, hplayable⟩ := hp
  have hpay := toGo_step h hcarried hK hs
  exact ⟨t, (leads_of_effect hs).trans ht, by omega, fun hp => hplayable (hp.step hcarried hs trivial)⟩

/-- A step of a contestant that does not wait. -/
theorem Proceeds.play {c : Fin N} {rnd : UInt32} (hs : Effect K s (.play c rnd) s')
    (hpc : s.play c ≠ .waiting) : Proceeds K s :=
  .single h hcarried hK hs (fun hw => absurd hw hpc) (counts_play s c rnd)

/-- A step of Alex that counts. -/
theorem Proceeds.alex (hs : Effect K s .alex s') (hpc : s.alex ≠ .spinning ∧ s.alex ≠ .polling) :
    Proceeds K s := .single h hcarried hK hs trivial (counts_alex hpc)

/-- A contestant in a section goes on. -/
theorem proceeds_of_locks {c : Fin N} (hlocks : (s.play c).locks = true) : Proceeds K s := by
  obtain ⟨t, ht⟩ : ∃ t, Effect K s (.play c 0) t := by
    cases hpc : s.play c with
    | started => exact ⟨_, .enroll hpc⟩
    | looping => exact ⟨_, .unlock (.inl ⟨hpc, rfl⟩)⟩
    | locked => exact ⟨_, .reinit hpc⟩
    | leaving => exact ⟨_, .unlock (.inr ⟨hpc, rfl⟩)⟩
    | checking =>
        rcases Nat.lt_or_ge s.board.num K with hnum | hover
        · cases hbuzz : s.board.canBuzzIn c with
          | false => exact ⟨_, .rest hpc hnum hbuzz⟩
          | true => exact ⟨_, .buzz hpc hnum hbuzz⟩
        · exact ⟨_, .quit hpc hover⟩
    | starting | waiting | taken | passing | finished => simp [hpc, PlayPc.locks] at hlocks
  refine .play h hcarried hK ht fun hpc => ?_
  simp [hpc, PlayPc.locks] at hlocks

/-- A contestant that can have the mutex takes it, and one that is out of its loop hands
the token on. -/
theorem proceeds_of_wants (hfree : s.owner = none) {c : Fin N}
    (hpc : s.play c = .starting ∨ s.play c = .taken ∨ s.play c = .passing) : Proceeds K s := by
  obtain ⟨t, ht⟩ : ∃ t, Effect K s (.play c 0) t := by
    rcases hpc with hpc | hpc | hpc
    · exact ⟨_, .lock hfree (.inl ⟨hpc, rfl⟩)⟩
    · exact ⟨_, .lock hfree (.inr ⟨hpc, rfl⟩)⟩
    · exact ⟨_, .pass hpc⟩
  exact .play h hcarried hK ht fun hw => by simp [hw] at hpc

/-- A contestant that waits takes the token. -/
theorem proceeds_of_token {c : Fin N} (hpc : s.play c = .waiting) (hdone : 0 < s.contCv.done)
    (hkeeps : s.board.num < K → s.board.canBuzzIn c = true) : Proceeds K s := by
  obtain ⟨d, hd⟩ : ∃ d, s.contCv.wait = some d := by
    rw [Completion.wait, if_neg (Nat.ne_of_gt hdone)]
    split <;> exact ⟨_, rfl⟩
  exact .single h hcarried hK (l := .play c 0) (.take hpc hd) (fun _ => hkeeps) (counts_play s c 0)

/-- Alex in a section goes on, and lets a contestant in while one is missing. -/
theorem proceeds_of_alexLocks (hN : N < 2 ^ 32) (hlocks : s.alex.locks = true) : Proceeds K s := by
  have hsound := hcarried.sound
  have howner := hsound.lockAlex.mp hlocks
  cases hpc : s.alex with
  | polling =>
      rcases Nat.lt_or_ge s.board.ready N with hready | hready
      · -- one contestant has not counted itself yet
        obtain ⟨c, hc⟩ : ∃ c, (s.play c).enrolled = false := by
          by_contra hnone
          have hall : (fun c => (s.play c).enrolled) = fun _ => true := by
            funext c
            by_contra hc
            exact hnone ⟨c, by simpa using hc⟩
          rw [hsound.ready, hall, counted_true, Nat.mod_eq_of_lt hN] at hready
          exact absurd hready (Nat.lt_irrefl N)
        have hstarting : s.play c = .starting := by
          have hlock := hsound.lock c
          rw [howner] at hlock
          cases hplay : s.play c <;> simp [hplay, PlayPc.locks, PlayPc.enrolled] at hc hlock ⊢
        have hs := Effect.again (K := K) hpc hready
        exact .head h hcarried hK hs (proceeds_of_wants (h.step hcarried hs) (hcarried.step hs) hK rfl
          (.inl hstarting))
      · have hcounts : counts s .alex = 1 := by simp [counts, hpc, not_lt.mpr hready]
        exact .single h hcarried hK (.start hpc hready) trivial hcounts
  | asking =>
      rcases Nat.lt_or_ge s.board.num K with hnum | hover
      · exact .alex h hcarried hK (.ask hpc hnum) (by simp [hpc])
      · exact .alex h hcarried hK (.close hpc hover) (by simp [hpc])
  | calling => exact .alex h hcarried hK (.call hpc) (by simp [hpc])
  | pausing => exact .alex h hcarried hK (.alexUnlock (.inl ⟨hpc, rfl⟩)) (by simp [hpc])
  | locked => exact .alex h hcarried hK (.alexReinit hpc) (by simp [hpc])
  | resuming => exact .alex h hcarried hK (.review hpc) (by simp [hpc])
  | closing => exact .alex h hcarried hK (.alexUnlock (.inr ⟨hpc, rfl⟩)) (by simp [hpc])
  | spinning | waiting | taken | ending | finished => simp [hpc, AlexPc.locks] at hlocks

/-- While all contestants wait or have finished, Alex goes on, or one of them takes the
token. -/
theorem proceeds_of_alex (hN : 0 < N) (hN' : N < 2 ^ 32) (hfree : s.owner = none)
    (hrest : ∀ c, s.play c = .waiting ∨ s.play c = .finished) (hover : ¬ Over s) (hstuck : ¬ Stuck s) :
    Proceeds K s := by
  have hunlocked : s.alex.locks = false := by
    have := hcarried.sound.lockAlex
    grind
  cases hpc : s.alex with
  | spinning =>
      have hs := Effect.alexLock (K := K) hfree (.inl ⟨hpc, rfl⟩)
      exact .head h hcarried hK hs
        (proceeds_of_alexLocks (h.step hcarried hs) (hcarried.step hs) hK hN' rfl)
  | taken => exact .alex h hcarried hK (.alexLock hfree (.inr ⟨hpc, rfl⟩)) (by simp [hpc])
  | ending => exact .alex h hcarried hK (.finish hpc) (by simp [hpc])
  | waiting =>
      cases hd : s.alexCv.wait with
      | some d => exact .alex h hcarried hK (.alexTake hpc hd) (by simp [hpc])
      | none =>
          have hnone : s.alexCv.done = 0 := by
            by_contra hne
            rw [Completion.wait, if_neg hne] at hd
            split at hd <;> contradiction
          have hdone : 0 < s.contCv.done :=
            Nat.pos_of_ne_zero fun hzero => hstuck ⟨hpc, hnone, hzero, hrest⟩
          -- the clue is open, and whoever may buzz waits
          have hcalled : s.alex.called = true := by rw [hpc]; rfl
          obtain ⟨c, hc⟩ := (h.guessing hN hcalled hnone).exists_canBuzzIn hcarried.sound.kept.booked hN'
          rcases hrest c with hw | hf
          · exact proceeds_of_token h hcarried hK hw hdone fun _ => hc
          · have := h.left c (by rw [hf]; rfl)
            have := h.playing (by simp [hpc, AlexPc.phase])
            omega
  | finished =>
      have hholders : counted (fun c => (s.play c).holds) = 0 := by
        refine Finset.card_eq_zero.mpr (Finset.filter_eq_empty_iff.mpr fun c _ => ?_)
        rcases hrest c with hc | hc <;> simp [hc, PlayPc.holds]
      have hnone : s.alexCv.done = 0 := by
        by_contra hne
        have := h.called (Nat.pos_of_ne_zero hne)
        simp [hpc, AlexPc.called] at this
      have hdone : 0 < s.contCv.done := by
        have hone := hcarried.finished hpc
        rw [tokens, hholders, hnone, hpc, show AlexPc.finished.holds.toNat = 0 from rfl] at hone
        omega
      obtain ⟨c, hc⟩ : ∃ c, s.play c ≠ .finished := by
        by_contra hall
        exact hover ⟨hpc, fun c => by_contra fun hc => hall ⟨c, hc⟩⟩
      have hlast := hcarried.sound.past (by rw [hpc]; rfl)
      exact proceeds_of_token h hcarried hK ((hrest c).resolve_right hc) hdone
        fun hnum => absurd hlast (not_le.mpr hnum)
  | polling | asking | calling | pausing | locked | resuming | closing =>
      simp [hpc, AlexPc.locks] at hunlocked

/-- **Somebody can go on**, until the quiz is over or stuck. -/
theorem proceeds (hN : 0 < N) (hN' : N < 2 ^ 32) (hover : ¬ Over s) (hstuck : ¬ Stuck s) :
    Proceeds K s := by
  have hsound := hcarried.sound
  cases howner : s.owner with
  | some t =>
      cases t with
      | alex => exact proceeds_of_alexLocks h hcarried hK hN' (hsound.lockAlex.mpr howner)
      | cont c => exact proceeds_of_locks h hcarried hK ((hsound.lock c).mpr howner)
  | none =>
      by_cases hwants : ∃ c, s.play c = .starting ∨ s.play c = .taken ∨ s.play c = .passing
      · obtain ⟨c, hc⟩ := hwants
        exact proceeds_of_wants h hcarried hK howner hc
      · refine proceeds_of_alex h hcarried hK hN hN' howner (fun c => ?_) hover hstuck
        have hlock := hsound.lock c
        have hc := not_exists.mp hwants c
        rw [howner] at hlock
        cases hpc : s.play c <;> simp [hpc, PlayPc.locks] at hlock hc ⊢

end proceeds

/-- There the threads are at a dead end. -/
theorem step_eq_none (h : Over s ∨ Stuck s) (l : Label N) : Final.step K s l = none := by
  rcases h with ⟨halex, hplay⟩ | ⟨halex, hdone, hdone', hplay⟩
  · cases l with
    | play c rnd => simp [Final.step, playStep, hplay c]
    | alex => simp [Final.step, alexStep, halex]
  · cases l with
    | play c rnd =>
        rcases hplay c with hpc | hpc <;> simp [Final.step, playStep, hpc, Completion.wait, hdone']
    | alex => simp [Final.step, alexStep, halex, Completion.wait, hdone]

/-- There are no other dead ends. -/
theorem dead_end_iff (hN : 0 < N) (hN' : N < 2 ^ 32) (hK : K < 2 ^ 32) {tr : List (State N × Label N)}
    (h : (final N K).Run tr s) : (∀ l, (final N K).step s l = none) ↔ Over s ∨ Stuck s := by
  refine ⟨fun hdead => ?_, step_eq_none⟩
  by_contra hnot
  rw [not_or] at hnot
  obtain ⟨t, ht, hlt, -⟩ := proceeds (timely_of_run h) (carried_of_run h) hK hN hN' hnot.1 hnot.2
  obtain ⟨l, u, -, hs⟩ := ht.exists_step (fun heq => by simp [heq] at hlt)
  simp [hdead l] at hs

/-- **The kernel quiz comes to an end, or gets stuck.**  In every run the steps outside of
the loop over `ready` are bounded, and the only states where no thread can take a step
are those where all threads have returned and those where nobody has the token. -/
theorem ends_or_sticks (hN : 0 < N) (hN' : N < 2 ^ 32) (hK : K < 2 ^ 32) {tr : List (State N × Label N)}
    (h : (final N K).Run tr s) :
    Machine.total counts tr ≤ K * (5 * N + 12) + 9 * N + 9 ∧
    ((∀ l, (final N K).step s l = none) ↔ Over s ∨ Stuck s) := by
  refine ⟨?_, dead_end_iff hN hN' hK h⟩
  have := counted_steps_le hK h
  omega

theorem ends_or_sticks_ownToken : ∃ tr s, (final 3 4).Run tr s ∧ Stuck s ∧
    ∀ l, (final 3 4).step s l = none := by
  obtain ⟨s, hrun, hs⟩ := Machine.exists_run_of_exec (M := final 3 4) (s := initState 3) rfl
    ownToken (b := fun s => decide (Stuck s)) (by decide)
  have hstuck : Stuck s := of_decide_eq_true hs
  exact ⟨_, s, hrun, hstuck, (ends_or_sticks (by decide) (by decide) (by decide) hrun).2.mpr (.inr hstuck)⟩

/-- While Alex has the token, the quiz can be played. -/
theorem Carried.playable (h : Carried K s) (halex : s.alex.holds = true) : Playable K s := by
  have hle := h.le_one
  refine ⟨?_, fun c hc => ?_⟩
  · unfold tokens at hle ⊢
    rw [halex, Bool.toNat_true] at hle ⊢
    omega
  · have := alex_of_holds hle (holds_of_tests hc)
    simp [halex] at this

/-- When all threads have returned, it has been. -/
theorem playable_of_over (hcarried : Carried K s) (h : Over s) : Playable K s := by
  refine ⟨hcarried.finished h.1, fun c hc => ?_⟩
  simp [h.2 c, PlayPc.tests] at hc

/-- Once it cannot be played any more, every step counts, and it stays so. -/
theorem length_add_toGo_le (hK : K < 2 ^ 32) {tr : List (State N × Label N)} (h : (final N K).Run tr s)
    (hnot : ¬ Playable K s) {ls : List (Label N)} {t : State N}
    (ht : (final N K).exec s ls = some t) : ¬ Playable K t ∧ ls.length + t.toGo K ≤ s.toGo K := by
  induction ls generalizing tr s with
  | nil =>
      obtain rfl := Option.some.inj ht
      exact ⟨hnot, by simp⟩
  | cons l ls ih =>
      obtain ⟨u, hu, hut⟩ := Option.bind_eq_some_iff.mp ht
      have hcarried := carried_of_run h
      have he := step_cases hu
      obtain ⟨hlost, hle⟩ := ih (h.next hu) (fun hp => hnot (hp.of_step hcarried he)) hut
      have hcounts : counts s l = 1 := by
        cases l with
        | play c rnd => exact counts_play s c rnd
        | alex =>
            refine counts_alex ⟨fun hpc => ?_, fun hpc => ?_⟩ <;>
              exact hnot (hcarried.playable (by rw [hpc]; rfl))
      have hpay := toGo_step (timely_of_run h) hcarried hK he
      refine ⟨hlost, ?_⟩
      rw [List.length_cons]
      omega

/-- **Whether the kernel quiz can still be finished.**  From a reachable state some
schedule, with some values of `get_random_int()`, lets all threads return exactly when the
token is there and no contestant that may not buzz has taken it, with a clue left.  From every
other reachable state all schedules are bounded, and they end where the quiz is stuck. -/
theorem can_end_iff (hN : 0 < N) (hN' : N < 2 ^ 32) (hK : K < 2 ^ 32) {tr : List (State N × Label N)}
    (h : (final N K).Run tr s) :
    ((∃ t, (final N K).Reach (fun _ => True) s t ∧ Over t) ↔ Playable K s) ∧
    (¬ Playable K s → ∀ ls t, (final N K).exec s ls = some t →
      ls.length ≤ K * (5 * N + 12) + 9 * N + 9 ∧
      ((∀ l, (final N K).step t l = none) ↔ Stuck t)) := by
  refine ⟨⟨?_, fun hp => ?_⟩, fun hnot ls t ht => ?_⟩
  · rintro ⟨t, ht, hover⟩
    obtain ⟨tr', hrun, -⟩ := h.extend ht
    exact ht.of_step (J := Carried K) (fun _ _ _ hJ hs => hJ.step (step_cases hs))
      (fun _ _ _ hJ hs hp => hp.of_step hJ (step_cases hs)) (carried_of_run h)
      (playable_of_over (carried_of_run hrun) hover)
  · refine Machine.Run.exists_reach (R := Playable K) (State.toGo K)
      (fun tr s hrun hR hover => ?_) h hp
    have hstuck : ¬ Stuck s := fun hstuck => by
      have := hstuck.tokens_eq
      have := hR.1
      omega
    obtain ⟨t, ht, hlt, hplayable⟩ :=
      proceeds (timely_of_run hrun) (carried_of_run hrun) hK hN hN' hover hstuck
    exact ⟨t, ht, hplayable hR, hlt⟩
  · obtain ⟨hlost, hle⟩ := length_add_toGo_le hK h hnot ht
    have hrun := h.replay ht
    have hsteps := counted_steps_le hK h
    refine ⟨by omega, (dead_end_iff hN hN' hK hrun).trans (or_iff_right fun hover => ?_)⟩
    exact hlost (playable_of_over (carried_of_run hrun) hover)

/-- The first contestant guesses wrong, and has taken its own token. -/
def ownTokenTaken : List (Label 3) := ownToken.take 20

/-- Two ends: while all contestants wait the quiz can be played, and after `ownTokenTaken` all
schedules get stuck. -/
theorem can_end_iff_firstClue :
    (∃ tr s, (final 3 4).Run tr s ∧ s.alex = .waiting ∧
      ∃ t, (final 3 4).Reach (fun _ => True) s t ∧ Over t) ∧
    ∃ tr s, (final 3 4).Run tr s ∧ ∀ ls t, (final 3 4).exec s ls = some t →
      ((∀ l, (final 3 4).step t l = none) ↔ Stuck t) := by
  constructor
  · obtain ⟨s, hrun, hs⟩ := Machine.exists_run_of_exec (M := final 3 4) (s := initState 3) rfl
      firstClue (b := fun s => s.alex == .waiting && (tokens s == 1 && decide (∀ c, s.play c = .waiting)))
      (by decide)
    simp only [Bool.and_eq_true, beq_iff_eq, decide_eq_true_eq] at hs
    obtain ⟨halex, htokens, hplay⟩ := hs
    refine ⟨_, s, hrun, halex, (can_end_iff (by decide) (by decide) (by decide) hrun).1.mpr ⟨htokens, ?_⟩⟩
    intro c hc
    simp [hplay c, PlayPc.tests] at hc
  · obtain ⟨s, hrun, hs⟩ := Machine.exists_run_of_exec (M := final 3 4) (s := initState 3) rfl
      ownTokenTaken (b := fun s => (s.play 0).tests && (decide (s.board.num < 4) && !s.board.canBuzzIn 0))
      (by decide)
    simp only [Bool.and_eq_true, decide_eq_true_eq, Bool.not_eq_true'] at hs
    obtain ⟨htests, hnum, hbuzz⟩ := hs
    have hnot : ¬ Playable 4 s := fun hp => by simp [hp.2 0 htests hnum] at hbuzz
    exact ⟨_, s, hrun, fun ls t ht =>
      ((can_end_iff (by decide) (by decide) (by decide) hrun).2 hnot ls t ht).2⟩

end Cmsc421.Quiz.Final
