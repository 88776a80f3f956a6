import Cmsc421.Quiz.MidtermTranscript
import Mathlib.Algebra.Order.BigOperators.Group.Finset

/-!
# Cmsc421.Quiz.MidtermEnd

`midterm.c` comes to an end.

The only step that can be repeated without getting anywhere is `main`'s test of `ready`.
All others are paid from a potential: what a contestant still has to do before it waits
again (`PlayPc.toGo`), and what `main` has left, with the wake-ups it will cause
(`MainPc.toGo`).  A spurious wake-up has to be paid for extra.  So the number of steps is
bounded in every schedule, and in every state that can be reached somebody can bring the
potential down, until all contestants have been joined (`ends_of_run`).
-/

namespace Cmsc421.Quiz.Midterm

variable {N K : Nat} {s s' : State N} {l : Label N}

/-! ## what is left to do -/

/-- The steps of a contestant up to its next wait. -/
def PlayPc.toGo : PlayPc → Nat
  | .starting => 2
  | .started => 1
  | .waiting => 0
  | .woken => 3
  | .checking => 2
  | .sleeping => 1
  | .leaving => 1
  | .finished => 0

/-- The steps of `main` from the test of `num`, with `n` clues left, and of the
contestants it wakes. -/
def rounds (N n : Nat) : Nat := n * (3 * N + 5) + (4 * N + 3)

/-- The steps of `main`, and of the contestants it wakes. -/
def MainPc.toGo (N K num : Nat) : MainPc → Nat
  | .spinning | .polling => rounds N (K - num) + 1
  | .asking => rounds N (K - num)
  | .calling => rounds N (K - num - 1) + (3 * N + 4)
  | .pausing => rounds N (K - num - 1) + 3
  | .waiting | .woken => rounds N (K - num - 1) + 2
  | .resuming => rounds N (K - num - 1) + 1
  | .closing => 4 * N + 2
  | .unlocking => N + 1
  | .joining k => N - k

/-- All that is left to do. -/
def State.toGo (K : Nat) (s : State N) : Nat := (∑ c, (s.play c).toGo) + s.main.toGo N K s.board.num

/-- A step counts, unless it belongs to the loop over `ready`. -/
def counts (s : State N) (l : Label N) : Nat :=
  if l = .main ∧ (s.main = .spinning ∨ s.main = .polling ∧ s.board.ready < N) then 0 else 1

/-- A spurious wake-up of a contestant sends it once more around its loop, and one of
`main` is a single step that would have come. -/
def allowed : State N → Label N → Nat
  | _, .play _ _ | _, .main => 0
  | _, .spuriousPlay _ => 4
  | _, .spuriousMain => 1

theorem rounds_pred {num : Nat} (h : num < K) :
    rounds N (K - num) = rounds N (K - num - 1) + (3 * N + 5) := by
  obtain ⟨n, hn⟩ : ∃ n, K - num = n + 1 := ⟨K - num - 1, by omega⟩
  rw [hn, Nat.add_sub_cancel, rounds, rounds, Nat.succ_mul]
  omega

theorem toGo_signal (num : Nat) (pc : MainPc) : pc.signal.toGo N K num = pc.toGo N K num := by
  cases pc <;> rfl

/-- A broadcast costs the way of all contestants. -/
theorem toGo_broadcast (play : Fin N → PlayPc) :
    (∑ c, (play c).broadcast.toGo) ≤ (∑ c, (play c).toGo) + 3 * N := by
  have hle : ∀ c ∈ Finset.univ, (play c).broadcast.toGo ≤ (play c).toGo + 3 := by
    intro c _
    cases play c <;> simp [PlayPc.broadcast, PlayPc.toGo]
  refine (Finset.sum_le_sum hle).trans ?_
  rw [Finset.sum_add_distrib, Finset.sum_const_nat (fun _ _ => rfl), Finset.card_univ,
    Fintype.card_fin, Nat.mul_comm]

/-- What is left after a contestant has moved on. -/
theorem toGo_of_play {c : Fin N} {pc : PlayPc} {n : Nat}
    (hplay : s'.play = Function.update s.play c pc)
    (hmain : s'.main.toGo N K s'.board.num = s.main.toGo N K s.board.num)
    (hpc : pc.toGo + 1 ≤ (s.play c).toGo + n) : s'.toGo K + 1 ≤ s.toGo K + n := by
  have hsum := Machine.sum_update PlayPc.toGo s.play c pc
  rw [State.toGo, State.toGo, hplay, hmain]
  omega

/-- What is left after `main` has moved on. -/
theorem toGo_of_main {m n : Nat} (hplay : s'.play = s.play)
    (hmain : s'.main.toGo N K s'.board.num + m ≤ s.main.toGo N K s.board.num + n) :
    s'.toGo K + m ≤ s.toGo K + n := by
  rw [State.toGo, State.toGo, hplay]
  omega

/-- What is left after `main` has woken the contestants. -/
theorem toGo_of_broadcast (hplay : s'.play = fun c => (s.play c).broadcast)
    (hmain : s'.main.toGo N K s'.board.num + 3 * N + 1 ≤ s.main.toGo N K s.board.num) :
    s'.toGo K + 1 ≤ s.toGo K := by
  have hsum := toGo_broadcast s.play
  simp only [State.toGo, hplay]
  omega

theorem counts_play (s : State N) (c : Fin N) (rnd : UInt32) : counts s (.play c rnd) = 1 := by
  simp [counts]

theorem counts_main (h : s.main ≠ .spinning ∧ s.main ≠ .polling) : counts s .main = 1 := by
  simp [counts, h.1, h.2]

/-- **Every step is paid for.** -/
theorem toGo_step (hsound : Sound K s) (hK : K < 2 ^ 32) (hs : Effect K s l s') :
    s'.toGo K + counts s l ≤ s.toGo K + allowed s l := by
  cases hs with
  | lock hfree hpc =>
      rw [counts_play]
      refine toGo_of_play rfl rfl ?_
      rcases hpc with ⟨hpc, rfl⟩ | ⟨hpc, rfl⟩ <;> simp [hpc, PlayPc.toGo]
  | enroll hpc | quit hpc | leave hpc =>
      rw [counts_play]
      exact toGo_of_play rfl rfl (by simp [hpc, PlayPc.toGo])
  | rest hpc =>
      rw [counts_play]
      refine toGo_of_play rfl rfl ?_
      rcases hpc with ⟨hpc, -⟩ | hpc <;> simp [hpc, PlayPc.toGo, allowed]
  | @buzz c rnd hpc hnum hbuzz =>
      rw [counts_play]
      refine toGo_of_play rfl ?_ (by simp [hpc, PlayPc.toGo])
      rw [num_buzz]
      dsimp only
      split
      · exact toGo_signal _ _
      · rfl
  | mainLock hfree hpc =>
      rcases hpc with ⟨hpc, rfl⟩ | ⟨hpc, rfl⟩
      · exact toGo_of_main rfl (by simp [counts, allowed, hpc, MainPc.toGo])
      · exact toGo_of_main rfl (by simp [counts, allowed, hpc, MainPc.toGo])
  | again hpc hready => exact toGo_of_main rfl (by simp [counts, allowed, hpc, hready, MainPc.toGo])
  | start hpc hready =>
      exact toGo_of_main rfl (by simp [counts, allowed, hpc, not_lt.mpr hready, MainPc.toGo])
  | ask hpc hnum =>
      rw [counts_main (by simp [hpc])]
      refine toGo_of_main rfl ?_
      have hrounds := rounds_pred (N := N) hnum
      simp only [hpc, MainPc.toGo, allowed, Board.ask]
      omega
  | close hpc hnum =>
      rw [counts_main (by simp [hpc])]
      refine toGo_of_main rfl ?_
      simp only [hpc, MainPc.toGo, allowed, rounds]
      omega
  | call hpc =>
      rw [counts_main (by simp [hpc])]
      refine toGo_of_broadcast rfl ?_
      simp only [hpc, MainPc.toGo, Board.setAllBuzzers]
      omega
  | dismiss hpc =>
      rw [counts_main (by simp [hpc])]
      refine toGo_of_broadcast rfl ?_
      simp only [hpc, MainPc.toGo]
      omega
  | review hpc =>
      rw [counts_main (by simp [hpc])]
      refine toGo_of_main rfl ?_
      have hnum := hsound.playing (by rw [hpc]; rfl)
      rw [hpc, Board.review, uinc, Nat.mod_eq_of_lt (by omega)]
      simp [MainPc.toGo, allowed, Nat.sub_sub]
  | pause hpc | unlock hpc =>
      rw [counts_main (by simp [hpc])]
      exact toGo_of_main rfl (by simp [hpc, MainPc.toGo, allowed])
  | @join k hpc hk hfinished =>
      rw [counts_main (by simp [hpc])]
      refine toGo_of_main rfl ?_
      simp only [hpc, MainPc.toGo, allowed]
      omega
  | spuriousPlay hpc =>
      rw [counts, if_neg (by simp)]
      exact toGo_of_play rfl rfl (by simp [hpc, PlayPc.toGo, allowed])
  | spuriousMain hpc =>
      rw [counts, if_neg (by simp)]
      exact toGo_of_main rfl (by simp [hpc, MainPc.toGo, allowed])

/-- The number of steps of a run. -/
theorem counted_steps_le (hK : K < 2 ^ 32) {tr : List (State N × Label N)}
    (h : (midterm N K).Run tr s) :
    Machine.total counts tr + s.toGo K ≤
      K * (3 * N + 5) + 6 * N + 4 + Machine.total allowed tr := by
  refine h.cost_le (J := Sound K) (State.toGo K) counts allowed ?_ (fun _ _ => sound_of_run)
    fun s l t hJ hs => toGo_step hJ hK (step_cases hs)
  rintro s rfl
  simp [initState, State.toGo, PlayPc.toGo, MainPc.toGo, Board.init, rounds]
  omega

/-! ## somebody can always go on -/

/-- How many contestants `main` has joined. -/
def MainPc.joined : MainPc → Nat
  | .joining k => k
  | _ => 0

theorem joined_signal (pc : MainPc) : pc.signal.joined = pc.joined := by cases pc <;> rfl

/-- The contestants that `main` has joined have finished. -/
structure Joined (s : State N) : Prop where
  le : s.main.joined ≤ N
  finished : ∀ c : Fin N, c.val < s.main.joined → s.play c = .finished

theorem Joined.step (h : Joined s) (hs : Effect K s l s') : Joined s' := by
  have hle := h.le
  have hfinished := h.finished
  cases hs with
  | @join k hpc hk hdone =>
      rw [hpc] at hfinished
      refine ⟨hk, fun c hc => ?_⟩
      rcases Nat.lt_succ_iff_lt_or_eq.mp hc with hlt | heq
      · exact hfinished c hlt
      · obtain rfl : c = ⟨k, hk⟩ := Fin.ext heq
        exact hdone
  | buzz | lock | enroll | rest | quit | leave | spuriousPlay =>
      constructor <;> grind [joined_signal]
  | mainLock _ hpc =>
      rcases hpc with ⟨-, rfl⟩ | ⟨-, rfl⟩ <;> exact ⟨Nat.zero_le N, nofun⟩
  | again | start | ask | close | call | pause | review | dismiss | unlock | spuriousMain =>
      exact ⟨Nat.zero_le N, nofun⟩

theorem joined_of_run {tr : List (State N × Label N)} (h : (midterm N K).Run tr s) : Joined s := by
  refine Machine.Run.invariant (I := fun _ s => Joined s) ?_ ?_ h
  · rintro s rfl
    exact ⟨Nat.zero_le N, nofun⟩
  · intro _ s l t hI hs
    exact hI.step (step_cases hs)

/-- Somebody can bring the potential down. -/
def Proceeds (K : Nat) (s : State N) : Prop := ∃ t, Leads K s t ∧ t.toGo K < s.toGo K

/-- One step that counts. -/
theorem Proceeds.single (hsound : Sound K s) (hK : K < 2 ^ 32) (hl : Scheduled l)
    (hs : Effect K s l s') (hcounts : counts s l = 1) : Proceeds K s := by
  have hpay := toGo_step hsound hK hs
  have hfree : allowed s l = 0 := by
    cases l with
    | play | main => rfl
    | spuriousPlay | spuriousMain => exact absurd hl id
  exact ⟨s', leads_of_effect hl hs, by omega⟩

/-- One that does not count, in front. -/
theorem Proceeds.head (hsound : Sound K s) (hK : K < 2 ^ 32) (hs : Effect K s .main s')
    (h : Proceeds K s') : Proceeds K s := by
  obtain ⟨t, ht, hlt⟩ := h
  have hpay := toGo_step hsound hK hs
  simp only [allowed] at hpay
  exact ⟨t, (leads_of_effect (l := .main) trivial hs).trans ht, by omega⟩

/-- A contestant that can have the mutex takes it. -/
theorem proceeds_of_lock (hsound : Sound K s) (hK : K < 2 ^ 32) (hfree : s.owner = none) {c : Fin N}
    (hpc : s.play c = .starting ∨ s.play c = .woken) : Proceeds K s := by
  obtain ⟨t, ht⟩ : ∃ t, Effect K s (.play c 0) t := by
    rcases hpc with hpc | hpc
    · exact ⟨_, .lock hfree (.inl ⟨hpc, rfl⟩)⟩
    · exact ⟨_, .lock hfree (.inr ⟨hpc, rfl⟩)⟩
  exact .single hsound hK (l := .play c 0) trivial ht (counts_play s c 0)

/-- A contestant in a section goes on. -/
theorem proceeds_of_locked (hsound : Sound K s) (hK : K < 2 ^ 32) {c : Fin N}
    (hlocked : (s.play c).locked = true) : Proceeds K s := by
  obtain ⟨t, ht⟩ : ∃ t, Effect K s (.play c 0) t := by
    cases hpc : s.play c with
    | started => exact ⟨_, .enroll hpc⟩
    | sleeping => exact ⟨_, .rest (.inr hpc)⟩
    | leaving => exact ⟨_, .leave hpc⟩
    | checking =>
        rcases Nat.lt_or_ge s.board.num K with hnum | hover
        · cases hbuzz : s.board.canBuzzIn c with
          | false => exact ⟨_, .rest (.inl ⟨hpc, hnum, hbuzz⟩)⟩
          | true => exact ⟨_, .buzz hpc hnum hbuzz⟩
        · exact ⟨_, .quit hpc hover⟩
    | starting | waiting | woken | finished => simp [hpc, PlayPc.locked] at hlocked
  exact .single hsound hK (l := .play c 0) trivial ht (counts_play s c 0)

/-- A contestant that has not counted itself, and does not have the mutex, is about to
take it. -/
theorem starting_of_ready {c : Fin N} (hlocked : (s.play c).locked = false)
    (h : (s.play c).enrolled = false) : s.play c = .starting := by
  cases hpc : s.play c <;> simp [hpc, PlayPc.locked, PlayPc.enrolled] at hlocked h ⊢

/-- `main` in a section goes on, and lets a contestant in while one is missing. -/
theorem proceeds_of_mainLocked (hsound : Sound K s) (hN : N < 2 ^ 32) (hK : K < 2 ^ 32)
    (hlocked : s.main.locked = true) : Proceeds K s := by
  have howner := hsound.lockMain.mp hlocked
  have hmain {t : State N} (ht : Effect K s .main t) (hne : s.main ≠ .spinning ∧ s.main ≠ .polling) :
      Proceeds K s := .single hsound hK (l := .main) trivial ht (counts_main hne)
  cases hpc : s.main with
  | polling =>
      rcases Nat.lt_or_ge s.board.ready N with hready | hready
      · -- one contestant has not counted itself yet
        obtain ⟨c, hc⟩ : ∃ c, (s.play c).enrolled = false := by
          by_contra hnone
          have hall : (fun c => (s.play c).enrolled) = fun _ => true := by
            funext c
            by_contra hc
            exact hnone ⟨c, by simpa using hc⟩
          rw [hsound.ready, hall, counted_true, Nat.mod_eq_of_lt hN] at hready
          exact absurd hready (Nat.lt_irrefl N)
        have hclocked : (s.play c).locked = false := by
          have := hsound.lock c
          grind
        have hs := Effect.again (K := K) hpc hready
        exact .head hsound hK hs (proceeds_of_lock (hsound.step (step_of_effect hs)) hK rfl
          (.inl (starting_of_ready hclocked hc)))
      · have hcounts : counts s .main = 1 := by simp [counts, hpc, not_lt.mpr hready]
        exact .single hsound hK (l := .main) trivial (.start hpc hready) hcounts
  | asking =>
      rcases Nat.lt_or_ge s.board.num K with hnum | hover
      · exact hmain (.ask hpc hnum) (by simp [hpc])
      · exact hmain (.close hpc hover) (by simp [hpc])
  | calling => exact hmain (.call hpc) (by simp [hpc])
  | pausing => exact hmain (.pause hpc) (by simp [hpc])
  | resuming => exact hmain (.review hpc) (by simp [hpc])
  | closing => exact hmain (.dismiss hpc) (by simp [hpc])
  | unlocking => exact hmain (.unlock hpc) (by simp [hpc])
  | spinning | waiting | woken | joining => simp [hpc, MainPc.locked] at hlocked

/-- Nobody has the mutex, and no contestant wants it. -/
theorem waiting_or_finished (hsound : Sound K s) (hfree : s.owner = none)
    (hnone : ∀ c, ¬ (s.play c = .starting ∨ s.play c = .woken)) (c : Fin N) :
    s.play c = .waiting ∨ s.play c = .finished := by
  have hlocked : (s.play c).locked = false := by
    have := hsound.lock c
    grind
  have hc := hnone c
  cases hpc : s.play c <;> simp [hpc, PlayPc.locked] at hlocked hc ⊢

/-- Then `main` goes on. -/
theorem proceeds_of_main (hsound : Sound K s) (hplayed : Played s) (hjoined : Joined s) (hN : 0 < N)
    (hN' : N < 2 ^ 32) (hK : K < 2 ^ 32) (hfree : s.owner = none)
    (hrest : ∀ c, s.play c = .waiting ∨ s.play c = .finished) (hmain : s.main ≠ .joining N) :
    Proceeds K s := by
  have hunlocked : s.main.locked = false := by
    have := hsound.lockMain
    grind
  cases hpc : s.main with
  | spinning =>
      have hs := Effect.mainLock (K := K) hfree (.inl ⟨hpc, rfl⟩)
      exact .head hsound hK hs (proceeds_of_mainLocked (hsound.step (step_of_effect hs)) hN' hK rfl)
  | woken =>
      have hs := Effect.mainLock (K := K) hfree (.inr ⟨hpc, rfl⟩)
      exact .single hsound hK (l := .main) trivial hs (counts_main (by simp [hpc]))
  | waiting =>
      -- somebody may buzz, and is on its way
      have hg := hplayed.guessing hN (by rw [hpc]; rfl)
      obtain ⟨c, hc⟩ := hg.exists_canBuzzIn hplayed.booked hN'
      rcases hsound.awake (by rw [hpc]; rfl) c hc with hw | hw <;>
        rcases hrest c with hr | hr <;> simp [hw] at hr
  | joining k =>
      have hle := hjoined.le
      rw [hpc] at hle hmain
      have hk : k < N := lt_of_le_of_ne hle fun h => hmain (by rw [h])
      have hdismissed := hsound.closed (by rw [hpc]; rfl) ⟨k, hk⟩
      have hdone : s.play ⟨k, hk⟩ = .finished := by
        rcases hrest ⟨k, hk⟩ with hr | hr
        · simp [hr, PlayPc.dismissed] at hdismissed
        · exact hr
      exact .single hsound hK (l := .main) trivial (.join hpc hk hdone) (counts_main (by simp [hpc]))
  | polling | asking | calling | pausing | resuming | closing | unlocking =>
      simp [hpc, MainPc.locked] at hunlocked

/-- **Somebody can go on**, until all contestants have been joined. -/
theorem proceeds (hsound : Sound K s) (hplayed : Played s) (hjoined : Joined s) (hN : 0 < N)
    (hN' : N < 2 ^ 32) (hK : K < 2 ^ 32) (hmain : s.main ≠ .joining N) : Proceeds K s := by
  cases howner : s.owner with
  | some t =>
      cases t with
      | alex => exact proceeds_of_mainLocked hsound hN' hK (hsound.lockMain.mpr howner)
      | cont c => exact proceeds_of_locked hsound hK ((hsound.lock c).mpr howner)
  | none =>
      by_cases hwants : ∃ c, s.play c = .starting ∨ s.play c = .woken
      · obtain ⟨c, hc⟩ := hwants
        exact proceeds_of_lock hsound hK howner hc
      · rw [not_exists] at hwants
        exact proceeds_of_main hsound hplayed hjoined hN hN' hK howner
          (waiting_or_finished hsound howner hwants) hmain

/-- After the last join all threads are done. -/
theorem Joined.done (h : Joined s) (hmain : s.main = .joining N) (l : Label N) :
    Midterm.step K s l = none := by
  have hfinished : ∀ c, s.play c = .finished := fun c => h.finished c (by rw [hmain]; exact c.isLt)
  cases l with
  | play c rnd => simp [Midterm.step, playStep, hfinished c]
  | main => simp [Midterm.step, mainStep, hmain]
  | spuriousPlay c => simp [Midterm.step, hfinished c]
  | spuriousMain => simp [Midterm.step, hmain]

/-- **The pthread quiz comes to an end.**  In every run the steps outside of the loop over
`ready` are bounded, up to what spurious wake-ups cost; from every reachable state all
contestants can still be joined, without a spurious wake-up; and then no thread has
anything left to do. -/
theorem ends_of_run (hN : 0 < N) (hN' : N < 2 ^ 32) (hK : K < 2 ^ 32) {tr : List (State N × Label N)}
    (h : (midterm N K).Run tr s) :
    Machine.total counts tr ≤ K * (3 * N + 5) + 6 * N + 4 + Machine.total allowed tr ∧
    (∃ t, (midterm N K).Reach Scheduled s t ∧ t.main = .joining N) ∧
    (s.main = .joining N → ∀ l, (midterm N K).step s l = none) := by
  refine ⟨?_, ?_, fun hmain l => (joined_of_run h).done hmain l⟩
  · have := counted_steps_le hK h
    omega
  · refine Machine.Run.exists_reach (R := fun _ => True) (State.toGo K)
      (fun tr s hrun _ hmain => ?_) h trivial
    obtain ⟨t, ht, hlt⟩ :=
      proceeds (sound_of_run hrun) (played_of_run hrun) (joined_of_run hrun) hN hN' hK hmain
    exact ⟨t, ht, trivial, hlt⟩

theorem ends_of_run_firstClue : ∃ tr s, (midterm 2 4).Run tr s ∧ s.main = .waiting ∧
    ∃ t, (midterm 2 4).Reach Scheduled s t ∧ t.main = .joining 2 := by
  obtain ⟨s, hrun, hs⟩ := Machine.exists_run_of_exec (M := midterm 2 4) (s := initState 2) rfl
    firstClue (b := fun s => s.main == .waiting) (by decide)
  exact ⟨_, s, hrun, beq_iff_eq.mp hs, (ends_of_run (by decide) (by decide) (by decide) hrun).2.1⟩

end Cmsc421.Quiz.Midterm
