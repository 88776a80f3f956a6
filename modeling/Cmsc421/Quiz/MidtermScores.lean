import Cmsc421.Quiz.Midterm
import Mathlib.Tactic.Ring

/-!
# Cmsc421.Quiz.MidtermScores

No deadlock in `midterm.c`, and its ledger.

`Played` ties the phases of a round to the place where `main` is: outside of a round
nobody may buzz, and while `main` waits the clue is not settled.  So somebody who may buzz is
on its way whenever `main` waits, and without a spurious wake-up `main` goes on only
when the clue is settled.
-/

namespace Cmsc421.Quiz.Midterm

variable {N K : Nat} {s s' : State N} {l : Label N}

/-- The phase of the clue. -/
def MainPc.phase : MainPc → Phase
  | .calling => .asked
  | .pausing | .waiting | .woken | .resuming => .released
  | _ => .idle

@[grind =] theorem phase_signal (pc : MainPc) : pc.signal.phase = pc.phase := by cases pc <;> rfl

@[grind →] theorem phase_of_not_started {pc : MainPc} (h : pc.started = false) :
    pc.phase = .idle := by
  cases pc <;> trivial

/-- The board while `main` is in the phases of the quiz. -/
structure Played (s : State N) : Prop where
  kept : Kept s.main.phase s.board
  guessing : 0 < N → s.main.called = true → Guessing s.board

theorem played_init (N : Nat) : Played (initState N) where
  kept := kept_init N
  guessing _ := nofun

theorem Played.booked (h : Played s) : Booked s.board := h.kept.booked

/-- A step that leaves the board alone, and `main` in its phase. -/
theorem Played.of_board (h : Played s) (hboard : s'.board = s.board)
    (hphase : s'.main.phase = s.main.phase)
    (hcalled : s'.main.called = true → s.main.called = true) : Played s' where
  kept := by
    rw [hboard, hphase]
    exact h.kept
  guessing hN hc := hboard ▸ h.guessing hN (hcalled hc)

/-- A signal to `main`, when it is not in a section, ends its wait. -/
theorem called_signal {pc : MainPc} (h : pc.locked = false) : pc.signal.called = false := by
  cases pc <;> first | rfl | simp [MainPc.locked] at h

/-- An answer: the contestant has the mutex, so `main` waits or has been woken. -/
theorem Played.buzz (h : Played s) (hsound : Sound K s) {c : Fin N} (hpc : s.play c = .checking)
    (hbuzz : s.board.canBuzzIn c = true) (ans : Nat) :
    Played { s.move c .sleeping with
      board := s.board.buzz c ans
      main := if s.board.settles ans then s.main.signal else s.main } := by
  have hlocked : s.main.locked = false := by
    have := (hsound.lock c).mp (by rw [hpc]; rfl)
    have := hsound.lockMain
    grind
  cases hs : s.board.settles ans with
  | true =>
      refine ⟨?_, fun _ hcalled => ?_⟩
      · show Kept (MainPc.signal s.main).phase _
        rw [phase_signal]
        exact h.kept.buzz hbuzz ans
      · exact absurd hcalled (by simp [called_signal hlocked])
  | false =>
      refine ⟨h.kept.buzz hbuzz ans, fun hN hcalled => ?_⟩
      exact (h.guessing hN hcalled).buzz hs c

/-- One step keeps the books. -/
theorem Played.step (h : Played s) (hsound : Sound K s) (hs : Effect K s l s') : Played s' := by
  have hkept := h.kept
  cases hs with
  | buzz hpc hnum hbuzz => exact h.buzz hsound hpc hbuzz _
  | @enroll c rnd hpc =>
      -- `main` is still in the loop over `ready`
      have hstarted : s.main.started = false := by
        by_contra hst
        have := (hsound.started (by simpa using hst)).2 c
        simp [hpc, PlayPc.enrolled] at this
      have hphase := phase_of_not_started hstarted
      rw [hphase] at hkept
      refine ⟨?_, ?_⟩
      · show Kept s.main.phase _
        rw [hphase]
        exact hkept.enroll
      · intro _ (hc : s.main.called = true)
        grind
  | ask hpc hnum =>
      rw [hpc] at hkept
      exact ⟨hkept.ask, by simp [MainPc.called]⟩
  | call hpc =>
      rw [hpc] at hkept
      exact ⟨hkept.release, fun hN _ => hkept.booked.guessing (hkept.asked rfl).1 hN⟩
  | review hpc =>
      rw [hpc] at hkept
      exact ⟨hkept.review, by simp [MainPc.called]⟩
  | unlock hpc =>
      rw [hpc] at hkept
      exact ⟨hkept.checkScores, by simp [MainPc.called]⟩
  | join hpc =>
      rw [hpc] at hkept
      exact ⟨hkept.announce _, by simp [MainPc.called]⟩
  | lock | rest | quit | leave | mainLock | again | start | close | pause | dismiss
  | spuriousPlay | spuriousMain =>
      refine h.of_board rfl ?_ ?_ <;> grind [MainPc.phase, MainPc.called]

theorem played_of_run {tr : List (State N × Label N)} (h : (midterm N K).Run tr s) : Played s := by
  suffices hI : Sound K s ∧ Played s from hI.2
  refine Machine.Run.invariant (I := fun _ s => Sound K s ∧ Played s) ?_ ?_ h
  · rintro s rfl
    exact ⟨sound_init K, played_init N⟩
  · rintro _ s l t ⟨hsound, hplayed⟩ hs
    exact ⟨hsound.step hs, hplayed.step hsound (step_cases hs)⟩

/-! ## no deadlock -/

/-- **The pthread quiz cannot get stuck.**  In no reachable state `main` waits on
`alex_cv` while every contestant waits on `cont_cv` or has finished, and after the last
broadcast no contestant waits. -/
theorem not_stuck (hN : 0 < N) {tr : List (State N × Label N)} (h : (midterm N K).Run tr s) :
    ¬ (s.main = .waiting ∧ ∀ c, s.play c = .waiting ∨ s.play c = .finished) ∧
    (s.main.closed = true → ∀ c, s.play c ≠ .waiting) := by
  have hsound := sound_of_run h
  have hplayed := played_of_run h
  constructor
  · rintro ⟨hmain, hall⟩
    have hsmall := (hsound.started (by rw [hmain]; rfl)).1
    have hg := hplayed.guessing hN (by rw [hmain]; rfl)
    obtain ⟨c, hc⟩ := hg.exists_canBuzzIn hplayed.booked hsmall
    rcases hsound.awake (by rw [hmain]; rfl) c hc with hpc | hpc <;>
      rcases hall c with hw | hw <;> simp [hpc] at hw
  · intro hclosed c hw
    have := hsound.closed hclosed c
    simp [hw, PlayPc.dismissed] at this

/-- A run of two contestants to the point where `main` waits for the first answer. -/
def firstClue : List (Label 2) :=
  [.play 0 0, .play 0 0, .play 1 0, .play 1 0, .main, .main, .main, .main, .main]

theorem not_stuck_firstClue : ∃ tr s, (midterm 2 4).Run tr s ∧ s.main = .waiting ∧
    ¬ ∀ c, s.play c = .waiting ∨ s.play c = .finished := by
  obtain ⟨s, hrun, hs⟩ := Machine.exists_run_of_exec (M := midterm 2 4) (s := initState 2) rfl
    firstClue (b := fun s => s.main == .waiting) (by decide)
  have hmain : s.main = .waiting := beq_iff_eq.mp hs
  exact ⟨_, s, hrun, hmain, fun hall => (not_stuck (by decide) hrun).1 ⟨hmain, hall⟩⟩

/-! ## the ledger -/

/-- When `main` has been woken, the clue is settled. -/
def Resumes (s : State N) : Prop := s.main = .woken ∨ s.main = .resuming → Settled s.board

/-- One step that is no spurious wake-up of `main`. -/
theorem Resumes.step (h : Resumes s) (hsound : Sound K s) (hplayed : Played s)
    (hl : l ≠ .spuriousMain) (hs : Effect K s l s') : Resumes s' := by
  have hplaying : s.main = .woken ∨ s.main = .resuming → s.main.playing = true := by
    rintro (hpc | hpc) <;> rw [hpc] <;> rfl
  cases hs with
  | @buzz c rnd hpc hnum hbuzz =>
      intro hmain
      by_cases hs : s.board.settles (rnd.toNat % K) = true
      · exact hplayed.booked.settled_buzz hbuzz hs
      · -- `main` has been woken before, so the clue was settled and nobody may buzz
        have hquiet := (h (by simpa [hs] using hmain)).quiet hplayed.booked c
        simp [hquiet] at hbuzz
  | @enroll c rnd hpc =>
      intro hmain
      have hstarted : s.main.started = true := by
        have := hplaying hmain
        grind
      have := (hsound.started hstarted).2 c
      simp [hpc, PlayPc.enrolled] at this
  | spuriousMain hpc => exact absurd rfl hl
  | mainLock hfree hpc =>
      rcases hpc with ⟨hpc, rfl⟩ | ⟨hpc, rfl⟩
      · rintro (hmain | hmain) <;> simp at hmain
      · exact fun _ => h (.inl hpc)
  | again | start | ask | close | call | pause | review | dismiss | unlock | join =>
      rintro (hmain | hmain) <;> simp at hmain
  | lock | rest | quit | leave | spuriousPlay => exact h

/-- Without a spurious wake-up, `main` goes on only when the clue is settled. -/
theorem resumes_of_run {tr : List (State N × Label N)} (h : (midterm N K).Run tr s)
    (hno : ∀ p ∈ tr, p.2 ≠ .spuriousMain) : Resumes s := by
  suffices hI : Sound K s ∧ Played s ∧ Resumes s from hI.2.2
  refine Machine.Run.invariant_of_steps (P := fun _ l => l ≠ .spuriousMain)
    (I := fun _ s => Sound K s ∧ Played s ∧ Resumes s) ?_ ?_ h hno
  · rintro s rfl
    exact ⟨sound_init K, played_init N, by rintro (hmain | hmain) <;> simp [initState] at hmain⟩
  · rintro _ s l t ⟨hsound, hplayed, hresumes⟩ hl hs
    have he := step_cases hs
    exact ⟨hsound.step hs, hplayed.step hsound he, hresumes.step hsound hplayed hl he⟩

/-- While `num` does not wrap around, no more clues are read than there are. -/
theorem round_le_of_run (hK : K < 2 ^ 32) {tr : List (State N × Label N)}
    (h : (midterm N K).Run tr s) : (tally s.board.out).round ≤ K := by
  suffices hI : Played s ∧ Sound K s ∧ (tally s.board.out).round ≤ K from hI.2.2
  refine Machine.Run.invariant
    (I := fun _ s => Played s ∧ Sound K s ∧ (tally s.board.out).round ≤ K) ?_ ?_ h
  · rintro s rfl
    exact ⟨played_init N, sound_init K, Nat.zero_le K⟩
  · rintro _ s l t ⟨hplayed, hsound, hle⟩ hs
    have he := step_cases hs
    refine ⟨hplayed.step hsound he, hsound.step hs, ?_⟩
    cases he with
    | ask hpc hnum => exact (hplayed.kept.between (by rw [hpc]; rfl)).round_ask hK hnum hle
    | buzz => simpa [tally_buzz, Tally.next] using hle
    | review | unlock | join => simpa using hle
    | lock | enroll | rest | quit | leave | mainLock | again | start | close | call | pause | dismiss
    | spuriousPlay | spuriousMain => exact hle

/-- **The ledger of the pthread quiz.**  In every reachable state no contestant has
answered a clue twice, nobody has answered a clue after a right answer to it, no more than one
answer to the current clue was right, an answer is right where it is the question of its clue,
and each score is the sum of the points, as an `int`; where no clue is read twice, the rounds
are the clues.  Without a spurious wake-up of `main`, it goes on when exactly one answer was
right, or when all contestants have failed, and prints the correct response in the
second case. -/
theorem scores_of_run {tr : List (State N × Label N)} (h : (midterm N K).Run tr s) :
    (Fair (tally s.board.out).entries ∧ s.board.wins ≤ 1 ∧
      (∀ e ∈ (tally s.board.out).entries, e.right = true ↔ e.ans = e.clue) ∧
      (K < 2 ^ 32 → ∀ e ∈ (tally s.board.out).entries, e.round = e.clue + 1) ∧
      ∀ c, s.board.score c = int32 (pointsOf (tally s.board.out).entries c)) ∧
    ((∀ p ∈ tr, p.2 ≠ .spuriousMain) → s.main = .resuming →
      ∃ s', (midterm N K).step s .main = some s' ∧
        (s.board.wins = 1 ∧ s'.board.out = s.board.out ∨
          s.board.wins = 0 ∧ s.board.losses = N ∧
            s'.board.out = s.board.out ++ [.response s.board.num])) := by
  have hbooked := (played_of_run h).booked
  refine ⟨⟨hbooked.fair, hbooked.wins_le_one, hbooked.verdict, ?_, hbooked.score⟩, ?_⟩
  · intro hK e he
    exact hbooked.round_eq hK (round_le_of_run hK h) he
  · intro hno hmain
    refine ⟨{ s with board := s.board.review, main := .asking }, ?_, ?_⟩
    · simp [midterm, Midterm.step, mainStep, hmain]
    · rcases resumes_of_run h hno (.inr hmain) with ⟨hw, hf⟩ | ⟨hw, hl, hf⟩
      · exact .inl ⟨hw, by simp [Board.review, hf]⟩
      · exact .inr ⟨hw, hl, by simp [Board.review, hf]⟩

/-- Both contestants guess wrong, and `main` goes on. -/
def bothWrong : List (Label 2) :=
  firstClue ++ [.play 0 1, .play 0 1, .play 0 0, .play 1 2, .play 1 2, .play 1 0, .main]

theorem scores_of_run_bothWrong :
    ∃ tr s, (midterm 2 4).Run tr s ∧ s.main = .resuming ∧ s.board.losses = 2 ∧
      ∃ s', (midterm 2 4).step s .main = some s' ∧
        s'.board.out = s.board.out ++ [.response s.board.num] := by
  obtain ⟨s, hrun, hs⟩ := Machine.exists_run_of_exec (M := midterm 2 4) (s := initState 2) rfl
    bothWrong (b := fun s => s.main == .resuming && s.board.wins == 0) (by decide)
  simp only [Bool.and_eq_true, beq_iff_eq] at hs
  obtain ⟨-, hno⟩ := scores_of_run hrun
  obtain ⟨s', hs', ⟨hw, -⟩ | ⟨-, hl, hout⟩⟩ := hno (by decide) hs.1
  · rw [hs.2] at hw
    contradiction
  · exact ⟨_, s, hrun, hs.1, hl, s', hs', hout⟩

/-! ## a score that does not fit an `int` -/

/-- A state with one contestant. -/
def solo (b : Board 1) (owner : Option (Thread 1)) (main : MainPc) (pc : PlayPc) : State 1 :=
  ⟨b, owner, main, fun _ => pc⟩

@[simp] theorem solo_move (b : Board 1) (owner : Option (Thread 1)) (main : MainPc) (pc : PlayPc)
    (c : Fin 1) (pc' : PlayPc) : (solo b owner main pc).move c pc' = solo b owner main pc' := by
  simp only [State.move, solo, State.mk.injEq, true_and]
  funext c'
  simp [Subsingleton.elim c' c]

/-- `main` reads a clue, and the only contestant answers with this random number. -/
def wrongAnswer (rnd : UInt32) : List (Label 1) :=
  [.main, .main, .main, .play 0 0, .play 0 rnd, .play 0 0, .main, .main]

/-- The board after that. -/
def missed (b : Board 1) (ans : Nat) : Board 1 := ((b.ask.setAllBuzzers true).buzz 0 ans).review

/-- A wrong answer of the only contestant wakes `main`: all have failed. -/
theorem step_wrong {b : Board 1} {rnd : UInt32} (hnum : b.num < K) (hbuzz : b.canBuzzIn 0 = true)
    (hfailed : b.failedTries = 0) :
    Midterm.step K (solo b (some (.cont 0)) .waiting .checking) (.play 0 rnd) =
      some (solo (b.buzz 0 (rnd.toNat % K)) (some (.cont 0)) .woken .sleeping) := by
  have hsettles : b.settles (rnd.toNat % K) = true :=
    decide_eq_true (.inr (by rw [hfailed, uinc]; decide))
  simp only [Midterm.step, playStep, solo_move]
  simp [solo, not_le.mpr hnum, hbuzz, hsettles, MainPc.signal]

theorem exec_wrongAnswer {b : Board 1} (hnum : b.num < K) (rnd : UInt32) :
    (midterm 1 K).exec (solo b (some .alex) .asking .waiting) (wrongAnswer rnd) =
      some (solo (missed b (rnd.toNat % K)) (some .alex) .asking .waiting) := by
  have hask : Midterm.step K (solo b (some .alex) .asking .waiting) .main =
      some (solo b.ask (some .alex) .calling .waiting) := if_pos hnum
  have hcall : Midterm.step K (solo b.ask (some .alex) .calling .waiting) .main =
      some (solo (b.ask.setAllBuzzers true) (some .alex) .pausing .woken) := rfl
  have hpause : ∀ b', Midterm.step K (solo b' (some .alex) .pausing .woken) .main =
      some (solo b' none .waiting .woken) := fun _ => rfl
  have hlock : ∀ b', Midterm.step K (solo b' none .waiting .woken) (.play 0 0) =
      some (solo b' (some (.cont 0)) .waiting .checking) := by
    intro b'
    simp only [Midterm.step, playStep, solo_move]
    rfl
  have hbuzz : Midterm.step K (solo (b.ask.setAllBuzzers true) (some (.cont 0)) .waiting .checking)
      (.play 0 rnd) = some (solo ((b.ask.setAllBuzzers true).buzz 0 (rnd.toNat % K)) (some (.cont 0))
        .woken .sleeping) := step_wrong hnum rfl rfl
  have hrest : ∀ b', Midterm.step K (solo b' (some (.cont 0)) .woken .sleeping) (.play 0 0) =
      some (solo b' none .woken .waiting) := by
    intro b'
    simp only [Midterm.step, playStep, solo_move]
    rfl
  have hmain : ∀ b', Midterm.step K (solo b' none .woken .waiting) .main =
      some (solo b' (some .alex) .resuming .waiting) := fun _ => rfl
  have hreview : ∀ b', Midterm.step K (solo b' (some .alex) .resuming .waiting) .main =
      some (solo b'.review (some .alex) .asking .waiting) := fun _ => rfl
  simp only [wrongAnswer, Machine.exec, midterm, hask, hcall, hpause, hlock, hbuzz, hrest, hmain,
    hreview, Option.bind_some]
  rfl

/-- Its points shrink by what the clue is worth. -/
theorem pointsOf_missed {b : Board 1} (hb : Between b) {ans : Nat} (hans : ans ≠ b.num) :
    pointsOf (tally (missed b ans).out).entries 0 =
      pointsOf (tally b.out).entries 0 - 200 * ((b.num : Int) + 1) := by
  have hentries : (tally (missed b ans).out).entries = (tally b.ask.out).entries ++
      [⟨(tally b.ask.out).round, (tally b.ask.out).clue, 0, ans, false⟩] := by
    rw [missed, tally_review, tally_buzz]
    have hwrong : decide (ans = (b.ask.setAllBuzzers true).num) = false := decide_eq_false hans
    rw [hwrong]
    rfl
  have hask : (tally b.ask.out).entries = (tally b.out).entries := by simp [Board.ask, Tally.next]
  rw [hentries, pointsOf_concat, if_pos rfl, hb.ask.clue, hask, Int.sub_eq_add_neg]
  rfl

theorem num_missed (b : Board 1) (ans : Nat) : (missed b ans).num = uinc b.num := by
  simp [missed, Board.review, Board.setAllBuzzers, Board.ask]

/-- The only contestant gets ready, and `main` starts. -/
theorem exec_ready (K : Nat) :
    (midterm 1 K).exec (initState 1) [.play 0 0, .play 0 0, .main, .main] =
      some (solo (Board.init 1).enroll (some .alex) .asking .waiting) := by
  have hlock : Midterm.step K (initState 1) (.play 0 0) =
      some (solo (Board.init 1) (some (.cont 0)) .spinning .started) := by
    show Midterm.step K (solo (Board.init 1) none .spinning .starting) (.play 0 0) = _
    simp only [Midterm.step, playStep, solo_move]
    rfl
  have hready : Midterm.step K (solo (Board.init 1) (some (.cont 0)) .spinning .started)
      (.play 0 0) = some (solo (Board.init 1).enroll none .spinning .waiting) := by
    simp only [Midterm.step, playStep, solo_move]
    rfl
  simp only [Machine.exec, midterm, hlock, hready, Option.bind_some]
  rfl

/-- After `k` wrong answers the contestant has lost the points of `k` clues. -/
theorem exists_run_wrongAnswers (hK : K < 2 ^ 32) {rnd : Nat → UInt32}
    (hmiss : ∀ k < K, (rnd k).toNat % K ≠ k) {k : Nat} (hk : k ≤ K) :
    ∃ tr b, (midterm 1 K).Run tr (solo b (some .alex) .asking .waiting) ∧ b.num = k ∧
      pointsOf (tally b.out).entries 0 = -(100 * (k : Int) * (k + 1)) := by
  induction k with
  | zero => exact ⟨_, _, (Machine.Run.start rfl).replay (exec_ready K), rfl, rfl⟩
  | succ k ih =>
      obtain ⟨tr, b, hrun, rfl, hpoints⟩ := ih (Nat.le_of_succ_le hk)
      have hbetween : Between b := (played_of_run hrun).kept.between rfl
      refine ⟨_, missed b ((rnd b.num).toNat % K), hrun.replay (exec_wrongAnswer hk (rnd b.num)), ?_, ?_⟩
      · rw [num_missed, uinc, Nat.mod_eq_of_lt (by omega)]
      · rw [pointsOf_missed hbetween (hmiss b.num hk), hpoints]
        push_cast
        ring

/-- After 4634 wrong answers the score is not the sum of the points. -/
theorem score_overflows :
    ∃ tr s, (midterm 1 4634).Run tr s ∧
      s.board.score 0 ≠ pointsOf (tally s.board.out).entries 0 := by
  have hmiss : ∀ k < 4634, (if k = 0 then 1 else 0 : UInt32).toNat % 4634 ≠ k := by
    intro k hk
    split
    · next h => simp [h]
    · next h => exact Ne.symm h
  obtain ⟨tr, b, hrun, -, hpoints⟩ := exists_run_wrongAnswers (by decide) hmiss (Nat.le_refl _)
  refine ⟨tr, _, hrun, ?_⟩
  rw [(played_of_run hrun).booked.score]
  show int32 (pointsOf (tally b.out).entries 0) ≠ pointsOf (tally b.out).entries 0
  rw [hpoints]
  decide

end Cmsc421.Quiz.Midterm
