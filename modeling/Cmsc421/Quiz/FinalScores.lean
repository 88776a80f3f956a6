import Cmsc421.Quiz.Final

/-!
# Cmsc421.Quiz.FinalScores

The token of `final.c`, and its ledger.

There is never more than one token, so no completion is ever above 1, and a thread that
holds the token reinitialises a completion that is empty.  The token is lost when a
contestant that has answered comes back to the wait first, takes its own token, and
drops it: then nobody is ever woken again (`not_stuck_iff`).
-/

namespace Cmsc421.Quiz.Final

variable {N K : Nat} {s s' : State N} {l : Label N}

/-- What is known about the token. -/
structure Carried (K : Nat) (s : State N) : Prop where
  sound : Sound K s
  le_one : tokens s ≤ 1
  finished : s.alex = .finished → tokens s = 1
  settled : 0 < s.alexCv.done ∨ s.alex.resumed = true → Settled s.board

/-- When Alex is done, the token stays. -/
theorem Carried.finished_step (h : Carried K s) (hs : Effect K s l s') :
    s'.alex = .finished → tokens s' = 1 := by
  have hfinished := h.finished
  intro halex
  rcases tokens_step h.le_one hs with ⟨hdrop, -⟩ | ⟨-, hsame⟩
  · cases hs with
    | rest hpc hnum hbuzz =>
        have : K ≤ s.board.num := h.sound.past (by
          show s.alex.past = true
          rw [show s.alex = .finished from halex]
          rfl)
        omega
    | _ => first | exact hdrop.elim | grind [Drops]
  · rw [hsame]
    cases hs with
    | finish hpc =>
        have hle := h.le_one
        unfold tokens at hle ⊢
        rw [hpc, show AlexPc.ending.holds.toNat = 1 from rfl] at hle ⊢
        omega
    | alexLock _ hpc | alexUnlock hpc => simp_all
    | _ => first | exact hfinished halex | simp at halex

/-- Alex is only woken, and goes on, when the clue is settled. -/
theorem Carried.settled_step (h : Carried K s) (hs : Effect K s l s') :
    0 < s'.alexCv.done ∨ s'.alex.resumed = true → Settled s'.board := by
  have hsettled := h.settled
  have hbooked := h.sound.kept.booked
  cases hs with
  | @buzz c rnd hpc hnum hbuzz =>
      intro hdone
      by_cases hs : s.board.settles (rnd.toNat % K) = true
      · exact hbooked.settled_buzz hbuzz hs
      · have hquiet := (hsettled (by simpa [hs] using hdone)).quiet hbooked c
        simp [hquiet] at hbuzz
  | ask hpc | call hpc | review hpc =>
      have hnone := (alone h.le_one (.inl (by rw [hpc]; rfl))).2
      rintro (hdone | hresumed)
      · exact absurd hdone (by simp [hnone])
      · contradiction
  | alexTake hpc hd =>
      refine fun _ => hsettled (.inl (Nat.pos_of_ne_zero fun hzero => ?_))
      rw [Completion.wait, if_pos hzero] at hd
      contradiction
  | alexReinit hpc => exact fun _ => hsettled (.inr (by rw [hpc]; rfl))
  | alexLock _ hpc | alexUnlock hpc =>
      rcases hpc with ⟨hpc, rfl⟩ | ⟨hpc, rfl⟩ <;> rw [hpc] at hsettled <;> exact hsettled
  | again hpc | start hpc | close hpc =>
      rw [hpc] at hsettled
      exact hsettled
  | finish hpc =>
      have hnone := (alone h.le_one (.inl (by rw [hpc]; rfl))).2
      rintro (hdone | hresumed)
      · exact absurd hdone (by simp [hnone])
      · contradiction
  | lock | enroll | unlock | take | reinit | quit | rest | pass => exact hsettled

/-- One step keeps all of this. -/
theorem Carried.step (h : Carried K s) (hs : Effect K s l s') : Carried K s' where
  sound := h.sound.step hs
  le_one := by
    have := h.le_one
    have := tokens_step h.le_one hs
    omega
  finished := h.finished_step hs
  settled := h.settled_step hs

theorem carried_init (K : Nat) : Carried K (initState N) where
  sound := sound_init K
  le_one := (tokens_init N).le
  finished := nofun
  settled := by
    rintro (h | h)
    · exact absurd h (Nat.lt_irrefl 0)
    · contradiction

theorem carried_of_run {tr : List (State N × Label N)} (h : (final N K).Run tr s) :
    Carried K s := by
  refine Machine.Run.invariant (I := fun _ s => Carried K s) ?_ ?_ h
  · rintro s rfl
    exact carried_init K
  · intro _ s l t hcarried hs
    exact hcarried.step (step_cases hs)

/-! ## when the quiz gets stuck -/

/-- Alex waits for a token, no token is left, and every contestant waits or has
finished. -/
def Stuck (s : State N) : Prop :=
  s.alex = .waiting ∧ s.alexCv.done = 0 ∧ s.contCv.done = 0 ∧
    ∀ c, s.play c = .waiting ∨ s.play c = .finished

instance (s : State N) : Decidable (Stuck s) := inferInstanceAs (Decidable (_ ∧ _))

/-- Where there is a token, somebody has it or can take it. -/
theorem Stuck.tokens_eq (h : Stuck s) : tokens s = 0 := by
  obtain ⟨halex, hdone, hdone', hplay⟩ := h
  have hnone : counted (fun c => (s.play c).holds) = 0 := by
    refine Finset.card_eq_zero.mpr (Finset.filter_eq_empty_iff.mpr fun c _ => ?_)
    rcases hplay c with hc | hc <;> simp [hc, PlayPc.holds]
  rw [tokens, hdone, hdone', hnone, halex]
  rfl

/-- Without a token, a contestant is at the wait, on its way to it, or has finished. -/
theorem Carried.play_of_lost (h : Carried K s) (hzero : tokens s = 0) (halex : s.alex.started = true)
    (c : Fin N) : s.play c = .looping ∨ s.play c = .waiting ∨ s.play c = .finished := by
  have henrolled := (h.sound.started halex).2 c
  have hholds : (s.play c).holds = false := by
    by_contra hc
    have := holders_pos (by simpa using hc)
    unfold tokens at hzero
    omega
  cases hpc : s.play c <;> simp_all [PlayPc.enrolled, PlayPc.holds]

/-- **Without a token the quiz is stuck**, or the thread that has the mutex takes one
more step, to its wait. -/
theorem Carried.stuck_of_lost (h : Carried K s) (hzero : tokens s = 0) :
    Stuck s ∨ ∃ l t, Final.step K s l = some t ∧ Stuck t := by
  have hdone : s.alexCv.done = 0 ∧ s.contCv.done = 0 := by
    unfold tokens at hzero
    omega
  have hholds : s.alex.holds = false := by
    unfold tokens at hzero
    rw [← Bool.not_eq_true, ← Bool.toNat_eq_one]
    omega
  have hunfinished : s.alex ≠ .finished := by
    intro halex
    have := h.finished halex
    omega
  have halex : s.alex = .pausing ∨ s.alex = .waiting := by
    cases hpc : s.alex <;> simp_all [AlexPc.holds]
  have hplay := h.play_of_lost hzero (by rcases halex with hpc | hpc <;> rw [hpc] <;> rfl)
  have hlock := h.sound.lock
  have hlockAlex := h.sound.lockAlex
  have hwaits : ∀ c, s.owner ≠ some (.cont c) → s.play c = .waiting ∨ s.play c = .finished := by
    intro c hne
    rcases hplay c with hpc | hpc
    · exact absurd ((hlock c).mp (by rw [hpc]; rfl)) hne
    · exact hpc
  have halexWaits : s.owner ≠ some .alex → s.alex = .waiting := by
    intro hne
    rcases halex with hpc | hpc
    · exact absurd (hlockAlex.mp (by rw [hpc]; rfl)) hne
    · exact hpc
  cases howner : s.owner with
  | none =>
      refine .inl ⟨halexWaits (by simp [howner]), hdone.1, hdone.2, fun c => ?_⟩
      exact hwaits c (by simp [howner])
  | some t =>
      cases t with
      | alex =>
          have hpc : s.alex = .pausing := by
            rcases halex with hpc | hpc
            · exact hpc
            · simp [hpc, howner, AlexPc.locks] at hlockAlex
          refine .inr ⟨.alex, { s with owner := none, alex := .waiting }, ?_, ?_⟩
          · simp [Final.step, alexStep, hpc]
          · exact ⟨rfl, hdone.1, hdone.2, fun c => hwaits c (by simp [howner])⟩
      | cont c =>
          have hpc : s.play c = .looping := by
            have hc := (hlock c).mpr howner
            rcases hplay c with hpc | hpc | hpc
            · exact hpc
            · simp [hpc, PlayPc.locks] at hc
            · simp [hpc, PlayPc.locks] at hc
          refine .inr ⟨.play c 0, { s.move c .waiting with owner := none }, ?_, ?_⟩
          · simp [Final.step, playStep, hpc]
          · refine ⟨halexWaits (by simp [howner]), hdone.1, hdone.2, fun c' => ?_⟩
            by_cases hcc : c' = c
            · subst hcc
              exact .inl (by simp [State.move])
            · have := hwaits c' (by simp [howner, Ne.symm hcc])
              simpa [State.move, hcc] using this

/-- The token is there in every state of a run exactly when it has not been dropped. -/
theorem tokens_eq_one_iff {tr : List (State N × Label N)} (h : (final N K).Run tr s) :
    tokens s = 1 ↔ ∀ p ∈ tr, ¬ Drops K p.1 p.2 := by
  suffices hI : Carried K s ∧ (tokens s = 1 ↔ ∀ p ∈ tr, ¬ Drops K p.1 p.2) from hI.2
  refine Machine.Run.invariant
    (I := fun tr s => Carried K s ∧ (tokens s = 1 ↔ ∀ p ∈ tr, ¬ Drops K p.1 p.2)) ?_ ?_ h
  · rintro s rfl
    exact ⟨carried_init K, by simp [tokens_init]⟩
  · rintro tr s l t ⟨hcarried, hiff⟩ hs
    have he := step_cases hs
    refine ⟨hcarried.step he, ?_⟩
    simp only [List.mem_append, List.mem_singleton, or_imp, forall_and, forall_eq, ← hiff]
    have hle := hcarried.le_one
    rcases tokens_step hle he with ⟨hdrop, hlost⟩ | ⟨hkeep, hsame⟩
    · simp only [hdrop, not_true, and_false, iff_false]
      omega
    · simp only [hkeep, not_false_eq_true, and_true, hsame]

/-- **When the kernel quiz gets stuck.**  In a run in which no contestant drops the
token, the quiz is not stuck and no step makes it so; in every other run it is stuck, or
one step is left before it is. -/
theorem not_stuck_iff {tr : List (State N × Label N)} (h : (final N K).Run tr s) :
    (∀ p ∈ tr, ¬ Drops K p.1 p.2) ↔
      ¬ Stuck s ∧ ∀ l t, (final N K).step s l = some t → ¬ Stuck t := by
  have hcarried := carried_of_run h
  have hle := hcarried.le_one
  rw [← tokens_eq_one_iff h]
  constructor
  · intro hone
    refine ⟨fun hstuck => ?_, fun l t hs hstuck => ?_⟩
    · have := hstuck.tokens_eq
      omega
    · have hzero := hstuck.tokens_eq
      have he := step_cases hs
      rcases tokens_step hle he with ⟨hdrop, -⟩ | ⟨-, hsame⟩
      · -- the contestant that dropped the token is not at the wait yet
        cases he with
        | @rest c rnd hpc hnum hbuzz =>
            have := hstuck.2.2.2 c
            simp [State.move] at this
        | _ => first | exact hdrop.elim | grind [Drops]
      · omega
  · rintro ⟨hnot, hnext⟩
    by_contra hone
    rcases hcarried.stuck_of_lost (by omega) with hstuck | ⟨l, t, hs, hstuck⟩
    · exact hnot hstuck
    · exact hnext l t hs hstuck

/-- All contestants reach the wait, and Alex calls them. -/
def firstClue : List (Label 3) :=
  [.play 0 0, .play 0 0, .play 0 0, .play 1 0, .play 1 0, .play 1 0, .play 2 0, .play 2 0,
    .play 2 0, .alex, .alex, .alex, .alex, .alex]

/-- The first contestant guesses wrong, and is back at the wait before anyone else has
taken the token. -/
def ownToken : List (Label 3) :=
  firstClue ++ [.play 0 0, .play 0 0, .play 0 0, .play 0 1, .play 0 0, .play 0 0, .play 0 0,
    .play 0 0, .play 0 0, .play 0 0]

theorem ownToken_stuck : ∃ tr s, (final 3 4).Run tr s ∧ Stuck s := by
  obtain ⟨s, hrun, hs⟩ := Machine.exists_run_of_exec (M := final 3 4) (s := initState 3) rfl
    ownToken (b := fun s => decide (Stuck s)) (by decide)
  exact ⟨_, s, hrun, of_decide_eq_true hs⟩

instance (K : Nat) (s : State N) (l : Label N) : Decidable (Drops K s l) :=
  match l with
  | .play c _ =>
      inferInstanceAs
        (Decidable (s.play c = .checking ∧ s.board.num < K ∧ s.board.canBuzzIn c = false))
  | .alex => inferInstanceAs (Decidable False)

theorem not_stuck_iff_firstClue :
    ∃ tr s, (final 3 4).Run tr s ∧ s.alex = .waiting ∧ ¬ Stuck s := by
  obtain ⟨s, hrun, hs⟩ := Machine.exists_run_of_exec (M := final 3 4) (s := initState 3) rfl
    firstClue (b := fun s => s.alex == .waiting) (by decide)
  exact ⟨_, s, hrun, beq_iff_eq.mp hs, ((not_stuck_iff hrun).mp (by decide)).1⟩

/-! ## the ledger -/

/-- While `num` does not wrap around, no more clues are read than there are. -/
theorem round_le_of_run (hK : K < 2 ^ 32) {tr : List (State N × Label N)}
    (h : (final N K).Run tr s) : (tally s.board.out).round ≤ K := by
  suffices hI : Sound K s ∧ (tally s.board.out).round ≤ K from hI.2
  refine Machine.Run.invariant (I := fun _ s => Sound K s ∧ (tally s.board.out).round ≤ K) ?_ ?_ h
  · rintro s rfl
    exact ⟨sound_init K, Nat.zero_le K⟩
  · rintro _ s l t ⟨hsound, hle⟩ hs
    have he := step_cases hs
    refine ⟨hsound.step he, ?_⟩
    cases he with
    | ask hpc hnum => exact (hsound.kept.between (by rw [hpc]; rfl)).round_ask hK hnum hle
    | buzz => simpa [tally_buzz, Tally.next] using hle
    | review | finish => simpa using hle
    | lock | enroll | unlock | take | reinit | quit | rest | pass | alexLock | again | start | close
    | call | alexUnlock | alexTake | alexReinit => exact hle

/-- **The ledger of the kernel quiz.**  In every reachable state no contestant has
answered a clue twice, nobody has answered a clue after a right answer to it, no more than one
answer to the current clue was right, an answer is right where it is the question of its clue,
and each score is the sum of the points, as an `int`; where no clue is read twice, the rounds
are the clues.  When Alex is past the wait, one answer to the current clue was right or all
contestants have failed.  No completion is above 1, and both are empty when a clue begins. -/
theorem answers_of_run {tr : List (State N × Label N)} (h : (final N K).Run tr s) :
    (Fair (tally s.board.out).entries ∧ s.board.wins ≤ 1 ∧
      (∀ e ∈ (tally s.board.out).entries, e.right = true ↔ e.ans = e.clue) ∧
      (K < 2 ^ 32 → ∀ e ∈ (tally s.board.out).entries, e.round = e.clue + 1) ∧
      ∀ c, s.board.score c = int32 (pointsOf (tally s.board.out).entries c)) ∧
    (s.alex.resumed = true → s.board.wins = 1 ∧ s.board.failedTries ≠ N ∨
      s.board.wins = 0 ∧ s.board.failedTries = N) ∧
    (s.contCv.done ≤ 1 ∧ s.alexCv.done ≤ 1) ∧
    (s.alex = .asking ∨ s.alex = .calling → s.contCv.done = 0 ∧ s.alexCv.done = 0) := by
  have hcarried := carried_of_run h
  have hbooked := hcarried.sound.kept.booked
  have hle := hcarried.le_one
  refine ⟨⟨hbooked.fair, hbooked.wins_le_one, hbooked.verdict, ?_, hbooked.score⟩, ?_, ?_, ?_⟩
  · intro hK e he
    exact hbooked.round_eq hK (round_le_of_run hK h) he
  · intro halex
    rcases hcarried.settled (.inr halex) with hwin | ⟨hw, -, hf⟩
    · exact .inl hwin
    · exact .inr ⟨hw, hf⟩
  · unfold tokens at hle
    omega
  · rintro (hpc | hpc) <;> exact alone hle (.inl (by rw [hpc]; rfl))

/-- Two contestants guess wrong and the third one right. -/
def thirdRight : List (Label 3) :=
  firstClue ++ [.play 0 0, .play 0 0, .play 0 0, .play 0 1, .play 0 0, .play 1 0, .play 1 0,
    .play 1 0, .play 1 2, .play 1 0, .play 2 0, .play 2 0, .play 2 0, .play 2 0, .play 2 0, .alex]

theorem answers_of_run_thirdRight :
    ∃ tr s, (final 3 4).Run tr s ∧ s.alex.resumed = true ∧ s.board.failedTries = 2 ∧
      s.board.wins = 1 := by
  obtain ⟨s, hrun, hs⟩ := Machine.exists_run_of_exec (M := final 3 4) (s := initState 3) rfl
    thirdRight (b := fun s => s.alex.resumed && s.board.failedTries == 2) (by decide)
  simp only [Bool.and_eq_true, beq_iff_eq] at hs
  obtain ⟨-, hsettled, -⟩ := answers_of_run hrun
  refine ⟨_, s, hrun, hs.1, hs.2, ?_⟩
  rcases hsettled hs.1 with ⟨hw, -⟩ | ⟨-, hf⟩
  · exact hw
  · rw [hs.2] at hf
    contradiction

end Cmsc421.Quiz.Final
