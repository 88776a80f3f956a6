import Cmsc421.Run
import Cmsc421.Completion
import Cmsc421.Quiz.Board

/-!
# Cmsc421.Quiz.Final

`final.c`: the quiz with a mutex and two completions.

Every thread is a program counter, and a step is what a thread does up to its next
operation on the mutex or on a completion.  Unlike a condition variable a completion
remembers `complete()`: any thread that waits, or comes to wait later, can take it.  So
one token goes around: Alex puts it into `cont_cv`, a contestant takes it and puts it
into `cont_cv` or `alex_cv`.  The waits are not interrupted, and a thread that has not
been scheduled yet is `starting` or `spinning`.
-/

namespace Cmsc421.Quiz.Final

/-- Where a contestant is in `play_kthread()`. -/
inductive PlayPc
  /-- before the first `mutex_lock` -/
  | starting
  /-- before `ready++` -/
  | started
  /-- before the `mutex_unlock` in the loop -/
  | looping
  /-- at the wait for `cont_cv` -/
  | waiting
  /-- past the wait, without the mutex -/
  | taken
  /-- before `reinit_completion` -/
  | locked
  /-- after it -/
  | checking
  /-- out of the loop, before the last `mutex_unlock` -/
  | leaving
  /-- before the last `complete(&cont_cv)` -/
  | passing
  | finished
  deriving DecidableEq

/-- Where Alex is in `alex_kthread()`. -/
inductive AlexPc
  /-- before `mutex_lock`, the first time or in the loop over `ready` -/
  | spinning
  /-- at the test of `ready` -/
  | polling
  /-- at the test of `num` -/
  | asking
  /-- before the buzzers are released -/
  | calling
  /-- before the `mutex_unlock` in the loop -/
  | pausing
  /-- at the wait for `alex_cv` -/
  | waiting
  /-- past the wait, without the mutex -/
  | taken
  /-- before `reinit_completion` -/
  | locked
  /-- after it -/
  | resuming
  /-- out of the loop, before the last `mutex_unlock` -/
  | closing
  /-- before the last `complete(&cont_cv)` -/
  | ending
  | finished
  deriving DecidableEq

/-- The state of the module. -/
structure State (N : Nat) where
  board : Board N
  owner : Option (Thread N)
  contCv : Completion
  alexCv : Completion
  alex : AlexPc
  play : Fin N → PlayPc

/-- The steps: of a contestant, with what `get_random_int()` returns to it if it calls it,
and of Alex.  What it returns to Alex is how long he waits. -/
inductive Label (N : Nat)
  | play (c : Fin N) (rnd : UInt32)
  | alex
  deriving DecidableEq

variable {N : Nat}

/-- A contestant moves on. -/
def State.move (s : State N) (c : Fin N) (pc : PlayPc) : State N :=
  { s with play := Function.update s.play c pc }

@[grind =] theorem play_move (s : State N) (c : Fin N) (pc : PlayPc) (c' : Fin N) :
    (s.move c pc).play c' = if c' = c then pc else s.play c' := by
  simp [State.move, Function.update_apply]

@[simp, grind =] theorem board_move (s : State N) (c : Fin N) (pc : PlayPc) :
    (s.move c pc).board = s.board := rfl

@[simp, grind =] theorem owner_move (s : State N) (c : Fin N) (pc : PlayPc) :
    (s.move c pc).owner = s.owner := rfl

@[simp, grind =] theorem alex_move (s : State N) (c : Fin N) (pc : PlayPc) :
    (s.move c pc).alex = s.alex := rfl

@[simp, grind =] theorem contCv_move (s : State N) (c : Fin N) (pc : PlayPc) :
    (s.move c pc).contCv = s.contCv := rfl

@[simp, grind =] theorem alexCv_move (s : State N) (c : Fin N) (pc : PlayPc) :
    (s.move c pc).alexCv = s.alexCv := rfl

/-- A step of `play_kthread()`. -/
def playStep (K : Nat) (s : State N) (c : Fin N) (rnd : UInt32) : Option (State N) :=
  match s.play c with
  | .starting =>
      if s.owner = none then some { s.move c .started with owner := some (.cont c) } else none
  | .started => some { s.move c .looping with board := s.board.enroll }
  | .looping => some { s.move c .waiting with owner := none }
  | .waiting => s.contCv.wait.map fun d => { s.move c .taken with contCv := d }
  | .taken =>
      if s.owner = none then some { s.move c .locked with owner := some (.cont c) } else none
  | .locked => some { s.move c .checking with contCv := .reinit }
  | .checking =>
      if K ≤ s.board.num then some (s.move c .leaving)
      else if s.board.canBuzzIn c = false then some (s.move c .looping)
      else
        let ans := rnd.toNat % K
        some { s.move c .looping with
          board := s.board.buzz c ans
          alexCv := if s.board.settles ans then s.alexCv.complete else s.alexCv
          contCv := if s.board.settles ans then s.contCv else s.contCv.complete }
  | .leaving => some { s.move c .passing with owner := none }
  | .passing => some { s.move c .finished with contCv := s.contCv.complete }
  | .finished => none

/-- A step of `alex_kthread()`. -/
def alexStep (K : Nat) (s : State N) : Option (State N) :=
  match s.alex with
  | .spinning => if s.owner = none then some { s with owner := some .alex, alex := .polling } else none
  | .polling =>
      if s.board.ready < N then some { s with owner := none, alex := .spinning }
      else some { s with alex := .asking }
  | .asking =>
      if s.board.num < K then some { s with board := s.board.ask, alex := .calling }
      else some { s with alex := .closing }
  | .calling =>
      some { s with
        board := s.board.setAllBuzzers true
        contCv := s.contCv.complete
        alex := .pausing }
  | .pausing => some { s with owner := none, alex := .waiting }
  | .waiting => s.alexCv.wait.map fun d => { s with alexCv := d, alex := .taken }
  | .taken => if s.owner = none then some { s with owner := some .alex, alex := .locked } else none
  | .locked => some { s with alexCv := .reinit, alex := .resuming }
  | .resuming => some { s with board := s.board.review, alex := .asking }
  | .closing => some { s with owner := none, alex := .ending }
  | .ending =>
      some { s with board := s.board.checkScores, contCv := s.contCv.complete, alex := .finished }
  | .finished => none

/-- One step. -/
def step (K : Nat) (s : State N) : Label N → Option (State N)
  | .play c rnd => playStep K s c rnd
  | .alex => alexStep K s

/-- The module after `jeop_init` has created the threads. -/
def initState (N : Nat) : State N :=
  ⟨Board.init N, none, .reinit, .reinit, .spinning, fun _ => .starting⟩

/-- The module, with `N` contestants and `K` clues. -/
def final (N K : Nat) : Machine (State N) (Label N) where
  init s := s = initState N
  step := step K

/-! ## what a step can do -/

/-- **All that a step can do.** -/
inductive Effect (K : Nat) (s : State N) : Label N → State N → Prop
  | lock {c : Fin N} {rnd : UInt32} {pc : PlayPc} (hfree : s.owner = none)
      (hpc : s.play c = .starting ∧ pc = .started ∨ s.play c = .taken ∧ pc = .locked) :
      Effect K s (.play c rnd) { s.move c pc with owner := some (.cont c) }
  | enroll {c : Fin N} {rnd : UInt32} (hpc : s.play c = .started) :
      Effect K s (.play c rnd) { s.move c .looping with board := s.board.enroll }
  | unlock {c : Fin N} {rnd : UInt32} {pc : PlayPc}
      (hpc : s.play c = .looping ∧ pc = .waiting ∨ s.play c = .leaving ∧ pc = .passing) :
      Effect K s (.play c rnd) { s.move c pc with owner := none }
  | take {c : Fin N} {rnd : UInt32} {d : Completion} (hpc : s.play c = .waiting)
      (hd : s.contCv.wait = some d) :
      Effect K s (.play c rnd) { s.move c .taken with contCv := d }
  | reinit {c : Fin N} {rnd : UInt32} (hpc : s.play c = .locked) :
      Effect K s (.play c rnd) { s.move c .checking with contCv := .reinit }
  | quit {c : Fin N} {rnd : UInt32} (hpc : s.play c = .checking) (hover : K ≤ s.board.num) :
      Effect K s (.play c rnd) (s.move c .leaving)
  | rest {c : Fin N} {rnd : UInt32} (hpc : s.play c = .checking) (hnum : s.board.num < K)
      (hbuzz : s.board.canBuzzIn c = false) : Effect K s (.play c rnd) (s.move c .looping)
  | buzz {c : Fin N} {rnd : UInt32} (hpc : s.play c = .checking) (hnum : s.board.num < K)
      (hbuzz : s.board.canBuzzIn c = true) :
      Effect K s (.play c rnd)
        { s.move c .looping with
          board := s.board.buzz c (rnd.toNat % K)
          alexCv := if s.board.settles (rnd.toNat % K) then s.alexCv.complete else s.alexCv
          contCv := if s.board.settles (rnd.toNat % K) then s.contCv else s.contCv.complete }
  | pass {c : Fin N} {rnd : UInt32} (hpc : s.play c = .passing) :
      Effect K s (.play c rnd) { s.move c .finished with contCv := s.contCv.complete }
  | alexLock {pc : AlexPc} (hfree : s.owner = none)
      (hpc : s.alex = .spinning ∧ pc = .polling ∨ s.alex = .taken ∧ pc = .locked) :
      Effect K s .alex { s with owner := some .alex, alex := pc }
  | again (hpc : s.alex = .polling) (hready : s.board.ready < N) :
      Effect K s .alex { s with owner := none, alex := .spinning }
  | start (hpc : s.alex = .polling) (hready : N ≤ s.board.ready) :
      Effect K s .alex { s with alex := .asking }
  | ask (hpc : s.alex = .asking) (hnum : s.board.num < K) :
      Effect K s .alex { s with board := s.board.ask, alex := .calling }
  | close (hpc : s.alex = .asking) (hnum : K ≤ s.board.num) :
      Effect K s .alex { s with alex := .closing }
  | call (hpc : s.alex = .calling) :
      Effect K s .alex
        { s with
          board := s.board.setAllBuzzers true
          contCv := s.contCv.complete
          alex := .pausing }
  | alexUnlock {pc : AlexPc}
      (hpc : s.alex = .pausing ∧ pc = .waiting ∨ s.alex = .closing ∧ pc = .ending) :
      Effect K s .alex { s with owner := none, alex := pc }
  | alexTake {d : Completion} (hpc : s.alex = .waiting) (hd : s.alexCv.wait = some d) :
      Effect K s .alex { s with alexCv := d, alex := .taken }
  | alexReinit (hpc : s.alex = .locked) :
      Effect K s .alex { s with alexCv := .reinit, alex := .resuming }
  | review (hpc : s.alex = .resuming) :
      Effect K s .alex { s with board := s.board.review, alex := .asking }
  | finish (hpc : s.alex = .ending) :
      Effect K s .alex
        { s with board := s.board.checkScores, contCv := s.contCv.complete, alex := .finished }

/-- Every step has one of the effects. -/
theorem step_cases {K : Nat} {s s' : State N} {l : Label N} (h : step K s l = some s') :
    Effect K s l s' := by
  cases l with
  | play c rnd =>
      simp only [step, playStep] at h
      split at h
      case h_1 hpc =>
        obtain ⟨hfree, rfl⟩ := by simpa using h
        exact .lock hfree (.inl ⟨hpc, rfl⟩)
      case h_2 hpc =>
        obtain rfl := Option.some.inj h
        exact .enroll hpc
      case h_3 hpc =>
        obtain rfl := Option.some.inj h
        exact .unlock (.inl ⟨hpc, rfl⟩)
      case h_4 hpc =>
        obtain ⟨d, hd, rfl⟩ := Option.map_eq_some_iff.mp h
        exact .take hpc hd
      case h_5 hpc =>
        obtain ⟨hfree, rfl⟩ := by simpa using h
        exact .lock hfree (.inr ⟨hpc, rfl⟩)
      case h_6 hpc =>
        obtain rfl := Option.some.inj h
        exact .reinit hpc
      case h_7 hpc =>
        split at h
        · next hover =>
            obtain rfl := Option.some.inj h
            exact .quit hpc hover
        · next hnum =>
            split at h
            · next hbuzz =>
                obtain rfl := Option.some.inj h
                exact .rest hpc (not_le.mp hnum) hbuzz
            · next hbuzz =>
                obtain rfl := Option.some.inj h
                exact .buzz hpc (not_le.mp hnum) (by simpa using hbuzz)
      case h_8 hpc =>
        obtain rfl := Option.some.inj h
        exact .unlock (.inr ⟨hpc, rfl⟩)
      case h_9 hpc =>
        obtain rfl := Option.some.inj h
        exact .pass hpc
      case h_10 => contradiction
  | alex =>
      simp only [step, alexStep] at h
      split at h
      case h_1 hpc =>
        obtain ⟨hfree, rfl⟩ := by simpa using h
        exact .alexLock hfree (.inl ⟨hpc, rfl⟩)
      case h_2 hpc =>
        split at h
        · next hready =>
            obtain rfl := Option.some.inj h
            exact .again hpc hready
        · next hready =>
            obtain rfl := Option.some.inj h
            exact .start hpc (not_lt.mp hready)
      case h_3 hpc =>
        split at h
        · next hnum =>
            obtain rfl := Option.some.inj h
            exact .ask hpc hnum
        · next hnum =>
            obtain rfl := Option.some.inj h
            exact .close hpc (not_lt.mp hnum)
      case h_4 hpc =>
        obtain rfl := Option.some.inj h
        exact .call hpc
      case h_5 hpc =>
        obtain rfl := Option.some.inj h
        exact .alexUnlock (.inl ⟨hpc, rfl⟩)
      case h_6 hpc =>
        obtain ⟨d, hd, rfl⟩ := Option.map_eq_some_iff.mp h
        exact .alexTake hpc hd
      case h_7 hpc =>
        obtain ⟨hfree, rfl⟩ := by simpa using h
        exact .alexLock hfree (.inr ⟨hpc, rfl⟩)
      case h_8 hpc =>
        obtain rfl := Option.some.inj h
        exact .alexReinit hpc
      case h_9 hpc =>
        obtain rfl := Option.some.inj h
        exact .review hpc
      case h_10 hpc =>
        obtain rfl := Option.some.inj h
        exact .alexUnlock (.inr ⟨hpc, rfl⟩)
      case h_11 hpc =>
        obtain rfl := Option.some.inj h
        exact .finish hpc
      case h_12 => contradiction

/-! ## the mutex and the phases -/

/-- The contestant has the mutex. -/
def PlayPc.locks : PlayPc → Bool
  | .started | .looping | .locked | .checking | .leaving => true
  | .starting | .waiting | .taken | .passing | .finished => false

/-- The contestant has counted itself in `ready`. -/
def PlayPc.enrolled : PlayPc → Bool
  | .starting | .started => false
  | _ => true

/-- The contestant has the token. -/
def PlayPc.holds : PlayPc → Bool
  | .taken | .locked | .checking | .leaving | .passing => true
  | .starting | .started | .looping | .waiting | .finished => false

/-- Alex has the mutex. -/
def AlexPc.locks : AlexPc → Bool
  | .polling | .asking | .calling | .pausing | .locked | .resuming | .closing => true
  | .spinning | .waiting | .taken | .ending | .finished => false

/-- Alex is out of the loop over `ready`. -/
def AlexPc.started : AlexPc → Bool
  | .spinning | .polling => false
  | _ => true

/-- Alex is out of the loop over the clues. -/
def AlexPc.past : AlexPc → Bool
  | .closing | .ending | .finished => true
  | _ => false

/-- Alex has the token: before the contestants are called, and after the wait. -/
def AlexPc.holds : AlexPc → Bool
  | .pausing | .waiting | .finished => false
  | _ => true

/-- Alex is past the wait for `alex_cv`. -/
def AlexPc.resumed : AlexPc → Bool
  | .taken | .locked | .resuming => true
  | _ => false

/-- The phase of the clue. -/
def AlexPc.phase : AlexPc → Phase
  | .calling => .asked
  | .pausing | .waiting | .taken | .locked | .resuming => .released
  | .spinning | .polling | .asking | .closing | .ending | .finished => .idle

/-- Who has the mutex, and where the threads are in the phases of the quiz. -/
structure Sound (K : Nat) (s : State N) : Prop where
  lock : ∀ c, (s.play c).locks = true ↔ s.owner = some (.cont c)
  lockAlex : s.alex.locks = true ↔ s.owner = some .alex
  ready : s.board.ready = counted (fun c => (s.play c).enrolled) % 2 ^ 32
  started : s.alex.started = true → N < 2 ^ 32 ∧ ∀ c, (s.play c).enrolled = true
  past : s.alex.past = true → K ≤ s.board.num
  kept : Kept s.alex.phase s.board

@[grind →] theorem phase_of_not_started {pc : AlexPc} (h : pc.started = false) :
    pc.phase = .idle := by
  cases pc <;> trivial

section step

variable {K : Nat} {s s' : State N} {l : Label N}

/-- The mutex is with the thread that is in a section. -/
theorem Sound.lock_step (h : Sound K s) (hs : Effect K s l s') :
    (∀ c, (s'.play c).locks = true ↔ s'.owner = some (.cont c)) ∧
    (s'.alex.locks = true ↔ s'.owner = some .alex) := by
  have hlock := h.lock
  have halex := h.lockAlex
  cases hs <;> constructor <;> grind [PlayPc.locks, AlexPc.locks]

/-- `ready` counts the contestants, modulo `2 ^ 32`. -/
theorem Sound.ready_step (h : Sound K s) (hs : Effect K s l s') :
    s'.board.ready = counted (fun c => (s'.play c).enrolled) % 2 ^ 32 := by
  have hready := h.ready
  have hsame : s'.board.ready = s.board.ready →
      (∀ c, (s'.play c).enrolled = (s.play c).enrolled) →
      s'.board.ready = counted (fun c => (s'.play c).enrolled) % 2 ^ 32 := by
    intro hboard hplay
    simp only [hboard, hready, hplay]
  cases hs with
  | @enroll c rnd hpc =>
      have hcount := counted_update PlayPc.enrolled s.play c .looping
      rw [hpc, show PlayPc.started.enrolled.toNat = 0 from rfl,
        show PlayPc.looping.enrolled.toNat = 1 from rfl] at hcount
      simp only [State.move, Board.enroll, uinc, hready]
      omega
  | lock | unlock | take | reinit | quit | rest | buzz | pass | alexLock | again | start | ask | close
  | call | alexUnlock | alexTake | alexReinit | review | finish =>
      refine hsame (by simp [Board.ask, Board.setAllBuzzers, Board.review, Board.checkScores]) ?_
      grind [PlayPc.enrolled]

/-- Alex leaves the loop over `ready` only when all contestants have counted
themselves. -/
theorem Sound.started_step (h : Sound K s) (hs : Effect K s l s') :
    s'.alex.started = true → N < 2 ^ 32 ∧ ∀ c, (s'.play c).enrolled = true := by
  have hstarted := h.started
  cases hs with
  | start hpc hready =>
      intro _
      rw [h.ready] at hready
      exact all_of_le_counted hready
  | lock | enroll | unlock | take | reinit | quit | rest | buzz | pass | alexLock | again | ask | close
  | call | alexUnlock | alexTake | alexReinit | review | finish =>
      grind [PlayPc.enrolled, AlexPc.started]

/-- Out of the loop over the clues `num` stays. -/
theorem Sound.past_step (h : Sound K s) (hs : Effect K s l s') :
    s'.alex.past = true → K ≤ s'.board.num := by
  have hover := h.past
  cases hs <;> grind [AlexPc.past, Board.enroll, Board.checkScores, num_buzz]

/-- Every section keeps the books. -/
theorem Sound.kept_step (h : Sound K s) (hs : Effect K s l s') : Kept s'.alex.phase s'.board := by
  have hkept := h.kept
  cases hs with
  | @enroll c rnd hpc =>
      -- Alex is still in the loop over `ready`
      have hstarted : s.alex.started = false := by
        by_contra hst
        have := (h.started (by simpa using hst)).2 c
        simp [hpc, PlayPc.enrolled] at this
      show Kept s.alex.phase _
      rw [phase_of_not_started hstarted] at hkept ⊢
      exact hkept.enroll
  | buzz hpc hnum hbuzz => exact hkept.buzz hbuzz _
  | ask hpc hnum =>
      rw [hpc] at hkept
      exact hkept.ask
  | call hpc =>
      rw [hpc] at hkept
      exact hkept.release
  | review hpc =>
      rw [hpc] at hkept
      exact hkept.review
  | finish hpc =>
      rw [hpc] at hkept
      exact hkept.checkScores
  | lock | unlock | take | reinit | quit | rest | pass => exact hkept
  | alexLock _ hpc | alexUnlock hpc =>
      rcases hpc with ⟨hpc, rfl⟩ | ⟨hpc, rfl⟩ <;> rw [hpc] at hkept <;> exact hkept
  | again hpc | start hpc | close hpc | alexTake hpc | alexReinit hpc =>
      rw [hpc] at hkept
      exact hkept

/-- One step keeps all of this. -/
theorem Sound.step (h : Sound K s) (hs : Effect K s l s') : Sound K s' :=
  ⟨(h.lock_step hs).1, (h.lock_step hs).2, h.ready_step hs, h.started_step hs, h.past_step hs,
    h.kept_step hs⟩

end step

theorem sound_init (K : Nat) : Sound K (initState N) where
  lock _ := by simp [initState, PlayPc.locks]
  lockAlex := by simp [initState, AlexPc.locks]
  ready := by simp [initState, Board.init, counted, PlayPc.enrolled]
  started := nofun
  past := nofun
  kept := kept_init N

/-! ## the token -/

/-- The tokens: in the completions, and with the threads. -/
def tokens (s : State N) : Nat :=
  s.contCv.done + s.alexCv.done + counted (fun c => (s.play c).holds) + s.alex.holds.toNat

theorem tokens_init (N : Nat) : tokens (initState N) = 1 := by
  simp [tokens, initState, Completion.reinit, counted, PlayPc.holds, AlexPc.holds]

/-- A contestant that holds a token. -/
theorem holders_pos {s : State N} {c : Fin N} (h : (s.play c).holds = true) :
    0 < counted fun c' => (s.play c').holds :=
  Finset.card_pos.mpr ⟨c, by simpa using h⟩

/-- The tokens after a contestant has moved on: `n` of them have been lost. -/
theorem tokens_of_play {s s' : State N} {c : Fin N} {pc : PlayPc} (n : Nat)
    (hplay : s'.play = Function.update s.play c pc) (halex : s'.alex = s.alex)
    (h : s'.contCv.done + s'.alexCv.done + pc.holds.toNat + n =
      s.contCv.done + s.alexCv.done + (s.play c).holds.toNat) : tokens s' + n = tokens s := by
  have hcount := counted_update PlayPc.holds s.play c pc
  simp only [tokens, hplay, halex]
  omega

/-- The tokens after Alex has moved on. -/
theorem tokens_of_alex {s s' : State N} (hplay : s'.play = s.play)
    (h : s'.contCv.done + s'.alexCv.done + s'.alex.holds.toNat =
      s.contCv.done + s.alexCv.done + s.alex.holds.toNat) : tokens s' = tokens s := by
  simp only [tokens, hplay]
  omega

/-- A contestant that may not buzz, and finds another clue to come: it goes back to the
wait and keeps the token. -/
def Drops (K : Nat) (s : State N) : Label N → Prop
  | .play c _ => s.play c = .checking ∧ s.board.num < K ∧ s.board.canBuzzIn c = false
  | .alex => False

/-- Whoever holds a token holds the only one. -/
theorem alone {s : State N} (hle : tokens s ≤ 1)
    (h : s.alex.holds = true ∨ ∃ c, (s.play c).holds = true) :
    s.contCv.done = 0 ∧ s.alexCv.done = 0 := by
  unfold tokens at hle
  rcases h with h | ⟨c, h⟩
  · rw [h, Bool.toNat_true] at hle
    omega
  · have := holders_pos h
    omega

/-- **What a step does to the token**: it is lost where a contestant drops it, and
otherwise it stays. -/
theorem tokens_step {K : Nat} {s s' : State N} {l : Label N} (hle : tokens s ≤ 1)
    (hs : Effect K s l s') :
    (Drops K s l ∧ tokens s' + 1 = tokens s) ∨ (¬ Drops K s l ∧ tokens s' = tokens s) := by
  have hmax : s.contCv.done < UINT_MAX ∧ s.alexCv.done < UINT_MAX := by
    unfold tokens at hle
    unfold UINT_MAX
    omega
  have hcontCv := Completion.done_complete hmax.1
  have halexCv := Completion.done_complete hmax.2
  cases hs with
  | rest hpc hnum hbuzz =>
      exact .inl ⟨⟨hpc, hnum, hbuzz⟩, tokens_of_play 1 rfl rfl (by rw [hpc]; rfl)⟩
  | lock hfree hpc | unlock hpc =>
      refine .inr ⟨by grind [Drops], tokens_of_play 0 rfl rfl ?_⟩
      rcases hpc with ⟨hpc, rfl⟩ | ⟨hpc, rfl⟩ <;> rw [hpc] <;> rfl
  | enroll hpc | quit hpc =>
      exact .inr ⟨by grind [Drops], tokens_of_play 0 rfl rfl (by rw [hpc]; rfl)⟩
  | take hpc hd =>
      have hdone := Completion.done_wait hd hmax.1
      refine .inr ⟨by grind [Drops], tokens_of_play 0 rfl rfl ?_⟩
      simp only [hpc, PlayPc.holds, Bool.toNat_true, Bool.toNat_false, alexCv_move]
      omega
  | reinit hpc =>
      have hnone := alone hle (.inr ⟨_, by rw [hpc]; rfl⟩)
      exact .inr ⟨by grind [Drops], tokens_of_play 0 rfl rfl (by rw [hpc, hnone.1]; rfl)⟩
  | @buzz c rnd hpc hnum hbuzz =>
      refine .inr ⟨by grind [Drops], tokens_of_play 0 rfl rfl ?_⟩
      cases s.board.settles (rnd.toNat % K) <;>
        simp only [hpc, PlayPc.holds, Bool.toNat_true, Bool.toNat_false, if_true, if_false,
          Bool.false_eq_true, hcontCv, halexCv] <;> omega
  | pass hpc =>
      refine .inr ⟨by grind [Drops], tokens_of_play 0 rfl rfl ?_⟩
      simp only [hpc, PlayPc.holds, Bool.toNat_true, Bool.toNat_false, alexCv_move, hcontCv]
      omega
  | alexLock hfree hpc | alexUnlock hpc =>
      refine .inr ⟨id, tokens_of_alex rfl ?_⟩
      rcases hpc with ⟨hpc, rfl⟩ | ⟨hpc, rfl⟩ <;> rw [hpc] <;> rfl
  | again hpc | start hpc | ask hpc | close hpc | review hpc =>
      exact .inr ⟨id, tokens_of_alex rfl (by rw [hpc]; rfl)⟩
  | call hpc | finish hpc =>
      refine .inr ⟨id, tokens_of_alex rfl ?_⟩
      simp only [hpc, AlexPc.holds, Bool.toNat_true, Bool.toNat_false, hcontCv]
      omega
  | alexTake hpc hd =>
      have hdone := Completion.done_wait hd hmax.2
      refine .inr ⟨id, tokens_of_alex rfl ?_⟩
      simp only [hpc, AlexPc.holds, Bool.toNat_true, Bool.toNat_false]
      omega
  | alexReinit hpc =>
      have hnone := alone hle (.inl (by rw [hpc]; rfl))
      exact .inr ⟨id, tokens_of_alex rfl (by rw [hpc, hnone.2]; rfl)⟩

end Cmsc421.Quiz.Final
