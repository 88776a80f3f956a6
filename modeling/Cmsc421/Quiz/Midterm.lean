import Cmsc421.Run
import Cmsc421.Quiz.Board

/-!
# Cmsc421.Quiz.Midterm

`midterm.c`: the quiz with a mutex and two condition variables.

Every thread is a program counter, and a step is what a thread does between two
operations on the mutex or on a condition variable.  A signal to a condition variable
is not remembered: it moves a thread that is `waiting` there to `woken`, from where
the thread still has to get the mutex, and does nothing if nobody waits.  A spurious
wake-up is a step of its own.  `main` has created all contestants when the machine
starts; a contestant that has not been scheduled yet is `starting`.
-/

namespace Cmsc421.Quiz.Midterm

/-- Where a contestant is in `play()`. -/
inductive PlayPc
  /-- before `pthread_mutex_lock` -/
  | starting
  /-- before `ready++` and the first wait -/
  | started
  /-- blocked on `cont_cv` -/
  | waiting
  /-- out of the wait on `cont_cv`, without the mutex -/
  | woken
  /-- after the wait -/
  | checking
  /-- in `sleep(1)` -/
  | sleeping
  /-- out of the loop -/
  | leaving
  | finished
  deriving DecidableEq

/-- Where `main` is. -/
inductive MainPc
  /-- before `pthread_mutex_lock`, the first time or in the loop over `ready` -/
  | spinning
  /-- at the test of `ready` -/
  | polling
  /-- at the test of `num` -/
  | asking
  /-- before the broadcast for a clue -/
  | calling
  /-- before the wait on `alex_cv` -/
  | pausing
  /-- blocked on `alex_cv` -/
  | waiting
  /-- out of the wait on `alex_cv`, without the mutex -/
  | woken
  /-- after the wait -/
  | resuming
  /-- before the last broadcast -/
  | closing
  | unlocking
  /-- before `pthread_join` of the contestant with this number -/
  | joining (k : Nat)
  deriving DecidableEq

/-- The state of the program. -/
structure State (N : Nat) where
  board : Board N
  owner : Option (Thread N)
  main : MainPc
  play : Fin N → PlayPc

/-- The steps: of a contestant, with what `rand()` returns to it if it calls it, of `main`,
and the spurious wake-ups.  What `rand()` returns to `main` is how long `main` sleeps. -/
inductive Label (N : Nat)
  | play (c : Fin N) (rnd : UInt32)
  | main
  | spuriousPlay (c : Fin N)
  | spuriousMain
  deriving DecidableEq

/-- `pthread_cond_signal(&alex_cv)`. -/
def MainPc.signal : MainPc → MainPc
  | .waiting => .woken
  | pc => pc

/-- `pthread_cond_broadcast(&cont_cv)`. -/
def PlayPc.broadcast : PlayPc → PlayPc
  | .waiting => .woken
  | pc => pc

variable {N : Nat}

/-- A contestant moves on. -/
def State.move (s : State N) (c : Fin N) (pc : PlayPc) : State N :=
  { s with play := Function.update s.play c pc }

@[grind =] theorem play_move (s : State N) (c : Fin N) (pc : PlayPc) (c' : Fin N) :
    (s.move c pc).play c' = if c' = c then pc else s.play c' := by
  simp [State.move, Function.update_apply]

@[simp, grind =] theorem board_move (s : State N) (c : Fin N) (pc : PlayPc) :
    (s.move c pc).board = s.board := rfl

@[simp, grind =] theorem owner_move (s : State N) (c : Fin N) (pc : PlayPc) :
    (s.move c pc).owner = s.owner := rfl

@[simp, grind =] theorem main_move (s : State N) (c : Fin N) (pc : PlayPc) :
    (s.move c pc).main = s.main := rfl

/-- A step of `play()`. -/
def playStep (K : Nat) (s : State N) (c : Fin N) (rnd : UInt32) : Option (State N) :=
  match s.play c with
  | .starting =>
      if s.owner = none then some { s.move c .started with owner := some (.cont c) } else none
  | .started => some { s.move c .waiting with board := s.board.enroll, owner := none }
  | .waiting => none
  | .woken =>
      if s.owner = none then some { s.move c .checking with owner := some (.cont c) } else none
  | .checking =>
      if K ≤ s.board.num then some (s.move c .leaving)
      else if s.board.canBuzzIn c = false then some { s.move c .waiting with owner := none }
      else
        let ans := rnd.toNat % K
        some { s.move c .sleeping with
          board := s.board.buzz c ans
          main := if s.board.settles ans then s.main.signal else s.main }
  | .sleeping => some { s.move c .waiting with owner := none }
  | .leaving => some { s.move c .finished with owner := none }
  | .finished => none

/-- A step of `main()`. -/
def mainStep (K : Nat) (s : State N) : Option (State N) :=
  match s.main with
  | .spinning => if s.owner = none then some { s with owner := some .alex, main := .polling } else none
  | .polling =>
      if s.board.ready < N then some { s with owner := none, main := .spinning }
      else some { s with main := .asking }
  | .asking =>
      if s.board.num < K then some { s with board := s.board.ask, main := .calling }
      else some { s with main := .closing }
  | .calling =>
      some { s with
        board := s.board.setAllBuzzers true
        play := fun c => (s.play c).broadcast
        main := .pausing }
  | .pausing => some { s with owner := none, main := .waiting }
  | .waiting => none
  | .woken => if s.owner = none then some { s with owner := some .alex, main := .resuming } else none
  | .resuming => some { s with board := s.board.review, main := .asking }
  | .closing => some { s with play := fun c => (s.play c).broadcast, main := .unlocking }
  | .unlocking => some { s with board := s.board.checkScores, owner := none, main := .joining 0 }
  | .joining k =>
      if h : k < N then
        if s.play ⟨k, h⟩ = .finished then
          some { s with board := s.board.announce ⟨k, h⟩, main := .joining (k + 1) }
        else none
      else none

/-- One step. -/
def step (K : Nat) (s : State N) : Label N → Option (State N)
  | .play c rnd => playStep K s c rnd
  | .main => mainStep K s
  | .spuriousPlay c => if s.play c = .waiting then some (s.move c .woken) else none
  | .spuriousMain => if s.main = .waiting then some { s with main := .woken } else none

/-- The program after `main` has created the contestants. -/
def initState (N : Nat) : State N := ⟨Board.init N, none, .spinning, fun _ => .starting⟩

/-- The program, with `N` contestants and `K` clues. -/
def midterm (N K : Nat) : Machine (State N) (Label N) where
  init s := s = initState N
  step := step K

/-! ## what a step can do -/

/-- **All that a step can do.** -/
inductive Effect (K : Nat) (s : State N) : Label N → State N → Prop
  | lock {c : Fin N} {rnd : UInt32} {pc : PlayPc} (hfree : s.owner = none)
      (hpc : s.play c = .starting ∧ pc = .started ∨ s.play c = .woken ∧ pc = .checking) :
      Effect K s (.play c rnd) { s.move c pc with owner := some (.cont c) }
  | enroll {c : Fin N} {rnd : UInt32} (hpc : s.play c = .started) :
      Effect K s (.play c rnd) { s.move c .waiting with board := s.board.enroll, owner := none }
  | rest {c : Fin N} {rnd : UInt32}
      (hpc : s.play c = .checking ∧ s.board.num < K ∧ s.board.canBuzzIn c = false ∨
        s.play c = .sleeping) :
      Effect K s (.play c rnd) { s.move c .waiting with owner := none }
  | quit {c : Fin N} {rnd : UInt32} (hpc : s.play c = .checking) (hover : K ≤ s.board.num) :
      Effect K s (.play c rnd) (s.move c .leaving)
  | buzz {c : Fin N} {rnd : UInt32} (hpc : s.play c = .checking) (hnum : s.board.num < K)
      (hbuzz : s.board.canBuzzIn c = true) :
      Effect K s (.play c rnd)
        { s.move c .sleeping with
          board := s.board.buzz c (rnd.toNat % K)
          main := if s.board.settles (rnd.toNat % K) then s.main.signal else s.main }
  | leave {c : Fin N} {rnd : UInt32} (hpc : s.play c = .leaving) :
      Effect K s (.play c rnd) { s.move c .finished with owner := none }
  | mainLock {pc : MainPc} (hfree : s.owner = none)
      (hpc : s.main = .spinning ∧ pc = .polling ∨ s.main = .woken ∧ pc = .resuming) :
      Effect K s .main { s with owner := some .alex, main := pc }
  | again (hpc : s.main = .polling) (hready : s.board.ready < N) :
      Effect K s .main { s with owner := none, main := .spinning }
  | start (hpc : s.main = .polling) (hready : N ≤ s.board.ready) :
      Effect K s .main { s with main := .asking }
  | ask (hpc : s.main = .asking) (hnum : s.board.num < K) :
      Effect K s .main { s with board := s.board.ask, main := .calling }
  | close (hpc : s.main = .asking) (hnum : K ≤ s.board.num) :
      Effect K s .main { s with main := .closing }
  | call (hpc : s.main = .calling) :
      Effect K s .main
        { s with
          board := s.board.setAllBuzzers true
          play := fun c => (s.play c).broadcast
          main := .pausing }
  | pause (hpc : s.main = .pausing) : Effect K s .main { s with owner := none, main := .waiting }
  | review (hpc : s.main = .resuming) :
      Effect K s .main { s with board := s.board.review, main := .asking }
  | dismiss (hpc : s.main = .closing) :
      Effect K s .main { s with play := fun c => (s.play c).broadcast, main := .unlocking }
  | unlock (hpc : s.main = .unlocking) :
      Effect K s .main { s with board := s.board.checkScores, owner := none, main := .joining 0 }
  | join {k : Nat} (hpc : s.main = .joining k) (hk : k < N) (hfinished : s.play ⟨k, hk⟩ = .finished) :
      Effect K s .main { s with board := s.board.announce ⟨k, hk⟩, main := .joining (k + 1) }
  | spuriousPlay {c : Fin N} (hpc : s.play c = .waiting) :
      Effect K s (.spuriousPlay c) (s.move c .woken)
  | spuriousMain (hpc : s.main = .waiting) :
      Effect K s .spuriousMain { s with main := .woken }

/-- Every step has one of the effects. -/
theorem step_cases {K : Nat} {s s' : State N} {l : Label N} (h : step K s l = some s') :
    Effect K s l s' := by
  cases l with
  | play c rnd =>
      simp only [step, playStep] at h
      split at h
      case h_1 hpc =>
        obtain ⟨hfree, rfl⟩ := by simpa using h
        exact .lock hfree (.inl ⟨hpc, rfl⟩)
      case h_2 hpc =>
        obtain rfl := Option.some.inj h
        exact .enroll hpc
      case h_3 => contradiction
      case h_4 hpc =>
        obtain ⟨hfree, rfl⟩ := by simpa using h
        exact .lock hfree (.inr ⟨hpc, rfl⟩)
      case h_5 hpc =>
        split at h
        · next hover =>
            obtain rfl := Option.some.inj h
            exact .quit hpc hover
        · next hnum =>
            split at h
            · next hbuzz =>
                obtain rfl := Option.some.inj h
                exact .rest (.inl ⟨hpc, not_le.mp hnum, hbuzz⟩)
            · next hbuzz =>
                obtain rfl := Option.some.inj h
                exact .buzz hpc (not_le.mp hnum) (by simpa using hbuzz)
      case h_6 hpc =>
        obtain rfl := Option.some.inj h
        exact .rest (.inr hpc)
      case h_7 hpc =>
        obtain rfl := Option.some.inj h
        exact .leave hpc
      case h_8 => contradiction
  | main =>
      simp only [step, mainStep] at h
      split at h
      case h_1 hpc =>
        obtain ⟨hfree, rfl⟩ := by simpa using h
        exact .mainLock hfree (.inl ⟨hpc, rfl⟩)
      case h_2 hpc =>
        split at h
        · next hready =>
            obtain rfl := Option.some.inj h
            exact .again hpc hready
        · next hready =>
            obtain rfl := Option.some.inj h
            exact .start hpc (not_lt.mp hready)
      case h_3 hpc =>
        split at h
        · next hnum =>
            obtain rfl := Option.some.inj h
            exact .ask hpc hnum
        · next hnum =>
            obtain rfl := Option.some.inj h
            exact .close hpc (not_lt.mp hnum)
      case h_4 hpc =>
        obtain rfl := Option.some.inj h
        exact .call hpc
      case h_5 hpc =>
        obtain rfl := Option.some.inj h
        exact .pause hpc
      case h_6 => contradiction
      case h_7 hpc =>
        obtain ⟨hfree, rfl⟩ := by simpa using h
        exact .mainLock hfree (.inr ⟨hpc, rfl⟩)
      case h_8 hpc =>
        obtain rfl := Option.some.inj h
        exact .review hpc
      case h_9 hpc =>
        obtain rfl := Option.some.inj h
        exact .dismiss hpc
      case h_10 hpc =>
        obtain rfl := Option.some.inj h
        exact .unlock hpc
      case h_11 k hpc =>
        split at h
        · next hk =>
            obtain ⟨hfinished, rfl⟩ := by simpa using h
            exact .join hpc hk hfinished
        · contradiction
  | spuriousPlay c =>
      obtain ⟨hpc, rfl⟩ := by simpa [step] using h
      exact .spuriousPlay hpc
  | spuriousMain =>
      obtain ⟨hpc, rfl⟩ := by simpa [step] using h
      exact .spuriousMain hpc

/-! ## the mutex and the phases -/

/-- The contestant has the mutex. -/
def PlayPc.locked : PlayPc → Bool
  | .started | .checking | .sleeping | .leaving => true
  | .starting | .waiting | .woken | .finished => false

/-- The contestant has counted itself in `ready`. -/
def PlayPc.enrolled : PlayPc → Bool
  | .starting | .started => false
  | _ => true

/-- The contestant has left the loop. -/
def PlayPc.left : PlayPc → Bool
  | .leaving | .finished => true
  | _ => false

/-- The contestant is out of its last wait. -/
def PlayPc.dismissed : PlayPc → Bool
  | .woken | .checking | .leaving | .finished => true
  | _ => false

/-- `main` has the mutex. -/
def MainPc.locked : MainPc → Bool
  | .polling | .asking | .calling | .pausing | .resuming | .closing | .unlocking => true
  | .spinning | .waiting | .woken | .joining _ => false

/-- `main` is out of the loop over `ready`. -/
def MainPc.started : MainPc → Bool
  | .spinning | .polling => false
  | _ => true

/-- `main` is in the body of the loop over the clues. -/
def MainPc.playing : MainPc → Bool
  | .calling | .pausing | .waiting | .woken | .resuming => true
  | _ => false

/-- The contestants have been called, and `main` has not been woken. -/
def MainPc.called : MainPc → Bool
  | .pausing | .waiting => true
  | _ => false

/-- `main` is out of the loop over the clues. -/
def MainPc.past : MainPc → Bool
  | .closing | .unlocking | .joining _ => true
  | _ => false

/-- `main` has made its last broadcast. -/
def MainPc.closed : MainPc → Bool
  | .unlocking | .joining _ => true
  | _ => false

section pcs

@[grind =] theorem locked_broadcast (pc : PlayPc) : pc.broadcast.locked = pc.locked := by
  cases pc <;> rfl

@[grind =] theorem enrolled_broadcast (pc : PlayPc) : pc.broadcast.enrolled = pc.enrolled := by
  cases pc <;> rfl

@[grind =] theorem left_broadcast (pc : PlayPc) : pc.broadcast.left = pc.left := by cases pc <;> rfl

/-- A contestant that has counted itself, and is not in a section or out of the loop,
is woken by a broadcast if it has not been before. -/
theorem broadcast_eq_woken {pc : PlayPc} (he : pc.enrolled = true) (hl : pc.locked = false)
    (ho : pc.left = false) : pc.broadcast = .woken := by
  cases pc <;> simp_all [PlayPc.enrolled, PlayPc.locked, PlayPc.left, PlayPc.broadcast]

theorem dismissed_broadcast {pc : PlayPc} (he : pc.enrolled = true) (hl : pc.locked = false) :
    pc.broadcast.dismissed = true := by
  cases pc <;> simp_all [PlayPc.enrolled, PlayPc.locked, PlayPc.dismissed, PlayPc.broadcast]

@[grind =] theorem locked_signal (pc : MainPc) : pc.signal.locked = pc.locked := by cases pc <;> rfl

@[grind =] theorem started_signal (pc : MainPc) : pc.signal.started = pc.started := by
  cases pc <;> rfl

@[grind =] theorem past_signal (pc : MainPc) : pc.signal.past = pc.past := by cases pc <;> rfl

@[grind →] theorem called_of_signal {pc : MainPc} (h : pc.signal.called = true) :
    pc.called = true := by
  cases pc <;> trivial

@[grind →] theorem playing_of_called {pc : MainPc} (h : pc.called = true) : pc.playing = true := by
  cases pc <;> trivial

@[grind →] theorem started_of_playing {pc : MainPc} (h : pc.playing = true) : pc.started = true := by
  cases pc <;> trivial

@[grind →] theorem past_of_closed {pc : MainPc} (h : pc.closed = true) : pc.past = true := by
  cases pc <;> trivial

end pcs

/-- Who has the mutex, and where the threads are in the phases of the quiz. -/
structure Sound (K : Nat) (s : State N) : Prop where
  lock : ∀ c, (s.play c).locked = true ↔ s.owner = some (.cont c)
  lockMain : s.main.locked = true ↔ s.owner = some .alex
  ready : s.board.ready = counted (fun c => (s.play c).enrolled) % 2 ^ 32
  started : s.main.started = true → N < 2 ^ 32 ∧ ∀ c, (s.play c).enrolled = true
  left : ∀ c, (s.play c).left = true → K ≤ s.board.num
  playing : s.main.playing = true → s.board.num < K
  past : s.main.past = true → K ≤ s.board.num
  awake : s.main.called = true → ∀ c, s.board.canBuzzIn c = true →
    s.play c = .woken ∨ s.play c = .checking
  closed : s.main.closed = true → ∀ c, (s.play c).dismissed = true

section step

variable {K : Nat} {s s' : State N} {l : Label N}

/-- The mutex is with the thread that is in a section. -/
theorem Sound.lock_step (h : Sound K s) (hs : Effect K s l s') :
    (∀ c, (s'.play c).locked = true ↔ s'.owner = some (.cont c)) ∧
    (s'.main.locked = true ↔ s'.owner = some .alex) := by
  have hlock := h.lock
  have hmain := h.lockMain
  cases hs <;> constructor <;> grind [PlayPc.locked, MainPc.locked]

/-- `ready` counts the contestants, modulo `2 ^ 32`. -/
theorem Sound.ready_step (h : Sound K s) (hs : Effect K s l s') :
    s'.board.ready = counted (fun c => (s'.play c).enrolled) % 2 ^ 32 := by
  have hready := h.ready
  have hsame : s'.board.ready = s.board.ready →
      (∀ c, (s'.play c).enrolled = (s.play c).enrolled) →
      s'.board.ready = counted (fun c => (s'.play c).enrolled) % 2 ^ 32 := by
    intro hboard hplay
    simp only [hboard, hready, hplay]
  cases hs with
  | @enroll c rnd hpc =>
      have hcount := counted_update PlayPc.enrolled s.play c .waiting
      rw [hpc, show PlayPc.started.enrolled.toNat = 0 from rfl,
        show PlayPc.waiting.enrolled.toNat = 1 from rfl] at hcount
      simp only [State.move, Board.enroll, uinc, hready]
      omega
  | lock | rest | quit | buzz | leave | mainLock | again | start | ask | close | call | pause
  | review | dismiss | unlock | join | spuriousPlay | spuriousMain =>
      refine hsame (by simp [Board.ask, Board.setAllBuzzers, Board.review, Board.checkScores,
        Board.announce]) ?_
      grind [PlayPc.enrolled]

/-- `main` leaves the loop over `ready` only when all contestants have counted
themselves. -/
theorem Sound.started_step (h : Sound K s) (hs : Effect K s l s') :
    s'.main.started = true → N < 2 ^ 32 ∧ ∀ c, (s'.play c).enrolled = true := by
  have hstarted := h.started
  cases hs with
  | start hpc hready =>
      intro _
      rw [h.ready] at hready
      exact all_of_le_counted hready
  | lock | enroll | rest | quit | buzz | leave | mainLock | again | ask | close | call | pause
  | review | dismiss | unlock | join | spuriousPlay | spuriousMain =>
      grind [PlayPc.enrolled, MainPc.started]

/-- Only the end of a round changes `num`. -/
theorem num_step (hs : Effect K s l s') :
    (s.main = .resuming ∧ s'.main = .asking) ∨ s'.board.num = s.board.num := by
  cases hs with
  | review hpc => exact .inl ⟨hpc, rfl⟩
  | buzz => exact .inr (num_buzz _ _ _)
  | lock | enroll | rest | quit | leave | mainLock | again | start | ask | close | call | pause
  | dismiss | unlock | join | spuriousPlay | spuriousMain => exact .inr rfl

/-- A contestant leaves the loop when it finds no clue to come, … -/
theorem left_of_step (hs : Effect K s l s') {c : Fin N} (hc : (s'.play c).left = true) :
    (s.play c).left = true ∨ K ≤ s.board.num := by
  cases hs with
  | quit hpc hover => exact .inr hover
  | call | dismiss => exact .inl (by simpa [left_broadcast] using hc)
  | mainLock | again | start | ask | close | pause | review | unlock | join | spuriousMain =>
      exact .inl hc
  | lock | enroll | rest | buzz | leave | spuriousPlay => grind [PlayPc.left]

/-- … and so does `main`. -/
theorem past_of_step (hs : Effect K s l s') (hp : s'.main.past = true) :
    s.main.past = true ∨ K ≤ s.board.num := by
  cases hs with
  | close hpc hnum => exact .inr hnum
  | lock | enroll | rest | quit | leave | spuriousPlay => exact .inl hp
  | buzz | mainLock | again | start | ask | call | pause | review | dismiss | unlock | join
  | spuriousMain => grind [MainPc.past]

/-- `main` enters the body of the loop when there is another clue. -/
theorem playing_of_step (hs : Effect K s l s') (hp : s'.main.playing = true) :
    s.main.playing = true ∨ s.board.num < K := by
  cases hs with
  | ask hpc hnum => exact .inr hnum
  | lock | enroll | rest | quit | leave | spuriousPlay => exact .inl hp
  | buzz | mainLock | again | start | close | call | pause | review | dismiss | unlock | join
  | spuriousMain => grind [MainPc.playing]

/-- While a contestant has left the loop, `num` stays. -/
theorem Sound.left_step (h : Sound K s) (hs : Effect K s l s') (c : Fin N)
    (hc : (s'.play c).left = true) : K ≤ s'.board.num := by
  have hnum : K ≤ s.board.num := (left_of_step hs hc).elim (h.left c) id
  rcases num_step hs with ⟨hpc, -⟩ | hsame
  · have := h.playing (by rw [hpc]; rfl)
    omega
  · rwa [hsame]

theorem Sound.past_step (h : Sound K s) (hs : Effect K s l s') (hp : s'.main.past = true) :
    K ≤ s'.board.num := by
  have hnum : K ≤ s.board.num := (past_of_step hs hp).elim h.past id
  rcases num_step hs with ⟨hpc, -⟩ | hsame
  · have := h.playing (by rw [hpc]; rfl)
    omega
  · rwa [hsame]

theorem Sound.playing_step (h : Sound K s) (hs : Effect K s l s') (hp : s'.main.playing = true) :
    s'.board.num < K := by
  have hnum : s.board.num < K := (playing_of_step hs hp).elim h.playing id
  rcases num_step hs with ⟨-, hpc⟩ | hsame
  · rw [hpc] at hp
    contradiction
  · rwa [hsame]

/-- Whoever may buzz has been woken and is on its way. -/
theorem Sound.awake_step (h : Sound K s) (hs : Effect K s l s') :
    s'.main.called = true → ∀ c, s'.board.canBuzzIn c = true →
      s'.play c = .woken ∨ s'.play c = .checking := by
  have hawake := h.awake
  cases hs with
  | call hpc =>
      -- no contestant has the mutex, and all wait or have been woken
      intro _ c _
      refine .inl (broadcast_eq_woken ((h.started (by rw [hpc]; rfl)).2 c) ?_ ?_)
      · have howner := h.lockMain.mp (by rw [hpc]; rfl)
        have := h.lock c
        grind
      · have hnum := h.playing (by rw [hpc]; rfl)
        have := h.left c
        grind
  | quit hpc hover =>
      have := h.playing
      grind
  | lock | enroll | rest | buzz | leave | mainLock | again | start | ask | close | pause | review
  | dismiss | unlock | join | spuriousPlay | spuriousMain =>
      grind [MainPc.called, Board.enroll, canBuzzIn_buzz]

/-- After the last broadcast nobody waits. -/
theorem Sound.closed_step (h : Sound K s) (hs : Effect K s l s') :
    s'.main.closed = true → ∀ c, (s'.play c).dismissed = true := by
  have hclosed := h.closed
  cases hs with
  | dismiss hpc =>
      intro _ c
      refine dismissed_broadcast ((h.started (by rw [hpc]; rfl)).2 c) ?_
      have howner := h.lockMain.mp (by rw [hpc]; rfl)
      have := h.lock c
      grind
  | lock | enroll | rest | quit | buzz | leave | mainLock | again | start | ask | close | call | pause
  | review | unlock | join | spuriousPlay | spuriousMain =>
      have hover := h.past
      grind [MainPc.closed, PlayPc.dismissed]

/-- One step keeps all of this. -/
theorem Sound.step (h : Sound K s) (hs : Midterm.step K s l = some s') : Sound K s' := by
  have he := step_cases hs
  exact ⟨(h.lock_step he).1, (h.lock_step he).2, h.ready_step he, h.started_step he,
    h.left_step he, h.playing_step he, h.past_step he, h.awake_step he, h.closed_step he⟩

end step

theorem sound_init (K : Nat) : Sound K (initState N) where
  lock _ := by simp [initState, PlayPc.locked]
  lockMain := by simp [initState, MainPc.locked]
  ready := by simp [initState, Board.init, counted, PlayPc.enrolled]
  started := nofun
  left := nofun
  playing := nofun
  past := nofun
  awake := nofun
  closed := nofun

/-- Everything is sound in every reachable state. -/
theorem sound_of_run {K : Nat} {tr : List (State N × Label N)} {s : State N}
    (h : (midterm N K).Run tr s) : Sound K s := by
  refine Machine.Run.invariant (I := fun _ s => Sound K s) ?_ (fun _ _ _ _ hI hs => hI.step hs) h
  rintro s rfl
  exact sound_init K

end Cmsc421.Quiz.Midterm
