import Cmsc421.Linear
import Cmsc421.Mastermind.Driver
import Mathlib.Data.List.Induction

/-!
# Cmsc421.Mastermind.History

Which calls a run of the driver has finished, with what result and when, and what it
means that the calls could have been made one after the other.

The history is read off the trace, with the number of steps taken as the clock.  A run
is serial if the steps of each call stand together; the allocations and the random words
are the environment's, also in a serial run.
-/

namespace Cmsc421.Mastermind

/-! ## the history of a run -/

/-- What the driver is asked to do: a call of a user on a thread, an interrupt with its
packet, or a write of the module parameter. -/
inductive Task
  | call (t : Nat) (user : Kuid) (call : Call)
  | handler (t : Nat) (packet : Option (List UInt8))
  | param (b : Bool)

/-- A task and its result; the handler and the parameter have none. -/
structure Act where
  task : Task
  result : Option Result

/-- The thread of a task. -/
def Task.thread : Task → Option Nat
  | .call t _ _ | .handler t _ => some t
  | .param _ => none

/-- The act that a step finishes. -/
def finishes (ro : Rodata) (s : Sys) : Label → Option Act
  | .main t rnd =>
      match s.frames t with
      | some (.locked user call highest curr) =>
          some ⟨.call t user call,
            some (s.drv.withGame call.noEntry curr (call.section ro rnd highest)).2⟩
      | _ => none
  | .bottom t packet => some ⟨.handler t packet, none⟩
  | .setRandomCode b => some ⟨.param b, none⟩
  | .enter _ _ _ | .find _ _ | .irq _ => none

/-- The time, when each thread has begun its call, and what has been finished. -/
structure History where
  clock : Nat
  began : Nat → Nat
  done : List (Placed Act)

/-- When a task has begun: the parameter is written in one step. -/
def History.beganOf (h : History) (task : Task) : Nat := task.thread.elim h.clock h.began

/-- One more step. -/
def History.next (ro : Rodata) (h : History) (s : Sys) (l : Label) : History where
  clock := h.clock + 1
  began :=
    match l with
    | .enter t _ _ | .irq t => Function.update h.began t h.clock
    | _ => h.began
  done :=
    match finishes ro s l with
    | some act => h.done ++ [⟨act, h.beganOf act.task, some h.clock⟩]
    | none => h.done

/-- The history of a trace. -/
def callHistory (ro : Rodata) (tr : List (Sys × Label)) : History :=
  tr.foldl (fun h p => h.next ro p.1 p.2) ⟨0, fun _ => 0, []⟩

@[simp] theorem callHistory_concat (ro : Rodata) (tr : List (Sys × Label)) (s : Sys) (l : Label) :
    callHistory ro (tr ++ [(s, l)]) = (callHistory ro tr).next ro s l := by simp [callHistory]

theorem done_next_of_none {ro : Rodata} {h : History} {s : Sys} {l : Label}
    (hf : finishes ro s l = none) : (h.next ro s l).done = h.done := by
  simp only [History.next, hf]

theorem done_next_of_some {ro : Rodata} {h : History} {s : Sys} {l : Label} {act : Act}
    (hf : finishes ro s l = some act) :
    (h.next ro s l).done = h.done ++ [⟨act, h.beganOf act.task, some h.clock⟩] := by
  simp only [History.next, hf]

/-- No call has begun after now. -/
theorem began_le_clock (ro : Rodata) (tr : List (Sys × Label)) (t : Nat) :
    (callHistory ro tr).began t ≤ (callHistory ro tr).clock := by
  induction tr using List.reverseRecOn with
  | nil => exact Nat.le_refl 0
  | append_singleton tr p ih =>
      obtain ⟨s, l⟩ := p
      rw [callHistory_concat]
      cases l with
      | enter u user call | irq u =>
          by_cases hu : t = u
          · simp [History.next, hu]
          · simpa [History.next, hu] using Nat.le_succ_of_le ih
      | find u a | main u rnd | bottom u packet | setRandomCode b => exact Nat.le_succ_of_le ih

theorem beganOf_le_clock (ro : Rodata) (tr : List (Sys × Label)) (task : Task) :
    (callHistory ro tr).beganOf task ≤ (callHistory ro tr).clock := by
  unfold History.beganOf
  cases task.thread with
  | none => exact Nat.le_refl _
  | some t => exact began_le_clock ro tr t

/-! ## the threads of a run -/

/-- The driver, with `random_code` from the command line. -/
def driverWith (ro : Rodata) (randomCode : Bool) : Machine Sys Label where
  init s := s = initSys randomCode
  step := step ro

/-- The thread that takes a step. -/
def Label.thread : Label → Option Nat
  | .enter t _ _ | .find t _ | .main t _ | .irq t | .bottom t _ => some t
  | .setRandomCode _ => none

/-- A step leaves the other threads where they are. -/
theorem frames_of_step {ro : Rodata} {s s' : Sys} {l : Label} (h : step ro s l = some s') {t : Nat}
    (ht : l.thread ≠ some t) : s'.frames t = s.frames t := by
  cases step_cases h with
  | setRandomCode => rfl
  | enter | found | added | failed | noEntry | main | irq | bottom =>
      have hne : t ≠ _ := fun hsame => ht (congrArg some hsame.symm)
      exact Function.update_of_ne hne ..

/-- A thread that takes no step of a run is outside at its end. -/
theorem frames_of_run {ro : Rodata} {randomCode : Bool} {tr : List (Sys × Label)} {s : Sys}
    (h : (driverWith ro randomCode).Run tr s) {t : Nat} (ht : ∀ p ∈ tr, p.2.thread ≠ some t) :
    s.frames t = none := by
  refine Machine.Run.invariant_of_steps (P := fun _ l => l.thread ≠ some t)
    (I := fun _ s => s.frames t = none) ?_ ?_ h ht
  · rintro s rfl
    rfl
  · rintro tr s l s' ih hl hs
    rw [frames_of_step hs hl, ih]

/-- A run whose threads are below `n` is at rest when these threads are outside. -/
theorem rest_of_run {ro : Rodata} {randomCode : Bool} {tr : List (Sys × Label)} {s : Sys} {n : Nat}
    (h : (driverWith ro randomCode).Run tr s) (hthreads : ∀ p ∈ tr, ∀ t ∈ p.2.thread, t < n)
    (hrest : ∀ t < n, s.frames t = none) (t : Nat) : s.frames t = none := by
  by_cases ht : t < n
  · exact hrest t ht
  · exact frames_of_run h fun p hp hl => ht (hthreads p hp t hl)

/-! ## serial runs -/

/-- The calls are made one after the other: the steps of each call are taken with nothing
in between.  A serial run leads to a state, and finishes acts in this order. -/
inductive SerialRun (ro : Rodata) (randomCode : Bool) : Sys → List Act → Prop
  | start : SerialRun ro randomCode (initSys randomCode) []
  | call {z z₁ z₂ z₃ : Sys} {acts : List Act} {t : Nat} {user : Kuid} {call : Call} {a : Allocation}
      {rnd : Fin NUM_PEGS → UInt32} {act : Act} (h : SerialRun ro randomCode z acts)
      (henter : step ro z (.enter t user call) = some z₁)
      (hfind : step ro z₁ (.find t a) = some z₂) (hmain : step ro z₂ (.main t rnd) = some z₃)
      (hact : finishes ro z₂ (.main t rnd) = some act) :
      SerialRun ro randomCode z₃ (acts ++ [act])
  | handler {z z₁ z₂ : Sys} {acts : List Act} {t : Nat} {packet : Option (List UInt8)}
      (h : SerialRun ro randomCode z acts) (hirq : step ro z (.irq t) = some z₁)
      (hbottom : step ro z₁ (.bottom t packet) = some z₂) :
      SerialRun ro randomCode z₂ (acts ++ [⟨.handler t packet, none⟩])
  | param {z z₁ : Sys} {acts : List Act} {b : Bool} (h : SerialRun ro randomCode z acts)
      (hparam : step ro z (.setRandomCode b) = some z₁) :
      SerialRun ro randomCode z₁ (acts ++ [⟨.param b, none⟩])

/-- The calls of a run could have been made one after the other: some serial run makes
the same calls with the same results, in an order that keeps the order of calls that did
not overlap, and ends in the same state, as far as `R` tells states of the driver apart. -/
def Serializable (ro : Rodata) (randomCode : Bool) (R : Driver → Driver → Prop)
    (tr : List (Sys × Label)) (s : Sys) : Prop :=
  ∃ (z : Sys) (order : List (Placed Act)),
    SerialRun ro randomCode z (order.map (·.what)) ∧ order.Perm (callHistory ro tr).done ∧
    RealTime order ∧ z.lockHeld = s.lockHeld ∧ R z.drv s.drv

/-! ## whole calls -/

section whole

variable {ro : Rodata} {randomCode : Bool} {z : Sys} {acts : List Act}

/-- What a whole call does to the driver, and its result. -/
def wholeCall (ro : Rodata) (d : Driver) (user : Kuid) (call : Call) (a : Allocation)
    (rnd : Fin NUM_PEGS → UInt32) : Driver × Result :=
  (findGame user a d).1.withGame call.noEntry (findGame user a d).2
    (call.section ro rnd (highestDigit d.vars))

/-- A thread has entered a call, … -/
def Sys.entered (z : Sys) (t : Nat) (user : Kuid) (call : Call) : Sys :=
  { z with
    frames := Function.update z.frames t (some (.finding user call (highestDigit z.drv.vars))) }

/-- … and `find_game` has run for it. -/
def Sys.located (z : Sys) (t : Nat) (user : Kuid) (call : Call) (a : Allocation) : Sys :=
  { z with
    drv := (findGame user a z.drv).1
    frames := Function.update z.frames t
      (some (.locked user call (highestDigit z.drv.vars) (findGame user a z.drv).2)) }

/-- The driver, at rest, after a whole call. -/
def afterCall (r : Driver × Result) : Sys := ⟨r.1, r.2 == .trap, fun _ => none⟩

/-- The driver, at rest, after the handler. -/
def Sys.handled (z : Sys) (packet : Option (List UInt8)) : Sys :=
  { z with drv := { z.drv with
      vars := cs421netBottom (highestDigit z.drv.vars) packet z.drv.vars } }

variable {t : Nat} {user : Kuid} {call : Call} {a : Allocation} {rnd : Fin NUM_PEGS → UInt32}

theorem step_enter (hrest : z.frames = fun _ => none) :
    step ro z (.enter t user call) = some (z.entered t user call) := by
  simp [step, hrest, Sys.entered]

theorem step_find :
    step ro (z.entered t user call) (.find t a) =
      if z.lockHeld then none else some (z.located t user call a) := by
  cases hlock : z.lockHeld <;> simp [step, Sys.entered, Sys.located, hlock]

theorem step_main (hrest : z.frames = fun _ => none) (hlock : z.lockHeld = false) :
    step ro (z.located t user call a) (.main t rnd) =
      some (afterCall (wholeCall ro z.drv user call a rnd)) := by
  simp [step, Sys.located, hlock, hrest, afterCall, wholeCall]

theorem finishes_located :
    finishes ro (z.located t user call a) (.main t rnd) =
      some ⟨.call t user call, some (wholeCall ro z.drv user call a rnd).2⟩ := by
  simp [finishes, Sys.located, wholeCall]

/-- What the three steps of a call come to. -/
theorem whole_of_steps (hrest : z.frames = fun _ => none) {z₁ z₂ z₃ : Sys}
    (henter : step ro z (.enter t user call) = some z₁) (hfind : step ro z₁ (.find t a) = some z₂)
    (hmain : step ro z₂ (.main t rnd) = some z₃) :
    z₃ = afterCall (wholeCall ro z.drv user call a rnd) ∧
    finishes ro z₂ (.main t rnd) =
      some ⟨.call t user call, some (wholeCall ro z.drv user call a rnd).2⟩ := by
  obtain rfl := Option.some.inj ((step_enter hrest).symm.trans henter)
  rw [step_find] at hfind
  split at hfind
  · contradiction
  · next hlock =>
      obtain rfl := Option.some.inj hfind
      have hstep : step ro (z.located t user call a) (.main t rnd) =
          some (afterCall (wholeCall ro z.drv user call a rnd)) :=
        step_main hrest (by simpa using hlock)
      exact ⟨(Option.some.inj (hstep.symm.trans hmain)).symm, finishes_located⟩

theorem step_irq_bottom (ro : Rodata) (t : Nat) (hrest : z.frames = fun _ => none)
    (packet : Option (List UInt8)) :
    (step ro z (.irq t)).bind (fun z₁ => step ro z₁ (.bottom t packet)) =
      if z.lockHeld then none else some (z.handled packet) := by
  cases hlock : z.lockHeld <;> simp [step, hrest, hlock, Sys.handled]

/-- What the two steps of the handler come to. -/
theorem handled_of_steps (hrest : z.frames = fun _ => none) {packet : Option (List UInt8)}
    {z₁ z₂ : Sys} (hirq : step ro z (.irq t) = some z₁)
    (hbottom : step ro z₁ (.bottom t packet) = some z₂) : z₂ = z.handled packet := by
  have hboth := step_irq_bottom ro t hrest packet
  rw [hirq, Option.bind_some, hbottom] at hboth
  split at hboth
  · contradiction
  · exact Option.some.inj hboth

namespace SerialRun

/-- Between the calls of a serial run no thread is inside. -/
theorem rest (h : SerialRun ro randomCode z acts) : z.frames = fun _ => none := by
  induction h with
  | start => rfl
  | call h henter hfind hmain hact ih =>
      obtain ⟨rfl, -⟩ := whole_of_steps ih henter hfind hmain
      rfl
  | handler h hirq hbottom ih =>
      obtain rfl := handled_of_steps ih hirq hbottom
      exact ih
  | param h hparam ih =>
      obtain rfl := Option.some.inj hparam
      exact ih

/-- One more call. -/
theorem wholeCall (h : SerialRun ro randomCode z acts) (hlock : z.lockHeld = false) (t : Nat)
    (user : Kuid) (call : Call) (a : Allocation) (rnd : Fin NUM_PEGS → UInt32) :
    SerialRun ro randomCode (afterCall (Mastermind.wholeCall ro z.drv user call a rnd))
      (acts ++ [⟨.call t user call, some (Mastermind.wholeCall ro z.drv user call a rnd).2⟩]) :=
  h.call (step_enter h.rest) (by rw [step_find, hlock, if_neg Bool.false_ne_true])
    (step_main h.rest hlock) finishes_located

/-- One more interrupt. -/
theorem handled (h : SerialRun ro randomCode z acts) (hlock : z.lockHeld = false) (t : Nat)
    (packet : Option (List UInt8)) :
    SerialRun ro randomCode (z.handled packet) (acts ++ [⟨.handler t packet, none⟩]) := by
  have hboth := step_irq_bottom ro t h.rest packet
  rw [hlock, if_neg Bool.false_ne_true] at hboth
  obtain ⟨z₁, hirq, hbottom⟩ := Option.bind_eq_some_iff.mp hboth
  exact h.handler hirq hbottom

/-- A serial run of nothing. -/
theorem eq_init (h : SerialRun ro randomCode z []) : z = initSys randomCode := by
  generalize hl : ([] : List Act) = l at h
  cases h with
  | start => rfl
  | call | handler | param => simp at hl

/-- The last call of a serial run. -/
theorem last_call {t : Nat} {user : Kuid} {call : Call} {r : Option Result}
    (h : SerialRun ro randomCode z (acts ++ [⟨.call t user call, r⟩])) :
    ∃ z₀ a rnd, SerialRun ro randomCode z₀ acts ∧
      z = afterCall (Mastermind.wholeCall ro z₀.drv user call a rnd) ∧
      r = some (Mastermind.wholeCall ro z₀.drv user call a rnd).2 := by
  generalize hl : acts ++ [(⟨.call t user call, r⟩ : Act)] = l at h
  cases h with
  | start => simp at hl
  | call h henter hfind hmain hact =>
      obtain ⟨rfl, hwhole⟩ := whole_of_steps h.rest henter hfind hmain
      rw [hact] at hwhole
      obtain ⟨rfl, rfl⟩ := List.append_inj' hl rfl |>.imp id List.singleton_inj.mp
      obtain ⟨⟨rfl, rfl, rfl⟩, rfl⟩ := by simpa using hwhole
      exact ⟨_, _, _, h, rfl, rfl⟩
  | handler | param => simp at hl

/-- The handler as the last one. -/
theorem last_handler {t : Nat} {packet : Option (List UInt8)} {r : Option Result}
    (h : SerialRun ro randomCode z (acts ++ [⟨.handler t packet, r⟩])) :
    ∃ z₀, SerialRun ro randomCode z₀ acts ∧ z = z₀.handled packet := by
  generalize hl : acts ++ [(⟨.handler t packet, r⟩ : Act)] = l at h
  cases h with
  | start => simp at hl
  | handler h hirq hbottom =>
      obtain rfl := handled_of_steps h.rest hirq hbottom
      obtain ⟨rfl, hact⟩ := List.append_inj' hl rfl |>.imp id List.singleton_inj.mp
      obtain ⟨⟨-, rfl⟩, -⟩ := by simpa using hact
      exact ⟨_, h, rfl⟩
  | call h henter hfind hmain hact =>
      obtain ⟨-, hwhole⟩ := whole_of_steps h.rest henter hfind hmain
      rw [hact] at hwhole
      obtain ⟨-, hsame⟩ := List.append_inj' hl rfl |>.imp id List.singleton_inj.mp
      rw [← hsame] at hwhole
      simp at hwhole
  | param => simp at hl

end SerialRun

end whole

end Cmsc421.Mastermind
