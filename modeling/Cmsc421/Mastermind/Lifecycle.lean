import Cmsc421.Mastermind.Driver

/-!
# Cmsc421.Mastermind.Lifecycle

`mastermind_probe`, `mastermind_remove`, and whether the entries that user calls reach
are still allocated.

The driver core probes and removes the driver, one at a time; each of these is a thread
of its own, and user calls fall in between its steps.  `games_list` is a global: it
outlives the binding, `mastermind_remove` walks it without the lock and releases each
entry without unlinking it, and only then takes the devices away.  A file that is open
stays usable after that.

An entry is its position in the list, as in `Cmsc421.Mastermind.Game`, and `released`
says which of them `mastermind_remove` has passed to `kfree`.  After a call has reached
a released entry, anything could happen in C; here it goes on as if the bytes were
still there, which only matters for what comes after the first such access.
-/

namespace Cmsc421.Mastermind

/-- The two devices. -/
inductive Device
  | deviceMm
  | deviceMmCtl
  deriving DecidableEq

/-- The device whose file operation a call is. -/
def Call.device : Call → Device
  | .read _ | .mmap _ | .write _ _ => .deviceMm
  | .ctlWrite _ => .deviceMmCtl

/-- Where the driver core is. -/
inductive Phase
  | unbound
  /-- in `mastermind_probe`, before `misc_register(&device_mm)` -/
  | registerMm
  /-- before `misc_register(&device_mm_ctl)` -/
  | registerMmCtl
  /-- before `request_threaded_irq` -/
  | requestIrq
  /-- at `request_irq_fail` -/
  | requestIrqFail
  /-- at `device_mm_ctl_failure` -/
  | deviceMmCtlFailure
  /-- at `device_mm_failure` -/
  | deviceMmFailure
  | bound
  /-- in the loop of `mastermind_remove`, before `vfree`, with `entry` and `tmp`; the
  list head is `none` -/
  | loop (entry tmp : Option Nat)
  /-- before `kfree` -/
  | kfree (entry : Nat) (tmp : Option Nat)
  /-- before `misc_deregister(&device_mm_ctl)` -/
  | deregisterMmCtl
  /-- before the interrupt is disabled -/
  | disable
  deriving DecidableEq

/-- The driver over its bindings. -/
structure Life where
  sys : Sys
  phase : Phase
  /-- `device_mm` and `device_mm_ctl`, while they are registered -/
  registered : Device → Bool
  /-- the interrupt is requested and enabled -/
  irq : Bool
  /-- the files that are open -/
  files : Nat → Option Device
  released : Nat → Bool

/-- What happens: the driver core goes on, with the outcome of what it asks for; a file
is opened or closed; a thread of the driver takes a step, a call on a file it is made
on. -/
inductive LifeEvent
  | core (ok : Bool)
  | openFile (file : Nat) (device : Device)
  | close (file : Nat)
  | thread (file : Nat) (l : Label)

/-- The entry after one in the list. -/
def Life.next (s : Life) (entry : Nat) : Option Nat :=
  if entry + 1 < s.sys.drv.gamesList.length then some (entry + 1) else none

/-- The first entry of the list. -/
def Life.first (s : Life) : Option Nat := if s.sys.drv.gamesList = [] then none else some 0

/-- A step of `mastermind_probe` or `mastermind_remove`. -/
def coreStep (s : Life) (ok : Bool) : Life :=
  match s.phase with
  | .unbound => { s with phase := if ok then .registerMm else .unbound }
  | .registerMm =>
      if ok then
        { s with registered := Function.update s.registered .deviceMm true, phase := .registerMmCtl }
      else { s with phase := .deviceMmFailure }
  | .registerMmCtl =>
      if ok then
        { s with registered := Function.update s.registered .deviceMmCtl true, phase := .requestIrq }
      else { s with phase := .deviceMmCtlFailure }
  | .requestIrq =>
      if ok then { s with irq := true, phase := .bound } else { s with phase := .requestIrqFail }
  | .requestIrqFail =>
      { s with
        registered := Function.update s.registered .deviceMmCtl false
        phase := .deviceMmCtlFailure }
  | .deviceMmCtlFailure =>
      { s with registered := Function.update s.registered .deviceMm false, phase := .deviceMmFailure }
  | .deviceMmFailure => { s with phase := .unbound }
  | .bound => { s with phase := .loop s.first (s.first.bind s.next) }
  | .loop (some entry) tmp => { s with phase := .kfree entry tmp }
  | .loop none _ =>
      { s with registered := Function.update s.registered .deviceMm false, phase := .deregisterMmCtl }
  | .kfree entry tmp =>
      { s with
        released := Function.update s.released entry true
        phase := .loop tmp (tmp.bind s.next) }
  | .deregisterMmCtl =>
      { s with registered := Function.update s.registered .deviceMmCtl false, phase := .disable }
  | .disable => { s with irq := false, phase := .unbound }

/-- A thread may take a step: a call needs an open file, the handler an interrupt. -/
def Life.enabled (s : Life) (file : Nat) : Label → Bool
  | .enter _ _ call => s.files file == some call.device
  | .irq _ => s.irq
  | .find _ _ | .main _ _ | .bottom _ _ | .setRandomCode _ => true

/-- One step. -/
def lifeStep (ro : Rodata) (s : Life) : LifeEvent → Option Life
  | .core ok => some (coreStep s ok)
  | .openFile file device =>
      if s.registered device = true ∧ s.files file = none then
        some { s with files := Function.update s.files file (some device) }
      else none
  | .close file => some { s with files := Function.update s.files file none }
  | .thread file l =>
      if s.enabled file l then (step ro s.sys l).map fun sys => { s with sys } else none

/-- The module after it is loaded, before the driver is bound. -/
def initLife (randomCode : Bool) : Life :=
  ⟨initSys randomCode, .unbound, fun _ => false, false, fun _ => none, fun _ => false⟩

/-- The life of the driver. -/
def life (ro : Rodata) : Machine Life LifeEvent where
  init s := ∃ randomCode, s = initLife randomCode
  step := lifeStep ro

/-! ## the entries a call reaches -/

/-- The entries `find_game` looks at: up to that of the player, or all. -/
def walked (user : Kuid) (gamesList : List MmGame) : List Nat :=
  match gamesList.findIdx? (fun entry => user == entry.playerId) with
  | some p => List.range (p + 1)
  | none => List.range gamesList.length

/-- The entries a step reaches: those `find_game` walks over, and the one behind the
pointer of a locked section. -/
def reached (s : Sys) : Label → List Nat
  | .find t _ =>
      match s.frames t with
      | some (.finding user _ _) => walked user s.drv.gamesList
      | _ => []
  | .main t _ =>
      match s.frames t with
      | some (.locked _ _ _ (some p)) => [p]
      | _ => []
  | .enter _ _ _ | .irq _ | .bottom _ _ | .setRandomCode _ => []

/-- An entry is allocated, and has not been released. -/
def Live (s : Life) (p : Nat) : Prop :=
  p < s.sys.drv.gamesList.length ∧ s.released p = false

instance (s : Life) (p : Nat) : Decidable (Live s p) := inferInstanceAs (Decidable (_ ∧ _))

/-- All entries that a step reaches are live. -/
def ReachesLive (s : Life) : LifeEvent → Prop
  | .thread _ l => ∀ p ∈ reached s.sys l, Live s p
  | .core _ | .openFile _ _ | .close _ => True

/-- A step comes before `mastermind_remove` has got in its way: `find_game` runs while
no entry has been released, a locked section while that of its caller has not been. -/
def InTime (s : Life) : LifeEvent → Prop
  | .thread _ (.find _ _) => ∀ p, s.released p = false
  | .thread _ (.main t _) => ∀ user call highest p,
      s.sys.frames t = some (.locked user call highest (some p)) → s.released p = false
  | .thread _ _ | .core _ | .openFile _ _ | .close _ => True

/-! ## what is released, and in which order -/

/-- No step shortens the list. -/
theorem length_le_step {ro : Rodata} {s s' : Sys} {l : Label} (h : step ro s l = some s') :
    s.drv.gamesList.length ≤ s'.drv.gamesList.length := by
  cases step_cases h with
  | added => simp [afterAdd]
  | main => simp [afterSection]
  | enter | found | failed | noEntry | irq | bottom | setRandomCode => exact Nat.le_refl _

/-- The entry that `mastermind_remove` is about to release. -/
def Phase.entry : Phase → Option Nat
  | .loop entry _ => entry
  | .kfree entry _ => some entry
  | _ => none

/-- The entry after it. -/
def Phase.tmp : Phase → Option Nat
  | .loop _ tmp | .kfree _ tmp => tmp
  | _ => none

/-- The released entries are in the list, with the first one among them, and
`mastermind_remove` moves along the list. -/
structure Freeing (s : Life) : Prop where
  owned : Owned s.sys
  inList : ∀ p, s.released p = true → p < s.sys.drv.gamesList.length
  first : ∀ p, s.released p = true → s.released 0 = true
  entry : ∀ p ∈ s.phase.entry, p < s.sys.drv.gamesList.length ∧ (p = 0 ∨ s.released 0 = true)
  tmp : ∀ p ∈ s.phase.tmp, p < s.sys.drv.gamesList.length

section step

variable {ro : Rodata} {s s' : Life} {e : LifeEvent}

theorem mem_next {p q : Nat} (h : q ∈ s.next p) : q < s.sys.drv.gamesList.length := by
  unfold Life.next at h
  split at h
  · next hlt =>
      obtain rfl := Option.some.inj h
      exact hlt
  · contradiction

theorem mem_first {q : Nat} (h : q ∈ s.first) : q < s.sys.drv.gamesList.length ∧ q = 0 := by
  unfold Life.first at h
  split at h
  · contradiction
  · next hne =>
      obtain rfl := Option.some.inj h
      exact ⟨List.length_pos_of_ne_nil hne, rfl⟩

/-- A step that leaves the threads and the released entries alone, and moves the driver
core to where it holds no entry. -/
theorem Freeing.of_phase (h : Freeing s) (hsys : s'.sys = s.sys)
    (hreleased : s'.released = s.released) (hentry : ∀ p ∈ s'.phase.entry, p ∈ s.phase.entry)
    (htmp : ∀ p ∈ s'.phase.tmp, p ∈ s.phase.tmp) : Freeing s' where
  owned := hsys ▸ h.owned
  inList := by
    rw [hsys, hreleased]
    exact h.inList
  first := by
    rw [hreleased]
    exact h.first
  entry p hp := by
    rw [hsys, hreleased]
    exact h.entry p (hentry p hp)
  tmp p hp := by
    rw [hsys]
    exact h.tmp p (htmp p hp)

/-- The driver core releases the entries from the first one on. -/
theorem Freeing.core (h : Freeing s) (ok : Bool) : Freeing (coreStep s ok) := by
  have hentry := h.entry
  have htmp := h.tmp
  unfold coreStep
  split
  case h_8 =>
    refine ⟨h.owned, h.inList, h.first, fun p hp => ?_, fun p hp => ?_⟩
    · obtain ⟨hlt, hzero⟩ := mem_first hp
      exact ⟨hlt, .inl hzero⟩
    · obtain ⟨q, -, hq⟩ := Option.bind_eq_some_iff.mp hp
      exact mem_next hq
  case h_9 entry tmp hphase =>
    rw [hphase] at hentry htmp
    exact ⟨h.owned, h.inList, h.first, hentry, htmp⟩
  case h_11 entry tmp hphase =>
    rw [hphase] at hentry htmp
    obtain ⟨hlt, hzero⟩ := hentry entry rfl
    have hfirst : Function.update s.released entry true 0 = true := by
      rcases hzero with rfl | hzero
      · simp
      · by_cases he : (0 : Nat) = entry
        · simp [he]
        · simp [Function.update_of_ne he, hzero]
    refine ⟨h.owned, fun p hp => ?_, fun p hp => hfirst, fun p hp => ⟨htmp p hp, .inr hfirst⟩, ?_⟩
    · by_cases hpe : p = entry
      · exact hpe ▸ hlt
      · exact h.inList p (by simpa [hpe] using hp)
    · intro p hp
      obtain ⟨q, -, hq⟩ := Option.bind_eq_some_iff.mp hp
      exact mem_next hq
  -- all other steps hold no entry
  all_goals
    cases ok <;> exact h.of_phase rfl rfl (by simp [Phase.entry]) (by simp [Phase.tmp])

/-- A step of the driver core or of a thread keeps this. -/
theorem Freeing.step (h : Freeing s) (hs : lifeStep ro s e = some s') : Freeing s' := by
  cases e with
  | core ok =>
      obtain rfl := Option.some.inj hs
      exact h.core ok
  | openFile file device =>
      obtain ⟨-, rfl⟩ := by simpa [lifeStep] using hs
      exact h.of_phase rfl rfl (fun _ => id) (fun _ => id)
  | close file =>
      obtain rfl := Option.some.inj hs
      exact h.of_phase rfl rfl (fun _ => id) (fun _ => id)
  | thread file l =>
      obtain ⟨-, sys, hsys, rfl⟩ := by simpa [lifeStep] using hs
      have hle := length_le_step hsys
      refine ⟨h.owned.step hsys, fun p hp => ?_, h.first, fun p hp => ?_, fun p hp => ?_⟩
      · exact (h.inList p hp).trans_le hle
      · exact ⟨(h.entry p hp).1.trans_le hle, (h.entry p hp).2⟩
      · exact (h.tmp p hp).trans_le hle

theorem freeing_init (randomCode : Bool) : Freeing (initLife randomCode) where
  owned := owned_init randomCode
  inList := nofun
  first := nofun
  entry := nofun
  tmp := nofun

/-! ## which accesses are live -/

/-- `find_game` looks at the first entry, if there is one. -/
theorem zero_mem_walked {user : Kuid} {gamesList : List MmGame} (h : gamesList ≠ []) :
    0 ∈ walked user gamesList := by
  unfold walked
  split
  · simp
  · simpa using List.length_pos_of_ne_nil h

theorem lt_of_mem_walked {user : Kuid} {gamesList : List MmGame} {p : Nat}
    (h : p ∈ walked user gamesList) : p < gamesList.length := by
  unfold walked at h
  split at h
  · next q hq =>
      obtain ⟨hlt, -⟩ := List.findIdx?_eq_some_iff_getElem.mp hq
      have := List.mem_range.mp h
      omega
  · exact List.mem_range.mp h

theorem frame_of_find {s s' : Sys} {t : Nat} {a : Allocation}
    (h : Mastermind.step ro s (.find t a) = some s') :
    ∃ user call highest, s.frames t = some (.finding user call highest) := by
  cases step_cases h with
  | found hframe | added hframe | failed hframe => exact ⟨_, _, _, hframe⟩

theorem frame_of_main {s s' : Sys} {t : Nat} {rnd : Fin NUM_PEGS → UInt32}
    (h : Mastermind.step ro s (.main t rnd) = some s') :
    ∃ user call highest curr, s.frames t = some (.locked user call highest curr) := by
  cases step_cases h with
  | noEntry hframe | main hframe => exact ⟨_, _, _, _, hframe⟩

/-- **Exactness, one step.** -/
theorem reachesLive_iff (h : Freeing s) (hs : lifeStep ro s e = some s') :
    ReachesLive s e ↔ InTime s e := by
  cases e with
  | core ok => exact Iff.rfl
  | openFile file device => exact Iff.rfl
  | close file => exact Iff.rfl
  | thread file l =>
      obtain ⟨-, sys, hsys, rfl⟩ := by simpa [lifeStep] using hs
      cases l with
      | enter t user call => simp [ReachesLive, InTime, reached]
      | irq t => simp [ReachesLive, InTime, reached]
      | bottom t packet => simp [ReachesLive, InTime, reached]
      | setRandomCode b => simp [ReachesLive, InTime, reached]
      | find t a =>
          obtain ⟨user, call, highest, hframe⟩ := frame_of_find hsys
          simp only [ReachesLive, InTime, reached, hframe]
          constructor
          · intro hlive p
            by_contra hp
            have hrel : s.released p = true := by simpa using hp
            have hne : s.sys.drv.gamesList ≠ [] :=
              List.length_pos_iff.mp (Nat.zero_lt_of_lt (h.inList p hrel))
            have hzero := (hlive 0 (zero_mem_walked hne)).2
            simp [h.first p hrel] at hzero
          · exact fun hnone p hp => ⟨lt_of_mem_walked hp, hnone p⟩
      | main t rnd =>
          obtain ⟨user, call, highest, curr, hframe⟩ := frame_of_main hsys
          simp only [ReachesLive, InTime, reached, hframe]
          cases curr with
          | none => simp
          | some p =>
              obtain ⟨g, hg, -⟩ := h.owned.pointer hframe
              have hlt := (List.getElem?_eq_some_iff.mp hg).1
              simp only [List.mem_singleton, forall_eq, Live, hlt, true_and]
              constructor
              · rintro hlive _ _ _ _ ⟨⟩
                exact hlive
              · exact fun hlive => hlive user call highest p rfl

/-- **When the entries are live.**  In every run, over any number of bindings, user
calls reach live entries only exactly when every `find_game` comes before
`mastermind_remove` has released an entry, and every locked section before it has
released the entry of its caller. -/
theorem entries_live_iff {tr : List (Life × LifeEvent)} (h : (life ro).Run tr s) :
    (∀ p ∈ tr, ReachesLive p.1 p.2) ↔ ∀ p ∈ tr, InTime p.1 p.2 := by
  refine Machine.Run.steps_iff_meets (P := InTime) (R := ReachesLive) (I := fun _ s => Freeing s)
    ?_ ?_ ?_ h
  · rintro s ⟨randomCode, rfl⟩
    exact freeing_init randomCode
  · exact fun _ s e t hI hs => reachesLive_iff hI hs
  · exact fun _ s e t hI _ hs => hI.step hs

end step

instance (s : Life) (e : LifeEvent) : Decidable (ReachesLive s e) :=
  match e with
  | .thread _ l => inferInstanceAs (Decidable (∀ p ∈ reached s.sys l, Live s p))
  | .core _ | .openFile _ _ | .close _ => .isTrue trivial

/-- The driver is probed, and a user starts a game. -/
def firstGame : List LifeEvent :=
  [.core true, .core true, .core true, .core true, .openFile 0 .deviceMmCtl,
    .thread 0 (.enter 0 1000 (ctlText "start" false)), .thread 0 (.find 0 clearPage),
    .thread 0 (.main 0 0)]

/-- After that the driver is unbound, with nobody inside. -/
def boundOnce : List LifeEvent := firstGame ++ List.replicate 6 (.core true)

theorem entries_live_iff_boundOnce :
    ∃ tr s, (life .zeros).Run tr s ∧ s.released 0 = true ∧ ∀ p ∈ tr, InTime p.1 p.2 := by
  obtain ⟨s, hrun, hs⟩ := Machine.exists_run_of_exec (M := life .zeros) (s := initLife false)
    ⟨false, rfl⟩ boundOnce (b := fun s => s.released 0) (by decide +kernel)
  exact ⟨_, s, hrun, hs, (entries_live_iff hrun).mp (by decide +kernel)⟩

/-- The user opens the other device, and enters a read; the driver is unbound, and the
only entry is released; then the read looks for it. -/
def readDuringRemove : List LifeEvent :=
  firstGame ++ [.openFile 1 .deviceMm, .thread 1 (.enter 0 1000 (.read ⟨10, 0, true⟩)), .core true,
    .core true, .core true, .thread 1 (.find 0 clearPage)]

theorem readDuringRemove_dead :
    ∃ tr s, (life .zeros).Run tr s ∧ ∃ p ∈ tr, ¬ ReachesLive p.1 p.2 := by
  obtain ⟨s, hrun⟩ := Machine.exists_run (M := life .zeros) (s := initLife false)
    ⟨false, rfl⟩ readDuringRemove (by decide +kernel)
  exact ⟨_, s, hrun, by decide +kernel⟩

end Cmsc421.Mastermind
