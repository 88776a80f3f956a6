import Cmsc421.Net.Delivery
import Cmsc421.Reach

/-!
# Cmsc421.Net.Unload

The CS421Net device while drivers come and go, until its module is unloaded.

`Cmsc421.Net.Device` begins after `cs421net_enable()`, and nothing fails there.  Here the driver
that uses the device is bound and unbound any number of times, `kmalloc` and `trigger_irq` may
fail, and `cs421net_exit` takes the module down.  The driver needs the module, and so does a
rule with its target: it is unloaded while no driver is bound and no packet is in `filter_tg`.

All that was captured is released once.  But `cs421net_exit` may wait forever: its
`complete_all()` is meant to let the worker go, and a worker that is still at another packet
takes it back with `reinit_completion` before it waits for the next one.
-/

namespace Cmsc421.Net

open Mastermind

/-- Where the code that takes the device up and down is. -/
inductive Core
  | unbound
  /-- the interrupt is requested; in `cs421net_enable()`, before `cs421net_enabled = true` -/
  | enabling
  /-- before `reinit_completion` -/
  | reinit
  | bound
  /-- in `cs421net_disable()`, before `completion_done` -/
  | disabling
  /-- before `complete_all` -/
  | completing
  /-- before `free_irq` -/
  | freeing
  /-- in `free_irq`, which waits for the handler -/
  | synchronizing
  /-- in `cs421net_exit`, before `complete_all` -/
  | exiting
  /-- before `cancel_work_sync` -/
  | cancelling
  /-- in `cancel_work_sync`, which waits for the worker -/
  | flushing
  /-- in the loop over the packets that are left -/
  | releasing
  | exited
  deriving DecidableEq

/-- The interrupt has a handler. -/
def Core.requested : Core → Bool
  | .enabling | .reinit | .bound | .disabling | .completing | .freeing => true
  | .unbound | .synchronizing | .exiting | .cancelling | .flushing | .releasing | .exited => false

/-- The module while it is loaded. -/
structure Loaded where
  dev : State
  enabled : Bool
  /-- calls of `filter_tg` past the test of `cs421net_enabled` -/
  admitted : Nat
  core : Core

/-- The steps. -/
inductive Event
  | bind
  | unload
  | core
  | accept
  /-- the packet, and whether there is memory for it -/
  | store (skb : Skb) (kmalloc : Bool)
  | queue
  /-- whether `trigger_irq` succeeds, where it is called -/
  | work (trigger : Bool)
  | irq (junkLen : Nat) (junk : UInt8)
  | others (v : Vars)

/-- A step of the code that takes the device up and down. -/
def coreStep (s : Loaded) : Option Loaded :=
  match s.core with
  | .unbound | .exited => none
  | .enabling => some { s with enabled := true, core := .reinit }
  | .reinit => some { s with dev := { s.dev with retrieved := .reinit }, core := .bound }
  | .bound => some { s with enabled := false, core := .disabling }
  | .disabling =>
      some { s with core := if s.dev.retrieved.done = 0 then .completing else .freeing }
  | .completing => some { s with dev := { s.dev with retrieved := .completeAll }, core := .freeing }
  | .freeing => some { s with core := .synchronizing }
  | .synchronizing =>
      if s.dev.handler = .idle ∧ s.dev.runThread = false then some { s with core := .unbound } else none
  | .exiting => some { s with dev := { s.dev with retrieved := .completeAll }, core := .cancelling }
  | .cancelling => some { s with dev := { s.dev with pending := false }, core := .flushing }
  | .flushing => if s.dev.worker = .idle then some { s with core := .releasing } else none
  | .releasing =>
      match s.dev.cs421netList with
      | [] => some { s with core := .exited }
      | _ :: rest => some { s with dev := { s.dev with cs421netList := rest } }

/-- A step of the worker.  Where `trigger_irq` fails it neither waits nor reinitialises. -/
def triggerStep (trigger : Bool) (s : Loaded) : Option Loaded :=
  match s.dev.worker with
  | .raising =>
      some { s with
        dev :=
          if trigger then
            { s.dev with runThread := s.dev.runThread || s.core.requested, worker := .waiting }
          else { s.dev with worker := .removing } }
  | .idle | .waiting | .clearing | .removing => (workStep s.dev).map fun dev => { s with dev }

/-- One step. -/
def Loaded.step (s : Loaded) : Event → Option Loaded
  | .bind => if s.core = .unbound then some { s with core := .enabling } else none
  | .unload =>
      if s.core = .unbound ∧ s.admitted = 0 ∧ s.dev.adding = 0 then
        some { s with enabled := false, core := .exiting }
      else none
  | .core => coreStep s
  | .accept => if s.enabled then some { s with admitted := s.admitted + 1 } else none
  | .store skb kmalloc =>
      if 0 < s.admitted then
        let s := { s with admitted := s.admitted - 1 }
        if kmalloc then (Net.step s.dev (.capture skb)).map fun dev => { s with dev } else some s
      else none
  | .queue => (Net.step s.dev .queue).map fun dev => { s with dev }
  | .work trigger => triggerStep trigger s
  | .irq junkLen junk => (Net.step s.dev (.irq junkLen junk)).map fun dev => { s with dev }
  | .others v => (Net.step s.dev (.others v)).map fun dev => { s with dev }

/-- The module right after it is loaded; `retrieved` is declared with nothing done. -/
def initLoaded (v : Vars) : Loaded := ⟨enabled v, false, 0, .unbound⟩

/-- The machine of the module. -/
def loaded : Machine Loaded Event where
  init s := ∃ v, s = initLoaded v
  step := Loaded.step

/-! ## what a step can do -/

/-- **All that a step can do.** -/
inductive Moves (s : Loaded) : Event → Loaded → Prop
  | bind (hcore : s.core = .unbound) : Moves s .bind { s with core := .enabling }
  | unload (hcore : s.core = .unbound) (hadmitted : s.admitted = 0) (hadding : s.dev.adding = 0) :
      Moves s .unload { s with enabled := false, core := .exiting }
  | enable (hcore : s.core = .enabling) : Moves s .core { s with enabled := true, core := .reinit }
  | reinit (hcore : s.core = .reinit) :
      Moves s .core { s with dev := { s.dev with retrieved := .reinit }, core := .bound }
  | disable (hcore : s.core = .bound) : Moves s .core { s with enabled := false, core := .disabling }
  | test (hcore : s.core = .disabling) :
      Moves s .core { s with core := if s.dev.retrieved.done = 0 then .completing else .freeing }
  | completeAll (hcore : s.core = .completing) :
      Moves s .core { s with dev := { s.dev with retrieved := .completeAll }, core := .freeing }
  | free (hcore : s.core = .freeing) : Moves s .core { s with core := .synchronizing }
  | synchronized (hcore : s.core = .synchronizing) (hidle : s.dev.handler = .idle)
      (hrun : s.dev.runThread = false) : Moves s .core { s with core := .unbound }
  | exit (hcore : s.core = .exiting) :
      Moves s .core { s with dev := { s.dev with retrieved := .completeAll }, core := .cancelling }
  | cancel (hcore : s.core = .cancelling) :
      Moves s .core { s with dev := { s.dev with pending := false }, core := .flushing }
  | flushed (hcore : s.core = .flushing) (hidle : s.dev.worker = .idle) :
      Moves s .core { s with core := .releasing }
  | release {p : IncomingData} {rest : List IncomingData} (hcore : s.core = .releasing)
      (hlist : s.dev.cs421netList = p :: rest) :
      Moves s .core { s with dev := { s.dev with cs421netList := rest } }
  | exited (hcore : s.core = .releasing) (hlist : s.dev.cs421netList = []) :
      Moves s .core { s with core := .exited }
  | accept (henabled : s.enabled = true) : Moves s .accept { s with admitted := s.admitted + 1 }
  | noMemory {skb : Skb} (hadmitted : 0 < s.admitted) :
      Moves s (.store skb false) { s with admitted := s.admitted - 1 }
  | ignored {skb : Skb} (hadmitted : 0 < s.admitted) (hskb : skb.payload = none) :
      Moves s (.store skb true) { s with admitted := s.admitted - 1 }
  | stored {skb : Skb} {data : List UInt8} (hadmitted : 0 < s.admitted)
      (hskb : skb.payload = some data) :
      Moves s (.store skb true)
        { s with
          dev :=
            { s.dev with
              cs421netList := s.dev.cs421netList ++ [⟨s.dev.allocs, data⟩]
              allocs := s.dev.allocs + 1
              adding := s.dev.adding + 1 }
          admitted := s.admitted - 1 }
  | queued (hadding : 0 < s.dev.adding) :
      Moves s .queue { s with dev := { s.dev with adding := s.dev.adding - 1, pending := true } }
  | raised (hworker : s.dev.worker = .raising) :
      Moves s (.work true)
        { s with
          dev :=
            { s.dev with runThread := s.dev.runThread || s.core.requested, worker := .waiting } }
  | notRaised (hworker : s.dev.worker = .raising) :
      Moves s (.work false) { s with dev := { s.dev with worker := .removing } }
  | started {trigger : Bool} (hworker : s.dev.worker = .idle) (hpending : s.dev.pending = true) :
      Moves s (.work trigger) { s with dev := { s.dev with pending := false, worker := .raising } }
  | waited {trigger : Bool} {c : Completion} (hworker : s.dev.worker = .waiting)
      (hwait : s.dev.retrieved.wait = some c) :
      Moves s (.work trigger) { s with dev := { s.dev with retrieved := c, worker := .clearing } }
  | cleared {trigger : Bool} (hworker : s.dev.worker = .clearing) :
      Moves s (.work trigger)
        { s with dev := { s.dev with retrieved := .reinit, worker := .removing } }
  | removed {trigger : Bool} (hworker : s.dev.worker = .removing) :
      Moves s (.work trigger)
        { s with dev := { s.dev with cs421netList := s.dev.cs421netList.tail, worker := .idle } }
  | irq {junkLen : Nat} {junk : UInt8} {dev : State} (hdev : Effect s.dev (.irq junkLen junk) dev) :
      Moves s (.irq junkLen junk) { s with dev }
  | others {v : Vars} : Moves s (.others v) { s with dev := { s.dev with vars := v } }

theorem coreStep_moves {s s' : Loaded} (h : coreStep s = some s') : Moves s .core s' := by
  unfold coreStep at h
  split at h
  case h_1 | h_2 => contradiction
  case h_9 hcore =>
    split at h
    · next hidle =>
        obtain rfl := Option.some.inj h
        exact .synchronized hcore hidle.1 hidle.2
    · contradiction
  case h_12 hcore =>
    split at h
    · next hidle =>
        obtain rfl := Option.some.inj h
        exact .flushed hcore hidle
    · contradiction
  case h_13 hcore =>
    split at h
    · next hlist =>
        obtain rfl := Option.some.inj h
        exact .exited hcore hlist
    · next hlist =>
        obtain rfl := Option.some.inj h
        exact .release hcore hlist
  all_goals obtain rfl := Option.some.inj h
  case h_3 hcore => exact .enable hcore
  case h_4 hcore => exact .reinit hcore
  case h_5 hcore => exact .disable hcore
  case h_6 hcore => exact .test hcore
  case h_7 hcore => exact .completeAll hcore
  case h_8 hcore => exact .free hcore
  case h_10 hcore => exact .exit hcore
  case h_11 hcore => exact .cancel hcore

theorem triggerStep_moves {s s' : Loaded} {trigger : Bool} (h : triggerStep trigger s = some s') :
    Moves s (.work trigger) s' := by
  unfold triggerStep workStep at h
  cases hworker : s.dev.worker with
  | raising =>
      simp only [hworker] at h
      obtain rfl := Option.some.inj h
      cases trigger with
      | true => exact .raised hworker
      | false => exact .notRaised hworker
  | idle =>
      simp only [hworker] at h
      split at h
      · next hpending =>
          obtain rfl := Option.some.inj h
          exact .started hworker hpending
      · contradiction
  | waiting =>
      simp only [hworker, Option.map_map] at h
      obtain ⟨c, hwait, rfl⟩ := Option.map_eq_some_iff.mp h
      exact .waited hworker hwait
  | clearing =>
      simp only [hworker] at h
      obtain rfl := Option.some.inj h
      exact .cleared hworker
  | removing =>
      simp only [hworker] at h
      obtain rfl := Option.some.inj h
      exact .removed hworker

theorem moves_of_step {s s' : Loaded} {l : Event} (h : s.step l = some s') : Moves s l s' := by
  cases l with
  | bind =>
      obtain ⟨hcore, rfl⟩ := by simpa [Loaded.step] using h
      exact .bind hcore
  | unload =>
      obtain ⟨⟨hcore, hadmitted, hadding⟩, rfl⟩ := by simpa [Loaded.step] using h
      exact .unload hcore hadmitted hadding
  | core => exact coreStep_moves h
  | accept =>
      obtain ⟨henabled, rfl⟩ := by simpa [Loaded.step] using h
      exact .accept henabled
  | store skb kmalloc =>
      simp only [Loaded.step] at h
      split at h
      · next hadmitted =>
          cases kmalloc with
          | false =>
              obtain rfl := Option.some.inj h
              exact .noMemory hadmitted
          | true =>
              obtain ⟨dev, hdev, rfl⟩ := Option.map_eq_some_iff.mp h
              cases step_cases hdev with
              | ignored hskb => exact .ignored hadmitted hskb
              | captured hskb => exact .stored hadmitted hskb
      · contradiction
  | queue =>
      obtain ⟨dev, hdev, rfl⟩ := Option.map_eq_some_iff.mp h
      cases step_cases hdev with
      | queued hadding => exact .queued hadding
  | work trigger => exact triggerStep_moves h
  | irq junkLen junk =>
      obtain ⟨dev, hdev, rfl⟩ := Option.map_eq_some_iff.mp h
      exact .irq (step_cases hdev)
  | others v =>
      obtain ⟨dev, hdev, rfl⟩ := Option.map_eq_some_iff.mp h
      cases step_cases hdev with
      | others => exact .others

/-! ## what is captured is released -/

/-- The packet that a step puts into the list. -/
def stores (s : Loaded) : Event → Option IncomingData
  | .store skb true =>
      if 0 < s.admitted then skb.payload.map fun data => ⟨s.dev.allocs, data⟩ else none
  | _ => none

/-- The packet that a step releases: the worker, or the loop of `cs421net_exit`. -/
def releases (s : Loaded) : Event → Option IncomingData
  | .work _ => if s.dev.worker = .removing then s.dev.cs421netList.head? else none
  | .core => if s.core = .releasing then s.dev.cs421netList.head? else none
  | _ => none

/-- The packets for which there was memory, in order. -/
def stored (tr : List (Loaded × Event)) : List IncomingData := tr.filterMap fun p => stores p.1 p.2

/-- The packets released, in order. -/
def released (tr : List (Loaded × Event)) : List IncomingData :=
  tr.filterMap fun p => releases p.1 p.2

theorem stored_concat (tr : List (Loaded × Event)) (s : Loaded) (l : Event) :
    stored (tr ++ [(s, l)]) = stored tr ++ (stores s l).toList := by
  cases h : stores s l <;> simp [stored, h]

theorem released_concat (tr : List (Loaded × Event)) (s : Loaded) (l : Event) :
    released (tr ++ [(s, l)]) = released tr ++ (releases s l).toList := by
  cases h : releases s l <;> simp [released, h]

/-- The list holds what has been stored and not released. -/
structure Ledger (tr : List (Loaded × Event)) (s : Loaded) : Prop where
  stored : stored tr = released tr ++ s.dev.cs421netList
  fresh : (Net.stored tr).map (·.id) = List.range s.dev.allocs

/-- A step that neither stores nor releases. -/
theorem Ledger.quiet {tr : List (Loaded × Event)} {s s' : Loaded} {l : Event} (h : Ledger tr s)
    (hstores : stores s l = none) (hreleases : releases s l = none)
    (hlist : s'.dev.cs421netList = s.dev.cs421netList) (hallocs : s'.dev.allocs = s.dev.allocs) :
    Ledger (tr ++ [(s, l)]) s' where
  stored := by simp [stored_concat, released_concat, hstores, hreleases, hlist, h.stored]
  fresh := by simp [stored_concat, hstores, hallocs, h.fresh]

/-- A step that releases the oldest packet, if there is one. -/
theorem Ledger.release {tr : List (Loaded × Event)} {s s' : Loaded} {l : Event} (h : Ledger tr s)
    (hstores : stores s l = none) (hreleases : releases s l = s.dev.cs421netList.head?)
    (hlist : s'.dev.cs421netList = s.dev.cs421netList.tail) (hallocs : s'.dev.allocs = s.dev.allocs) :
    Ledger (tr ++ [(s, l)]) s' where
  stored := by
    rw [stored_concat, released_concat, hstores, hreleases, hlist, h.stored]
    cases s.dev.cs421netList <;> simp
  fresh := by simp [stored_concat, hstores, hallocs, h.fresh]

/-- The handler only looks at the list. -/
theorem irq_frame {s s' : State} {junkLen : Nat} {junk : UInt8} (h : Effect s (.irq junkLen junk) s') :
    s'.cs421netList = s.cs421netList ∧ s'.allocs = s.allocs ∧ s'.adding = s.adding ∧
      s'.pending = s.pending ∧ s'.worker = s.worker := by
  cases h <;> exact ⟨rfl, rfl, rfl, rfl, rfl⟩

theorem Ledger.step {tr : List (Loaded × Event)} {s s' : Loaded} {l : Event} (h : Ledger tr s)
    (hs : s.step l = some s') : Ledger (tr ++ [(s, l)]) s' := by
  cases moves_of_step hs with
  | bind | unload | accept | noMemory | queued | others => exact h.quiet rfl rfl rfl rfl
  | enable hcore | reinit hcore | disable hcore | test hcore | completeAll hcore | free hcore
  | synchronized hcore | exit hcore | cancel hcore | flushed hcore =>
      exact h.quiet rfl (by simp [releases, hcore]) rfl rfl
  | release hcore hlist => exact h.release rfl (by simp [releases, hcore]) (by simp [hlist]) rfl
  | exited hcore hlist => exact h.release rfl (by simp [releases, hcore]) (by simp [hlist]) rfl
  | ignored hadmitted hskb => exact h.quiet (by simp [stores, hskb]) rfl rfl rfl
  | @stored skb data hadmitted hskb =>
      have hstores : stores s (.store skb true) = some ⟨s.dev.allocs, data⟩ := by
        simp [stores, hadmitted, hskb]
      constructor
      · rw [stored_concat, released_concat, hstores, h.stored]
        simp [releases]
      · rw [stored_concat, hstores, Option.toList_some, List.map_append, h.fresh]
        exact List.range_succ.symm
  | raised hworker | notRaised hworker | started hworker | waited hworker | cleared hworker =>
      exact h.quiet rfl (by simp [releases, hworker]) rfl rfl
  | removed hworker => exact h.release rfl (by simp [releases, hworker]) rfl rfl
  | irq hdev => exact h.quiet rfl rfl (irq_frame hdev).1 (irq_frame hdev).2.1

theorem ledger_of_run {tr : List (Loaded × Event)} {s : Loaded} (h : loaded.Run tr s) : Ledger tr s := by
  refine Machine.Run.invariant (I := Ledger) ?_ (fun _ _ _ _ hI hs => hI.step hs) h
  rintro s ⟨v, rfl⟩
  exact ⟨rfl, rfl⟩

/-! ## taking the module down -/

/-- No driver is there, and none has left its handler behind. -/
def Core.driverless : Core → Bool
  | .unbound | .exiting | .cancelling | .flushing | .releasing | .exited => true
  | .enabling | .reinit | .bound | .disabling | .completing | .freeing | .synchronizing => false

/-- In `cs421net_exit`. -/
def Core.closing : Core → Bool
  | .exiting | .cancelling | .flushing | .releasing | .exited => true
  | .unbound | .enabling | .reinit | .bound | .disabling | .completing | .freeing
  | .synchronizing => false

/-- What has come to rest, by where the core is. -/
structure Settled (s : Loaded) : Prop where
  enabled : s.enabled = true → s.core = .reinit ∨ s.core = .bound
  driverless : s.core.driverless = true → s.dev.handler = .idle ∧ s.dev.runThread = false
  closing : s.core.closing = true → s.admitted = 0 ∧ s.dev.adding = 0
  cancelled : s.core = .flushing ∨ s.core = .releasing ∨ s.core = .exited → s.dev.pending = false
  flushed : s.core = .releasing ∨ s.core = .exited → s.dev.worker = .idle
  exited : s.core = .exited → s.dev.cs421netList = []

theorem Core.driverless_of_closing {core : Core} (h : core.closing = true) : core.driverless = true := by
  cases core <;> first | rfl | cases h

theorem Core.requested_of_driverless {core : Core} (h : core.driverless = true) :
    core.requested = false := by
  cases core <;> first | rfl | cases h

/-- Outside of `cs421net_exit`. -/
theorem settled_of_open {s : Loaded} (hopen : s.core.closing = false)
    (henabled : s.enabled = true → s.core = .reinit ∨ s.core = .bound)
    (hdriverless : s.core.driverless = true → s.dev.handler = .idle ∧ s.dev.runThread = false) :
    Settled s where
  enabled := henabled
  driverless := hdriverless
  closing hc := by simp [hopen] at hc
  cancelled hc := by rcases hc with hc | hc | hc <;> simp [hc, Core.closing] at hopen
  flushed hc := by rcases hc with hc | hc <;> simp [hc, Core.closing] at hopen
  exited hc := by simp [hc, Core.closing] at hopen

/-- A call of `filter_tg` is inside, or about to queue the work. -/
theorem Settled.open_of_inside {s : Loaded} (h : Settled s) (hinside : 0 < s.admitted ∨ 0 < s.dev.adding) :
    s.core.closing = false := by
  by_contra hc
  have := h.closing (by simpa using hc)
  omega

/-- A handler that takes a step has been woken. -/
theorem irq_woken {s s' : State} {junkLen : Nat} {junk : UInt8} (h : Effect s (.irq junkLen junk) s') :
    ¬ (s.handler = .idle ∧ s.runThread = false) := by
  rintro ⟨hidle, hrun⟩
  cases h with
  | woken _ hwoken => simp [hrun] at hwoken
  | nothing hhandler | fetched hhandler | completed hhandler => simp [hidle] at hhandler
  | read hreads => simp [hidle, Handler.reads] at hreads

/-- A step of the worker. -/
theorem Settled.work {s s' : Loaded} (h : Settled s) (hcore : s'.core = s.core)
    (henabled : s'.enabled = s.enabled) (hadmitted : s'.admitted = s.admitted)
    (hadding : s'.dev.adding = s.dev.adding) (hhandler : s'.dev.handler = s.dev.handler)
    (hrun : s.core.driverless = true → s'.dev.runThread = s.dev.runThread)
    (hpending : s.dev.pending = false → s'.dev.pending = false)
    (hworker : s.dev.worker ≠ .idle ∨ s.dev.pending = true) : Settled s' where
  enabled := by
    rw [hcore, henabled]
    exact h.enabled
  driverless hc := by
    rw [hcore] at hc
    rw [hhandler, hrun hc]
    exact h.driverless hc
  closing := by
    rw [hcore, hadmitted, hadding]
    exact h.closing
  cancelled := by
    rw [hcore]
    exact fun hc => hpending (h.cancelled hc)
  flushed := by
    rw [hcore]
    intro hc
    have hidle := h.flushed hc
    have hcancelled := h.cancelled (.inr hc)
    simp [hidle, hcancelled] at hworker
  exited := by
    rw [hcore]
    intro hc
    have hidle := h.flushed (.inr hc)
    have hcancelled := h.cancelled (.inr (.inr hc))
    simp [hidle, hcancelled] at hworker

theorem Settled.step {s s' : Loaded} {l : Event} (h : Settled s) (hs : s.step l = some s') :
    Settled s' := by
  have henabled := h.enabled
  cases moves_of_step hs with
  | bind hcore =>
      refine settled_of_open rfl (fun he => ?_) (by simp [Core.driverless])
      simp [hcore] at henabled
      simp [henabled] at he
  | unload hcore hadmitted hadding =>
      have hquiet := h.driverless (by rw [hcore]; rfl)
      exact ⟨by simp, fun _ => hquiet, fun _ => ⟨hadmitted, hadding⟩, by simp, by simp, by simp⟩
  | enable => exact settled_of_open rfl (fun _ => .inl rfl) (by simp [Core.driverless])
  | reinit => exact settled_of_open rfl (fun _ => .inr rfl) (by simp [Core.driverless])
  | disable => exact settled_of_open rfl (by simp) (by simp [Core.driverless])
  | test hcore =>
      have hoff : s.enabled = false := by simpa [hcore] using henabled
      refine settled_of_open ?_ (by simp [hoff]) ?_ <;> dsimp only <;> split <;> simp [Core.closing, Core.driverless]
  | completeAll hcore | free hcore =>
      have hoff : s.enabled = false := by simpa [hcore] using henabled
      exact settled_of_open rfl (by simp [hoff]) (by simp [Core.driverless])
  | synchronized hcore hidle hrun =>
      have hoff : s.enabled = false := by simpa [hcore] using henabled
      exact settled_of_open rfl (by simp [hoff]) fun _ => ⟨hidle, hrun⟩
  | exit hcore =>
      have hoff : s.enabled = false := by simpa [hcore] using henabled
      have hquiet := h.driverless (by rw [hcore]; rfl)
      have hshut := h.closing (by rw [hcore]; rfl)
      exact ⟨by simp [hoff], fun _ => hquiet, fun _ => hshut, by simp, by simp, by simp⟩
  | cancel hcore =>
      have hoff : s.enabled = false := by simpa [hcore] using henabled
      have hquiet := h.driverless (by rw [hcore]; rfl)
      have hshut := h.closing (by rw [hcore]; rfl)
      exact ⟨by simp [hoff], fun _ => hquiet, fun _ => hshut, fun _ => rfl, by simp, by simp⟩
  | flushed hcore hidle =>
      have hoff : s.enabled = false := by simpa [hcore] using henabled
      have hquiet := h.driverless (by rw [hcore]; rfl)
      have hshut := h.closing (by rw [hcore]; rfl)
      have hcancelled := h.cancelled (.inl hcore)
      exact ⟨by simp [hoff], fun _ => hquiet, fun _ => hshut, fun _ => hcancelled, fun _ => hidle, by simp⟩
  | release hcore hlist =>
      refine ⟨h.enabled, h.driverless, h.closing, h.cancelled, h.flushed, fun hc => ?_⟩
      simp [hcore] at hc
  | exited hcore hlist =>
      have hoff : s.enabled = false := by simpa [hcore] using henabled
      have hquiet := h.driverless (by rw [hcore]; rfl)
      have hshut := h.closing (by rw [hcore]; rfl)
      have hcancelled := h.cancelled (.inr (.inl hcore))
      have hidle := h.flushed (.inl hcore)
      exact ⟨by simp [hoff], fun _ => hquiet, fun _ => hshut, fun _ => hcancelled, fun _ => hidle,
        fun _ => hlist⟩
  | accept hon =>
      refine settled_of_open ?_ h.enabled h.driverless
      rcases h.enabled hon with hc | hc <;> rw [hc] <;> rfl
  | noMemory hinside | ignored hinside | stored hinside =>
      exact settled_of_open (h.open_of_inside (.inl hinside)) h.enabled h.driverless
  | queued hinside =>
      exact settled_of_open (h.open_of_inside (.inr hinside)) h.enabled h.driverless
  | raised hworker =>
      exact h.work rfl rfl rfl rfl rfl (fun hc => by simp [Core.requested_of_driverless hc]) id
        (by simp [hworker])
  | notRaised hworker | waited hworker | cleared hworker | removed hworker =>
      exact h.work rfl rfl rfl rfl rfl (fun _ => rfl) id (by simp [hworker])
  | started hworker hpending =>
      exact h.work rfl rfl rfl rfl rfl (fun _ => rfl) (fun _ => rfl) (.inr hpending)
  | irq hdev =>
      have hdriver : s.core.driverless = false := by
        by_contra hc
        exact irq_woken hdev (h.driverless (by simpa using hc))
      refine settled_of_open ?_ h.enabled (by simp [hdriver])
      by_contra hc
      simp [Core.driverless_of_closing (by simpa using hc)] at hdriver
  | others => exact ⟨h.enabled, h.driverless, h.closing, h.cancelled, h.flushed, h.exited⟩

theorem settled_of_run {tr : List (Loaded × Event)} {s : Loaded} (h : loaded.Run tr s) : Settled s := by
  refine Machine.Run.invariant (I := fun _ s => Settled s) ?_ (fun _ _ _ _ hI hs => hI.step hs) h
  rintro s ⟨v, rfl⟩
  exact settled_of_open rfl (by simp [initLoaded]) fun _ => ⟨rfl, rfl⟩

/-- **What is captured is released, once**: by the worker, oldest first, and in the end by
`cs421net_exit`. -/
theorem released_of_run {tr : List (Loaded × Event)} {s : Loaded} (h : loaded.Run tr s) :
    stored tr = released tr ++ s.dev.cs421netList ∧ (stored tr).Nodup ∧
    (s.core = .exited → released tr = stored tr) := by
  have hledger := ledger_of_run h
  refine ⟨hledger.stored, List.Nodup.of_map (·.id) (hledger.fresh ▸ List.nodup_range), fun hc => ?_⟩
  rw [hledger.stored, (settled_of_run h).exited hc, List.append_nil]

/-! ## waiting for the worker -/

/-- `cs421net_exit` waits for a worker that nobody will wake. -/
def Hung (s : Loaded) : Prop :=
  s.core = .flushing ∧ s.dev.worker = .waiting ∧ s.dev.retrieved.done = 0

instance (s : Loaded) : Decidable (Hung s) := inferInstanceAs (Decidable (_ ∧ _ ∧ _))

/-- Nothing moves but the rest of the game. -/
def Dead (s : Loaded) : Prop := ∀ l, (∀ v, l ≠ .others v) → s.step l = none

/-- A handler that has been woken, or is at a packet, goes on. -/
theorem irqStep_isSome {s : State} (h : ¬ (s.handler = .idle ∧ s.runThread = false)) :
    (irqStep 0 0 s).isSome = true := by
  unfold irqStep
  cases hh : s.handler with
  | idle =>
      have hrun : s.runThread = true := by simpa [hh] using h
      simp [hrun]
  | fetching highest => cases s.cs421netList <;> rfl
  | completing => rfl
  | readingLen => rfl
  | readingData highest p len =>
      simp only [readStep]
      split <;> rfl
  | checkingLow highest p i =>
      simp only [readStep]
      split <;> split <;> rfl
  | checkingHigh highest p i =>
      simp only [readStep]
      cases nextPeg i <;> split <;> split <;> rfl
  | assigning p i =>
      simp only [readStep]
      cases nextPeg i <;> rfl

/-- Once it has exited, or hangs, nothing moves. -/
theorem Settled.dead {s : Loaded} (h : Settled s) (hend : s.core = .exited ∨ Hung s) : Dead s := by
  intro l hl
  have hcore : s.core = .exited ∨ s.core = .flushing := hend.imp_right And.left
  have hpending := h.cancelled (hcore.elim (.inr ∘ .inr) .inl)
  have hclosing : s.core.closing = true := by rcases hcore with hc | hc <;> rw [hc] <;> rfl
  have hquiet := h.driverless (Core.driverless_of_closing hclosing)
  obtain ⟨hadmitted, hadding⟩ := h.closing hclosing
  have hworker : s.dev.worker = .idle ∨ s.dev.worker = .waiting ∧ s.dev.retrieved.wait = none :=
    hend.elim (fun hc => .inl (h.flushed (.inr hc)))
      fun hhung => .inr ⟨hhung.2.1, Completion.wait_eq_none.mpr hhung.2.2⟩
  by_contra hstep
  obtain ⟨s', hs⟩ := Option.ne_none_iff_exists'.mp hstep
  cases moves_of_step hs with
  | bind hc | unload hc | enable hc | reinit hc | disable hc | test hc | completeAll hc | free hc
  | synchronized hc | exit hc | cancel hc | release hc | exited hc =>
      rcases hcore with hcore | hcore <;> simp [hcore] at hc
  | flushed hc hidle =>
      rcases hend with hcore | hhung
      · simp [hcore] at hc
      · simp [hhung.2.1] at hidle
  | accept henabled => rcases h.enabled henabled with hc | hc <;> simp [hc, Core.closing] at hclosing
  | noMemory hinside | ignored hinside | stored hinside => omega
  | queued hinside => omega
  | started _ hstarted => simp [hpending] at hstarted
  | waited hwaiting hwait =>
      rcases hworker with hidle | ⟨-, hnone⟩
      · simp [hidle] at hwaiting
      · simp [hnone] at hwait
  | raised hbusy | notRaised hbusy | cleared hbusy | removed hbusy =>
      rcases hworker with hidle | ⟨hwaiting, -⟩
      · simp [hidle] at hbusy
      · simp [hwaiting] at hbusy
  | irq hdev => exact irq_woken hdev hquiet
  | others => exact hl _ rfl

/-- Before that something does. -/
theorem end_of_dead {s : Loaded} (hdead : Dead s) : s.core = .exited ∨ Hung s := by
  have hcorestep : coreStep s = none := hdead .core (by simp)
  cases hcore : s.core with
  | unbound => simpa [Loaded.step, hcore] using hdead .bind (by simp)
  | exited => exact .inl rfl
  | synchronizing =>
      have hbusy : ¬ (s.dev.handler = .idle ∧ s.dev.runThread = false) := by
        intro hquiet
        simp [coreStep, hcore, hquiet] at hcorestep
      obtain ⟨dev, hdev⟩ := Option.isSome_iff_exists.mp (irqStep_isSome hbusy)
      have hirq := hdead (.irq 0 0) (by simp)
      rw [Loaded.step, Net.step, hdev] at hirq
      cases hirq
  | flushing =>
      have hwork := hdead (.work true) (by simp)
      rw [Loaded.step, triggerStep, workStep] at hwork
      cases hworker : s.dev.worker with
      | idle => simp [coreStep, hcore, hworker] at hcorestep
      | waiting =>
          simp only [hworker, Option.map_eq_none_iff] at hwork
          exact .inr ⟨hcore, hworker, Completion.wait_eq_none.mp hwork⟩
      | raising | clearing | removing => simp [hworker] at hwork
  | releasing => cases hlist : s.dev.cs421netList <;> simp [coreStep, hcore, hlist] at hcorestep
  | enabling | reinit | bound | disabling | completing | freeing | exiting | cancelling =>
      simp [coreStep, hcore] at hcorestep

/-! ## who can still be woken -/

/-- The worker has still to reinitialise `retrieved`, if it gets that far. -/
def Worker.reinits : Worker → Bool
  | .raising | .waiting | .clearing => true
  | .idle | .removing => false

/-- The worker is not left waiting: where a packet is still to come, `complete_all()` is not
undone before. -/
structure Spared (s : Loaded) : Prop where
  settled : Settled s
  closing : s.core.closing = true
  pending : s.core = .exiting ∨ s.core = .cancelling → s.dev.pending = true → s.dev.worker.reinits = false
  retrieved : s.core = .cancelling ∨ s.core = .flushing →
    s.dev.pending = true ∨ s.dev.worker = .raising ∨ s.dev.worker = .waiting →
      s.dev.retrieved = .completeAll

/-- A worker that has still to reinitialise `retrieved` is at the last packet. -/
theorem Spared.last {s : Loaded} (h : Spared s) (hworker : s.dev.worker.reinits = true) :
    s.dev.pending = false := by
  have hclosing := h.closing
  by_contra hp
  have hp : s.dev.pending = true := by simpa using hp
  cases hc : s.core with
  | exiting => simp [h.pending (.inl hc) hp] at hworker
  | cancelling => simp [h.pending (.inr hc) hp] at hworker
  | flushing => simp [h.settled.cancelled (.inl hc)] at hp
  | releasing => simp [h.settled.cancelled (.inr (.inl hc))] at hp
  | exited => simp [h.settled.cancelled (.inr (.inr hc))] at hp
  | _ => simp [hc, Core.closing] at hclosing

/-- A step of the worker. -/
theorem Spared.work {s s' : Loaded} (h : Spared s) (hsettled : Settled s') (hcore : s'.core = s.core)
    (hpending : s'.dev.pending = true → s'.dev.worker.reinits = false)
    (hretrieved : s.core = .cancelling ∨ s.core = .flushing →
      s'.dev.pending = true ∨ s'.dev.worker = .raising ∨ s'.dev.worker = .waiting →
        s'.dev.retrieved = .completeAll) : Spared s' where
  settled := hsettled
  closing := by
    rw [hcore]
    exact h.closing
  pending _ := hpending
  retrieved := by
    rw [hcore]
    exact hretrieved

theorem Spared.step {s s' : Loaded} {l : Event} (h : Spared s) (hs : s.step l = some s') : Spared s' := by
  have hsettled := h.settled.step hs
  have hclosing := h.closing
  obtain ⟨hadmitted, hadding⟩ := h.settled.closing hclosing
  cases moves_of_step hs with
  | bind hc | unload hc | enable hc | reinit hc | disable hc | test hc | completeAll hc | free hc
  | synchronized hc => simp [hc, Core.closing] at hclosing
  | exit hc => exact ⟨hsettled, rfl, fun _ hp => h.pending (.inl hc) hp, fun _ _ => rfl⟩
  | cancel hc =>
      refine ⟨hsettled, rfl, by simp, fun _ hw => h.retrieved (.inl hc) (.inr ?_)⟩
      simpa using hw
  | flushed | exited => exact ⟨hsettled, rfl, by simp, by simp⟩
  | release hc => exact ⟨hsettled, hclosing, by simp [hc], by simp [hc]⟩
  | accept henabled =>
      rcases h.settled.enabled henabled with hc | hc <;> simp [hc, Core.closing] at hclosing
  | noMemory hinside | ignored hinside | stored hinside => omega
  | queued hinside => omega
  | raised hworker =>
      have hlast := h.last (by rw [hworker]; rfl)
      exact h.work hsettled rfl (by simp [hlast]) fun hc _ => h.retrieved hc (.inr (.inl hworker))
  | notRaised hworker =>
      refine h.work hsettled rfl (fun _ => rfl) fun hc hw => h.retrieved hc (.inl ?_)
      simpa using hw
  | started hworker hpending =>
      exact h.work hsettled rfl (by simp) fun hc _ => h.retrieved hc (.inl hpending)
  | waited hworker | cleared hworker =>
      have hlast := h.last (by rw [hworker]; rfl)
      exact h.work hsettled rfl (by simp [hlast]) (by simp [hlast])
  | removed hworker =>
      refine h.work hsettled rfl (fun _ => rfl) fun hc hw => h.retrieved hc (.inl ?_)
      simpa using hw
  | irq hdev => exact absurd (h.settled.driverless (Core.driverless_of_closing hclosing)) (irq_woken hdev)
  | others => exact ⟨hsettled, hclosing, h.pending, h.retrieved⟩

theorem Spared.not_hung {s : Loaded} (h : Spared s) : ¬ Hung s := by
  rintro ⟨hcore, hworker, hdone⟩
  rw [h.retrieved (.inr hcore) (.inr (.inr hworker))] at hdone
  simp [Completion.completeAll, UINT_MAX] at hdone

/-! ## two ways to go on -/

section schedules

variable {s : Loaded}

/-- The worker takes back the `complete_all()` and goes to the next packet. -/
theorem exists_hung (hcore : s.core = .exiting) (hpending : s.dev.pending = true)
    (hworker : s.dev.worker.reinits = true) : ∃ t, loaded.Reach (fun _ => True) s t ∧ Hung t := by
  obtain ⟨⟨_, _, _, _, worker, _, _, _, _⟩, _, _, _⟩ := s
  cases hcore
  cases hpending
  cases worker with
  | idle | removing => cases hworker
  | clearing =>
      refine Machine.Reach.exists_of_exec ([.core] ++ List.replicate 4 (.work true) ++ [.core]) ?_
      exact ⟨_, rfl, rfl, rfl, rfl⟩
  | waiting =>
      refine Machine.Reach.exists_of_exec ([.core] ++ List.replicate 5 (.work true) ++ [.core]) ?_
      exact ⟨_, rfl, rfl, rfl, rfl⟩
  | raising =>
      refine Machine.Reach.exists_of_exec ([.core] ++ List.replicate 6 (.work true) ++ [.core]) ?_
      exact ⟨_, rfl, rfl, rfl, rfl⟩

/-- The work is cancelled before the worker gets to the next packet. -/
theorem exists_flushed (hcore : s.core = .exiting) :
    ∃ t, loaded.Reach (fun _ => True) s t ∧ t.core = .releasing := by
  -- the worker has so many steps left
  have hsteps : ∃ n t, loaded.exec s ([.core, .core] ++ List.replicate n (.work true) ++ [.core]) = some t ∧
      t.core = .releasing := by
    obtain ⟨⟨_, _, _, _, worker, _, _, _, _⟩, _, _, _⟩ := s
    cases hcore
    cases worker with
    | idle => exact ⟨0, _, rfl, rfl⟩
    | removing => exact ⟨1, _, rfl, rfl⟩
    | clearing => exact ⟨2, _, rfl, rfl⟩
    | waiting => exact ⟨3, _, rfl, rfl⟩
    | raising => exact ⟨4, _, rfl, rfl⟩
  obtain ⟨n, h⟩ := hsteps
  exact Machine.Reach.exists_of_exec _ h

/-- The loop of `cs421net_exit` ends. -/
theorem exists_exited (hcore : s.core = .releasing) :
    ∃ t, loaded.Reach (fun _ => True) s t ∧ t.core = .exited := by
  induction hlist : s.dev.cs421netList generalizing s with
  | nil => exact Machine.Reach.exists_of_exec [.core] (by simp [Machine.exec, loaded, Loaded.step, coreStep, hcore, hlist])
  | cons p rest ih =>
      obtain ⟨t, ht, hexited⟩ :=
        ih (s := { s with dev := { s.dev with cs421netList := rest } }) hcore rfl
      have hs : loaded.step s .core = some { s with dev := { s.dev with cs421netList := rest } } := by
        simp [loaded, Loaded.step, coreStep, hcore, hlist]
      exact ⟨t, .head trivial hs ht, hexited⟩

end schedules

/-- **The module can always be unloaded, and it may hang.**  A state in which nothing moves is
one where the module is gone, or where `cs421net_exit` waits for a worker that waits itself.
When `cs421net_exit` begins, some schedule lets it return; and some schedule makes it wait
forever exactly if another packet is to come and the worker has still to reinitialise
`retrieved` after the one it is at. -/
theorem unload_hangs_iff {tr : List (Loaded × Event)} {s : Loaded} (h : loaded.Run tr s) :
    (Dead s ↔ s.core = .exited ∨ Hung s) ∧
    (s.core = .exiting →
      (∃ t, loaded.Reach (fun _ => True) s t ∧ t.core = .exited) ∧
      ((∃ t, loaded.Reach (fun _ => True) s t ∧ Hung t) ↔
        s.dev.pending = true ∧ s.dev.worker.reinits = true)) := by
  have hsettled := settled_of_run h
  refine ⟨⟨end_of_dead, hsettled.dead⟩, fun hcore => ⟨?_, ?_, ?_⟩⟩
  · obtain ⟨t, ht, hreleasing⟩ := exists_flushed hcore
    obtain ⟨u, hu, hexited⟩ := exists_exited hreleasing
    exact ⟨u, ht.trans hu, hexited⟩
  · rintro ⟨t, ht, hhung⟩
    by_contra hno
    have hspared : Spared s := by
      refine ⟨hsettled, by rw [hcore]; rfl, fun _ hp => ?_, by simp [hcore]⟩
      simpa [hp] using hno
    have hspared' : Spared t := ht.invariant (J := Spared) (fun _ _ _ hJ hs => hJ.step hs) hspared
    exact hspared'.not_hung hhung
  · rintro ⟨hpending, hworker⟩
    exact exists_hung hcore hpending hworker

/-- Two packets are captured, and the driver goes away after its handler has looked at the
first one; then the module is unloaded. -/
def twoLeft : List Event :=
  [.bind, .core, .core, .accept, .accept, .store (tcpPacket "0") true, .queue, .work true, .work true,
    .store (tcpPacket "1") true, .queue] ++ List.replicate 5 (.irq 0 0) ++ List.replicate 4 .core ++
    [.unload]

theorem unload_hangs_iff_twoLeft :
    ∃ s, loaded.Run (loaded.trace (initLoaded (initVars false)) twoLeft) s ∧ s.core = .exiting ∧
      ∃ t, loaded.Reach (fun _ => True) s t ∧ Hung t := by
  obtain ⟨s, hrun, hs⟩ := Machine.exists_run_of_exec (M := loaded) ⟨initVars false, rfl⟩ twoLeft
    (b := fun s => decide (s.core = .exiting ∧ s.dev.pending = true ∧ s.dev.worker.reinits = true))
    (by decide +kernel)
  obtain ⟨hcore, hlast⟩ := of_decide_eq_true hs
  exact ⟨s, hrun, hcore, ((unload_hangs_iff hrun).2 hcore).2.mpr hlast⟩

/-- The work is cancelled in time, and the loop releases the second one. -/
def bothReleased : List Event :=
  twoLeft ++ [.core, .core] ++ List.replicate 3 (.work true) ++ List.replicate 3 .core

theorem released_of_run_bothReleased :
    ∃ tr s, loaded.Run tr s ∧ s.core = .exited ∧ (released tr).length = 2 ∧ released tr = stored tr := by
  obtain ⟨s, hrun, hs⟩ := Machine.exists_run_of_exec (M := loaded) ⟨initVars false, rfl⟩ bothReleased
    (b := fun s => decide (s.core = .exited)) (by decide +kernel)
  have hcore := of_decide_eq_true hs
  exact ⟨_, s, hrun, hcore, by decide +kernel, (released_of_run hrun).2.2 hcore⟩

end Cmsc421.Net
