import Cmsc421.Run
import Cmsc421.Completion
import Cmsc421.Mastermind.Packet

/-!
# Cmsc421.Net.Device

The CS421Net device of `xt_cs421net.c` and the interrupt handler that drains it.

Three parties share `cs421net_list`: `filter_tg`, which runs in softirq context
on any number of processors, appends a packet and then queues the one work item;
the single worker raises the interrupt, waits for the completion `retrieved` and
removes the oldest packet; and the interrupt thread of `mastermind2.c` fetches
the oldest packet and reads it.  A step is one access to the shared state, and
the steps of the three interleave in any order.

Memory that has been freed is not tracked byte by byte: what a read of a packet
that is gone from the list delivers is up to the label.
-/

namespace Cmsc421.Net

open Mastermind

/-- `IPPROTO_TCP`. -/
def IPPROTO_TCP : Nat := 6

/-- What `filter_tg` looks at in a `struct sk_buff`: the protocol of its IP
header, if there is one, the two header lengths and the bytes. -/
structure Skb where
  protocol : Option Nat
  transportOffset : Nat
  tcpHdrlen : Nat
  bytes : List UInt8

/-- The payload that `filter_tg` copies; `hdr_len` is a `u8`. -/
def Skb.payload (skb : Skb) : Option (List UInt8) :=
  let hdrLen := (skb.transportOffset + skb.tcpHdrlen) % 256
  if skb.protocol = some IPPROTO_TCP ∧ hdrLen < skb.bytes.length then some (skb.bytes.drop hdrLen)
  else none

/-- `struct incoming_data`; `id` tells the allocations apart. -/
structure IncomingData where
  id : Nat
  data : List UInt8
  deriving DecidableEq

/-- Where `cs421net_work_func` is. -/
inductive Worker
  | idle
  | raising
  | waiting
  | clearing
  | removing
  deriving DecidableEq

/-- Where `cs421net_bottom` is, and `cs421net_get_data` inside it.  The states
from `readingLen` on are about to read from the packet. -/
inductive Handler
  | idle
  | fetching (highest : Int)
  | completing (highest : Int) (oldest : IncomingData)
  | readingLen (highest : Int) (oldest : IncomingData)
  | readingData (highest : Int) (oldest : IncomingData) (len : Nat)
  | checkingLow (highest : Int) (oldest : IncomingData) (i : Fin NUM_PEGS)
  | checkingHigh (highest : Int) (oldest : IncomingData) (i : Fin NUM_PEGS)
  | assigning (oldest : IncomingData) (i : Fin NUM_PEGS)
  deriving DecidableEq

/-- The packet the handler is about to read from, after its `complete()`. -/
def Handler.reads : Handler → Option IncomingData
  | .idle | .fetching _ | .completing _ _ => none
  | .readingLen _ p | .readingData _ p _ | .checkingLow _ p _ | .checkingHigh _ p _ => some p
  | .assigning p _ => some p

/-- The device and the handler. -/
structure State where
  cs421netList : List IncomingData
  /-- packets allocated so far -/
  allocs : Nat
  /-- calls of `filter_tg` between `list_add_tail` and `queue_work` -/
  adding : Nat
  /-- the work item is pending -/
  pending : Bool
  worker : Worker
  retrieved : Completion
  /-- the interrupt thread has been woken -/
  runThread : Bool
  handler : Handler
  /-- the scalars of the game, which the handler writes under its own lock -/
  vars : Vars

/-- The steps. -/
inductive Label
  | capture (skb : Skb)
  | queue
  | work
  | irq (junkLen : Nat) (junk : UInt8)
  | others (v : Vars)

/-! ## the handler -/

/-- The attempt is counted as invalid. -/
def invalid (v : Vars) : Vars :=
  { v with numInvalidChangeAttempts := int32 (v.numInvalidChangeAttempts + 1) }

/-- The round of a loop over the pegs after round `i`. -/
def nextPeg (i : Fin NUM_PEGS) : Option (Fin NUM_PEGS) :=
  if h : i.val + 1 < NUM_PEGS then some ⟨i.val + 1, h⟩ else none

/-- One read of the handler from its packet: the length and the pointer in
`cs421net_get_data`, each byte twice in a round of the validation loop, and the
bytes in the assignments.  From a packet that is no longer `live` it gets `junkLen` and
`junk`. -/
def readStep (live : Bool) (junkLen : Nat) (junk : UInt8) (v : Vars) :
    Handler → Option (Handler × Vars)
  | .readingLen highest p =>
      some (.readingData highest p (if live then p.data.length else junkLen), v)
  | .readingData highest p len =>
      if len = NUM_PEGS then some (.checkingLow highest p 0, v) else some (.idle, invalid v)
  | .checkingLow highest p i =>
      if schar (if live then p.data.getD i 0 else junk) < zeroAscii then some (.idle, invalid v)
      else some (.checkingHigh highest p i, v)
  | .checkingHigh highest p i =>
      if highest < schar (if live then p.data.getD i 0 else junk) then some (.idle, invalid v)
      else
        match nextPeg i with
        | some j => some (.checkingLow highest p j, v)
        | none => some (.assigning p 0, v)
  | .assigning p i =>
      let digit := schar (if live then p.data.getD i 0 else junk) - zeroAscii
      let v' := { v with targetCode := Function.update v.targetCode i digit }
      match nextPeg i with
      | some j => some (.assigning p j, v')
      | none => some (.idle, { v' with timesTargetCodeChanged := int32 (v.timesTargetCodeChanged + 1) })
  | _ => none

/-! ## the machine -/

/-- One step of the worker. -/
def workStep (s : State) : Option State :=
  match s.worker with
  | .idle => if s.pending then some { s with pending := false, worker := .raising } else none
  | .raising => some { s with runThread := true, worker := .waiting }
  | .waiting => s.retrieved.wait.map fun c => { s with retrieved := c, worker := .clearing }
  | .clearing => some { s with retrieved := .reinit, worker := .removing }
  | .removing => some { s with cs421netList := s.cs421netList.tail, worker := .idle }

/-- One step of the interrupt thread. -/
def irqStep (junkLen : Nat) (junk : UInt8) (s : State) : Option State :=
  match s.handler with
  | .idle =>
      if s.runThread then
        some { s with runThread := false, handler := .fetching (highestDigit s.vars) }
      else none
  | .fetching highest =>
      match s.cs421netList with
      | [] => some { s with handler := .idle, vars := invalid s.vars }
      | oldest :: _ => some { s with handler := .completing highest oldest }
  | .completing highest oldest =>
      some { s with retrieved := s.retrieved.complete, handler := .readingLen highest oldest }
  | h =>
      (readStep (h.reads.any fun p => decide (p ∈ s.cs421netList)) junkLen junk s.vars h).map
        fun r => { s with handler := r.1, vars := r.2 }

/-- One step.  Other code changes the scalars of the game only while the handler
does not hold their lock. -/
def step (s : State) : Label → Option State
  | .capture skb =>
      match skb.payload with
      | some data =>
          some { s with
            cs421netList := s.cs421netList ++ [⟨s.allocs, data⟩]
            allocs := s.allocs + 1
            adding := s.adding + 1 }
      | none => some s
  | .queue =>
      if 0 < s.adding then some { s with adding := s.adding - 1, pending := true } else none
  | .work => workStep s
  | .irq junkLen junk => irqStep junkLen junk s
  | .others v =>
      match s.handler with
      | .idle | .fetching _ => some { s with vars := v }
      | _ => none

/-- The state after `cs421net_enable()`. -/
def enabled (v : Vars) : State where
  cs421netList := []
  allocs := 0
  adding := 0
  pending := false
  worker := .idle
  retrieved := .reinit
  runThread := false
  handler := .idle
  vars := v

/-- The machine of the device. -/
def device : Machine State Label where
  init s := ∃ v, s = enabled v
  step := step

/-! ## what a step can do -/

/-- **All that a step can do.** -/
inductive Effect (s : State) : Label → State → Prop
  | ignored {skb : Skb} (hskb : skb.payload = none) : Effect s (.capture skb) s
  | captured {skb : Skb} {data : List UInt8} (hskb : skb.payload = some data) :
      Effect s (.capture skb)
        { s with
          cs421netList := s.cs421netList ++ [⟨s.allocs, data⟩]
          allocs := s.allocs + 1
          adding := s.adding + 1 }
  | queued (hadding : 0 < s.adding) :
      Effect s .queue { s with adding := s.adding - 1, pending := true }
  | started (hworker : s.worker = .idle) (hpending : s.pending = true) :
      Effect s .work { s with pending := false, worker := .raising }
  | raised (hworker : s.worker = .raising) :
      Effect s .work { s with runThread := true, worker := .waiting }
  | released {c : Completion} (hworker : s.worker = .waiting) (hwait : s.retrieved.wait = some c) :
      Effect s .work { s with retrieved := c, worker := .clearing }
  | cleared (hworker : s.worker = .clearing) :
      Effect s .work { s with retrieved := .reinit, worker := .removing }
  | removed (hworker : s.worker = .removing) :
      Effect s .work { s with cs421netList := s.cs421netList.tail, worker := .idle }
  | woken {junkLen : Nat} {junk : UInt8} (hhandler : s.handler = .idle)
      (hrun : s.runThread = true) :
      Effect s (.irq junkLen junk)
        { s with runThread := false, handler := .fetching (highestDigit s.vars) }
  | nothing {junkLen : Nat} {junk : UInt8} {highest : Int} (hhandler : s.handler = .fetching highest)
      (hlist : s.cs421netList = []) :
      Effect s (.irq junkLen junk) { s with handler := .idle, vars := invalid s.vars }
  | fetched {junkLen : Nat} {junk : UInt8} {highest : Int} {oldest : IncomingData}
      {rest : List IncomingData} (hhandler : s.handler = .fetching highest)
      (hlist : s.cs421netList = oldest :: rest) :
      Effect s (.irq junkLen junk) { s with handler := .completing highest oldest }
  | completed {junkLen : Nat} {junk : UInt8} {highest : Int} {oldest : IncomingData}
      (hhandler : s.handler = .completing highest oldest) :
      Effect s (.irq junkLen junk)
        { s with retrieved := s.retrieved.complete, handler := .readingLen highest oldest }
  | read {junkLen : Nat} {junk : UInt8} {p : IncomingData} {h : Handler} {v : Vars}
      (hreads : s.handler.reads = some p)
      (hread : readStep (decide (p ∈ s.cs421netList)) junkLen junk s.vars s.handler = some (h, v)) :
      Effect s (.irq junkLen junk) { s with handler := h, vars := v }
  | others {v : Vars} (hfree : s.handler = .idle ∨ ∃ highest, s.handler = .fetching highest) :
      Effect s (.others v) { s with vars := v }

theorem step_cases {s s' : State} {l : Label} (h : step s l = some s') : Effect s l s' := by
  cases l with
  | capture skb =>
      simp only [step] at h
      split at h
      · next data hskb =>
          obtain rfl := Option.some.inj h
          exact .captured hskb
      · next hskb =>
          obtain rfl := Option.some.inj h
          exact .ignored hskb
  | queue =>
      obtain ⟨hadding, rfl⟩ : 0 < s.adding ∧ _ = s' := by simpa [step] using h
      exact .queued hadding
  | work =>
      simp only [step, workStep] at h
      split at h
      · next hworker =>
          obtain ⟨hpending, rfl⟩ : s.pending = true ∧ _ = s' := by simpa using h
          exact .started hworker hpending
      · next hworker =>
          obtain rfl := Option.some.inj h
          exact .raised hworker
      · next hworker =>
          obtain ⟨c, hwait, rfl⟩ := Option.map_eq_some_iff.mp h
          exact .released hworker hwait
      · next hworker =>
          obtain rfl := Option.some.inj h
          exact .cleared hworker
      · next hworker =>
          obtain rfl := Option.some.inj h
          exact .removed hworker
  | irq junkLen junk =>
      simp only [step, irqStep] at h
      split at h
      · next hhandler =>
          obtain ⟨hrun, rfl⟩ : s.runThread = true ∧ _ = s' := by simpa using h
          exact .woken hhandler hrun
      · next highest hhandler =>
          split at h
          · next hlist =>
              obtain rfl := Option.some.inj h
              exact .nothing hhandler hlist
          · next oldest rest hlist =>
              obtain rfl := Option.some.inj h
              exact .fetched hhandler hlist
      · next highest oldest hhandler =>
          obtain rfl := Option.some.inj h
          exact .completed hhandler
      · next hidle hfetching hcompleting =>
          obtain ⟨⟨h', v⟩, hread, rfl⟩ := Option.map_eq_some_iff.mp h
          cases hreads : s.handler.reads with
          | some p =>
              rw [hreads] at hread
              exact .read hreads hread
          | none =>
              cases hh : s.handler with
              | idle => exact absurd hh hidle
              | fetching highest => exact absurd hh (hfetching highest)
              | completing highest oldest => exact absurd hh (hcompleting highest oldest)
              | readingLen | readingData | checkingLow | checkingHigh | assigning =>
                  simp [Handler.reads, hh] at hreads
  | others v =>
      simp only [step] at h
      split at h
      · next hhandler =>
          obtain rfl := Option.some.inj h
          exact .others (.inl hhandler)
      · next highest hhandler =>
          obtain rfl := Option.some.inj h
          exact .others (.inr ⟨highest, hhandler⟩)
      · contradiction

/-- After a read the handler goes on with the same packet, or it is done. -/
theorem readStep_reads {live : Bool} {junkLen : Nat} {junk : UInt8} {v v' : Vars} {h h' : Handler}
    (hs : readStep live junkLen junk v h = some (h', v')) :
    h'.reads = h.reads ∨ h' = .idle := by
  cases h with
  | idle | fetching | completing => simp [readStep] at hs
  | readingLen highest p =>
      obtain ⟨rfl, -⟩ := by simpa [readStep] using hs
      exact .inl rfl
  | readingData highest p len =>
      by_cases hlen : len = NUM_PEGS <;> simp only [readStep, hlen, if_true, if_false] at hs
      · obtain ⟨rfl, -⟩ := Prod.mk.inj (Option.some.inj hs)
        exact .inl rfl
      · obtain ⟨rfl, -⟩ := Prod.mk.inj (Option.some.inj hs)
        exact .inr rfl
  | checkingLow highest p i =>
      simp only [readStep] at hs
      generalize schar _ = c at hs
      split at hs <;> obtain ⟨rfl, -⟩ := Prod.mk.inj (Option.some.inj hs)
      · exact .inr rfl
      · exact .inl rfl
  | checkingHigh highest p i =>
      simp only [readStep] at hs
      generalize schar _ = c at hs
      split at hs
      · obtain ⟨rfl, -⟩ := Prod.mk.inj (Option.some.inj hs)
        exact .inr rfl
      · cases hnext : nextPeg i <;> simp only [hnext] at hs <;>
          obtain ⟨rfl, -⟩ := Prod.mk.inj (Option.some.inj hs)
        · exact .inl rfl
        · exact .inl rfl
  | assigning p i =>
      simp only [readStep] at hs
      cases hnext : nextPeg i <;> simp only [hnext] at hs <;>
        obtain ⟨rfl, -⟩ := Prod.mk.inj (Option.some.inj hs)
      · exact .inr rfl
      · exact .inl rfl

end Cmsc421.Net
