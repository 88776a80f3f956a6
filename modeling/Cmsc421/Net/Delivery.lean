import Cmsc421.Net.Device

/-!
# Cmsc421.Net.Delivery

Which packets the handler gets to see.

The worker and the interrupt thread proceed in lock step: each execution of the
work raises one interrupt, the thread fetches the oldest packet and completes
`retrieved` once, and then the worker removes that packet.  `Phase` lists the
stages of this hand-over.  So the handler examines the captured packets in
order and none twice.

The number of executions is a different matter.  `queue_work` on a work item
that is still pending does nothing, and then two packets share one execution:
`Balance` accounts for every packet of the list, and `delivery_iff` says when
none is left behind.
-/

namespace Cmsc421.Net

open Mastermind

/-! ## the history of a run -/

/-- The packet a step captures. -/
def captures (s : State) : Label → Option IncomingData
  | .capture skb => skb.payload.map fun data => ⟨s.allocs, data⟩
  | _ => none

/-- The packet a step fetches for the handler. -/
def examines (s : State) : Label → Option IncomingData
  | .irq _ _ =>
      match s.handler with
      | .fetching _ => s.cs421netList.head?
      | _ => none
  | _ => none

/-- The step is a `queue_work` that finds the work item pending. -/
def Coalesces (s : State) (l : Label) : Prop := l = .queue ∧ s.pending = true

instance (s : State) (l : Label) : Decidable (Coalesces s l) :=
  match l with
  | .queue => decidable_of_iff (s.pending = true) (by simp [Coalesces])
  | .capture _ | .work | .irq _ _ | .others _ => .isFalse (by simp [Coalesces])

/-- The packets captured in a run, in order. -/
def captured (tr : List (State × Label)) : List IncomingData :=
  tr.filterMap fun p => captures p.1 p.2

/-- The packets examined in a run, in order. -/
def examined (tr : List (State × Label)) : List IncomingData :=
  tr.filterMap fun p => examines p.1 p.2

/-- The number of `queue_work` calls that did nothing. -/
def coalesced (tr : List (State × Label)) : Nat := tr.countP fun p => Coalesces p.1 p.2

theorem captured_concat (tr : List (State × Label)) (s : State) (l : Label) :
    captured (tr ++ [(s, l)]) = captured tr ++ (captures s l).toList := by
  cases h : captures s l <;> simp [captured, h]

theorem examined_concat (tr : List (State × Label)) (s : State) (l : Label) :
    examined (tr ++ [(s, l)]) = examined tr ++ (examines s l).toList := by
  cases h : examines s l <;> simp [examined, h]

theorem coalesced_concat (tr : List (State × Label)) (s : State) (l : Label) :
    coalesced (tr ++ [(s, l)]) = coalesced tr + if Coalesces s l then 1 else 0 := by
  simp [coalesced, List.countP_append, List.countP_singleton]

theorem coalesced_concat_of_ne {s : State} {l : Label} (h : l ≠ .queue) (tr : List (State × Label)) :
    coalesced (tr ++ [(s, l)]) = coalesced tr := by
  rw [coalesced_concat, if_neg fun hc => h hc.1, Nat.add_zero]

theorem coalesced_eq_zero {tr : List (State × Label)} :
    coalesced tr = 0 ↔ ∀ p ∈ tr, ¬ Coalesces p.1 p.2 := by
  simp [coalesced, List.countP_eq_zero]

/-- A handler that reads from a packet fetches none. -/
theorem examines_of_reads {s : State} {p : IncomingData} {junkLen : Nat} {junk : UInt8}
    (hreads : s.handler.reads = some p) : examines s (.irq junkLen junk) = none := by
  cases hh : s.handler with
  | fetching => simp [hh, Handler.reads] at hreads
  | idle | completing | readingLen | readingData | checkingLow | checkingHigh | assigning =>
      simp [examines, hh]

/-! ## the hand-over -/

/-- The handler has no packet to complete: it is idle, or it reads from a packet it
has completed. -/
def Handler.Late (h : Handler) : Prop := h = .idle ∨ h.reads.isSome = true

/-- The stages of the hand-over, where `removed` are the packets the worker has
removed and `examined` those the handler has fetched. -/
inductive Phase (removed examined : List IncomingData) (s : State) : Prop
  | calm (hworker : s.worker = .idle ∨ s.worker = .raising) (hrun : s.runThread = false)
      (hdone : s.retrieved = .reinit) (hlate : s.handler.Late) (hexam : examined = removed)
  | raised (hworker : s.worker = .waiting) (hrun : s.runThread = true)
      (hdone : s.retrieved = .reinit) (hlate : s.handler.Late) (hexam : examined = removed)
  | fetching {highest : Int} (hworker : s.worker = .waiting) (hrun : s.runThread = false)
      (hdone : s.retrieved = .reinit) (hhandler : s.handler = .fetching highest)
      (hexam : examined = removed)
  | completing {highest : Int} {p : IncomingData} (hworker : s.worker = .waiting)
      (hrun : s.runThread = false) (hdone : s.retrieved = .reinit)
      (hhandler : s.handler = .completing highest p) (hhead : s.cs421netList.head? = some p)
      (hexam : examined = removed ++ [p])
  | acknowledged {p : IncomingData} (hworker : s.worker = .waiting) (hrun : s.runThread = false)
      (hdone : s.retrieved = Completion.reinit.complete) (hlate : s.handler.Late)
      (hhead : s.cs421netList.head? = some p) (hexam : examined = removed ++ [p])
  | closing {p : IncomingData} (hworker : s.worker = .clearing ∨ s.worker = .removing)
      (hrun : s.runThread = false) (hdone : s.retrieved = .reinit) (hlate : s.handler.Late)
      (hhead : s.cs421netList.head? = some p) (hexam : examined = removed ++ [p])

/-- The hand-over looks at the worker, the wake-up, the completion, the handler and the
head of the list. -/
theorem Phase.congr {removed examined : List IncomingData} {s s' : State}
    (h : Phase removed examined s) (hworker : s'.worker = s.worker)
    (hrun : s'.runThread = s.runThread) (hdone : s'.retrieved = s.retrieved)
    (hhandler : s'.handler = s.handler)
    (hhead : ∀ p, s.cs421netList.head? = some p → s'.cs421netList.head? = some p) :
    Phase removed examined s' := by
  cases h with
  | calm hw hr hd hl he =>
      exact .calm (hworker ▸ hw) (hrun.trans hr) (hdone.trans hd) (hhandler ▸ hl) he
  | raised hw hr hd hl he =>
      exact .raised (hworker.trans hw) (hrun.trans hr) (hdone.trans hd) (hhandler ▸ hl) he
  | fetching hw hr hd hh he =>
      exact .fetching (hworker.trans hw) (hrun.trans hr) (hdone.trans hd) (hhandler.trans hh) he
  | completing hw hr hd hh hp he =>
      exact .completing (hworker.trans hw) (hrun.trans hr) (hdone.trans hd) (hhandler.trans hh)
        (hhead _ hp) he
  | acknowledged hw hr hd hl hp he =>
      exact .acknowledged (hworker.trans hw) (hrun.trans hr) (hdone.trans hd) (hhandler ▸ hl)
        (hhead _ hp) he
  | closing hw hr hd hl hp he =>
      exact .closing (hworker ▸ hw) (hrun.trans hr) (hdone.trans hd) (hhandler ▸ hl) (hhead _ hp) he

/-- A read of the handler leaves the hand-over where it is. -/
theorem Phase.read {removed examined : List IncomingData} {s : State} {h' : Handler} {v : Vars}
    (h : Phase removed examined s) (hreads : s.handler.reads.isSome = true) (hlate : h'.Late) :
    Phase removed examined { s with handler := h', vars := v } := by
  cases h with
  | calm hw hr hd _ he => exact .calm hw hr hd hlate he
  | raised hw hr hd _ he => exact .raised hw hr hd hlate he
  | fetching _ _ _ hh => simp [hh, Handler.reads] at hreads
  | completing _ _ _ hh => simp [hh, Handler.reads] at hreads
  | acknowledged hw hr hd _ hp he => exact .acknowledged hw hr hd hlate hp he
  | closing hw hr hd _ hp he => exact .closing hw hr hd hlate hp he

/-- Before it raises an interrupt the worker has removed all that has been examined. -/
theorem Phase.of_calm {removed examined : List IncomingData} {s : State}
    (h : Phase removed examined s) (hworker : s.worker = .idle ∨ s.worker = .raising) :
    s.runThread = false ∧ s.retrieved = .reinit ∧ s.handler.Late ∧ examined = removed := by
  cases h with
  | calm _ hr hd hl he => exact ⟨hr, hd, hl, he⟩
  | raised hw | fetching hw | completing hw | acknowledged hw => simp [hw] at hworker
  | closing hw => rcases hw with hw | hw <;> simp [hw] at hworker

/-- Past its wait the worker is at the packet examined last. -/
theorem Phase.of_closing {removed examined : List IncomingData} {s : State}
    (h : Phase removed examined s) (hworker : s.worker = .clearing ∨ s.worker = .removing) :
    s.runThread = false ∧ s.retrieved = .reinit ∧ s.handler.Late ∧
      ∃ p, s.cs421netList.head? = some p ∧ examined = removed ++ [p] := by
  cases h with
  | calm hw => rcases hw with hw | hw <;> simp [hw] at hworker
  | raised hw | fetching hw | completing hw | acknowledged hw => simp [hw] at hworker
  | @closing p _ hr hd hl hp he => exact ⟨hr, hd, hl, p, hp, he⟩

/-- While the handler is about to fetch, the worker waits. -/
theorem Phase.of_fetching {removed examined : List IncomingData} {s : State} {highest : Int}
    (h : Phase removed examined s) (hhandler : s.handler = .fetching highest) :
    s.worker = .waiting ∧ s.runThread = false ∧ s.retrieved = .reinit ∧ examined = removed := by
  cases h with
  | fetching hw hr hd _ he => exact ⟨hw, hr, hd, he⟩
  | completing _ _ _ hh => simp [hhandler] at hh
  | calm _ _ _ hl | raised _ _ _ hl | acknowledged _ _ _ hl | closing _ _ _ hl =>
      simp [Handler.Late, hhandler, Handler.reads] at hl

/-- While the handler is about to complete, the worker waits with that packet. -/
theorem Phase.of_completing {removed examined : List IncomingData} {s : State} {highest : Int}
    {p : IncomingData} (h : Phase removed examined s)
    (hhandler : s.handler = .completing highest p) :
    s.worker = .waiting ∧ s.runThread = false ∧ s.retrieved = .reinit ∧
      s.cs421netList.head? = some p ∧ examined = removed ++ [p] := by
  cases h with
  | completing hw hr hd hh hp he =>
      obtain ⟨-, rfl⟩ := Handler.completing.inj (hhandler.symm.trans hh)
      exact ⟨hw, hr, hd, hp, he⟩
  | fetching _ _ _ hh => simp [hhandler] at hh
  | calm _ _ _ hl | raised _ _ _ hl | acknowledged _ _ _ hl | closing _ _ _ hl =>
      simp [Handler.Late, hhandler, Handler.reads] at hl

/-- What is known of a run: the list holds the captured packets that have not been
removed, one for each `queue_work` that is yet to come, for the pending and the
running work, and for each `queue_work` that did nothing. -/
structure Balance (tr : List (State × Label)) (removed : List IncomingData) (s : State) : Prop where
  captured : captured tr = removed ++ s.cs421netList
  phase : Phase removed (examined tr) s
  count : s.cs421netList.length =
    s.adding + s.pending.toNat + (if s.worker = .idle then 0 else 1) + coalesced tr
  fresh : (Net.captured tr).map (·.id) = List.range s.allocs

/-- A step that captures and examines nothing and keeps the list and the balance. -/
private theorem Balance.quiet {tr : List (State × Label)} {removed : List IncomingData} {s s' : State}
    {l : Label} (h : Balance tr removed s) (hcap : captures s l = none)
    (hexam : examines s l = none) (hlist : s'.cs421netList = s.cs421netList)
    (hallocs : s'.allocs = s.allocs) (hphase : Phase removed (examined tr) s')
    (hcount : s'.adding + s'.pending.toNat + (if s'.worker = .idle then 0 else 1) +
        (if Coalesces s l then 1 else 0) =
      s.adding + s.pending.toNat + (if s.worker = .idle then 0 else 1)) :
    Balance (tr ++ [(s, l)]) removed s' where
  captured := by simp [captured_concat, hcap, hlist, h.captured]
  phase := by simpa [examined_concat, hexam] using hphase
  count := by
    have := h.count
    rw [coalesced_concat, hlist]
    omega
  fresh := by simp [captured_concat, hcap, hallocs, h.fresh]

/-- A captured packet goes to the end of the list and is queued next. -/
private theorem Balance.capture {tr : List (State × Label)} {removed : List IncomingData} {s : State}
    {skb : Skb} {data : List UInt8} (h : Balance tr removed s) (hskb : skb.payload = some data) :
    Balance (tr ++ [(s, .capture skb)]) removed
      { s with
        cs421netList := s.cs421netList ++ [⟨s.allocs, data⟩]
        allocs := s.allocs + 1
        adding := s.adding + 1 } where
  captured := by simp [captured_concat, captures, hskb, h.captured]
  phase := by
    rw [examined_concat, show examines s (.capture skb) = none from rfl, Option.toList_none,
      List.append_nil]
    exact h.phase.congr rfl rfl rfl rfl fun p hp => by simp [hp]
  count := by
    have := h.count
    rw [coalesced_concat_of_ne (by simp)]
    simp only [List.length_append, List.length_singleton]
    omega
  fresh := by simp [captured_concat, captures, hskb, h.fresh, List.range_succ]

/-- The worker removes the packet the handler has examined last. -/
private theorem Balance.remove {tr : List (State × Label)} {removed : List IncomingData} {s : State}
    (h : Balance tr removed s) (hworker : s.worker = .removing) :
    ∃ p, Balance (tr ++ [(s, .work)]) (removed ++ [p])
      { s with cs421netList := s.cs421netList.tail, worker := .idle } := by
  obtain ⟨hrun, hdone, hlate, p, hhead, hexam⟩ := h.phase.of_closing (.inr hworker)
  obtain ⟨rest, hlist⟩ := List.head?_eq_some_iff.mp hhead
  refine ⟨p, ?_, ?_, ?_, ?_⟩
  · simp [captured_concat, captures, h.captured, hlist]
  · rw [examined_concat, show examines s .work = none from rfl, Option.toList_none,
      List.append_nil]
    exact .calm (.inl rfl) hrun hdone hlate hexam
  · have hcount := h.count
    rw [coalesced_concat_of_ne (by simp)]
    simp only [hlist, List.length_cons, hworker, List.tail_cons, if_true, reduceCtorEq,
      if_false] at hcount ⊢
    omega
  · simpa [captured_concat, captures] using h.fresh

/-- The handler fetches the oldest packet, which is the next one to examine. -/
private theorem Balance.fetch {tr : List (State × Label)} {removed : List IncomingData} {s : State}
    {junkLen : Nat} {junk : UInt8} {highest : Int} {oldest : IncomingData}
    {rest : List IncomingData} (h : Balance tr removed s) (hhandler : s.handler = .fetching highest)
    (hlist : s.cs421netList = oldest :: rest) :
    Balance (tr ++ [(s, .irq junkLen junk)]) removed
      { s with handler := .completing highest oldest } where
  captured := by simp [captured_concat, captures, h.captured]
  phase := by
    obtain ⟨hworker, hrun, hdone, hexam⟩ := h.phase.of_fetching hhandler
    have hnext : examines s (.irq junkLen junk) = some oldest := by
      simp [examines, hhandler, hlist]
    rw [examined_concat, hnext]
    exact .completing hworker hrun hdone rfl (by simp [hlist]) (by simp [hexam])
  count := by
    rw [coalesced_concat_of_ne (by simp)]
    exact h.count
  fresh := by simpa [captured_concat, captures] using h.fresh

/-- **One step** of the device keeps the account. -/
theorem Balance.step {tr : List (State × Label)} {removed : List IncomingData} {s s' : State}
    {l : Label} (h : Balance tr removed s) (hs : Net.step s l = some s') :
    ∃ removed', Balance (tr ++ [(s, l)]) removed' s' := by
  have hphase := h.phase
  cases step_cases hs with
  | ignored hskb =>
      exact ⟨removed, h.quiet (by simp [captures, hskb]) rfl rfl rfl hphase (by simp [Coalesces])⟩
  | captured hskb => exact ⟨removed, h.capture hskb⟩
  | queued hadding =>
      refine ⟨removed, h.quiet rfl rfl rfl rfl (hphase.congr rfl rfl rfl rfl fun _ => id) ?_⟩
      cases hp : s.pending <;> simp [Coalesces, hp] <;> omega
  | started hworker hpending =>
      obtain ⟨hr, hd, hl, he⟩ := hphase.of_calm (.inl hworker)
      exact ⟨removed, h.quiet rfl rfl rfl rfl (.calm (.inr rfl) hr hd hl he)
        (by simp [Coalesces, hworker, hpending])⟩
  | raised hworker =>
      obtain ⟨-, hd, hl, he⟩ := hphase.of_calm (.inr hworker)
      exact ⟨removed, h.quiet rfl rfl rfl rfl (.raised rfl rfl hd hl he)
        (by simp [Coalesces, hworker])⟩
  | released hworker hwait =>
      refine ⟨removed, h.quiet rfl rfl rfl rfl ?_ (by simp [Coalesces, hworker])⟩
      -- only a completion of the handler lets the worker past its wait
      cases hphase with
      | calm hw => simp [hworker] at hw
      | raised _ _ hd | fetching _ _ hd | completing _ _ hd => simp [hd] at hwait
      | acknowledged _ hr hd hl hp he =>
          obtain rfl := by simpa [hd] using hwait
          exact .closing (.inl rfl) hr rfl hl hp he
      | closing hw => simp [hworker] at hw
  | cleared hworker =>
      obtain ⟨hr, -, hl, p, hp, he⟩ := hphase.of_closing (.inl hworker)
      exact ⟨removed, h.quiet rfl rfl rfl rfl (.closing (.inr rfl) hr rfl hl hp he)
        (by simp [Coalesces, hworker])⟩
  | removed hworker =>
      obtain ⟨p, hbal⟩ := h.remove hworker
      exact ⟨removed ++ [p], hbal⟩
  | woken hhandler hrun =>
      refine ⟨removed, h.quiet rfl (by simp [examines, hhandler]) rfl rfl ?_ (by simp [Coalesces])⟩
      cases hphase with
      | raised hw _ hd _ he => exact .fetching hw rfl hd rfl he
      | calm _ hr | fetching _ hr | completing _ hr | acknowledged _ hr | closing _ hr =>
          simp [hrun] at hr
  | nothing hhandler hlist =>
      -- the worker is waiting, so its packet is in the list
      obtain ⟨hw, -⟩ := hphase.of_fetching hhandler
      have hcount := h.count
      simp only [hlist, hw, List.length_nil, reduceCtorEq, if_false] at hcount
      omega
  | fetched hhandler hlist => exact ⟨removed, h.fetch hhandler hlist⟩
  | completed hhandler =>
      obtain ⟨hw, hr, hd, hp, he⟩ := hphase.of_completing hhandler
      exact ⟨removed, h.quiet rfl (by simp [examines, hhandler]) rfl rfl
        (.acknowledged hw hr (by simp [hd]) (.inr rfl) hp he) (by simp [Coalesces])⟩
  | @read junkLen junk p h' v hreads hread =>
      have hlate : h'.Late := by
        rcases readStep_reads hread with hsame | hidle
        · exact .inr (by simp [hsame, hreads])
        · exact .inl hidle
      exact ⟨removed, h.quiet rfl (examines_of_reads hreads) rfl rfl
        (hphase.read (by simp [hreads]) hlate) (by simp [Coalesces])⟩
  | others =>
      exact ⟨removed, h.quiet rfl rfl rfl rfl (hphase.congr rfl rfl rfl rfl fun _ => id)
        (by simp [Coalesces])⟩

/-- The captured packets are different ones. -/
theorem Balance.nodup {tr : List (State × Label)} {removed : List IncomingData} {s : State}
    (h : Balance tr removed s) : (Net.captured tr).Nodup :=
  List.Nodup.of_map (·.id) (h.fresh ▸ List.nodup_range)

theorem balance_of_run {tr : List (State × Label)} {s : State} (h : device.Run tr s) :
    ∃ removed, Balance tr removed s := by
  refine Machine.Run.invariant (I := fun tr s => ∃ removed, Balance tr removed s) ?_ ?_ h
  · rintro s ⟨v, rfl⟩
    exact ⟨[], rfl, .calm (.inl rfl) rfl rfl (.inl rfl) rfl, rfl, rfl⟩
  · rintro tr s l t ⟨removed, hI⟩ hs
    exact hI.step hs

/-- No work is pending or running, and no `filter_tg` is about to queue it. -/
def Quiet (s : State) : Prop := s.adding = 0 ∧ s.pending = false ∧ s.worker = .idle

instance (s : State) : Decidable (Quiet s) := inferInstanceAs (Decidable (_ ∧ _ ∧ _))

/-- **When every packet is delivered.**  In every run the handler examines the
captured packets in order and none twice.  In a quiet state the list is empty,
and every captured packet has been examined, exactly when no `queue_work` found
the work item pending. -/
theorem delivery_iff {tr : List (State × Label)} {s : State} (h : device.Run tr s) :
    examined tr <+: captured tr ∧ (examined tr).Nodup ∧
    (Quiet s → (s.cs421netList = [] ↔ ∀ p ∈ tr, ¬ Coalesces p.1 p.2)) ∧
    (Quiet s → (examined tr = captured tr ↔ ∀ p ∈ tr, ¬ Coalesces p.1 p.2)) := by
  obtain ⟨removed, hbal⟩ := balance_of_run h
  have hnodup := hbal.nodup
  obtain ⟨hcap, hphase, hcount, -⟩ := hbal
  have hpre : examined tr <+: captured tr := by
    rw [hcap]
    cases hphase with
    | calm _ _ _ _ he | raised _ _ _ _ he | fetching _ _ _ _ he =>
        rw [he]
        exact List.prefix_append ..
    | completing _ _ _ _ hp he | acknowledged _ _ _ _ hp he | closing _ _ _ _ hp he =>
        obtain ⟨rest, hlist⟩ := List.head?_eq_some_iff.mp hp
        rw [he, hlist]
        exact ⟨rest, by simp⟩
  have hquiet : Quiet s → (s.cs421netList = [] ↔ ∀ p ∈ tr, ¬ Coalesces p.1 p.2) := by
    rintro ⟨hadding, hpending, hworker⟩
    rw [← coalesced_eq_zero, ← List.length_eq_zero_iff, hcount, hadding, hpending, hworker]
    simp
  refine ⟨hpre, hnodup.sublist hpre.sublist, hquiet, fun hq => ?_⟩
  obtain ⟨-, -, -, hexam⟩ := hphase.of_calm (.inl hq.2.2)
  rw [← hquiet hq, hexam, hcap]
  simp

/-! ## two packets for one work item -/

/-- A TCP packet with a payload. -/
def tcpPacket (payload : String) : Skb := ⟨some IPPROTO_TCP, 0, 0, ascii payload⟩

/-- One execution of the work, with the handler's part up to its `complete()`. -/
def oneExecution : List Label :=
  [.work, .work, .irq 0 0, .irq 0 0, .irq 0 0, .work, .work, .work]

/-- One execution in which the handler has read the whole packet before it is removed. -/
def wholeExecution : List Label :=
  [.work, .work] ++ List.replicate 17 (.irq 0 0) ++ [.work, .work, .work]

/-- Two packets are captured, queued and delivered, one after the other. -/
def inTurn : List Label :=
  [.capture (tcpPacket "0123"), .queue] ++ wholeExecution ++
    [.capture (tcpPacket "3210"), .queue] ++ wholeExecution

/-- Both are examined, in order, and nothing is left. -/
theorem delivery_iff_inTurn :
    ∃ s, device.Run (device.trace (enabled (initVars false)) inTurn) s ∧ Quiet s ∧
      s.cs421netList = [] ∧
      (captured (device.trace (enabled (initVars false)) inTurn)).map (·.data) =
        [ascii "0123", ascii "3210"] ∧
      examined (device.trace (enabled (initVars false)) inTurn) =
        captured (device.trace (enabled (initVars false)) inTurn) ∧
      (examined (device.trace (enabled (initVars false)) inTurn)).Nodup := by
  obtain ⟨s, hrun, hs⟩ := Machine.exists_run_of_exec (M := device) ⟨initVars false, rfl⟩ inTurn
    (b := fun s => decide (Quiet s)) (by decide +kernel)
  have hquiet : Quiet s := of_decide_eq_true hs
  have hfound : ∀ p ∈ device.trace (enabled (initVars false)) inTurn, ¬ Coalesces p.1 p.2 := by
    decide +kernel
  obtain ⟨-, hnodup, hempty, hall⟩ := delivery_iff hrun
  exact ⟨s, hrun, hquiet, (hempty hquiet).mpr hfound, by decide +kernel, (hall hquiet).mpr hfound,
    hnodup⟩

/-- Two packets are captured before the worker runs. -/
def twoPackets : List Label :=
  [.capture (tcpPacket "0123"), .queue, .capture (tcpPacket "3210"), .queue] ++ oneExecution

/-- The second packet is left in the list with nothing to deliver it. -/
theorem packet_left_behind :
    ∃ s, device.Run (device.trace (enabled (initVars false)) twoPackets) s ∧ Quiet s ∧
      s.cs421netList ≠ [] ∧
      examined (device.trace (enabled (initVars false)) twoPackets) ≠
        captured (device.trace (enabled (initVars false)) twoPackets) := by
  obtain ⟨s, hrun, hs⟩ := Machine.exists_run_of_exec (M := device) ⟨initVars false, rfl⟩ twoPackets
    (b := fun s => decide (Quiet s) && decide (s.cs421netList ≠ [])) (by decide +kernel)
  simp only [Bool.and_eq_true, decide_eq_true_eq] at hs
  exact ⟨s, hrun, hs.1, hs.2, by decide +kernel⟩

end Cmsc421.Net
