import Cmsc421.Net.Delivery

/-!
# Cmsc421.Net.Lifetime

Whether a packet is still there when the handler reads it.

`cs421net_get_data` completes `retrieved` and only then reads the packet's length
and pointer, and its caller goes on to read the bytes; the worker frees the
packet as soon as it gets past its wait.  `payload_outlives_iff` says that the
packet outlives every read exactly when the worker never removes one while the
handler is still reading, and `Reading` that under this condition the handler
computes what `cs421netBottom` computes in one step.
-/

namespace Cmsc421.Net

open Mastermind

/-! ## the packet that is read -/

/-- The packet that the handler is about to read from is in the list. -/
def Alive (s : State) : Prop := ∀ p ∈ s.handler.reads, p ∈ s.cs421netList

instance (s : State) : Decidable (Alive s) :=
  inferInstanceAs (Decidable (∀ p ∈ s.handler.reads, p ∈ s.cs421netList))

/-- The worker removes a packet while the handler has completed one and still has to
read from it. -/
def Overtakes (s : State) (l : Label) : Prop :=
  l = .work ∧ s.worker = .removing ∧ s.handler.reads.isSome = true

instance (s : State) (l : Label) : Decidable (Overtakes s l) :=
  match l with
  | .work => decidable_of_iff (s.worker = .removing ∧ s.handler.reads.isSome = true)
      (by simp [Overtakes])
  | .capture _ | .queue | .irq _ _ | .others _ => .isFalse (by simp [Overtakes])

/-- What is known of a run: the account of its packets, and that the handler reads from
the packet it fetched last. -/
structure Latest (tr : List (State × Label)) (s : State) : Prop where
  balance : ∃ removed, Balance tr removed s
  last : ∀ p ∈ s.handler.reads, (examined tr).getLast? = some p

/-- One step keeps it. -/
theorem Latest.step {tr : List (State × Label)} {s s' : State} {l : Label} (h : Latest tr s)
    (hs : Net.step s l = some s') : Latest (tr ++ [(s, l)]) s' := by
  obtain ⟨⟨removed, hbal⟩, hlast⟩ := h
  refine ⟨hbal.step hs, fun p hp => ?_⟩
  have hkeep : examines s l = none → s.handler.reads = some p →
      (examined (tr ++ [(s, l)])).getLast? = some p := by
    intro hexam hreads
    simpa [examined_concat, hexam] using hlast p hreads
  cases step_cases hs with
  | ignored | captured | queued | started | raised | released | cleared | removed | others =>
      exact hkeep rfl hp
  | woken | nothing | fetched => simp [Handler.reads] at hp
  | @completed junkLen junk highest oldest hhandler =>
      obtain rfl : oldest = p := by simpa [Handler.reads] using hp
      obtain ⟨-, -, -, -, he⟩ := hbal.phase.of_completing hhandler
      simp [examined_concat, examines, hhandler, he]
  | @read junkLen junk q h' v hreads hread =>
      rcases readStep_reads hread with hsame | hidle
      · exact hkeep (examines_of_reads hreads) (hsame.symm.trans hp)
      · simp [hidle, Handler.reads] at hp

theorem latest_of_run {tr : List (State × Label)} {s : State} (h : device.Run tr s) :
    Latest tr s := by
  refine Machine.Run.invariant (I := Latest) ?_ (fun _ _ _ _ hI hs => hI.step hs) h
  rintro s ⟨v, rfl⟩
  exact ⟨⟨[], rfl, .calm (.inl rfl) rfl rfl (.inl rfl) rfl, rfl, rfl⟩, nofun⟩

/-- **Exactness, one step.** -/
theorem alive_step {tr : List (State × Label)} {s s' : State} {l : Label} (h : Latest tr s)
    (halive : Alive s) (hs : Net.step s l = some s') : Alive s' ↔ ¬ Overtakes s l := by
  obtain ⟨⟨removed, hbal⟩, hlast⟩ := h
  have hkeep : l ≠ .work → Alive s' → (Alive s' ↔ ¬ Overtakes s l) := fun hl hs' =>
    ⟨fun _ hover => hl hover.1, fun _ => hs'⟩
  cases step_cases hs with
  | ignored => exact hkeep (by simp) halive
  | captured => exact hkeep (by simp) fun p hp => List.mem_append_left _ (halive p hp)
  | queued => exact hkeep (by simp) halive
  | started hworker => exact ⟨fun _ hover => by simp [Overtakes, hworker] at hover, fun _ => halive⟩
  | raised hworker => exact ⟨fun _ hover => by simp [Overtakes, hworker] at hover, fun _ => halive⟩
  | released hworker => exact ⟨fun _ hover => by simp [Overtakes, hworker] at hover, fun _ => halive⟩
  | cleared hworker => exact ⟨fun _ hover => by simp [Overtakes, hworker] at hover, fun _ => halive⟩
  | removed hworker =>
      obtain ⟨-, -, -, p, hhead, he⟩ := hbal.phase.of_closing (.inr hworker)
      obtain ⟨rest, hlist⟩ := List.head?_eq_some_iff.mp hhead
      have hnodup : (p :: rest).Nodup := by
        have hcap := hbal.nodup
        rw [hbal.captured, hlist] at hcap
        exact hcap.of_append_right
      constructor
      · rintro halive' ⟨-, -, hreads⟩
        obtain ⟨q, hq⟩ := Option.isSome_iff_exists.mp hreads
        -- the handler reads the packet that is removed
        obtain rfl : p = q := by simpa [he] using hlast q hq
        have hrest : p ∈ rest := by simpa [hlist] using halive' p hq
        exact (List.nodup_cons.mp hnodup).1 hrest
      · intro hover q hq
        exact absurd ⟨rfl, hworker, Option.isSome_iff_exists.mpr ⟨q, hq⟩⟩ hover
  | woken | nothing | fetched => exact hkeep (by simp) nofun
  | @completed junkLen junk highest oldest hhandler =>
      refine hkeep (by simp) fun p hp => ?_
      obtain rfl : oldest = p := by simpa [Handler.reads] using hp
      obtain ⟨-, -, -, hhead, -⟩ := hbal.phase.of_completing hhandler
      exact List.mem_of_mem_head? hhead
  | read hreads hread =>
      refine hkeep (by simp) fun p hp => ?_
      rcases readStep_reads hread with hsame | hidle
      · exact halive p (hsame.symm.trans hp)
      · simp [hidle, Handler.reads] at hp
  | others => exact hkeep (by simp) halive

/-- **When the payload outlives its use.**  In every run, the packet is in the list
whenever the handler is about to read from it exactly when the worker never
removes a packet between the handler's `complete()` and its last read. -/
theorem payload_outlives_iff {tr : List (State × Label)} {s : State} (h : device.Run tr s) :
    ((∀ p ∈ tr, Alive p.1) ∧ Alive s) ↔ ∀ p ∈ tr, ¬ Overtakes p.1 p.2 := by
  refine Machine.Run.stays_iff_meets (H := fun _ _ => True) (P := fun s l => ¬ Overtakes s l)
    (Q := Alive) (I := Latest) ?_ ?_ ?_ h fun _ _ => trivial
  · rintro s ⟨v, rfl⟩
    exact ⟨latest_of_run (.start ⟨v, rfl⟩), nofun⟩
  · intro tr s l t hI halive _ hs
    exact alive_step hI halive hs
  · intro tr s l t hI _ _ _ hs
    exact hI.step hs

/-- The handler has read all of the packet before the worker goes on. -/
def readInTime : List Label :=
  [.capture (tcpPacket "0123"), .queue] ++ wholeExecution

theorem payload_outlives_iff_readInTime :
    ∃ s, device.Run (device.trace (enabled (initVars false)) readInTime) s ∧
      s.vars.timesTargetCodeChanged = 1 ∧
      ∀ p ∈ device.trace (enabled (initVars false)) readInTime, Alive p.1 := by
  obtain ⟨s, hrun, hs⟩ := Machine.exists_run_of_exec (M := device) ⟨initVars false, rfl⟩ readInTime
    (b := fun s => s.vars.timesTargetCodeChanged == 1) (by decide +kernel)
  have hover : ∀ p ∈ device.trace (enabled (initVars false)) readInTime, ¬ Overtakes p.1 p.2 := by
    decide +kernel
  exact ⟨s, hrun, beq_iff_eq.mp hs, ((payload_outlives_iff hrun).mpr hover).1⟩

/-- The work is over before the handler has read anything. -/
def readTooLate : List Label := [.capture (tcpPacket "0123"), .queue] ++ oneExecution

/-- After a whole execution of the work the handler may still be about to read the
length of the packet that has been freed. -/
theorem read_after_free :
    ∃ s p, device.Run (device.trace (enabled (initVars false)) readTooLate) s ∧
      s.handler.reads = some p ∧ p ∉ s.cs421netList := by
  obtain ⟨s, hrun, hs⟩ := Machine.exists_run_of_exec (M := device) ⟨initVars false, rfl⟩ readTooLate
    (b := fun s => s.handler.reads.any fun p => decide (p ∉ s.cs421netList)) (by decide +kernel)
  obtain ⟨p, hreads, hp⟩ := (Option.any_eq_true _ _).mp hs
  exact ⟨s, p, hrun, hreads, of_decide_eq_true hp⟩

/-! ## the handler as one step -/

theorem nextPeg_eq_some {i j : Fin NUM_PEGS} (h : nextPeg i = some j) : j.val = i.val + 1 := by
  unfold nextPeg at h
  split at h
  · rw [← Option.some.inj h]
  · contradiction

theorem nextPeg_eq_none {i : Fin NUM_PEGS} (h : nextPeg i = none) : i.val + 1 = NUM_PEGS := by
  unfold nextPeg at h
  have := i.isLt
  split at h
  · contradiction
  · omega

/-- How far a handler has come that fetched `p` when the scalars were `v₀`; at the end
it has done what `cs421netBottom` does. -/
inductive Reading (highest : Int) (p : IncomingData) (v₀ : Vars) : Handler → Vars → Prop
  | completing : Reading highest p v₀ (.completing highest p) v₀
  | readingLen : Reading highest p v₀ (.readingLen highest p) v₀
  | readingData : Reading highest p v₀ (.readingData highest p p.data.length) v₀
  | checkingLow {i : Fin NUM_PEGS} (hlen : p.data.length = NUM_PEGS)
      (hvalid : ∀ j < i, digitOk highest (schar (p.data.getD j 0)) = true) :
      Reading highest p v₀ (.checkingLow highest p i) v₀
  | checkingHigh {i : Fin NUM_PEGS} (hlen : p.data.length = NUM_PEGS)
      (hvalid : ∀ j < i, digitOk highest (schar (p.data.getD j 0)) = true)
      (hlow : zeroAscii ≤ schar (p.data.getD i 0)) :
      Reading highest p v₀ (.checkingHigh highest p i) v₀
  | assigning {i : Fin NUM_PEGS} (hlen : p.data.length = NUM_PEGS)
      (hvalid : validCode highest p.data = true) :
      Reading highest p v₀ (.assigning p i)
        { v₀ with
          targetCode := fun j => if j < i then packetCode p.data j else v₀.targetCode j }
  | done : Reading highest p v₀ .idle (cs421netBottom highest (some p.data) v₀)

/-- A packet with a digit out of range counts as invalid. -/
theorem cs421netBottom_invalid {highest : Int} {data : List UInt8} {v : Vars} {i : Fin NUM_PEGS}
    (h : ¬ digitOk highest (schar (data.getD i 0)) = true) :
    cs421netBottom highest (some data) v = invalid v := by
  have hinvalid : ¬ validCode highest data = true := fun hcode =>
    h (List.all_eq_true.mp hcode i (List.mem_finRange i))
  simp [cs421netBottom, hinvalid, invalid]

/-- The comparison of a digit with the lowest one. -/
private theorem Reading.checkLow {highest : Int} {p : IncomingData} {v v' : Vars} {h' : Handler}
    {junkLen : Nat} {junk : UInt8} {i : Fin NUM_PEGS} (hlen : p.data.length = NUM_PEGS)
    (hvalid : ∀ j < i, digitOk highest (schar (p.data.getD j 0)) = true)
    (hs : Net.readStep true junkLen junk v (.checkingLow highest p i) = some (h', v')) :
    Reading highest p v h' v' := by
  simp only [Net.readStep, if_true] at hs
  split at hs
  · next hlow =>
      obtain ⟨rfl, rfl⟩ := Prod.mk.inj (Option.some.inj hs)
      have hbad : ¬ digitOk highest (schar (p.data.getD i 0)) = true := fun h =>
        absurd (digitOk_iff.mp h).1 (not_le.mpr hlow)
      exact cs421netBottom_invalid hbad ▸ .done
  · next hlow =>
      obtain ⟨rfl, rfl⟩ := Prod.mk.inj (Option.some.inj hs)
      exact .checkingHigh hlen hvalid (not_lt.mp hlow)

/-- The comparison of a digit with the highest one; past the last digit the code is
assigned. -/
private theorem Reading.checkHigh {highest : Int} {p : IncomingData} {v v' : Vars} {h' : Handler}
    {junkLen : Nat} {junk : UInt8} {i : Fin NUM_PEGS} (hlen : p.data.length = NUM_PEGS)
    (hvalid : ∀ j < i, digitOk highest (schar (p.data.getD j 0)) = true)
    (hlow : zeroAscii ≤ schar (p.data.getD i 0))
    (hs : Net.readStep true junkLen junk v (.checkingHigh highest p i) = some (h', v')) :
    Reading highest p v h' v' := by
  simp only [Net.readStep, if_true] at hs
  split at hs
  · next hhigh =>
      obtain ⟨rfl, rfl⟩ := Prod.mk.inj (Option.some.inj hs)
      have hbad : ¬ digitOk highest (schar (p.data.getD i 0)) = true := fun h =>
        absurd (digitOk_iff.mp h).2 (not_le.mpr hhigh)
      exact cs421netBottom_invalid hbad ▸ .done
  · next hhigh =>
      have hvalid' : ∀ j : Fin NUM_PEGS, j.val ≤ i.val →
          digitOk highest (schar (p.data.getD j 0)) = true := by
        intro j hj
        rcases Nat.lt_or_eq_of_le hj with hlt | heq
        · exact hvalid j hlt
        · rw [Fin.ext heq]
          exact digitOk_iff.mpr ⟨hlow, not_lt.mp hhigh⟩
      cases hnext : nextPeg i with
      | some j =>
          simp only [hnext] at hs
          obtain ⟨rfl, rfl⟩ := Prod.mk.inj (Option.some.inj hs)
          have hj := nextPeg_eq_some hnext
          exact .checkingLow hlen fun k hk => hvalid' k (by have : k.val < j.val := hk; omega)
      | none =>
          simp only [hnext] at hs
          obtain ⟨rfl, rfl⟩ := Prod.mk.inj (Option.some.inj hs)
          have hi := nextPeg_eq_none hnext
          have hcode : validCode highest p.data = true :=
            List.all_eq_true.mpr fun j _ => hvalid' j (by have := j.isLt; omega)
          have hstart : Reading highest p v (.assigning p 0) _ := .assigning hlen hcode
          simpa using hstart

/-- One more digit of the code is in place. -/
theorem update_packetCode {data : List UInt8} {code : Code} {i : Fin NUM_PEGS} :
    Function.update (fun j => if j < i then packetCode data j else code j) i
        (schar (data.getD i 0) - zeroAscii) =
      fun j => if j ≤ i then packetCode data j else code j := by
  funext j
  by_cases hj : j = i
  · subst hj
    simp [packetCode]
  · rw [Function.update_of_ne hj]
    simp only [lt_iff_le_and_ne, ne_eq, hj, not_false_iff, and_true]

/-- The assignment of a digit; past the last one the handler is done. -/
private theorem Reading.assign {highest : Int} {p : IncomingData} {v₀ v' : Vars} {h' : Handler}
    {junkLen : Nat} {junk : UInt8} {i : Fin NUM_PEGS} (hlen : p.data.length = NUM_PEGS)
    (hvalid : validCode highest p.data = true)
    (hs : Net.readStep true junkLen junk
        { v₀ with targetCode := fun j => if j < i then packetCode p.data j else v₀.targetCode j }
        (.assigning p i) = some (h', v')) :
    Reading highest p v₀ h' v' := by
  simp only [Net.readStep, if_true, update_packetCode] at hs
  cases hnext : nextPeg i with
  | some j =>
      simp only [hnext] at hs
      obtain ⟨rfl, rfl⟩ := Prod.mk.inj (Option.some.inj hs)
      have hj := nextPeg_eq_some hnext
      have hle : ∀ k : Fin NUM_PEGS, k < j ↔ k ≤ i := fun k => by
        rw [Fin.lt_def, Fin.le_def]
        omega
      have hgo : Reading highest p v₀ (.assigning p j) _ := .assigning hlen hvalid
      simpa only [hle] using hgo
  | none =>
      simp only [hnext] at hs
      obtain ⟨rfl, rfl⟩ := Prod.mk.inj (Option.some.inj hs)
      have hi := nextPeg_eq_none hnext
      have hall : ∀ k : Fin NUM_PEGS, k ≤ i := fun k => by
        rw [Fin.le_def]
        have := k.isLt
        omega
      have hend : Reading highest p v₀ .idle _ := .done
      simpa [cs421netBottom, hlen, hvalid, hall] using hend

/-- Reads from a live packet go on with the handler's work. -/
theorem Reading.readStep {highest : Int} {p : IncomingData} {v₀ v v' : Vars} {h h' : Handler}
    {junkLen : Nat} {junk : UInt8} (hr : Reading highest p v₀ h v)
    (hs : Net.readStep true junkLen junk v h = some (h', v')) : Reading highest p v₀ h' v' := by
  cases hr with
  | completing => simp [Net.readStep] at hs
  | done => simp [Net.readStep] at hs
  | readingLen =>
      obtain ⟨rfl, rfl⟩ := by simpa [Net.readStep] using hs
      exact .readingData
  | readingData =>
      simp only [Net.readStep] at hs
      split at hs
      · next hlen =>
          obtain ⟨rfl, rfl⟩ := Prod.mk.inj (Option.some.inj hs)
          exact .checkingLow hlen fun j hj => absurd hj (Nat.not_lt_zero _)
      · next hlen =>
          obtain ⟨rfl, rfl⟩ := Prod.mk.inj (Option.some.inj hs)
          have hbottom : cs421netBottom highest (some p.data) v₀ = invalid v₀ := by
            simp [cs421netBottom, hlen, invalid]
          exact hbottom ▸ .done
  | checkingLow hlen hvalid => exact .checkLow hlen hvalid hs
  | checkingHigh hlen hvalid hlow => exact .checkHigh hlen hvalid hlow hs
  | assigning hlen hvalid => exact .assign hlen hvalid hs

/-- Where the handler stands in a run: it has no packet, or it is working on the packet
that some step of the run has fetched. -/
def Working (tr : List (State × Label)) (s : State) : Prop :=
  s.handler = .idle ∨ (∃ highest, s.handler = .fetching highest) ∨
    ∃ q ∈ tr, ∃ highest p, q.1.handler = .fetching highest ∧ examines q.1 q.2 = some p ∧
      Reading highest p q.1.vars s.handler s.vars

/-- A step after which handler and scalars are the same. -/
theorem Working.mono {tr : List (State × Label)} {s s' : State} {l : Label} (h : Working tr s)
    (hhandler : s'.handler = s.handler) (hvars : s'.vars = s.vars) : Working (tr ++ [(s, l)]) s' := by
  rw [Working, hhandler, hvars]
  refine h.imp id (Or.imp id ?_)
  rintro ⟨q, hq, h⟩
  exact ⟨q, List.mem_append_left _ hq, h⟩

theorem Working.step {tr : List (State × Label)} {s s' : State} {l : Label} (h : Working tr s)
    (halive : Alive s) (hs : Net.step s l = some s') : Working (tr ++ [(s, l)]) s' := by
  cases step_cases hs with
  | ignored | captured | queued | started | raised | released | cleared | removed =>
      exact h.mono rfl rfl
  | woken => exact .inr (.inl ⟨_, rfl⟩)
  | nothing => exact .inl rfl
  | @fetched junkLen junk highest oldest rest hhandler hlist =>
      refine .inr (.inr ⟨(s, .irq junkLen junk), by simp, highest, oldest, hhandler, ?_, .completing⟩)
      simp [examines, hhandler, hlist]
  | @completed junkLen junk highest oldest hhandler =>
      rcases h with h | ⟨_, h⟩ | ⟨q, hq, highest', p, hf, hex, hr⟩
      · simp [hhandler] at h
      · simp [hhandler] at h
      · rw [hhandler] at hr
        generalize hv : s.vars = v at hr
        cases hr
        exact .inr (.inr ⟨q, List.mem_append_left _ hq, _, _, hf, hex, hv ▸ .readingLen⟩)
  | @read junkLen junk p h' v hreads hread =>
      rcases h with h | ⟨_, h⟩ | ⟨q, hq, highest, p', hf, hex, hr⟩
      · simp [h, Handler.reads] at hreads
      · simp [h, Handler.reads] at hreads
      · rw [decide_eq_true (halive p hreads)] at hread
        exact .inr (.inr ⟨q, List.mem_append_left _ hq, highest, p', hf, hex, hr.readStep hread⟩)
  | others hfree =>
      rcases hfree with hidle | ⟨highest, hfetching⟩
      · exact .inl hidle
      · exact .inr (.inl ⟨highest, hfetching⟩)

theorem working_of_run {tr : List (State × Label)} {s : State} (h : device.Run tr s)
    (hover : ∀ p ∈ tr, ¬ Overtakes p.1 p.2) : Alive s ∧ Working tr s := by
  have hI : Latest tr s ∧ Alive s ∧ Working tr s := by
    refine Machine.Run.invariant_of_steps (P := fun s l => ¬ Overtakes s l)
      (I := fun tr s => Latest tr s ∧ Alive s ∧ Working tr s) ?_ ?_ h hover
    · rintro s ⟨v, rfl⟩
      exact ⟨latest_of_run (.start ⟨v, rfl⟩), nofun, .inl rfl⟩
    · rintro tr s l t ⟨hlatest, halive, hwork⟩ hl hs
      exact ⟨hlatest.step hs, (alive_step hlatest halive hs).mpr hl, hwork.step halive hs⟩
  exact hI.2

/-- **The handler refines `cs421netBottom`**: in a run whose worker never overtakes the
handler, the read with which the handler returns leaves the scalars as
`cs421netBottom` does on the packet that was fetched and the scalars of that
moment. -/
theorem handler_refines_bottom {tr : List (State × Label)} {s s' : State} {l : Label}
    (h : device.Run tr s) (hover : ∀ p ∈ tr, ¬ Overtakes p.1 p.2) (hs : Net.step s l = some s')
    (hreads : s.handler.reads.isSome = true) (hidle : s'.handler = .idle) :
    ∃ q ∈ tr, ∃ highest p, q.1.handler = .fetching highest ∧ examines q.1 q.2 = some p ∧
      s'.vars = cs421netBottom highest (some p.data) q.1.vars := by
  obtain ⟨halive, hwork⟩ := working_of_run h hover
  have hbusy : s.handler ≠ .idle ∧ ∀ highest, s.handler ≠ .fetching highest := by
    constructor
    · intro hh
      simp [hh, Handler.reads] at hreads
    · intro highest hh
      simp [hh, Handler.reads] at hreads
  rcases hwork with hh | ⟨highest, hh⟩ | ⟨q, hq, highest, p, hf, hex, hr⟩
  · exact absurd hh hbusy.1
  · exact absurd hh (hbusy.2 highest)
  · cases step_cases hs with
    | ignored | captured | queued | started | raised | released | cleared | removed =>
        exact absurd hidle hbusy.1
    | woken hhandler => exact absurd hhandler hbusy.1
    | nothing hhandler => exact absurd hhandler (hbusy.2 _)
    | fetched hhandler => exact absurd hhandler (hbusy.2 _)
    | completed => simp at hidle
    | read hreads' hread =>
        rw [decide_eq_true (halive _ hreads')] at hread
        have hdone := hr.readStep hread
        obtain rfl : _ = Handler.idle := hidle
        cases hdone
        exact ⟨q, hq, highest, p, hf, hex, rfl⟩
    | others => exact absurd hidle hbusy.1

end Cmsc421.Net
