import Cmsc421.Mastermind.Codes

/-!
# Cmsc421.Mastermind.Provenance

Where the target code comes from, and what the packet counters count.

`Spells` says when a payload is a code, byte by byte and without the handler's loop;
`codeSet` is the code that a step sets, by a start or by such a payload.  The code in
force is the one that was set last, and the two counters are the numbers of packets
that were codes and that were not (`code_provenance`), as long as the handler tests
against the number of colors in force.
-/

namespace Cmsc421.Mastermind

/-! ## payloads -/

/-- The payload is a code over `n` colors: exactly `NUM_PEGS` bytes, each of them
between `'0'` and `'0' + n - 1`. -/
def Spells (n : Int) (data : List UInt8) : Prop :=
  data.length = NUM_PEGS ∧ ∀ b ∈ data, 48 ≤ (b.toNat : Int) ∧ (b.toNat : Int) ≤ 48 + n - 1

instance (n : Int) (data : List UInt8) : Decidable (Spells n data) :=
  inferInstanceAs (Decidable (_ ∧ _))

/-- The code it is. -/
def spelled (data : List UInt8) : Code := fun i => ((data.getD i 0).toNat : Int) - 48

/-- A signed character is in the range of the handler iff the byte is in the range
of the digits. -/
theorem digitOk_schar {v : Vars} (hn : v.numColors ≤ 80) (b : UInt8) :
    digitOk (highestDigit v) (schar b) = true ↔
      48 ≤ (b.toNat : Int) ∧ (b.toNat : Int) ≤ 48 + v.numColors - 1 := by
  have hb := b.toNat_lt
  rw [digitOk_iff]
  unfold schar highestDigit zeroAscii
  split <;> omega

/-- The loop over the first `NUM_PEGS` bytes looks at every byte of a payload of that
length. -/
theorem forall_getD_iff {data : List UInt8} {P : UInt8 → Prop} (hlen : data.length = NUM_PEGS) :
    (∀ i : Fin NUM_PEGS, P (data.getD i 0)) ↔ ∀ b ∈ data, P b := by
  have hget : ∀ i : Fin NUM_PEGS, data.getD i 0 = data.get ⟨i, by omega⟩ := fun i => by
    rw [List.getD_eq_getElem?_getD, List.getElem?_eq_getElem (by omega), Option.getD_some]
    rfl
  constructor
  · intro h b hb
    obtain ⟨⟨i, hi⟩, rfl⟩ := List.mem_iff_get.mp hb
    have hi' := h ⟨i, by omega⟩
    rwa [hget] at hi'
  · intro h i
    rw [hget]
    exact h _ (List.get_mem ..)

/-- The handler accepts the payloads that are codes. -/
theorem validPacket_iff {v : Vars} (hn : v.numColors ≤ 80) (packet : Option (List UInt8)) :
    ValidPacket (highestDigit v) packet ↔ ∃ data ∈ packet, Spells v.numColors data := by
  refine exists_congr fun data => and_congr_right fun _ => and_congr_right fun hlen => ?_
  have hall : validCode (highestDigit v) data = true ↔
      ∀ i : Fin NUM_PEGS, digitOk (highestDigit v) (schar (data.getD i 0)) = true := by
    simp [validCode]
  rw [hall, forall_getD_iff (P := fun b => digitOk (highestDigit v) (schar b) = true) hlen]
  exact forall₂_congr fun b _ => digitOk_schar hn b

/-- And sets the code they are. -/
theorem packetCode_eq {n : Int} {data : List UInt8} (h : Spells n data) (hn : n ≤ 80) :
    packetCode data = spelled data := by
  funext i
  have hb := (forall_getD_iff h.1).mpr h.2 i
  simp only [packetCode, spelled, schar, zeroAscii]
  rw [if_pos (by omega)]

/-- All that the handler does. -/
theorem cs421netBottom_eq {v : Vars} (hn : v.numColors ≤ 80) (packet : Option (List UInt8)) :
    (∃ data, packet = some data ∧ Spells v.numColors data ∧
      cs421netBottom (highestDigit v) packet v =
        { v with
          targetCode := spelled data
          timesTargetCodeChanged := int32 (v.timesTargetCodeChanged + 1) }) ∨
    ((¬ ∃ data ∈ packet, Spells v.numColors data) ∧
      cs421netBottom (highestDigit v) packet v =
        { v with numInvalidChangeAttempts := int32 (v.numInvalidChangeAttempts + 1) }) := by
  rw [← validPacket_iff hn]
  by_cases h : ValidPacket (highestDigit v) packet
  · obtain ⟨data, hdata, hspells⟩ := (validPacket_iff hn packet).mp h
    obtain ⟨data', hdata', hvalid⟩ := h
    obtain rfl := Option.some.inj (hdata.symm.trans hdata')
    obtain rfl : packet = some data := hdata
    exact .inl ⟨data, rfl, hspells, by rw [cs421netBottom, if_pos hvalid, packetCode_eq hspells hn]⟩
  · refine .inr ⟨h, ?_⟩
    cases packet with
    | none => rfl
    | some data => exact if_neg fun hvalid => h ⟨data, rfl, hvalid⟩

/-! ## steps -/

/-- The step handles a packet that is a code. -/
def Taken (s : Sys) : Label → Prop
  | .bottom _ packet => ∃ data ∈ packet, Spells s.drv.vars.numColors data
  | _ => False

/-- The step handles any other packet. -/
def Rejected (s : Sys) : Label → Prop
  | .bottom _ packet => ¬ ∃ data ∈ packet, Spells s.drv.vars.numColors data
  | _ => False

/-- The code that the step sets: a start sets the fixed code, or a random one, and a
packet the code it is. -/
def codeSet (ro : Rodata) (s : Sys) : Label → Option Code
  | .main t rnd =>
      match observe ro s (.main t rnd) with
      | some (.start _) => startCode s.drv.vars rnd
      | _ => none
  | .bottom _ (some data) => if Spells s.drv.vars.numColors data then some (spelled data) else none
  | _ => none

/-- The bound that the handler has read. -/
def Frame.bound : Frame → Option Int
  | .bottom highest => some highest
  | .finding .. | .locked .. => none

/-- The handler has read its bound from the number of colors in force. -/
def BoundCurrent (s : Sys) : Label → Prop
  | .bottom t _ => ∀ highest ∈ (s.frames t).bind Frame.bound, highest = highestDigit s.drv.vars
  | _ => True

/-- The number of colors is one that the game is meant for. -/
def ColorsInRange (s : Sys) : Prop := 2 ≤ s.drv.vars.numColors ∧ s.drv.vars.numColors ≤ 10

instance (s : Sys) : DecidablePred (Taken s)
  | .bottom _ _ => inferInstanceAs (Decidable (∃ data ∈ _, _))
  | .enter .. | .find .. | .main .. | .irq _ | .setRandomCode _ => instDecidableFalse

instance (s : Sys) : DecidablePred (Rejected s)
  | .bottom _ _ => inferInstanceAs (Decidable (¬ _))
  | .enter .. | .find .. | .main .. | .irq _ | .setRandomCode _ => instDecidableFalse

instance (s : Sys) : DecidablePred (BoundCurrent s)
  | .bottom _ _ => inferInstanceAs (Decidable (∀ highest ∈ _, _))
  | .enter .. | .find .. | .main .. | .irq _ | .setRandomCode _ => instDecidableTrue

instance : DecidablePred ColorsInRange := fun s =>
  inferInstanceAs (Decidable (2 ≤ s.drv.vars.numColors ∧ s.drv.vars.numColors ≤ 10))

/-- A start counts no packet. -/
theorem startBranch_counters (rnd : Fin NUM_PEGS → UInt32) (count : Nat) (v : Vars) (g : MmGame) :
    (startBranch rnd count v g).vars.timesTargetCodeChanged = v.timesTargetCodeChanged ∧
    (startBranch rnd count v g).vars.numInvalidChangeAttempts = v.numInvalidChangeAttempts := by
  simp only [startBranch]
  split <;> exact ⟨rfl, rfl⟩

/-- What a step does to the code and to the counters. -/
structure Tallied (ro : Rodata) (s : Sys) (l : Label) (s' : Sys) : Prop where
  code : s'.drv.vars.targetCode = (codeSet ro s l).getD s.drv.vars.targetCode
  taken : s'.drv.vars.timesTargetCodeChanged =
    if Taken s l then int32 (s.drv.vars.timesTargetCodeChanged + 1)
    else s.drv.vars.timesTargetCodeChanged
  rejected : s'.drv.vars.numInvalidChangeAttempts =
    if Rejected s l then int32 (s.drv.vars.numInvalidChangeAttempts + 1)
    else s.drv.vars.numInvalidChangeAttempts

/-- A step outside the locked sections of the calls and of the handler. -/
private theorem tallied_quiet {ro : Rodata} {s s' : Sys} {l : Label}
    (hcode : s'.drv.vars.targetCode = s.drv.vars.targetCode)
    (htaken : s'.drv.vars.timesTargetCodeChanged = s.drv.vars.timesTargetCodeChanged)
    (hrejected : s'.drv.vars.numInvalidChangeAttempts = s.drv.vars.numInvalidChangeAttempts)
    (hset : codeSet ro s l = none) (hno : ¬ Taken s l ∧ ¬ Rejected s l) : Tallied ro s l s' :=
  ⟨by rw [hset, hcode]; rfl, by rw [if_neg hno.1, htaken], by rw [if_neg hno.2, hrejected]⟩

/-- The locked section of a call: only a start sets a code. -/
private theorem tallied_main {ro : Rodata} {s : Sys} {t : Nat} {rnd : Fin NUM_PEGS → UInt32}
    {user : Kuid} {call : Call} {highest : Int} {p : Nat} {g : MmGame}
    (hframe : s.frames t = some (.locked user call highest (some p)))
    (hentry : s.drv.gamesList[p]? = some g) :
    Tallied ro s (.main t rnd) (afterSection ro rnd s t call highest p g) := by
  have hevent := observe_main ro rnd hframe hentry
  have hno : (∀ c, call = .ctlWrite c → ¬ Takes ro c .start) → codeSet ro s (.main t rnd) = none := by
    intro hno
    simp only [codeSet]
    split
    · next A hA =>
        obtain ⟨-, c, hc, htakes⟩ := Call.event_start.mp (hevent.symm.trans hA)
        exact absurd htakes (hno c hc)
    · rfl
  obtain ⟨c, rfl, htakes, hw⟩ | ⟨c, rfl, htakes, -, hw⟩ | ⟨hquiet, hv, -, -⟩ :=
    section_cases ro rnd highest call s.drv.vars g
  · have hstart := hevent.trans (Call.event_start.mpr ⟨rfl, c, rfl, htakes⟩)
    obtain ⟨htaken, hrejected⟩ := startBranch_counters rnd c.count s.drv.vars g
    refine ⟨?_, ?_, ?_⟩
    · simp [afterSection, hw, codeSet, hstart]
    · simp [afterSection, hw, htaken, Taken]
    · simp [afterSection, hw, hrejected, Rejected]
  · refine tallied_quiet ?_ ?_ ?_ (hno ?_) ⟨id, id⟩
    · simp [afterSection, hw]
    · simp [afterSection, hw]
    · simp [afterSection, hw]
    · rintro _ ⟨⟩
      exact htakes.not (by decide)
  · exact tallied_quiet (by simp [afterSection, hv]) (by simp [afterSection, hv])
      (by simp [afterSection, hv]) (hno fun c hc => (hquiet c hc).1) ⟨id, id⟩

/-- The handler, with a bound in force. -/
private theorem tallied_bottom {ro : Rodata} {s : Sys} {t : Nat} {packet : Option (List UInt8)}
    (hn : ColorsInRange s) :
    Tallied ro s (.bottom t packet) (afterPacket s t (highestDigit s.drv.vars) packet) := by
  have hle : s.drv.vars.numColors ≤ 80 := hn.2.trans (by decide)
  obtain ⟨data, rfl, hspells, hw⟩ | ⟨hno, hw⟩ := cs421netBottom_eq hle packet
  · have htaken : Taken s (.bottom t (some data)) := ⟨data, rfl, hspells⟩
    have hnot : ¬ Rejected s (.bottom t (some data)) := fun h => h htaken
    refine ⟨?_, ?_, ?_⟩
    · simp [afterPacket, hw, codeSet, hspells]
    · simp [afterPacket, hw, htaken]
    · simp [afterPacket, hw, hnot]
  · have hrejected : Rejected s (.bottom t packet) := hno
    have hset : codeSet ro s (.bottom t packet) = none := by
      cases packet with
      | none => rfl
      | some data => exact if_neg fun h => hno ⟨data, rfl, h⟩
    refine ⟨?_, ?_, ?_⟩
    · simp [afterPacket, hw, hset]
    · simp [afterPacket, hw, show ¬ Taken s (.bottom t packet) from hno]
    · simp [afterPacket, hw, hrejected]

/-- **One step**: it sets the code that it should, and counts its packet. -/
theorem tallied_step {ro : Rodata} {s s' : Sys} {l : Label} (hn : ColorsInRange s)
    (hbound : BoundCurrent s l) (hs : Mastermind.step ro s l = some s') : Tallied ro s l s' := by
  cases step_cases hs with
  | enter | found | added | failed | irq | setRandomCode =>
      exact tallied_quiet rfl rfl rfl rfl ⟨id, id⟩
  | noEntry hframe hnull =>
      exact tallied_quiet rfl rfl rfl (by simp [codeSet, observe, hframe, hnull]) ⟨id, id⟩
  | main hframe hentry => exact tallied_main hframe hentry
  | @bottom t highest packet hframe =>
      obtain rfl : highest = highestDigit s.drv.vars := hbound highest (by rw [hframe]; rfl)
      exact tallied_bottom hn

/-! ## runs -/

/-- The codes set in a run, the latest last. -/
def codesSet (ro : Rodata) (tr : List (Sys × Label)) : List Code :=
  tr.filterMap fun p => codeSet ro p.1 p.2

/-- The number of packets handled that were codes, … -/
def numTaken (tr : List (Sys × Label)) : Nat := tr.countP fun p => Taken p.1 p.2

/-- … and that were not. -/
def numRejected (tr : List (Sys × Label)) : Nat := tr.countP fun p => Rejected p.1 p.2

/-- One more packet is counted, up to the overflow. -/
private theorem int32_count {x : Int} {n : Nat} (h : x = int32 n) {P : Prop} [Decidable P] :
    (if P then int32 (x + 1) else x) = int32 ((n + if P then 1 else 0 : Nat) : Int) := by
  split
  · rw [h]
    refine int32_congr ?_
    have := int32_emod (n : Int)
    omega
  · rw [h, Nat.add_zero]

/-- The code and the counters in terms of the trace. -/
theorem tally_of_run {ro : Rodata} {tr : List (Sys × Label)} {s : Sys} (h : (driver ro).Run tr s)
    (hsteps : ∀ p ∈ tr, ColorsInRange p.1 ∧ BoundCurrent p.1 p.2) :
    s.drv.vars.targetCode = (codesSet ro tr).getLast?.getD (fun _ => 0) ∧
    s.drv.vars.timesTargetCodeChanged = int32 (numTaken tr) ∧
    s.drv.vars.numInvalidChangeAttempts = int32 (numRejected tr) := by
  refine Machine.Run.invariant_of_steps (P := fun s l => ColorsInRange s ∧ BoundCurrent s l)
    (I := fun tr s => s.drv.vars.targetCode = (codesSet ro tr).getLast?.getD (fun _ => 0) ∧
      s.drv.vars.timesTargetCodeChanged = int32 (numTaken tr) ∧
      s.drv.vars.numInvalidChangeAttempts = int32 (numRejected tr)) ?_ ?_ h hsteps
  · rintro s ⟨randomCode, rfl⟩
    exact ⟨rfl, rfl, rfl⟩
  · rintro tr s l t ⟨hcode, htaken, hrejected⟩ ⟨hn, hbound⟩ hs
    have hstep := tallied_step hn hbound hs
    refine ⟨?_, ?_, ?_⟩
    · rw [hstep.code, hcode, codesSet, codesSet, List.filterMap_append]
      cases hset : codeSet ro s l <;> simp [hset]
    · rw [hstep.taken, int32_count htaken]
      simp [numTaken, List.countP_append]
    · rw [hstep.rejected, int32_count hrejected]
      simp [numRejected, List.countP_append]

/-- **The provenance of the code and of the counters.**  In every run with a sensible
number of colors and the handler's bound in force, the code is the one that was set
last, zeros before any was; the counters are the numbers of the packets handled that
were codes and that were not, below the overflow; and a step that sets no code leaves
the code alone. -/
theorem code_provenance (ro : Rodata) {tr : List (Sys × Label)} {s : Sys}
    (h : (driver ro).Run tr s) (hcolors : ∀ p ∈ tr, ColorsInRange p.1)
    (hbound : ∀ p ∈ tr, BoundCurrent p.1 p.2) :
    s.drv.vars.targetCode = (codesSet ro tr).getLast?.getD (fun _ => 0) ∧
    (numTaken tr < 2 ^ 31 → s.drv.vars.timesTargetCodeChanged = numTaken tr) ∧
    (numRejected tr < 2 ^ 31 → s.drv.vars.numInvalidChangeAttempts = numRejected tr) ∧
    ∀ p ∈ tr, ∀ s', Mastermind.step ro p.1 p.2 = some s' → codeSet ro p.1 p.2 = none →
      s'.drv.vars.targetCode = p.1.drv.vars.targetCode := by
  obtain ⟨hcode, htaken, hrejected⟩ := tally_of_run h fun p hp => ⟨hcolors p hp, hbound p hp⟩
  refine ⟨hcode, fun hlt => htaken.trans (int32_natCast hlt),
    fun hlt => hrejected.trans (int32_natCast hlt), fun p hp s' hs hset => ?_⟩
  rw [(tallied_step (hcolors p hp) (hbound p hp) hs).code, hset, Option.getD_none]

/-- A start, a packet with a code, and one that is a byte too long. -/
def startAndPackets : List Label :=
  callSteps 0 1000 (ctlText "start" false) 0 ++
    [.irq 1, .bottom 1 (some (ascii "5432")), .irq 1, .bottom 1 (some (ascii "54321"))]

theorem code_provenance_startAndPackets :
    ∃ s, (driver .zeros).Run ((driver .zeros).trace (initSys false) startAndPackets) s ∧
      s.drv.vars.targetCode = ![5, 4, 3, 2] ∧
      s.drv.vars.targetCode = (codesSet .zeros
        ((driver .zeros).trace (initSys false) startAndPackets)).getLast?.getD (fun _ => 0) := by
  obtain ⟨s, hrun, hs⟩ := Machine.exists_run_of_exec (M := driver .zeros) ⟨false, rfl⟩
    startAndPackets (b := fun s => decide (s.drv.vars.targetCode = ![5, 4, 3, 2]))
    (by decide +kernel)
  exact ⟨s, hrun, of_decide_eq_true hs,
    (code_provenance .zeros hrun (by decide +kernel) (by decide +kernel)).1⟩

end Cmsc421.Mastermind
