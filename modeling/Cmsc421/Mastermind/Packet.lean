import Cmsc421.Mastermind.Game

/-!
# Cmsc421.Mastermind.Packet

`cs421net_bottom`: the handler of the CS421Net interrupt.

A packet is the payload `cs421net_get_data` hands over, or `none` when nothing
is pending (a null pointer and the length zero).
-/

namespace Cmsc421.Mastermind

/-- The validation loop over the first `NUM_PEGS` characters. -/
def validCode (highest : Int) (data : List UInt8) : Bool :=
  (List.finRange NUM_PEGS).all fun i => digitOk highest (schar (data.getD i 0))

/-- The code a payload spells. -/
def packetCode (data : List UInt8) : Code := fun i => schar (data.getD i 0) - zeroAscii

/-- The locked section of `cs421net_bottom`, with the bound that was read into
`highest_digit` before the lock was taken. -/
def cs421netBottom (highest : Int) (packet : Option (List UInt8)) (v : Vars) : Vars :=
  match packet with
  | some data =>
      if data.length = NUM_PEGS ∧ validCode highest data = true then
        { v with
          targetCode := packetCode data
          timesTargetCodeChanged := int32 (v.timesTargetCodeChanged + 1) }
      else { v with numInvalidChangeAttempts := int32 (v.numInvalidChangeAttempts + 1) }
  | none => { v with numInvalidChangeAttempts := int32 (v.numInvalidChangeAttempts + 1) }

/-- A payload the handler accepts under a bound. -/
def ValidPacket (highest : Int) (packet : Option (List UInt8)) : Prop :=
  ∃ data ∈ packet, data.length = NUM_PEGS ∧ validCode highest data = true

/-- A valid packet sets the code it spells; every other packet leaves the code
alone. -/
theorem cs421netBottom_cases (highest : Int) (packet : Option (List UInt8)) (v : Vars) :
    (∃ data, packet = some data ∧ data.length = NUM_PEGS ∧ validCode highest data = true ∧
      (cs421netBottom highest packet v).targetCode = packetCode data) ∨
    (¬ ValidPacket highest packet ∧
      (cs421netBottom highest packet v).targetCode = v.targetCode) := by
  unfold cs421netBottom ValidPacket
  cases packet with
  | none => exact .inr ⟨by simp, rfl⟩
  | some data =>
      by_cases h : data.length = NUM_PEGS ∧ validCode highest data = true
      · exact .inl ⟨data, rfl, h.1, h.2, by simp [h]⟩
      · exact .inr ⟨by simpa using h, by simp [h]⟩

@[simp] theorem cs421netBottom_numColors (highest : Int) (packet : Option (List UInt8)) (v : Vars) :
    (cs421netBottom highest packet v).numColors = v.numColors := by
  unfold cs421netBottom
  split
  · split <;> rfl
  · rfl

@[simp] theorem cs421netBottom_randomCode (highest : Int) (packet : Option (List UInt8)) (v : Vars) :
    (cs421netBottom highest packet v).randomCode = v.randomCode := by
  unfold cs421netBottom
  split
  · split <;> rfl
  · rfl

/-- The digits of a valid packet are within the bound. -/
theorem packetCode_le {highest : Int} {data : List UInt8} (h : validCode highest data = true)
    (i : Fin NUM_PEGS) : 0 ≤ packetCode data i ∧ packetCode data i ≤ highest - zeroAscii := by
  have hd := digitOk_iff.mp (List.all_eq_true.mp h i (List.mem_finRange i))
  simp only [packetCode]
  omega

end Cmsc421.Mastermind
