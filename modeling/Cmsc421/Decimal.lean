import Cmsc421.Bytes

/-!
# Cmsc421.Decimal

Reading a `%d` back.

The rendering of a number is made of digits and a sign (`Numeral`), so a byte that is
neither shows where it ends: a text that goes on with such a byte tells the number
(`decimal_append_inj`).
-/

namespace Cmsc421

/-- A digit or a minus sign. -/
def Numeral (b : UInt8) : Prop := b = 45 ∨ 48 ≤ b.toNat ∧ b.toNat ≤ 57

instance : DecidablePred Numeral := fun b => inferInstanceAs (Decidable (b = 45 ∨ 48 ≤ b.toNat ∧ b.toNat ≤ 57))

theorem numeral_of_mem_decimal {x : Int} {b : UInt8} (h : b ∈ decimal x) : Numeral b := by
  cases x with
  | ofNat n => exact .inr (digit_of_mem_decimalNat h)
  | negSucc n =>
      rcases List.mem_append.mp h with h | h
      · exact .inl (List.mem_singleton.mp h)
      · exact .inr (digit_of_mem_decimalNat h)

theorem decimalNat_injective : Function.Injective decimalNat := by
  have hback : ∀ n, (decimalNat n).map (fun b => Char.ofNat b.toNat) = Nat.toDigits 10 n := by
    intro n
    rw [decimalNat, List.map_map]
    conv => rhs; rw [← List.map_id (Nat.toDigits 10 n)]
    refine List.map_congr_left fun c hc => ?_
    have hle := toNat_of_mem_toDigits hc
    have hchar : c.toNat.toUInt8.toNat = c.toNat := by
      simp only [Nat.toUInt8, UInt8.toNat_ofNat']
      omega
    simp only [Function.comp, hchar, Char.ofNat_toNat, id]
  intro m n h
  calc m = Nat.ofDigitChars 10 (Nat.toDigits 10 m) 0 := Nat.ofDigitChars_ten_toDigits.symm
    _ = Nat.ofDigitChars 10 (Nat.toDigits 10 n) 0 := by rw [← hback m, h, hback n]
    _ = n := Nat.ofDigitChars_ten_toDigits

theorem decimal_injective : Function.Injective decimal := by
  have hsign : ∀ m n, decimalNat m ≠ ascii "-" ++ decimalNat n := by
    intro m n h
    have hmem : (45 : UInt8) ∈ decimalNat m := h ▸ List.mem_cons_self
    exact absurd (digit_of_mem_decimalNat hmem).1 (by decide)
  intro x y h
  cases x with
  | ofNat m =>
      cases y with
      | ofNat n => exact congrArg Int.ofNat (decimalNat_injective h)
      | negSucc n => exact absurd h (hsign m (n + 1))
  | negSucc m =>
      cases y with
      | ofNat n => exact absurd h.symm (hsign n (m + 1))
      | negSucc n =>
          have heq := decimalNat_injective (List.append_cancel_left h)
          exact congrArg Int.negSucc (Nat.succ.inj heq)

/-- The text begins with a byte that ends a number. -/
def Separates (t : List UInt8) : Prop := ∃ b ∈ t.head?, ¬ Numeral b

instance (t : List UInt8) : Decidable (Separates t) := inferInstanceAs (Decidable (∃ b ∈ t.head?, _))

theorem takeWhile_decimal (x : Int) {t : List UInt8} (ht : Separates t) (r : List UInt8) :
    (decimal x ++ (t ++ r)).takeWhile (fun b => decide (Numeral b)) = decimal x := by
  obtain ⟨b, hb, hnot⟩ := ht
  obtain ⟨t', rfl⟩ := List.head?_eq_some_iff.mp hb
  rw [List.takeWhile_append_of_pos fun b hb => decide_eq_true (numeral_of_mem_decimal hb),
    List.cons_append, List.takeWhile_cons_of_neg (by simpa using hnot), List.append_nil]

/-- **A number and what comes behind it.** -/
theorem decimal_append_inj {x y : Int} {t r s : List UInt8} (ht : Separates t)
    (h : decimal x ++ (t ++ r) = decimal y ++ (t ++ s)) : x = y ∧ r = s := by
  have hxy : decimal x = decimal y := by rw [← takeWhile_decimal x ht r, h, takeWhile_decimal y ht s]
  rw [hxy] at h
  exact ⟨decimal_injective hxy, List.append_cancel_left (List.append_cancel_left h)⟩

end Cmsc421
