import Cmsc421.Input
import Mathlib.Data.List.DropRight

/-!
# Cmsc421.Search

`strstr`, and strings without the blanks at their ends.

`strstr` finds what is an infix (`strstr_isSome_iff`).  A string that does not end in a
blank cannot reach over the newline at the end of a line
(`infix_concat_iff_of_getLast`).
-/

namespace Cmsc421

/-! ## strstr -/

/-- `strstr(s, needle)`: where the first occurrence begins, `none` for `NULL`. -/
def strstr (needle : List UInt8) : List UInt8 → Option Nat
  | [] => if needle = [] then some 0 else none
  | b :: s => if needle.isPrefixOf (b :: s) then some 0 else (strstr needle s).map (· + 1)

theorem strstr_isSome_iff {needle s : List UInt8} : (strstr needle s).isSome = true ↔ needle <:+: s := by
  induction s with
  | nil =>
      rw [strstr, List.infix_nil]
      split <;> simp_all
  | cons b s ih =>
      rw [strstr, List.infix_cons_iff, ← ih, ← List.isPrefixOf_iff_prefix]
      split
      · next h => simp [h]
      · next h => simp [h]

/-- The first occurrence of a byte. -/
theorem strstr_byte {c : UInt8} {s : List UInt8} (h : c ∉ s) (rest : List UInt8) :
    strstr [c] (s ++ c :: rest) = some s.length := by
  induction s with
  | nil => simp [strstr]
  | cons b s ih =>
      obtain ⟨hb, hs⟩ := not_or.mp (mt List.mem_cons.mpr h)
      have hno : ¬ [c].isPrefixOf (b :: (s ++ c :: rest)) = true := by simp [hb]
      rw [List.cons_append, strstr, if_neg hno, ih hs]
      rfl

theorem strstr_byte_none {c : UInt8} {s : List UInt8} (h : c ∉ s) : strstr [c] s = none := by
  rw [← Option.not_isSome_iff_eq_none, strstr_isSome_iff]
  exact fun hin => h (hin.subset (List.mem_singleton_self c))

/-! ## blanks -/

/-- The string without its blanks at both ends. -/
def strip (s : List UInt8) : List UInt8 := (s.dropWhile isSpace).rdropWhile isSpace

theorem strip_ne_nil {s : List UInt8} (h : ∃ b ∈ s, isSpace b = false) : strip s ≠ [] := by
  obtain ⟨b, hb, hblank⟩ := h
  intro hnil
  have hall := List.rdropWhile_eq_nil_iff.mp hnil
  -- the first byte behind the blanks is none
  have hcut : s.dropWhile isSpace ≠ [] := by
    intro hempty
    exact absurd (List.dropWhile_eq_nil_iff.mp hempty b hb) (by simp [hblank])
  have hhead := List.head_dropWhile_not isSpace hcut
  exact absurd (hall _ (List.head_mem hcut)) (by simp [hhead])

theorem getLast?_strip {s : List UInt8} {b : UInt8} (h : (strip s).getLast? = some b) :
    isSpace b = false := by
  have hne : strip s ≠ [] := by
    rintro hnil
    simp [hnil] at h
  obtain rfl : (strip s).getLast hne = b :=
    Option.some.inj ((List.getLast?_eq_some_getLast hne).symm.trans h)
  exact Bool.eq_false_iff.mpr (List.rdropWhile_last_not isSpace (s.dropWhile isSpace) hne)

/-- What does not end in a byte occurs in front of it. -/
theorem infix_concat_iff_of_getLast {needle s : List UInt8} {b : UInt8} (hne : needle ≠ [])
    (h : needle.getLast? ≠ some b) : needle <:+: s ++ [b] ↔ needle <:+: s := by
  rw [List.infix_concat_iff]
  refine or_iff_right ?_
  rintro ⟨t, ht⟩
  refine h ?_
  rw [← List.getLast?_append_of_ne_nil t hne, ht, List.getLast?_concat]

end Cmsc421
