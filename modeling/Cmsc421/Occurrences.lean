import Mathlib.Algebra.Order.BigOperators.Group.Finset
import Mathlib.Data.Fintype.Card

/-!
# Cmsc421.Occurrences

What two colourings of the same places have in common.

`common f g` counts the colours of `f` and `g` as if they were bags: each colour as
often as both have it.  The places where the colourings agree account for a part of
it, and what is left is counted colour by colour among the other places
(`common_eq`), so a count that takes each colour in turn can be compared with it
colour by colour.
-/

namespace Cmsc421

open Finset

variable {ι α : Type*} [Fintype ι] [DecidableEq α]

/-- The places of a colour. -/
def occ (f : ι → α) (c : α) : Nat := #{i | f i = c}

/-- The places where the colourings agree. -/
def agreements (f g : ι → α) : Nat := #{i | f i = g i}

/-- The places where `f` has the colour and `g` has not. -/
def surplus (f g : ι → α) (c : α) : Nat := #{i | f i = c ∧ f i ≠ g i}

/-- The colours that both have, each as often as both have it. -/
def common (f g : ι → α) : Nat := ∑ c ∈ univ.image f, min (occ f c) (occ g c)

/-- The places where both have the colour. -/
private def shared (f g : ι → α) (c : α) : Nat := #{i | f i = c ∧ f i = g i}

private theorem occ_eq (f g : ι → α) (c : α) : occ f c = shared f g c + surplus f g c := by
  rw [occ, shared, surplus, ← card_filter_add_card_filter_not (fun i => f i = g i)]
  simp only [filter_filter]

private theorem shared_comm (f g : ι → α) (c : α) : shared g f c = shared f g c := by
  refine congrArg card (filter_congr fun i _ => ?_)
  constructor
  · rintro ⟨rfl, h⟩
    exact ⟨h.symm, h.symm⟩
  · rintro ⟨rfl, h⟩
    exact ⟨h.symm, h.symm⟩

private theorem sum_shared (f g : ι → α) : ∑ c ∈ univ.image f, shared f g c = agreements f g := by
  rw [agreements, card_eq_sum_card_fiberwise (f := f) fun i _ => mem_image_of_mem f (mem_univ i)]
  refine sum_congr rfl fun c _ => ?_
  rw [shared, filter_filter]
  exact congrArg card (filter_congr fun i _ => and_comm)

/-- **The agreements, and what the other places have in common.** -/
theorem common_eq (f g : ι → α) :
    common f g = agreements f g + ∑ c ∈ univ.image f, min (surplus f g c) (surplus g f c) := by
  rw [common, ← sum_shared, ← sum_add_distrib]
  refine sum_congr rfl fun c _ => ?_
  rw [occ_eq f g, occ_eq g f, shared_comm, Nat.add_min_add_left]

/-- They are no more than the places. -/
theorem common_le_card (f g : ι → α) : common f g ≤ Fintype.card ι :=
  calc common f g ≤ ∑ c ∈ univ.image f, occ f c := sum_le_sum fun _ _ => min_le_left ..
    _ = Fintype.card ι := (card_eq_sum_card_image f univ).symm

theorem surplus_pos {f g : ι → α} {c : α} : 0 < surplus f g c ↔ ∃ i, f i = c ∧ f i ≠ g i := by
  simp [surplus, card_pos, Finset.Nonempty]

/-- A colour that `f` has not. -/
theorem surplus_eq_zero {f : ι → α} {c : α} (h : c ∉ univ.image f) (g : ι → α) :
    surplus f g c = 0 := by
  refine card_eq_zero.mpr (filter_eq_empty_iff.mpr fun i _ => ?_)
  rintro ⟨hi, -⟩
  exact h (mem_image.mpr ⟨i, mem_univ i, hi⟩)

/-- A count that takes at most what both have of each colour is complete iff it takes
just that. -/
theorem agreements_add_sum_iff {f g : ι → α} {w : α → Nat}
    (hw : ∀ c ∈ univ.image f, w c ≤ min (surplus f g c) (surplus g f c)) :
    agreements f g + ∑ c ∈ univ.image f, w c = common f g ↔
      ∀ c ∈ univ.image f, w c = min (surplus f g c) (surplus g f c) := by
  rw [common_eq, Nat.add_left_cancel_iff, sum_eq_sum_iff_of_le hw]

/-- A count that takes at least what both have of each colour is exact iff it takes just
that. -/
theorem agreements_add_sum_iff_of_ge {f g : ι → α} {w : α → Nat}
    (hw : ∀ c ∈ univ.image f, min (surplus f g c) (surplus g f c) ≤ w c) :
    agreements f g + ∑ c ∈ univ.image f, w c = common f g ↔
      ∀ c ∈ univ.image f, w c = min (surplus f g c) (surplus g f c) := by
  rw [common_eq, Nat.add_left_cancel_iff, eq_comm, sum_eq_sum_iff_of_le hw]
  exact forall₂_congr fun _ _ => eq_comm

/-- What one colouring has of a colour where they differ exceeds what the other has there
just when it has more of the colour. -/
theorem surplus_le_iff {f g : ι → α} {c : α} :
    surplus f g c ≤ surplus g f c ↔ occ f c ≤ occ g c := by
  rw [occ_eq f g, occ_eq g f, shared_comm]
  omega

end Cmsc421
