import Mathlib.Order.Bounds.Basic

/-!
# Cmsc421.Nearest

The first of the nearest elements of a set.

`IsNearest s d i` says that no element of `s` has a smaller distance than `i`, and that
those with the same distance do not come before `i`.  A search that goes through the
indices in order and changes its mind only for a smaller distance finds it, one index
at a time: `take` and `keep` are the two ways a round can end.
-/

namespace Cmsc421

variable {ι α : Type*} [LinearOrder ι] [LinearOrder α]

/-- `i` is the first of the elements of `s` with the least distance. -/
structure IsNearest (s : Set ι) (d : ι → α) (i : ι) : Prop where
  mem : i ∈ s
  nearest : ∀ j ∈ s, d i < d j ∨ d i = d j ∧ i ≤ j

namespace IsNearest

variable {s t : Set ι} {d : ι → α} {i j k : ι} {b : α}

theorem singleton (d : ι → α) (i : ι) : IsNearest {i} d i :=
  ⟨rfl, fun j hj => .inr ⟨by rw [Set.mem_singleton_iff.mp hj], le_of_eq hj.symm⟩⟩

theorem le (h : IsNearest s d i) (hj : j ∈ s) : d i ≤ d j :=
  (h.nearest j hj).elim le_of_lt fun h => le_of_eq h.1

/-- In a smaller set that it belongs to. -/
theorem mono (h : IsNearest t d i) (hst : s ⊆ t) (hi : i ∈ s) : IsNearest s d i :=
  ⟨hi, fun j hj => h.nearest j (hst hj)⟩

/-- It is within a bound iff something is. -/
theorem le_iff (h : IsNearest s d i) : d i ≤ b ↔ ∃ j ∈ s, d j ≤ b :=
  ⟨fun hi => ⟨i, h.mem, hi⟩, fun ⟨_, hj, hb⟩ => (h.le hj).trans hb⟩

/-- A further element that is nearer takes over, … -/
theorem take (h : IsNearest s d i) (hk : d k < d i) : IsNearest (insert k s) d k := by
  refine ⟨Set.mem_insert k s, fun j hj => ?_⟩
  obtain rfl | hj := Set.mem_insert_iff.mp hj
  · exact .inr ⟨rfl, le_rfl⟩
  · exact .inl (hk.trans_le (h.le hj))

/-- … and one that is not, and comes later, does not. -/
theorem keep (h : IsNearest s d i) (hk : ¬ d k < d i) (hik : i ≤ k) : IsNearest (insert k s) d i := by
  refine ⟨Set.mem_insert_of_mem k h.mem, fun j hj => ?_⟩
  obtain rfl | hj := Set.mem_insert_iff.mp hj
  · obtain hlt | heq := (not_lt.mp hk).lt_or_eq
    · exact .inl hlt
    · exact .inr ⟨heq, hik⟩
  · exact h.nearest j hj

end IsNearest

end Cmsc421
