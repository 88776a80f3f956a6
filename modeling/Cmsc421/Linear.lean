import Mathlib.Data.List.Basic

/-!
# Cmsc421.Linear

Overlapping operations in the order in which they take effect.

Each operation takes effect at one moment between its beginning and its end, and a
linearization lists the operations by these moments.  An operation that has taken effect
may still be under way; then its end is not known.

* `RealTime` — the list does not contradict real time: whatever ended before another
  operation began stands before it;
* `RealTime.concat`, `RealTime.finish` — it stays so when an operation takes effect, and
  when one ends;
* `ended` — the operations that have ended, and what these two do to them.
-/

namespace Cmsc421

/-- An operation with the times of its beginning and of its end, if it has ended. -/
structure Placed (α : Type*) where
  what : α
  began : Nat
  ended : Option Nat

variable {α : Type*}

/-- The operation ends. -/
def Placed.finish (i : Placed α) (now : Nat) : Placed α := { i with ended := some now }

@[simp] theorem what_finish (i : Placed α) (now : Nat) : (i.finish now).what = i.what := rfl

@[simp] theorem began_finish (i : Placed α) (now : Nat) : (i.finish now).began = i.began := rfl

/-- The list does not contradict real time. -/
def RealTime (L : List (Placed α)) : Prop := L.Pairwise fun i j => ∀ e ∈ j.ended, i.began ≤ e

/-- An operation that takes effect now, and may end now. -/
theorem RealTime.concat {L : List (Placed α)} {j : Placed α} {now : Nat} (h : RealTime L)
    (hbegan : ∀ i ∈ L, i.began ≤ now) (hj : ∀ e ∈ j.ended, e = now) : RealTime (L ++ [j]) := by
  refine List.pairwise_append.mpr ⟨h, List.pairwise_singleton _ _, fun i hi j' hj' e he => ?_⟩
  obtain rfl := List.mem_singleton.mp hj'
  rw [hj e he]
  exact hbegan i hi

/-- An operation that has taken effect before ends now. -/
theorem RealTime.finish {A B : List (Placed α)} {i : Placed α} {now : Nat}
    (h : RealTime (A ++ i :: B)) (hbegan : ∀ j ∈ A, j.began ≤ now) :
    RealTime (A ++ i.finish now :: B) := by
  obtain ⟨hA, hiB, hAB⟩ := List.pairwise_append.mp h
  obtain ⟨hi, hB⟩ := List.pairwise_cons.mp hiB
  refine List.pairwise_append.mpr ⟨hA, List.pairwise_cons.mpr ⟨hi, hB⟩, fun j hj k hk e he => ?_⟩
  rcases List.mem_cons.mp hk with rfl | hk
  · obtain rfl : now = e := Option.some.inj he
    exact hbegan j hj
  · exact hAB j hj k (List.mem_cons_of_mem _ hk) e he

/-- The end of an operation says nothing of when it has begun. -/
theorem forall_began_finish {A B : List (Placed α)} {i : Placed α} {P : Nat → Prop}
    (h : ∀ j ∈ A ++ i :: B, P j.began) (now : Nat) : ∀ j ∈ A ++ i.finish now :: B, P j.began := by
  simpa [or_imp, forall_and] using h

/-- The operations that have ended. -/
def ended (L : List (Placed α)) : List (Placed α) := L.filter fun i => i.ended.isSome

theorem ended_concat_open {L : List (Placed α)} {j : Placed α} (hj : j.ended = none) :
    ended (L ++ [j]) = ended L := by
  simp [ended, hj]

theorem ended_concat_done {L : List (Placed α)} {j : Placed α} {now : Nat}
    (hj : j.ended = some now) : ended (L ++ [j]) = ended L ++ [j] := by
  simp [ended, hj]

theorem ended_finish {A B : List (Placed α)} {i : Placed α} (hi : i.ended = none) (now : Nat) :
    (ended (A ++ i.finish now :: B)).Perm (ended (A ++ i :: B) ++ [i.finish now]) := by
  have hopen : ended (A ++ i :: B) = ended A ++ ended B := by simp [ended, hi]
  have hdone : ended (A ++ i.finish now :: B) = ended A ++ i.finish now :: ended B := by
    simp [ended, Placed.finish]
  rw [hopen, hdone]
  exact List.perm_middle.trans (List.perm_append_singleton _ _).symm

/-- When nothing is under way, the list is of operations that have ended. -/
theorem ended_eq {L : List (Placed α)} (h : ∀ i ∈ L, i.ended ≠ none) : ended L = L :=
  List.filter_eq_self.mpr fun i hi => Option.isSome_iff_ne_none.mpr (h i hi)

end Cmsc421
