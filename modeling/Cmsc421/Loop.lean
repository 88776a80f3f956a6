import Mathlib.Data.List.FinRange

/-!
# Cmsc421.Loop

Loops over the indices of an array.

`for (i = 0; i < n; i++)` is a fold over `List.finRange n`; `roundsOf f k s` is the
state before round `k`.  `foldl_finRange` is the rule for a loop invariant that counts
the rounds.
-/

namespace Cmsc421

variable {n : Nat} {σ : Type*}

/-- The state before round `k`. -/
def roundsOf (f : σ → Fin n → σ) (k : Nat) (s : σ) : σ := ((List.finRange n).take k).foldl f s

@[simp] theorem roundsOf_zero (f : σ → Fin n → σ) (s : σ) : roundsOf f 0 s = s := rfl

/-- One round more. -/
theorem roundsOf_succ (f : σ → Fin n → σ) {k : Nat} (hk : k < n) (s : σ) :
    roundsOf f (k + 1) s = f (roundsOf f k s) ⟨k, hk⟩ := by
  rw [roundsOf, List.take_succ_eq_append_getElem (by simpa using hk), List.foldl_append,
    List.foldl_cons, List.foldl_nil, List.getElem_finRange]
  rfl

/-- The loop is all the rounds. -/
theorem roundsOf_length (f : σ → Fin n → σ) (s : σ) :
    roundsOf f n s = (List.finRange n).foldl f s := by
  rw [roundsOf, List.take_of_length_le (by simp)]

/-- The rounds up to round `i` are those before it and itself. -/
theorem forall_lt_succ_iff {P : Fin n → Prop} {i : Fin n} :
    (∀ k : Fin n, k.val < i.val + 1 → P k) ↔ (∀ k : Fin n, k.val < i.val → P k) ∧ P i := by
  constructor
  · intro h
    exact ⟨fun k hk => h k (by omega), h i (by omega)⟩
  · rintro ⟨h, hi⟩ k hk
    rcases Nat.lt_or_ge k i with hlt | hge
    · exact h k hlt
    · obtain rfl : k = i := Fin.ext (by omega)
      exact hi

/-- One of them is before it or it is the round itself. -/
theorem exists_lt_succ_iff {P : Fin n → Prop} {i : Fin n} :
    (∃ k : Fin n, k.val < i.val + 1 ∧ P k) ↔ (∃ k : Fin n, k.val < i.val ∧ P k) ∨ P i := by
  constructor
  · rintro ⟨k, hk, hP⟩
    rcases Nat.lt_or_ge k i with hlt | hge
    · exact .inl ⟨k, hlt, hP⟩
    · obtain rfl : k = i := Fin.ext (by omega)
      exact .inr hP
  · rintro (⟨k, hk, hP⟩ | hP)
    · exact ⟨k, by omega, hP⟩
    · exact ⟨i, by omega, hP⟩

/-- What holds before the loop, and is carried over each round, holds before every round. -/
theorem roundsOf_inv {f : σ → Fin n → σ} {I : Nat → σ → Prop} {s : σ} (hinit : I 0 s)
    (hround : ∀ (i : Fin n) t, I i t → I (i.val + 1) (f t i)) {k : Nat} (hk : k ≤ n) :
    I k (roundsOf f k s) := by
  induction k with
  | zero => exact hinit
  | succ k ih =>
      rw [roundsOf_succ f hk]
      exact hround ⟨k, hk⟩ _ (ih (by omega))

/-- **Loop rule**: and after the loop. -/
theorem foldl_finRange {f : σ → Fin n → σ} {I : Nat → σ → Prop} {s : σ} (hinit : I 0 s)
    (hround : ∀ (i : Fin n) t, I i t → I (i.val + 1) (f t i)) : I n ((List.finRange n).foldl f s) :=
  roundsOf_length f s ▸ roundsOf_inv hinit hround le_rfl

/-- What no round changes. -/
theorem foldl_keeps {ι τ : Type*} {f : σ → ι → σ} {p : σ → τ} (h : ∀ t i, p (f t i) = p t)
    (is : List ι) (s : σ) : p (is.foldl f s) = p s := by
  induction is generalizing s with
  | nil => rfl
  | cons i is ih => rw [List.foldl_cons, ih, h]

/-- A loop whose rounds all succeed. -/
theorem foldlM_eq_some {ι : Type*} {f : σ → ι → Option σ} {g : σ → ι → σ}
    (h : ∀ t i, f t i = some (g t i)) (is : List ι) (s : σ) :
    is.foldlM f s = some (is.foldl g s) := by
  induction is generalizing s with
  | nil => rfl
  | cons i is ih =>
      rw [List.foldlM_cons, h]
      exact ih (g s i)

end Cmsc421
