import Mathlib.Logic.Function.Basic

/-!
# Cmsc421.Layout

Blocks of consecutive cells among `N` cells.

A `Layout` is a set of pairwise disjoint, non-empty blocks inside `0, …, N - 1`
— the invariant is part of the type.  Blocks are put down on free cells
(`insert`), taken up (`erase`) and cut at the end (`shrink`); the `covers_*`
lemmas say which cells each operation occupies or frees, and that is all a
client needs to know about it.
-/

namespace Cmsc421

/-- Disjoint blocks among `N` cells: `size i = some n` is a block of the `n`
cells from `i` on. -/
structure Layout (N : Nat) where
  size : Nat → Option Nat
  pos : ∀ {i n}, size i = some n → 0 < n
  bound : ∀ {i n}, size i = some n → i + n ≤ N
  apart : ∀ {i j n m}, size i = some n → size j = some m → i < j → i + n ≤ j

namespace Layout

variable {N : Nat} (A : Layout N)

/-- Cell `j` belongs to some block. -/
def Covers (j : Nat) : Prop := ∃ i n, A.size i = some n ∧ i ≤ j ∧ j < i + n

variable {A}

theorem covers_start {i n : Nat} (h : A.size i = some n) : A.Covers i :=
  ⟨i, n, h, Nat.le_refl i, Nat.lt_add_of_pos_right (A.pos h)⟩

theorem lt_of_covers {j : Nat} (h : A.Covers j) : j < N := by
  obtain ⟨i, n, hi, -, hj⟩ := h
  exact Nat.lt_of_lt_of_le hj (A.bound hi)

/-- A cell belongs to one block only. -/
theorem start_unique {i k n m j : Nat} (hi : A.size i = some n) (hk : A.size k = some m)
    (hij : i ≤ j ∧ j < i + n) (hkj : k ≤ j ∧ j < k + m) : i = k := by
  rcases Nat.lt_trichotomy i k with h | h | h
  · have := A.apart hi hk h
    omega
  · exact h
  · have := A.apart hk hi h
    omega

/-- Two different blocks share no cell. -/
theorem disjoint {i k n m : Nat} (hi : A.size i = some n) (hk : A.size k = some m) (h : i ≠ k)
    (j : Nat) : ¬ ((i ≤ j ∧ j < i + n) ∧ (k ≤ j ∧ j < k + m)) :=
  fun hj => h (start_unique hi hk hj.1 hj.2)

/-! ## the empty layout -/

/-- No block at all. -/
def empty (N : Nat) : Layout N where
  size _ := none
  pos h := by simp at h
  bound h := by simp at h
  apart h := by simp at h

@[simp] theorem size_empty (i : Nat) : (empty N).size i = none := rfl

theorem not_covers_empty (j : Nat) : ¬ (empty N).Covers j := fun ⟨_, _, h, _⟩ => by simp at h

/-! ## putting a block down -/

/-- Put a block on cells that are all free. -/
def insert (A : Layout N) (i n : Nat) (hn : 0 < n) (hb : i + n ≤ N)
    (hfree : ∀ j, i ≤ j → j < i + n → ¬ A.Covers j) : Layout N where
  size := Function.update A.size i (some n)
  pos {k m} h := by
    by_cases hk : k = i
    · subst hk
      obtain rfl : n = m := by simpa using h
      exact hn
    · exact A.pos (by simpa [hk] using h)
  bound {k m} h := by
    by_cases hk : k = i
    · subst hk
      obtain rfl : n = m := by simpa using h
      exact hb
    · exact A.bound (by simpa [hk] using h)
  apart {k l m p} hkm hlp hkl := by
    by_cases hk : k = i
    · subst hk
      obtain rfl : n = m := by simpa using hkm
      have hl : A.size l = some p := by simpa [show l ≠ k by omega] using hlp
      by_contra hlt
      exact hfree l (by omega) (by omega) (covers_start hl)
    · have hk' : A.size k = some m := by simpa [hk] using hkm
      by_cases hl : l = i
      · subst hl
        by_contra hlt
        exact hfree l (Nat.le_refl l) (by omega) ⟨k, m, hk', by omega, by omega⟩
      · exact A.apart hk' (by simpa [hl] using hlp) hkl

section insert

variable {i n : Nat} {hn : 0 < n} {hb : i + n ≤ N}
  {hfree : ∀ j, i ≤ j → j < i + n → ¬ A.Covers j}

@[simp] theorem size_insert_self : (A.insert i n hn hb hfree).size i = some n := by
  simp [insert]

theorem size_insert_ne {k : Nat} (h : k ≠ i) : (A.insert i n hn hb hfree).size k = A.size k := by
  simp [insert, h]

theorem covers_insert {j : Nat} :
    (A.insert i n hn hb hfree).Covers j ↔ A.Covers j ∨ (i ≤ j ∧ j < i + n) := by
  constructor
  · rintro ⟨k, m, hk, hj⟩
    by_cases hki : k = i
    · subst hki
      obtain rfl : n = m := by simpa using hk
      exact .inr hj
    · exact .inl ⟨k, m, by rwa [size_insert_ne hki] at hk, hj⟩
  · rintro (⟨k, m, hk, hj⟩ | hj)
    · have hki : k ≠ i := by
        rintro rfl
        exact hfree k (Nat.le_refl k) (by omega) (covers_start hk)
      exact ⟨k, m, by rwa [size_insert_ne hki], hj⟩
    · exact ⟨i, n, size_insert_self, hj⟩

end insert

/-! ## taking a block up -/

/-- Take up the block at `i`, if there is one. -/
def erase (A : Layout N) (i : Nat) : Layout N where
  size := Function.update A.size i none
  pos {k m} h := by
    by_cases hk : k = i
    · subst hk; simp at h
    · exact A.pos (by simpa [hk] using h)
  bound {k m} h := by
    by_cases hk : k = i
    · subst hk; simp at h
    · exact A.bound (by simpa [hk] using h)
  apart {k l m p} hkm hlp hkl := by
    by_cases hk : k = i
    · subst hk; simp at hkm
    · by_cases hl : l = i
      · subst hl; simp at hlp
      · exact A.apart (by simpa [hk] using hkm) (by simpa [hl] using hlp) hkl

@[simp] theorem size_erase_self (i : Nat) : (A.erase i).size i = none := by simp [erase]

theorem size_erase_ne {i k : Nat} (h : k ≠ i) : (A.erase i).size k = A.size k := by
  simp [erase, h]

theorem covers_erase {i n j : Nat} (h : A.size i = some n) :
    (A.erase i).Covers j ↔ A.Covers j ∧ ¬ (i ≤ j ∧ j < i + n) := by
  constructor
  · rintro ⟨k, m, hk, hj⟩
    have hki : k ≠ i := by rintro rfl; simp at hk
    rw [size_erase_ne hki] at hk
    exact ⟨⟨k, m, hk, hj⟩, fun hi => hki (start_unique hk h hj hi)⟩
  · rintro ⟨⟨k, m, hk, hj⟩, hi⟩
    have hki : k ≠ i := by
      rintro rfl
      obtain rfl : m = n := Option.some.inj (hk.symm.trans h)
      exact hi hj
    exact ⟨k, m, by rwa [size_erase_ne hki], hj⟩

/-! ## cutting a block -/

/-- Cut the block at `i` down to its first `n` cells. -/
def shrink (A : Layout N) (i n : Nat) {k : Nat} (h : A.size i = some k) (hn : 0 < n) (hk : n ≤ k) :
    Layout N :=
  (A.erase i).insert i n hn (by have := A.bound h; omega) fun j h₁ h₂ hc => by
    have := (covers_erase h).mp hc
    omega

section shrink

variable {i n k : Nat} {h : A.size i = some k} {hn : 0 < n} {hk : n ≤ k}

@[simp] theorem size_shrink_self : (A.shrink i n h hn hk).size i = some n := size_insert_self

theorem size_shrink_ne {j : Nat} (hj : j ≠ i) : (A.shrink i n h hn hk).size j = A.size j := by
  rw [shrink, size_insert_ne hj, size_erase_ne hj]

theorem covers_shrink {j : Nat} :
    (A.shrink i n h hn hk).Covers j ↔ A.Covers j ∧ ¬ (i + n ≤ j ∧ j < i + k) := by
  rw [shrink, covers_insert, covers_erase h]
  constructor
  · rintro (⟨hc, hj⟩ | hj)
    · exact ⟨hc, by omega⟩
    · exact ⟨⟨i, k, h, by omega⟩, by omega⟩
  · rintro ⟨hc, hj⟩
    by_cases hij : i ≤ j ∧ j < i + k
    · exact .inr (by omega)
    · exact .inl ⟨hc, hij⟩

end shrink

end Layout

end Cmsc421
