import Mathlib.Order.Nat

/-!
# Cmsc421.Stretch

Stretches of consecutive cells that satisfy a predicate.

`Longest p b s n` singles out one stretch below `b`: none is longer, and of those as
long none starts earlier.  A search from left to right keeps it up to date with two
rules: a cell without the property adds nothing (`Longest.skip`), and a stretch that
begins after such a cell takes its place if it is longer (`Longest.extend`).
-/

namespace Cmsc421

variable {p : Nat → Prop} {b c s n m : Nat}

/-- The `n` cells from `s` on are below `b` and satisfy `p`. -/
structure Stretch (p : Nat → Prop) (b s n : Nat) : Prop where
  le : s + n ≤ b
  all : ∀ j, s ≤ j → j < s + n → p j

/-- The longest stretch below `b`; of several, the one that starts first. -/
structure Longest (p : Nat → Prop) (b s n : Nat) : Prop where
  stretch : Stretch p b s n
  longest : ∀ {s' n'}, Stretch p b s' n' → n' ≤ n
  leftmost : ∀ {s'}, Stretch p b s' n → s ≤ s'

theorem Stretch.mono (h : Stretch p b s n) (hb : b ≤ c) : Stretch p c s n :=
  ⟨h.le.trans hb, h.all⟩

/-- A stretch without its last cells. -/
theorem Stretch.take (h : Stretch p b s n) (hm : m ≤ n) : Stretch p b s m :=
  ⟨by have := h.le; omega, fun j hs hj => h.all j hs (by omega)⟩

/-- Only the cells below the bound count. -/
theorem Stretch.congr {q : Nat → Prop} (h : Stretch p b s n) (hpq : ∀ j < b, p j → q j) :
    Stretch q b s n :=
  ⟨h.le, fun j hs hj => hpq j (by have := h.le; omega) (h.all j hs hj)⟩

theorem Longest.congr {q : Nat → Prop} (h : Longest p b s n) (hpq : ∀ j < b, p j ↔ q j) :
    Longest q b s n :=
  ⟨h.stretch.congr fun j hj => (hpq j hj).mp,
    fun h' => h.longest (h'.congr fun j hj => (hpq j hj).mpr),
    fun h' => h.leftmost (h'.congr fun j hj => (hpq j hj).mpr)⟩

/-- There is only one. -/
theorem Longest.unique (h : Longest p b s n) {s' n' : Nat} (h' : Longest p b s' n') :
    s' = s ∧ n' = n := by
  obtain rfl : n' = n := Nat.le_antisymm (h.longest h'.stretch) (h'.longest h.stretch)
  exact ⟨Nat.le_antisymm (h'.leftmost h.stretch) (h.leftmost h'.stretch), rfl⟩

theorem longest_zero : Longest p 0 0 0 :=
  ⟨⟨Nat.le_refl 0, fun j _ hj => absurd hj (Nat.not_lt_zero j)⟩, fun h => by have := h.le; omega,
    fun _ => Nat.zero_le _⟩

/-- A cell without the property. -/
theorem Longest.skip (h : Longest p b s n) (hb : ¬ p b) : Longest p (b + 1) s n := by
  have hbelow : ∀ {s' n'}, 0 < n' → Stretch p (b + 1) s' n' → Stretch p b s' n' := by
    intro s' n' hpos h'
    refine ⟨?_, h'.all⟩
    by_contra hlt
    have := h'.le
    exact hb (h'.all b (by omega) (by omega))
  refine ⟨h.stretch.mono (Nat.le_succ b), fun {s' n'} h' => ?_, fun {s'} h' => ?_⟩
  · rcases Nat.eq_zero_or_pos n' with rfl | hpos
    · exact Nat.zero_le n
    · exact h.longest (hbelow hpos h')
  · rcases Nat.eq_zero_or_pos n with rfl | hpos
    · have hzero : Stretch p b 0 0 := ⟨Nat.zero_le b, fun j _ hj => absurd hj (by omega)⟩
      exact (h.leftmost hzero).trans (Nat.zero_le s')
    · exact h.leftmost (hbelow hpos h')

/-- A stretch that begins after a cell without the property, or at the very first. -/
theorem Longest.extend (h : Longest p b s n) (hb : b = 0 ∨ ¬ p (b - 1))
    (hm : Stretch p (b + m) b m) :
    (n < m → Longest p (b + m) b m) ∧ (m ≤ n → Longest p (b + m) s n) := by
  -- every other stretch ends before this one begins
  have hbefore : ∀ {s' n'}, s' < b → Stretch p (b + m) s' n' → Stretch p b s' n' := by
    intro s' n' hlt h'
    refine ⟨?_, h'.all⟩
    by_contra hle
    rcases hb with rfl | hb
    · omega
    · exact hb (h'.all (b - 1) (by omega) (by omega))
  have hinside : ∀ {s' n'}, b ≤ s' → Stretch p (b + m) s' n' → n' ≤ m := by
    intro s' n' hle h'
    have := h'.le
    omega
  constructor
  · intro hlt
    refine ⟨hm, fun {s' n'} h' => ?_, fun {s'} h' => ?_⟩
    · rcases Nat.lt_or_ge s' b with hs | hs
      · exact (h.longest (hbefore hs h')).trans hlt.le
      · exact hinside hs h'
    · by_contra hs
      have := h.longest (hbefore (by omega) h')
      omega
  · intro hle
    refine ⟨h.stretch.mono (Nat.le_add_right b m), fun {s' n'} h' => ?_, fun {s'} h' => ?_⟩
    · rcases Nat.lt_or_ge s' b with hs | hs
      · exact h.longest (hbefore hs h')
      · exact (hinside hs h').trans hle
    · rcases Nat.lt_or_ge s' b with hs | hs
      · exact h.leftmost (hbefore hs h')
      · have := h.stretch.le
        omega

end Cmsc421
