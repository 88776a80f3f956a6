import Cmsc421.Mutex

/-!
# Cmsc421.Guarded

A semaphore that starts at one, and the parties behind it.

`Guarded` relates the semaphore's value to who is past a wait and before its post.  A wait
that does not block and a post by a holder keep it, and it says all there is to say: no two
parties are behind the semaphore at once, and if a wait blocks, there is one that will post.
-/

namespace Cmsc421

/-- Nobody holds the semaphore and its value is one, or one party does and it is zero. -/
inductive Guarded {ι : Type*} (value : Nat) (holds : ι → Prop) : Prop
  | free (hvalue : value = 1) (hnobody : ∀ p, ¬ holds p)
  | taken (hvalue : value = 0) (p : ι) (hholds : ∀ q, holds q ↔ q = p)

namespace Guarded

variable {ι : Type*} {value : Nat} {holds holds' : ι → Prop} {p q : ι}

/-- **Mutual exclusion.** -/
theorem unique (h : Guarded value holds) (hp : holds p) (hq : holds q) : p = q := by
  cases h with
  | free hvalue hnobody => exact absurd hp (hnobody p)
  | taken hvalue r hholds => exact ((hholds p).mp hp).trans ((hholds q).mp hq).symm

/-- Where a wait blocks, a party holds the semaphore. -/
theorem exists_holder (h : Guarded value holds) (hzero : value = 0) : ∃ p, holds p := by
  cases h with
  | free hvalue hnobody => omega
  | taken hvalue p hholds => exact ⟨p, (hholds p).mpr rfl⟩

/-- Nothing happens to the semaphore. -/
theorem congr (h : Guarded value holds) (hsame : ∀ q, holds' q ↔ holds q) : Guarded value holds' := by
  obtain rfl : holds' = holds := funext fun q => propext (hsame q)
  exact h

/-- A party waits and is not blocked. -/
theorem wait (h : Guarded value holds) (hfree : value ≠ 0) (hnew : ∀ q, holds' q ↔ holds q ∨ q = p) :
    Guarded (value - 1) holds' := by
  cases h with
  | free hvalue hnobody =>
      exact .taken (by omega) p fun q => (hnew q).trans (or_iff_right (hnobody q))
  | taken hvalue => exact absurd hvalue hfree

/-- A holder posts. -/
theorem post (h : Guarded value holds) (hp : holds p) (hnew : ∀ q, holds' q ↔ holds q ∧ q ≠ p) :
    Guarded (afterPost value) holds' := by
  cases h with
  | free hvalue hnobody => exact absurd hp (hnobody p)
  | taken hvalue r hholds =>
      obtain rfl := (hholds p).mp hp
      refine .free (by rw [hvalue]; rfl) fun q hq => ?_
      obtain ⟨hq, hne⟩ := (hnew q).mp hq
      exact hne ((hholds q).mp hq)

end Guarded

end Cmsc421
