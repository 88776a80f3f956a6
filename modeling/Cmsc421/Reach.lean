import Cmsc421.Run
import Mathlib.Logic.Relation
import Mathlib.Algebra.BigOperators.Group.Finset.Piecewise
import Mathlib.Algebra.BigOperators.Group.List.Basic
import Mathlib.Algebra.Ring.Nat

/-!
# Cmsc421.Reach

What a machine can still do from a state, and how long it can go on.

`Machine.Reach P s t` says that steps which meet `P` lead from `s` to `t`; it is for
schedules that are put together piece by piece, and `Run.extend` makes a run of one.

The other rules count steps.  Each step has a cost and may be paid from a potential of
the state or from a credit of its own; then the costs of a run stay below the initial
potential and the credits (`Run.cost_le`).  And where a potential can be brought down
from every reachable state but the last ones, a last one can be reached
(`Run.exists_reach`).  The potential is often a sum over parties, of which one moves
(`sum_update`).
-/

namespace Cmsc421.Machine

variable {σ ℓ : Type*} {M : Machine σ ℓ}

/-! ## continuations -/

variable (M) in
/-- Steps that meet `P` lead from one state to another. -/
def Reach (P : ℓ → Prop) : σ → σ → Prop :=
  Relation.ReflTransGen fun s t => ∃ l, P l ∧ M.step s l = some t

theorem Reach.refl {P : ℓ → Prop} (s : σ) : M.Reach P s s := Relation.ReflTransGen.refl

theorem Reach.trans {P : ℓ → Prop} {s t u : σ} (h : M.Reach P s t) (h' : M.Reach P t u) :
    M.Reach P s u := Relation.ReflTransGen.trans h h'

/-- One step in front. -/
theorem Reach.head {P : ℓ → Prop} {s t u : σ} {l : ℓ} (hl : P l) (hs : M.step s l = some t)
    (h : M.Reach P t u) : M.Reach P s u := Relation.ReflTransGen.head ⟨l, hl, hs⟩ h

/-- A single step. -/
theorem Reach.single {P : ℓ → Prop} {s t : σ} {l : ℓ} (hl : P l) (hs : M.step s l = some t) :
    M.Reach P s t := .head hl hs (.refl t)

/-- Who gets somewhere takes a step. -/
theorem Reach.exists_step {P : ℓ → Prop} {s t : σ} (h : M.Reach P s t) (hne : s ≠ t) :
    ∃ l u, P l ∧ M.step s l = some u := by
  rcases Relation.ReflTransGen.cases_head h with rfl | ⟨u, ⟨l, hl, hs⟩, -⟩
  · exact absurd rfl hne
  · exact ⟨l, u, hl, hs⟩

/-- A replay. -/
theorem Reach.of_exec {s t : σ} {ls : List ℓ} (h : M.exec s ls = some t) :
    M.Reach (fun _ => True) s t := by
  induction ls generalizing s with
  | nil =>
      obtain rfl := Option.some.inj h
      exact .refl s
  | cons l ls ih =>
      obtain ⟨u, hu, hut⟩ := Option.bind_eq_some_iff.mp h
      exact .head trivial hu (ih hut)

theorem Reach.exists_of_exec {Q : σ → Prop} {s : σ} (ls : List ℓ) (h : ∃ t, M.exec s ls = some t ∧ Q t) :
    ∃ t, M.Reach (fun _ => True) s t ∧ Q t := by
  obtain ⟨t, ht, hQ⟩ := h
  exact ⟨t, .of_exec ht, hQ⟩

/-- What every step keeps. -/
theorem Reach.invariant {P : ℓ → Prop} {J : σ → Prop} (hJ : ∀ s l t, J s → M.step s l = some t → J t)
    {s t : σ} (h : M.Reach P s t) (hs : J s) : J t := by
  induction h with
  | refl => exact hs
  | @tail u v _ hstep ih =>
      obtain ⟨l, -, hl⟩ := hstep
      exact hJ u l v ih hl

/-- What a step does not undo, backwards. -/
theorem Reach.of_step {P : ℓ → Prop} {J Q : σ → Prop}
    (hJ : ∀ s l t, J s → M.step s l = some t → J t)
    (hQ : ∀ s l t, J s → M.step s l = some t → Q t → Q s) {s t : σ} (h : M.Reach P s t) (hs : J s)
    (ht : Q t) : Q s := by
  induction h using Relation.ReflTransGen.head_induction_on with
  | refl => exact ht
  | @head u v huv _ ih =>
      obtain ⟨l, -, hstep⟩ := huv
      exact hQ u l v hs hstep (ih (hJ u l v hs hstep))

/-- Stage by stage. -/
theorem Reach.iterate {P : ℓ → Prop} {Q : Nat → σ → Prop} {n : Nat}
    (hstep : ∀ k < n, ∀ s, Q k s → ∃ t, M.Reach P s t ∧ Q (k + 1) t) {s : σ} (h : Q 0 s) :
    ∃ t, M.Reach P s t ∧ Q n t := by
  suffices hI : ∀ k ≤ n, ∃ t, M.Reach P s t ∧ Q k t from hI n (Nat.le_refl n)
  intro k hk
  induction k with
  | zero => exact ⟨s, .refl s, h⟩
  | succ k ih =>
      obtain ⟨t, ht, hQ⟩ := ih (Nat.le_of_succ_le hk)
      obtain ⟨u, hu, hQ'⟩ := hstep k hk t hQ
      exact ⟨u, ht.trans hu, hQ'⟩

/-- A run goes on along a continuation. -/
theorem Run.extend {P : ℓ → Prop} {tr : List (σ × ℓ)} {s t : σ} (h : M.Run tr s)
    (hr : M.Reach P s t) : ∃ tr', M.Run (tr ++ tr') t ∧ ∀ p ∈ tr', P p.2 := by
  induction hr with
  | refl => exact ⟨[], by simpa using h, nofun⟩
  | @tail u v _ hstep ih =>
      obtain ⟨tr', hrun, hP⟩ := ih
      obtain ⟨l, hl, hs⟩ := hstep
      refine ⟨tr' ++ [(u, l)], by simpa using hrun.next hs, ?_⟩
      exact List.forall_mem_append.mpr ⟨hP, List.forall_mem_singleton.mpr hl⟩

/-- A continuation of a run whose steps meet a condition, if its own steps do. -/
theorem Run.extend_of_steps {P : ℓ → Prop} {tr : List (σ × ℓ)} {s t : σ} (h : M.Run tr s)
    (hP : ∀ p ∈ tr, P p.2) (hr : M.Reach P s t) : ∃ tr', M.Run tr' t ∧ ∀ p ∈ tr', P p.2 := by
  obtain ⟨tr', hrun, htr'⟩ := h.extend hr
  exact ⟨tr ++ tr', hrun, List.forall_mem_append.mpr ⟨hP, htr'⟩⟩

/-! ## counting steps -/

/-- One party moves on. -/
theorem sum_update {ι α : Type*} [Fintype ι] [DecidableEq ι] (f : α → Nat) (g : ι → α) (i : ι)
    (x : α) : (∑ j, f (Function.update g i x j)) + f (g i) = (∑ j, f (g j)) + f x := by
  have hupdate : (fun j => f (Function.update g i x j)) = Function.update (fun j => f (g j)) i (f x) := by
    funext j
    by_cases hj : j = i <;> simp [hj]
  have hsplit := Finset.sum_eq_add_sum_sdiff_singleton (s := Finset.univ) i (fun j => f (g j)) (by simp)
  rw [hupdate, Finset.sum_update_of_mem (Finset.mem_univ i), hsplit]
  omega

/-- The sum of something over the steps of a trace. -/
def total (f : σ → ℓ → Nat) (tr : List (σ × ℓ)) : Nat := (tr.map fun p => f p.1 p.2).sum

@[simp] theorem total_nil (f : σ → ℓ → Nat) : total f [] = 0 := rfl

@[simp] theorem total_concat (f : σ → ℓ → Nat) (tr : List (σ × ℓ)) (s : σ) (l : ℓ) :
    total f (tr ++ [(s, l)]) = total f tr + f s l := by simp [total]

/-- **The potential pays.**  `J` is what is known of the reachable states. -/
theorem Run.cost_le {J : σ → Prop} {B : Nat} (potential : σ → Nat) (cost credit : σ → ℓ → Nat)
    (hinit : ∀ s, M.init s → potential s ≤ B) (hJ : ∀ tr s, M.Run tr s → J s)
    (hstep : ∀ s l t, J s → M.step s l = some t → potential t + cost s l ≤ potential s + credit s l)
    {tr : List (σ × ℓ)} {s : σ} (h : M.Run tr s) :
    total cost tr + potential s ≤ B + total credit tr := by
  induction h with
  | start hi => simpa using hinit _ hi
  | @next tr s t l hr hs ih =>
      have hpay := hstep s l t (hJ tr s hr) hs
      rw [total_concat, total_concat]
      omega

/-- **A last state can be reached** from every reachable one where `R` holds. -/
theorem Run.exists_reach {P : ℓ → Prop} {R Q : σ → Prop} (potential : σ → Nat)
    (hstep : ∀ tr s, M.Run tr s → R s → ¬ Q s →
      ∃ t, M.Reach P s t ∧ R t ∧ potential t < potential s)
    {tr : List (σ × ℓ)} {s : σ} (h : M.Run tr s) (hR : R s) : ∃ t, M.Reach P s t ∧ Q t := by
  induction hn : potential s using Nat.strongRecOn generalizing tr s with
  | _ n ih =>
      by_cases hQ : Q s
      · exact ⟨s, .refl s, hQ⟩
      · obtain ⟨t, ht, hRt, hlt⟩ := hstep tr s h hR hQ
        obtain ⟨tr', hrun, -⟩ := h.extend ht
        obtain ⟨u, hu, hQu⟩ := ih _ (hn ▸ hlt) hrun hRt rfl
        exact ⟨u, ht.trans hu, hQu⟩

end Cmsc421.Machine
