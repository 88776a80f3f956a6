import Cmsc421.Run

/-!
# Cmsc421.Supply

Machines that are handed items from outside, one after the other.

In a machine whatever the environment hands over is part of the label, so every item can
come at every step.  `Machine.supplied` is the machine for one sequence of items: it counts
how many have been taken, and a step that takes one has to carry the next.

The sequence can be seen where a machine logs what it takes, one entry for each item
(`Machine.Logs`).  Then the runs of the supplied machine are those runs of the machine itself
in whose log entry by entry goes with item by item (`Logs.run_of_supplied` and
`Logs.supplied_of_run`): what is known of the logs of all runs holds for each sequence.
-/

namespace Cmsc421

/-- A log is matched by the items: its entries go with them, one by one. -/
def Matched {α ι : Type*} (shows : α → ι → Prop) (items : Nat → ι) (log : List α) : Prop :=
  ∀ p ∈ log.zipIdx, shows p.1 (items p.2)

section matched

variable {α ι : Type*} {shows : α → ι → Prop} {items : Nat → ι}

instance [∀ a x, Decidable (shows a x)] (log : List α) : Decidable (Matched shows items log) :=
  inferInstanceAs (Decidable (∀ p ∈ log.zipIdx, shows p.1 (items p.2)))

theorem matched_nil : Matched shows items [] := nofun

/-- One more entry goes with the next item. -/
theorem matched_concat {log : List α} {a : α} :
    Matched shows items (log ++ [a]) ↔ Matched shows items log ∧ shows a (items log.length) := by
  simp [Matched, List.zipIdx_append, or_imp, forall_and]

end matched

namespace Machine

variable {σ ℓ ι α : Type*}

/-- The machine with a sequence of items.  `takes` says which steps take the next one, and
`carries` which labels carry an item. -/
def supplied (M : Machine σ ℓ) (takes : σ → ℓ → Bool) (carries : ℓ → ι → Bool) (items : Nat → ι) :
    Machine (σ × Nat) ℓ where
  init s := M.init s.1 ∧ s.2 = 0
  step s l :=
    if takes s.1 l then
      if carries l (items s.2) then (M.step s.1 l).map fun t => (t, s.2 + 1) else none
    else (M.step s.1 l).map fun t => (t, s.2)

variable {M : Machine σ ℓ} {takes : σ → ℓ → Bool} {carries : ℓ → ι → Bool} {items : Nat → ι}

/-- A step that takes an item, … -/
theorem supplied_step_take {s : σ} {k : Nat} {l : ℓ} (h : takes s l = true) (t : σ × Nat) :
    (M.supplied takes carries items).step (s, k) l = some t ↔
      carries l (items k) = true ∧ M.step s l = some t.1 ∧ t.2 = k + 1 := by
  obtain ⟨u, m⟩ := t
  by_cases hc : carries l (items k) = true
  · simp [supplied, h, hc, eq_comm (a := k + 1)]
  · simp [supplied, h, hc]

/-- … and one that does not. -/
theorem supplied_step_quiet {s : σ} {k : Nat} {l : ℓ} (h : takes s l = false) (t : σ × Nat) :
    (M.supplied takes carries items).step (s, k) l = some t ↔ M.step s l = some t.1 ∧ t.2 = k := by
  obtain ⟨u, m⟩ := t
  simp [supplied, h, eq_comm (a := k)]

/-- The machine logs what it takes, in the steps that meet `P`: the entry goes with the items
that could have been taken, with another label, to the same end. -/
structure Logs (M : Machine σ ℓ) (P : ℓ → Prop) (takes : σ → ℓ → Bool) (carries : ℓ → ι → Bool)
    (log : σ → List α) (shows : α → ι → Prop) : Prop where
  init : ∀ s, M.init s → log s = []
  quiet : ∀ s l t, M.step s l = some t → takes s l = false → log t = log s
  takes : ∀ s l t, P l → M.step s l = some t → takes s l = true → ∃ a, log t = log s ++ [a] ∧
    (∀ x, carries l x = true → shows a x) ∧
    ∀ x, shows a x → ∃ l', P l' ∧ takes s l' = true ∧ carries l' x = true ∧ M.step s l' = some t

variable {P : ℓ → Prop} {log : σ → List α} {shows : α → ι → Prop}

/-- A run with these items is a run, and its log shows them. -/
theorem Logs.run_of_supplied (h : Logs M P takes carries log shows) {tr : List ((σ × Nat) × ℓ)}
    {s : σ × Nat} (hrun : (M.supplied takes carries items).Run tr s) (hP : ∀ p ∈ tr, P p.2) :
    (∃ tr', M.Run tr' s.1 ∧ ∀ p ∈ tr', P p.2) ∧ s.2 = (log s.1).length ∧
      Matched shows items (log s.1) := by
  refine Run.invariant_of_steps (P := fun _ l => P l)
    (I := fun _ s => (∃ tr', M.Run tr' s.1 ∧ ∀ p ∈ tr', P p.2) ∧ s.2 = (log s.1).length ∧
      Matched shows items (log s.1)) ?_ ?_ hrun hP
  · rintro ⟨s, k⟩ ⟨hinit, rfl⟩
    refine ⟨⟨[], .start hinit, nofun⟩, ?_, ?_⟩ <;> rw [h.init s hinit]
    · rfl
    · exact matched_nil
  · rintro - ⟨s, k⟩ l ⟨t, m⟩ ⟨⟨tr', hrun, hP⟩, hk, hmatched⟩ hl hs
    obtain rfl : k = (log s).length := hk
    have hnext : M.step s l = some t →
        ∃ tr', M.Run tr' t ∧ ∀ p ∈ tr', P p.2 := fun hstep =>
      ⟨_, hrun.next hstep, List.forall_mem_append.mpr ⟨hP, List.forall_mem_singleton.mpr hl⟩⟩
    cases htakes : takes s l with
    | true =>
        obtain ⟨hcarries, hstep, rfl⟩ := (supplied_step_take htakes _).mp hs
        obtain ⟨a, hlog, hshows, -⟩ := h.takes s l t hl hstep htakes
        refine ⟨hnext hstep, by simp [hlog], ?_⟩
        rw [hlog, matched_concat]
        exact ⟨hmatched, hshows _ hcarries⟩
    | false =>
        obtain ⟨hstep, rfl⟩ := (supplied_step_quiet htakes _).mp hs
        have hlog := h.quiet s l t hstep htakes
        exact ⟨hnext hstep, by rw [hlog], by rwa [hlog]⟩

/-- A run whose log shows the items can be had with them. -/
theorem Logs.supplied_of_run (h : Logs M P takes carries log shows) {tr : List (σ × ℓ)} {s : σ}
    (hrun : M.Run tr s) (hP : ∀ p ∈ tr, P p.2) (hmatched : Matched shows items (log s)) :
    ∃ tr', (M.supplied takes carries items).Run tr' (s, (log s).length) ∧ ∀ p ∈ tr', P p.2 := by
  revert hmatched
  refine Run.invariant_of_steps (P := fun _ l => P l)
    (I := fun _ s => Matched shows items (log s) →
      ∃ tr', (M.supplied takes carries items).Run tr' (s, (log s).length) ∧ ∀ p ∈ tr', P p.2) ?_ ?_ hrun hP
  · intro s hinit _
    exact ⟨[], .start ⟨hinit, by simp [h.init s hinit]⟩, nofun⟩
  · intro _ s l t ih hl hs hmatched
    -- with the label that carries the item
    have hnext : ∀ {l' k}, Matched shows items (log s) → P l' →
        (M.supplied takes carries items).step (s, (log s).length) l' = some (t, k) →
        ∃ tr', (M.supplied takes carries items).Run tr' (t, k) ∧ ∀ p ∈ tr', P p.2 := by
      intro l' k hbefore hl' hstep
      obtain ⟨tr', hrun', hP'⟩ := ih hbefore
      exact ⟨_, hrun'.next hstep, List.forall_mem_append.mpr ⟨hP', List.forall_mem_singleton.mpr hl'⟩⟩
    cases htakes : takes s l with
    | true =>
        obtain ⟨a, hlog, -, hlabel⟩ := h.takes s l t hl hs htakes
        rw [hlog, matched_concat] at hmatched
        obtain ⟨l', hl', htakes', hcarries, hstep⟩ := hlabel _ hmatched.2
        refine hnext hmatched.1 hl' ((supplied_step_take htakes' _).mpr ⟨hcarries, hstep, ?_⟩)
        simp [hlog]
    | false =>
        have hlog := h.quiet s l t hs htakes
        rw [hlog] at hmatched
        exact hnext hmatched hl ((supplied_step_quiet htakes _).mpr ⟨hs, by rw [hlog]⟩)

end Machine

end Cmsc421
