import Mathlib.Data.List.Basic

/-!
# Cmsc421.Run

Machines and their runs, for any state and any label type.

A machine is a set of initial states and a partial step function.  All
nondeterminism — which party moves, what the environment hands over — sits in
the label, so a machine is executable: `exec` replays a list of labels, and a
label that is not enabled in a state makes the replay fail.

A run is recorded as its *trace*, the list of the (state before, label) pairs
in order.  A condition on every step of a run is then a plain quantifier over
the trace, and ghost history is a function of it:

* `Run.invariant` / `Run.invariant_of_steps` — the induction, once and for all;
* `Run.stays_iff_meets` — when a property of states is kept by a step exactly
  under a condition on it, a run stays inside the property exactly when all
  its steps meet the condition;
* `Run.steps_iff_meets` — the same for something that the steps themselves do.
-/

namespace Cmsc421

/-- A machine over states `σ` whose steps carry labels `ℓ`. -/
structure Machine (σ : Type*) (ℓ : Type*) where
  init : σ → Prop
  step : σ → ℓ → Option σ

namespace Machine

variable {σ ℓ ε : Type*} (M : Machine σ ℓ)

/-- Replay a list of labels from a state. -/
def exec : σ → List ℓ → Option σ
  | s, [] => some s
  | s, l :: ls => (M.step s l).bind fun t => exec t ls

/-- The trace a replay leaves behind. -/
def trace : σ → List ℓ → List (σ × ℓ)
  | _, [] => []
  | s, l :: ls =>
      (s, l) :: match M.step s l with
        | some t => trace t ls
        | none => []

/-- `M.Run tr s`: a run from some initial state with trace `tr` ends in `s`. -/
inductive Run : List (σ × ℓ) → σ → Prop
  | start {s : σ} (h : M.init s) : Run [] s
  | next {tr : List (σ × ℓ)} {s t : σ} {l : ℓ} (h : Run tr s) (hs : M.step s l = some t) :
      Run (tr ++ [(s, l)]) t

variable {M}

/-! ## Induction over runs -/

/-- **Invariant rule with history**: what holds initially and is carried over
each step that meets `P` holds at the end of every run whose steps all meet
`P`.  The invariant may speak about the trace so far. -/
theorem Run.invariant_of_steps {P : σ → ℓ → Prop} {I : List (σ × ℓ) → σ → Prop}
    (hinit : ∀ s, M.init s → I [] s)
    (hstep : ∀ tr s l t, I tr s → P s l → M.step s l = some t → I (tr ++ [(s, l)]) t)
    {tr : List (σ × ℓ)} {s : σ} (h : M.Run tr s) (hP : ∀ p ∈ tr, P p.1 p.2) : I tr s := by
  induction h with
  | start hi => exact hinit _ hi
  | next hr hs ih =>
      refine hstep _ _ _ _ (ih fun p hp => hP p ?_) (hP (_, _) ?_) hs
      · exact List.mem_append_left _ hp
      · exact List.mem_append_right _ (List.mem_singleton_self _)

/-- **Invariant rule**, for every run. -/
theorem Run.invariant {I : List (σ × ℓ) → σ → Prop}
    (hinit : ∀ s, M.init s → I [] s)
    (hstep : ∀ tr s l t, I tr s → M.step s l = some t → I (tr ++ [(s, l)]) t)
    {tr : List (σ × ℓ)} {s : σ} (h : M.Run tr s) : I tr s :=
  Run.invariant_of_steps (P := fun _ _ => True) hinit
    (fun tr s l t hI _ hs => hstep tr s l t hI hs) h fun _ _ => trivial

/-- Every entry of a trace was itself reached by a run, along a prefix of the
trace, and its step was taken. -/
theorem Run.split {tr : List (σ × ℓ)} {s : σ} (h : M.Run tr s) {p : σ × ℓ} (hp : p ∈ tr) :
    ∃ tr₁ tr₂ t, tr = tr₁ ++ p :: tr₂ ∧ M.Run tr₁ p.1 ∧ M.step p.1 p.2 = some t := by
  induction h with
  | start => simp at hp
  | @next tr s t l hr hs ih =>
      rcases List.mem_append.mp hp with hp | hp
      · obtain ⟨tr₁, tr₂, u, rfl, hrun, hu⟩ := ih hp
        exact ⟨tr₁, tr₂ ++ [(s, l)], u, by simp, hrun, hu⟩
      · obtain rfl := List.mem_singleton.mp hp
        exact ⟨tr, [], t, rfl, hr, hs⟩

/-- **Exactness rule**: suppose that, from the states of `I` that satisfy `Q`,
a step lands in `Q` exactly when it meets `P`, and that `I` survives the steps
that meet `P`.  Then a run stays inside `Q` exactly when all its steps meet
`P`.  `H` is what is assumed of every step of the run. -/
theorem Run.stays_iff_meets {H P : σ → ℓ → Prop} {Q : σ → Prop} {I : List (σ × ℓ) → σ → Prop}
    (hinit : ∀ s, M.init s → I [] s ∧ Q s)
    (hexact : ∀ tr s l t, I tr s → Q s → H s l → M.step s l = some t → (Q t ↔ P s l))
    (hstep : ∀ tr s l t, I tr s → Q s → H s l → P s l → M.step s l = some t →
      I (tr ++ [(s, l)]) t)
    {tr : List (σ × ℓ)} {s : σ} (h : M.Run tr s) (hH : ∀ p ∈ tr, H p.1 p.2) :
    ((∀ p ∈ tr, Q p.1) ∧ Q s) ↔ ∀ p ∈ tr, P p.1 p.2 := by
  suffices hI : ((∀ p ∈ tr, P p.1 p.2) → I tr s) ∧
      (((∀ p ∈ tr, Q p.1) ∧ Q s) ↔ ∀ p ∈ tr, P p.1 p.2) from hI.2
  induction h with
  | start hi => simp [hinit _ hi]
  | @next tr s t l hr hs ih =>
      simp only [List.mem_append, List.mem_singleton, or_imp, forall_and, forall_eq] at hH ⊢
      obtain ⟨ihI, ihQ⟩ := ih hH.1
      constructor
      · rintro ⟨hP, hl⟩
        exact hstep _ _ _ _ (ihI hP) (ihQ.mpr hP).2 hH.2 hl hs
      · constructor
        · rintro ⟨⟨hQ, hQs⟩, hQt⟩
          have hP := ihQ.mp ⟨hQ, hQs⟩
          exact ⟨hP, (hexact _ _ _ _ (ihI hP) hQs hH.2 hs).mp hQt⟩
        · rintro ⟨hP, hl⟩
          have hQ := ihQ.mpr hP
          exact ⟨hQ, (hexact _ _ _ _ (ihI hP) hQ.2 hH.2 hs).mpr hl⟩

/-- **Exactness rule for steps**: suppose that, from the states of `I`, a step does
`R` exactly when it meets `P`, and that `I` survives the steps that meet `P`.  Then
all steps of a run do `R` exactly when all of them meet `P`. -/
theorem Run.steps_iff_meets {P R : σ → ℓ → Prop} {I : List (σ × ℓ) → σ → Prop}
    (hinit : ∀ s, M.init s → I [] s)
    (hexact : ∀ tr s l t, I tr s → M.step s l = some t → (R s l ↔ P s l))
    (hstep : ∀ tr s l t, I tr s → P s l → M.step s l = some t → I (tr ++ [(s, l)]) t)
    {tr : List (σ × ℓ)} {s : σ} (h : M.Run tr s) :
    (∀ p ∈ tr, R p.1 p.2) ↔ ∀ p ∈ tr, P p.1 p.2 := by
  suffices hI : ((∀ p ∈ tr, P p.1 p.2) → I tr s) ∧
      ((∀ p ∈ tr, R p.1 p.2) ↔ ∀ p ∈ tr, P p.1 p.2) from hI.2
  induction h with
  | start hi => simp [hinit _ hi]
  | @next tr s t l hr hs ih =>
      simp only [List.mem_append, List.mem_singleton, or_imp, forall_and, forall_eq]
      obtain ⟨ihI, ihR⟩ := ih
      constructor
      · rintro ⟨hP, hl⟩
        exact hstep _ _ _ _ (ihI hP) hl hs
      · constructor
        · rintro ⟨hR, hl⟩
          have hP := ihR.mp hR
          exact ⟨hP, (hexact _ _ _ _ (ihI hP) hs).mp hl⟩
        · rintro ⟨hP, hl⟩
          exact ⟨ihR.mpr hP, (hexact _ _ _ _ (ihI hP) hs).mpr hl⟩

/-! ## Runs from replays -/

theorem exec_append (s : σ) (ls ls' : List ℓ) :
    M.exec s (ls ++ ls') = (M.exec s ls).bind fun t => M.exec t ls' := by
  induction ls generalizing s with
  | nil => rfl
  | cons l ls ih => simp [exec, ih, Option.bind_assoc]

/-- Replaying `ls` after the run `tr` is a run. -/
theorem Run.replay {tr : List (σ × ℓ)} {s t : σ} {ls : List ℓ} (h : M.Run tr s)
    (he : M.exec s ls = some t) : M.Run (tr ++ M.trace s ls) t := by
  induction ls generalizing tr s with
  | nil =>
      obtain rfl : s = t := by simpa [exec] using he
      simpa [trace] using h
  | cons l ls ih =>
      obtain ⟨u, hu, hut⟩ := Option.bind_eq_some_iff.mp he
      have hrun := ih (h.next hu) hut
      simpa [trace, hu, List.append_assoc] using hrun

/-- A replay of all labels from an initial state gives a run. -/
theorem exists_run {s : σ} (hs : M.init s) (ls : List ℓ) (h : (M.exec s ls).isSome = true) :
    ∃ t, M.Run (M.trace s ls) t := by
  obtain ⟨t, ht⟩ := Option.isSome_iff_exists.mp h
  exact ⟨t, by simpa using (Run.start hs).replay ht⟩

/-- A replay from an initial state that satisfies a test gives a run to a
state that satisfies it. -/
theorem exists_run_of_exec {s : σ} (hs : M.init s) (ls : List ℓ) {b : σ → Bool}
    (h : (M.exec s ls).any b = true) : ∃ t, M.Run (M.trace s ls) t ∧ b t = true := by
  cases ht : M.exec s ls with
  | none => simp [ht] at h
  | some t => exact ⟨t, by simpa using (Run.start hs).replay ht, by simpa [ht] using h⟩

end Machine

end Cmsc421
