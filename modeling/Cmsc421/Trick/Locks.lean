import Cmsc421.Trick.Simulation

/-!
# Cmsc421.Trick.Locks

Whether the house locks outlive their users.

`main` sets `end_simulation`, destroys the locks and only then joins the groups; it
never joins the neighborhood thread.  A thread tests `end_simulation` once, at the top
of its loop, and then goes all the way to a house and back.  So a lock that is
destroyed is not used any more if no thread is past its test and may still come to it
(`Unneeded`): whoever is at the test, or comes back to it, leaves its loop.  Nothing in
the program waits for this, and `lock_used_after_destroy` is what happens otherwise.
-/

namespace Cmsc421.Trick

/-! ## who uses a lock -/

/-- The lock that a group is about to wait on or to post. -/
def GroupPc.used : GroupPc → Option (Fin numOfHouses)
  | .waiting j | .leaving j => some j
  | .unborn | .looping | .searching _ _ | .travelling _ _ | .visiting _ | .done => none

/-- The lock that the neighborhood thread is about to wait on or to post. -/
def NeighborhoodPc.used : NeighborhoodPc → Option (Fin numOfHouses)
  | .waiting house _ => houseIndex house
  | .leaving j => some j
  | .unborn | .looping | .reading | .refilling _ _ | .done => none

/-- The lock that a step waits on or posts. -/
def usedLock (s : State) : Label → Option (Fin numOfHouses)
  | .main => none
  | .group i => (s.group i).used
  | .neighborhood => s.neighborhood.used

/-- The step does not use a destroyed lock. -/
def UsesLive (s : State) (l : Label) : Prop :=
  ∀ j ∈ usedLock s l, (s.locks j).destroyed = false

instance (s : State) (l : Label) : Decidable (UsesLive s l) :=
  inferInstanceAs (Decidable (∀ j ∈ usedLock s l, _))

/-- The group is past its test of `end_simulation` and may still use the lock. -/
def GroupPc.MayUse (j : Fin numOfHouses) : GroupPc → Prop
  | .searching _ _ => True
  | .travelling k _ | .waiting k | .visiting k | .leaving k => k = j
  | .unborn | .looping | .done => False

/-- The neighborhood thread is past its test and may still use the lock. -/
def NeighborhoodPc.MayUse (j : Fin numOfHouses) : NeighborhoodPc → Prop
  | .reading => True
  | .waiting house _ => houseIndex house = some j
  | .refilling k _ | .leaving k => k = j
  | .unborn | .looping | .done => False

/-- No thread is past its test and may still use the lock. -/
def State.Unneeded (s : State) (j : Fin numOfHouses) : Prop :=
  (∀ i, ¬ (s.group i).MayUse j) ∧ ¬ s.neighborhood.MayUse j

/-- If the step destroys a lock, no thread needs it any more. -/
def DestroysUnneeded (s : State) (l : Label) : Prop :=
  l = .main → ∀ j : Fin numOfHouses, s.main = .destroying j → s.Unneeded j

theorem GroupPc.mayUse_of_used {pc : GroupPc} {j : Fin numOfHouses} (h : j ∈ pc.used) :
    pc.MayUse j := by
  cases pc <;> simp_all [GroupPc.used, GroupPc.MayUse]

theorem NeighborhoodPc.mayUse_of_used {pc : NeighborhoodPc} {j : Fin numOfHouses}
    (h : j ∈ pc.used) : pc.MayUse j := by
  cases pc <;> simp_all [NeighborhoodPc.used, NeighborhoodPc.MayUse]

/-- Only a thread past its test uses a lock. -/
theorem State.Unneeded.not_used {s : State} {j : Fin numOfHouses} (h : s.Unneeded j) (l : Label) :
    j ∉ usedLock s l := by
  cases l with
  | main => exact nofun
  | group i => exact fun hj => h.1 i (GroupPc.mayUse_of_used hj)
  | neighborhood => exact fun hj => h.2 (NeighborhoodPc.mayUse_of_used hj)

/-! ## the locks over a run -/

/-- `main` has set `end_simulation`. -/
def MainPc.ended : MainPc → Bool
  | .lastReport | .destroying _ | .joining _ => true
  | .readingG | .readingHouse _ | .readingGroup _ | .creating | .reporting _ => false

/-- What holds of the locks while only those are destroyed that nobody needs. -/
structure Outlived (s : State) : Prop where
  ended : s.main.ended = true → s.endSimulation = true
  destroyed : ∀ j, (s.locks j).destroyed = true → s.endSimulation = true ∧ s.Unneeded j

/-- A step that destroys nothing, if after the end of the simulation it makes no thread
need a lock. -/
theorem Outlived.keep {s s' : State} (h : Outlived s)
    (hended : s'.main.ended = true → s.main.ended = true ∨ s'.endSimulation = true)
    (hend : s.endSimulation = true → s'.endSimulation = true)
    (hlocks : ∀ j, (s'.locks j).destroyed = true → (s.locks j).destroyed = true)
    (hunneeded : ∀ j, s.endSimulation = true → s.Unneeded j → s'.Unneeded j) : Outlived s' where
  ended hpc := (hended hpc).elim (fun hpc => hend (h.ended hpc)) id
  destroyed j hj := by
    obtain ⟨hover, hfree⟩ := h.destroyed j (hlocks j hj)
    exact ⟨hend hover, hunneeded j hover hfree⟩

/-- A group that moves on needs no lock that it did not need before. -/
theorem State.Unneeded.moveGroup {s : State} {j : Fin numOfHouses} {i : Nat} {pc : GroupPc}
    (h : s.Unneeded j) (hpc : pc.MayUse j → (s.group i).MayUse j) : (s.moveGroup i pc).Unneeded j := by
  refine ⟨fun k => ?_, h.2⟩
  simp only [State.moveGroup, Function.update_apply]
  split
  · exact fun hneed => h.1 i (hpc hneed)
  · exact h.1 k

@[simp] theorem wait_destroyed (s : State) (j k : Fin numOfHouses) :
    ((s.wait j).locks k).destroyed = (s.locks k).destroyed := by
  simp only [State.wait, Function.update_apply]
  split
  · next hk => rw [hk]
  · rfl

@[simp] theorem post_destroyed (s : State) (j k : Fin numOfHouses) :
    ((s.post j).locks k).destroyed = (s.locks k).destroyed := by
  simp only [State.post, Function.update_apply]
  split
  · next hk => rw [hk]
  · rfl

/-- **One step.** -/
theorem Outlived.step {T : Int} {s s' : State} {l : Label} (h : Outlived s)
    (hunneeded : DestroysUnneeded s l) (hs : Trick.step T s l = some s') : Outlived s' := by
  cases step_cases hs with
  | stop => exact ⟨h.ended, h.destroyed⟩
  | readG | housesRead | skipGroup | groupsRead | report =>
      exact h.keep nofun id (fun _ => id) fun _ _ => id
  | readHouse hpc hi =>
      refine h.keep nofun id (fun j hj => ?_) fun _ _ => id
      simp only [Function.update_apply] at hj
      split at hj
      · cases hj
      · exact hj
  | readGroup hpc =>
      exact h.keep nofun id (fun _ => id) fun _ _ hfree => hfree.moveGroup nofun
  | create hpc => exact h.keep nofun id (fun _ => id) fun _ _ hfree => ⟨hfree.1, nofun⟩
  | endSimulation hpc =>
      exact h.keep (fun _ => .inr rfl) (fun _ => rfl) (fun _ => id) fun _ _ => id
  | lastReport hpc | destroyed hpc | join hpc =>
      exact h.keep (fun _ => .inl (by rw [hpc]; rfl)) id (fun _ => id) fun _ _ => id
  | @destroy i hpc hi =>
      have hover := h.ended (by rw [hpc]; rfl)
      refine ⟨fun _ => hover, fun j hj => ⟨hover, ?_⟩⟩
      simp only [Function.update_apply] at hj
      split at hj
      · next hji =>
          obtain rfl := hji
          exact hunneeded rfl _ hpc
      · exact (h.destroyed j hj).2
  | test hg hpc =>
      refine h.keep .inl id (fun _ => id) fun _ hover hfree => hfree.moveGroup ?_
      -- the simulation has ended, so the group leaves its loop
      rw [hover, if_pos rfl]
      exact nofun
  | search hg hpc | depart hg hpc =>
      refine h.keep .inl id (fun _ => id) fun _ _ hfree => hfree.moveGroup fun _ => ?_
      rw [hpc]
      exact trivial
  | arrive hg hpc | visit hg hpc =>
      refine h.keep .inl id (fun _ => id) fun _ _ hfree => hfree.moveGroup fun hneed => ?_
      rw [hpc]
      exact hneed
  | lock hg hpc =>
      refine h.keep .inl id (fun _ => by simp [State.moveGroup]) fun _ _ hfree =>
        State.Unneeded.moveGroup (s := State.wait _ _) hfree fun hneed => ?_
      simp only [State.wait, hpc]
      exact hneed
  | unlock hg hpc =>
      exact h.keep .inl id (fun _ => by simp [State.moveGroup]) fun _ _ hfree =>
        State.Unneeded.moveGroup (s := State.post _ _) hfree nofun
  | testNeighborhood hpc =>
      refine h.keep .inl id (fun _ => id) fun _ hover hfree => ⟨hfree.1, ?_⟩
      simp only [hover, if_pos]
      exact nofun
  | noRefill hpc =>
      exact h.keep (fun _ => .inr rfl) (fun _ => rfl) (fun _ => id) fun _ _ hfree =>
        ⟨hfree.1, nofun⟩
  | readRefill hpc =>
      refine h.keep .inl id (fun _ => id) fun _ _ hfree => ⟨hfree.1, fun _ => hfree.2 ?_⟩
      rw [hpc]
      exact trivial
  | lockRefill hpc hj =>
      refine h.keep .inl id (fun _ => by simp) fun _ _ hfree => ⟨hfree.1, fun hneed => hfree.2 ?_⟩
      rw [hpc]
      exact hj.trans (congrArg some hneed)
  | refill hpc =>
      refine h.keep .inl id (fun _ => id) fun _ _ hfree => ⟨hfree.1, fun hneed => hfree.2 ?_⟩
      rw [hpc]
      exact hneed
  | unlockRefill hpc =>
      exact h.keep .inl id (fun _ => by simp) fun _ _ hfree => ⟨hfree.1, nofun⟩

/-- **When the locks outlive their users.**  In a run in which `main` destroys a lock only
while no thread is past its test of `end_simulation` with that lock still before it, no
step waits on or posts a destroyed lock. -/
theorem locks_outlive_users {file : List UInt8} {T : Int} {tr : List (State × Label)} {s : State}
    (h : (simulation file T).Run tr s) (hunneeded : ∀ p ∈ tr, DestroysUnneeded p.1 p.2) :
    ∀ p ∈ tr, UsesLive p.1 p.2 := by
  have houtlived : ∀ {tr : List (State × Label)} {s : State}, (simulation file T).Run tr s →
      (∀ p ∈ tr, DestroysUnneeded p.1 p.2) → Outlived s := fun h hunneeded =>
    Machine.Run.invariant_of_steps (P := DestroysUnneeded) (I := fun _ => Outlived)
      (by rintro s rfl; exact ⟨nofun, nofun⟩) (fun _ _ _ _ hI hP hs => hI.step hP hs) h hunneeded
  intro p hp j hj
  obtain ⟨before, after, t, rfl, hrun, -⟩ := h.split hp
  have hstate := houtlived hrun fun q hq => hunneeded q (List.mem_append_left _ hq)
  by_contra hdead
  exact (hstate.destroyed j (by simpa using hdead)).2.not_used p.2 hj

/-! ## two runs -/

instance (j : Fin numOfHouses) : DecidablePred (GroupPc.MayUse j)
  | .searching _ _ => instDecidableTrue
  | .travelling k _ | .waiting k | .visiting k | .leaving k => inferInstanceAs (Decidable (k = j))
  | .unborn | .looping | .done => instDecidableFalse

instance (j : Fin numOfHouses) : DecidablePred (NeighborhoodPc.MayUse j)
  | .reading => instDecidableTrue
  | .waiting house _ => inferInstanceAs (Decidable (houseIndex house = some j))
  | .refilling k _ | .leaving k => inferInstanceAs (Decidable (k = j))
  | .unborn | .looping | .done => instDecidableFalse

/-- Only the groups below `G` have to be looked at. -/
theorem State.unneeded_of_lt {s : State} {j : Fin numOfHouses} (hcounted : Counted s)
    (h : (∀ i < s.G.toNat, ¬ (s.group i).MayUse j) ∧ ¬ s.neighborhood.MayUse j) : s.Unneeded j := by
  refine ⟨fun i => ?_, h.2⟩
  by_cases hi : i < s.G.toNat
  · exact h.1 i hi
  · rw [(hcounted.absent i (not_lt.mp hi)).2]
    exact id

/-- All threads leave their loops before `main` destroys the locks. -/
def lateDestroy : List Label :=
  startUp 1 ++ [.main, .main, .group 0, .neighborhood] ++ List.replicate numOfHouses .main

theorem locks_outlive_users_lateDestroy :
    ∃ s, (simulation sampleData (-1)).Run
        ((simulation sampleData (-1)).trace (initState sampleData) lateDestroy) s ∧
      ∀ p ∈ (simulation sampleData (-1)).trace (initState sampleData) lateDestroy,
        UsesLive p.1 p.2 := by
  obtain ⟨s, hrun⟩ := Machine.exists_run (M := simulation sampleData (-1)) rfl
    lateDestroy (by decide +kernel)
  have hchecked : ∀ p ∈ (simulation sampleData (-1)).trace (initState sampleData) lateDestroy,
      p.2 = .main → ∀ j : Fin numOfHouses, p.1.main = .destroying j →
        (∀ i < p.1.G.toNat, ¬ (p.1.group i).MayUse j) ∧ ¬ p.1.neighborhood.MayUse j := by
    decide +kernel
  refine ⟨s, hrun, locks_outlive_users hrun fun p hp hl j hpc => ?_⟩
  obtain ⟨before, after, t, -, hrunBefore, -⟩ := hrun.split hp
  exact State.unneeded_of_lt (counted_of_run hrunBefore) (hchecked p hp hl j hpc)

/-- The group has passed its test when `main` destroys the locks, and gets to the house
afterwards. -/
def earlyDestroy : List Label :=
  startUp 1 ++ List.replicate (numOfHouses + 2) (.group 0) ++
    List.replicate (numOfHouses + 2) .main ++ [.group 0, .group 0]

theorem lock_used_after_destroy :
    ∃ tr s, (simulation sampleData (-1)).Run tr s ∧ ¬ ∀ p ∈ tr, UsesLive p.1 p.2 := by
  obtain ⟨s, hrun⟩ := Machine.exists_run (M := simulation sampleData (-1)) rfl
    earlyDestroy (by decide +kernel)
  exact ⟨_, s, hrun, by decide +kernel⟩

end Cmsc421.Trick
