import Cmsc421.Reach
import Cmsc421.Trick.Exclusion
import Cmsc421.Trick.Locks

/-!
# Cmsc421.Trick.Ending

`hw3.c` comes to an end.

`main` has so many seconds to wait, the neighborhood thread so many lines to read, and a group
that starts a round has so many steps until it is at the test of `end_simulation` again.  So
the number of steps is bounded by what the data file and `T` say and by the rounds that are
started.  `main` waits for nobody before it has set `end_simulation`; from then on no round is
started, and whoever waits for a lock waits for a thread that can go on.

The largest `int` is no number of seconds: `current_time` never gets past it.
-/

namespace Cmsc421.Trick

open Finset

variable {T : Int} {s s' : State} {l : Label}

/-! ## what is left to do -/

/-- The number of groups that the first line asks for. -/
def groupsIn (file : List UInt8) : Nat :=
  (fgets maxCharPerLine file).elim 0 fun p => (atoi p.1).toNat

/-- The steps of `main` from the creation of the neighborhood thread on. -/
def afterReading (T : Int) (G : Nat) : Nat := (T + 1).toNat + (numOfHouses + 4 + G)

/-- The steps of `main`; before it has read how many groups there are, with one for each of
them. -/
def State.mainToGo (T : Int) (s : State) : Nat :=
  match s.main with
  | .readingG => numOfHouses + 3 + 2 * groupsIn s.file + afterReading T (groupsIn s.file)
  | .readingHouse i => numOfHouses - i + (2 + s.G.toNat) + afterReading T s.G.toNat
  | .readingGroup i => s.G.toNat - i + 1 + afterReading T s.G.toNat
  | .creating => afterReading T s.G.toNat
  | .reporting t => (T + 1 - t).toNat + (numOfHouses + 3 + s.G.toNat)
  | .lastReport => numOfHouses + 2 + s.G.toNat
  | .destroying i => numOfHouses - i + (1 + s.G.toNat)
  | .joining i => s.G.toNat - i

/-- The steps of a group until it is at the test of `end_simulation` and leaves its loop. -/
def GroupPc.toGo : GroupPc → Nat
  | .unborn | .looping => 1
  | .searching k _ => numOfHouses - k + 6
  | .travelling _ _ => 5
  | .waiting _ => 4
  | .visiting _ => 3
  | .leaving _ => 2
  | .done => 0

/-- The steps of the neighborhood thread, with so many bytes to read. -/
def NeighborhoodPc.toGo (bytes : Nat) : NeighborhoodPc → Nat
  | .unborn | .looping => 5 * bytes + 2
  | .reading => 5 * bytes + 1
  | .waiting _ _ => 5 * bytes + 5
  | .refilling _ _ => 5 * bytes + 4
  | .leaving _ => 5 * bytes + 3
  | .done => 0

theorem NeighborhoodPc.toGo_mono {a b : Nat} (h : a ≤ b) (pc : NeighborhoodPc) : pc.toGo a ≤ pc.toGo b := by
  cases pc <;> simp only [NeighborhoodPc.toGo] <;> omega

/-- All that is left to do; to stop is a step of its own. -/
def State.toGo (T : Int) (s : State) : Nat :=
  (if s.stopped.isSome then 0 else 1) + s.mainToGo T + s.neighborhood.toGo s.file.length +
    ∑ i ∈ range s.G.toNat, (s.group i).toGo

/-- The steps of the round that a group starts. -/
def roundSteps (s : State) : Label → Nat
  | .group i => if s.group i = .looping ∧ s.endSimulation = false then numOfHouses + 6 else 0
  | .main | .neighborhood => 0

/-- One group moves on. -/
theorem sum_toGo_update {n i : Nat} (hi : i < n) (group : Nat → GroupPc) (pc : GroupPc) :
    (∑ k ∈ range n, (Function.update group i pc k).toGo) + (group i).toGo =
      (∑ k ∈ range n, (group k).toGo) + pc.toGo := by
  have hmem := mem_range.mpr hi
  have hcomp : (∑ k ∈ range n, (Function.update group i pc k).toGo) =
      ∑ k ∈ range n, Function.update (fun k => (group k).toGo) i pc.toGo k :=
    sum_congr rfl fun k _ => congrFun (Function.comp_update GroupPc.toGo group i pc) k
  rw [hcomp, sum_update_of_mem hmem, ← add_sum_erase (range n) (fun k => (group k).toGo) hmem,
    sdiff_singleton_eq_erase]
  omega

/-! ## a step gets on -/

theorem running_of_step (hs : Trick.step T s l = some s') : s.stopped = none := by
  unfold Trick.step at hs
  split at hs
  · contradiction
  · next hrunning => simpa using hrunning

/-- The step of a group, which its round may have paid. -/
theorem toGo_groupMoves {i paid : Nat} {pc : GroupPc} (hi : i < s.G.toNat) (hmain : s'.main = s.main)
    (hG : s'.G = s.G) (hfile : s'.file = s.file) (hneighborhood : s'.neighborhood = s.neighborhood)
    (hstopped : s'.stopped = s.stopped) (hgroup : s'.group = Function.update s.group i pc)
    (hless : pc.toGo + 1 ≤ (s.group i).toGo + paid) : s'.toGo T + 1 ≤ s.toGo T + paid := by
  have hsum := sum_toGo_update hi s.group pc
  have hmainToGo : s'.mainToGo T = s.mainToGo T := by
    rw [State.mainToGo, State.mainToGo, hmain, hG, hfile]
  rw [State.toGo, State.toGo, hstopped, hmainToGo, hneighborhood, hfile, hG, hgroup]
  omega

/-- The step of the neighborhood thread. -/
theorem toGo_neighborhoodMoves {paid : Nat} (hlate : s.main.early = false) (hmain : s'.main = s.main)
    (hG : s'.G = s.G) (hstopped : s'.stopped = s.stopped) (hgroup : s'.group = s.group)
    (hless : s'.neighborhood.toGo s'.file.length + 1 ≤ s.neighborhood.toGo s.file.length) :
    s'.toGo T + 1 ≤ s.toGo T + paid := by
  have hmainToGo : s'.mainToGo T = s.mainToGo T := by
    unfold State.mainToGo
    rw [hmain, hG]
    split
    · next hpc => simp [hpc, MainPc.early] at hlate
    all_goals rfl
  rw [State.toGo, State.toGo, hstopped, hmainToGo, hG, hgroup]
  omega

/-- A step of `main` that leaves the threads alone. -/
theorem toGo_mainMoves {paid : Nat} (hG : s'.G = s.G) (hfile : s'.file = s.file)
    (hneighborhood : s'.neighborhood = s.neighborhood) (hstopped : s'.stopped = s.stopped)
    (hgroup : s'.group = s.group) (hless : s'.mainToGo T + 1 ≤ s.mainToGo T) :
    s'.toGo T + 1 ≤ s.toGo T + paid := by
  rw [State.toGo, State.toGo, hstopped, hneighborhood, hfile, hG, hgroup]
  omega

/-- `current_time` is never negative. -/
def TimeOk (s : State) : Prop := ∀ t, s.main = .reporting t → 0 ≤ t

/-- **Every step gets on**, but for the start of a round. -/
theorem toGo_step (hT : T < 2 ^ 31 - 1) (hcounted : Counted s) (hexclusive : Exclusive s)
    (htime : TimeOk s) (hs : Trick.step T s l = some s') :
    s'.toGo T + 1 ≤ s.toGo T + roundSteps s l := by
  have hrunning := running_of_step hs
  have hread : ∀ {line rest : List UInt8}, fgets maxCharPerLine s.file = some (line, rest) →
      rest.length < s.file.length := length_lt_of_fgets (by decide)
  cases step_cases hs with
  | stop =>
      simp only [State.toGo, State.mainToGo, State.stop, hrunning, Option.isSome_some, Option.isSome_none]
      simp only [if_pos, Bool.false_eq_true, if_false]
      omega
  | @readG line rest hpc hline =>
      -- nobody is there yet
      have hunborn : ∀ i, s.group i = .unborn := fun i => (hcounted.fresh hpc i).2
      have hgroups : groupsIn s.file = (atoi line).toNat := by rw [groupsIn, hline]; rfl
      have hless := NeighborhoodPc.toGo_mono (hread hline).le s.neighborhood
      simp only [State.toGo, State.mainToGo, hpc, hgroups, hunborn, GroupPc.toGo, sum_const, card_range,
        smul_eq_mul]
      omega
  | @readHouse i line rest x y candy hpc hi hline =>
      have hless := NeighborhoodPc.toGo_mono (hread hline).le s.neighborhood
      simp only [State.toGo, State.mainToGo, hpc]
      omega
  | @readGroup i line rest startHouse numOfKids hpc hi hline =>
      have hless := NeighborhoodPc.toGo_mono (hread hline).le s.neighborhood
      have hsum := sum_toGo_update (by omega : i < s.G.toNat) s.group .looping
      rw [hexclusive.unborn i (by rw [hpc]; rfl) i (Nat.le_refl i)] at hsum
      simp only [State.toGo, State.mainToGo, State.moveGroup, hpc, GroupPc.toGo] at hsum ⊢
      omega
  | create hpc =>
      have hunborn := hcounted.alone (by rw [hpc]; rfl)
      simp only [State.toGo, State.mainToGo, hpc, hunborn, NeighborhoodPc.toGo, afterReading]
      omega
  | @report t hpc ht =>
      have hnext := int32_of_fits (x := t + 1) (by have := htime t hpc; omega) (by omega)
      refine toGo_mainMoves rfl rfl rfl rfl rfl ?_
      simp only [State.mainToGo, hpc, hnext]
      omega
  | housesRead hpc hi | skipGroup hpc hi | groupsRead hpc hi | endSimulation hpc hi | destroy hpc hi
  | destroyed hpc hi | join hpc hi =>
      refine toGo_mainMoves rfl rfl rfl rfl rfl ?_
      simp only [State.mainToGo, hpc]
      omega
  | lastReport hpc =>
      refine toGo_mainMoves rfl rfl rfl rfl rfl ?_
      simp only [State.mainToGo, hpc]
      omega
  | @test i g hg hpc =>
      refine toGo_groupMoves (hcounted.lt hg) rfl rfl rfl rfl rfl rfl ?_
      rw [hpc]
      cases hend : s.endSimulation with
      | true => simp [GroupPc.toGo]
      | false =>
          simp only [Bool.false_eq_true, if_false, GroupPc.toGo, roundSteps, hpc, hend, and_self, if_true]
          omega
  | search hg hpc | depart hg hpc | arrive hg hpc | lock hg hpc | visit hg hpc | unlock hg hpc =>
      refine toGo_groupMoves (hcounted.lt hg) rfl rfl rfl rfl rfl rfl ?_
      rw [hpc]
      simp only [GroupPc.toGo]
      omega
  | testNeighborhood hpc =>
      refine toGo_neighborhoodMoves (hcounted.late hpc (by simp)) rfl rfl rfl rfl ?_
      rw [hpc]
      dsimp only
      split <;> simp only [NeighborhoodPc.toGo] <;> omega
  | readRefill hpc hline =>
      have hless := hread hline
      refine toGo_neighborhoodMoves (hcounted.late hpc (by simp)) rfl rfl rfl rfl ?_
      simp only [hpc, NeighborhoodPc.toGo]
      omega
  | noRefill hpc | lockRefill hpc | refill hpc | unlockRefill hpc =>
      refine toGo_neighborhoodMoves (hcounted.late hpc (by simp)) rfl rfl rfl rfl ?_
      simp only [hpc, NeighborhoodPc.toGo, State.wait, State.post]
      omega

/-! ## somebody can go on -/

/-- What holds of `main` while it waits. -/
structure Waits (s : State) : Prop where
  time : TimeOk s
  ended : s.main.ended = true → s.endSimulation = true

theorem Waits.step (hT : T < 2 ^ 31 - 1) (h : Waits s) (hs : Trick.step T s l = some s') : Waits s' := by
  cases step_cases hs with
  | stop => exact ⟨h.time, h.ended⟩
  | readG | readHouse | housesRead | skipGroup | readGroup | groupsRead => exact ⟨nofun, nofun⟩
  | create hpc =>
      refine ⟨fun t ht => ?_, nofun⟩
      cases ht
      exact le_rfl
  | @report t hpc ht =>
      have hnext := int32_of_fits (x := t + 1) (by have := h.time t hpc; omega) (by omega)
      refine ⟨fun t' ht' => ?_, nofun⟩
      have hzero := h.time t hpc
      cases ht'
      rw [hnext]
      omega
  | endSimulation => exact ⟨nofun, fun _ => rfl⟩
  | lastReport hpc | destroy hpc | destroyed hpc | join hpc =>
      exact ⟨nofun, fun _ => h.ended (by rw [hpc]; rfl)⟩
  | noRefill => exact ⟨h.time, fun _ => rfl⟩
  | test | search | depart | arrive | lock | visit | unlock | testNeighborhood | readRefill | lockRefill
  | refill | unlockRefill => exact ⟨h.time, h.ended⟩

/-- `main` waits for nobody but a group that it joins. -/
theorem mainStep_or_joins (T : Int) (s : State) : (∃ s', mainStep T s = some s') ∨
    ∃ i : Nat, s.main = .joining i ∧ s.group i ≠ .unborn ∧ s.group i ≠ .done := by
  unfold mainStep
  split
  case h_8 i hpc =>
    split
    · cases hgroup : s.group i with
      | unborn | done => exact .inl ⟨_, rfl⟩
      | _ => exact .inr ⟨i, hpc, by simp [hgroup]⟩
    · exact .inl ⟨_, rfl⟩
  all_goals
    left
    repeat' split
    all_goals exact ⟨_, rfl⟩

/-- A group goes on, unless it waits for a lock or has left its loop. -/
theorem groupStep_or_waits {i : Nat} {g : Group} (hg : s.groups i = some g) (hunborn : s.group i ≠ .unborn)
    (hdone : s.group i ≠ .done) :
    (∃ s', groupStep s i = some s') ∨ ∃ j, s.group i = .waiting j ∧ (s.locks j).value = 0 := by
  unfold groupStep
  rw [hg, Option.bind_some]
  split
  case h_1 hpc => exact absurd hpc hunborn
  case h_5 j hpc =>
    split
    · next hzero => exact .inr ⟨j, hpc, hzero⟩
    · exact .inl ⟨_, rfl⟩
  case h_8 hpc => exact absurd hpc hdone
  all_goals
    left
    repeat' split
    all_goals exact ⟨_, rfl⟩

/-- Who holds a lock goes on. -/
theorem step_of_holds (hrunning : s.stopped = none) (hexclusive : Exclusive s) {j : Fin numOfHouses}
    {p : Option Nat} (hp : s.Holds j p) : ∃ l s', Trick.step T s l = some s' := by
  cases p with
  | none =>
      cases hpc : s.neighborhood with
      | refilling k candy | leaving k =>
          exact ⟨.neighborhood, _, by simp only [Trick.step, hrunning, neighborhoodStep, hpc]; rfl⟩
      | _ => simp [State.Holds, hpc, NeighborhoodPc.inside] at hp
  | some i =>
      refine ⟨.group i, ?_⟩
      have hborn : s.group i ≠ .unborn := by
        intro hunborn
        simp [State.Holds, hunborn, GroupPc.inside] at hp
      obtain ⟨g, hg⟩ := Option.ne_none_iff_exists'.mp (mt (hexclusive.born i).mp hborn)
      rcases groupStep_or_waits hg hborn (by rintro hdone; simp [State.Holds, hdone, GroupPc.inside] at hp)
        with ⟨s', hs⟩ | ⟨k, hpc, -⟩
      · exact ⟨s', by simpa [Trick.step, hrunning] using hs⟩
      · simp [State.Holds, hpc, GroupPc.inside] at hp

/-- **Somebody goes on**, and not by starting a round. -/
theorem exists_step (hrunning : s.stopped = none) (hexclusive : Exclusive s) (hwaits : Waits s) :
    ∃ l s', Trick.step T s l = some s' ∧ roundSteps s l = 0 := by
  rcases mainStep_or_joins T s with ⟨s', hs⟩ | ⟨i, hmain, hborn, hdone⟩
  · exact ⟨.main, s', by simpa [Trick.step, hrunning] using hs, rfl⟩
  -- the simulation has ended
  have hend := hwaits.ended (by rw [hmain]; rfl)
  have hnoRound : ∀ l, roundSteps s l = 0 := fun l => by
    cases l with
    | main | neighborhood => rfl
    | group k => exact if_neg (by simp [hend])
  obtain ⟨g, hg⟩ := Option.ne_none_iff_exists'.mp (mt (hexclusive.born i).mp hborn)
  rcases groupStep_or_waits hg hborn hdone with ⟨s', hs⟩ | ⟨j, -, hzero⟩
  · exact ⟨.group i, s', by simpa [Trick.step, hrunning] using hs, hnoRound _⟩
  · obtain ⟨p, hp⟩ := (hexclusive.guarded j (by rw [hmain]; nofun)).exists_holder hzero
    obtain ⟨l, s', hs⟩ := step_of_holds (T := T) hrunning hexclusive hp
    exact ⟨l, s', hs, hnoRound l⟩

/-! ## runs -/

/-- What holds in every run. -/
theorem waits_of_run {file : List UInt8} (hT : T < 2 ^ 31 - 1) {tr : List (State × Label)}
    (h : (simulation file T).Run tr s) : Waits s := by
  refine Machine.Run.invariant (I := fun _ s => Waits s) ?_ (fun _ _ _ _ h hs => h.step hT hs) h
  rintro s rfl
  exact ⟨nofun, nofun⟩

/-- **The simulation comes to an end**, if `T` is not the largest `int`.  In every run the
number of steps is bounded, up to the rounds that are started; a state in which nobody can
take a step is one where the program has ended; and from every state some schedule ends it. -/
theorem comes_to_end {file : List UInt8} (hT : T < 2 ^ 31 - 1) {tr : List (State × Label)}
    (h : (simulation file T).Run tr s) :
    tr.length ≤ 5 * file.length + 3 * groupsIn file + (T + 1).toNat + (2 * numOfHouses + 10) +
      Machine.total roundSteps tr ∧
    ((∀ l, (simulation file T).step s l = none) → s.stopped.isSome = true) ∧
    ∃ t, (simulation file T).Reach (fun _ => True) s t ∧ t.stopped.isSome = true := by
  have hgets : ∀ {tr : List (State × Label)} {s : State}, (simulation file T).Run tr s →
      Counted s ∧ Exclusive s ∧ Waits s := fun h =>
    ⟨(exclusive_of_run h).1, (exclusive_of_run h).2, waits_of_run hT h⟩
  have hon : ∀ s l t, (Counted s ∧ Exclusive s ∧ Waits s) → (simulation file T).step s l = some t →
      t.toGo T + 1 ≤ s.toGo T + roundSteps s l := fun _ _ _ hJ hs =>
    toGo_step hT hJ.1 hJ.2.1 hJ.2.2.time hs
  have hgoesOn : ∀ {tr : List (State × Label)} {s : State}, (simulation file T).Run tr s →
      ¬ s.stopped.isSome = true →
      ∃ l t, (simulation file T).step s l = some t ∧ roundSteps s l = 0 := fun h hrunning =>
    exists_step (by simpa using hrunning) (hgets h).2.1 (hgets h).2.2
  refine ⟨?_, fun hstuck => ?_, ?_⟩
  · have hpaid := Machine.Run.cost_le (J := fun s => Counted s ∧ Exclusive s ∧ Waits s)
      (B := (initState file).toGo T) (State.toGo T) (fun _ _ => 1) roundSteps
      (by rintro s rfl; exact le_rfl) (fun _ _ => hgets) hon h
    have hlength : Machine.total (fun (_ : State) (_ : Label) => 1) tr = tr.length := by
      simp [Machine.total]
    have hinit : (initState file).toGo T =
        5 * file.length + 3 * groupsIn file + (T + 1).toNat + (2 * numOfHouses + 10) := by
      simp only [State.toGo, State.mainToGo, initState, afterReading, NeighborhoodPc.toGo]
      simp
      omega
    omega
  · by_contra hrunning
    obtain ⟨l, t, hs, -⟩ := hgoesOn h hrunning
    simp [hstuck l] at hs
  · refine Machine.Run.exists_reach (R := fun _ => True) (State.toGo T) (fun tr s hrun _ hrunning => ?_) h
      trivial
    obtain ⟨l, t, hs, hfree⟩ := hgoesOn hrun hrunning
    have hless := hon s l t (hgets hrun) hs
    exact ⟨t, .single trivial hs, trivial, by omega⟩

theorem comes_to_end_visitAndRefill :
    ∃ s, (simulation sampleData 0).Run
        ((simulation sampleData 0).trace (initState sampleData) visitAndRefill) s ∧
      s.stopped = none ∧
      ∃ t, (simulation sampleData 0).Reach (fun _ => True) s t ∧ t.stopped.isSome = true := by
  obtain ⟨s, hrun, hs⟩ := Machine.exists_run_of_exec (M := simulation sampleData 0) rfl
    visitAndRefill (b := fun s => s.stopped.isNone) (by decide +kernel)
  exact ⟨s, hrun, Option.isNone_iff_eq_none.mp hs, (comes_to_end (by decide) hrun).2.2⟩

/-- With the largest `int` for `T`, `main` never gets past its reports. -/
theorem never_returns_of_max {file : List UInt8} (hT : 2 ^ 31 - 1 ≤ T) {tr : List (State × Label)}
    (h : (simulation file T).Run tr s) : s.stopped ≠ some .returned := by
  have hint : ∀ x, int32 x < 2 ^ 31 := fun x => by
    rw [int32, Int.bmod_def]
    split <;> omega
  suffices hI : s.main.ended = false ∧ (∀ t, s.main = .reporting t → t < 2 ^ 31) ∧
      s.stopped ≠ some .returned from hI.2.2
  refine Machine.Run.invariant (I := fun _ s => s.main.ended = false ∧
    (∀ t, s.main = .reporting t → t < 2 ^ 31) ∧ s.stopped ≠ some .returned) ?_ ?_ h
  · rintro s rfl
    exact ⟨rfl, by simp [initState], by simp [initState]⟩
  · rintro tr s l t ⟨hended, htime, hstopped⟩ hs
    cases step_cases hs with
    | stop hstop =>
        refine ⟨hended, htime, fun hreturned => ?_⟩
        cases hreturned
        cases hstop with
        | returned hpc => simp [hpc, MainPc.ended] at hended
    | create =>
        refine ⟨rfl, fun t ht => ?_, hstopped⟩
        cases ht
        decide
    | report =>
        refine ⟨rfl, fun t ht => ?_, hstopped⟩
        cases ht
        exact hint _
    | endSimulation hpc hlate =>
        have := htime _ hpc
        omega
    | lastReport hpc | destroy hpc | destroyed hpc | join hpc => simp [hpc, MainPc.ended] at hended
    | readG | readHouse | housesRead | skipGroup | readGroup | groupsRead => exact ⟨rfl, by simp, hstopped⟩
    | test | search | depart | arrive | lock | visit | unlock | testNeighborhood | noRefill | readRefill
    | lockRefill | refill | unlockRefill => exact ⟨hended, htime, hstopped⟩

end Cmsc421.Trick
