import Cmsc421.Trick.Exclusion

/-!
# Cmsc421.Trick.Report

`hw3.c` with `printStatus()` line by line.

`printStatus()` takes no lock: it reads the groups one after the other, each twice, once for
its line and once for the total, and then the houses.  And a visit is two assignments, which
it can see apart: where the house has enough it is lessened first, and where it has not the
group gets what is left first.  `Watched` is the program with these steps of its own.

What the other threads see of a visit is the house only.  So a visit takes effect with the
assignment to the house, and the program does what `simulation` does (`watched_follows`).
-/

namespace Cmsc421.Trick

/-! ## printStatus -/

/-- The line about a group. -/
structure GroupLine where
  id : Nat
  numOfKids : Int
  currHouse : Int
  numOfCandy : Int

/-- The line about a house. -/
structure HouseLine where
  id : Nat
  x : Int
  y : Int
  numOfCandy : Int

/-- Where `printStatus()` is. -/
inductive ReportPc
  /-- before the line about a group -/
  | group (i : Nat)
  /-- before its candy is added to the total -/
  | adding (i : Nat)
  /-- before the line about a house -/
  | house (i : Nat)
  | printed
  deriving DecidableEq

/-- What `printStatus()` has printed, and its total. -/
structure Report where
  pc : ReportPc
  groups : List GroupLine
  houses : List HouseLine
  totalCandy : Int

/-- Before the first line. -/
def Report.start : Report := ⟨.group 0, [], [], 0⟩

/-- A step of `printStatus()`; `none` where it looks at a group that has not been set up.  The
three fields of a line are read in one step. -/
def printStep (s : State) (r : Report) : Option Report :=
  match r.pc with
  | .group i =>
      if (i : Int) < s.G then
        (s.groups i).map fun g =>
          { r with
            pc := .adding i
            groups := r.groups ++ [⟨i, g.numOfKids, g.currHouse, g.numOfCandy⟩] }
      else some { r with pc := .house 0 }
  | .adding i =>
      (s.groups i).map fun g =>
        { r with pc := .group (i + 1), totalCandy := int32 (r.totalCandy + g.numOfCandy) }
  | .house i =>
      if h : i < numOfHouses then
        let house := s.houses ⟨i, h⟩
        some { r with
          pc := .house (i + 1)
          houses := r.houses ++ [⟨i, house.x, house.y, house.numOfCandy⟩] }
      else some { r with pc := .printed }
  | .printed => some r

/-- `main` is about to print a report, or in the middle of one. -/
def State.reports (T : Int) (s : State) : Bool :=
  match s.main with
  | .reporting t => decide (t ≤ T)
  | .lastReport => true
  | .readingG | .readingHouse _ | .readingGroup _ | .creating | .destroying _ | .joining _ => false

/-! ## visits -/

/-- Which assignment of its visit a group has made. -/
inductive Half
  | whole
  /-- the house has one piece less for each kid, and the group has not got them -/
  | lessened
  /-- the group has all that is left, and the house still has it -/
  | given
  deriving DecidableEq

/-- The program, with what `printStatus()` has printed and the visits that are half done. -/
structure Watched where
  sim : State
  half : Nat → Half
  report : Report

/-- The next assignment of a visit. -/
def Watched.visit (w : Watched) (i : Nat) (g : Group) (j : Fin numOfHouses) : Watched :=
  let h := w.sim.houses j
  match w.half i with
  | .whole =>
      if g.numOfKids ≤ h.numOfCandy then
        { w with
          sim :=
            { w.sim with
              houses := Function.update w.sim.houses j
                { h with numOfCandy := int32 (h.numOfCandy - g.numOfKids) } }
          half := Function.update w.half i .lessened }
      else
        { w with
          sim :=
            { w.sim with
              groups := Function.update w.sim.groups i
                (some { g with numOfCandy := int32 (g.numOfCandy + h.numOfCandy) }) }
          half := Function.update w.half i .given }
  | .lessened =>
      { w with
        sim :=
          { w.sim.moveGroup i (.leaving j) with
            groups := Function.update w.sim.groups i
              (some { g with numOfCandy := int32 (g.numOfCandy + g.numOfKids) }) }
        half := Function.update w.half i .whole }
  | .given =>
      { w with
        sim :=
          { w.sim.moveGroup i (.leaving j) with
            houses := Function.update w.sim.houses j { h with numOfCandy := 0 } }
        half := Function.update w.half i .whole }

/-- One step. -/
def Watched.step (T : Int) (w : Watched) : Label → Option Watched
  | .main =>
      if w.sim.stopped.isSome then none
      else if w.sim.reports T ∧ w.report.pc ≠ .printed then
        match printStep w.sim w.report with
        | none => some { w with sim := w.sim.stop (.fault .uninitGroup) }
        | some r => some { w with report := r }
      else (mainStep T w.sim).map fun s => { w with sim := s, report := Report.start }
  | .group i =>
      if w.sim.stopped.isSome then none
      else
        match w.sim.groups i, w.sim.group i with
        | some g, .visiting j => some (w.visit i g j)
        | _, _ => (groupStep w.sim i).map fun s => { w with sim := s }
  | .neighborhood =>
      if w.sim.stopped.isSome then none
      else (neighborhoodStep w.sim).map fun s => { w with sim := s }

/-- The program as it starts on a data file. -/
def initWatched (file : List UInt8) : Watched := ⟨initState file, fun _ => .whole, Report.start⟩

/-- The program on a data file, for `T` seconds, with its reports. -/
def watched (file : List UInt8) (T : Int) : Machine Watched Label where
  init w := w = initWatched file
  step := Watched.step T

/-- What a step of `main` can be: one of a report, which may fail, or one of the program. -/
theorem Watched.step_main {T : Int} {w w' : Watched} (hs : w.step T .main = some w') :
    w.sim.stopped = none ∧
      ((w.sim.reports T = true ∧ w.report.pc ≠ .printed) ∧
          (printStep w.sim w.report = none ∧ w' = { w with sim := w.sim.stop (.fault .uninitGroup) } ∨
            ∃ r, printStep w.sim w.report = some r ∧ w' = { w with report := r }) ∨
        ¬ (w.sim.reports T = true ∧ w.report.pc ≠ .printed) ∧
          ∃ z, mainStep T w.sim = some z ∧ w' = ⟨z, w.half, Report.start⟩) := by
  simp only [Watched.step] at hs
  split at hs
  · cases hs
  · next hrunning =>
      refine ⟨by simpa using hrunning, ?_⟩
      split at hs
      · next hreports =>
          refine .inl ⟨hreports, ?_⟩
          split at hs
          · next hr => exact .inl ⟨hr, (Option.some.inj hs).symm⟩
          · next r hr => exact .inr ⟨r, hr, (Option.some.inj hs).symm⟩
      · next hno =>
          obtain ⟨z, hz, rfl⟩ := Option.map_eq_some_iff.mp hs
          exact .inr ⟨hno, z, hz, rfl⟩

/-- What a step of a group can be: an assignment of a visit, or a step of the program. -/
theorem Watched.step_group {T : Int} {w w' : Watched} {i : Nat} (hs : w.step T (.group i) = some w') :
    w.sim.stopped = none ∧
      ((∃ g j, w.sim.groups i = some g ∧ w.sim.group i = .visiting j ∧ w' = w.visit i g j) ∨
        (∀ j, w.sim.group i ≠ .visiting j) ∧
          ∃ z, groupStep w.sim i = some z ∧ w' = { w with sim := z }) := by
  simp only [Watched.step] at hs
  split at hs
  · cases hs
  · next hrunning =>
      refine ⟨by simpa using hrunning, ?_⟩
      split at hs
      · next g j hg hpc => exact .inl ⟨g, j, hg, hpc, (Option.some.inj hs).symm⟩
      · next hnot =>
          obtain ⟨z, hz, rfl⟩ := Option.map_eq_some_iff.mp hs
          refine .inr ⟨fun j hpc => ?_, z, hz, rfl⟩
          obtain ⟨g, hg, -⟩ := Option.bind_eq_some_iff.mp hz
          exact hnot g j hg hpc

/-- A step of the neighborhood thread is one of the program. -/
theorem Watched.step_neighborhood {T : Int} {w w' : Watched} (hs : w.step T .neighborhood = some w') :
    w.sim.stopped = none ∧ ∃ z, neighborhoodStep w.sim = some z ∧ w' = { w with sim := z } := by
  simp only [Watched.step] at hs
  split at hs
  · cases hs
  · next hrunning =>
      obtain ⟨z, hz, rfl⟩ := Option.map_eq_some_iff.mp hs
      exact ⟨by simpa using hrunning, z, hz, rfl⟩

/-! ## what the groups do is all that differs -/

section overlay

variable {T : Int} {s : State} {groups : Nat → Option Group} {group : Nat → GroupPc} {i : Nat}

/-- Other groups, with their threads. -/
def State.withGroups (s : State) (groups : Nat → Option Group) (group : Nat → GroupPc) : State :=
  { s with groups := groups, group := group }

/-- A step of a group with the others replaced. -/
theorem groupStep_withGroups (hg : groups i = s.groups i) (hpc : group i = s.group i) :
    groupStep (s.withGroups groups group) i = (groupStep s i).map fun z =>
      z.withGroups (Function.update groups i (z.groups i)) (Function.update group i (z.group i)) := by
  have hsame : Function.update groups i (s.groups i) = groups := Function.update_eq_self_iff.mpr hg.symm
  have hsame' : Function.update group i (s.group i) = group := Function.update_eq_self_iff.mpr hpc.symm
  unfold groupStep
  simp only [State.withGroups, hg, hpc]
  cases hgroup : s.groups i with
  | none => rfl
  | some g =>
      rw [hgroup] at hsame
      simp only [Option.bind_some]
      split
      case h_1 | h_8 => rfl
      case h_2 =>
        simp only [State.moveGroup, Option.map_some, hsame, hgroup]
        rw [Function.update_self]
        rfl
      case h_4 | h_6 | h_7 => simp [State.moveGroup, State.post, hsame, hgroup]
      case h_5 j hj =>
        by_cases hzero : (s.locks j).value = 0
        · simp [hzero]
        · simp [State.moveGroup, State.wait, hsame, hgroup, hzero]
      case h_3 k st hj =>
        split
        · split
          · simp [State.stop, hsame, hsame', hgroup]
          · simp [State.moveGroup, hsame, hgroup]
        · split
          · simp [State.stop, hsame, hsame', hgroup]
          · split
            · simp [State.moveGroup, hsame, hgroup]
            · simp [State.stop, hsame, hsame', hgroup]

/-- A step of the neighborhood thread with the groups replaced. -/
theorem neighborhoodStep_withGroups (s : State) (groups : Nat → Option Group) (group : Nat → GroupPc) :
    neighborhoodStep (s.withGroups groups group) =
      (neighborhoodStep s).map fun z => z.withGroups groups group := by
  unfold neighborhoodStep
  simp only [State.withGroups]
  split
  case h_1 | h_2 | h_5 | h_6 | h_7 => rfl
  case h_3 =>
    split
    · rfl
    · split <;> rfl
  case h_4 =>
    split
    · rfl
    · next j hj =>
        by_cases hzero : (s.locks j).value = 0
        · simp [hzero]
        · simp [State.wait, hzero]

/-- A step of `main` with the groups replaced by others that are set up and done as well. -/
theorem mainStep_withGroups (hreads : ∀ i, s.main ≠ .readingGroup i)
    (hset : ∀ i, (groups i).isSome = (s.groups i).isSome)
    (hunborn : ∀ i, group i = .unborn ↔ s.group i = .unborn)
    (hdone : ∀ i, group i = .done ↔ s.group i = .done) :
    mainStep T (s.withGroups groups group) =
      (mainStep T s).map fun z => z.withGroups groups group := by
  have hreportable : (s.withGroups groups group).Reportable ↔ s.Reportable :=
    forall₂_congr fun i _ => by rw [State.withGroups, hset]
  unfold mainStep
  simp only [State.withGroups] at hreportable ⊢
  split
  case h_1 => split <;> rfl
  case h_2 =>
    split
    · split
      · rfl
      · split <;> rfl
    · rfl
  case h_3 i hpc => exact absurd hpc (hreads i)
  case h_4 => rfl
  case h_5 =>
    split
    · by_cases hinit : s.Reportable
      · simp [hinit, hreportable]
      · simp [hinit, hreportable, State.stop]
    · rfl
  case h_6 =>
    by_cases hinit : s.Reportable
    · simp [hinit, hreportable]
    · simp [hinit, hreportable, State.stop]
  case h_7 => split <;> rfl
  case h_8 i hpc =>
    by_cases hi : (i : Int) < s.G
    · cases hgroup : s.group i with
      | unborn => simp [hi, (hunborn i).mpr hgroup, State.stop]
      | done => simp [hi, (hdone i).mpr hgroup]
      | _ =>
          have hno : group i ≠ .unborn ∧ group i ≠ .done :=
            ⟨mt (hunborn i).mp (by simp [hgroup]), mt (hdone i).mp (by simp [hgroup])⟩
          cases hpc' : group i <;> simp_all
    · simp [hi, State.stop]

/-- The same where it reads a group. -/
theorem mainStep_withGroups_reading (hpc : s.main = .readingGroup i) (hg : groups i = s.groups i)
    (hpc' : group i = s.group i) :
    mainStep T (s.withGroups groups group) = (mainStep T s).map fun z =>
      z.withGroups (Function.update groups i (z.groups i)) (Function.update group i (z.group i)) := by
  have hsame : Function.update groups i (s.groups i) = groups := Function.update_eq_self_iff.mpr hg.symm
  have hsame' : Function.update group i (s.group i) = group := Function.update_eq_self_iff.mpr hpc'.symm
  unfold mainStep
  simp only [State.withGroups, hpc]
  split
  · split
    · simp [hsame, hsame']
    · split
      · simp [State.stop, hsame, hsame', hpc]
      · simp [State.moveGroup]
  · simp [hsame, hsame']

end overlay

/-! ## the coarse program -/

/-- How a group and its thread stand in `simulation`, by what has been done of the visit. -/
def HalfOk (houses : Houses) (g : Option Group) (pc : GroupPc) (g' : Option Group) (pc' : GroupPc) :
    Half → Prop
  | .whole => g' = g ∧ pc' = pc
  | .lessened => ∃ j b, pc = .visiting j ∧ pc' = .leaving j ∧ g = some b ∧
      g' = some { b with numOfCandy := int32 (b.numOfCandy + b.numOfKids) }
  | .given => ∃ j b, pc = .visiting j ∧ pc' = .visiting j ∧ (houses j).numOfCandy < b.numOfKids ∧
      g = some { b with numOfCandy := int32 (b.numOfCandy + (houses j).numOfCandy) } ∧ g' = some b

/-- The state of `simulation`, in which a visit takes effect with the assignment to the house. -/
structure Follows (w : Watched) (s : State) : Prop where
  same : s = w.sim.withGroups s.groups s.group
  half : ∀ i, HalfOk w.sim.houses (w.sim.groups i) (w.sim.group i) (s.groups i) (s.group i) (w.half i)
  adding : ∀ i, w.report.pc = .adding i → (i : Int) < w.sim.G

section follows

variable {T : Int} {w w' : Watched} {s : State} {i : Nat} {l : Label}

theorem HalfOk.isSome {houses : Houses} {g g' : Option Group} {pc pc' : GroupPc} {half : Half}
    (h : HalfOk houses g pc g' pc' half) : g'.isSome = g.isSome := by
  cases half with
  | whole => rw [h.1]
  | lessened =>
      obtain ⟨j, b, -, -, rfl, rfl⟩ := h
      rfl
  | given =>
      obtain ⟨j, b, -, -, -, rfl, rfl⟩ := h
      rfl

/-- Half a visit is inside of the house, in both programs. -/
theorem HalfOk.inside {houses : Houses} {g g' : Option Group} {pc pc' : GroupPc} {half : Half}
    (h : HalfOk houses g pc g' pc' half) : pc'.inside = pc.inside := by
  cases half with
  | whole => rw [h.2]
  | lessened =>
      obtain ⟨j, b, rfl, rfl, -⟩ := h
      rfl
  | given =>
      obtain ⟨j, b, rfl, rfl, -⟩ := h
      rfl

/-- Outside of the houses a visit is whole. -/
theorem HalfOk.whole {houses : Houses} {g g' : Option Group} {pc pc' : GroupPc} {half : Half}
    (h : HalfOk houses g pc g' pc' half) (hpc : ∀ j, pc ≠ .visiting j) :
    half = .whole ∧ g' = g ∧ pc' = pc := by
  cases half with
  | whole => exact ⟨rfl, h⟩
  | lessened =>
      obtain ⟨j, b, hvisiting, -⟩ := h
      exact absurd hvisiting (hpc j)
  | given =>
      obtain ⟨j, b, hvisiting, -⟩ := h
      exact absurd hvisiting (hpc j)

/-- The thread is unborn in both programs, or in neither, and has left its loop in both, or in
neither. -/
theorem HalfOk.idle_iff {houses : Houses} {g g' : Option Group} {pc pc' idle : GroupPc} {half : Half}
    (h : HalfOk houses g pc g' pc' half) (hidle : idle.inside = none) : pc' = idle ↔ pc = idle := by
  cases half with
  | whole => rw [h.2]
  | lessened =>
      obtain ⟨j, b, rfl, rfl, -⟩ := h
      refine iff_of_false ?_ ?_ <;> rintro rfl <;> cases hidle
  | given =>
      obtain ⟨j, b, rfl, rfl, -⟩ := h
      rfl

/-- Only the house that the group is at matters. -/
theorem HalfOk.congr {houses houses' : Houses} {g g' : Option Group} {pc pc' : GroupPc} {half : Half}
    (h : HalfOk houses g pc g' pc' half) (hsame : ∀ j, pc'.inside = some j → houses' j = houses j) :
    HalfOk houses' g pc g' pc' half := by
  cases half with
  | whole => exact h
  | lessened => exact h
  | given =>
      obtain ⟨j, b, hpc, rfl, hrest⟩ := h
      refine ⟨j, b, hpc, rfl, ?_⟩
      rw [hsame j rfl]
      exact hrest

theorem Follows.main (h : Follows w s) : s.main = w.sim.main := by rw [h.same]; rfl

theorem Follows.houses (h : Follows w s) : s.houses = w.sim.houses := by rw [h.same]; rfl

theorem Follows.stopped (h : Follows w s) : s.stopped = w.sim.stopped := by rw [h.same]; rfl

/-- What a step of `main` leaves alone. -/
theorem Effect.mainFrame {s z : State} (h : Effect T s .main z) :
    (∀ k, s.main ≠ .readingGroup k → z.groups k = s.groups k ∧ z.group k = s.group k) ∧
      ((∀ k, s.main ≠ .readingHouse k) → z.houses = s.houses) := by
  cases h with
  | readHouse hpc => exact ⟨fun _ _ => ⟨rfl, rfl⟩, fun hno => absurd hpc (hno _)⟩
  | @readGroup i line rest startHouse numOfKids hpc =>
      refine ⟨fun k hk => ?_, fun _ => rfl⟩
      have hne : k ≠ i := by
        rintro rfl
        exact hk hpc
      simp [State.moveGroup, hne]
  | _ => exact ⟨fun _ _ => ⟨rfl, rfl⟩, fun _ => rfl⟩

/-- `main` moves on. -/
theorem Follows.mainMoves (h : Follows w s) (hexclusive : Exclusive s) (hrunning : w.sim.stopped = none)
    {z : State} (hz : mainStep T w.sim = some z) :
    ∃ s', Trick.step T s .main = some s' ∧ Follows ⟨z, w.half, Report.start⟩ s' := by
  obtain ⟨hframe, hhouses⟩ := (mainStep_cases hz).mainFrame
  have hstep : Trick.step T s .main = mainStep T (w.sim.withGroups s.groups s.group) := by
    rw [← h.same, Trick.step, h.stopped, hrunning]
    rfl
  have hkeep : ∀ k, w.sim.main ≠ .readingGroup k →
      HalfOk z.houses (z.groups k) (z.group k) (s.groups k) (s.group k) (w.half k) := by
    intro k hk
    rw [(hframe k hk).1, (hframe k hk).2]
    refine (h.half k).congr fun j hj => ?_
    rw [hhouses fun n hn => ?_]
    -- who is at a house is there after all houses have been read
    have hunborn := hexclusive.unborn 0 (by rw [h.main, hn]; rfl) k (Nat.zero_le k)
    simp [hunborn, GroupPc.inside] at hj
  by_cases hread : ∃ i, w.sim.main = .readingGroup i
  · obtain ⟨i, hpc⟩ := hread
    have hunborn := hexclusive.unborn i (by rw [h.main, hpc]; rfl) i (Nat.le_refl i)
    have hpc' : ∀ j, w.sim.group i ≠ .visiting j := by
      intro j hj
      have hinside := (h.half i).inside
      rw [hunborn, hj] at hinside
      cases hinside
    obtain ⟨hwhole, hg, hgroup⟩ := (h.half i).whole hpc'
    refine ⟨_, hstep.trans (by rw [mainStep_withGroups_reading hpc hg hgroup, hz]; rfl), rfl, fun k => ?_,
      fun _ hi => by cases hi⟩
    by_cases hk : k = i
    · subst hk
      simp [State.withGroups, HalfOk, hwhole]
    · have hne : w.sim.main ≠ .readingGroup k := by
        rw [hpc]
        exact fun heq => hk (MainPc.readingGroup.inj heq).symm
      simpa [State.withGroups, Function.update_of_ne hk] using hkeep k hne
  · rw [not_exists] at hread
    have hmain := mainStep_withGroups (T := T) hread (fun k => (h.half k).isSome)
      (fun k => (h.half k).idle_iff rfl) fun k => (h.half k).idle_iff rfl
    exact ⟨z.withGroups s.groups s.group, hstep.trans (by rw [hmain, hz]; rfl), rfl,
      fun k => hkeep k (hread k), fun _ hi => by cases hi⟩

/-- The neighborhood thread moves on. -/
theorem Follows.neighborhoodMoves (h : Follows w s) (hexclusive : Exclusive s)
    (hrunning : w.sim.stopped = none) {z : State} (hz : neighborhoodStep w.sim = some z) :
    ∃ s', Trick.step T s .neighborhood = some s' ∧ Follows { w with sim := z } s' := by
  have hframe : z.groups = w.sim.groups ∧ z.group = w.sim.group ∧ z.G = w.sim.G ∧
      ∀ j, w.sim.neighborhood.inside ≠ some j → z.houses j = w.sim.houses j := by
    cases neighborhoodStep_cases (T := T) hz with
    | @refill k candy hpc =>
        refine ⟨rfl, rfl, rfl, fun j hj => ?_⟩
        have hne : j ≠ k := by
          rintro rfl
          rw [hpc] at hj
          exact hj rfl
        exact Function.update_of_ne hne ..
    | _ => exact ⟨rfl, rfl, rfl, fun _ _ => rfl⟩
  obtain ⟨hgroups, hgroup, hG, hhouses⟩ := hframe
  have hstep : Trick.step T s .neighborhood =
      neighborhoodStep (w.sim.withGroups s.groups s.group) := by
    rw [← h.same, Trick.step, h.stopped, hrunning]
    rfl
  refine ⟨z.withGroups s.groups s.group,
    hstep.trans (by rw [neighborhoodStep_withGroups, hz]; rfl), rfl, fun k => ?_, fun i hi => ?_⟩
  · show HalfOk z.houses (z.groups k) (z.group k) (s.groups k) (s.group k) (w.half k)
    rw [hgroups, hgroup]
    refine (h.half k).congr fun j hj => hhouses j ?_
    have hneighborhood : s.neighborhood = w.sim.neighborhood := by rw [h.same]; rfl
    rw [← hneighborhood]
    exact hexclusive.group_not_refilled hj
  · rw [hG]
    exact h.adding i hi

/-- A group moves on outside of the visits. -/
theorem Follows.groupMoves (h : Follows w s) (hrunning : w.sim.stopped = none)
    (hpc : ∀ j, w.sim.group i ≠ .visiting j) {z : State} (hz : groupStep w.sim i = some z) :
    ∃ s', Trick.step T s (.group i) = some s' ∧ Follows { w with sim := z } s' := by
  have hframe : (∀ k ≠ i, z.groups k = w.sim.groups k ∧ z.group k = w.sim.group k) ∧ z.G = w.sim.G ∧
      z.houses = w.sim.houses := by
    cases groupStep_cases (T := T) hz with
    | stop => exact ⟨fun _ _ => ⟨rfl, rfl⟩, rfl, rfl⟩
    | visit hg hvisiting => exact absurd hvisiting (hpc _)
    | test | search | depart | arrive | lock | unlock =>
        refine ⟨fun k hk => ?_, rfl, rfl⟩
        simp [State.moveGroup, State.wait, State.post, hk]
  obtain ⟨hsame, hG, hhouses⟩ := hframe
  obtain ⟨hwhole, hg, hgroup⟩ := (h.half i).whole hpc
  have hstep : Trick.step T s (.group i) = groupStep (w.sim.withGroups s.groups s.group) i := by
    rw [← h.same, Trick.step, h.stopped, hrunning]
    rfl
  refine ⟨z.withGroups (Function.update s.groups i (z.groups i)) (Function.update s.group i (z.group i)),
    hstep.trans (by rw [groupStep_withGroups hg hgroup, hz]; rfl), rfl, fun k => ?_, fun n hn => ?_⟩
  · by_cases hk : k = i
    · subst hk
      simp [State.withGroups, HalfOk, hwhole]
    · have hhalf := h.half k
      simp only [State.withGroups, Function.update_of_ne hk, hhouses, (hsame k hk).1, (hsame k hk).2]
      exact hhalf
  · rw [hG]
    exact h.adding n hn

/-- A group at a house in `simulation`. -/
theorem step_visit {b : Group} {j : Fin numOfHouses} (hrunning : s.stopped = none) (hb : s.groups i = some b)
    (hpc : s.group i = .visiting j) :
    Trick.step T s (.group i) = some
      { s.moveGroup i (.leaving j) with
        houses := Function.update s.houses j (Trick.visit (s.houses j) b).1
        groups := Function.update s.groups i (some (Trick.visit (s.houses j) b).2) } := by
  simp [Trick.step, hrunning, groupStep, hb, hpc]

/-- The groups that are at other houses do not notice. -/
theorem Follows.others (h : Follows w s) (hexclusive : Exclusive s) {j : Fin numOfHouses}
    (hi : (s.group i).inside = some j) (house : House) {k : Nat} (hk : k ≠ i) :
    HalfOk (Function.update w.sim.houses j house) (w.sim.groups k) (w.sim.group k) (s.groups k) (s.group k)
      (w.half k) := by
  refine (h.half k).congr fun j' hj' => Function.update_of_ne ?_ ..
  rintro rfl
  exact hk (hexclusive.group_unique hj' hi)

/-- An assignment of a visit: the coarse visit happens with the one to the house. -/
theorem Follows.visits (h : Follows w s) (hexclusive : Exclusive s) (hrunning : w.sim.stopped = none)
    {g : Group} {j : Fin numOfHouses} (hg : w.sim.groups i = some g) (hpc : w.sim.group i = .visiting j) :
    Follows (w.visit i g j) s ∨
      ∃ s', Trick.step T s (.group i) = some s' ∧ Follows (w.visit i g j) s' := by
  have hinside : (s.group i).inside = some j := by rw [(h.half i).inside, hpc]; rfl
  have hothers := fun house k => h.others hexclusive hinside house (k := k)
  have hhalf := h.half i
  have hrunning' := h.stopped.trans hrunning
  have hhouses := h.houses
  unfold Watched.visit
  cases hw : w.half i with
  | whole =>
      rw [hw] at hhalf
      obtain ⟨hg', hpc'⟩ := hhalf
      by_cases henough : g.numOfKids ≤ (w.sim.houses j).numOfCandy
      · -- the house is lessened
        right
        simp only [if_pos henough]
        have hvisit : Trick.visit (s.houses j) g =
            ({ w.sim.houses j with numOfCandy := int32 ((w.sim.houses j).numOfCandy - g.numOfKids) },
              { g with numOfCandy := int32 (g.numOfCandy + g.numOfKids) }) := by
          rw [hhouses, Trick.visit, if_pos henough]
        refine ⟨_, step_visit hrunning' (hg'.trans hg) (hpc'.trans hpc), ?_, fun k => ?_, h.adding⟩
        · rw [hvisit, hhouses, h.same]
          rfl
        · by_cases hk : k = i
          · subst hk
            simp only [State.moveGroup, Function.update_self, hvisit]
            exact ⟨j, g, hpc, rfl, hg, rfl⟩
          · simp only [State.moveGroup, Function.update_of_ne hk]
            exact hothers _ k hk
      · -- the group gets what is left
        left
        simp only [if_neg henough]
        refine ⟨by rw [h.same]; rfl, fun k => ?_, h.adding⟩
        by_cases hk : k = i
        · subst hk
          simp only [Function.update_self]
          exact ⟨j, g, hpc, hpc'.trans hpc, not_le.mp henough, rfl, hg'.trans hg⟩
        · simp only [Function.update_of_ne hk]
          exact h.half k
  | lessened =>
      rw [hw] at hhalf
      obtain ⟨j', b, hvisiting, hleaving, hb, hb'⟩ := hhalf
      obtain rfl := GroupPc.visiting.inj (hpc.symm.trans hvisiting)
      obtain rfl := Option.some.inj (hg.symm.trans hb)
      left
      refine ⟨by rw [h.same]; rfl, fun k => ?_, h.adding⟩
      by_cases hk : k = i
      · subst hk
        simp only [State.moveGroup, Function.update_self]
        exact ⟨hb', hleaving⟩
      · simp only [State.moveGroup, Function.update_of_ne hk]
        exact h.half k
  | given =>
      rw [hw] at hhalf
      obtain ⟨j', b, hvisiting, hvisiting', hless, hb, hb'⟩ := hhalf
      obtain rfl := GroupPc.visiting.inj (hpc.symm.trans hvisiting)
      obtain rfl := Option.some.inj (hg.symm.trans hb)
      right
      have hvisit : Trick.visit (s.houses j) b =
          ({ w.sim.houses j with numOfCandy := 0 },
            { b with numOfCandy := int32 (b.numOfCandy + (w.sim.houses j).numOfCandy) }) := by
        rw [hhouses, Trick.visit, if_neg (not_le.mpr hless)]
      refine ⟨_, step_visit hrunning' hb' hvisiting', ?_, fun k => ?_, h.adding⟩
      · rw [hvisit, hhouses, h.same]
        rfl
      · by_cases hk : k = i
        · subst hk
          simp only [State.moveGroup, Function.update_self, hvisit]
          exact ⟨hg.symm, rfl⟩
        · simp only [State.moveGroup, Function.update_of_ne hk]
          exact hothers _ k hk

/-- A step of `printStatus()`. -/
theorem Follows.prints (h : Follows w s) {r : Report} (hr : printStep w.sim w.report = some r) :
    Follows { w with report := r } s := by
  refine ⟨h.same, h.half, fun i hi => ?_⟩
  unfold printStep at hr
  split at hr
  · split at hr
    · next hlt =>
        obtain ⟨g, -, rfl⟩ := Option.map_eq_some_iff.mp hr
        cases hi
        exact hlt
    · obtain rfl := Option.some.inj hr
      cases hi
  · obtain ⟨g, -, rfl⟩ := Option.map_eq_some_iff.mp hr
    cases hi
  · split at hr <;> obtain rfl := Option.some.inj hr <;> cases hi
  · next hpc =>
      obtain rfl := Option.some.inj hr
      exact h.adding i hi

/-- `printStatus()` looks at a group that has not been set up. -/
theorem Follows.printFails (h : Follows w s) (hrunning : w.sim.stopped = none)
    (hreports : w.sim.reports T = true) (hr : printStep w.sim w.report = none) :
    ∃ s', Trick.step T s .main = some s' ∧
      Follows { w with sim := w.sim.stop (.fault .uninitGroup) } s' := by
  have huninit : ∃ i : Nat, (i : Int) < w.sim.G ∧ w.sim.groups i = none := by
    unfold printStep at hr
    split at hr
    · next i hpc =>
        split at hr
        · next hlt => exact ⟨i, hlt, Option.map_eq_none_iff.mp hr⟩
        · cases hr
    · next i hpc => exact ⟨i, h.adding i hpc, Option.map_eq_none_iff.mp hr⟩
    · split at hr <;> cases hr
    · cases hr
  obtain ⟨i, hi, hnone⟩ := huninit
  have hG : s.G = w.sim.G := by rw [h.same]; rfl
  have hnot : ¬ s.Reportable := by
    intro hinit
    have hset := hinit i (by omega)
    rw [(h.half i).isSome, hnone] at hset
    cases hset
  have hstep : Trick.step T s .main = some (s.stop (.fault .uninitGroup)) := by
    rw [Trick.step, h.stopped, hrunning]
    unfold State.reports at hreports
    simp only [Option.isSome_none, Bool.false_eq_true, if_false, mainStep, h.main]
    split at hreports
    · next t hpc => simp [hpc, hnot, of_decide_eq_true hreports]
    · next hpc => simp [hpc, hnot]
    all_goals cases hreports
  refine ⟨_, hstep, ?_, h.half, h.adding⟩
  rw [h.same]
  rfl

/-- The step brings no candy into the program. -/
def BringsNothing (s : State) (l : Label) : Prop := stocked s l = 0 ∧ refilled s l = 0

theorem reports_bringsNothing (hreports : s.reports T = true) : BringsNothing s .main := by
  refine ⟨?_, rfl⟩
  unfold State.reports at hreports
  split at hreports
  case h_1 hpc | h_2 hpc => simp [Trick.stocked, hpc]
  all_goals cases hreports

/-- **One step** is none of `simulation`, or the same one. -/
theorem Follows.step (h : Follows w s) (hexclusive : Exclusive s) (hs : w.step T l = some w') :
    Follows w' s ∧ BringsNothing w.sim l ∨ ∃ s', Trick.step T s l = some s' ∧ Follows w' s' := by
  cases l with
  | main =>
      obtain ⟨hrunning, ⟨hreports, ⟨hr, rfl⟩ | ⟨r, hr, rfl⟩⟩ | ⟨-, z, hz, rfl⟩⟩ := Watched.step_main hs
      · exact .inr (h.printFails hrunning hreports.1 hr)
      · exact .inl ⟨h.prints hr, reports_bringsNothing hreports.1⟩
      · exact .inr (h.mainMoves hexclusive hrunning hz)
  | group i =>
      obtain ⟨hrunning, ⟨g, j, hg, hpc, rfl⟩ | ⟨hpc, z, hz, rfl⟩⟩ := Watched.step_group hs
      · exact (h.visits hexclusive hrunning hg hpc).imp_left fun h => ⟨h, rfl, rfl⟩
      · exact .inr (h.groupMoves hrunning hpc hz)
  | neighborhood =>
      obtain ⟨hrunning, z, hz, rfl⟩ := Watched.step_neighborhood hs
      exact .inr (h.neighborhoodMoves hexclusive hrunning hz)

/-- What a step brings, it brings in both programs. -/
theorem Follows.stocked (h : Follows w s) (l : Label) : Trick.stocked s l = Trick.stocked w.sim l := by
  rw [h.same]
  cases l <;> rfl

theorem Follows.refilled (h : Follows w s) (l : Label) : Trick.refilled s l = Trick.refilled w.sim l := by
  rw [h.same]
  cases l <;> rfl

theorem Follows.kidsRead (h : Follows w s) (l : Label) : Trick.kidsRead s l = Trick.kidsRead w.sim l := by
  rw [h.same]
  cases l <;> rfl

/-- At the start. -/
theorem follows_init (file : List UInt8) : Follows (initWatched file) (initState file) :=
  ⟨rfl, fun _ => ⟨rfl, rfl⟩, nofun⟩

/-- **What happens between the lines of the reports is what happens without them.**  Every run
with its reports line by line and its visits in two assignments is a run of `simulation`, in
which some of the steps are left out. -/
theorem watched_follows {file : List UInt8} {tr : List (Watched × Label)}
    (h : (watched file T).Run tr w) :
    ∃ tr' s, (simulation file T).Run tr' s ∧ Follows w s ∧
      (tr'.map Prod.snd).Sublist (tr.map Prod.snd) := by
  refine Machine.Run.invariant (I := fun tr w => ∃ tr' s, (simulation file T).Run tr' s ∧ Follows w s ∧
    (tr'.map Prod.snd).Sublist (tr.map Prod.snd)) ?_ ?_ h
  · rintro w rfl
    exact ⟨[], initState file, .start rfl, follows_init file, .slnil⟩
  · rintro tr w l w' ⟨tr', s, hrun, hfollows, hsub⟩ hs
    rw [List.map_append]
    rcases hfollows.step (exclusive_of_run hrun).2 hs with ⟨h', -⟩ | ⟨s', hs', h'⟩
    · exact ⟨tr', s, hrun, h', hsub.trans (List.sublist_append_left ..)⟩
    · refine ⟨tr' ++ [(s, l)], s', hrun.next hs', h', ?_⟩
      rw [List.map_append]
      exact hsub.append (.refl _)

end follows

/-- The group goes to two houses and back to the first one, where it gets what is left. -/
def halfVisit : List Label := startUp 1 ++ List.replicate (3 * numOfHouses + 19) (.group 0)

theorem watched_follows_halfVisit :
    ∃ w s, (watched sampleData 0).Run ((watched sampleData 0).trace (initWatched sampleData) halfVisit) w ∧
      (w.half 0 = .given ∧ groupCandy w.sim.G w.sim.groups = 7) ∧
      ∃ tr, (simulation sampleData 0).Run tr s ∧ Follows w s := by
  obtain ⟨w, hrun, hw⟩ := Machine.exists_run_of_exec (M := watched sampleData 0) rfl halfVisit
    (b := fun w => decide (w.half 0 = .given ∧ groupCandy w.sim.G w.sim.groups = 7)) (by decide +kernel)
  obtain ⟨tr, s, hs, hfollows, -⟩ := watched_follows hrun
  exact ⟨w, s, hrun, of_decide_eq_true hw, tr, hs, hfollows⟩

end Cmsc421.Trick
