import Cmsc421.Trick.Simulation

/-!
# Cmsc421.Trick.Bounds

Which data files drive the program out of bounds.

None of the accesses is guarded, so all of them rest on the data file.  In a run on a
well-formed file what is left of the file stays well formed, every group stands at a
house, and the search for the closest one, which leaves out at most two, finds one
(`Sound`).  On any other file there is a run that reads up to the first defect and then
does what C does not define.
-/

namespace Cmsc421.Trick

/-- The program has done something that C does not define, or has given up with "out of
bounds error". -/
def Faulty (s : State) : Prop := s.stopped = some .outOfBounds ∨ ∃ f, s.stopped = some (.fault f)

theorem two_le_maxCharPerLine : 2 ≤ maxCharPerLine := by decide

/-! ## well-formed files -/

/-- What is left of the file is well formed. -/
def State.Ahead (s : State) : Prop :=
  match s.main with
  | .readingG => wellFormed s.file = true
  | .readingHouse i =>
      housesOk s.G.toNat (numOfHouses - i) (records maxCharPerLine s.file) = true
  | .readingGroup i => groupsOk (s.G.toNat - i) (records maxCharPerLine s.file) = true
  | .creating | .reporting _ | .lastReport | .destroying _ | .joining _ =>
      refillsOk (records maxCharPerLine s.file) = true

/-- The groups that `main` has come to, of `G`. -/
def MainPc.passed (G : Nat) : MainPc → Nat
  | .readingG | .readingHouse _ => 0
  | .readingGroup i => i
  | .creating | .reporting _ | .lastReport | .destroying _ | .joining _ => G

/-- The search before the house `k` has a house, or has left out all of them. -/
structure Searched (g : Group) (k : Nat) (st : Search) : Prop where
  first : st.first = true → ∀ n < k, (n : Int) = g.startingHouse ∨ (n : Int) = g.currHouse
  closest : st.first = false → (houseIndex st.closest).isSome = true

/-- What holds of a group and its thread. -/
structure Standing (g : Group) (pc : GroupPc) : Prop where
  curr : (houseIndex g.currHouse).isSome = true
  search : ∀ k st, pc = .searching k st → Searched g k st

/-- What holds in a run on a well-formed file. -/
structure Sound (s : State) : Prop where
  ahead : s.Ahead
  passed : ∀ i < s.main.passed s.G.toNat, (s.groups i).isSome = true ∧ s.group i ≠ .unborn
  groups : ∀ i, ∀ g ∈ s.groups i, Standing g (s.group i)
  waiting : ∀ house candy, s.neighborhood = .waiting house candy → (houseIndex house).isSome = true

/-- Before the first house the search has left out none. -/
theorem searched_init (g : Group) : Searched g 0 Search.init := ⟨fun _ _ h => by omega, nofun⟩

/-- One round of the search. -/
theorem Searched.next {houses : Houses} {g : Group} {st st' : Search} {k : Nat}
    (h : Searched g k st) (hk : k < numOfHouses) (hst : searchHouse houses g st ⟨k, hk⟩ = some st') :
    Searched g (k + 1) st' := by
  have hindex := houseIndex_val ⟨k, hk⟩
  have hfound : ∀ d, Searched g (k + 1) ⟨false, k, d⟩ := fun d => ⟨nofun, fun _ => by
    simp only at hindex ⊢
    rw [hindex]
    rfl⟩
  unfold searchHouse at hst
  split at hst
  · next hcandidate =>
      obtain ⟨curr, -, rfl⟩ := Option.map_eq_some_iff.mp hst
      simp only
      split
      · exact hfound _
      · next hnotFirst =>
          have hkeep : Searched g (k + 1) st :=
            ⟨fun hfirst => absurd hfirst hnotFirst, h.closest⟩
          split
          · split
            · exact hfound _
            · exact hkeep
          · exact hkeep
  · next hleftOut =>
      obtain rfl := Option.some.inj hst
      refine ⟨fun hfirst n hn => ?_, h.closest⟩
      rcases Nat.lt_succ_iff_lt_or_eq.mp hn with hn | rfl
      · exact h.first hfirst n hn
      · by_contra hne
        rw [not_or] at hne
        exact hleftOut hne

/-- Two houses are left out at most, so the search finds one. -/
theorem Searched.found {g : Group} {k : Nat} {st : Search} (h : Searched g k st)
    (hk : numOfHouses ≤ k) : (houseIndex st.closest).isSome = true := by
  have hten : 10 ≤ k := hk
  refine h.closest (Bool.eq_false_iff.mpr fun hfirst => ?_)
  have h₀ := h.first hfirst 0 (by omega)
  have h₁ := h.first hfirst 1 (by omega)
  have h₂ := h.first hfirst 2 (by omega)
  omega

/-- A step of a group. -/
theorem Sound.moveGroup {s s' : State} {i : Nat} {g : Group} {pc : GroupPc} (h : Sound s)
    (hmain : s'.main = s.main) (hG : s'.G = s.G) (hfile : s'.file = s.file)
    (hneighborhood : s'.neighborhood = s.neighborhood)
    (hgroups : s'.groups = Function.update s.groups i (some g))
    (hgroup : s'.group = Function.update s.group i pc) (hpc : pc ≠ .unborn)
    (hstanding : Standing g pc) : Sound s' where
  ahead := by
    have hahead := h.ahead
    unfold State.Ahead at hahead ⊢
    rwa [hmain, hG, hfile]
  passed k hk := by
    rw [hmain, hG] at hk
    rw [hgroups, hgroup, Function.update_apply, Function.update_apply]
    split
    · exact ⟨rfl, hpc⟩
    · exact h.passed k hk
  groups k g' hg' := by
    rw [hgroups, Function.update_apply] at hg'
    rw [hgroup, Function.update_apply]
    split at hg'
    · next hk =>
        obtain rfl := Option.some.inj hg'
        rw [if_pos hk]
        exact hstanding
    · next hk =>
        rw [if_neg hk]
        exact h.groups k g' hg'
  waiting house candy hw := h.waiting house candy (hneighborhood.symm.trans hw)

/-- A line about a group or a refill gives the index of a house. -/
theorem houseIndex_of_namesHouse {line : List UInt8} {house n : Int} (h : namesHouse line = true)
    (hnum : twoNumbers line = some (house, n)) : (houseIndex house).isSome = true := by
  simpa [namesHouse, hnum] using h

theorem twoNumbers_of_namesHouse {line : List UInt8} (h : namesHouse line = true) :
    twoNumbers line ≠ none := by
  intro hnull
  simp [namesHouse, hnull] at h

/-- What is left once `main` has read the groups. -/
theorem State.Ahead.refills {s : State} (h : s.Ahead) (hlate : s.main.early = false) :
    refillsOk (records maxCharPerLine s.file) = true := by
  unfold State.Ahead at h
  split at h <;> simp_all [MainPc.early]

/-- The line that `main` reads about a house. -/
theorem State.Ahead.house {s : State} (h : s.Ahead) {i : Nat} {line rest : List UInt8}
    (hpc : s.main = .readingHouse i) (hi : i < numOfHouses)
    (hline : fgets maxCharPerLine s.file = some (line, rest)) :
    (threeNumbers line).isSome = true ∧
      housesOk s.G.toNat (numOfHouses - (i + 1)) (records maxCharPerLine rest) = true := by
  simp only [State.Ahead, hpc, records_some two_le_maxCharPerLine hline] at h
  rw [show numOfHouses - i = numOfHouses - (i + 1) + 1 by omega, housesOk, Bool.and_eq_true] at h
  exact h

/-- The line that `main` reads about a group. -/
theorem State.Ahead.group {s : State} (h : s.Ahead) {i : Nat} {line rest : List UInt8}
    (hpc : s.main = .readingGroup i) (hi : (i : Int) < s.G)
    (hline : fgets maxCharPerLine s.file = some (line, rest)) :
    namesHouse line = true ∧
      groupsOk (s.G.toNat - (i + 1)) (records maxCharPerLine rest) = true := by
  simp only [State.Ahead, hpc, records_some two_le_maxCharPerLine hline] at h
  rw [show s.G.toNat - i = s.G.toNat - (i + 1) + 1 by omega, groupsOk, Bool.and_eq_true] at h
  exact h

/-- The line that the neighborhood thread reads. -/
theorem State.Ahead.refill {s : State} (h : s.Ahead) {line rest : List UInt8}
    (hlate : s.main.early = false) (hline : fgets maxCharPerLine s.file = some (line, rest)) :
    namesHouse line = true ∧ refillsOk (records maxCharPerLine rest) = true := by
  have hrefills := h.refills hlate
  rw [records_some two_le_maxCharPerLine hline, refillsOk, List.all_cons, Bool.and_eq_true]
    at hrefills
  exact hrefills

/-- **One step.** -/
theorem Sound.step {T : Int} {s s' : State} {l : Label} (h : Sound s) (hcounted : Counted s)
    (hs : Trick.step T s l = some s') : Sound s' := by
  have hsame : ∀ {i : Nat} {g : Group}, s.groups i = some g →
      s.groups = Function.update s.groups i (some g) := fun hg =>
    (Function.update_eq_self_iff.mpr hg.symm).symm
  cases step_cases hs with
  | stop => exact ⟨h.ahead, h.passed, h.groups, h.waiting⟩
  | readG hpc hline =>
      refine ⟨?_, nofun, h.groups, h.waiting⟩
      have hahead := h.ahead
      simp only [State.Ahead, hpc, wellFormed, records_some two_le_maxCharPerLine hline] at hahead
      exact hahead
  | readHouse hpc hi hline =>
      exact ⟨(h.ahead.house hpc hi hline).2, nofun, h.groups, h.waiting⟩
  | housesRead hpc hi =>
      refine ⟨?_, nofun, h.groups, h.waiting⟩
      have hahead := h.ahead
      simp only [State.Ahead, hpc, Nat.sub_eq_zero_of_le hi, housesOk] at hahead
      exact hahead
  | @skipGroup i hpc hi heof =>
      have hahead := h.ahead
      simp only [State.Ahead, hpc, records_none heof] at hahead
      rw [show s.G.toNat - i = s.G.toNat - (i + 1) + 1 by omega, groupsOk] at hahead
      cases hahead
  | @readGroup i line rest startHouse numOfKids hpc hi hline hnum =>
      obtain ⟨hnames, hrest⟩ := h.ahead.group hpc hi hline
      have hpassed := h.passed
      rw [hpc] at hpassed
      refine ⟨hrest, fun k hk => ?_, fun k g hg => ?_, h.waiting⟩
      · simp only [State.moveGroup, Function.update_apply]
        split
        · exact ⟨rfl, nofun⟩
        · exact hpassed k (by simp only [MainPc.passed] at hk ⊢; omega)
      · simp only [State.moveGroup, Function.update_apply] at hg ⊢
        split at hg
        · next hk =>
            obtain rfl := Option.some.inj hg
            rw [if_pos hk]
            exact ⟨houseIndex_of_namesHouse hnames hnum, nofun⟩
        · next hk =>
            rw [if_neg hk]
            exact h.groups k g hg
  | @groupsRead i hpc hi =>
      have hahead := h.ahead
      have hpassed := h.passed
      rw [hpc] at hpassed
      refine ⟨?_, fun k hk => hpassed k ?_, h.groups, h.waiting⟩
      · simp only [State.Ahead, hpc, show s.G.toNat - i = 0 by omega, groupsOk] at hahead
        exact hahead
      · simp only [MainPc.passed] at hk ⊢
        omega
  | create hpc =>
      have hahead := h.ahead
      have hpassed := h.passed
      simp only [State.Ahead, hpc] at hahead
      rw [hpc] at hpassed
      exact ⟨hahead, hpassed, h.groups, nofun⟩
  | report hpc | endSimulation hpc | lastReport hpc | destroy hpc | destroyed hpc | join hpc =>
      have hpassed := h.passed
      rw [hpc] at hpassed
      exact ⟨h.ahead.refills (by rw [hpc]; rfl), hpassed, h.groups, h.waiting⟩
  | test hg hpc =>
      refine h.moveGroup rfl rfl rfl rfl (hsame hg) rfl (by split <;> nofun)
        ⟨(h.groups _ _ hg).curr, fun k st hsearch => ?_⟩
      split at hsearch
      · cases hsearch
      · cases hsearch
        exact searched_init _
  | search hg hpc hk hst =>
      have hstanding := h.groups _ _ hg
      refine h.moveGroup rfl rfl rfl rfl (hsame hg) rfl nofun
        ⟨hstanding.curr, fun k st hsearch => ?_⟩
      cases hsearch
      exact (hstanding.search _ _ hpc).next hk hst
  | depart hg hpc =>
      exact h.moveGroup rfl rfl rfl rfl (hsame hg) rfl nofun ⟨(h.groups _ _ hg).curr, nofun⟩
  | lock hg hpc | unlock hg hpc =>
      exact h.moveGroup rfl rfl rfl rfl (hsame hg) rfl nofun ⟨(h.groups _ _ hg).curr, nofun⟩
  | arrive hg hpc =>
      exact h.moveGroup rfl rfl rfl rfl rfl rfl nofun ⟨by simp, nofun⟩
  | visit hg hpc =>
      exact h.moveGroup rfl rfl rfl rfl rfl rfl nofun
        ⟨by simpa using (h.groups _ _ hg).curr, nofun⟩
  | testNeighborhood hpc =>
      refine ⟨h.ahead, h.passed, h.groups, fun house candy hw => ?_⟩
      simp only at hw
      split at hw <;> cases hw
  | noRefill hpc | lockRefill hpc | refill hpc | unlockRefill hpc =>
      exact ⟨h.ahead, h.passed, h.groups, nofun⟩
  | readRefill hpc hline hnum =>
      have hlate := hcounted.late hpc nofun
      obtain ⟨hnames, hrest⟩ := h.ahead.refill hlate hline
      refine ⟨?_, h.passed, h.groups, fun house candy hw => ?_⟩
      · unfold State.Ahead
        split <;> simp_all [MainPc.early]
      · cases hw
        exact houseIndex_of_namesHouse hnames hnum

/-- On a well-formed file the program only stops where a line about a house is missing and
where `main` returns. -/
theorem Sound.stop {T : Int} {s : State} {l : Label} {x : Stop} (h : Sound s)
    (hcounted : Counted s) (hstop : Stops T s l x) : x = .unreadable ∨ x = .returned := by
  cases hstop with
  | unreadable => exact .inl rfl
  | returned => exact .inr rfl
  | houseTokens hpc hi hline hnull =>
      have hsome := (h.ahead.house hpc hi hline).1
      simp [hnull] at hsome
  | groupTokens hpc hi hline hnull =>
      exact absurd hnull (twoNumbers_of_namesHouse (h.ahead.group hpc hi hline).1)
  | report hpc huninit =>
      have hpassed : s.main.passed s.G.toNat = s.G.toNat := by
        rcases hpc with ⟨t, -, hpc⟩ | hpc <;> rw [hpc] <;> rfl
      have hinit : s.Reportable := fun i hi => (h.passed i (by rwa [hpassed])).1
      exact absurd hinit huninit
  | join hpc hi hunborn =>
      have hpassed := h.passed
      rw [hpc] at hpassed
      exact absurd hunborn (hpassed _ (by simp only [MainPc.passed]; omega)).2
  | search hg hpc hk hout =>
      obtain ⟨curr, hcurr⟩ := Option.isSome_iff_exists.mp (h.groups _ _ hg).curr
      simp only [searchHouse, hcurr, Option.map_some] at hout
      split at hout <;> cases hout
  | lost hg hpc hk hneg =>
      have hfound := houseIndex_isSome.mp (((h.groups _ _ hg).search _ _ hpc).found hk)
      omega
  | depart hg hpc hk hneg hout =>
      have hstanding := h.groups _ _ hg
      rcases hout with hout | hout
      · simpa [hout] using (hstanding.search _ _ hpc).found hk
      · simpa [hout] using hstanding.curr
  | refillTokens hpc hline hnull =>
      have hnames := (h.ahead.refill (hcounted.late hpc nofun) hline).1
      exact absurd hnull (twoNumbers_of_namesHouse hnames)
  | refill hpc hout => simpa [hout] using h.waiting _ _ hpc

/-- A step stops the machine or leaves it running. -/
theorem Effect.stops_or_runs {T : Int} {s s' : State} {l : Label} (h : Effect T s l s') :
    (∃ x, Stops T s l x ∧ s'.stopped = some x) ∨ s'.stopped = s.stopped := by
  cases h with
  | stop hstop => exact .inl ⟨_, hstop, rfl⟩
  | _ => exact .inr rfl

/-- No run on a well-formed file is faulty. -/
theorem not_faulty_of_wellFormed {file : List UInt8} (hfile : wellFormed file = true) {T : Int}
    {tr : List (State × Label)} {s : State} (h : (simulation file T).Run tr s) : ¬ Faulty s := by
  suffices hI : Counted s ∧ Sound s ∧ ¬ Faulty s from hI.2.2
  refine Machine.Run.invariant (I := fun _ s => Counted s ∧ Sound s ∧ ¬ Faulty s) ?_ ?_ h
  · rintro s rfl
    exact ⟨counted_init file, ⟨hfile, nofun, nofun, nofun⟩, by simp [Faulty, initState]⟩
  · rintro tr s l t ⟨hcounted, hsound, hfine⟩ hs
    refine ⟨hcounted.step hs, hsound.step hcounted hs, ?_⟩
    rcases (step_cases hs).stops_or_runs with ⟨x, hstop, hx⟩ | hx
    · rcases hsound.stop hcounted hstop with rfl | rfl
      · simp [Faulty, hx]
      · simp [Faulty, hx]
    · unfold Faulty at hfine ⊢
      rwa [hx]

/-! ## the other files -/

/-- From this state the program can become faulty. -/
def CanFault (file : List UInt8) (T : Int) (s : State) : Prop :=
  ∃ ls s', (simulation file T).exec s ls = some s' ∧ Faulty s'

section

variable {file : List UInt8} {T : Int} {s : State}

theorem CanFault.of_exec {t : State} (ls : List Label) (h : CanFault file T t)
    (he : (simulation file T).exec s ls = some t) : CanFault file T s := by
  obtain ⟨ls', u, hexec, hfault⟩ := h
  exact ⟨ls ++ ls', u, by rw [Machine.exec_append, he]; exact hexec, hfault⟩

theorem CanFault.of_step {t : State} {l : Label} (h : CanFault file T t)
    (hs : Trick.step T s l = some t) : CanFault file T s :=
  h.of_exec [l] (by simpa [Machine.exec, simulation] using hs)

theorem canFault_of_fault {t : State} (ls : List Label) (l : Label) (f : Fault)
    (he : (simulation file T).exec s ls = some t)
    (hs : Trick.step T t l = some (t.stop (.fault f))) : CanFault file T s :=
  .of_exec ls (.of_step ⟨[], _, rfl, .inr ⟨f, rfl⟩⟩ hs) he

theorem step_main (hrun : s.stopped = none) : Trick.step T s .main = mainStep T s := by
  simp [Trick.step, hrun]

/-- The report of a group that has not been set up. -/
theorem canFault_report (hrun : s.stopped = none) (hpc : s.main = .reporting 0)
    (huninit : ¬ s.Reportable) : CanFault file T s := by
  by_cases hT : 0 ≤ T
  · refine canFault_of_fault [] .main .uninitGroup rfl ?_
    rw [step_main hrun]
    simp only [mainStep, hpc, if_pos hT, if_neg huninit]
  · refine .of_step (l := .main) (t := { s with endSimulation := true, main := .lastReport }) ?_ ?_
    · refine canFault_of_fault [] .main .uninitGroup rfl ?_
      rw [step_main (by exact hrun)]
      exact if_neg huninit
    · rw [step_main hrun]
      simp only [mainStep, hpc, if_neg hT]

/-- A group without a line. -/
theorem canFault_missing {i : Nat} (hrun : s.stopped = none) (hpc : s.main = .readingGroup i)
    (heof : fgets maxCharPerLine s.file = none) (huninit : ¬ s.Reportable) : CanFault file T s := by
  induction hn : s.G.toNat - i generalizing i s with
  | zero =>
      have hi : ¬ (i : Int) < s.G := by omega
      refine .of_step (l := .main) (t := { s with main := .creating }) ?_ ?_
      · refine .of_step (l := .main)
          (t := { s with neighborhood := .looping, main := .reporting 0 }) ?_ ?_
        · exact canFault_report hrun rfl huninit
        · rw [step_main (by exact hrun)]
          rfl
      · rw [step_main hrun]
        simp only [mainStep, hpc, if_neg hi]
  | succ n ih =>
      have hi : (i : Int) < s.G := by omega
      refine .of_step (l := .main) (t := { s with main := .readingGroup (i + 1) }) ?_ ?_
      · exact ih (s := { s with main := .readingGroup (i + 1) }) hrun rfl heof huninit
          (by simp only; omega)
      · rw [step_main hrun]
        simp only [mainStep, hpc, if_pos hi, heof]

/-- Nothing keeps the neighborhood thread from its next refill. -/
structure Refilling (s : State) : Prop where
  running : s.stopped = none
  going : s.endSimulation = false
  free : ∀ j, (s.locks j).value ≠ 0
  atTest : s.neighborhood = .looping

theorem afterPost_ne_zero (v : Nat) : afterPost v ≠ 0 := by
  unfold afterPost SEM_VALUE_MAX
  split <;> omega

/-- The neighborhood thread reads a line. -/
theorem Refilling.reads (h : Refilling s) {line rest : List UInt8} {house candy : Int}
    (hline : fgets maxCharPerLine s.file = some (line, rest))
    (hnum : twoNumbers line = some (house, candy)) :
    (simulation file T).exec s (List.replicate 2 .neighborhood) =
      some { s with file := rest, neighborhood := .waiting house candy } := by
  simp [Machine.exec, simulation, List.replicate, Trick.step, neighborhoodStep, h.running, h.going,
    h.atTest, hline, hnum]

/-- The neighborhood thread applies a refill and is at its test again. -/
theorem Refilling.refills (file : List UInt8) (T : Int) (h : Refilling s) {house : Int} (candy : Int)
    (rest : List UInt8) {j : Fin numOfHouses} (hj : houseIndex house = some j) :
    ∃ s', (simulation file T).exec { s with file := rest, neighborhood := .waiting house candy }
      (List.replicate 3 .neighborhood) = some s' ∧ s'.file = rest ∧ Refilling s' := by
  refine ⟨{ State.post (State.wait s j) j with
    file := rest
    houses := Function.update s.houses j (refill (s.houses j) candy)
    neighborhood := .looping }, ?_, rfl, h.running, h.going, fun k => ?_, rfl⟩
  · simp [Machine.exec, simulation, List.replicate, Trick.step, neighborhoodStep, State.wait,
      State.post, h.running, hj, h.free j]
  · simp only [State.post, State.wait, Function.update_apply]
    split
    · exact afterPost_ne_zero _
    · exact h.free k

/-- A refill that is not well formed: the neighborhood thread gets there by itself. -/
theorem Refilling.canFault (h : Refilling s)
    (hbad : refillsOk (records maxCharPerLine s.file) = false) : CanFault file T s := by
  induction hlines : records maxCharPerLine s.file generalizing s with
  | nil => simp [hlines, refillsOk] at hbad
  | cons line lines ih =>
      obtain ⟨rest, hline, hrest⟩ := fgets_of_records two_le_maxCharPerLine hlines
      rw [hlines, refillsOk, List.all_cons] at hbad
      cases hnum : twoNumbers line with
      | none =>
          refine canFault_of_fault [.neighborhood] .neighborhood .nullToken
            (t := { s with neighborhood := .reading }) ?_ ?_
          · simp [Machine.exec, simulation, Trick.step, neighborhoodStep, h.running, h.going, h.atTest]
          · simp [Trick.step, neighborhoodStep, h.running, hline, hnum]
      | some p =>
          obtain ⟨house, candy⟩ := p
          cases hj : houseIndex house with
          | none =>
              refine canFault_of_fault _ .neighborhood .houseIndex (h.reads hline hnum) ?_
              simp [Trick.step, neighborhoodStep, h.running, hj]
          | some j =>
              have hnames : namesHouse line = true := by simp [namesHouse, hnum, hj]
              rw [hnames, Bool.true_and] at hbad
              obtain ⟨s', hexec, hfile, hs'⟩ := h.refills file T candy rest hj
              rw [← hfile] at hrest
              exact ((ih hs' (by rw [hrest]; exact hbad) hrest).of_exec _ hexec).of_exec _
                (h.reads hline hnum)

/-- `main` reads the groups from the `i`-th on, and nothing else goes on. -/
structure ReadingGroups (s : State) (i : Nat) : Prop where
  running : s.stopped = none
  going : s.endSimulation = false
  free : ∀ j, (s.locks j).value ≠ 0
  absent : ∀ k, i ≤ k → s.groups k = none
  pc : s.main = .readingGroup i

/-- A group that starts out of bounds: its thread gets as far as the first house of its
search. -/
theorem ReadingGroups.canFault_start {i : Nat} (h : ReadingGroups s i) (hi : (i : Int) < s.G)
    {line rest : List UInt8} {startHouse numOfKids : Int}
    (hline : fgets maxCharPerLine s.file = some (line, rest))
    (hnum : twoNumbers line = some (startHouse, numOfKids)) (hout : houseIndex startHouse = none) :
    CanFault file T s := by
  have hne : 0 ≠ startHouse := by
    rintro rfl
    cases hout
  refine canFault_of_fault (t := { s.moveGroup i (.searching 0 Search.init) with
    file := rest
    groups := Function.update s.groups i (some ⟨i, startHouse, startHouse, numOfKids, 0⟩)
    main := .readingGroup (i + 1) }) [.main, .group i] (.group i) .houseIndex ?_ ?_
  · simp [Machine.exec, simulation, Trick.step, mainStep, groupStep, State.moveGroup, h.running,
      h.going, h.pc, hi, hline, hnum]
  · simp [Trick.step, groupStep, State.moveGroup, searchHouse, h.running, hne, hout]

/-- A group that is not well formed. -/
theorem ReadingGroups.canFault {n i : Nat} (h : ReadingGroups s i) (hn : s.G.toNat - i = n)
    (hbad : groupsOk n (records maxCharPerLine s.file) = false) : CanFault file T s := by
  induction n generalizing i s with
  | zero =>
      have hi : ¬ (i : Int) < s.G := by omega
      refine CanFault.of_exec [.main, .main]
        (Refilling.canFault (s := { s with neighborhood := .looping, main := .reporting 0 })
          ⟨h.running, h.going, h.free, rfl⟩ hbad) ?_
      simp [Machine.exec, simulation, Trick.step, mainStep, h.running, h.pc, hi]
  | succ n ih =>
      have hi : (i : Int) < s.G := by omega
      cases hline : fgets maxCharPerLine s.file with
      | none =>
          refine canFault_missing h.running h.pc hline fun hinit => ?_
          simpa [h.absent i le_rfl] using hinit i (by omega)
      | some p =>
          obtain ⟨line, rest⟩ := p
          rw [records_some two_le_maxCharPerLine hline, groupsOk] at hbad
          cases hnum : twoNumbers line with
          | none =>
              refine canFault_of_fault [] .main .nullToken rfl ?_
              simp [Trick.step, mainStep, h.running, h.pc, hi, hline, hnum]
          | some p =>
              obtain ⟨startHouse, numOfKids⟩ := p
              cases hj : houseIndex startHouse with
              | none => exact h.canFault_start hi hline hnum hj
              | some j =>
                  have hnames : namesHouse line = true := by simp [namesHouse, hnum, hj]
                  rw [hnames, Bool.true_and] at hbad
                  refine CanFault.of_step (l := .main) (ih (s := { s.moveGroup i .looping with
                    file := rest
                    groups := Function.update s.groups i
                      (some ⟨i, startHouse, startHouse, numOfKids, 0⟩)
                    main := .readingGroup (i + 1) })
                    ⟨h.running, h.going, h.free, fun k hk => ?_, rfl⟩ ?_ hbad) ?_
                  · have hne : k ≠ i := by omega
                    exact (Function.update_of_ne hne ..).trans (h.absent k (by omega))
                  · simp only [State.moveGroup]
                    omega
                  · simp [Trick.step, mainStep, h.running, h.pc, hi, hline, hnum]

/-- `main` reads the houses from the `i`-th on. -/
structure ReadingHouses (s : State) (i : Nat) : Prop where
  running : s.stopped = none
  going : s.endSimulation = false
  free : ∀ j : Fin numOfHouses, j < i → (s.locks j).value ≠ 0
  absent : ∀ k, s.groups k = none
  pc : s.main = .readingHouse i

/-- A house or something behind it that is not well formed. -/
theorem ReadingHouses.canFault {n i : Nat} (h : ReadingHouses s i) (hn : numOfHouses - i = n)
    (hbad : housesOk s.G.toNat n (records maxCharPerLine s.file) = false) : CanFault file T s := by
  induction n generalizing i s with
  | zero =>
      have hi : numOfHouses ≤ i := by omega
      refine CanFault.of_step (l := .main)
        (ReadingGroups.canFault (s := { s with main := .readingGroup 0 })
          ⟨h.running, h.going, fun j => h.free j (by omega), fun k _ => h.absent k, rfl⟩ rfl hbad) ?_
      simp [Trick.step, mainStep, h.running, h.pc, not_lt.mpr hi]
  | succ n ih =>
      have hi : i < numOfHouses := by omega
      cases hline : fgets maxCharPerLine s.file with
      | none => simp [records_none hline, housesOk] at hbad
      | some p =>
          obtain ⟨line, rest⟩ := p
          rw [records_some two_le_maxCharPerLine hline, housesOk] at hbad
          cases hnum : threeNumbers line with
          | none =>
              refine canFault_of_fault [] .main .nullToken rfl ?_
              simp [Trick.step, mainStep, h.running, h.pc, hi, hline, hnum]
          | some p =>
              obtain ⟨x, y, candy⟩ := p
              rw [hnum, Option.isSome_some, Bool.true_and] at hbad
              refine CanFault.of_step (l := .main) (ih (i := i + 1) (s := { s with
                file := rest
                houses := Function.update s.houses ⟨i, hi⟩ ⟨i, x, y, candy⟩
                locks := Function.update s.locks ⟨i, hi⟩ ⟨1, false⟩
                main := .readingHouse (i + 1) })
                ⟨h.running, h.going, fun j hj => ?_, h.absent, rfl⟩ (by omega) hbad) ?_
              · simp only [Function.update_apply]
                split
                · exact Nat.one_ne_zero
                · next hne => exact h.free j (by have := Fin.val_ne_of_ne hne; simp only at this; omega)
              · simp [Trick.step, mainStep, h.running, h.pc, hi, hline, hnum]

/-- On a file that is not well formed the program can become faulty. -/
theorem canFault_of_not_wellFormed (T : Int) {data : List UInt8} (hbad : wellFormed data = false) :
    CanFault data T (initState data) := by
  unfold wellFormed at hbad
  cases hline : fgets maxCharPerLine data with
  | none => simp [records_none hline] at hbad
  | some p =>
      obtain ⟨line, rest⟩ := p
      rw [records_some two_le_maxCharPerLine hline] at hbad
      refine CanFault.of_step (l := .main)
        (ReadingHouses.canFault (i := 0) (s := { initState data with
          file := rest, G := atoi line, main := .readingHouse 0 })
          ⟨rfl, rfl, fun j hj => by omega, fun _ => rfl, rfl⟩ rfl hbad) ?_
      simp [Trick.step, mainStep, initState, hline]

end

/-- **When the program stays in bounds.**  No run on a data file, however its threads are
scheduled, passes `NULL` to `atoi`, uses an index out of bounds, a group or a thread id
that has not been set up, or exits with "out of bounds error", iff the file is well
formed. -/
theorem in_bounds_iff (file : List UInt8) (T : Int) :
    (∀ tr s, (simulation file T).Run tr s → ¬ Faulty s) ↔ wellFormed file = true := by
  constructor
  · intro h
    by_contra hbad
    obtain ⟨ls, s, hexec, hfault⟩ :=
      canFault_of_not_wellFormed T (by simpa using hbad : wellFormed file = false)
    exact h _ s ((Machine.Run.start rfl).replay hexec) hfault
  · exact fun hfile tr s hrun => not_faulty_of_wellFormed hfile hrun

/-- One group is announced, and its line is missing. -/
def missingGroup : List UInt8 :=
  ascii "1\n0 0 4\n1 0 4\n2 0 4\n3 0 4\n4 0 4\n5 0 4\n6 0 4\n7 0 4\n8 0 4\n9 0 4\n"

/-- `main` skips it without a word and prints its status. -/
theorem missing_group_reported :
    ∃ tr s, (simulation missingGroup 0).Run tr s ∧ Faulty s := by
  obtain ⟨s, hrun, hs⟩ := Machine.exists_run_of_exec (M := simulation missingGroup 0) rfl
    (startUp 1 ++ [.main]) (b := fun s => decide (s.stopped = some (.fault .uninitGroup)))
    (by decide +kernel)
  exact ⟨_, s, hrun, .inr ⟨_, of_decide_eq_true hs⟩⟩

end Cmsc421.Trick
