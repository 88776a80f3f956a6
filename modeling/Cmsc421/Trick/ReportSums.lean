import Cmsc421.Trick.Report

/-!
# Cmsc421.Trick.ReportSums

What the reports of `hw3.c` add up to.

A report is no snapshot, but it reads all groups before it reads a house, and candy only goes
from a house to a group.  So what a group is counted with has not been left in a house, with
one exception: where the house has too little the group gets the candy first, and between the
two assignments both have it.  A report counts no more than all the candy there is and what is
caught in such a moment (`report_bounds`).
-/

namespace Cmsc421.Trick

open Finset

/-! ## the columns of a report -/

/-- The sum of the lines about the groups. -/
def Report.collected (r : Report) : Int := (r.groups.map (·.numOfCandy)).sum

/-- The sum of the lines about the houses. -/
def Report.available (r : Report) : Int := (r.houses.map (·.numOfCandy)).sum

/-- The number of groups, of `G`, that have been added to the total. -/
def ReportPc.added (G : Nat) : ReportPc → Nat
  | .group i | .adding i => i
  | .house _ | .printed => G

/-- The number of houses that have their line. -/
def ReportPc.listed : ReportPc → Nat
  | .group _ | .adding _ => 0
  | .house i => i
  | .printed => numOfHouses

/-- The candy that a house still has although its group has got it. -/
def Watched.doubled (w : Watched) (i : Nat) : Int :=
  match w.half i, w.sim.group i with
  | .given, .visiting j => (w.sim.houses j).numOfCandy
  | _, _ => 0

/-- The candy that a step of `main` adds to the total while a house still has it. -/
def countedTwice (w : Watched) : Label → Int
  | .main =>
      match w.report.pc with
      | .adding i => w.doubled i
      | _ => 0
  | .group _ | .neighborhood => 0

/-- The step is not one of a report. -/
def Watched.restarts (T : Int) (w : Watched) : Label → Bool
  | .main => !decide (w.sim.reports T ∧ w.report.pc ≠ .printed)
  | .group _ | .neighborhood => false

/-- What has been counted twice since the report began. -/
def twice (T : Int) (tr : List (Watched × Label)) : Int :=
  tr.foldl (fun d p => if p.1.restarts T p.2 then 0 else d + countedTwice p.1 p.2) 0

section twice

variable {T : Int} {w : Watched}

theorem twice_concat (tr : List (Watched × Label)) (w : Watched) (l : Label) :
    twice T (tr ++ [(w, l)]) = if w.restarts T l then 0 else twice T tr + countedTwice w l := by
  simp [twice]

theorem twice_print (hreports : w.sim.reports T = true ∧ w.report.pc ≠ .printed)
    (tr : List (Watched × Label)) : twice T (tr ++ [(w, .main)]) = twice T tr + countedTwice w .main := by
  simp [twice_concat, Watched.restarts, hreports]

theorem twice_restart (hno : ¬ (w.sim.reports T = true ∧ w.report.pc ≠ .printed))
    (tr : List (Watched × Label)) : twice T (tr ++ [(w, .main)]) = 0 := by
  rw [twice_concat, if_pos]
  rw [Watched.restarts, decide_eq_false hno]
  rfl

theorem twice_other {l : Label} (hl : l ≠ .main) (tr : List (Watched × Label)) :
    twice T (tr ++ [(w, l)]) = twice T tr := by
  cases l with
  | main => exact absurd rfl hl
  | group | neighborhood => simp [twice_concat, Watched.restarts, countedTwice]

end twice

/-- The steps of a trace, without the reports. -/
def plain (tr : List (Watched × Label)) : List (State × Label) := tr.map fun p => (p.1.sim, p.2)

@[simp] theorem plain_concat (tr : List (Watched × Label)) (w : Watched) (l : Label) :
    plain (tr ++ [(w, l)]) = plain tr ++ [(w.sim, l)] := by simp [plain]

/-- All the candy there is. -/
def allCandy (tr : List (State × Label)) : Int := initialCandy tr + refillsApplied tr

/-! ## what has not been counted -/

/-- The candy of the groups that have not been added. -/
def State.unadded (s : State) (n : Nat) : Int :=
  ∑ i ∈ range s.G.toNat, if n ≤ i then Trick.collected (s.groups i) else 0

/-- The candy of the houses that have no line. -/
def State.unlisted (s : State) (n : Nat) : Int :=
  ∑ j : Fin numOfHouses, if n ≤ j.val then (s.houses j).numOfCandy else 0

/-- What has been counted, and what there is to count, is no more than all the candy and what
has been counted twice. -/
def Summed (r : Report) (s : State) (all double : Int) : Prop :=
  r.totalCandy + r.available + s.unadded (r.pc.added s.G.toNat) + s.unlisted r.pc.listed ≤ all + double

/-- The groups come before the houses. -/
theorem ReportPc.listed_of_added {pc : ReportPc} {G i : Nat} (h : pc.added G ≤ i) (hi : i < G) :
    pc.listed = 0 := by
  cases pc with
  | group | adding => rfl
  | house | printed => exact absurd hi (not_lt.mpr h)

theorem unadded_update {s s' : State} {i : Nat} {g g' : Group} (hi : i < s.G.toNat) (hG : s'.G = s.G)
    (hg : s.groups i = some g) (hgroups : s'.groups = Function.update s.groups i (some g')) (n : Nat) :
    s'.unadded n = s.unadded n + if n ≤ i then g'.numOfCandy - g.numOfCandy else 0 := by
  have hterm : ∀ k, (if n ≤ k then Trick.collected (s'.groups k) else 0) =
      Function.update (fun k => if n ≤ k then Trick.collected (s.groups k) else 0) i
        (if n ≤ i then g'.numOfCandy else 0) k := by
    intro k
    rw [hgroups]
    by_cases hk : k = i
    · subst hk
      simp [Trick.collected]
    · simp [hk]
  rw [State.unadded, State.unadded, hG, sum_congr rfl fun k _ => hterm k,
    Trick.sum_update (mem_range.mpr hi), hg]
  simp only [Trick.collected, Option.elim]
  split <;> omega

theorem unlisted_update {s s' : State} {j : Fin numOfHouses} {house : House}
    (hhouses : s'.houses = Function.update s.houses j house) (n : Nat) :
    s'.unlisted n = s.unlisted n +
      if n ≤ j.val then house.numOfCandy - (s.houses j).numOfCandy else 0 := by
  have hterm : ∀ k : Fin numOfHouses, (if n ≤ k.val then (s'.houses k).numOfCandy else 0) =
      Function.update (fun k : Fin numOfHouses => if n ≤ k.val then (s.houses k).numOfCandy else 0) j
        (if n ≤ j.val then house.numOfCandy else 0) k := by
    intro k
    rw [hhouses]
    by_cases hk : k = j
    · subst hk
      simp
    · simp [hk]
  rw [State.unlisted, State.unlisted, sum_congr rfl fun k _ => hterm k, Trick.sum_update (mem_univ j)]
  split <;> omega

theorem Summed.congr {r : Report} {s s' : State} {all double : Int} (h : Summed r s all double)
    (hG : s'.G = s.G) (hgroups : s'.groups = s.groups) (hhouses : s'.houses = s.houses) :
    Summed r s' all double := by
  rw [Summed, State.unadded, State.unlisted, hG, hgroups, hhouses]
  exact h

theorem State.unadded_of_le {s : State} {n : Nat} (h : s.G.toNat ≤ n) : s.unadded n = 0 :=
  sum_eq_zero fun _ hi => if_neg (not_le.mpr ((mem_range.mp hi).trans_le h))

/-- The next group. -/
theorem State.unadded_eq {s : State} {i : Nat} (hi : i < s.G.toNat) :
    s.unadded i = Trick.collected (s.groups i) + s.unadded (i + 1) := by
  have hterm : ∀ k, (if i ≤ k then Trick.collected (s.groups k) else 0) =
      (if k = i then Trick.collected (s.groups k) else 0) +
        if i + 1 ≤ k then Trick.collected (s.groups k) else 0 := by
    intro k
    split <;> split <;> split <;> omega
  rw [State.unadded, sum_congr rfl fun k _ => hterm k, sum_add_distrib, sum_ite_eq',
    if_pos (mem_range.mpr hi), State.unadded]

theorem State.unlisted_of_le {s : State} {n : Nat} (h : numOfHouses ≤ n) : s.unlisted n = 0 :=
  sum_eq_zero fun j _ => if_neg (not_le.mpr (j.isLt.trans_le h))

/-- The next house. -/
theorem State.unlisted_eq (s : State) (j : Fin numOfHouses) :
    s.unlisted j = (s.houses j).numOfCandy + s.unlisted (j + 1) := by
  have hterm : ∀ k : Fin numOfHouses, (if j.val ≤ k.val then (s.houses k).numOfCandy else 0) =
      (if k = j then (s.houses k).numOfCandy else 0) +
        if j.val + 1 ≤ k.val then (s.houses k).numOfCandy else 0 := by
    intro k
    split <;> split <;> split <;> omega
  rw [State.unlisted, sum_congr rfl fun k _ => hterm k, sum_add_distrib, sum_ite_eq', if_pos (mem_univ j),
    State.unlisted]

/-- Candy goes from a house to a group that may not have been counted; then the house has not
been counted either. -/
theorem Summed.visit {r : Report} {s s' : State} {all double : Int} (h : Summed r s all double) {i : Nat}
    {g g' : Group} {j : Fin numOfHouses} {house : House} (hi : i < s.G.toNat) (hg : s.groups i = some g)
    (hG : s'.G = s.G) (hgroups : s'.groups = Function.update s.groups i (some g'))
    (hhouses : s'.houses = Function.update s.houses j house) (hgiven : g.numOfCandy ≤ g'.numOfCandy)
    (hmoved : house.numOfCandy + g'.numOfCandy = (s.houses j).numOfCandy + g.numOfCandy) :
    Summed r s' all double := by
  unfold Summed at h ⊢
  rw [hG, unadded_update hi hG hg hgroups, unlisted_update hhouses]
  by_cases hadded : r.pc.added s.G.toNat ≤ i
  · rw [if_pos hadded, ReportPc.listed_of_added hadded hi, if_pos (Nat.zero_le _)]
    rw [ReportPc.listed_of_added hadded hi] at h
    omega
  · rw [if_neg hadded]
    split <;> omega

/-- Candy comes to a house that may have been counted. -/
theorem Summed.refill {r : Report} {s s' : State} {all double candy : Int} (h : Summed r s all double)
    {j : Fin numOfHouses} {house : House} (hG : s'.G = s.G) (hgroups : s'.groups = s.groups)
    (hhouses : s'.houses = Function.update s.houses j house) (hcandy : 0 ≤ candy)
    (hgiven : house.numOfCandy = (s.houses j).numOfCandy + candy) : Summed r s' (all + candy) double := by
  have hunadded : s'.unadded (r.pc.added s.G.toNat) = s.unadded (r.pc.added s.G.toNat) := by
    rw [State.unadded, State.unadded, hG, hgroups]
  unfold Summed at h ⊢
  rw [hG, hunadded, unlisted_update hhouses]
  split <;> omega

/-- **A step of another thread** is nothing to the report, a visit or a refill. -/
theorem Summed.step {T : Int} {tr : List (State × Label)} {s s' : State} {l : Label} {r : Report}
    {all double : Int} (h : Summed r s all double) (hbal : Balanced tr s) (hcounted : Counted s)
    (hpos : NotNegative s l) (hfits : allCandy (tr ++ [(s, l)]) < 2 ^ 31) (hl : l ≠ .main)
    (hs : Trick.step T s l = some s') : Summed r s' (all + refilled s l) double := by
  have htotal := hbal.total
  have hrefilled := hpos.refilled
  rw [allCandy, initialCandy_concat, refillsApplied_concat] at hfits
  have hquiet : ∀ s'' : State, refilled s l = 0 → s''.G = s.G → s''.groups = s.groups →
      s''.houses = s.houses → Summed r s'' (all + refilled s l) double := by
    intro s'' hnothing hG hgroups hhouses
    rw [hnothing, Int.add_zero]
    exact h.congr hG hgroups hhouses
  cases step_cases hs with
  | readG | readHouse | housesRead | skipGroup | readGroup | groupsRead | create | report | endSimulation
  | lastReport | destroy | destroyed | join => exact absurd rfl hl
  | stop hstop => exact hquiet _ hstop.brings_nothing.2 rfl rfl rfl
  | test | search | depart | lock | unlock => exact hquiet _ rfl rfl rfl rfl
  | testNeighborhood hpc | noRefill hpc | readRefill hpc | lockRefill hpc | unlockRefill hpc =>
      exact hquiet _ (by simp [refilled, hpc]) rfl rfl rfl
  | @arrive i g j d hg hpc =>
      rw [show refilled s (.group i) = 0 from rfl, Int.add_zero]
      exact h.visit (hcounted.lt hg) hg rfl rfl (Function.update_eq_self j s.houses).symm (Int.le_refl _) rfl
  | @visit i g j hg hpc =>
      obtain ⟨hcandy, hkids⟩ := hbal.groups i g hg
      have hhouse := hbal.houses j
      have hhouseLe := hbal.house_le j
      have hgroupLe := hbal.group_le hcounted hg
      have htreat : 0 ≤ treat (s.houses j) g := le_min hhouse hkids
      simp only [stocked, refilled] at hfits
      rw [show refilled s (.group i) = 0 from rfl, Int.add_zero]
      refine h.visit (hcounted.lt hg) hg rfl rfl rfl ?_ ?_ <;>
        rw [visit_eq hhouse hcandy hkids (by omega)] <;> dsimp only <;> omega
  | @refill j candy hpc =>
      have hcandy : refilled s .neighborhood = candy := by simp [refilled, hpc]
      have hhouse := hbal.houses j
      have hhouseLe := hbal.house_le j
      have hgroups := hbal.groupCandy_nonneg
      rw [hcandy] at hrefilled hfits ⊢
      simp only [stocked] at hfits
      exact h.refill rfl rfl rfl hrefilled (int32_of_fits (by omega) (by omega))

/-! ## the groups between the lines -/

/-- What a group has still to get can be added. -/
def Watched.Fits (w : Watched) : Prop :=
  ∀ i, w.half i = .lessened → ∀ g ∈ w.sim.groups i,
    0 ≤ g.numOfCandy ∧ 0 ≤ g.numOfKids ∧ g.numOfCandy + g.numOfKids < 2 ^ 31

section follows

variable {T : Int} {tr : List (State × Label)} {w w' : Watched} {s : State}

/-- A group has what it has in `simulation`, less what it has still to get, or with what the
house still has. -/
theorem Follows.candy (h : Follows w s) (hpending : w.Fits) (hbal : Balanced tr s) (hcounted : Counted s)
    (hfits : allCandy tr < 2 ^ 31) (i : Nat) :
    0 ≤ collected (w.sim.groups i) ∧ 0 ≤ w.doubled i ∧
      collected (w.sim.groups i) ≤ collected (s.groups i) + w.doubled i := by
  have htotal := hbal.total
  have hnonneg := hbal.collected_nonneg i
  have hhalf := h.half i
  rw [allCandy] at hfits
  unfold Watched.doubled
  cases hw : w.half i with
  | whole =>
      rw [hw] at hhalf
      rw [← hhalf.1]
      exact ⟨hnonneg, Int.le_refl 0, by simp⟩
  | lessened =>
      rw [hw] at hhalf
      obtain ⟨j, b, -, -, hb, hb'⟩ := hhalf
      obtain ⟨hcandy, hkids, hfit⟩ := hpending i hw b hb
      have hget : int32 (b.numOfCandy + b.numOfKids) = b.numOfCandy + b.numOfKids :=
        int32_of_fits (by omega) hfit
      rw [hb, hb', hget]
      simp only [collected, Option.elim]
      omega
  | given =>
      rw [hw] at hhalf
      obtain ⟨j, b, hpc, -, -, hb, hb'⟩ := hhalf
      have hhouse := hbal.houses j
      have hhouseLe := hbal.house_le j
      have hgroupLe := hbal.group_le hcounted hb'
      rw [h.houses] at hhouse hhouseLe
      rw [hb'] at hnonneg
      simp only [collected, Option.elim] at hnonneg
      have hget : int32 (b.numOfCandy + (w.sim.houses j).numOfCandy) =
          b.numOfCandy + (w.sim.houses j).numOfCandy := by
        rw [h.houses] at htotal
        exact int32_of_fits (by omega) (by omega)
      rw [hb, hb', hpc, hget]
      simp only [collected, Option.elim]
      omega

/-- What is counted twice is in different houses. -/
theorem Follows.doubled_le (h : Follows w s) (hexclusive : Exclusive s) (hbal : Balanced tr s) (n : Nat) :
    ∑ i ∈ range n, w.doubled i ≤ houseCandy s.houses := by
  have hinside : ∀ i ∈ range n, w.doubled i ≤
      ∑ j, if (s.group i).inside = some j then (s.houses j).numOfCandy else 0 := by
    intro i _
    have hnonneg : ∀ j ∈ univ, 0 ≤ if (s.group i).inside = some j then (s.houses j).numOfCandy else 0 := by
      intro j _
      split
      · exact hbal.houses j
      · exact Int.le_refl 0
    unfold Watched.doubled
    split
    · next j hw hpc =>
        have hin : (s.group i).inside = some j := by rw [(h.half i).inside, hpc]; rfl
        refine le_trans ?_ (single_le_sum hnonneg (mem_univ j))
        rw [if_pos hin, h.houses]
    · exact sum_nonneg hnonneg
  refine (sum_le_sum hinside).trans ?_
  rw [sum_comm]
  refine sum_le_sum fun j _ => ?_
  -- one group at most is there
  have hone : ((range n).filter fun i => (s.group i).inside = some j).card ≤ 1 :=
    card_le_one.mpr fun i hi k hk =>
      hexclusive.group_unique (mem_filter.mp hi).2 (mem_filter.mp hk).2
  rw [← sum_filter, sum_const]
  rcases Nat.le_one_iff_eq_zero_or_eq_one.mp hone with hcard | hcard
  · rw [hcard, zero_nsmul]
    exact hbal.houses j
  · rw [hcard, one_nsmul]

/-- The groups have no more than there is. -/
theorem Follows.groupCandy_le (h : Follows w s) (hpending : w.Fits) (hbal : Balanced tr s)
    (hcounted : Counted s) (hexclusive : Exclusive s) (hfits : allCandy tr < 2 ^ 31) :
    groupCandy w.sim.G w.sim.groups ≤ allCandy tr := by
  have hG : s.G = w.sim.G := by rw [h.same]; rfl
  have htotal := hbal.total
  have hdoubled := h.doubled_le hexclusive hbal w.sim.G.toNat
  have hsum : groupCandy w.sim.G w.sim.groups ≤
      groupCandy w.sim.G s.groups + ∑ i ∈ range w.sim.G.toNat, w.doubled i := by
    rw [groupCandy, groupCandy, ← sum_add_distrib]
    exact sum_le_sum fun i _ => (h.candy hpending hbal hcounted hfits i).2.2
  rw [hG] at htotal
  rw [allCandy]
  omega

/-- A step that is nothing to the report: no group loses candy. -/
structure Watched.Grows (w w' : Watched) : Prop where
  report : w'.report = w.report
  G : w'.sim.G = w.sim.G
  candy : ∀ i, collected (w.sim.groups i) ≤ collected (w'.sim.groups i)
  fits : w'.Fits

/-- The groups are left alone. -/
theorem Watched.Fits.same {z : State} (h : w.Fits) (hG : z.G = w.sim.G) (hgroups : z.groups = w.sim.groups) :
    w.Grows { w with sim := z } where
  report := rfl
  G := hG
  candy i := by rw [hgroups]
  fits i hi g hg := h i hi g (hgroups ▸ hg)

/-- A group is changed, and gets nothing later. -/
theorem Watched.Fits.update (h : w.Fits) {i : Nat} {g g' : Group} (hg : w.sim.groups i = some g)
    (hgroups : w'.sim.groups = Function.update w.sim.groups i (some g')) (hcandy : g.numOfCandy ≤ g'.numOfCandy)
    (hhalf : ∀ k ≠ i, w'.half k = w.half k) (hdone : w'.half i ≠ .lessened)
    (hG : w'.sim.G = w.sim.G) (hreport : w'.report = w.report) : w.Grows w' where
  report := hreport
  G := hG
  candy k := by
    rw [hgroups, Function.update_apply]
    split
    · next hk =>
        rw [hk, hg]
        exact hcandy
    · exact Int.le_refl _
  fits k hk b hb := by
    have hne : k ≠ i := by
      rintro rfl
      exact hdone hk
    rw [hgroups, Function.update_of_ne hne] at hb
    exact h k (hhalf k hne ▸ hk) b hb

/-- An assignment of a visit. -/
theorem Follows.visitGrows (h : Follows w s) (hpending : w.Fits) (hbal : Balanced tr s)
    (hcounted : Counted s) (hfits : allCandy tr < 2 ^ 31) {i : Nat} {g : Group} {j : Fin numOfHouses}
    (hg : w.sim.groups i = some g) : w.Grows (w.visit i g j) := by
  have htotal := hbal.total
  have hhouse := hbal.houses j
  have hhouseLe := hbal.house_le j
  have hhalf := h.half i
  rw [allCandy] at hfits
  have hother : ∀ half, ∀ k ≠ i, Function.update w.half i half k = w.half k := fun _ k hk =>
    Function.update_of_ne hk ..
  rw [h.houses] at hhouse hhouseLe htotal
  unfold Watched.visit
  cases hw : w.half i with
  | whole =>
      rw [hw] at hhalf
      have hg' := hhalf.1.trans hg
      obtain ⟨hcandy, hkids⟩ := hbal.groups i g hg'
      have hgroupLe := hbal.group_le hcounted hg'
      by_cases henough : g.numOfKids ≤ (w.sim.houses j).numOfCandy
      · simp only [if_pos henough]
        refine ⟨rfl, rfl, fun _ => Int.le_refl _, fun k hk b hb => ?_⟩
        by_cases hki : k = i
        · subst hki
          obtain rfl := Option.some.inj (hg.symm.trans hb)
          exact ⟨hcandy, hkids, by omega⟩
        · exact hpending k ((hother _ k hki).symm.trans hk) b hb
      · simp only [if_neg henough]
        have hget : int32 (g.numOfCandy + (w.sim.houses j).numOfCandy) =
            g.numOfCandy + (w.sim.houses j).numOfCandy := int32_of_fits (by omega) (by omega)
        refine hpending.update hg rfl ?_ (hother _) (by simp) rfl rfl
        dsimp only
        omega
  | lessened =>
      obtain ⟨hcandy, hkids, hfit⟩ := hpending i hw g hg
      have hget : int32 (g.numOfCandy + g.numOfKids) = g.numOfCandy + g.numOfKids :=
        int32_of_fits (by omega) hfit
      refine hpending.update hg rfl ?_ (hother _) (by simp) rfl rfl
      dsimp only
      omega
  | given =>
      exact hpending.update hg (Function.update_eq_self_iff.mpr hg.symm).symm (Int.le_refl _) (hother _)
        (by simp) rfl rfl

/-- **A step of another thread.** -/
theorem Follows.grows (h : Follows w s) (hpending : w.Fits) (hbal : Balanced tr s) (hcounted : Counted s)
    (hfits : allCandy tr < 2 ^ 31) {l : Label} (hl : l ≠ .main) (hs : w.step T l = some w') :
    w.Grows w' := by
  cases l with
  | main => exact absurd rfl hl
  | group i =>
      obtain ⟨-, ⟨g, j, hg, -, rfl⟩ | ⟨hpc, z, hz, rfl⟩⟩ := Watched.step_group hs
      · exact h.visitGrows hpending hbal hcounted hfits hg
      · have hwhole := ((h.half i).whole hpc).1
        cases groupStep_cases (T := T) hz with
        | visit hg hvisiting => exact absurd hvisiting (hpc _)
        | arrive hg => exact hpending.update hg rfl (Int.le_refl _) (fun _ _ => rfl) (by simp [hwhole]) rfl rfl
        | _ => exact hpending.same rfl rfl
  | neighborhood =>
      obtain ⟨-, z, hz, rfl⟩ := Watched.step_neighborhood hs
      cases neighborhoodStep_cases (T := T) hz <;> exact hpending.same rfl rfl

end follows

/-! ## the lines and the total -/

/-- The number of groups, of `G`, that have their line. -/
def ReportPc.lined (G : Nat) : ReportPc → Nat
  | .group i => i
  | .adding i => i + 1
  | .house _ | .printed => G

/-- The candy of the group that has its line and is not in the total. -/
def Report.pending (r : Report) (s : State) : Int :=
  match r.pc with
  | .adding i => Trick.collected (s.groups i)
  | .group _ | .house _ | .printed => 0

/-- The lines are about all groups and houses, in their order, and the total is between the
lines and what the groups have by now. -/
structure Totals (r : Report) (s : State) : Prop where
  groups : r.groups.map (·.id) = List.range (r.pc.lined s.G.toNat)
  houses : r.houses.map (·.id) = List.range r.pc.listed
  lined : r.pc.lined s.G.toNat ≤ s.G.toNat
  listed : r.pc.listed ≤ numOfHouses
  nonneg : 0 ≤ r.totalCandy
  column : r.collected ≤ r.totalCandy + r.pending s
  total : r.totalCandy ≤ ∑ i ∈ range (r.pc.added s.G.toNat), Trick.collected (s.groups i)

theorem totals_start (s : State) : Totals Report.start s :=
  ⟨rfl, rfl, Nat.zero_le _, Nat.zero_le _, Int.le_refl 0, Int.le_refl 0, Int.le_refl 0⟩

/-- The groups get more. -/
theorem Totals.grow {r : Report} {s s' : State} (h : Totals r s) (hG : s'.G = s.G)
    (hgroups : ∀ i, collected (s.groups i) ≤ collected (s'.groups i)) : Totals r s' where
  groups := hG ▸ h.groups
  houses := h.houses
  lined := hG ▸ h.lined
  listed := h.listed
  nonneg := h.nonneg
  column := by
    have hpending : r.pending s ≤ r.pending s' := by
      unfold Report.pending
      split
      · exact hgroups _
      all_goals exact Int.le_refl 0
    have hcolumn := h.column
    omega
  total := by
    rw [hG]
    exact h.total.trans (sum_le_sum fun i _ => hgroups i)

/-- The total does not wrap. -/
theorem Totals.add {r : Report} {s : State} (h : Totals r s) (hnonneg : ∀ i, 0 ≤ collected (s.groups i))
    (hfits : groupCandy s.G s.groups < 2 ^ 31) {i : Nat} (hpc : r.pc = .adding i) {g : Group}
    (hg : s.groups i = some g) : int32 (r.totalCandy + g.numOfCandy) = r.totalCandy + g.numOfCandy := by
  have hnonneg' := h.nonneg
  have htotal := h.total
  have hlined := h.lined
  have hcandy := hnonneg i
  rw [hpc] at htotal hlined
  rw [hg] at hcandy
  have hsum : ∑ k ∈ range (i + 1), collected (s.groups k) ≤ groupCandy s.G s.groups :=
    sum_le_sum_of_subset_of_nonneg (range_subset_range.mpr hlined) fun k _ _ => hnonneg k
  rw [sum_range_succ, hg] at hsum
  simp only [ReportPc.added, collected, Option.elim] at htotal hcandy hsum
  exact int32_of_fits (by omega) (by omega)

/-- **A step of `printStatus()`.** -/
theorem Totals.print {r r' : Report} {s : State} (h : Totals r s)
    (hnonneg : ∀ i, 0 ≤ collected (s.groups i)) (hfits : groupCandy s.G s.groups < 2 ^ 31)
    (hr : printStep s r = some r') : Totals r' s := by
  have hcolumn := h.column
  have hgroups := h.groups
  have hhouses := h.houses
  have htotal := h.total
  have hlined := h.lined
  have hlisted := h.listed
  unfold printStep at hr
  unfold Report.pending at hcolumn
  split at hr
  · next i hpc =>
      rw [hpc] at hcolumn hgroups hhouses htotal hlined
      split at hr
      · next hi =>
          obtain ⟨g, hg, rfl⟩ := Option.map_eq_some_iff.mp hr
          refine ⟨?_, hhouses, ?_, Nat.zero_le _, h.nonneg, ?_, htotal⟩
          · rw [List.map_append, hgroups]
            exact List.range_succ.symm
          · show i + 1 ≤ s.G.toNat
            omega
          · simp only [Report.collected, Report.pending, List.map_append, List.sum_append, hg,
              Trick.collected, Option.elim, List.map_cons, List.map_nil, List.sum_cons, List.sum_nil]
            simp only [Report.collected] at hcolumn
            omega
      · next hi =>
          obtain rfl := Option.some.inj hr
          have hall : i = s.G.toNat := by
            have hle : i ≤ s.G.toNat := hlined
            omega
          refine ⟨hall ▸ hgroups, hhouses, Nat.le_refl _, Nat.zero_le _, h.nonneg, hcolumn, ?_⟩
          rw [hall] at htotal
          exact htotal
  · next i hpc =>
      obtain ⟨g, hg, rfl⟩ := Option.map_eq_some_iff.mp hr
      have hadd := h.add hnonneg hfits hpc hg
      have hcandy := hnonneg i
      have hpos := h.nonneg
      rw [hpc] at hcolumn hgroups hhouses htotal hlined
      simp only [hg, collected, Option.elim] at hcolumn hcandy
      refine ⟨hgroups, hhouses, hlined, Nat.zero_le _, ?_, ?_, ?_⟩
      · simp only [hadd]
        omega
      · simp only [hadd, Report.pending, Int.add_zero]
        exact hcolumn
      · simp only [hadd, ReportPc.added, sum_range_succ, hg, collected, Option.elim]
        exact Int.add_le_add_right htotal _
  · next i hpc =>
      rw [hpc] at hcolumn hgroups hhouses htotal hlined
      split at hr
      · next hi =>
          obtain rfl := Option.some.inj hr
          refine ⟨hgroups, ?_, hlined, hi, h.nonneg, hcolumn, htotal⟩
          rw [List.map_append, hhouses]
          exact List.range_succ.symm
      · next hi =>
          obtain rfl := Option.some.inj hr
          have hall : i = numOfHouses := by
            rw [hpc] at hlisted
            exact Nat.le_antisymm hlisted (not_lt.mp hi)
          exact ⟨hgroups, hhouses.trans (congrArg List.range hall), hlined, Nat.le_refl _, h.nonneg, hcolumn, htotal⟩
  · obtain rfl := Option.some.inj hr
    exact h

/-- **A step of `printStatus()`** counts what the group has, which a house may have as well. -/
theorem Summed.print {w : Watched} {s : State} {r : Report} {all double : Int}
    (h : Summed w.report s all double) (hfollows : Follows w s) (htotals : Totals w.report w.sim)
    (hnonneg : ∀ i, 0 ≤ collected (w.sim.groups i)) (hfits : groupCandy w.sim.G w.sim.groups < 2 ^ 31)
    (hcandy : ∀ i, collected (w.sim.groups i) ≤ collected (s.groups i) + w.doubled i)
    (hr : printStep w.sim w.report = some r) : Summed r s all (double + countedTwice w .main) := by
  have hG : s.G = w.sim.G := by rw [hfollows.same]; rfl
  have hhouses := hfollows.houses
  unfold Summed at h ⊢
  unfold printStep at hr
  unfold countedTwice
  split at hr
  · next i hpc =>
      simp only [hpc, Int.add_zero] at h ⊢
      split at hr
      · obtain ⟨g, -, rfl⟩ := Option.map_eq_some_iff.mp hr
        exact h
      · next hi =>
          obtain rfl := Option.some.inj hr
          have hall : s.G.toNat ≤ i := by omega
          simp only [ReportPc.added, State.unadded_of_le hall] at h
          simp only [ReportPc.added, State.unadded_of_le (Nat.le_refl _)]
          exact h
  · next i hpc =>
      obtain ⟨g, hg, rfl⟩ := Option.map_eq_some_iff.mp hr
      have hadd := htotals.add hnonneg hfits hpc hg
      have hcandy := hcandy i
      have hi : i < s.G.toNat := by have := hfollows.adding i hpc; omega
      have hnext := State.unadded_eq hi
      rw [hg] at hcandy
      simp only [collected, Option.elim] at hcandy hnext
      simp only [hpc, ReportPc.added, ReportPc.listed, Report.available] at h ⊢
      omega
  · next i hpc =>
      simp only [hpc, ReportPc.added, ReportPc.listed, Report.available, Int.add_zero] at h ⊢
      split at hr
      · next hi =>
          obtain rfl := Option.some.inj hr
          have hnext : s.unlisted i = (s.houses ⟨i, hi⟩).numOfCandy + s.unlisted (i + 1) :=
            s.unlisted_eq ⟨i, hi⟩
          rw [hhouses] at hnext
          simp only [List.map_append, List.sum_append, List.map_cons, List.map_nil, List.sum_cons,
            List.sum_nil]
          omega
      · next hi =>
          obtain rfl := Option.some.inj hr
          simp only [State.unlisted_of_le (not_lt.mp hi), State.unlisted_of_le (Nat.le_refl _)] at h ⊢
          exact h
  · next hpc =>
      obtain rfl := Option.some.inj hr
      simp only [hpc, Int.add_zero] at h ⊢
      exact h

/-! ## all runs -/

section runs

variable {T : Int} {w w' : Watched} {s s' : State} {l : Label}

/-- What is known of the report after a trace, with a run of `simulation`. -/
structure Accounts (T : Int) (tr : List (Watched × Label)) (tr' : List (State × Label)) (w : Watched)
    (s : State) : Prop where
  notNegative : ∀ p ∈ tr', NotNegative p.1 p.2
  fits : w.Fits
  totals : Totals w.report w.sim
  summed : Summed w.report s (allCandy tr') (twice T tr)

/-- The step of a report leaves the sums alone. -/
theorem reports_quiet (hreports : s.reports T = true) (hs : Trick.step T s .main = some s') :
    s'.G = s.G ∧ s'.groups = s.groups ∧ s'.houses = s.houses := by
  unfold State.reports at hreports
  cases step_cases hs with
  | readG hpc | readHouse hpc | readGroup hpc => simp [hpc] at hreports
  | _ => exact ⟨rfl, rfl, rfl⟩

/-- What one step brings. -/
def brought (s : State) (l : Label) : Int := stocked s l + refilled s l

theorem allCandy_concat (tr : List (State × Label)) (s : State) (l : Label) :
    allCandy (tr ++ [(s, l)]) = allCandy tr + brought s l := by
  simp only [allCandy, initialCandy_concat, refillsApplied_concat, brought]
  omega

theorem BringsNothing.brought (h : BringsNothing s l) : Trick.brought s l = 0 := by
  rw [Trick.brought, h.1, h.2]
  rfl

theorem countedTwice_nonneg (h : ∀ i, 0 ≤ w.doubled i) : 0 ≤ countedTwice w .main := by
  simp only [countedTwice]
  split
  · exact h _
  · exact Int.le_refl 0

theorem Follows.brought (h : Follows w s) (l : Label) : Trick.brought s l = Trick.brought w.sim l := by
  rw [Trick.brought, Trick.brought, h.stocked, h.refilled]

theorem Follows.notNegative (h : Follows w s) (hpos : NotNegative w.sim l) : NotNegative s l where
  stocked := by rw [h.stocked]; exact hpos.stocked
  kidsRead := by rw [h.kidsRead]; exact hpos.kidsRead
  refilled := by rw [h.refilled]; exact hpos.refilled

/-- `main` goes on, and the next report starts from nothing. -/
theorem summed_start {tr' : List (State × Label)} (hbal : Balanced tr' s) :
    Summed Report.start s (allCandy tr') 0 := by
  have htotal := hbal.total
  have hgroups : s.unadded 0 = groupCandy s.G s.groups :=
    sum_congr rfl fun i _ => if_pos (Nat.zero_le i)
  have hhouses : s.unlisted 0 = houseCandy s.houses := sum_congr rfl fun j _ => if_pos (Nat.zero_le _)
  show 0 + 0 + s.unadded 0 + s.unlisted 0 ≤ allCandy tr' + 0
  rw [hgroups, hhouses, allCandy]
  omega

theorem Summed.mono {r : Report} {all all' double double' : Int} (h : Summed r s all double)
    (hall : all ≤ all') (hdouble : double ≤ double') : Summed r s all' double' :=
  Int.le_trans h (Int.add_le_add hall hdouble)

/-- `main` goes on: no visit that is half done is of the group that it sets up. -/
theorem Follows.mainFits (h : Follows w s) (hpending : w.Fits) (hexclusive : Exclusive s) {z : State}
    (hz : mainStep T w.sim = some z) : Watched.Fits ⟨z, w.half, Report.start⟩ := by
  intro i hi g hg
  have hne : w.sim.main ≠ .readingGroup i := by
    intro hpc
    have hunborn := hexclusive.unborn i (by rw [h.main, hpc]; rfl) i (Nat.le_refl i)
    have hhalf := h.half i
    rw [show w.half i = .lessened from hi, hunborn] at hhalf
    obtain ⟨j, b, -, hleaving, -⟩ := hhalf
    cases hleaving
  rw [show z.groups i = w.sim.groups i from ((mainStep_cases hz).mainFrame.1 i hne).1] at hg
  exact hpending i hi g hg

/-- **One step.** -/
theorem Accounts.step {file : List UInt8} {tr : List (Watched × Label)} {tr' : List (State × Label)}
    (h : Accounts T tr tr' w s) (hrun : (simulation file T).Run tr' s) (hfollows : Follows w s)
    (hpos : NotNegative w.sim l) (hfits : allCandy tr' + Trick.brought w.sim l < 2 ^ 31)
    (hs : w.step T l = some w') :
    ∃ tr'' s', (simulation file T).Run tr'' s' ∧ Follows w' s' ∧
      allCandy tr'' = allCandy tr' + Trick.brought w.sim l ∧ Accounts T (tr ++ [(w, l)]) tr'' w' s' := by
  have hstocked := hpos.stocked
  have hrefilled := hpos.refilled
  have hbrought : 0 ≤ Trick.brought w.sim l := Int.add_nonneg hstocked hrefilled
  have hfits' : allCandy tr' < 2 ^ 31 := by omega
  have hbal := balanced_of_run hrun h.notNegative hfits'
  obtain ⟨hcounted, hexclusive⟩ := exclusive_of_run hrun
  have hpos' := hfollows.notNegative hpos
  have hcandy := hfollows.candy h.fits hbal hcounted hfits'
  have hgroups := hfollows.groupCandy_le h.fits hbal hcounted hexclusive hfits'
  -- the coarse step
  have hnext : ∀ s', Trick.step T s l = some s' → (simulation file T).Run (tr' ++ [(s, l)]) s' ∧
      (∀ p ∈ tr' ++ [(s, l)], NotNegative p.1 p.2) ∧
      allCandy (tr' ++ [(s, l)]) = allCandy tr' + Trick.brought w.sim l := by
    intro s' hs'
    refine ⟨hrun.next hs', ?_, by rw [allCandy_concat, hfollows.brought]⟩
    exact List.forall_mem_append.mpr ⟨h.notNegative, by simpa using hpos'⟩
  by_cases hl : l = .main
  · subst hl
    obtain ⟨hrunning, ⟨hreports, ⟨hr, rfl⟩ | ⟨r, hr, rfl⟩⟩ | ⟨hno, z, hz, rfl⟩⟩ := Watched.step_main hs
    · -- the report fails
      obtain ⟨s', hs', hfollows'⟩ := hfollows.printFails hrunning hreports.1 hr
      obtain ⟨hrun', hpos'', hall⟩ := hnext s' hs'
      obtain ⟨hG, hgroups', hhouses⟩ := reports_quiet (by rw [← hreports.1, hfollows.same]; rfl) hs'
      refine ⟨_, s', hrun', hfollows', hall, hpos'', h.fits, h.totals.grow rfl fun _ => Int.le_refl _, ?_⟩
      rw [twice_print hreports]
      have hdouble := countedTwice_nonneg fun i => (hcandy i).2.1
      exact (h.summed.congr hG hgroups' hhouses).mono (by omega) (by omega)
    · -- the report goes on
      have hnothing := (reports_bringsNothing hreports.1).brought
      refine ⟨tr', s, hrun, hfollows.prints hr, by omega, h.notNegative, h.fits,
        h.totals.print (fun i => (hcandy i).1) (by omega) hr, ?_⟩
      rw [twice_print hreports]
      exact h.summed.print hfollows h.totals (fun i => (hcandy i).1) (by omega) (fun i => (hcandy i).2.2) hr
    · -- another report
      obtain ⟨s', hs', hfollows'⟩ := hfollows.mainMoves hexclusive hrunning hz
      obtain ⟨hrun', hpos'', hall⟩ := hnext s' hs'
      refine ⟨_, s', hrun', hfollows', hall, hpos'', hfollows.mainFits h.fits hexclusive hz,
        totals_start _, ?_⟩
      rw [twice_restart hno]
      exact summed_start (balanced_of_run hrun' hpos'' (by rw [← allCandy]; omega))
  · have hgrows := hfollows.grows h.fits hbal hcounted hfits' hl hs
    have htotals : Totals w'.report w'.sim := by
      rw [hgrows.report]
      exact h.totals.grow hgrows.G hgrows.candy
    rcases hfollows.step hexclusive hs with ⟨hfollows', hnothing⟩ | ⟨s', hs', hfollows'⟩
    · refine ⟨tr', s, hrun, hfollows', ?_, h.notNegative, hgrows.fits, htotals, ?_⟩
      · rw [hnothing.brought, Int.add_zero]
      · rw [twice_other hl, hgrows.report]
        exact h.summed
    · obtain ⟨hrun', hpos'', hall⟩ := hnext s' hs'
      refine ⟨_, s', hrun', hfollows', hall, hpos'', hgrows.fits, htotals, ?_⟩
      rw [twice_other hl, hgrows.report]
      refine (h.summed.step hbal hcounted hpos' (by omega) hl hs').mono ?_ (Int.le_refl _)
      rw [allCandy_concat, Trick.brought]
      exact Int.add_le_add_left (Int.le_add_of_nonneg_left hpos'.stocked) _

/-- In every run there is a run of `simulation` with the same candy that accounts for the report. -/
theorem accounts_of_run {file : List UInt8} {tr : List (Watched × Label)} (h : (watched file T).Run tr w)
    (hpos : ∀ p ∈ plain tr, NotNegative p.1 p.2) (hfits : allCandy (plain tr) < 2 ^ 31) :
    ∃ tr' s, (simulation file T).Run tr' s ∧ Follows w s ∧ allCandy tr' = allCandy (plain tr) ∧
      Accounts T tr tr' w s := by
  revert hpos hfits
  refine Machine.Run.invariant (I := fun tr w => (∀ p ∈ plain tr, NotNegative p.1 p.2) →
    allCandy (plain tr) < 2 ^ 31 → ∃ tr' s, (simulation file T).Run tr' s ∧ Follows w s ∧
      allCandy tr' = allCandy (plain tr) ∧ Accounts T tr tr' w s) ?_ ?_ h
  · rintro w rfl - hfits
    have hstart : (simulation file T).Run [] (initState file) := .start rfl
    have hnone : ∀ p ∈ ([] : List (State × Label)), NotNegative p.1 p.2 := fun _ hp => by cases hp
    have hbal := balanced_of_run hstart hnone hfits
    have hwhole : (initWatched file).Fits := fun _ hi => by cases hi
    exact ⟨[], _, hstart, follows_init file, rfl, hnone, hwhole, totals_start _, summed_start hbal⟩
  · rintro tr w l w' ih hs hpos hfits
    rw [plain_concat] at hpos hfits
    obtain ⟨hbefore, hl⟩ := List.forall_mem_append.mp hpos
    have hl : NotNegative w.sim l := hl _ (List.mem_singleton_self _)
    have hbrought : 0 ≤ Trick.brought w.sim l := Int.add_nonneg hl.stocked hl.refilled
    rw [allCandy_concat] at hfits
    obtain ⟨tr', s, hrun, hfollows, hall, haccounts⟩ := ih hbefore (by omega)
    obtain ⟨tr'', s', hrun', hfollows', hall', haccounts'⟩ :=
      haccounts.step hrun hfollows hl (by omega) hs
    exact ⟨tr'', s', hrun', hfollows', by rw [hall', hall, plain_concat, allCandy_concat], haccounts'⟩

/-- **What a report shows.**  On a data file without negative amounts, as long as the candy that
has been brought fits in an `int`, a report has a line for each group and each house.  The total
is no less than the sum of its lines and no more than what the groups have when it is complete;
with the candy that the lines about the houses show, it is no more than all the candy there is
and what was counted while a house still had it. -/
theorem report_bounds {file : List UInt8} {tr : List (Watched × Label)} (h : (watched file T).Run tr w)
    (hpos : ∀ p ∈ plain tr, NotNegative p.1 p.2) (hfits : allCandy (plain tr) < 2 ^ 31)
    (hprinted : w.report.pc = .printed) :
    (w.report.groups.map (·.id) = List.range w.sim.G.toNat ∧
      w.report.houses.map (·.id) = List.range numOfHouses) ∧
    w.report.collected ≤ w.report.totalCandy ∧
    w.report.totalCandy ≤ groupCandy w.sim.G w.sim.groups ∧
    w.report.totalCandy + w.report.available ≤ allCandy (plain tr) + twice T tr := by
  obtain ⟨tr', s, hrun, hfollows, hall, haccounts⟩ := accounts_of_run h hpos hfits
  obtain ⟨hgroups, hhouses, -, -, -, hcolumn, htotal⟩ := haccounts.totals
  have hsummed := haccounts.summed
  unfold Summed at hsummed
  rw [Report.pending, hprinted, Int.add_zero] at hcolumn
  rw [hprinted] at hgroups hhouses htotal hsummed
  rw [ReportPc.added, ReportPc.listed, State.unadded_of_le (Nat.le_refl _),
    State.unlisted_of_le (Nat.le_refl _), hall, Int.add_zero, Int.add_zero] at hsummed
  exact ⟨⟨hgroups, hhouses⟩, hcolumn, htotal, hsummed⟩

end runs

/-- A report while the group and a house have the same piece. -/
def seenTwice : List Label := halfVisit ++ List.replicate (numOfHouses + 4) .main

theorem report_bounds_seenTwice :
    ∃ w tr, (watched sampleData 0).Run tr w ∧
      (w.report.totalCandy = 7 ∧ w.report.available = 34 ∧ allCandy (plain tr) = 40) ∧
      w.report.totalCandy + w.report.available ≤ allCandy (plain tr) + twice 0 tr := by
  obtain ⟨w, hrun, hw⟩ := Machine.exists_run_of_exec (M := watched sampleData 0)
    (s := initWatched sampleData) rfl seenTwice
    (b := fun w => decide (w.report.pc = .printed ∧ w.report.totalCandy = 7 ∧ w.report.available = 34))
    (by decide +kernel)
  obtain ⟨hprinted, htotal, havailable⟩ := of_decide_eq_true hw
  exact ⟨w, _, hrun, ⟨htotal, havailable, by decide +kernel⟩,
    (report_bounds hrun (by decide +kernel) (by decide +kernel) hprinted).2.2.2⟩

end Cmsc421.Trick
