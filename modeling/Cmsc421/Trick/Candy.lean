import Cmsc421.Trick.Simulation
import Mathlib.Algebra.BigOperators.Fin
import Mathlib.Algebra.Order.BigOperators.Group.Finset

/-!
# Cmsc421.Trick.Candy

No candy is lost and none appears.

The data file brings candy twice: with the lines about the houses, and with the refills.
A visit only moves it from a house to a group, and as long as no amount is negative and
everything that was brought fits in an `int`, none of the additions wraps.
-/

namespace Cmsc421.Trick

open Finset

/-! ## amounts -/

/-- The candy that is left in the houses. -/
def houseCandy (houses : Houses) : Int := ∑ j, (houses j).numOfCandy

/-- The candy of a group, if it has been set up. -/
def collected (g : Option Group) : Int := g.elim 0 Group.numOfCandy

/-- The candy that the groups have collected. -/
def groupCandy (G : Int) (groups : Nat → Option Group) : Int :=
  ∑ i ∈ range G.toNat, collected (groups i)

/-- The candy in the line about a house that a step reads. -/
def stocked (s : State) : Label → Int
  | .main =>
      match s.main with
      | .readingHouse i =>
          if i < numOfHouses then
            ((fgets maxCharPerLine s.file).bind fun p => threeNumbers p.1).elim 0 fun n => n.2.2
          else 0
      | _ => 0
  | _ => 0

/-- The number of kids in the line about a group that a step reads. -/
def kidsRead (s : State) : Label → Int
  | .main =>
      match s.main with
      | .readingGroup i =>
          if (i : Int) < s.G then
            ((fgets maxCharPerLine s.file).bind fun p => twoNumbers p.1).elim 0 Prod.snd
          else 0
      | _ => 0
  | _ => 0

/-- The refill that a step applies. -/
def refilled (s : State) : Label → Int
  | .neighborhood =>
      match s.neighborhood with
      | .refilling _ candy => candy
      | _ => 0
  | _ => 0

/-- The amounts of a step are not negative. -/
structure NotNegative (s : State) (l : Label) : Prop where
  stocked : 0 ≤ stocked s l
  kidsRead : 0 ≤ kidsRead s l
  refilled : 0 ≤ refilled s l

instance (s : State) (l : Label) : Decidable (NotNegative s l) :=
  decidable_of_iff (0 ≤ stocked s l ∧ 0 ≤ kidsRead s l ∧ 0 ≤ refilled s l)
    ⟨fun h => ⟨h.1, h.2.1, h.2.2⟩, fun h => ⟨h.1, h.2, h.3⟩⟩

/-- The initial candy of the houses that have been read. -/
def initialCandy (tr : List (State × Label)) : Int := (tr.map fun p => stocked p.1 p.2).sum

/-- The refills applied so far. -/
def refillsApplied (tr : List (State × Label)) : Int := (tr.map fun p => refilled p.1 p.2).sum

@[simp] theorem initialCandy_concat (tr : List (State × Label)) (s : State) (l : Label) :
    initialCandy (tr ++ [(s, l)]) = initialCandy tr + stocked s l := by simp [initialCandy]

@[simp] theorem refillsApplied_concat (tr : List (State × Label)) (s : State) (l : Label) :
    refillsApplied (tr ++ [(s, l)]) = refillsApplied tr + refilled s l := by simp [refillsApplied]

/-! ## sums -/

/-- A sum after one of its terms has changed. -/
theorem sum_update {ι : Type*} [DecidableEq ι] {t : Finset ι} {i : ι} (hi : i ∈ t) (f : ι → Int)
    (x : Int) : ∑ k ∈ t, Function.update f i x k = ∑ k ∈ t, f k - f i + x := by
  rw [sum_update_of_mem hi, sdiff_singleton_eq_erase, ← add_sum_erase t f hi]
  omega

@[simp] theorem houseCandy_update (houses : Houses) (j : Fin numOfHouses) (h : House) :
    houseCandy (Function.update houses j h) =
      houseCandy houses - (houses j).numOfCandy + h.numOfCandy := by
  rw [houseCandy, houseCandy, ← sum_update (mem_univ j) fun k => (houses k).numOfCandy]
  exact sum_congr rfl fun k _ => congrFun (Function.comp_update House.numOfCandy houses j h) k

theorem groupCandy_update {G : Int} {i : Nat} (hi : i < G.toNat) (groups : Nat → Option Group)
    (g : Option Group) :
    groupCandy G (Function.update groups i g) =
      groupCandy G groups - collected (groups i) + collected g := by
  rw [groupCandy, groupCandy, ← sum_update (mem_range.mpr hi) fun k => collected (groups k)]
  exact sum_congr rfl fun k _ => congrFun (Function.comp_update collected groups i g) k

theorem candy_update_nonneg {houses : Houses} (h : ∀ j, 0 ≤ (houses j).numOfCandy)
    (j : Fin numOfHouses) {house : House} (hhouse : 0 ≤ house.numOfCandy) (k : Fin numOfHouses) :
    0 ≤ (Function.update houses j house k).numOfCandy := by
  rw [Function.update_apply]
  split
  · exact hhouse
  · exact h k

/-! ## a visit -/

/-- The candy of a visit. -/
def treat (h : House) (g : Group) : Int := min h.numOfCandy g.numOfKids

/-- A visit takes the lesser of what is there and one for each kid. -/
theorem visit_eq {h : House} {g : Group} (hhouse : 0 ≤ h.numOfCandy) (hgroup : 0 ≤ g.numOfCandy)
    (hkids : 0 ≤ g.numOfKids) (hfits : h.numOfCandy + g.numOfCandy < 2 ^ 31) :
    visit h g = ({ h with numOfCandy := h.numOfCandy - treat h g },
      { g with numOfCandy := g.numOfCandy + treat h g }) := by
  unfold visit treat
  split
  · next hle =>
      rw [min_eq_right hle, int32_of_fits (by omega) (by omega),
        int32_of_fits (by omega) (by omega)]
  · next hlt =>
      rw [min_eq_left (by omega), int32_of_fits (by omega) (by omega), Int.sub_self]

/-! ## the balance -/

/-- The first house that has not been read, while `main` reads them. -/
def MainPc.nextHouse : MainPc → Option Nat
  | .readingG => some 0
  | .readingHouse i => some i
  | _ => none

/-- The first group that has not been set up, until `main` has read them. -/
def MainPc.nextGroup : MainPc → Option Nat
  | .readingG | .readingHouse _ => some 0
  | .readingGroup i => some i
  | _ => none

theorem MainPc.nextGroup_of_nextHouse {pc : MainPc} {n : Nat} (h : n ∈ pc.nextHouse) :
    0 ∈ pc.nextGroup := by
  cases pc <;> first | rfl | cases h

theorem MainPc.early_of_nextGroup {pc : MainPc} {n : Nat} (h : n ∈ pc.nextGroup) :
    pc.early = true := by
  cases pc <;> first | rfl | cases h

/-- The balance after a trace. -/
structure Balanced (tr : List (State × Label)) (s : State) : Prop where
  total : houseCandy s.houses + groupCandy s.G s.groups = initialCandy tr + refillsApplied tr
  houses : ∀ j, 0 ≤ (s.houses j).numOfCandy
  groups : ∀ i, ∀ g ∈ s.groups i, 0 ≤ g.numOfCandy ∧ 0 ≤ g.numOfKids
  unread : ∀ n ∈ s.main.nextHouse, ∀ j : Fin numOfHouses, n ≤ j → (s.houses j).numOfCandy = 0
  unset : ∀ n ∈ s.main.nextGroup, ∀ i, n ≤ i → s.groups i = none

theorem Balanced.collected_nonneg {tr : List (State × Label)} {s : State} (h : Balanced tr s)
    (i : Nat) : 0 ≤ collected (s.groups i) := by
  cases hi : s.groups i with
  | none => exact le_rfl
  | some g => exact (h.groups i g hi).1

theorem Balanced.house_le {tr : List (State × Label)} {s : State} (h : Balanced tr s)
    (j : Fin numOfHouses) : (s.houses j).numOfCandy ≤ houseCandy s.houses :=
  single_le_sum (f := fun j => (s.houses j).numOfCandy) (fun j _ => h.houses j) (mem_univ j)

theorem Balanced.group_le {tr : List (State × Label)} {s : State} (h : Balanced tr s)
    (hcounted : Counted s) {i : Nat} {g : Group} (hg : s.groups i = some g) : g.numOfCandy ≤ groupCandy s.G s.groups := by
  have hle : collected (s.groups i) ≤ groupCandy s.G s.groups :=
    single_le_sum (f := fun k => collected (s.groups k)) (fun k _ => h.collected_nonneg k)
      (mem_range.mpr (hcounted.lt hg))
  rwa [hg] at hle

theorem Balanced.groupCandy_nonneg {tr : List (State × Label)} {s : State} (h : Balanced tr s) :
    0 ≤ groupCandy s.G s.groups := sum_nonneg fun i _ => h.collected_nonneg i

/-- Once a group has been set up, all houses have been read. -/
theorem Balanced.no_unread {tr : List (State × Label)} {s : State} (h : Balanced tr s) {i : Nat}
    {g : Group} (hg : s.groups i = some g) : ∀ n ∈ s.main.nextHouse, False := by
  intro n hn
  simpa [hg] using h.unset 0 (MainPc.nextGroup_of_nextHouse hn) i (Nat.zero_le i)

/-- What holds of all groups after one of them has been updated. -/
theorem Balanced.groups_update {tr : List (State × Label)} {s : State} (h : Balanced tr s) {i : Nat}
    {g : Group} (hcandy : 0 ≤ g.numOfCandy) (hkids : 0 ≤ g.numOfKids) :
    ∀ k, ∀ g' ∈ Function.update s.groups i (some g) k, 0 ≤ g'.numOfCandy ∧ 0 ≤ g'.numOfKids := by
  intro k g' hg'
  rw [Function.update_apply] at hg'
  split at hg'
  · obtain rfl := Option.some.inj hg'
    exact ⟨hcandy, hkids⟩
  · exact h.groups k g' hg'

/-- An update of a group that has been set up leaves the later ones alone. -/
theorem Balanced.unset_update {tr : List (State × Label)} {s : State} (h : Balanced tr s) {i : Nat}
    {g : Group} (hg : s.groups i = some g) (g' : Option Group) :
    ∀ n ∈ s.main.nextGroup, ∀ k, n ≤ k → Function.update s.groups i g' k = none := by
  intro n hn k hk
  have hnone := h.unset n hn k hk
  have hne : k ≠ i := by
    rintro rfl
    simp [hg] at hnone
  rw [Function.update_of_ne hne, hnone]

/-- A step that touches neither houses nor groups and brings nothing. -/
theorem Balanced.quiet {tr : List (State × Label)} {s s' : State} {l : Label} (h : Balanced tr s)
    (hG : s'.G = s.G) (hhouses : s'.houses = s.houses) (hgroups : s'.groups = s.groups)
    (hstocked : stocked s l = 0) (hrefilled : refilled s l = 0)
    (hhouse : ∀ n ∈ s'.main.nextHouse, n ∈ s.main.nextHouse)
    (hgroup : ∀ n ∈ s'.main.nextGroup, ∃ m ∈ s.main.nextGroup, m ≤ n) : Balanced (tr ++ [(s, l)]) s' where
  total := by
    rw [initialCandy_concat, refillsApplied_concat, hstocked, hrefilled, Int.add_zero, Int.add_zero,
      hG, hhouses, hgroups]
    exact h.total
  houses := hhouses ▸ h.houses
  groups := hgroups ▸ h.groups
  unread n hn := hhouses ▸ h.unread n (hhouse n hn)
  unset n hn i hi := by
    obtain ⟨m, hm, hmn⟩ := hgroup n hn
    rw [hgroups]
    exact h.unset m hm i (hmn.trans hi)

/-- Where the machine stops, nothing is brought. -/
theorem Stops.brings_nothing {T : Int} {s : State} {l : Label} {x : Stop} (h : Stops T s l x) :
    stocked s l = 0 ∧ refilled s l = 0 := by
  cases h with
  | unreadable hpc heof =>
      rcases hpc with hpc | ⟨i, hi, hpc⟩
      · simp [stocked, refilled, hpc]
      · simp [stocked, refilled, hpc, heof]
  | houseTokens hpc hi hline hnull => simp [stocked, refilled, hpc, hline, hnull]
  | groupTokens hpc => simp [stocked, refilled, hpc]
  | report hpc =>
      rcases hpc with ⟨t, -, hpc⟩ | hpc
      · simp [stocked, refilled, hpc]
      · simp [stocked, refilled, hpc]
  | join hpc | returned hpc => simp [stocked, refilled, hpc]
  | search | lost | depart => exact ⟨rfl, rfl⟩
  | refillTokens hpc | refill hpc => simp [stocked, refilled, hpc]

/-- **One step keeps the balance.** -/
theorem Balanced.step {T : Int} {tr : List (State × Label)} {s s' : State} {l : Label}
    (h : Balanced tr s) (hcounted : Counted s) (hpos : NotNegative s l)
    (hfits : initialCandy (tr ++ [(s, l)]) + refillsApplied (tr ++ [(s, l)]) < 2 ^ 31)
    (hs : Trick.step T s l = some s') : Balanced (tr ++ [(s, l)]) s' := by
  rw [initialCandy_concat, refillsApplied_concat] at hfits
  have hsame : ∀ n ∈ s.main.nextGroup, ∃ m ∈ s.main.nextGroup, m ≤ n := fun n hn =>
    ⟨n, hn, le_rfl⟩
  cases step_cases hs with
  | stop hstop =>
      obtain ⟨hstocked, hrefilled⟩ := hstop.brings_nothing
      exact h.quiet rfl rfl rfl hstocked hrefilled (fun _ => id) hsame
  | readG hpc hline =>
      have hnone : ∀ i, s.groups i = none := fun i =>
        h.unset 0 (by rw [hpc]; rfl) i (Nat.zero_le i)
      have hgroups : ∀ G, groupCandy G s.groups = 0 := fun G =>
        sum_eq_zero fun i _ => by rw [hnone]; rfl
      have hstocked : stocked s .main = 0 := by simp [stocked, hpc]
      refine ⟨?_, h.houses, fun i g hg => ?_, fun n hn j hj => ?_, fun n _ i _ => hnone i⟩
      · have htotal := h.total
        rw [hgroups] at htotal
        simp only [initialCandy_concat, refillsApplied_concat, hstocked, refilled, hgroups]
        omega
      · simp [hnone] at hg
      · exact h.unread 0 (by rw [hpc]; rfl) j (Nat.zero_le _)
  | @readHouse i line rest x y candy hpc hi hline hnum =>
      have hstocked : stocked s .main = candy := by simp [stocked, hpc, hi, hline, hnum]
      have hcandy : 0 ≤ candy := hstocked ▸ hpos.stocked
      have hold := h.unread i (by rw [hpc]; rfl) ⟨i, hi⟩ le_rfl
      refine ⟨?_, candy_update_nonneg h.houses _ hcandy, h.groups, ?_,
        fun n hn => h.unset n (by rw [hpc]; exact hn)⟩
      · have htotal := h.total
        simp only [initialCandy_concat, refillsApplied_concat, hstocked, refilled,
          houseCandy_update, hold]
        omega
      · rintro n hn j hj
        obtain rfl := Option.some.inj hn
        have hne : j ≠ ⟨i, hi⟩ := fun heq => by simp [heq] at hj
        simp only [Function.update_of_ne hne]
        exact h.unread i (by rw [hpc]; rfl) j (by omega)
  | housesRead hpc hi =>
      refine h.quiet rfl rfl rfl ?_ ?_ nofun ?_
      · simp [stocked, hpc, not_lt.mpr hi]
      · simp [refilled]
      · rw [hpc]
        exact fun n hn => ⟨n, hn, le_rfl⟩
  | skipGroup hpc hi heof =>
      refine h.quiet rfl rfl rfl (by simp [stocked, hpc]) rfl nofun ?_
      rw [hpc]
      rintro n hn
      exact ⟨_, rfl, by simp [MainPc.nextGroup] at hn; omega⟩
  | @readGroup i line rest startHouse numOfKids hpc hi hline hnum =>
      have hkids : 0 ≤ numOfKids := by simpa [kidsRead, hpc, hi, hline, hnum] using hpos.kidsRead
      have hstocked : stocked s .main = 0 := by simp [stocked, hpc]
      have hold := h.unset i (by rw [hpc]; rfl) i le_rfl
      have hlt : i < s.G.toNat := by omega
      refine ⟨?_, h.houses, h.groups_update le_rfl hkids, nofun, ?_⟩
      · have htotal := h.total
        simp only [initialCandy_concat, refillsApplied_concat, hstocked, refilled, State.moveGroup,
          groupCandy_update hlt, hold, collected, Option.elim]
        omega
      · rintro n hn k hk
        obtain rfl := Option.some.inj hn
        have hne : k ≠ i := by omega
        simp only [Function.update_of_ne hne]
        exact h.unset i (by rw [hpc]; rfl) k (by omega)
  | groupsRead hpc | create hpc | report hpc | endSimulation hpc | lastReport hpc | destroy hpc
  | destroyed hpc | join hpc =>
      exact h.quiet rfl rfl rfl (by simp [stocked, hpc]) rfl nofun nofun
  | test | search | depart | lock | unlock =>
      exact h.quiet rfl rfl rfl rfl rfl (fun _ => id) hsame
  | @arrive i g j d hg hpc =>
      have hlt := hcounted.lt hg
      obtain ⟨hcandy, hkids⟩ := h.groups i g hg
      refine ⟨?_, h.houses, h.groups_update hcandy hkids, h.unread, h.unset_update hg _⟩
      have htotal := h.total
      simp only [initialCandy_concat, refillsApplied_concat, stocked, refilled, State.moveGroup,
        groupCandy_update hlt, hg, collected, Option.elim]
      omega
  | @visit i g j hg hpc =>
      have hlt := hcounted.lt hg
      obtain ⟨hcandy, hkids⟩ := h.groups i g hg
      have htotal := h.total
      have hhouse := h.houses j
      have hhouseLe := h.house_le j
      have hgroupLe := h.group_le hcounted hg
      have htreat : 0 ≤ treat (s.houses j) g ∧ treat (s.houses j) g ≤ (s.houses j).numOfCandy :=
        ⟨le_min hhouse hkids, min_le_left ..⟩
      simp only [stocked, refilled] at hfits
      rw [visit_eq hhouse hcandy hkids (by omega)]
      refine ⟨?_, candy_update_nonneg h.houses j ?_, h.groups_update ?_ hkids,
        fun n hn => (h.no_unread hg n hn).elim, h.unset_update hg _⟩
      · simp only [initialCandy_concat, refillsApplied_concat, stocked, refilled, State.moveGroup,
          houseCandy_update, groupCandy_update hlt, hg, collected, Option.elim]
        omega
      · simp only
        omega
      · simp only
        omega
  | testNeighborhood hpc | noRefill hpc | readRefill hpc | lockRefill hpc | unlockRefill hpc =>
      exact h.quiet rfl rfl rfl rfl (by simp [refilled, hpc]) (fun _ => id) hsame
  | @refill j candy hpc =>
      have hrefilled : refilled s .neighborhood = candy := by simp [refilled, hpc]
      have hcandy : 0 ≤ candy := hrefilled ▸ hpos.refilled
      have htotal := h.total
      have hhouse := h.houses j
      have hhouseLe := h.house_le j
      have hgroups := h.groupCandy_nonneg
      have hlate := hcounted.late hpc (by simp)
      simp only [stocked, hrefilled] at hfits
      have hfit : (refill (s.houses j) candy).numOfCandy = (s.houses j).numOfCandy + candy :=
        int32_of_fits (by omega) (by omega)
      refine ⟨?_, candy_update_nonneg h.houses j ?_, h.groups,
        fun n hn => ?_, h.unset⟩
      · simp only [initialCandy_concat, refillsApplied_concat, hrefilled, stocked,
          houseCandy_update, hfit]
        omega
      · rw [hfit]
        omega
      · have hearly := MainPc.early_of_nextGroup (MainPc.nextGroup_of_nextHouse hn)
        exact absurd (hlate.symm.trans hearly) Bool.false_ne_true

/-- In every run the balance is kept. -/
theorem balanced_of_run {file : List UInt8} {T : Int} {tr : List (State × Label)} {s : State}
    (h : (simulation file T).Run tr s) (hpos : ∀ p ∈ tr, NotNegative p.1 p.2)
    (hfits : initialCandy tr + refillsApplied tr < 2 ^ 31) : Balanced tr s := by
  suffices hI : Counted s ∧ ((∀ p ∈ tr, NotNegative p.1 p.2) →
      initialCandy tr + refillsApplied tr < 2 ^ 31 → Balanced tr s) from hI.2 hpos hfits
  refine Machine.Run.invariant (I := fun tr s => Counted s ∧ ((∀ p ∈ tr, NotNegative p.1 p.2) →
    initialCandy tr + refillsApplied tr < 2 ^ 31 → Balanced tr s)) ?_ ?_ h
  · rintro s rfl
    exact ⟨counted_init file, fun _ _ =>
      ⟨rfl, fun _ => le_rfl, nofun, fun _ _ _ _ => rfl, fun _ _ _ _ => rfl⟩⟩
  · rintro tr s l t ⟨hcounted, ih⟩ hs
    refine ⟨hcounted.step hs, fun hpos hfits => ?_⟩
    obtain ⟨hbefore, hl⟩ := List.forall_mem_append.mp hpos
    have hstep : NotNegative s l := hl _ (List.mem_singleton_self _)
    have hstocked := hstep.stocked
    have hrefilled := hstep.refilled
    have hle : initialCandy tr + refillsApplied tr < 2 ^ 31 := by
      rw [initialCandy_concat, refillsApplied_concat] at hfits
      omega
    exact (ih hbefore hle).step hcounted hstep hfits hs

/-- **Candy is conserved.**  In every run on a data file without negative amounts, as
long as the candy that has been brought fits in an `int`, the candy in the houses and
with the groups is what was there initially and with the refills applied so far; no
house and no group has a negative amount, and a visit takes the lesser of what is in
the house and one piece for each kid. -/
theorem candy_conserved {file : List UInt8} {T : Int} {tr : List (State × Label)} {s : State}
    (h : (simulation file T).Run tr s) (hpos : ∀ p ∈ tr, NotNegative p.1 p.2)
    (hfits : initialCandy tr + refillsApplied tr < 2 ^ 31) :
    houseCandy s.houses + groupCandy s.G s.groups = initialCandy tr + refillsApplied tr ∧
    (∀ j, 0 ≤ (s.houses j).numOfCandy) ∧ (∀ i, ∀ g ∈ s.groups i, 0 ≤ g.numOfCandy) ∧
    ∀ i j s', s.group i = .visiting j → Trick.step T s (.group i) = some s' →
      ∃ g g', s.groups i = some g ∧ s'.groups i = some g' ∧
        (s'.houses j).numOfCandy =
          (s.houses j).numOfCandy - min (s.houses j).numOfCandy g.numOfKids ∧
        g'.numOfCandy = g.numOfCandy + min (s.houses j).numOfCandy g.numOfKids := by
  have hbal := balanced_of_run h hpos hfits
  refine ⟨hbal.total, hbal.houses, fun i g hg => (hbal.groups i g hg).1, ?_⟩
  intro i j s' hpc hs
  have htotal := hbal.total
  have hhouseLe := hbal.house_le j
  cases step_cases hs with
  | visit hg hpc' =>
      obtain rfl := by simpa [hpc] using hpc'
      have hgroupLe := hbal.group_le (counted_of_run h) hg
      obtain ⟨hcandy, hkids⟩ := hbal.groups i _ hg
      have hvisit := visit_eq (hbal.houses j) hcandy hkids (by omega)
      refine ⟨_, _, hg, Function.update_self .., ?_, ?_⟩
      · simp only [Function.update_self, hvisit]
        rfl
      · rw [hvisit]
        rfl
  | stop hstop =>
      cases hstop with
      | search _ hpc' | lost _ hpc' | depart _ hpc' => simp [hpc] at hpc'
  | test _ hpc' | search _ hpc' | depart _ hpc' | arrive _ hpc' | lock _ hpc' | unlock _ hpc' =>
      simp [hpc] at hpc'

/-- A visit and a refill. -/
def visitAndRefill : List Label := startUp 1 ++ oneVisit 0 ++ oneRefill

theorem candy_conserved_visitAndRefill :
    ∃ s, (simulation sampleData 0).Run
        ((simulation sampleData 0).trace (initState sampleData) visitAndRefill) s ∧
      groupCandy s.G s.groups = 3 ∧
      houseCandy s.houses + groupCandy s.G s.groups =
        initialCandy ((simulation sampleData 0).trace (initState sampleData) visitAndRefill) +
        refillsApplied ((simulation sampleData 0).trace (initState sampleData) visitAndRefill) := by
  obtain ⟨s, hrun, hs⟩ := Machine.exists_run_of_exec (M := simulation sampleData 0) rfl
    visitAndRefill (b := fun s => decide (groupCandy s.G s.groups = 3)) (by decide +kernel)
  exact ⟨s, hrun, of_decide_eq_true hs,
    (candy_conserved hrun (by decide +kernel) (by decide +kernel)).1⟩

end Cmsc421.Trick
