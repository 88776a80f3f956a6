import Cmsc421.Loop
import Cmsc421.Nearest
import Cmsc421.Trick.Simulation
import Mathlib.Algebra.Order.Group.Unbundled.Int
import Mathlib.Order.WellFounded

/-!
# Cmsc421.Trick.Closest

Which house `findClosestHouse` returns.

The search keeps the first house that the group may go to, whatever there is, and then
changes its mind only for a nearer one with enough candy.  So what it returns is the
nearest house among the first one and those with enough candy (`search_eq`), and that
is the nearest one with enough candy unless the first house has too little and none
with enough is nearer (`choosesNearest_iff`).
-/

namespace Cmsc421.Trick

/-! ## distances -/

/-- The Manhattan distance. -/
def distance (a b : House) : Int := |a.x - b.x| + |a.y - b.y|

/-- No operation of the distance overflows. -/
structure DistanceFits (a b : House) : Prop where
  diffX : FitsInt (a.x - b.x)
  absX : FitsInt |a.x - b.x|
  diffY : FitsInt (a.y - b.y)
  absY : FitsInt |a.y - b.y|
  sum : FitsInt (|a.x - b.x| + |a.y - b.y|)

theorem abs_eq {x : Int} (h : FitsInt |x|) : abs x = |x| := by
  rw [abs, ← Int.abs_eq_natAbs, h.int32_eq]

/-- Then it is the distance. -/
theorem manhattanDistance_eq {a b : House} (h : DistanceFits a b) :
    manhattanDistance a b = distance a b := by
  rw [manhattanDistance, h.diffX.int32_eq, h.diffY.int32_eq, abs_eq h.absX, abs_eq h.absY,
    h.sum.int32_eq, distance]

theorem distance_nonneg (a b : House) : 0 ≤ distance a b := add_nonneg (abs_nonneg _) (abs_nonneg _)

theorem distance_comm (a b : House) : distance a b = distance b a := by
  rw [distance, abs_sub_comm a.x, abs_sub_comm a.y, distance]

/-- Nothing overflows iff the distance itself fits. -/
theorem distanceFits_iff {a b : House} : DistanceFits a b ↔ distance a b < 2 ^ 31 := by
  have hx := abs_nonneg (a.x - b.x)
  have hy := abs_nonneg (a.y - b.y)
  have hx₁ := le_abs_self (a.x - b.x)
  have hx₂ := neg_abs_le (a.x - b.x)
  have hy₁ := le_abs_self (a.y - b.y)
  have hy₂ := neg_abs_le (a.y - b.y)
  rw [distance]
  constructor
  · exact fun h => h.sum.2
  · intro h
    refine ⟨⟨?_, ?_⟩, ⟨?_, ?_⟩, ⟨?_, ?_⟩, ⟨?_, ?_⟩, ⟨?_, ?_⟩⟩ <;> omega

/-! ## the search -/

/-- `findClosestHouse()`; `none` where it reads outside of the houses. -/
def findClosestHouse (houses : Houses) (g : Group) : Option Int :=
  ((List.finRange numOfHouses).foldlM (searchHouse houses g) .init).map Search.closest

/-- The group may go to the house. -/
def Allowed (g : Group) (i : Fin numOfHouses) : Prop :=
  (i : Int) ≠ g.startingHouse ∧ (i : Int) ≠ g.currHouse

instance (g : Group) : DecidablePred (Allowed g) := fun _ => inferInstanceAs (Decidable (_ ∧ _))

/-- There is enough candy at the house. -/
def Enough (houses : Houses) (g : Group) (i : Fin numOfHouses) : Prop :=
  g.numOfKids ≤ (houses i).numOfCandy

instance (houses : Houses) (g : Group) : DecidablePred (Enough houses g) := fun _ =>
  inferInstanceAs (Decidable (_ ≤ _))

/-- The houses that the group may go to and that have enough candy. -/
def useful (houses : Houses) (g : Group) : Set (Fin numOfHouses) :=
  {i | Allowed g i ∧ Enough houses g i}

/-- The houses among which the search looks for the nearest one: the useful ones, and the
first one that the group may go to. -/
def considered (houses : Houses) (g : Group) : Set (Fin numOfHouses) :=
  {i | Allowed g i ∧ (Enough houses g i ∨ ∀ j, Allowed g j → i ≤ j)}

/-- One round of the search, on any distances. -/
def lookAt (houses : Houses) (g : Group) (d : Fin numOfHouses → Int) (st : Search)
    (i : Fin numOfHouses) : Search :=
  if Allowed g i then
    if st.first then ⟨false, i, d i⟩
    else if Enough houses g i then
      if d i < st.closestDistance then ⟨false, i, d i⟩ else st
    else st
  else st

/-- The search on any distances. -/
def search (houses : Houses) (g : Group) (d : Fin numOfHouses → Int) : Search :=
  (List.finRange numOfHouses).foldl (lookAt houses g d) .init

section search

variable {houses : Houses} {g : Group} {curr : Fin numOfHouses} {d : Fin numOfHouses → Int}

/-- The search of the program is the one on its own distances. -/
theorem searchHouse_eq (hcurr : houseIndex g.currHouse = some curr) (st : Search)
    (i : Fin numOfHouses) : searchHouse houses g st i =
      some (lookAt houses g (fun j => manhattanDistance (houses curr) (houses j)) st i) := by
  rw [searchHouse, lookAt, hcurr]
  by_cases h : Allowed g i
  · exact (if_pos h).trans (congrArg some (if_pos h).symm)
  · exact (if_neg h).trans (congrArg some (if_neg h).symm)

theorem findClosestHouse_eq (hcurr : houseIndex g.currHouse = some curr) :
    findClosestHouse houses g =
      some (search houses g fun j => manhattanDistance (houses curr) (houses j)).closest := by
  rw [findClosestHouse, foldlM_eq_some (searchHouse_eq hcurr), search, Option.map_some]

/-- The distances of the houses that the group may go to decide. -/
theorem search_congr {d' : Fin numOfHouses → Int} (h : ∀ i, Allowed g i → d i = d' i) :
    search houses g d = search houses g d' := by
  have hlook : lookAt houses g d = lookAt houses g d' := by
    funext st i
    unfold lookAt
    split
    · next hi => rw [h i hi]
    · rfl
  rw [search, hlook, search]

/-- There is always a house to go to. -/
theorem exists_first (g : Group) : ∃ f, Allowed g f ∧ ∀ j, Allowed g j → f ≤ j := by
  have hsome : ∃ i, Allowed g i := by
    by_contra h
    have h₀ : ¬ Allowed g 0 := fun hi => h ⟨_, hi⟩
    have h₁ : ¬ Allowed g 1 := fun hi => h ⟨_, hi⟩
    have h₂ : ¬ Allowed g 2 := fun hi => h ⟨_, hi⟩
    simp only [Allowed, numOfHouses, Fin.val_zero, Fin.val_one, Fin.val_two] at h₀ h₁ h₂
    omega
  have hwf := WellFounded.has_min (wellFounded_lt (α := Fin numOfHouses)) {i | Allowed g i} hsome
  obtain ⟨f, hf, hmin⟩ := hwf
  exact ⟨f, hf, fun j hj => not_lt.mp (hmin j hj)⟩

/-- What the search knows before it looks at house `k`. -/
inductive Looked (houses : Houses) (g : Group) (d : Fin numOfHouses → Int) (k : Nat) : Search → Prop
  | nothing (hnone : ∀ i : Fin numOfHouses, i.val < k → ¬ Allowed g i) : Looked houses g d k .init
  | found {c : Fin numOfHouses} (hc : IsNearest (considered houses g ∩ {i | i.val < k}) d c) :
      Looked houses g d k ⟨false, c, d c⟩

/-- A house that is not considered. -/
theorem considered_skip {k : Fin numOfHouses} (hk : k ∉ considered houses g) :
    considered houses g ∩ {i | i.val < k.val + 1} = considered houses g ∩ {i | i.val < k.val} := by
  ext i
  constructor
  · rintro ⟨hi, hik : i.val < k.val + 1⟩
    refine ⟨hi, lt_of_le_of_ne (Nat.le_of_lt_succ hik) fun heq => ?_⟩
    obtain rfl : i = k := Fin.ext heq
    exact hk hi
  · rintro ⟨hi, hik : i.val < k.val⟩
    exact ⟨hi, Nat.lt_succ_of_lt hik⟩

/-- A house that is. -/
theorem considered_insert {k : Fin numOfHouses} (hk : k ∈ considered houses g) :
    considered houses g ∩ {i | i.val < k.val + 1} =
      insert k (considered houses g ∩ {i | i.val < k.val}) := by
  ext i
  constructor
  · rintro ⟨hi, hik : i.val < k.val + 1⟩
    obtain heq | hlt := eq_or_ne i k
    · exact .inl heq
    · exact .inr ⟨hi, lt_of_le_of_ne (Nat.le_of_lt_succ hik) fun heq => hlt (Fin.ext heq)⟩
  · rintro (rfl | ⟨hi, hik : i.val < k.val⟩)
    · exact ⟨hk, Nat.lt_succ_self _⟩
    · exact ⟨hi, Nat.lt_succ_of_lt hik⟩

/-- One round. -/
theorem Looked.step {k : Fin numOfHouses} {st : Search} (h : Looked houses g d k st) :
    Looked houses g d (k.val + 1) (lookAt houses g d st k) := by
  unfold lookAt
  split
  · next hk =>
      cases h with
      | nothing hnone =>
          -- the first house that the group may go to
          have hfirst : ∀ j, Allowed g j → k ≤ j := fun j hj => not_lt.mp fun hlt => hnone j hlt hj
          have hsingle : considered houses g ∩ {i | i.val < k.val + 1} = {k} := by
            rw [considered_insert ⟨hk, .inr hfirst⟩, Set.eq_singleton_iff_unique_mem]
            refine ⟨Set.mem_insert _ _, ?_⟩
            rintro i (rfl | ⟨hi, hik⟩)
            · rfl
            · exact absurd hi.1 (hnone i hik)
          exact .found (hsingle ▸ .singleton d k)
      | @found c hc =>
          have hck : c < k := hc.mem.2
          rw [if_neg Bool.false_ne_true]
          split
          · next henough =>
              have hset := considered_insert (k := k) ⟨hk, .inl henough⟩
              split
              · next hlt => exact .found (hset ▸ hc.take hlt)
              · next hge => exact .found (hset ▸ hc.keep hge hck.le)
          · next hfew =>
              have hnot : k ∉ considered houses g := by
                rintro ⟨-, henough | hfirst⟩
                · exact hfew henough
                · exact absurd (hfirst c hc.mem.1.1) (not_le_of_gt hck)
              exact .found (considered_skip hnot ▸ hc)
  · next hk =>
      have hnot : k ∉ considered houses g := fun hmem => hk hmem.1
      cases h with
      | nothing hnone =>
          refine .nothing fun i hi hallowed => ?_
          obtain heq | hlt := (Nat.le_of_lt_succ hi).eq_or_lt
          · obtain rfl : i = k := Fin.ext heq
            exact hk hallowed
          · exact hnone i hlt hallowed
      | found hc => exact .found (considered_skip hnot ▸ hc)

/-- **The search finds the nearest of the houses that it considers.** -/
theorem search_eq (houses : Houses) (g : Group) (d : Fin numOfHouses → Int) :
    ∃ c : Fin numOfHouses, search houses g d = ⟨false, c, d c⟩ ∧ IsNearest (considered houses g) d c := by
  have hloop : Looked houses g d numOfHouses (search houses g d) :=
    foldl_finRange (.nothing fun i hi => absurd hi (Nat.not_lt_zero _)) fun _ _ h => h.step
  generalize search houses g d = st at hloop
  cases hloop with
  | nothing hnone =>
      obtain ⟨f, hf, -⟩ := exists_first g
      exact absurd hf (hnone f f.isLt)
  | @found c hc =>
      have hall : considered houses g ∩ {i | i.val < numOfHouses} = considered houses g :=
        Set.inter_eq_left.mpr fun i _ => i.isLt
      exact ⟨c, rfl, hall ▸ hc⟩

end search

/-! ## the choice -/

/-- The group goes to a house other than its first and its current one, and to the first
of the nearest useful ones if there is one. -/
def ChoosesNearest (houses : Houses) (g : Group) : Prop :=
  ∃ curr c : Fin numOfHouses, houseIndex g.currHouse = some curr ∧
    findClosestHouse houses g = some (c : Int) ∧ Allowed g c ∧
    ((useful houses g).Nonempty →
      IsNearest (useful houses g) (fun j => distance (houses curr) (houses j)) c)

/-- The first house that the group may go to has enough candy, or some useful house is
nearer, or there is no useful house. -/
def FirstHarmless (houses : Houses) (g : Group) (curr : Fin numOfHouses) : Prop :=
  ∃ f, (Allowed g f ∧ ∀ j, Allowed g j → f ≤ j) ∧
    ((useful houses g).Nonempty → Enough houses g f ∨
      ∃ j ∈ useful houses g, distance (houses curr) (houses j) < distance (houses curr) (houses f))

/-- **When the group chooses well**: its current house is one of the ten, and the first
house that it may go to does no harm. -/
theorem choosesNearest_iff {houses : Houses} {g : Group}
    (hfits : ∀ curr ∈ houseIndex g.currHouse, ∀ i, DistanceFits (houses curr) (houses i)) :
    ChoosesNearest houses g ↔ ∃ curr ∈ houseIndex g.currHouse, FirstHarmless houses g curr := by
  have hchoice : ∀ curr ∈ houseIndex g.currHouse, ∃ c : Fin numOfHouses,
      findClosestHouse houses g = some (c : Int) ∧
        IsNearest (considered houses g) (fun j => distance (houses curr) (houses j)) c := by
    intro curr hcurr
    have hdist : (fun j => manhattanDistance (houses curr) (houses j)) =
        fun j => distance (houses curr) (houses j) :=
      funext fun j => manhattanDistance_eq (hfits curr hcurr j)
    obtain ⟨c, hsearch, hc⟩ := search_eq houses g fun j => distance (houses curr) (houses j)
    exact ⟨c, by rw [findClosestHouse_eq hcurr, hdist, hsearch], hc⟩
  have hsub : useful houses g ⊆ considered houses g := fun i hi => ⟨hi.1, .inl hi.2⟩
  constructor
  · rintro ⟨curr, c, hcurr, hfind, -, hnearest⟩
    obtain ⟨c', hfind', hc⟩ := hchoice curr hcurr
    obtain rfl : c = c' :=
      Fin.ext (Int.natCast_inj.mp (Option.some.inj (hfind.symm.trans hfind')))
    obtain ⟨f, hf, hfirst⟩ := exists_first g
    refine ⟨curr, hcurr, f, ⟨hf, hfirst⟩, fun hsome => ?_⟩
    have hmem := (hnearest hsome).mem
    obtain hlt | ⟨-, hle⟩ := hc.nearest f ⟨hf, .inr hfirst⟩
    · exact .inr ⟨c, hmem, hlt⟩
    · obtain rfl := le_antisymm hle (hfirst c hmem.1)
      exact .inl hmem.2
  · rintro ⟨curr, hcurr, f, ⟨hf, hfirst⟩, hharmless⟩
    obtain ⟨c, hfind, hc⟩ := hchoice curr hcurr
    refine ⟨curr, c, hcurr, hfind, hc.mem.1, fun hsome => hc.mono hsub ⟨hc.mem.1, ?_⟩⟩
    obtain henough | hisFirst := hc.mem.2
    · exact henough
    · obtain rfl := le_antisymm (hisFirst f hf) (hfirst c hc.mem.1)
      obtain henough | ⟨j, hj, hlt⟩ := hharmless hsome
      · exact henough
      · exact absurd (hc.le (hsub hj)) (not_le_of_gt hlt)

/-- Ten houses in a row, with four pieces of candy each but for the second one. -/
def row (second : Int) : Houses := fun i => ⟨i, i, 0, if i = 1 then second else 4⟩

/-- A group of three that has not left the first house. -/
def threeKids : Group := ⟨0, 0, 0, 3, 0⟩

theorem distanceFits_row (second : Int) (i j : Fin numOfHouses) :
    DistanceFits (row second i) (row second j) := by
  have hle : ∀ i j : Fin numOfHouses, |(i : Int) - j| + |(0 : Int) - 0| < 2 ^ 31 := by decide
  exact distanceFits_iff.mpr (hle i j)

theorem choosesNearest_iff_row : ChoosesNearest (row 4) threeKids := by
  refine (choosesNearest_iff fun _ _ i => distanceFits_row 4 _ i).mpr
    ⟨0, rfl, 1, ⟨by decide, by decide⟩, fun _ => .inl (by decide)⟩

/-- Without candy at the second house the group goes there all the same. -/
theorem empty_house_chosen :
    (∀ i j, DistanceFits (row 0 i) (row 0 j)) ∧ findClosestHouse (row 0) threeKids = some 1 ∧
      2 ∈ useful (row 0) threeKids ∧ ¬ ChoosesNearest (row 0) threeKids := by
  have hfind : findClosestHouse (row 0) threeKids = some 1 := by decide +kernel
  have huseful : 2 ∈ useful (row 0) threeKids := ⟨by decide, by decide⟩
  refine ⟨distanceFits_row 0, hfind, huseful, ?_⟩
  rintro ⟨curr, c, -, hc, -, hnearest⟩
  obtain rfl : c = 1 := Fin.ext (Int.natCast_inj.mp (Option.some.inj (hc.symm.trans hfind)))
  exact absurd (hnearest ⟨2, huseful⟩).mem.2 (by decide)

/-! ## the search in the simulation -/

/-- A group that searches while nobody else moves finds what `findClosestHouse` returns. -/
theorem exec_search {file : List UInt8} {T : Int} {s : State} {i : Nat} {g : Group}
    {curr : Fin numOfHouses} (hrun : s.stopped = none) (hg : s.groups i = some g)
    (hpc : s.group i = .searching 0 .init) (hcurr : houseIndex g.currHouse = some curr) :
    ∃ st, (simulation file T).exec s (List.replicate numOfHouses (.group i)) =
        some (s.moveGroup i (.searching numOfHouses st)) ∧
      findClosestHouse s.houses g = some st.closest := by
  obtain ⟨look, hlook⟩ : ∃ look, look =
      lookAt s.houses g fun j => manhattanDistance (s.houses curr) (s.houses j) := ⟨_, rfl⟩
  have hrounds : ∀ k ≤ numOfHouses, (simulation file T).exec s (List.replicate k (.group i)) =
      some (s.moveGroup i (.searching k (roundsOf look k .init))) := by
    intro k hk
    induction k with
    | zero =>
        rw [roundsOf_zero, ← hpc, State.moveGroup, Function.update_eq_self]
        rfl
    | succ k ih =>
        have hround : searchHouse s.houses g (roundsOf look k .init) ⟨k, hk⟩ =
            some (roundsOf look (k + 1) .init) := by
          rw [searchHouse_eq hcurr, roundsOf_succ look hk, hlook]
        rw [List.replicate_succ', Machine.exec_append, ih (by omega), Option.bind_some]
        simp [Machine.exec, simulation, step, groupStep, State.moveGroup, hrun, hg,
          Nat.lt_of_succ_le hk, hround]
  refine ⟨_, hrounds numOfHouses le_rfl, ?_⟩
  rw [roundsOf_length, findClosestHouse_eq hcurr, hlook, search]

end Cmsc421.Trick
