import Cmsc421.Trick.Closest

/-!
# Cmsc421.Trick.Travel

The way to a house, in the `int` arithmetic of `ChildGroupFunction`.

A trip computes distances, a time to print and a time to sleep.  The last is the first
to overflow: `250 * 1000 * distance` fits for distances up to `maxDistance`.  So a trip
is computed exactly when no distance overflows and the chosen house is within that
distance (`travelsExactly_iff`), and the chosen house is if any of those is that the
search considers.
-/

namespace Cmsc421.Trick

/-- What a group computes for a trip. -/
structure Trip where
  house : Fin numOfHouses
  /-- `distance * 250`, as it is printed -/
  travelTime : Int
  /-- the argument of `usleep`, an unsigned number of microseconds -/
  sleepTime : Nat

/-- The distance in `ChildGroupFunction`. -/
def tripDistance (houses : Houses) (j curr : Fin numOfHouses) : Int :=
  manhattanDistance (houses j) (houses curr)

/-- The trip from `curr` to `j`. -/
def tripTo (houses : Houses) (j curr : Fin numOfHouses) : Trip where
  house := j
  travelTime := int32 (tripDistance houses j curr * 250)
  sleepTime := uint32 (int32 (int32 (250 * 1000) * tripDistance houses j curr))

/-- The part of `ChildGroupFunction` up to `usleep`; `none` where it ends the program or
reads outside of the houses. -/
def planTrip (houses : Houses) (g : Group) : Option Trip :=
  (findClosestHouse houses g).bind fun i =>
    if i < 0 then none
    else (houseIndex i).bind fun j => (houseIndex g.currHouse).map fun curr => tripTo houses j curr

theorem planTrip_eq {houses : Houses} {g : Group} {curr c : Fin numOfHouses}
    (hcurr : houseIndex g.currHouse = some curr)
    (hfind : findClosestHouse houses g = some (c : Int)) :
    planTrip houses g = some (tripTo houses c curr) := by
  rw [planTrip, hfind, Option.bind_some, if_neg (by omega), houseIndex_val, Option.bind_some, hcurr,
    Option.map_some]

/-- The greatest distance for which the time to sleep fits an `int`. -/
def maxDistance : Int := 8589

/-! ## exact trips -/

/-- No operation on the way from `curr` overflows, and what they compute is what exact
arithmetic gives. -/
structure ExactTrip (houses : Houses) (g : Group) (curr : Fin numOfHouses) (t : Trip) : Prop where
  search : ∀ i, Allowed g i → DistanceFits (houses curr) (houses i)
  distance : DistanceFits (houses t.house) (houses curr)
  print : FitsInt (Trick.distance (houses t.house) (houses curr) * 250)
  sleep : FitsInt (250 * 1000 * Trick.distance (houses t.house) (houses curr))
  house : (Trick.search houses g fun j => Trick.distance (houses curr) (houses j)).closest = t.house
  travelTime : t.travelTime = Trick.distance (houses t.house) (houses curr) * 250
  sleepTime : (t.sleepTime : Int) = 250 * 1000 * Trick.distance (houses t.house) (houses curr)

/-- The group plans its trip exactly. -/
def TravelsExactly (houses : Houses) (g : Group) : Prop :=
  ∃ curr t, houseIndex g.currHouse = some curr ∧ planTrip houses g = some t ∧
    ExactTrip houses g curr t

/-- No house that the group may go to is too far for an `int`, and one of those among
which it looks for the nearest is within the greatest distance. -/
def InReach (houses : Houses) (g : Group) (curr : Fin numOfHouses) : Prop :=
  (∀ i, Allowed g i → distance (houses curr) (houses i) < 2 ^ 31) ∧
    ∃ i ∈ considered houses g, distance (houses curr) (houses i) ≤ maxDistance

/-- Storing a number that fits in an `int` and reading it as an `unsigned int`. -/
theorem uint32_int32_of_nonneg {x : Int} (h : FitsInt x) (hpos : 0 ≤ x) :
    (uint32 (int32 x) : Int) = x := by
  have := h.2
  rw [h.int32_eq, uint32, Int.toNat_of_nonneg (by omega), Int.emod_eq_of_lt hpos (by omega)]

/-- An exact trip is one in reach: its own house is. -/
theorem ExactTrip.inReach {houses : Houses} {g : Group} {curr : Fin numOfHouses} {t : Trip}
    (h : ExactTrip houses g curr t) : InReach houses g curr := by
  refine ⟨fun i hi => distanceFits_iff.mp (h.search i hi), ?_⟩
  obtain ⟨c, hsearch, hc⟩ := search_eq houses g fun j => Trick.distance (houses curr) (houses j)
  have hhouse := h.house
  rw [hsearch] at hhouse
  obtain rfl : c = t.house := Fin.ext (Int.natCast_inj.mp hhouse)
  refine ⟨t.house, hc.mem, ?_⟩
  have hsleep := h.sleep.2
  rw [distance_comm, maxDistance]
  omega

/-- **When a trip is computed exactly**: the current house is one of the ten, and the
houses are in reach. -/
theorem travelsExactly_iff (houses : Houses) (g : Group) :
    TravelsExactly houses g ↔ ∃ curr ∈ houseIndex g.currHouse, InReach houses g curr := by
  constructor
  · rintro ⟨curr, t, hcurr, -, ht⟩
    exact ⟨curr, hcurr, ht.inReach⟩
  · rintro ⟨curr, hcurr, hfits, hnear⟩
    obtain ⟨c, hsearch, hc⟩ := search_eq houses g fun j => distance (houses curr) (houses j)
    have hallowed : ∀ i, Allowed g i → DistanceFits (houses curr) (houses i) := fun i hi =>
      distanceFits_iff.mpr (hfits i hi)
    -- the chosen house is the nearest of those in reach
    have hle : distance (houses c) (houses curr) ≤ 8589 := by
      rw [distance_comm]
      exact hc.le_iff.mpr hnear
    have hnonneg := distance_nonneg (houses c) (houses curr)
    have hfit : DistanceFits (houses c) (houses curr) := distanceFits_iff.mpr (by omega)
    have hprint : FitsInt (distance (houses c) (houses curr) * 250) := by
      constructor <;> omega
    have hsleep : FitsInt (250 * 1000 * distance (houses c) (houses curr)) := by
      constructor <;> omega
    have hpos : 0 ≤ 250 * 1000 * distance (houses c) (houses curr) := by omega
    have hfind : findClosestHouse houses g = some (c : Int) := by
      rw [findClosestHouse_eq hcurr,
        search_congr fun i hi => manhattanDistance_eq (hallowed i hi), hsearch]
    refine ⟨curr, _, hcurr, planTrip_eq hcurr hfind, hallowed, hfit, hprint, hsleep,
      by rw [hsearch, tripTo], ?_, ?_⟩
    · rw [tripTo, tripDistance, manhattanDistance_eq hfit, hprint.int32_eq]
    · rw [tripTo, tripDistance, manhattanDistance_eq hfit]
      exact uint32_int32_of_nonneg hsleep hpos

/-- Ten houses as the data file gives them, all but the first one at the coordinates
`"9000"` and `"0"`. -/
def farHouses : Houses := fun i => ⟨i, atoi (ascii (if i = 0 then "0" else "9000")), atoi (ascii "0"), 4⟩

/-- The group that starts at the first house has 9000 to go, and `250 * 1000 * 9000` is
no `int`. -/
theorem far_trip_overflows :
    (∀ i, ∃ s t, (farHouses i).x = atoi s ∧ (farHouses i).y = atoi t) ∧
      ¬ TravelsExactly farHouses threeKids := by
  refine ⟨fun i => ⟨ascii (if i = 0 then "0" else "9000"), ascii "0", rfl, rfl⟩, ?_⟩
  rintro ⟨curr, t, hcurr, -, ht⟩
  obtain rfl : (0 : Fin numOfHouses) = curr := Option.some.inj hcurr
  obtain ⟨-, i, hi, hle⟩ := ht.inReach
  have hfar : ∀ j : Fin numOfHouses, Allowed threeKids j →
      maxDistance < distance (farHouses 0) (farHouses j) := by decide +kernel
  exact absurd hle (not_le_of_gt (hfar i hi.1))

/-! ## the trip in the simulation -/

/-- A group that searches while nobody else moves sets out on the trip it has planned. -/
theorem exec_trip {file : List UInt8} {T : Int} {s : State} {i : Nat} {g : Group}
    {curr : Fin numOfHouses} (hrun : s.stopped = none) (hg : s.groups i = some g)
    (hpc : s.group i = .searching 0 .init) (hcurr : houseIndex g.currHouse = some curr) :
    ∃ t, planTrip s.houses g = some t ∧
      (simulation file T).exec s (List.replicate (numOfHouses + 1) (.group i)) =
        some (s.moveGroup i (.travelling t.house (tripDistance s.houses t.house curr))) := by
  obtain ⟨st, hexec, hfind⟩ := @exec_search file T s i g curr hrun hg hpc hcurr
  obtain ⟨c, hsearch, -⟩ := search_eq s.houses g fun j =>
    manhattanDistance (s.houses curr) (s.houses j)
  have hclosest : st.closest = (c : Int) := by
    rw [findClosestHouse_eq hcurr, hsearch] at hfind
    exact (Option.some.inj hfind).symm
  refine ⟨_, planTrip_eq hcurr (hclosest ▸ hfind), ?_⟩
  rw [List.replicate_succ', Machine.exec_append, hexec, Option.bind_some]
  simp [Machine.exec, simulation, step, groupStep, State.moveGroup, hrun, hg, hclosest, hcurr,
    tripDistance, tripTo]

end Cmsc421.Trick
