import Cmsc421.Bytes
import Mathlib.Data.Fin.Basic

/-!
# Cmsc421.Trick.Neighborhood

`hw3.c`: the houses, the groups, and what a group does at a house.

All arithmetic is that of a 32-bit `int`.  An index into `houses_in_neighborhood` or
`locks` is an `int` that comes from the data file or from the search for a house;
`houseIndex` is `none` where the access is out of bounds.
-/

namespace Cmsc421.Trick

/-- `num_of_houses` -/
abbrev numOfHouses : Nat := 10

instance : NeZero numOfHouses := ⟨by decide⟩

/-- `struct House` -/
structure House where
  id : Int
  x : Int
  y : Int
  numOfCandy : Int

/-- `struct Group` -/
structure Group where
  id : Int
  startingHouse : Int
  currHouse : Int
  numOfKids : Int
  numOfCandy : Int

/-- `houses_in_neighborhood` -/
abbrev Houses := Fin numOfHouses → House

/-- The element with an index, `none` out of bounds. -/
def houseIndex (i : Int) : Option (Fin numOfHouses) :=
  if h : 0 ≤ i ∧ i < numOfHouses then some ⟨i.toNat, by omega⟩ else none

theorem houseIndex_isSome {i : Int} : (houseIndex i).isSome = true ↔ 0 ≤ i ∧ i < numOfHouses := by
  unfold houseIndex
  split
  · next h => exact iff_of_true rfl h
  · next h => exact iff_of_false Bool.false_ne_true h

@[simp] theorem houseIndex_val (j : Fin numOfHouses) : houseIndex j.val = some j := by
  rw [houseIndex, dif_pos (by omega)]
  simp

/-- `abs(x)` -/
def abs (x : Int) : Int := int32 x.natAbs

/-- The Manhattan distance. -/
def manhattanDistance (a b : House) : Int :=
  int32 (abs (int32 (a.x - b.x)) + abs (int32 (a.y - b.y)))

/-! ## findClosestHouse -/

/-- The locals of `findClosestHouse`. -/
structure Search where
  first : Bool
  closest : Int
  closestDistance : Int
  deriving DecidableEq

/-- The locals before the loop. -/
def Search.init : Search := ⟨true, -1, -1⟩

/-- One round of the loop of `findClosestHouse`; `none` where it reads outside of the
houses. -/
def searchHouse (houses : Houses) (g : Group) (st : Search) (i : Fin numOfHouses) : Option Search :=
  if (i : Int) ≠ g.startingHouse ∧ (i : Int) ≠ g.currHouse then
    (houseIndex g.currHouse).map fun curr =>
      let distance := manhattanDistance (houses curr) (houses i)
      if st.first then ⟨false, i, distance⟩
      else if g.numOfKids ≤ (houses i).numOfCandy then
        if distance < st.closestDistance then ⟨false, i, distance⟩ else st
      else st
  else some st

/-! ## at a house -/

/-- What a group does between `sem_wait` and `sem_post`. -/
def visit (h : House) (g : Group) : House × Group :=
  if g.numOfKids ≤ h.numOfCandy then
    ({ h with numOfCandy := int32 (h.numOfCandy - g.numOfKids) },
      { g with numOfCandy := int32 (g.numOfCandy + g.numOfKids) })
  else
    ({ h with numOfCandy := 0 }, { g with numOfCandy := int32 (g.numOfCandy + h.numOfCandy) })

/-- A refill. -/
def refill (h : House) (candy : Int) : House := { h with numOfCandy := int32 (h.numOfCandy + candy) }

@[simp] theorem visit_currHouse (h : House) (g : Group) : (visit h g).2.currHouse = g.currHouse := by
  unfold visit
  split <;> rfl

@[simp] theorem visit_numOfKids (h : House) (g : Group) : (visit h g).2.numOfKids = g.numOfKids := by
  unfold visit
  split <;> rfl

end Cmsc421.Trick
