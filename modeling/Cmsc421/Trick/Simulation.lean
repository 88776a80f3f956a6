import Cmsc421.Mutex
import Cmsc421.Trick.DataFile

/-!
# Cmsc421.Trick.Simulation

`hw3.c` as a machine: `main`, the threads of the groups, and the neighborhood thread.

A step is what a thread does up to its next access to something that another thread
writes: a test of `end_simulation`, one house of the search for the closest one, an
operation on a lock, the update of a house that stands between two of them.  Sleeping
is being scheduled late.  Where the program does something that C does not define, and
where the process ends, the machine stops and says why.  A destroyed lock goes on
working, which C does not promise either; only `Locks` is about that.  Memory and
threads are there when the program asks for them.
-/

namespace Cmsc421.Trick

/-- What the program does that C does not define. -/
inductive Fault
  /-- an index outside of `houses_in_neighborhood` or `locks` -/
  | houseIndex
  /-- `atoi(NULL)` -/
  | nullToken
  /-- a group that has not been set up -/
  | uninitGroup
  /-- the id of a thread that has not been created -/
  | uninitThread
  deriving DecidableEq

/-- Why nothing moves any more. -/
inductive Stop
  | fault (f : Fault)
  /-- `exit` in `main`, where a line is missing -/
  | unreadable
  /-- `exit` in a group's thread, with "out of bounds error" -/
  | outOfBounds
  /-- `main` has returned -/
  | returned
  deriving DecidableEq

/-- Where `main` is. -/
inductive MainPc
  | readingG
  | readingHouse (i : Nat)
  | readingGroup (i : Nat)
  /-- before the neighborhood thread is created -/
  | creating
  /-- at the test of `current_time` -/
  | reporting (currentTime : Int)
  /-- before the last `printStatus()` -/
  | lastReport
  | destroying (i : Nat)
  | joining (i : Nat)
  deriving DecidableEq

/-- Where the thread of a group is. -/
inductive GroupPc
  /-- before `pthread_create` -/
  | unborn
  /-- at the test of `end_simulation` -/
  | looping
  /-- in the loop of `findClosestHouse` -/
  | searching (i : Nat) (st : Search)
  /-- on its way to a house at this distance -/
  | travelling (house : Fin numOfHouses) (distance : Int)
  /-- before `sem_wait` -/
  | waiting (house : Fin numOfHouses)
  /-- after it -/
  | visiting (house : Fin numOfHouses)
  /-- before `sem_post` -/
  | leaving (house : Fin numOfHouses)
  | done
  deriving DecidableEq

/-- Where the neighborhood thread is. -/
inductive NeighborhoodPc
  /-- before `pthread_create` -/
  | unborn
  /-- at the test of `end_simulation` -/
  | looping
  /-- before `fgets` -/
  | reading
  /-- before `sem_wait` -/
  | waiting (house candy : Int)
  /-- after it -/
  | refilling (house : Fin numOfHouses) (candy : Int)
  /-- before `sem_post` -/
  | leaving (house : Fin numOfHouses)
  | done
  deriving DecidableEq

/-- A house lock. -/
structure Lock where
  value : Nat
  destroyed : Bool

/-- The state of the program. -/
structure State where
  /-- the bytes of the data file that have not been read -/
  file : List UInt8
  G : Int
  houses : Houses
  groups : Nat → Option Group
  locks : Fin numOfHouses → Lock
  endSimulation : Bool
  main : MainPc
  group : Nat → GroupPc
  neighborhood : NeighborhoodPc
  stopped : Option Stop

/-- Who moves. -/
inductive Label
  | main
  | group (i : Nat)
  | neighborhood
  deriving DecidableEq

namespace State

/-- Nothing moves any more. -/
def stop (s : State) (x : Stop) : State := { s with stopped := some x }

/-- The thread of a group moves on. -/
def moveGroup (s : State) (i : Nat) (pc : GroupPc) : State :=
  { s with group := Function.update s.group i pc }

/-- `sem_wait` on the lock of a house, where it does not block. -/
def wait (s : State) (j : Fin numOfHouses) : State :=
  { s with locks := Function.update s.locks j { s.locks j with value := (s.locks j).value - 1 } }

/-- `sem_post` on the lock of a house. -/
def post (s : State) (j : Fin numOfHouses) : State :=
  { s with locks := Function.update s.locks j { s.locks j with value := afterPost (s.locks j).value } }

/-- Every group that `printStatus()` looks at has been set up. -/
def Reportable (s : State) : Prop := ∀ i < s.G.toNat, (s.groups i).isSome = true

instance (s : State) : Decidable s.Reportable := inferInstanceAs (Decidable (∀ i < s.G.toNat, _))

end State

/-- A step of `main()`; `T` is its second argument. -/
def mainStep (T : Int) (s : State) : Option State :=
  match s.main with
  | .readingG =>
      match fgets maxCharPerLine s.file with
      | none => some (s.stop .unreadable)
      | some (line, rest) => some { s with file := rest, G := atoi line, main := .readingHouse 0 }
  | .readingHouse i =>
      if h : i < numOfHouses then
        match fgets maxCharPerLine s.file with
        | none => some (s.stop .unreadable)
        | some (line, rest) =>
            match threeNumbers line with
            | none => some (s.stop (.fault .nullToken))
            | some (x, y, candy) =>
                some { s with
                  file := rest
                  houses := Function.update s.houses ⟨i, h⟩ ⟨i, x, y, candy⟩
                  locks := Function.update s.locks ⟨i, h⟩ ⟨1, false⟩
                  main := .readingHouse (i + 1) }
      else some { s with main := .readingGroup 0 }
  | .readingGroup i =>
      if (i : Int) < s.G then
        match fgets maxCharPerLine s.file with
        | none => some { s with main := .readingGroup (i + 1) }
        | some (line, rest) =>
            match twoNumbers line with
            | none => some (s.stop (.fault .nullToken))
            | some (startHouse, numOfKids) =>
                some { s.moveGroup i .looping with
                  file := rest
                  groups := Function.update s.groups i (some ⟨i, startHouse, startHouse, numOfKids, 0⟩)
                  main := .readingGroup (i + 1) }
      else some { s with main := .creating }
  | .creating => some { s with neighborhood := .looping, main := .reporting 0 }
  | .reporting t =>
      if t ≤ T then
        if s.Reportable then some { s with main := .reporting (int32 (t + 1)) }
        else some (s.stop (.fault .uninitGroup))
      else some { s with endSimulation := true, main := .lastReport }
  | .lastReport =>
      if s.Reportable then some { s with main := .destroying 0 }
      else some (s.stop (.fault .uninitGroup))
  | .destroying i =>
      if h : i < numOfHouses then
        some { s with
          locks := Function.update s.locks ⟨i, h⟩ { s.locks ⟨i, h⟩ with destroyed := true }
          main := .destroying (i + 1) }
      else some { s with main := .joining 0 }
  | .joining i =>
      if (i : Int) < s.G then
        match s.group i with
        | .unborn => some (s.stop (.fault .uninitThread))
        | .done => some { s with main := .joining (i + 1) }
        | _ => none
      else some (s.stop .returned)

/-- A step of `ChildGroupFunction` for the group `i`. -/
def groupStep (s : State) (i : Nat) : Option State :=
  (s.groups i).bind fun g =>
    match s.group i with
    | .unborn => none
    | .looping =>
        some (s.moveGroup i (if s.endSimulation then .done else .searching 0 Search.init))
    | .searching k st =>
        if h : k < numOfHouses then
          match searchHouse s.houses g st ⟨k, h⟩ with
          | none => some (s.stop (.fault .houseIndex))
          | some st' => some (s.moveGroup i (.searching (k + 1) st'))
        else if st.closest < 0 then some (s.stop .outOfBounds)
        else
          match houseIndex st.closest, houseIndex g.currHouse with
          | some j, some curr =>
              some (s.moveGroup i (.travelling j (manhattanDistance (s.houses j) (s.houses curr))))
          | _, _ => some (s.stop (.fault .houseIndex))
    | .travelling j _ =>
        some { s.moveGroup i (.waiting j) with
          groups := Function.update s.groups i (some { g with currHouse := j }) }
    | .waiting j =>
        if (s.locks j).value = 0 then none else some ((s.wait j).moveGroup i (.visiting j))
    | .visiting j =>
        some { s.moveGroup i (.leaving j) with
          houses := Function.update s.houses j (visit (s.houses j) g).1
          groups := Function.update s.groups i (some (visit (s.houses j) g).2) }
    | .leaving j => some ((s.post j).moveGroup i .looping)
    | .done => none

/-- A step of `neighborhoodFunction`. -/
def neighborhoodStep (s : State) : Option State :=
  match s.neighborhood with
  | .unborn => none
  | .looping => some { s with neighborhood := if s.endSimulation then .done else .reading }
  | .reading =>
      match fgets maxCharPerLine s.file with
      | none => some { s with endSimulation := true, neighborhood := .done }
      | some (line, rest) =>
          match twoNumbers line with
          | none => some (s.stop (.fault .nullToken))
          | some (house, candy) => some { s with file := rest, neighborhood := .waiting house candy }
  | .waiting house candy =>
      match houseIndex house with
      | none => some (s.stop (.fault .houseIndex))
      | some j =>
          if (s.locks j).value = 0 then none
          else some { s.wait j with neighborhood := .refilling j candy }
  | .refilling j candy =>
      some { s with
        houses := Function.update s.houses j (refill (s.houses j) candy)
        neighborhood := .leaving j }
  | .leaving j => some { s.post j with neighborhood := .looping }
  | .done => none

/-- One step. -/
def step (T : Int) (s : State) (l : Label) : Option State :=
  if s.stopped.isSome then none
  else
    match l with
    | .main => mainStep T s
    | .group i => groupStep s i
    | .neighborhood => neighborhoodStep s

/-- The program as it starts on a data file. -/
def initState (file : List UInt8) : State where
  file := file
  G := 0
  houses := fun _ => ⟨0, 0, 0, 0⟩
  groups := fun _ => none
  locks := fun _ => ⟨0, false⟩
  endSimulation := false
  main := .readingG
  group := fun _ => .unborn
  neighborhood := .unborn
  stopped := none

/-- The program on a data file, for `T` seconds. -/
def simulation (file : List UInt8) (T : Int) : Machine State Label where
  init s := s = initState file
  step := step T

/-- The steps in which `main` reads a file with `G` groups and creates all threads. -/
def startUp (G : Nat) : List Label := List.replicate (numOfHouses + G + 4) .main

/-- The steps of a group that goes to one house. -/
def oneVisit (i : Nat) : List Label := List.replicate (numOfHouses + 6) (.group i)

/-- The steps of a refill. -/
def oneRefill : List Label := List.replicate 5 .neighborhood

/-! ## what a step can do -/

/-- **Where the machine stops.** -/
inductive Stops (T : Int) (s : State) : Label → Stop → Prop
  | unreadable (hpc : s.main = .readingG ∨ ∃ i < numOfHouses, s.main = .readingHouse i)
      (heof : fgets maxCharPerLine s.file = none) : Stops T s .main .unreadable
  | houseTokens {i : Nat} {line rest : List UInt8} (hpc : s.main = .readingHouse i)
      (hi : i < numOfHouses) (hline : fgets maxCharPerLine s.file = some (line, rest))
      (hnull : threeNumbers line = none) : Stops T s .main (.fault .nullToken)
  | groupTokens {i : Nat} {line rest : List UInt8} (hpc : s.main = .readingGroup i)
      (hi : (i : Int) < s.G) (hline : fgets maxCharPerLine s.file = some (line, rest))
      (hnull : twoNumbers line = none) : Stops T s .main (.fault .nullToken)
  | report (hpc : (∃ t ≤ T, s.main = .reporting t) ∨ s.main = .lastReport)
      (huninit : ¬ s.Reportable) : Stops T s .main (.fault .uninitGroup)
  | join {i : Nat} (hpc : s.main = .joining i) (hi : (i : Int) < s.G)
      (hunborn : s.group i = .unborn) : Stops T s .main (.fault .uninitThread)
  | returned {i : Nat} (hpc : s.main = .joining i) (hi : s.G ≤ i) : Stops T s .main .returned
  | search {i k : Nat} {g : Group} {st : Search} (hg : s.groups i = some g)
      (hpc : s.group i = .searching k st) (hk : k < numOfHouses)
      (hout : searchHouse s.houses g st ⟨k, hk⟩ = none) : Stops T s (.group i) (.fault .houseIndex)
  | lost {i k : Nat} {g : Group} {st : Search} (hg : s.groups i = some g)
      (hpc : s.group i = .searching k st) (hk : numOfHouses ≤ k) (hneg : st.closest < 0) :
      Stops T s (.group i) .outOfBounds
  | depart {i k : Nat} {g : Group} {st : Search} (hg : s.groups i = some g)
      (hpc : s.group i = .searching k st) (hk : numOfHouses ≤ k) (hneg : 0 ≤ st.closest)
      (hout : houseIndex st.closest = none ∨ houseIndex g.currHouse = none) :
      Stops T s (.group i) (.fault .houseIndex)
  | refillTokens {line rest : List UInt8} (hpc : s.neighborhood = .reading)
      (hline : fgets maxCharPerLine s.file = some (line, rest)) (hnull : twoNumbers line = none) :
      Stops T s .neighborhood (.fault .nullToken)
  | refill {house candy : Int} (hpc : s.neighborhood = .waiting house candy)
      (hout : houseIndex house = none) : Stops T s .neighborhood (.fault .houseIndex)

/-- **All that a step can do.** -/
inductive Effect (T : Int) (s : State) : Label → State → Prop
  | stop {l : Label} {x : Stop} (h : Stops T s l x) : Effect T s l (s.stop x)
  | readG {line rest : List UInt8} (hpc : s.main = .readingG)
      (hline : fgets maxCharPerLine s.file = some (line, rest)) :
      Effect T s .main { s with file := rest, G := atoi line, main := .readingHouse 0 }
  | readHouse {i : Nat} {line rest : List UInt8} {x y candy : Int}
      (hpc : s.main = .readingHouse i) (hi : i < numOfHouses)
      (hline : fgets maxCharPerLine s.file = some (line, rest))
      (hnum : threeNumbers line = some (x, y, candy)) :
      Effect T s .main
        { s with
          file := rest
          houses := Function.update s.houses ⟨i, hi⟩ ⟨i, x, y, candy⟩
          locks := Function.update s.locks ⟨i, hi⟩ ⟨1, false⟩
          main := .readingHouse (i + 1) }
  | housesRead {i : Nat} (hpc : s.main = .readingHouse i) (hi : numOfHouses ≤ i) :
      Effect T s .main { s with main := .readingGroup 0 }
  | skipGroup {i : Nat} (hpc : s.main = .readingGroup i) (hi : (i : Int) < s.G)
      (heof : fgets maxCharPerLine s.file = none) :
      Effect T s .main { s with main := .readingGroup (i + 1) }
  | readGroup {i : Nat} {line rest : List UInt8} {startHouse numOfKids : Int}
      (hpc : s.main = .readingGroup i) (hi : (i : Int) < s.G)
      (hline : fgets maxCharPerLine s.file = some (line, rest))
      (hnum : twoNumbers line = some (startHouse, numOfKids)) :
      Effect T s .main
        { s.moveGroup i .looping with
          file := rest
          groups := Function.update s.groups i (some ⟨i, startHouse, startHouse, numOfKids, 0⟩)
          main := .readingGroup (i + 1) }
  | groupsRead {i : Nat} (hpc : s.main = .readingGroup i) (hi : s.G ≤ i) :
      Effect T s .main { s with main := .creating }
  | create (hpc : s.main = .creating) :
      Effect T s .main { s with neighborhood := .looping, main := .reporting 0 }
  | report {t : Int} (hpc : s.main = .reporting t) (ht : t ≤ T) (hinit : s.Reportable) :
      Effect T s .main { s with main := .reporting (int32 (t + 1)) }
  | endSimulation {t : Int} (hpc : s.main = .reporting t) (ht : T < t) :
      Effect T s .main { s with endSimulation := true, main := .lastReport }
  | lastReport (hpc : s.main = .lastReport) (hinit : s.Reportable) :
      Effect T s .main { s with main := .destroying 0 }
  | destroy {i : Nat} (hpc : s.main = .destroying i) (hi : i < numOfHouses) :
      Effect T s .main
        { s with
          locks := Function.update s.locks ⟨i, hi⟩ { s.locks ⟨i, hi⟩ with destroyed := true }
          main := .destroying (i + 1) }
  | destroyed {i : Nat} (hpc : s.main = .destroying i) (hi : numOfHouses ≤ i) :
      Effect T s .main { s with main := .joining 0 }
  | join {i : Nat} (hpc : s.main = .joining i) (hi : (i : Int) < s.G) (hdone : s.group i = .done) :
      Effect T s .main { s with main := .joining (i + 1) }
  | test {i : Nat} {g : Group} (hg : s.groups i = some g) (hpc : s.group i = .looping) :
      Effect T s (.group i)
        (s.moveGroup i (if s.endSimulation then .done else .searching 0 Search.init))
  | search {i k : Nat} {g : Group} {st st' : Search} (hg : s.groups i = some g)
      (hpc : s.group i = .searching k st) (hk : k < numOfHouses)
      (hst : searchHouse s.houses g st ⟨k, hk⟩ = some st') :
      Effect T s (.group i) (s.moveGroup i (.searching (k + 1) st'))
  | depart {i k : Nat} {g : Group} {st : Search} {j curr : Fin numOfHouses}
      (hg : s.groups i = some g) (hpc : s.group i = .searching k st) (hk : numOfHouses ≤ k)
      (hj : houseIndex st.closest = some j) (hcurr : houseIndex g.currHouse = some curr) :
      Effect T s (.group i)
        (s.moveGroup i (.travelling j (manhattanDistance (s.houses j) (s.houses curr))))
  | arrive {i : Nat} {g : Group} {j : Fin numOfHouses} {d : Int} (hg : s.groups i = some g)
      (hpc : s.group i = .travelling j d) :
      Effect T s (.group i)
        { s.moveGroup i (.waiting j) with
          groups := Function.update s.groups i (some { g with currHouse := j }) }
  | lock {i : Nat} {g : Group} {j : Fin numOfHouses} (hg : s.groups i = some g)
      (hpc : s.group i = .waiting j) (hfree : (s.locks j).value ≠ 0) :
      Effect T s (.group i) ((s.wait j).moveGroup i (.visiting j))
  | visit {i : Nat} {g : Group} {j : Fin numOfHouses} (hg : s.groups i = some g)
      (hpc : s.group i = .visiting j) :
      Effect T s (.group i)
        { s.moveGroup i (.leaving j) with
          houses := Function.update s.houses j (Trick.visit (s.houses j) g).1
          groups := Function.update s.groups i (some (Trick.visit (s.houses j) g).2) }
  | unlock {i : Nat} {g : Group} {j : Fin numOfHouses} (hg : s.groups i = some g)
      (hpc : s.group i = .leaving j) :
      Effect T s (.group i) ((s.post j).moveGroup i .looping)
  | testNeighborhood (hpc : s.neighborhood = .looping) :
      Effect T s .neighborhood
        { s with neighborhood := if s.endSimulation then .done else .reading }
  | noRefill (hpc : s.neighborhood = .reading) (heof : fgets maxCharPerLine s.file = none) :
      Effect T s .neighborhood { s with endSimulation := true, neighborhood := .done }
  | readRefill {line rest : List UInt8} {house candy : Int} (hpc : s.neighborhood = .reading)
      (hline : fgets maxCharPerLine s.file = some (line, rest))
      (hnum : twoNumbers line = some (house, candy)) :
      Effect T s .neighborhood { s with file := rest, neighborhood := .waiting house candy }
  | lockRefill {house candy : Int} {j : Fin numOfHouses}
      (hpc : s.neighborhood = .waiting house candy) (hj : houseIndex house = some j)
      (hfree : (s.locks j).value ≠ 0) :
      Effect T s .neighborhood { s.wait j with neighborhood := .refilling j candy }
  | refill {j : Fin numOfHouses} {candy : Int} (hpc : s.neighborhood = .refilling j candy) :
      Effect T s .neighborhood
        { s with
          houses := Function.update s.houses j (Trick.refill (s.houses j) candy)
          neighborhood := .leaving j }
  | unlockRefill {j : Fin numOfHouses} (hpc : s.neighborhood = .leaving j) :
      Effect T s .neighborhood { s.post j with neighborhood := .looping }

theorem mainStep_cases {T : Int} {s s' : State} (h : mainStep T s = some s') :
    Effect T s .main s' := by
  unfold mainStep at h
  split at h
  case h_1 hpc =>
    split at h
    · next heof =>
        obtain rfl := Option.some.inj h
        exact .stop (.unreadable (.inl hpc) heof)
    · next line rest hline =>
        obtain rfl := Option.some.inj h
        exact .readG hpc hline
  case h_2 i hpc =>
    split at h
    · next hi =>
        split at h
        · next heof =>
            obtain rfl := Option.some.inj h
            exact .stop (.unreadable (.inr ⟨i, hi, hpc⟩) heof)
        · next line rest hline =>
            split at h
            · next hnull =>
                obtain rfl := Option.some.inj h
                exact .stop (.houseTokens hpc hi hline hnull)
            · next x y candy hnum =>
                obtain rfl := Option.some.inj h
                exact .readHouse hpc hi hline hnum
    · next hi =>
        obtain rfl := Option.some.inj h
        exact .housesRead hpc (not_lt.mp hi)
  case h_3 i hpc =>
    split at h
    · next hi =>
        split at h
        · next heof =>
            obtain rfl := Option.some.inj h
            exact .skipGroup hpc hi heof
        · next line rest hline =>
            split at h
            · next hnull =>
                obtain rfl := Option.some.inj h
                exact .stop (.groupTokens hpc hi hline hnull)
            · next startHouse numOfKids hnum =>
                obtain rfl := Option.some.inj h
                exact .readGroup hpc hi hline hnum
    · next hi =>
        obtain rfl := Option.some.inj h
        exact .groupsRead hpc (not_lt.mp hi)
  case h_4 hpc =>
    obtain rfl := Option.some.inj h
    exact .create hpc
  case h_5 t hpc =>
    split at h
    · next ht =>
        split at h
        · next hinit =>
            obtain rfl := Option.some.inj h
            exact .report hpc ht hinit
        · next huninit =>
            obtain rfl := Option.some.inj h
            exact .stop (.report (.inl ⟨t, ht, hpc⟩) huninit)
    · next ht =>
        obtain rfl := Option.some.inj h
        exact .endSimulation hpc (not_le.mp ht)
  case h_6 hpc =>
    split at h
    · next hinit =>
        obtain rfl := Option.some.inj h
        exact .lastReport hpc hinit
    · next huninit =>
        obtain rfl := Option.some.inj h
        exact .stop (.report (.inr hpc) huninit)
  case h_7 i hpc =>
    split at h
    · next hi =>
        obtain rfl := Option.some.inj h
        exact .destroy hpc hi
    · next hi =>
        obtain rfl := Option.some.inj h
        exact .destroyed hpc (not_lt.mp hi)
  case h_8 i hpc =>
    split at h
    · next hi =>
        split at h
        · next hunborn =>
            obtain rfl := Option.some.inj h
            exact .stop (.join hpc hi hunborn)
        · next hdone =>
            obtain rfl := Option.some.inj h
            exact .join hpc hi hdone
        · contradiction
    · next hi =>
        obtain rfl := Option.some.inj h
        exact .stop (.returned hpc (not_lt.mp hi))

theorem groupStep_cases {T : Int} {s s' : State} {i : Nat} (h : groupStep s i = some s') :
    Effect T s (.group i) s' := by
  obtain ⟨g, hg, h⟩ := Option.bind_eq_some_iff.mp h
  split at h
  case h_1 => contradiction
  case h_2 hpc =>
    obtain rfl := Option.some.inj h
    exact .test hg hpc
  case h_3 k st hpc =>
    split at h
    · next hk =>
        split at h
        · next hout =>
            obtain rfl := Option.some.inj h
            exact .stop (.search hg hpc hk hout)
        · next st' hst =>
            obtain rfl := Option.some.inj h
            exact .search hg hpc hk hst
    · next hk =>
        split at h
        · next hneg =>
            obtain rfl := Option.some.inj h
            exact .stop (.lost hg hpc (not_lt.mp hk) hneg)
        · next hneg =>
            split at h
            · next j curr hj hcurr =>
                obtain rfl := Option.some.inj h
                exact .depart hg hpc (not_lt.mp hk) hj hcurr
            · next hnone =>
                obtain rfl := Option.some.inj h
                refine .stop (.depart hg hpc (not_lt.mp hk) (not_lt.mp hneg) ?_)
                cases hj : houseIndex st.closest with
                | none => exact .inl rfl
                | some j =>
                    cases hcurr : houseIndex g.currHouse with
                    | none => exact .inr rfl
                    | some curr => exact (hnone j curr hj hcurr).elim
  case h_4 j d hpc =>
    obtain rfl := Option.some.inj h
    exact .arrive hg hpc
  case h_5 j hpc =>
    split at h
    · contradiction
    · next hfree =>
        obtain rfl := Option.some.inj h
        exact .lock hg hpc hfree
  case h_6 j hpc =>
    obtain rfl := Option.some.inj h
    exact .visit hg hpc
  case h_7 j hpc =>
    obtain rfl := Option.some.inj h
    exact .unlock hg hpc
  case h_8 => contradiction

theorem neighborhoodStep_cases {T : Int} {s s' : State} (h : neighborhoodStep s = some s') :
    Effect T s .neighborhood s' := by
  unfold neighborhoodStep at h
  split at h
  case h_1 => contradiction
  case h_2 hpc =>
    obtain rfl := Option.some.inj h
    exact .testNeighborhood hpc
  case h_3 hpc =>
    split at h
    · next heof =>
        obtain rfl := Option.some.inj h
        exact .noRefill hpc heof
    · next line rest hline =>
        split at h
        · next hnull =>
            obtain rfl := Option.some.inj h
            exact .stop (.refillTokens hpc hline hnull)
        · next house candy hnum =>
            obtain rfl := Option.some.inj h
            exact .readRefill hpc hline hnum
  case h_4 house candy hpc =>
    split at h
    · next hout =>
        obtain rfl := Option.some.inj h
        exact .stop (.refill hpc hout)
    · next j hj =>
        split at h
        · contradiction
        · next hfree =>
            obtain rfl := Option.some.inj h
            exact .lockRefill hpc hj hfree
  case h_5 j candy hpc =>
    obtain rfl := Option.some.inj h
    exact .refill hpc
  case h_6 j hpc =>
    obtain rfl := Option.some.inj h
    exact .unlockRefill hpc
  case h_7 => contradiction

/-- Every step has one of the effects. -/
theorem step_cases {T : Int} {s s' : State} {l : Label} (h : step T s l = some s') :
    Effect T s l s' := by
  unfold step at h
  split at h
  · contradiction
  · cases l with
    | main => exact mainStep_cases h
    | group i => exact groupStep_cases h
    | neighborhood => exact neighborhoodStep_cases h

/-! ## which threads there are -/

/-- `main` has not created the neighborhood thread. -/
def MainPc.early : MainPc → Bool
  | .readingG | .readingHouse _ | .readingGroup _ | .creating => true
  | .reporting _ | .lastReport | .destroying _ | .joining _ => false

/-- Only groups below `G` are set up and have a thread, and the neighborhood thread comes
last. -/
structure Counted (s : State) : Prop where
  absent : ∀ i, s.G.toNat ≤ i → s.groups i = none ∧ s.group i = .unborn
  fresh : s.main = .readingG → ∀ i, s.groups i = none ∧ s.group i = .unborn
  alone : s.main.early = true → s.neighborhood = .unborn

theorem Counted.lt {s : State} (h : Counted s) {i : Nat} {g : Group} (hg : s.groups i = some g) :
    i < s.G.toNat := by
  by_contra hle
  simp [(h.absent i (not_lt.mp hle)).1] at hg

theorem Counted.late {s : State} (h : Counted s) {pc : NeighborhoodPc} (hpc : s.neighborhood = pc)
    (hne : pc ≠ .unborn) : s.main.early = false := by
  by_contra hearly
  exact hne (hpc.symm.trans (h.alone (by simpa using hearly)))

/-- The update of a group below `G`. -/
theorem Counted.update {s s' : State} (h : Counted s) {i : Nat} (hi : i < s.G.toNat) {pc : GroupPc}
    (hG : s'.G = s.G) (hgroups : ∀ k ≠ i, s'.groups k = s.groups k)
    (hgroup : s'.group = Function.update s.group i pc) (hmain : s'.main ≠ .readingG)
    (halone : s'.main.early = true → s'.neighborhood = .unborn) : Counted s' where
  absent k hk := by
    rw [hG] at hk
    have hne : k ≠ i := by omega
    rw [hgroups k hne, hgroup, Function.update_of_ne hne]
    exact h.absent k hk
  fresh hpc := absurd hpc hmain
  alone := halone

theorem Counted.step {T : Int} {s s' : State} {l : Label} (h : Counted s)
    (hs : Trick.step T s l = some s') : Counted s' := by
  have hread : ∀ {i : Nat} {g : Group}, s.groups i = some g → s.main ≠ .readingG := by
    intro i g hg hpc
    simp [(h.fresh hpc i).1] at hg
  cases step_cases hs with
  | stop => exact ⟨h.absent, h.fresh, h.alone⟩
  | readG hpc => exact ⟨fun i _ => h.fresh hpc i, nofun, fun _ => h.alone (by rw [hpc]; rfl)⟩
  | readHouse hpc | housesRead hpc | skipGroup hpc | groupsRead hpc =>
      exact ⟨h.absent, nofun, fun _ => h.alone (by rw [hpc]; rfl)⟩
  | create | report | endSimulation | lastReport | destroy | destroyed | join =>
      exact ⟨h.absent, nofun, nofun⟩
  | readGroup hpc hi =>
      exact h.update (by omega) rfl (fun k hk => Function.update_of_ne hk ..) rfl nofun
        fun _ => h.alone (by rw [hpc]; rfl)
  | test hg | search hg | depart hg | lock hg | unlock hg =>
      exact h.update (h.lt hg) rfl (fun _ _ => rfl) rfl (hread hg) h.alone
  | arrive hg | visit hg =>
      exact h.update (h.lt hg) rfl (fun k hk => Function.update_of_ne hk ..) rfl (hread hg) h.alone
  | testNeighborhood hpc | noRefill hpc | readRefill hpc | lockRefill hpc | refill hpc
  | unlockRefill hpc =>
      exact ⟨h.absent, h.fresh, fun hearly =>
        absurd ((h.late hpc (by simp)).symm.trans hearly) Bool.false_ne_true⟩

theorem counted_init (file : List UInt8) : Counted (initState file) :=
  ⟨fun _ _ => ⟨rfl, rfl⟩, fun _ _ => ⟨rfl, rfl⟩, fun _ => rfl⟩

theorem counted_of_run {file : List UInt8} {T : Int} {tr : List (State × Label)} {s : State}
    (h : (simulation file T).Run tr s) : Counted s := by
  refine Machine.Run.invariant (I := fun _ => Counted) ?_ (fun _ _ _ _ hI hs => hI.step hs) h
  rintro s rfl
  exact counted_init file

end Cmsc421.Trick
