import Cmsc421.Guarded
import Cmsc421.Trick.Candy

/-!
# Cmsc421.Trick.Exclusion

Who is at a house.

A group or the neighborhood thread is at a house from its `sem_wait` to its `sem_post`.
Once `main` has read the houses, each lock keeps all but one of them out; and while a lock is
taken, its holder can go on.
-/

namespace Cmsc421.Trick

/-! ## who holds a lock -/

/-- The lock that a group holds. -/
def GroupPc.inside : GroupPc → Option (Fin numOfHouses)
  | .visiting j | .leaving j => some j
  | .unborn | .looping | .searching _ _ | .travelling _ _ | .waiting _ | .done => none

/-- The lock that the neighborhood thread holds. -/
def NeighborhoodPc.inside : NeighborhoodPc → Option (Fin numOfHouses)
  | .refilling j _ | .leaving j => some j
  | .unborn | .looping | .reading | .waiting _ _ | .done => none

/-- A thread holds the lock of a house: the neighborhood thread, or that of a group. -/
def State.Holds (s : State) (j : Fin numOfHouses) : Option Nat → Prop
  | none => s.neighborhood.inside = some j
  | some i => (s.group i).inside = some j

/-- What holds of the locks. -/
structure Exclusive (s : State) : Prop where
  guarded : ∀ j : Fin numOfHouses, (∀ n ∈ s.main.nextHouse, j < n) →
    Guarded (s.locks j).value (s.Holds j)
  unborn : ∀ n ∈ s.main.nextGroup, ∀ i, n ≤ i → s.group i = .unborn
  born : ∀ i, s.groups i = none ↔ s.group i = .unborn

/-- Once there is a group, all houses have been read. -/
theorem Exclusive.guarded_of_born {s : State} (h : Exclusive s) {i : Nat} (hborn : s.group i ≠ .unborn)
    (j : Fin numOfHouses) : Guarded (s.locks j).value (s.Holds j) :=
  h.guarded j fun _ hn =>
    absurd (h.unborn 0 (MainPc.nextGroup_of_nextHouse hn) i (Nat.zero_le i)) hborn

/-- At most one group is at a house, … -/
theorem Exclusive.group_unique {s : State} (h : Exclusive s) {i k : Nat} {j : Fin numOfHouses}
    (hi : (s.group i).inside = some j) (hk : (s.group k).inside = some j) : i = k := by
  have hborn : s.group i ≠ .unborn := by
    intro hunborn
    simp [hunborn, GroupPc.inside] at hi
  exact Option.some.inj ((h.guarded_of_born hborn j).unique (p := some i) (q := some k) hi hk)

/-- … and none with the neighborhood thread. -/
theorem Exclusive.group_not_refilled {s : State} (h : Exclusive s) {i : Nat} {j : Fin numOfHouses}
    (hi : (s.group i).inside = some j) : s.neighborhood.inside ≠ some j := by
  intro hn
  have hborn : s.group i ≠ .unborn := by
    intro hunborn
    simp [hunborn, GroupPc.inside] at hi
  cases (h.guarded_of_born hborn j).unique (p := some i) (q := none) hi hn

/-- A group that moves on between a wait and a post, or outside. -/
theorem State.holds_moveGroup {s s' : State} {i : Nat} {pc : GroupPc} {j : Fin numOfHouses}
    (hgroup : s'.group = Function.update s.group i pc) (hneighborhood : s'.neighborhood = s.neighborhood)
    (hpc : pc.inside = (s.group i).inside) (p : Option Nat) : s'.Holds j p ↔ s.Holds j p := by
  cases p with
  | none => rw [State.Holds, State.Holds, hneighborhood]
  | some k =>
      rw [State.Holds, State.Holds, hgroup, Function.update_apply]
      split
      · next hk => rw [hk, hpc]
      · rfl

/-- A step that does nothing to the locks. -/
theorem Exclusive.quiet {s s' : State} (h : Exclusive s)
    (hlocks : ∀ j, (s'.locks j).value = (s.locks j).value) (hholds : ∀ j p, s'.Holds j p ↔ s.Holds j p)
    (hhouse : ∀ j : Fin numOfHouses, (∀ n ∈ s'.main.nextHouse, j < n) → ∀ n ∈ s.main.nextHouse, j < n)
    (hunborn : ∀ n ∈ s'.main.nextGroup, ∀ i, n ≤ i → s'.group i = .unborn)
    (hborn : ∀ i, s'.groups i = none ↔ s'.group i = .unborn) : Exclusive s' where
  guarded j hj := by
    rw [hlocks]
    exact (h.guarded j (hhouse j hj)).congr (hholds j)
  unborn := hunborn
  born := hborn

/-- A step of `main` that does nothing to the locks or the groups. -/
theorem Exclusive.mainMoves {s : State} (h : Exclusive s) {s' : State}
    (hlocks : ∀ j, (s'.locks j).value = (s.locks j).value) (hgroup : s'.group = s.group)
    (hgroups : s'.groups = s.groups) (hneighborhood : s'.neighborhood.inside = s.neighborhood.inside)
    (hhouse : ∀ j : Fin numOfHouses, (∀ n ∈ s'.main.nextHouse, j < n) → ∀ n ∈ s.main.nextHouse, j < n)
    (hnext : ∀ n ∈ s'.main.nextGroup, ∃ m ∈ s.main.nextGroup, m ≤ n) : Exclusive s' := by
  refine h.quiet hlocks (fun j p => ?_) hhouse (fun n hn i hi => ?_) fun i => ?_
  · cases p with
    | none => rw [State.Holds, State.Holds, hneighborhood]
    | some k => rw [State.Holds, State.Holds, hgroup]
  · obtain ⟨m, hm, hmn⟩ := hnext n hn
    rw [hgroup]
    exact h.unborn m hm i (hmn.trans hi)
  · rw [hgroups, hgroup]
    exact h.born i

section group

variable {s s' : State} {i : Nat} {g g' : Group} {pc : GroupPc}

/-- A group that has been set up moves on; no other appears. -/
theorem Exclusive.unborn_move (h : Exclusive s) (hg : s.groups i = some g) (hmain : s'.main = s.main)
    (hgroup : s'.group = Function.update s.group i pc) :
    ∀ n ∈ s'.main.nextGroup, ∀ k, n ≤ k → s'.group k = .unborn := by
  intro n hn k hk
  have hunborn := h.unborn n (hmain ▸ hn) k hk
  have hne : k ≠ i := by
    rintro rfl
    rw [← h.born, hg] at hunborn
    cases hunborn
  rw [hgroup, Function.update_of_ne hne, hunborn]

theorem Exclusive.born_move (h : Exclusive s) (hgroups : s'.groups = Function.update s.groups i (some g'))
    (hgroup : s'.group = Function.update s.group i pc) (hpc : pc ≠ .unborn) (k : Nat) :
    s'.groups k = none ↔ s'.group k = .unborn := by
  rw [hgroups, hgroup, Function.update_apply, Function.update_apply]
  split
  · exact iff_of_false nofun hpc
  · exact h.born k

/-- A group moves on, and not past a wait or a post. -/
theorem Exclusive.groupMoves (h : Exclusive s) (hg : s.groups i = some g) (hmain : s'.main = s.main)
    (hlocks : s'.locks = s.locks) (hneighborhood : s'.neighborhood = s.neighborhood)
    (hgroups : s'.groups = Function.update s.groups i (some g'))
    (hgroup : s'.group = Function.update s.group i pc) (hpc : pc ≠ .unborn)
    (hinside : pc.inside = (s.group i).inside) : Exclusive s' :=
  h.quiet (fun _ => by rw [hlocks]) (fun _ => State.holds_moveGroup hgroup hneighborhood hinside)
    (fun _ => by rw [hmain]; exact id) (h.unborn_move hg hmain hgroup) (h.born_move hgroups hgroup hpc)

end group

/-- A thread takes the lock of a house. -/
theorem Exclusive.enter {s s' : State} (h : Exclusive s) {j : Fin numOfHouses} {p : Option Nat}
    (hfree : (s.locks j).value ≠ 0) (hlocks : s'.locks = (s.wait j).locks) (hmain : s'.main = s.main)
    (hholds : ∀ k q, s'.Holds k q ↔ s.Holds k q ∨ k = j ∧ q = p)
    (hunborn : ∀ n ∈ s'.main.nextGroup, ∀ i, n ≤ i → s'.group i = .unborn)
    (hborn : ∀ i, s'.groups i = none ↔ s'.group i = .unborn) : Exclusive s' where
  guarded k hk := by
    rw [hmain] at hk
    rw [hlocks]
    by_cases hkj : k = j
    · subst hkj
      simp only [State.wait, Function.update_self]
      exact (h.guarded k hk).wait hfree fun q => (hholds k q).trans (or_congr_right (and_iff_right rfl))
    · simp only [State.wait, Function.update_of_ne hkj]
      exact (h.guarded k hk).congr fun q => (hholds k q).trans (or_iff_left fun hq => hkj hq.1)
  unborn := hunborn
  born := hborn

/-- The thread at a house leaves it. -/
theorem Exclusive.leave {s s' : State} (h : Exclusive s) {j : Fin numOfHouses} {p : Option Nat}
    (hp : s.Holds j p) (hlocks : s'.locks = (s.post j).locks) (hmain : s'.main = s.main)
    (hholds : ∀ k q, s'.Holds k q ↔ s.Holds k q ∧ ¬ (k = j ∧ q = p))
    (hunborn : ∀ n ∈ s'.main.nextGroup, ∀ i, n ≤ i → s'.group i = .unborn)
    (hborn : ∀ i, s'.groups i = none ↔ s'.group i = .unborn) : Exclusive s' where
  guarded k hk := by
    rw [hmain] at hk
    rw [hlocks]
    by_cases hkj : k = j
    · subst hkj
      simp only [State.post, Function.update_self]
      exact (h.guarded k hk).post hp fun q =>
        (hholds k q).trans (and_congr_right fun _ => not_congr (and_iff_right rfl))
    · simp only [State.post, Function.update_of_ne hkj]
      exact (h.guarded k hk).congr fun q => (hholds k q).trans (and_iff_left fun hq => hkj hq.1)
  unborn := hunborn
  born := hborn

/-- **One step.** -/
theorem Exclusive.step {T : Int} {s s' : State} {l : Label} (h : Exclusive s) (hcounted : Counted s)
    (hs : Trick.step T s l = some s') : Exclusive s' := by
  have hset : ∀ {i : Nat} {g : Group}, s.groups i = some g →
      s.groups = Function.update s.groups i (some g) := fun hg => by
    rw [← hg, Function.update_eq_self]
  cases step_cases hs with
  | stop => exact ⟨h.guarded, h.unborn, h.born⟩
  | readG hpc =>
      refine h.mainMoves (fun _ => rfl) rfl rfl rfl ?_ ?_
      · rw [hpc]
        exact fun _ => id
      · rw [hpc]
        exact fun n hn => ⟨n, hn, Nat.le_refl n⟩
  | @readHouse i line rest x y candy hpc hi =>
      refine ⟨fun j hj => ?_, ?_, h.born⟩
      · have hlt : j.val < i + 1 := hj (i + 1) rfl
        by_cases hji : j = ⟨i, hi⟩
        · -- nobody is there to hold the new lock
          subst hji
          simp only [Function.update_self]
          refine .free rfl fun p hp => ?_
          cases p with
          | none => simp [State.Holds, hcounted.alone (by rw [hpc]; rfl), NeighborhoodPc.inside] at hp
          | some k =>
              have hunborn := h.unborn 0 (by rw [hpc]; rfl) k (Nat.zero_le k)
              simp [State.Holds, hunborn, GroupPc.inside] at hp
        · have hne : j.val ≠ i := fun heq => hji (Fin.ext heq)
          simp only [Function.update_of_ne hji]
          refine h.guarded j fun n hn => ?_
          rw [hpc] at hn
          obtain rfl := Option.some.inj hn
          omega
      · exact fun n hn => h.unborn n (by rw [hpc]; exact hn)
  | housesRead hpc hi =>
      refine h.mainMoves (fun _ => rfl) rfl rfl rfl (fun j _ n hn => ?_) ?_
      · rw [hpc] at hn
        obtain rfl := Option.some.inj hn
        exact j.isLt.trans_le hi
      · rw [hpc]
        exact fun n hn => ⟨n, hn, Nat.le_refl n⟩
  | @skipGroup i hpc =>
      refine h.mainMoves (fun _ => rfl) rfl rfl rfl (by rw [hpc]; exact fun _ => id) ?_
      rw [hpc]
      rintro n hn
      obtain rfl := Option.some.inj hn
      exact ⟨i, rfl, Nat.le_succ i⟩
  | @readGroup i line rest startHouse numOfKids hpc hi =>
      have hunborn := h.unborn i (by rw [hpc]; rfl) i (Nat.le_refl i)
      refine h.quiet (fun _ => rfl) (fun _ => State.holds_moveGroup rfl rfl (by rw [hunborn]; rfl))
        (by rw [hpc]; exact fun _ => id) (fun n hn k hk => ?_) (h.born_move rfl rfl (by simp))
      obtain rfl := Option.some.inj hn
      simp only [State.moveGroup, Function.update_of_ne (by omega : k ≠ i)]
      exact h.unborn i (by rw [hpc]; rfl) k (by omega)
  | groupsRead hpc | report hpc | endSimulation hpc | lastReport hpc | destroyed hpc | join hpc =>
      exact h.mainMoves (fun _ => rfl) rfl rfl rfl (by rw [hpc]; exact fun _ => id) (by simp [MainPc.nextGroup])
  | create hpc =>
      refine h.mainMoves (fun _ => rfl) rfl rfl ?_ (by rw [hpc]; exact fun _ => id) (by simp [MainPc.nextGroup])
      rw [hcounted.alone (by rw [hpc]; rfl)]
      rfl
  | @destroy i hpc hi =>
      refine h.mainMoves (fun j => ?_) rfl rfl rfl (by rw [hpc]; exact fun _ => id) (by simp [MainPc.nextGroup])
      simp only [Function.update_apply]
      split
      · next hj => rw [hj]
      · rfl
  | test hg hpc =>
      refine h.groupMoves hg rfl rfl rfl (hset hg) rfl ?_ ?_
      · split <;> simp
      · rw [hpc]
        split <;> rfl
  | search hg hpc | depart hg hpc =>
      exact h.groupMoves hg rfl rfl rfl (hset hg) rfl (by simp) (by rw [hpc]; rfl)
  | arrive hg hpc | visit hg hpc =>
      exact h.groupMoves hg rfl rfl rfl rfl rfl (by simp) (by rw [hpc]; rfl)
  | @lock i g j hg hpc hfree =>
      refine h.enter (p := some i) hfree rfl rfl (fun k q => ?_) (h.unborn_move hg rfl rfl)
        (h.born_move (hset hg) rfl (by simp))
      cases q with
      | none => simp [State.Holds, State.moveGroup, State.wait]
      | some m =>
          by_cases hm : m = i
          · subst hm
            simp [State.Holds, State.moveGroup, State.wait, hpc, GroupPc.inside, eq_comm]
          · simp [State.Holds, State.moveGroup, State.wait, hm]
  | @unlock i g j hg hpc =>
      refine h.leave (p := some i) (by rw [State.Holds, hpc]; rfl) rfl rfl (fun k q => ?_)
        (h.unborn_move hg rfl rfl) (h.born_move (hset hg) rfl (by simp))
      cases q with
      | none => simp [State.Holds, State.moveGroup, State.post]
      | some m =>
          by_cases hm : m = i
          · subst hm
            simp [State.Holds, State.moveGroup, State.post, hpc, GroupPc.inside, eq_comm]
          · simp [State.Holds, State.moveGroup, State.post, hm]
  | testNeighborhood hpc =>
      refine h.mainMoves (fun _ => rfl) rfl rfl ?_ (fun _ => id) fun n hn => ⟨n, hn, Nat.le_refl n⟩
      rw [hpc]
      dsimp only
      split <;> rfl
  | noRefill hpc | readRefill hpc | refill hpc =>
      exact h.mainMoves (fun _ => rfl) rfl rfl (by rw [hpc]; rfl) (fun _ => id)
        fun n hn => ⟨n, hn, Nat.le_refl n⟩
  | @lockRefill house candy j hpc hj hfree =>
      refine h.enter (p := none) hfree rfl rfl (fun k q => ?_) h.unborn h.born
      cases q with
      | none => simp [State.Holds, hpc, NeighborhoodPc.inside, eq_comm]
      | some m => simp [State.Holds, State.wait]
  | @unlockRefill j hpc =>
      refine h.leave (p := none) (by rw [State.Holds, hpc]; rfl) rfl rfl (fun k q => ?_) h.unborn h.born
      cases q with
      | none => simp [State.Holds, hpc, NeighborhoodPc.inside, eq_comm]
      | some m => simp [State.Holds, State.post]

theorem exclusive_init (file : List UInt8) : Exclusive (initState file) where
  guarded _ hj := absurd (hj 0 rfl) (Nat.not_lt_zero _)
  unborn _ _ _ _ := rfl
  born _ := iff_of_true rfl rfl

/-- In every run each lock keeps all but one thread out. -/
theorem exclusive_of_run {file : List UInt8} {T : Int} {tr : List (State × Label)} {s : State}
    (h : (simulation file T).Run tr s) : Counted s ∧ Exclusive s := by
  refine Machine.Run.invariant (I := fun _ s => Counted s ∧ Exclusive s) ?_ ?_ h
  · rintro s rfl
    exact ⟨counted_init file, exclusive_init file⟩
  · rintro tr s l t ⟨hcounted, hexclusive⟩ hs
    exact ⟨hcounted.step hs, hexclusive.step hcounted hs⟩

end Cmsc421.Trick
