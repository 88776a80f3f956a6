import Cmsc421.Mastermind.Codes

/-!
# Cmsc421.Mastermind.Entries

One entry for each player, which nobody else writes.

A call looks its entry up in one locked section and works on it in another, and
calls of the same player may do so at the same time.  The list only ever grows at
its end, by an entry for a player who has none, so a pointer that `find_game` has
returned stays good; and a locked section writes no entry but the one of its own
caller.
-/

namespace Cmsc421.Mastermind

/-! ## find_game -/

/-- What `find_game` promises: a pointer to the one entry of the player, in a list
that has kept all its entries, or `NULL` after a failed allocation, with nothing
changed. -/
structure FindsOwn (u : Kuid) (a : Allocation) (d : Driver) : Prop where
  own : ∀ {p}, (findGame u a d).2 = some p →
    ∃ g : MmGame, (findGame u a d).1.gamesList[p]? = some g ∧ g.playerId = u
  unique : ∀ {p}, (findGame u a d).2 = some p → ∀ {i g},
    (findGame u a d).1.gamesList[i]? = some g → g.playerId = u → i = p
  keeps : d.gamesList <+: (findGame u a d).1.gamesList
  fails : (findGame u a d).2 = none →
    (findGame u a d).1 = d ∧ (a.kzalloc = false ∨ a.vmalloc = none)

/-- Where every player has one entry, `find_game` keeps its promise. -/
theorem Owned.findsOwn {s : Sys} (h : Owned s) (u : Kuid) (a : Allocation) :
    FindsOwn u a s.drv := by
  obtain ⟨p, g, hentry, huser, hf⟩ | ⟨hnew, page, -, -, hf⟩ | ⟨-, hfail, hf⟩ :=
    findGame_cases u a s.drv
  · refine { own := ?_, unique := ?_, keeps := by simp [hf], fails := by simp [hf] }
    · rw [hf]
      rintro _ ⟨⟩
      exact ⟨g, hentry, huser⟩
    · rw [hf]
      rintro _ ⟨⟩ i g' hi hid
      exact h.eq_of_playerId hi hentry (hid.trans huser.symm)
  · refine { own := ?_, unique := ?_, keeps := by simp [hf], fails := by simp [hf] }
    · rw [hf]
      rintro _ ⟨⟩
      exact ⟨newGame u page.toList, by simp, rfl⟩
    · rw [hf]
      rintro _ ⟨⟩ i g' hi hid
      by_cases hlt : i < s.drv.gamesList.length
      · rw [List.getElem?_append_left hlt] at hi
        exact absurd hid (hnew g' (List.mem_of_getElem? hi))
      · have := (List.getElem?_eq_some_iff.mp hi).1
        simp only [List.length_append, List.length_singleton] at this
        omega
  · exact { own := by simp [hf], unique := by simp [hf], keeps := by simp [hf],
            fails := fun _ => ⟨by rw [hf], hfail⟩ }

/-! ## the list over a run -/

/-- A step keeps the owners of the entries at their places. -/
theorem playerId_prefix_step {ro : Rodata} {s s' : Sys} {l : Label}
    (hs : Mastermind.step ro s l = some s') :
    s.drv.gamesList.map (·.playerId) <+: s'.drv.gamesList.map (·.playerId) := by
  cases step_cases hs with
  | added => simp [afterAdd]
  | main hframe hentry => exact (map_playerId_afterSection hentry).symm ▸ List.prefix_rfl
  | enter | found | failed | noEntry | irq | bottom | setRandomCode => exact List.prefix_rfl

theorem playerId_prefix_of_run {ro : Rodata} {tr : List (Sys × Label)} {s : Sys}
    (h : (driver ro).Run tr s) :
    ∀ p ∈ tr, p.1.drv.gamesList.map (·.playerId) <+: s.drv.gamesList.map (·.playerId) := by
  refine Machine.Run.invariant (I := fun tr s => ∀ p ∈ tr,
    p.1.drv.gamesList.map (·.playerId) <+: s.drv.gamesList.map (·.playerId)) (by simp) ?_ h
  intro tr s l t hI hs p hp
  have hstep := playerId_prefix_step hs
  rcases List.mem_append.mp hp with hp | hp
  · exact (hI p hp).trans hstep
  · obtain rfl := List.mem_singleton.mp hp
    exact hstep

/-- A step that belongs to no call of `u` leaves the entry of `u` as it is. -/
theorem entry_step {ro : Rodata} {s s' : Sys} {l : Label} (howned : Owned s)
    (hs : Mastermind.step ro s l = some s') {u : Kuid} (hcaller : caller s l ≠ some u) {i : Nat}
    {g : MmGame} (hg : s.drv.gamesList[i]? = some g) (hu : g.playerId = u) :
    s'.drv.gamesList[i]? = some g := by
  cases step_cases hs with
  | added =>
      have hlt := (List.getElem?_eq_some_iff.mp hg).1
      simpa [afterAdd, List.getElem?_append_left hlt] using hg
  | @main t rnd user call highest p g' hframe hentry =>
      have hne : user ≠ u := by simpa [caller, hframe] using hcaller
      obtain ⟨x, hx, huser⟩ := howned.pointer hframe
      obtain rfl := Option.some.inj (hx.symm.trans hentry)
      have hip : i ≠ p := by
        rintro rfl
        obtain rfl := Option.some.inj (hx.symm.trans hg)
        exact hne (huser.symm.trans hu)
      rw [getElem?_afterSection hentry, if_neg hip, hg]
  | enter | found | failed | noEntry | irq | bottom | setRandomCode => exact hg

/-- **One entry for each player, and nobody else writes it.**  In every reachable
state the owners of the entries are different, every entry that was ever in the list
is still at its place, a thread that holds a pointer holds the entry of its own user,
`find_game` returns the player's one entry or fails and changes nothing, and a step
of anybody else's call, or of the interrupt handler, leaves the whole entry of a
player as it is. -/
theorem entries_of_run (ro : Rodata) {tr : List (Sys × Label)} {s : Sys}
    (h : (driver ro).Run tr s) :
    (s.drv.gamesList.map (·.playerId)).Nodup ∧
    (∀ p ∈ tr, p.1.drv.gamesList.map (·.playerId) <+: s.drv.gamesList.map (·.playerId)) ∧
    (∀ t user call highest p, s.frames t = some (.locked user call highest (some p)) →
      ∃ g : MmGame, s.drv.gamesList[p]? = some g ∧ g.playerId = user) ∧
    (∀ u a, FindsOwn u a s.drv) ∧
    ∀ (l : Label) (s' : Sys), Mastermind.step ro s l = some s' → ∀ u, caller s l ≠ some u →
      ∀ (i : Nat) (g : MmGame), s.drv.gamesList[i]? = some g → g.playerId = u →
        s'.drv.gamesList[i]? = some g := by
  have howned := owned_of_run h
  refine ⟨howned.nodup, playerId_prefix_of_run h, fun _ _ _ _ _ hf => howned.pointer hf,
    fun u a => howned.findsOwn u a, ?_⟩
  intro l s' hs u hcaller i g hg hu
  exact entry_step howned hs hcaller hg hu

/-- The first two calls of one player at the same time, and a call of another whose
allocation fails. -/
def firstCalls : List Label :=
  [.enter 0 1000 (ctlText "start" false), .enter 1 1000 (guessText "0011"), .find 1 clearPage,
    .find 0 clearPage, .main 0 0, .enter 2 1001 (ctlText "start" false), .find 2 ⟨true, none⟩,
    .main 1 0, .main 2 0]

theorem entries_of_run_firstCalls :
    ∃ s, (driver .zeros).Run ((driver .zeros).trace (initSys false) firstCalls) s ∧
      s.drv.gamesList.map (·.playerId) = [1000] ∧ (s.drv.gamesList.map (·.playerId)).Nodup := by
  obtain ⟨s, hrun, hs⟩ := Machine.exists_run_of_exec (M := driver .zeros) ⟨false, rfl⟩ firstCalls
    (b := fun s => s.drv.gamesList.map (·.playerId) == [1000]) (by decide +kernel)
  exact ⟨s, hrun, beq_iff_eq.mp hs, (entries_of_run .zeros hrun).1⟩

end Cmsc421.Mastermind
