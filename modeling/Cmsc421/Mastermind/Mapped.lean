import Cmsc421.Mastermind.Entries
import Cmsc421.Mastermind.GuessLog

/-!
# Cmsc421.Mastermind.Mapped

What the mapped page shows.

`mm_mmap` hands out the whole page behind `user_view`.  A start clears 80 bytes of
it, and every accepted guess writes its line and a NUL behind the lines before.  So
the page is the log of the current game, zeros up to byte 80, and from there on
whatever it held when the game was started (`overlay`): the lines of earlier games,
or what `vmalloc` found in memory.  Two runs show the same page exactly when the
logs and these bytes agree.
-/

namespace Cmsc421.Mastermind

/-! ## the calls since the start of a game -/

/-- A call that a player makes during a game: its arguments, the bound it had read
into `highest_digit`, and the target code it ran against. -/
structure GameCall where
  call : Call
  highest : Int
  target : Code

/-- The latest game of a player: what the page held when it was started, and the
calls since then. -/
structure LatestGame where
  old : List UInt8
  calls : List GameCall

/-- The caller, the call, its bound and the entry, of a step that runs a section on
an entry. -/
def sectionRun (s : Sys) : Label → Option (Kuid × Call × Int × MmGame)
  | .main t _ =>
      match s.frames t with
      | some (.locked user call highest curr) =>
          (s.drv.deref curr).map fun g => (user, call, highest, g)
      | _ => none
  | _ => none

/-- The call takes the start branch. -/
def Call.isStart (ro : Rodata) : Call → Bool
  | .ctlWrite c => decide (Takes ro c .start)
  | _ => false

/-- What a step adds to the latest game of `u`. -/
def nextGame (ro : Rodata) (u : Kuid) (latest : Option LatestGame) (p : Sys × Label) :
    Option LatestGame :=
  match sectionRun p.1 p.2 with
  | some (user, call, highest, g) =>
      if user = u then
        if call.isStart ro then some ⟨g.userView, []⟩
        else latest.map fun game =>
          { game with calls := game.calls ++ [⟨call, highest, p.1.drv.vars.targetCode⟩] }
      else latest
  | none => latest

theorem Call.isStart_iff {ro : Rodata} {call : Call} :
    call.isStart ro = true ↔ ∃ c, call = .ctlWrite c ∧ Takes ro c .start := by
  cases call <;> simp [Call.isStart]

theorem section_start {ro : Rodata} {rnd : Fin NUM_PEGS → UInt32} {highest : Int} {c : CtlWrite}
    {v : Vars} {g : MmGame} (h : Takes ro c .start) :
    (Call.ctlWrite c).section ro rnd highest v g = startBranch rnd c.count v g := by
  simp [Call.section, mmCtlWrite, h.1, h.2]

/-- The latest game of `u` in a run, if `u` has started one. -/
def latestGame (ro : Rodata) (u : Kuid) (tr : List (Sys × Label)) : Option LatestGame :=
  tr.foldl (nextGame ro u) none

theorem latestGame_concat (ro : Rodata) (u : Kuid) (tr : List (Sys × Label)) (p : Sys × Label) :
    latestGame ro u (tr ++ [p]) = nextGame ro u (latestGame ro u tr) p := by
  simp [latestGame]

/-! ## the log of a game -/

/-- The line an accepted guess writes, as `scnprintf` cuts it. -/
def logLine (numGuesses : UInt32) (guess target : Code) : List UInt8 :=
  if guess = target then ascii "Correct Guess! Game over\n"
  else (guessLine numGuesses guess (scorePegs target guess)).take 23

/-- A game by itself: whether it is on, the guesses, and what they have logged. -/
structure Screen where
  active : Bool
  guesses : UInt32
  log : List UInt8

/-- The screen of a new game. -/
def Screen.fresh : Screen := ⟨true, 0, []⟩

/-- One call. -/
def Screen.next (ro : Rodata) (sc : Screen) (k : GameCall) : Screen :=
  match k.call with
  | .write ubuf count =>
      if sc.active = true ∧ NUM_PEGS ≤ count ∧ ∀ i, digitOk k.highest (userGuess ubuf i) = true then
        { active := decide (guessDigits ubuf ≠ k.target)
          guesses := sc.guesses + 1
          log := sc.log ++ logLine (sc.guesses + 1) (guessDigits ubuf) k.target }
      else sc
  | .ctlWrite c => if Takes ro c .quit then { sc with active := false } else sc
  | .read _ | .mmap _ => sc

/-- What the calls since the start of a game have logged. -/
def screen (ro : Rodata) (calls : List GameCall) : Screen := calls.foldl (Screen.next ro) .fresh

@[simp] theorem screen_concat (ro : Rodata) (calls : List GameCall) (k : GameCall) :
    screen ro (calls ++ [k]) = (screen ro calls).next ro k := by simp [screen]

theorem nulFree_logLine (numGuesses : UInt32) (guess target : Code) :
    NulFree (logLine numGuesses guess target) := by
  unfold logLine
  split
  · decide +kernel
  · exact (nulFree_guessLine _ _ _).take _

theorem nulFree_log (ro : Rodata) (calls : List GameCall) : NulFree (screen ro calls).log := by
  induction calls using List.reverseRecOn with
  | nil => simp [screen, Screen.fresh, NulFree]
  | append_singleton calls k ih =>
      rw [screen_concat, Screen.next]
      split
      · split
        · exact nulFree_append.mpr ⟨ih, nulFree_logLine _ _ _⟩
        · exact ih
      · split <;> exact ih
      · exact ih
      · exact ih

/-- What a scored guess appends to the log. -/
theorem scoreGuess_userView (count : Nat) (guess : Code) (v : Vars) (g : MmGame) :
    (scoreGuess count guess v g).game.userView =
      poke g.userView (strlen g.userView)
        (logLine (g.numGuesses + 1) guess v.targetCode ++ [0]) := by
  simp only [scoreGuess, logLine, numBlack_eq_iff]
  split
  · rw [strcat, cstr_scnprintf (by decide +kernel) _ (by decide)]
    rfl
  · rw [strcat, cstr_scnprintf (nulFree_guessLine _ _ _) _ (by decide)]

/-! ## overlays -/

/-- A page that held `old` when the game was started, with a log. -/
def overlay (old log : List UInt8) : List UInt8 := poke (memsetZero old 80) 0 (log ++ [0])

/-- A start leaves an empty log. -/
theorem memsetZero_eq_overlay (old : List UInt8) : memsetZero old 80 = overlay old [] := rfl

theorem overlay_eq (old log : List UInt8) :
    overlay old log = log ++ 0 :: (memsetZero old 80).drop (log.length + 1) := by
  simp [overlay, poke]

theorem cstr_overlay {log : List UInt8} (h : NulFree log) (old : List UInt8) :
    cstr (overlay old log) = log := by
  rw [overlay_eq, cstr_append_nul h]

/-- A line at the end of the log makes a longer log. -/
theorem poke_overlay {log : List UInt8} (h : NulFree log) (old line : List UInt8) :
    poke (overlay old log) (strlen (overlay old log)) (line ++ [0]) = overlay old (log ++ line) := by
  rw [strlen, cstr_overlay h, overlay_eq, overlay_eq, poke, List.take_left']
  · have hdrop : ∀ rest : List UInt8, (log ++ 0 :: rest).drop (log.length + (line ++ [0]).length) =
        rest.drop line.length := by
      intro rest
      simp [List.drop_append]
    rw [hdrop, List.drop_drop]
    simp [Nat.add_right_comm]
  · rfl

/-- A byte of a page whose first 80 were cleared. -/
theorem getElem?_memsetZero (old : List UInt8) (i : Nat) :
    (memsetZero old 80)[i]? = if i < 80 then some 0 else old[i]? := by
  have heq : memsetZero old 80 = List.replicate 80 0 ++ old.drop 80 := by simp [memsetZero, poke]
  rw [heq]
  split
  · next hi => rw [List.getElem?_append_left (by simpa using hi), List.getElem?_replicate_of_lt hi]
  · next hi =>
      rw [List.getElem?_append_right (by simpa using hi), List.length_replicate, List.getElem?_drop]
      congr 1
      omega

/-- A byte of an overlay behind the log. -/
theorem getElem?_overlay_of_gt {old log : List UInt8} {i : Nat} (h : log.length < i) :
    (overlay old log)[i]? = if i < 80 then some 0 else old[i]? := by
  rw [← getElem?_memsetZero, overlay_eq, List.getElem?_append_right (by omega)]
  obtain ⟨k, rfl⟩ := Nat.exists_eq_add_of_lt h
  rw [show log.length + k + 1 - log.length = k + 1 by omega, List.getElem?_cons_succ,
    List.getElem?_drop]
  congr 1
  omega

/-- What can be seen of an overlay tells what can be seen of its log. -/
theorem cstr_take_overlay {log : List UInt8} (h : NulFree log) (old : List UInt8) (n : Nat) :
    cstr ((overlay old log).take n) = log.take n := by
  rw [overlay_eq, List.take_append]
  by_cases hn : n ≤ log.length
  · rw [Nat.sub_eq_zero_of_le hn, List.take_zero, List.append_nil, cstr,
      List.takeWhile_eq_self_iff]
    exact fun b hb => by simpa using h.take n b hb
  · obtain ⟨k, rfl⟩ := Nat.exists_eq_add_of_lt (not_le.mp hn)
    rw [List.take_of_length_le (by omega), show log.length + k + 1 - log.length = k + 1 by omega,
      List.take_succ_cons, cstr_append_nul h]

/-- **When two overlays look the same**: their logs are the same as far as they can be
seen, and so are the bytes behind both the log and the 80 that were cleared. -/
theorem take_overlay_eq_iff {old₁ old₂ log₁ log₂ : List UInt8} (h₁ : NulFree log₁)
    (h₂ : NulFree log₂) (n : Nat) :
    (overlay old₁ log₁).take n = (overlay old₂ log₂).take n ↔
      log₁.take n = log₂.take n ∧
      ∀ i, max 80 (log₁.length + 1) ≤ i → i < n → old₁[i]? = old₂[i]? := by
  constructor
  · intro h
    have hlog : log₁.take n = log₂.take n := by
      rw [← cstr_take_overlay h₁ old₁, h, cstr_take_overlay h₂]
    refine ⟨hlog, fun i hi hin => ?_⟩
    have hlen₁ : log₁.length < i := by omega
    have hlen₂ : log₂.length < i := by
      have := congrArg List.length hlog
      simp only [List.length_take] at this
      omega
    have hbyte : (overlay old₁ log₁)[i]? = (overlay old₂ log₂)[i]? := by
      rw [← List.getElem?_take_of_lt hin, h, List.getElem?_take_of_lt hin]
    rwa [getElem?_overlay_of_gt hlen₁, getElem?_overlay_of_gt hlen₂, if_neg (by omega),
      if_neg (by omega)] at hbyte
  · rintro ⟨hlog, htail⟩
    have hlen := congrArg List.length hlog
    simp only [List.length_take] at hlen
    by_cases hn : n ≤ log₁.length
    · rw [overlay_eq, overlay_eq, List.take_append_of_le_length hn,
        List.take_append_of_le_length (by omega), hlog]
    · obtain rfl : log₁ = log₂ := by
        rwa [List.take_of_length_le (by omega), List.take_of_length_le (by omega)] at hlog
      refine List.ext_getElem? fun i => ?_
      simp only [List.getElem?_take]
      split
      · next hin =>
          by_cases hi : i ≤ log₁.length
          · have hhead : ∀ old, (overlay old log₁)[i]? = (log₁ ++ [0])[i]? := by
              intro old
              rw [overlay_eq, List.append_cons, List.getElem?_append_left (by simp; omega)]
            rw [hhead, hhead]
          · rw [getElem?_overlay_of_gt (by omega), getElem?_overlay_of_gt (by omega)]
            split
            · rfl
            · next h80 => exact htail i (by omega) hin
      · rfl

/-! ## the page over a run -/

/-- An entry shows a game: it is the screen over a page that held `old`. -/
structure Displays (g : MmGame) (old : List UInt8) (sc : Screen) : Prop where
  active : g.gameActive = sc.active
  guesses : g.numGuesses = sc.guesses
  view : g.userView = overlay old sc.log

/-- A start shows a new game over what the page held. -/
theorem displays_start (rnd : Fin NUM_PEGS → UInt32) (count : Nat) (v : Vars) (g : MmGame) :
    Displays (startBranch rnd count v g).game g.userView .fresh where
  active := startBranch_gameActive ..
  guesses := startBranch_numGuesses ..
  view := by rw [startBranch_userView, memsetZero_eq_overlay, Screen.fresh]

/-- Every other call moves the entry as it moves the screen. -/
theorem displays_section {ro : Rodata} {rnd : Fin NUM_PEGS → UInt32} {highest : Int} {call : Call}
    {v : Vars} {g : MmGame} {old : List UInt8} {sc : Screen} (h : Displays g old sc)
    (hnul : NulFree sc.log) (hstart : call.isStart ro = false) :
    Displays (call.section ro rnd highest v g).game old
      (sc.next ro ⟨call, highest, v.targetCode⟩) := by
  cases call with
  | read a => exact h
  | mmap a => exact h
  | write ubuf count =>
      simp only [Call.section, Screen.next, ← h.active]
      obtain ⟨hadm, hw⟩ | ⟨hadm, hw⟩ := mmWrite_cases highest ubuf count v g <;>
        unfold Admits at hadm
      · rw [hw, if_neg hadm]
        exact h
      · rw [hw, if_pos hadm]
        refine ⟨?_, ?_, ?_⟩
        · rw [Bool.eq_iff_iff, scoreGuess_gameActive]
          simp [hadm.1]
        · rw [scoreGuess_numGuesses, h.guesses]
        · rw [scoreGuess_userView, h.view, h.guesses, poke_overlay hnul]
  | ctlWrite c =>
      have hs : ¬ Takes ro c .start := by simpa [Call.isStart] using hstart
      simp only [Call.section, Screen.next]
      obtain ⟨htakes, -⟩ | ⟨htakes, hw⟩ | ⟨htakes, hw⟩ | ⟨hrej, hw⟩ := mmCtlWrite_cases ro rnd c v g
      · exact absurd htakes hs
      · rw [hw, if_pos htakes]
        exact ⟨quitBranch_gameActive .., by rw [quitBranch_numGuesses, h.guesses],
          by rw [quitBranch_userView, h.view]⟩
      · rw [hw, if_neg (htakes.not (by decide)), colorsBranch_game]
        exact h
      · have hq : ¬ Takes ro c .quit := fun hq =>
          hrej.elim (fun hcop => by simp [hq.1] at hcop) fun hother => hother.not (by decide) hq
        rw [hw, if_neg hq]
        exact h

/-- The entry of `u` shows the latest game of `u`. -/
def ShowsLatest (ro : Rodata) (u : Kuid) (tr : List (Sys × Label)) (s : Sys) : Prop :=
  ∀ game, latestGame ro u tr = some game →
    ∃ (p : Nat) (g : MmGame), s.drv.gamesList[p]? = some g ∧ g.playerId = u ∧
      Displays g game.old (screen ro game.calls)

/-- A relation between a game and its entry that a start establishes and every other
call keeps. -/
structure KeptByCalls (ro : Rodata) (R : LatestGame → MmGame → Prop) : Prop where
  start : ∀ rnd count v g, R ⟨g.userView, []⟩ (startBranch rnd count v g).game
  next : ∀ {game : LatestGame} {g : MmGame} rnd highest call v, R game g →
    call.isStart ro = false →
    R { game with calls := game.calls ++ [⟨call, highest, v.targetCode⟩] }
      (call.section ro rnd highest v g).game

/-- The relation holds between the latest game of `u` and the entry of `u`. -/
def HoldsOfLatest (ro : Rodata) (u : Kuid) (R : LatestGame → MmGame → Prop)
    (tr : List (Sys × Label)) (s : Sys) : Prop :=
  ∀ game, latestGame ro u tr = some game →
    ∃ (p : Nat) (g : MmGame), s.drv.gamesList[p]? = some g ∧ g.playerId = u ∧ R game g

theorem sectionRun_main {s : Sys} {t : Nat} {rnd : Fin NUM_PEGS → UInt32} {user : Kuid} {call : Call}
    {highest : Int} {p : Nat} {g : MmGame}
    (hframe : s.frames t = some (.locked user call highest (some p)))
    (hentry : s.drv.gamesList[p]? = some g) :
    sectionRun s (.main t rnd) = some (user, call, highest, g) := by
  simp [sectionRun, hframe, Driver.deref, hentry]

/-- One step keeps such a relation. -/
theorem HoldsOfLatest.step {ro : Rodata} {u : Kuid} {R : LatestGame → MmGame → Prop}
    {tr : List (Sys × Label)} {s s' : Sys} {l : Label} (h : HoldsOfLatest ro u R tr s)
    (hR : KeptByCalls ro R) (howned : Owned s) (hs : Mastermind.step ro s l = some s') :
    HoldsOfLatest ro u R (tr ++ [(s, l)]) s' := by
  intro game hgame
  rw [latestGame_concat] at hgame
  have hquiet : sectionRun s l = none →
      (∀ {p : Nat} {g : MmGame}, s.drv.gamesList[p]? = some g → s'.drv.gamesList[p]? = some g) →
      ∃ (p : Nat) (g : MmGame), s'.drv.gamesList[p]? = some g ∧ g.playerId = u ∧ R game g := by
    intro hnone hkeep
    rw [nextGame, hnone] at hgame
    obtain ⟨p, g, hg, hu, hd⟩ := h game hgame
    exact ⟨p, g, hkeep hg, hu, hd⟩
  cases step_cases hs with
  | added =>
      refine hquiet rfl fun {p g} hg => ?_
      have hlt := (List.getElem?_eq_some_iff.mp hg).1
      simpa [afterAdd, List.getElem?_append_left hlt] using hg
  | noEntry hframe hnull => exact hquiet (by simp [sectionRun, hframe, hnull]) id
  | enter | found | failed | irq | bottom | setRandomCode => exact hquiet rfl id
  | @main t rnd user call highest p g hframe hentry =>
      simp only [nextGame, sectionRun_main hframe hentry] at hgame
      obtain ⟨x, hx, huser⟩ := howned.pointer hframe
      obtain rfl := Option.some.inj (hx.symm.trans hentry)
      split at hgame
      · next hu =>
          have hnew : (afterSection ro rnd s t call highest p x).drv.gamesList[p]? =
              some (call.section ro rnd highest s.drv.vars x).game := by
            rw [getElem?_afterSection hentry, if_pos rfl]
          refine ⟨p, _, hnew, by rw [section_playerId, huser, hu], ?_⟩
          split at hgame
          · next hstart =>
              obtain rfl := Option.some.inj hgame
              obtain ⟨c, rfl, htakes⟩ := Call.isStart_iff.mp hstart
              rw [section_start htakes]
              exact hR.start ..
          · next hstart =>
              obtain ⟨game, hlatest, rfl⟩ := Option.map_eq_some_iff.mp hgame
              obtain ⟨q, y, hy, hyu, hd⟩ := h game hlatest
              obtain rfl := howned.eq_of_playerId hy hentry (by rw [hyu, huser, hu])
              obtain rfl := Option.some.inj (hy.symm.trans hentry)
              exact hR.next _ _ _ _ hd (by simpa using hstart)
      · next hu =>
          obtain ⟨q, y, hy, hyu, hd⟩ := h game hgame
          have hcaller : caller s (.main t rnd) ≠ some u := by simpa [caller, hframe] using hu
          exact ⟨q, y, entry_step howned hs hcaller hy hyu, hyu, hd⟩

/-- In every reachable state it holds of the latest game of a player. -/
theorem KeptByCalls.of_run {ro : Rodata} {R : LatestGame → MmGame → Prop} (hR : KeptByCalls ro R)
    (u : Kuid) {tr : List (Sys × Label)} {s : Sys} (h : (driver ro).Run tr s) :
    HoldsOfLatest ro u R tr s := by
  suffices hI : Owned s ∧ HoldsOfLatest ro u R tr s from hI.2
  refine Machine.Run.invariant (I := fun tr s => Owned s ∧ HoldsOfLatest ro u R tr s) ?_ ?_ h
  · rintro s ⟨randomCode, rfl⟩
    exact ⟨owned_init randomCode, nofun⟩
  · rintro tr s l t ⟨howned, hholds⟩ hs
    exact ⟨howned.step hs, hholds.step hR howned hs⟩

theorem displays_kept (ro : Rodata) :
    KeptByCalls ro fun game g => Displays g game.old (screen ro game.calls) where
  start := displays_start
  next {game _} _ _ _ _ hd hstart := by
    rw [screen_concat]
    exact displays_section hd (nulFree_log ro game.calls) hstart

/-- In every reachable state the entry of a player shows the player's latest game. -/
theorem showsLatest_of_run {ro : Rodata} (u : Kuid) {tr : List (Sys × Label)} {s : Sys}
    (h : (driver ro).Run tr s) : ShowsLatest ro u tr s :=
  (displays_kept ro).of_run u h

/-- What a mapping of a whole page shows to a player. -/
def viewOf (s : Sys) (u : Kuid) : Option (List UInt8) :=
  (s.drv.gamesList.find? fun g => g.playerId == u).map fun g => (mapView ⟨PAGE_SIZE, true⟩ g).mapped

theorem viewOf_of_run {ro : Rodata} {u : Kuid} {tr : List (Sys × Label)} {s : Sys}
    (h : (driver ro).Run tr s) {game : LatestGame} (hgame : latestGame ro u tr = some game) :
    viewOf s u = some ((overlay game.old (screen ro game.calls).log).take PAGE_SIZE) := by
  obtain ⟨p, g, hg, hu, hd⟩ := showsLatest_of_run u h game hgame
  unfold viewOf
  cases hfind : s.drv.gamesList.find? fun g => g.playerId == u with
  | none => exact absurd hu (by simpa using List.find?_eq_none.mp hfind g (List.mem_of_getElem? hg))
  | some x =>
      have hx : x.playerId = u := by simpa using List.find?_some hfind
      obtain rfl := (owned_of_run h).eq_of_mem (List.mem_of_find?_eq_some hfind) hg (hx.trans hu.symm)
      simp [mapView, hd.view]

/-- **What the mapped page reveals.**  In any two runs, the pages of a player are the
same exactly when the calls since the player's latest start have logged the same and
the bytes behind the log and behind the 80 that a start clears were the same when
the game was started; so if the calls were the same, with the same bounds and
target codes, the pages are the same exactly when these bytes were. -/
theorem views_eq_iff (ro : Rodata) (u : Kuid) {tr₁ tr₂ : List (Sys × Label)} {s₁ s₂ : Sys}
    (h₁ : (driver ro).Run tr₁ s₁) (h₂ : (driver ro).Run tr₂ s₂) {game₁ game₂ : LatestGame}
    (hgame₁ : latestGame ro u tr₁ = some game₁) (hgame₂ : latestGame ro u tr₂ = some game₂) :
    (viewOf s₁ u = viewOf s₂ u ↔
      (screen ro game₁.calls).log.take PAGE_SIZE = (screen ro game₂.calls).log.take PAGE_SIZE ∧
      ∀ i, max 80 ((screen ro game₁.calls).log.length + 1) ≤ i → i < PAGE_SIZE →
        game₁.old[i]? = game₂.old[i]?) ∧
    (game₁.calls = game₂.calls →
      (viewOf s₁ u = viewOf s₂ u ↔
        ∀ i, max 80 ((screen ro game₁.calls).log.length + 1) ≤ i → i < PAGE_SIZE →
          game₁.old[i]? = game₂.old[i]?)) := by
  have hiff : viewOf s₁ u = viewOf s₂ u ↔
      (screen ro game₁.calls).log.take PAGE_SIZE = (screen ro game₂.calls).log.take PAGE_SIZE ∧
      ∀ i, max 80 ((screen ro game₁.calls).log.length + 1) ≤ i → i < PAGE_SIZE →
        game₁.old[i]? = game₂.old[i]? := by
    rw [viewOf_of_run h₁ hgame₁, viewOf_of_run h₂ hgame₂, Option.some.injEq]
    exact take_overlay_eq_iff (nulFree_log ro game₁.calls) (nulFree_log ro game₂.calls) _
  refine ⟨hiff, fun hcalls => ?_⟩
  rw [hiff, hcalls]
  simp

/-- User 1000 starts a game on a page for which `vmalloc` found the byte `b`
everywhere. -/
def startOver (b : UInt8) : List Label :=
  [.enter 0 1000 (ctlText "start" false), .find 0 ⟨true, some (Vector.replicate PAGE_SIZE b)⟩,
    .main 0 0]

/-- Its trace. -/
def startTrace (b : UInt8) : List (Sys × Label) :=
  (driver .zeros).trace (initSys false) (startOver b)

/-- The start is the whole game so far, and byte 80 of the page is the one that
`vmalloc` found. -/
theorem exists_startOver {b : UInt8}
    (hgame : (latestGame .zeros 1000 (startTrace b)).any (·.calls.isEmpty) = true)
    (hview : (((driver .zeros).exec (initSys false) (startOver b)).any fun s =>
      (viewOf s 1000).map (·.getD 80 0) == some b) = true) :
    ∃ s game, (driver .zeros).Run (startTrace b) s ∧
      latestGame .zeros 1000 (startTrace b) = some game ∧ game.calls = [] ∧
      (viewOf s 1000).map (·.getD 80 0) = some b := by
  obtain ⟨s, hrun, hs⟩ := Machine.exists_run_of_exec (M := driver .zeros) ⟨false, rfl⟩
    (startOver b) hview
  obtain ⟨game, hlatest, hcalls⟩ := (Option.any_eq_true _ _).mp hgame
  exact ⟨s, game, hrun, hlatest, by simpa using hcalls, beq_iff_eq.mp hs⟩

/-- After the same single start, the pages differ where the kernel's memory did. -/
theorem page_shows_old_bytes :
    ∃ s₁ s₂ game₁ game₂, (driver .zeros).Run (startTrace 0) s₁ ∧
      (driver .zeros).Run (startTrace 1) s₂ ∧
      latestGame .zeros 1000 (startTrace 0) = some game₁ ∧
      latestGame .zeros 1000 (startTrace 1) = some game₂ ∧
      game₁.calls = game₂.calls ∧ viewOf s₁ 1000 ≠ viewOf s₂ 1000 := by
  obtain ⟨s₁, game₁, hrun₁, hlatest₁, hcalls₁, hview₁⟩ :=
    exists_startOver (b := 0) (by decide +kernel) (by decide +kernel)
  obtain ⟨s₂, game₂, hrun₂, hlatest₂, hcalls₂, hview₂⟩ :=
    exists_startOver (b := 1) (by decide +kernel) (by decide +kernel)
  refine ⟨s₁, s₂, game₁, game₂, hrun₁, hrun₂, hlatest₁, hlatest₂, by rw [hcalls₁, hcalls₂], ?_⟩
  intro h
  rw [h, hview₂] at hview₁
  exact absurd hview₁ (by decide)

/-- User 1000 starts a game, guesses wrong and starts again. -/
def startAgain : List Label :=
  startOver 0 ++ callSteps 0 1000 (guessText "1111") 0 ++ callSteps 0 1000 (ctlText "start" false) 0

/-- Its trace. -/
def againTrace : List (Sys × Label) := (driver .zeros).trace (initSys false) startAgain

/-- The second start clears the line of the guess, and the page is that of a first start. -/
theorem views_eq_iff_startAgain :
    ∃ s₁ s₂ game₁ game₂, (driver .zeros).Run (startTrace 0) s₁ ∧
      (driver .zeros).Run againTrace s₂ ∧
      latestGame .zeros 1000 (startTrace 0) = some game₁ ∧
      latestGame .zeros 1000 againTrace = some game₂ ∧
      game₁.calls = game₂.calls ∧ game₁.old ≠ game₂.old ∧ viewOf s₁ 1000 = viewOf s₂ 1000 := by
  obtain ⟨s₁, hrun₁⟩ := Machine.exists_run (M := driver .zeros) ⟨false, rfl⟩
    (startOver 0) (by decide +kernel)
  obtain ⟨s₂, hrun₂⟩ := Machine.exists_run (M := driver .zeros) ⟨false, rfl⟩
    startAgain (by decide +kernel)
  have hfirst : (latestGame .zeros 1000 (startTrace 0)).any (fun game => game.calls.isEmpty &&
      game.old.head? == some 0 && game.old.drop 80 == List.replicate (PAGE_SIZE - 80) 0) = true := by
    decide +kernel
  have hagain : (latestGame .zeros 1000 againTrace).any (fun game => game.calls.isEmpty &&
      game.old.head? == some 71 && game.old.drop 80 == List.replicate (PAGE_SIZE - 80) 0) = true := by
    decide +kernel
  obtain ⟨game₁, hlatest₁, hgame₁⟩ := (Option.any_eq_true _ _).mp hfirst
  obtain ⟨game₂, hlatest₂, hgame₂⟩ := (Option.any_eq_true _ _).mp hagain
  simp only [Bool.and_eq_true, List.isEmpty_iff, beq_iff_eq] at hgame₁ hgame₂
  obtain ⟨⟨hcalls₁, hhead₁⟩, hrest₁⟩ := hgame₁
  obtain ⟨⟨hcalls₂, hhead₂⟩, hrest₂⟩ := hgame₂
  have hcalls : game₁.calls = game₂.calls := by rw [hcalls₁, hcalls₂]
  refine ⟨s₁, s₂, game₁, game₂, hrun₁, hrun₂, hlatest₁, hlatest₂, hcalls, fun hold => ?_,
    ((views_eq_iff .zeros 1000 hrun₁ hrun₂ hlatest₁ hlatest₂).2 hcalls).mpr fun i hi _ => ?_⟩
  · rw [hold, hhead₂] at hhead₁
    exact absurd hhead₁ (by decide)
  · obtain ⟨k, rfl⟩ := Nat.exists_eq_add_of_le (le_trans (le_max_left _ _) hi)
    rw [← List.getElem?_drop, ← List.getElem?_drop, hrest₁, hrest₂]

end Cmsc421.Mastermind
