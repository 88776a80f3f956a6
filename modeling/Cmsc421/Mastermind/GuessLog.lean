import Cmsc421.Mastermind.Codes

/-!
# Cmsc421.Mastermind.GuessLog

The log of a game and the page it is written to.

`mm_write` appends a line to `user_view` for every guess it accepts and checks
neither the number of lines nor the room that is left.  `scnprintf` cuts every
line of a wrong guess to the same 23 bytes (`strlen_line`), so the log of an
active game has `23 * num_guesses` of them, and `log_fits_iff` gives the guess
with which it leaves the page.
-/

namespace Cmsc421.Mastermind

/-! ## the lines -/

/-- The line of a wrong guess: 16 bytes of text, and seven numbers. -/
theorem length_guessLine_eq (numGuesses : UInt32) (guess : Code) (pegs : Pegs) :
    (guessLine numGuesses guess pegs).length =
      16 + (decimal (int32 numGuesses.toNat)).length + (decimal (guess 0)).length +
        (decimal (guess 1)).length + (decimal (guess 2)).length + (decimal (guess 3)).length +
        (decimal pegs.numBlack).length + (decimal pegs.numWhite).length := by
  have hguess : (ascii "Guess ").length = 6 := rfl
  have hcolon : (ascii ": ").length = 2 := rfl
  have hbar : (ascii "  | B").length = 5 := rfl
  have hwhite : (ascii " W").length = 2 := rfl
  have hnl : (ascii "\n").length = 1 := rfl
  simp only [guessLine, List.length_append]
  omega

/-- So it has at least 23 bytes, … -/
theorem length_guessLine (numGuesses : UInt32) (guess : Code) (pegs : Pegs) :
    23 ≤ (guessLine numGuesses guess pegs).length := by
  have hn := length_decimal_pos (int32 numGuesses.toNat)
  have h₀ := length_decimal_pos (guess 0)
  have h₁ := length_decimal_pos (guess 1)
  have h₂ := length_decimal_pos (guess 2)
  have h₃ := length_decimal_pos (guess 3)
  have hb := length_decimal_pos pegs.numBlack
  have hw := length_decimal_pos pegs.numWhite
  rw [length_guessLine_eq]
  omega

theorem nulFree_guessLine (numGuesses : UInt32) (guess : Code) (pegs : Pegs) :
    NulFree (guessLine numGuesses guess pegs) := by
  have hguess : NulFree (ascii "Guess ") := by decide +kernel
  have hcolon : NulFree (ascii ": ") := by decide +kernel
  have hbar : NulFree (ascii "  | B") := by decide +kernel
  have hwhite : NulFree (ascii " W") := by decide +kernel
  have hnl : NulFree (ascii "\n") := by decide +kernel
  simp only [guessLine, nulFree_append, nulFree_decimal, hguess, hcolon, hbar, hwhite, hnl, and_self]

/-- … of which `scnprintf` leaves 23. -/
theorem strlen_line (numGuesses : UInt32) (guess : Code) (pegs : Pegs) :
    strlen (scnprintf guessLog 24 (guessLine numGuesses guess pegs)) = 23 := by
  rw [strlen, cstr_scnprintf (nulFree_guessLine _ _ _) _ (by decide), List.length_take]
  have := length_guessLine numGuesses guess pegs
  omega

/-- The line of the right guess has 25. -/
theorem strlen_correct : strlen (scnprintf guessLog 26 (ascii "Correct Guess! Game over\n")) = 25 := by
  decide

/-- What an accepted guess appends. -/
theorem strlen_scoreGuess (count : Nat) (guess : Code) (v : Vars) (g : MmGame) :
    strlen (scoreGuess count guess v g).game.userView =
      strlen g.userView + if guess = v.targetCode then 25 else 23 := by
  simp only [scoreGuess, numBlack_eq_iff]
  split
  · rw [strlen_strcat, strlen_correct]
  · rw [strlen_strcat, strlen_line]

theorem length_scoreGuess (count : Nat) (guess : Code) (v : Vars) (g : MmGame) :
    (scoreGuess count guess v g).game.userView.length =
      max g.userView.length (strlen (scoreGuess count guess v g).game.userView + 1) := by
  simp only [scoreGuess]
  split <;> rw [length_strcat, strlen_strcat]

/-! ## the log of one entry -/

/-- The string in `user_view` and its NUL fit in the page, and no byte has been
written behind it. -/
def Fits (g : MmGame) : Prop := strlen g.userView < PAGE_SIZE ∧ g.userView.length = PAGE_SIZE

/-- The log of an active game holds a line of 23 bytes for each guess. -/
def Logged (g : MmGame) : Prop :=
  g.gameActive = true → strlen g.userView = 23 * g.numGuesses.toNat

/-- There is room for the line of a guess: it is at most the 177th of its game if
it is right, and at most the 178th if it is wrong. -/
def RoomFor (g : MmGame) (guess target : Code) : Prop :=
  if guess = target then g.numGuesses.toNat ≤ 176 else g.numGuesses.toNat ≤ 177

theorem fits_newGame (user : Kuid) (page : Vector UInt8 PAGE_SIZE) :
    Fits (newGame user page.toList) ∧ Logged (newGame user page.toList) := by
  have hlen : (newGame user page.toList).userView.length = PAGE_SIZE := by
    simp only [newGame]
    rw [length_memsetZero (by rw [Vector.length_toList]; decide), Vector.length_toList]
  have hstr : strlen (newGame user page.toList).userView = 0 := by simp [newGame, strlen]
  exact ⟨⟨by rw [hstr]; decide, hlen⟩, by simp [Logged, newGame]⟩

/-- A guess that is scored stays in the page exactly if there is room for it. -/
theorem fits_scoreGuess {count : Nat} {guess : Code} {v : Vars} {g : MmGame} (hfits : Fits g)
    (hlog : Logged g) (hact : g.gameActive = true) :
    Fits (scoreGuess count guess v g).game ↔ RoomFor g guess v.targetCode := by
  have hstr := hlog hact
  unfold Fits RoomFor
  rw [length_scoreGuess, strlen_scoreGuess, hfits.2, hstr, PAGE_SIZE]
  split <;> omega

/-- Then the log of the game, if it goes on, is one line longer. -/
theorem logged_scoreGuess {count : Nat} {guess : Code} {v : Vars} {g : MmGame} (hfits : Fits g)
    (hlog : Logged g) (hact : g.gameActive = true) : Logged (scoreGuess count guess v g).game := by
  intro hact'
  have hne := ((scoreGuess_gameActive ..).mp hact').2
  have hstr := hlog hact
  have hlt := hfits.1
  have hsucc : (g.numGuesses + 1).toNat = g.numGuesses.toNat + 1 := by
    rw [UInt32.toNat_add]
    simp only [PAGE_SIZE] at hlt
    exact Nat.mod_eq_of_lt (by simp; omega)
  rw [strlen_scoreGuess, if_neg hne, scoreGuess_numGuesses, hsucc, hstr]
  omega

/-- A locked section scores a guess, clears the log, or keeps it. -/
theorem section_log (ro : Rodata) (rnd : Fin NUM_PEGS → UInt32) (user : Kuid) (highest : Int)
    (call : Call) (v : Vars) (g : MmGame) :
    (∃ count guess, g.gameActive = true ∧
      call.event ro user highest v g = some (.guess user guess v.targetCode) ∧
      (call.section ro rnd highest v g).game = (scoreGuess count guess v g).game) ∨
    ((∀ u guess target, call.event ro user highest v g ≠ some (.guess u guess target)) ∧
      (Fits g → Fits (call.section ro rnd highest v g).game) ∧
      (Logged g → Logged (call.section ro rnd highest v g).game)) := by
  cases call with
  | read a => exact .inr ⟨by simp [Call.event], id, id⟩
  | mmap a => exact .inr ⟨by simp [Call.event], id, id⟩
  | write ubuf count =>
      simp only [Call.section]
      obtain ⟨hadm, hw⟩ | ⟨hadm, hw⟩ := mmWrite_cases highest ubuf count v g
      · rw [hw]
        exact .inr ⟨fun u guess target h => hadm (Call.event_write.mp h).1, id, id⟩
      · rw [hw]
        exact .inl ⟨count, guessDigits ubuf, hadm.1, Call.event_write.mpr ⟨hadm, rfl⟩, rfl⟩
  | ctlWrite c =>
      have hno : ∀ u guess target,
          (Call.ctlWrite c).event ro user highest v g ≠ some (.guess u guess target) := by
        intro u guess target
        simp only [Call.event]
        split
        · simp
        · split <;> simp
      refine .inr ⟨hno, ?_⟩
      simp only [Call.section]
      obtain ⟨-, hw⟩ | ⟨-, hw⟩ | ⟨-, hw⟩ | ⟨-, hw⟩ := mmCtlWrite_cases ro rnd c v g
      · rw [hw]
        have hstr : strlen (memsetZero g.userView 80) = 0 := by simp [strlen]
        refine ⟨fun h => ⟨?_, ?_⟩, fun _ _ => ?_⟩
        · rw [startBranch_userView, hstr]
          decide
        · rw [startBranch_userView, length_memsetZero (by rw [h.2]; decide), h.2]
        · rw [startBranch_userView, hstr, startBranch_numGuesses]
          rfl
      · rw [hw]
        simp [Fits, Logged]
      · rw [hw]
        simp
      · rw [hw]
        exact ⟨id, id⟩

/-! ## the logs of all entries -/

/-- Every log fits in its page. -/
def LogsFit (s : Sys) : Prop := ∀ g ∈ s.drv.gamesList, Fits g

/-- Every active game has its lines. -/
structure LogsKept (s : Sys) : Prop where
  owned : Owned s
  logged : ∀ g ∈ s.drv.gamesList, Logged g

/-- If the step accepts a guess, there is room for its line. -/
def HasRoom (ro : Rodata) (s : Sys) (l : Label) : Prop :=
  ∀ user guess target, observe ro s l = some (.guess user guess target) →
    ∀ g ∈ s.drv.gamesList, g.playerId = user → RoomFor g guess target

theorem HasRoom.of_none {ro : Rodata} {s : Sys} {l : Label} (h : observe ro s l = none) :
    HasRoom ro s l := by
  intro user guess target hobs
  simp [h] at hobs

/-- An accepted guess is about the one entry of its caller. -/
theorem hasRoom_of_guess {ro : Rodata} {s : Sys} {l : Label} {user : Kuid} {guess target : Code}
    {p : Nat} {g : MmGame} (howned : Owned s) (hentry : s.drv.gamesList[p]? = some g)
    (huser : g.playerId = user) (hevent : observe ro s l = some (.guess user guess target)) :
    HasRoom ro s l ↔ RoomFor g guess target := by
  constructor
  · exact fun h => h user guess target hevent g (List.mem_of_getElem? hentry) huser
  · intro hroom u guess' target' hobs x hx hxu
    obtain ⟨rfl, rfl, rfl⟩ : user = u ∧ guess = guess' ∧ target = target' := by
      simpa [hevent] using hobs
    obtain rfl := howned.eq_of_mem hx hentry (hxu.trans huser.symm)
    exact hroom

/-- What holds of all entries after a locked section. -/
theorem forall_afterSection {ro : Rodata} {rnd : Fin NUM_PEGS → UInt32} {s : Sys} {t : Nat}
    {call : Call} {highest : Int} {p : Nat} {g : MmGame} {I : MmGame → Prop}
    (hentry : s.drv.gamesList[p]? = some g) (h : ∀ g ∈ s.drv.gamesList, I g) :
    (∀ g' ∈ (afterSection ro rnd s t call highest p g).drv.gamesList, I g') ↔
      I (call.section ro rnd highest s.drv.vars g).game := by
  simp only [List.mem_iff_getElem?, getElem?_afterSection hentry]
  constructor
  · exact fun hall => hall _ ⟨p, if_pos rfl⟩
  · rintro hg g' ⟨i, hi⟩
    split at hi
    · obtain rfl := Option.some.inj hi
      exact hg
    · exact h g' (List.mem_iff_getElem?.mpr ⟨i, hi⟩)

/-- **Exactness, one step**, and the lines are kept. -/
theorem logs_step {ro : Rodata} {s s' : Sys} {l : Label} (hkept : LogsKept s) (hfit : LogsFit s)
    (hs : Mastermind.step ro s l = some s') :
    (LogsFit s' ↔ HasRoom ro s l) ∧ LogsKept s' := by
  have howned := hkept.owned.step hs
  have hquiet : s'.drv.gamesList = s.drv.gamesList → observe ro s l = none →
      (LogsFit s' ↔ HasRoom ro s l) ∧ LogsKept s' := by
    intro hlist hobs
    refine ⟨⟨fun _ => .of_none hobs, fun _ => ?_⟩, howned, ?_⟩
    · rw [LogsFit, hlist]
      exact hfit
    · rw [hlist]
      exact hkept.logged
  cases step_cases hs with
  | enter => exact hquiet rfl rfl
  | found => exact hquiet rfl rfl
  | @added t a user call highest page =>
      have hnew := fits_newGame user page
      refine ⟨⟨fun _ => .of_none rfl, fun _ g hg => ?_⟩, howned, fun g hg => ?_⟩
      · rcases List.mem_append.mp hg with hg | hg
        · exact hfit g hg
        · rw [List.mem_singleton.mp hg]
          exact hnew.1
      · rcases List.mem_append.mp hg with hg | hg
        · exact hkept.logged g hg
        · rw [List.mem_singleton.mp hg]
          exact hnew.2
  | failed => exact hquiet rfl rfl
  | noEntry hframe hnull => exact hquiet rfl (by simp [observe, hframe, hnull])
  | @main t rnd user call highest p g hframe hentry =>
      have hevent := observe_main ro rnd hframe hentry
      have hmem := List.mem_of_getElem? hentry
      obtain ⟨g', hg', huser⟩ := hkept.owned.pointer hframe
      obtain rfl := Option.some.inj (hg'.symm.trans hentry)
      rw [LogsFit, forall_afterSection hentry hfit]
      obtain ⟨count, guess, hact, hguess, hgame⟩ | ⟨hno, hfits, hlogged⟩ :=
        section_log ro rnd user highest call s.drv.vars g'
      · have hg := hfit g' hmem
        have hlog := hkept.logged g' hmem
        refine ⟨?_, howned, (forall_afterSection hentry hkept.logged).mpr ?_⟩
        · rw [hgame, fits_scoreGuess hg hlog hact]
          exact (hasRoom_of_guess hkept.owned hentry huser (hevent.trans hguess)).symm
        · rw [hgame]
          exact logged_scoreGuess hg hlog hact
      · refine ⟨⟨fun _ u guess target hobs => ?_, fun _ => hfits (hfit g' hmem)⟩, howned,
          (forall_afterSection hentry hkept.logged).mpr (hlogged (hkept.logged g' hmem))⟩
        exact absurd (hevent.symm.trans hobs) (hno u guess target)
  | irq => exact hquiet rfl rfl
  | bottom => exact hquiet rfl rfl
  | setRandomCode => exact hquiet rfl rfl

/-- **When the guess log stays in its page.**  In every run, every log with its NUL
fits in its page in every state exactly when every accepted guess is at most the
178th of its game, and at most the 177th if it is right. -/
theorem log_fits_iff (ro : Rodata) {tr : List (Sys × Label)} {s : Sys} (h : (driver ro).Run tr s) :
    ((∀ p ∈ tr, LogsFit p.1) ∧ LogsFit s) ↔ ∀ p ∈ tr, HasRoom ro p.1 p.2 := by
  refine Machine.Run.stays_iff_meets (H := fun _ _ => True) (P := HasRoom ro) (Q := LogsFit)
    (I := fun _ s => LogsKept s) ?_ ?_ ?_ h fun _ _ => trivial
  · rintro s ⟨randomCode, rfl⟩
    exact ⟨⟨owned_init randomCode, by simp [initSys]⟩, by simp [LogsFit, initSys]⟩
  · intro _ s l t hkept hfit _ hs
    exact (logs_step hkept hfit hs).1
  · intro _ s l t hkept hfit _ _ hs
    exact (logs_step hkept hfit hs).2

/-- A game of at most 176 guesses has room for one more. -/
theorem hasRoom_of_le {ro : Rodata} {s : Sys} {l : Label}
    (h : ∀ g ∈ s.drv.gamesList, g.numGuesses.toNat ≤ 176) : HasRoom ro s l := by
  intro user guess target _ g hg _
  have hle := h g hg
  unfold RoomFor
  split <;> omega

/-- The log of a game with a wrong and a right guess stays in its page. -/
theorem log_fits_iff_oneGame :
    ∃ s, (driver .zeros).Run ((driver .zeros).trace (initSys false) oneGame) s ∧
      (s.drv.gamesList.map fun g => strlen g.userView) = [48] ∧
      (∀ p ∈ (driver .zeros).trace (initSys false) oneGame, LogsFit p.1) ∧ LogsFit s := by
  obtain ⟨s, hrun, hs⟩ := Machine.exists_run_of_exec (M := driver .zeros) ⟨false, rfl⟩ oneGame
    (b := fun s => (s.drv.gamesList.map fun g => strlen g.userView) == [48]) (by decide +kernel)
  have hfew : ∀ p ∈ (driver .zeros).trace (initSys false) oneGame, ∀ g ∈ p.1.drv.gamesList,
      g.numGuesses.toNat ≤ 176 := by decide +kernel
  exact ⟨s, hrun, beq_iff_eq.mp hs,
    (log_fits_iff .zeros hrun).mpr fun p hp => hasRoom_of_le (hfew p hp)⟩

/-! ## a log that does not fit -/

/-- Player 1000 has guessed `n` times in a game with the fixed code, and nothing is
going on. -/
structure Guessed (n : Nat) (s : Sys) : Prop where
  unlocked : s.lockHeld = false
  idle : s.frames 0 = none
  colors : s.drv.vars.numColors = 6
  code : s.drv.vars.targetCode = fixedCode
  game : ∃ g, s.drv.gamesList = [g] ∧ g.playerId = 1000 ∧ g.gameActive = true ∧
    strlen g.userView = 23 * n

/-- The wrong guess that is made. -/
def wrongGuess : List Label := callSteps 0 1000 (guessText "1111") 0

/-- One more wrong guess. -/
theorem Guessed.next {n : Nat} {s : Sys} (h : Guessed n s) :
    ∃ s', (driver .zeros).exec s wrongGuess = some s' ∧ Guessed (n + 1) s' := by
  obtain ⟨hlock, hidle, hcolors, hcode, g, hlist, hid, hact, hstr⟩ := h
  have hhigh : highestDigit s.drv.vars = 53 := by simp [highestDigit, hcolors, zeroAscii]
  have hfind : findGame 1000 clearPage s.drv = (s.drv, some 0) := by
    simp [findGame, hlist, hid, List.findIdx?_cons]
  have hadm : Admits 53 (ascii "1111") 4 g := ⟨hact, le_rfl, by decide⟩
  have hw : mmWrite 53 (ascii "1111") 4 s.drv.vars g =
      scoreGuess 4 (guessDigits (ascii "1111")) s.drv.vars g := by
    obtain ⟨hno, -⟩ | ⟨-, hw⟩ := mmWrite_cases 53 (ascii "1111") 4 s.drv.vars g
    · exact absurd hadm hno
    · exact hw
  have hne : guessDigits (ascii "1111") ≠ s.drv.vars.targetCode := by
    rw [hcode]
    decide
  have hwith : s.drv.withGame .EINVAL (some 0) (mmWrite 53 (ascii "1111") 4) =
      ({ vars := s.drv.vars
         gamesList := [(scoreGuess 4 (guessDigits (ascii "1111")) s.drv.vars g).game] },
        .ret (.ok 4)) := by
    simp [Driver.withGame, hlist, hw]
  refine ⟨{ drv := (s.drv.withGame .EINVAL (some 0) (mmWrite 53 (ascii "1111") 4)).1
            lockHeld := (s.drv.withGame .EINVAL (some 0) (mmWrite 53 (ascii "1111") 4)).2 == .trap
            frames := Function.update s.frames 0 none }, ?_, ?_⟩
  · simp [Machine.exec, wrongGuess, callSteps, driver, step, hidle, hlock, hhigh, hfind, guessText,
      Call.section, Call.noEntry, show (ascii "1111").length = 4 from rfl]
  · rw [hwith]
    refine ⟨rfl, by simp, hcolors, hcode, _, rfl, by simp [hid], ?_, ?_⟩
    · exact (scoreGuess_gameActive ..).mpr ⟨hact, hne⟩
    · rw [strlen_scoreGuess, if_neg hne, hstr]
      omega

/-- Any number of wrong guesses can be made in one game. -/
theorem exists_guessed (n : Nat) : ∃ tr s, (driver .zeros).Run tr s ∧ Guessed n s := by
  induction n with
  | zero =>
      obtain ⟨s, hrun, hs⟩ := Machine.exists_run_of_exec (M := driver .zeros) ⟨false, rfl⟩
        (callSteps 0 1000 (ctlText "start" false) 0)
        (b := fun s => !s.lockHeld && (s.frames 0).isNone && s.drv.vars.numColors == 6 &&
          s.drv.vars.targetCode == fixedCode && s.drv.gamesList.length == 1 &&
          s.drv.gamesList.all fun g => g.playerId == 1000 && g.gameActive && strlen g.userView == 0)
        (by decide +kernel)
      simp only [Bool.and_eq_true, Bool.not_eq_true', Option.isNone_iff_eq_none, beq_iff_eq,
        List.length_eq_one_iff, List.all_eq_true] at hs
      obtain ⟨⟨⟨⟨⟨hlock, hidle⟩, hcolors⟩, hcode⟩, g, hlist⟩, hall⟩ := hs
      obtain ⟨⟨hid, hact⟩, hstr⟩ := hall g (by simp [hlist])
      exact ⟨_, s, hrun, hlock, hidle, hcolors, hcode, g, hlist, hid, hact, hstr⟩
  | succ n ih =>
      obtain ⟨tr, s, hrun, hs⟩ := ih
      obtain ⟨s', hexec, hs'⟩ := hs.next
      exact ⟨_, s', hrun.replay hexec, hs'⟩

/-- The 179th wrong guess of a game runs over the page. -/
theorem log_overflows :
    ∃ tr s, (driver .zeros).Run tr s ∧ ∃ g ∈ s.drv.gamesList, PAGE_SIZE < strlen g.userView + 1 := by
  obtain ⟨tr, s, hrun, hs⟩ := exists_guessed 179
  obtain ⟨g, hlist, -, -, hstr⟩ := hs.game
  exact ⟨tr, s, hrun, g, by simp [hlist], by rw [hstr]; decide⟩

end Cmsc421.Mastermind
