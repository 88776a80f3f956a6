import Cmsc421.Mastermind.Mapped
import Cmsc421.Mastermind.Scoring

/-!
# Cmsc421.Mastermind.ReadBack

What a player can read back of the guesses of a game.

`mm_write` passes `scnprintf` the length that the line of a wrong guess has if
every number in it is one digit wide.  The counts of the pegs always are; the number
of the guess is up to the ninth, and the digits are as long as there are at most
ten colors.  Where a number is wider the line loses its end, with the newline, and
runs into the next one.  `readsBack_iff` says that nothing else goes wrong.
-/

namespace Cmsc421.Mastermind

/-! ## the accepted guesses -/

/-- The guess of a call, with the code it is scored against, if it is accepted. -/
def Screen.accepts (sc : Screen) (k : GameCall) : Option (Code × Code) :=
  match k.call with
  | .write ubuf count =>
      if sc.active = true ∧ NUM_PEGS ≤ count ∧ ∀ i, digitOk k.highest (userGuess ubuf i) = true then
        some (guessDigits ubuf, k.target)
      else none
  | .ctlWrite _ | .read _ | .mmap _ => none

/-- The accepted guesses among the calls from a screen on. -/
def guessesFrom (ro : Rodata) (sc : Screen) : List GameCall → List (Code × Code)
  | [] => []
  | k :: calls => (sc.accepts k).toList ++ guessesFrom ro (sc.next ro k) calls

/-- The accepted guesses of a game. -/
def acceptedGuesses (ro : Rodata) (calls : List GameCall) : List (Code × Code) :=
  guessesFrom ro .fresh calls

theorem guessesFrom_concat (ro : Rodata) (sc : Screen) (calls : List GameCall) (k : GameCall) :
    guessesFrom ro sc (calls ++ [k]) =
      guessesFrom ro sc calls ++ ((calls.foldl (Screen.next ro) sc).accepts k).toList := by
  induction calls generalizing sc with
  | nil => simp [guessesFrom]
  | cons k' calls ih => simp [guessesFrom, ih]

@[simp] theorem acceptedGuesses_concat (ro : Rodata) (calls : List GameCall) (k : GameCall) :
    acceptedGuesses ro (calls ++ [k]) =
      acceptedGuesses ro calls ++ ((screen ro calls).accepts k).toList :=
  guessesFrom_concat ..

theorem Screen.accepts_eq_some {sc : Screen} {k : GameCall} {x : Code × Code} :
    sc.accepts k = some x ↔ ∃ ubuf count, k.call = .write ubuf count ∧
      (sc.active = true ∧ NUM_PEGS ≤ count ∧ ∀ i, digitOk k.highest (userGuess ubuf i) = true) ∧
      (guessDigits ubuf, k.target) = x := by
  unfold Screen.accepts
  cases k.call <;> simp

/-- An accepted guess adds a line, … -/
theorem Screen.next_accepted (ro : Rodata) {sc : Screen} {k : GameCall} {x : Code × Code}
    (h : sc.accepts k = some x) :
    (sc.next ro k).guesses = sc.guesses + 1 ∧
      (sc.next ro k).log = sc.log ++ logLine (sc.guesses + 1) x.1 x.2 := by
  obtain ⟨ubuf, count, hcall, hadm, rfl⟩ := Screen.accepts_eq_some.mp h
  simp only [Screen.next, hcall, if_pos hadm, and_self]

/-- … and every other call leaves the lines alone. -/
theorem Screen.next_quiet (ro : Rodata) {sc : Screen} {k : GameCall} (h : sc.accepts k = none) :
    (sc.next ro k).guesses = sc.guesses ∧ (sc.next ro k).log = sc.log := by
  unfold Screen.next
  split
  · next ubuf count hcall =>
      rw [if_neg fun hadm => by simp [Screen.accepts, hcall, hadm] at h]
      exact ⟨rfl, rfl⟩
  · split <;> exact ⟨rfl, rfl⟩
  · exact ⟨rfl, rfl⟩
  · exact ⟨rfl, rfl⟩

/-- The digits of an accepted guess are not negative. -/
theorem acceptedGuesses_nonneg {ro : Rodata} {calls : List GameCall} {x : Code × Code}
    (h : x ∈ acceptedGuesses ro calls) (i : Fin NUM_PEGS) : 0 ≤ x.1 i := by
  induction calls using List.reverseRecOn with
  | nil => simp [acceptedGuesses, guessesFrom] at h
  | append_singleton calls k ih =>
      rw [acceptedGuesses_concat, List.mem_append, Option.mem_toList] at h
      rcases h with h | h
      · exact ih h
      · obtain ⟨ubuf, count, -, hadm, rfl⟩ := Screen.accepts_eq_some.mp h
        have := (digitOk_iff.mp (hadm.2.2 i)).1
        simp only [guessDigits]
        omega

/-! ## what should be read -/

/-- The full rendering of the `i`-th guess. -/
def fullLine (i : Nat) (guess target : Code) : List UInt8 :=
  if guess = target then ascii "Correct Guess! Game over\n"
  else guessLine (.ofNat i) guess (scorePegs target guess)

/-- All lines, one behind the other. -/
def fullLog (guesses : List (Code × Code)) : List UInt8 :=
  (guesses.zipIdx 1).flatMap fun p => fullLine p.2 p.1.1 p.1.2

/-- The full rendering of the last result. -/
def lastResult (guesses : List (Code × Code)) : List UInt8 :=
  match guesses.getLast? with
  | none => ascii "Starting game\n"
  | some (guess, target) =>
      if guess = target then ascii "Correct! Game over\n"
      else guessStatus (.ofNat guesses.length) (scorePegs target guess)

/-- The page and the status of an entry show these guesses in full. -/
structure ReadsBack (g : MmGame) (guesses : List (Code × Code)) : Prop where
  view : cstr g.userView = fullLog guesses
  status : cstr g.gameStatus = lastResult guesses

/-- Every number in the line of the `i`-th guess is one digit wide. -/
def Narrow (i : Nat) (guess target : Code) : Prop := guess = target ∨ i ≤ 9 ∧ ∀ j, guess j ≤ 9

instance (i : Nat) (guess target : Code) : Decidable (Narrow i guess target) :=
  inferInstanceAs (Decidable (_ ∨ _))

/-! ## how long the texts are -/

/-- No more pegs than places are counted. -/
theorem scorePegs_le (target guess : Code) :
    (scorePegs target guess).numBlack + (scorePegs target guess).numWhite ≤ NUM_PEGS := by
  have hle := score_le_common target guess
  have hcard := common_le_card target guess
  rw [Fintype.card_fin] at hcard
  omega

/-- So each count is one digit wide. -/
theorem length_decimal_pegs (target guess : Code) :
    (decimal (scorePegs target guess).numBlack).length = 1 ∧
      (decimal (scorePegs target guess).numWhite).length = 1 := by
  have hle : _ ≤ 4 := scorePegs_le target guess
  have hone : ∀ n : Nat, n ≤ 4 → (decimal n).length = 1 := fun n hn =>
    le_antisymm ((length_decimal_le_one (Int.natCast_nonneg n)).mpr (by omega))
      (length_decimal_pos _)
  exact ⟨hone _ (by omega), hone _ (by omega)⟩

/-- `%d` shows the number of a guess. -/
theorem int32_ofNat {i : Nat} (h : i < 2 ^ 31) : int32 (UInt32.ofNat i).toNat = i := by
  rw [UInt32.toNat_ofNat_of_lt' (h.trans (by decide)), int32_natCast h]

theorem length_guessLine_le {i : Nat} {guess : Code} (target : Code) (hi : i < 2 ^ 31)
    (hnonneg : ∀ j, 0 ≤ guess j) :
    (guessLine (.ofNat i) guess (scorePegs target guess)).length ≤ 23 ↔
      i ≤ 9 ∧ ∀ j, guess j ≤ 9 := by
  obtain ⟨hblack, hwhite⟩ := length_decimal_pegs target guess
  have hn := length_decimal_le_one (Int.natCast_nonneg i)
  have hd : ∀ j, (decimal (guess j)).length ≤ 1 ↔ guess j ≤ 9 := fun j =>
    length_decimal_le_one (hnonneg j)
  have hall : (∀ j, guess j ≤ 9) ↔ guess 0 ≤ 9 ∧ guess 1 ≤ 9 ∧ guess 2 ≤ 9 ∧ guess 3 ≤ 9 := by
    simp [Fin.forall_fin_succ]
  have hpos := length_decimal_pos i
  have hpos₀ := length_decimal_pos (guess 0)
  have hpos₁ := length_decimal_pos (guess 1)
  have hpos₂ := length_decimal_pos (guess 2)
  have hpos₃ := length_decimal_pos (guess 3)
  rw [hall, ← hd 0, ← hd 1, ← hd 2, ← hd 3, length_guessLine_eq, int32_ofNat hi]
  omega

theorem length_guessStatus_le {i : Nat} (target guess : Code) (hi : i < 2 ^ 31) :
    (guessStatus (.ofNat i) (scorePegs target guess)).length ≤ 40 ↔ i ≤ 9 := by
  obtain ⟨hblack, hwhite⟩ := length_decimal_pegs target guess
  have hn := length_decimal_le_one (Int.natCast_nonneg i)
  have hguess : (ascii "Guess ").length = 6 := rfl
  have hcolon : (ascii ": ").length = 2 := rfl
  have hb : (ascii " black peg(s), ").length = 15 := rfl
  have hw : (ascii " white peg(s)\n").length = 14 := rfl
  simp only [guessStatus, List.length_append, int32_ofNat hi]
  omega

/-- The line of a guess is written in full iff its numbers are narrow. -/
theorem logLine_eq_fullLine {i : Nat} {guess : Code} (target : Code) (hi : i < 2 ^ 31)
    (hnonneg : ∀ j, 0 ≤ guess j) :
    logLine (.ofNat i) guess target = fullLine i guess target ↔ Narrow i guess target := by
  unfold logLine fullLine Narrow
  split
  · next h => simp [h]
  · next h => rw [List.take_eq_self_iff, length_guessLine_le target hi hnonneg, or_iff_right h]

/-- Writing less never makes a line longer. -/
theorem length_logLine_le (i : Nat) (guess target : Code) :
    (logLine (.ofNat i) guess target).length ≤ (fullLine i guess target).length := by
  unfold logLine fullLine
  split
  · rfl
  · exact List.length_take_le' _ _

theorem le_length_logLine (numGuesses : UInt32) (guess target : Code) :
    23 ≤ (logLine numGuesses guess target).length := by
  unfold logLine
  split
  · decide
  · rw [List.length_take]
    have := length_guessLine numGuesses guess (scorePegs target guess)
    omega

/-- Lines that are not longer than others make the same text iff they are the same lines. -/
theorem flatMap_eq_iff {α β : Type} {f g : α → List β} {l : List α}
    (hle : ∀ a ∈ l, (f a).length ≤ (g a).length) : l.flatMap f = l.flatMap g ↔ ∀ a ∈ l, f a = g a := by
  induction l with
  | nil => simp
  | cons a l ih =>
      have hlater : ∀ b ∈ l, (f b).length ≤ (g b).length := fun b hb =>
        hle b (List.mem_cons_of_mem a hb)
      have hrest : (l.flatMap f).length ≤ (l.flatMap g).length := by
        simp only [List.length_flatMap]
        exact List.sum_le_sum hlater
      rw [List.forall_mem_cons, ← ih hlater, List.flatMap_cons, List.flatMap_cons]
      constructor
      · intro h
        have hlen := congrArg List.length h
        simp only [List.length_append] at hlen
        have hhead := hle a List.mem_cons_self
        exact List.append_inj h (by omega)
      · rintro ⟨hhead, htail⟩
        rw [hhead, htail]

/-! ## what is written -/

/-- The lines as they are written. -/
def keptLog (guesses : List (Code × Code)) : List UInt8 :=
  (guesses.zipIdx 1).flatMap fun p => logLine (.ofNat p.2) p.1.1 p.1.2

@[simp] theorem keptLog_concat (guesses : List (Code × Code)) (x : Code × Code) :
    keptLog (guesses ++ [x]) = keptLog guesses ++ logLine (.ofNat (guesses.length + 1)) x.1 x.2 := by
  simp [keptLog, List.zipIdx_append, Nat.add_comm]

/-- The log of a game and its number of guesses. -/
theorem screen_eq (ro : Rodata) (calls : List GameCall) :
    (screen ro calls).log = keptLog (acceptedGuesses ro calls) ∧
      (screen ro calls).guesses = .ofNat (acceptedGuesses ro calls).length := by
  induction calls using List.reverseRecOn with
  | nil => exact ⟨rfl, rfl⟩
  | append_singleton calls k ih =>
      obtain ⟨hlog, hnum⟩ := ih
      have hsucc : (screen ro calls).guesses + 1 =
          .ofNat ((acceptedGuesses ro calls).length + 1) := by
        rw [hnum, UInt32.ofNat_add]
        rfl
      rw [screen_concat, acceptedGuesses_concat]
      cases hacc : (screen ro calls).accepts k with
      | none =>
          obtain ⟨hnext, hnextLog⟩ := Screen.next_quiet ro hacc
          rw [hnext, hnextLog, Option.toList_none, List.append_nil]
          exact ⟨hlog, hnum⟩
      | some x =>
          obtain ⟨hnext, hnextLog⟩ := Screen.next_accepted ro hacc
          rw [hnext, hnextLog, hsucc, hlog, Option.toList_some, keptLog_concat, List.length_append,
            List.length_singleton]
          exact ⟨rfl, rfl⟩

/-- A log that fits in the page is one of at most 178 guesses. -/
theorem length_acceptedGuesses_le {ro : Rodata} {calls : List GameCall}
    (h : (screen ro calls).log.length < PAGE_SIZE) : (acceptedGuesses ro calls).length ≤ 178 := by
  have hlines : ∀ guesses, 23 * guesses.length ≤ (keptLog guesses).length := by
    intro guesses
    induction guesses using List.reverseRecOn with
    | nil => simp
    | append_singleton guesses x ih =>
        have := le_length_logLine (.ofNat (guesses.length + 1)) x.1 x.2
        rw [keptLog_concat, List.length_append, List.length_append, List.length_singleton]
        omega
  have := hlines (acceptedGuesses ro calls)
  rw [(screen_eq ro calls).1, PAGE_SIZE] at h
  omega

/-! ## the status over a run -/

/-- The call takes the quit branch. -/
def Call.isQuit (ro : Rodata) : Call → Bool
  | .ctlWrite c => decide (Takes ro c .quit)
  | _ => false

/-- The player has not quit the game. -/
def Unquit (ro : Rodata) (calls : List GameCall) : Prop := ∀ k ∈ calls, k.call.isQuit ro = false

instance (ro : Rodata) (calls : List GameCall) : Decidable (Unquit ro calls) :=
  inferInstanceAs (Decidable (∀ k ∈ calls, _))

theorem nulFree_lastResult (guesses : List (Code × Code)) : NulFree (lastResult guesses) := by
  have hguess : NulFree (ascii "Guess ") := by decide +kernel
  have hcolon : NulFree (ascii ": ") := by decide +kernel
  have hblack : NulFree (ascii " black peg(s), ") := by decide +kernel
  have hwhite : NulFree (ascii " white peg(s)\n") := by decide +kernel
  unfold lastResult
  split
  · decide +kernel
  · split
    · decide +kernel
    · simp only [guessStatus, nulFree_append, nulFree_decimal, hguess, hcolon, hblack, hwhite,
        and_self]

theorem lastResult_concat (guesses : List (Code × Code)) (guess target : Code) :
    lastResult (guesses ++ [(guess, target)]) =
      if guess = target then ascii "Correct! Game over\n"
      else guessStatus (.ofNat (guesses.length + 1)) (scorePegs target guess) := by
  simp [lastResult]

/-- A start writes its status. -/
theorem startBranch_gameStatus (rnd : Fin NUM_PEGS → UInt32) (count : Nat) (v : Vars) (g : MmGame) :
    cstr (startBranch rnd count v g).game.gameStatus = (lastResult []).take 40 := by
  have hstatus : (startBranch rnd count v g).game.gameStatus =
      scnprintf (memsetZero g.gameStatus 80) 15 (ascii "Starting game\n") := by
    simp only [startBranch]
    split <;> rfl
  rw [hstatus, cstr_scnprintf (by decide +kernel) _ (by decide)]
  rfl

/-- A guess that is scored writes its status. -/
theorem scoreGuess_gameStatus {count : Nat} {guess : Code} {v : Vars} {g : MmGame}
    {guesses : List (Code × Code)} (hnum : g.numGuesses = .ofNat guesses.length) :
    cstr (scoreGuess count guess v g).game.gameStatus =
      (lastResult (guesses ++ [(guess, v.targetCode)])).take 40 := by
  have hnul := nulFree_lastResult (guesses ++ [(guess, v.targetCode)])
  have hsucc : g.numGuesses + 1 = .ofNat (guesses.length + 1) := by
    rw [hnum, UInt32.ofNat_add]
    rfl
  rw [lastResult_concat] at hnul ⊢
  simp only [scoreGuess, numBlack_eq_iff]
  split
  · rw [cstr_scnprintf (by decide +kernel) _ (by decide)]
    rfl
  · next h =>
      rw [if_neg h] at hnul
      rw [hsucc, cstr_scnprintf hnul _ (by decide)]

/-- An entry shows a game and, unless it was quit, the first 40 bytes of its last
result. -/
structure Tells (ro : Rodata) (game : LatestGame) (g : MmGame) : Prop where
  displays : Displays g game.old (screen ro game.calls)
  status : Unquit ro game.calls →
    cstr g.gameStatus = (lastResult (acceptedGuesses ro game.calls)).take 40

theorem tells_kept (ro : Rodata) : KeptByCalls ro (Tells ro) where
  start rnd count v g := ⟨displays_start rnd count v g, fun _ => startBranch_gameStatus ..⟩
  next {game g} rnd highest call v h hstart := by
    refine ⟨(displays_kept ro).next rnd highest call v h.displays hstart, fun hunquit => ?_⟩
    obtain ⟨hcalls, hquit⟩ := List.forall_mem_append.mp hunquit
    have hquit : call.isQuit ro = false := by simpa using hquit
    have hstatus := h.status hcalls
    have hkeep : (screen ro game.calls).accepts ⟨call, highest, v.targetCode⟩ = none →
        (lastResult (acceptedGuesses ro
          (game.calls ++ [⟨call, highest, v.targetCode⟩]))).take 40 =
        (lastResult (acceptedGuesses ro game.calls)).take 40 := by
      intro hnone
      rw [acceptedGuesses_concat, hnone, Option.toList_none, List.append_nil]
    cases call with
    | read a => rw [hkeep rfl]; exact hstatus
    | mmap a => rw [hkeep rfl]; exact hstatus
    | write ubuf count =>
        have hact := h.displays.active
        simp only [Call.section]
        obtain ⟨hadm, hw⟩ | ⟨hadm, hw⟩ := mmWrite_cases highest ubuf count v g <;>
          unfold Admits at hadm <;> rw [hact] at hadm
        · rw [hw, hkeep (if_neg hadm)]
          exact hstatus
        · have hnum := h.displays.guesses.trans (screen_eq ro game.calls).2
          have hacc : (screen ro game.calls).accepts ⟨.write ubuf count, highest, v.targetCode⟩ =
              some (guessDigits ubuf, v.targetCode) := if_pos hadm
          rw [hw, scoreGuess_gameStatus hnum, acceptedGuesses_concat, hacc, Option.toList_some]
    | ctlWrite c =>
        have hs : ¬ Takes ro c .start := by simpa [Call.isStart] using hstart
        have hq : ¬ Takes ro c .quit := by simpa [Call.isQuit] using hquit
        rw [hkeep rfl]
        simp only [Call.section]
        obtain ⟨htakes, -⟩ | ⟨htakes, -⟩ | ⟨-, hw⟩ | ⟨-, hw⟩ := mmCtlWrite_cases ro rnd c v g
        · exact absurd htakes hs
        · exact absurd htakes hq
        · rw [hw, colorsBranch_game]
          exact hstatus
        · rw [hw]
          exact hstatus

/-! ## when the guesses can be read back -/

/-- The page shows the guesses in full iff all of their lines are narrow. -/
theorem keptLog_eq_fullLog {guesses : List (Code × Code)} (hlen : guesses.length ≤ 178)
    (hnonneg : ∀ x ∈ guesses, ∀ j, 0 ≤ x.1 j) :
    keptLog guesses = fullLog guesses ↔ ∀ p ∈ guesses.zipIdx 1, Narrow p.2 p.1.1 p.1.2 := by
  have hle : ∀ p ∈ guesses.zipIdx 1,
      (logLine (.ofNat p.2) p.1.1 p.1.2).length ≤ (fullLine p.2 p.1.1 p.1.2).length := fun p _ =>
    length_logLine_le p.2 p.1.1 p.1.2
  rw [keptLog, fullLog, flatMap_eq_iff hle]
  refine forall₂_congr fun p hp => logLine_eq_fullLine p.1.2 ?_ (hnonneg p.1 ?_)
  · have := List.snd_lt_of_mem_zipIdx hp
    omega
  · exact List.fst_mem_of_mem_zipIdx hp

/-- The status shows the last result in full if its line is narrow. -/
theorem take_lastResult {guesses : List (Code × Code)} (hlen : guesses.length ≤ 178)
    (h : ∀ p ∈ guesses.zipIdx 1, Narrow p.2 p.1.1 p.1.2) :
    (lastResult guesses).take 40 = lastResult guesses := by
  induction guesses using List.reverseRecOn with
  | nil => rfl
  | append_singleton guesses x _ =>
      obtain ⟨guess, target⟩ := x
      rw [List.length_append, List.length_singleton] at hlen
      rw [lastResult_concat, List.take_eq_self_iff]
      split
      · decide
      · next hne =>
          have hlast : Narrow (guesses.length + 1) guess target :=
            h ((guess, target), guesses.length + 1)
              (by simp [List.zipIdx_append, Nat.add_comm])
          exact (length_guessStatus_le target guess (by omega)).mpr (hlast.resolve_left hne).1

/-- **When the guesses can be read back.**  In every run, while the log of a game that
its player has not quit fits in the page, the page and the status of the player show
the accepted guesses in full iff every wrong one is at most the ninth and has only
digits up to nine. -/
theorem readsBack_iff (ro : Rodata) (u : Kuid) {tr : List (Sys × Label)} {s : Sys}
    (h : (driver ro).Run tr s) {game : LatestGame} (hgame : latestGame ro u tr = some game)
    (hunquit : Unquit ro game.calls) (hfits : (screen ro game.calls).log.length < PAGE_SIZE) :
    (∃ g ∈ s.drv.gamesList, g.playerId = u ∧ ReadsBack g (acceptedGuesses ro game.calls)) ↔
      ∀ p ∈ (acceptedGuesses ro game.calls).zipIdx 1, Narrow p.2 p.1.1 p.1.2 := by
  obtain ⟨p, g, hg, hu, htells⟩ := (tells_kept ro).of_run u h game hgame
  have hlen := length_acceptedGuesses_le hfits
  have hlog := keptLog_eq_fullLog hlen fun x hx => acceptedGuesses_nonneg hx
  have hview : cstr g.userView = keptLog (acceptedGuesses ro game.calls) := by
    rw [htells.displays.view, cstr_overlay (nulFree_log ro game.calls), (screen_eq ro _).1]
  constructor
  · rintro ⟨g', hg', hu', hreads⟩
    obtain rfl := (owned_of_run h).eq_of_mem hg' hg (hu'.trans hu.symm)
    exact hlog.mp (hview.symm.trans hreads.view)
  · intro hnarrow
    refine ⟨g, List.mem_of_getElem? hg, hu, hview.trans (hlog.mpr hnarrow), ?_⟩
    rw [htells.status hunquit, take_lastResult hlen hnarrow]

/-- User 1000 starts a game and makes `n` wrong guesses. -/
def wrongGuesses (n : Nat) : List Label :=
  callSteps 0 1000 (ctlText "start" false) 0 ++
    (List.replicate n (callSteps 0 1000 (guessText "1111") 0)).flatten

/-- Its trace. -/
def wrongTrace (n : Nat) : List (Sys × Label) :=
  (driver .zeros).trace (initSys false) (wrongGuesses n)

/-- All of these guesses are accepted, and there is room for them. -/
def WrongGame (n : Nat) (game : LatestGame) : Prop :=
  Unquit .zeros game.calls ∧ (screen .zeros game.calls).log.length < PAGE_SIZE ∧
    acceptedGuesses .zeros game.calls = List.replicate n (fun _ => 1, fixedCode)

instance (n : Nat) (game : LatestGame) : Decidable (WrongGame n game) :=
  inferInstanceAs (Decidable (_ ∧ _ ∧ _))

theorem exists_wrongGame {n : Nat}
    (h : (latestGame .zeros 1000 (wrongTrace n)).any (fun game => decide (WrongGame n game)) = true) :
    ∃ game, latestGame .zeros 1000 (wrongTrace n) = some game ∧ WrongGame n game := by
  obtain ⟨game, hlatest, hgame⟩ := (Option.any_eq_true _ _).mp h
  exact ⟨game, hlatest, of_decide_eq_true hgame⟩

/-- Nine wrong guesses can be read back. -/
theorem readsBack_iff_nineGuesses :
    ∃ s game, (driver .zeros).Run (wrongTrace 9) s ∧
      latestGame .zeros 1000 (wrongTrace 9) = some game ∧ WrongGame 9 game ∧
      ∃ g ∈ s.drv.gamesList, g.playerId = 1000 ∧
        ReadsBack g (acceptedGuesses .zeros game.calls) := by
  obtain ⟨s, hrun⟩ := Machine.exists_run (M := driver .zeros) ⟨false, rfl⟩
    (wrongGuesses 9) (by decide +kernel)
  obtain ⟨game, hlatest, hgame⟩ := exists_wrongGame (n := 9) (by decide +kernel)
  refine ⟨s, game, hrun, hlatest, hgame,
    (readsBack_iff .zeros 1000 hrun hlatest hgame.1 hgame.2.1).mpr ?_⟩
  rw [hgame.2.2]
  decide

/-- The line of a tenth wrong guess has lost its end. -/
theorem tenth_line_cut :
    ∃ s game, (driver .zeros).Run (wrongTrace 10) s ∧
      latestGame .zeros 1000 (wrongTrace 10) = some game ∧ WrongGame 10 game ∧
      ¬ ∃ g ∈ s.drv.gamesList, g.playerId = 1000 ∧
        ReadsBack g (acceptedGuesses .zeros game.calls) := by
  obtain ⟨s, hrun, hs⟩ := Machine.exists_run_of_exec (M := driver .zeros) ⟨false, rfl⟩
    (wrongGuesses 10) (b := fun s => s.drv.gamesList.all fun g => strlen g.userView == 230)
    (by decide +kernel)
  obtain ⟨game, hlatest, hgame⟩ := exists_wrongGame (n := 10) (by decide +kernel)
  refine ⟨s, game, hrun, hlatest, hgame, ?_⟩
  rintro ⟨g, hg, -, hreads⟩
  have hlen : strlen g.userView = 230 := by simpa using List.all_eq_true.mp hs g hg
  rw [strlen, hreads.view, hgame.2.2] at hlen
  exact absurd hlen (by decide +kernel)

end Cmsc421.Mastermind
