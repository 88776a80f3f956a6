import Cmsc421.Decimal
import Cmsc421.Mastermind.SoloDriver
import Cmsc421.Mastermind.Colors
import Cmsc421.Mastermind.ReadBack
import Cmsc421.Mastermind.Atomic

/-!
# Cmsc421.Mastermind.Versions

The driver of the first project and that of the second, for one player.

Both drivers get the same calls.  The first one counts at least the white pegs that the
rules give, the second one at most those; so they score a guess alike exactly when both
score it right (`scored_alike_iff`).  Apart from that they differ where the second driver
does something new: it ends the game at the right guess, and it knows the command
`colors`.  As long as none of this happens the callers cannot tell the two apart, and
when it happens they can (`versions_agree_iff`).
-/

namespace Cmsc421.Mastermind

open Finset

/-! ## the scores -/

section scores

variable (target guess : Code)

/-- The first driver counts no fewer pegs than code and guess have in common. -/
theorem common_le_solo : common target guess ≤
    agreements target guess + (Solo.scorePegs target guess).numWhite := by
  rw [common_eq, Solo.numWhite_eq]
  refine Nat.add_le_add_left (sum_le_sum fun c _ => ?_) _
  split
  · exact min_le_left ..
  · next hc => rw [surplus_eq_zero hc, Nat.min_zero]

/-- **The two drivers score a guess alike iff both score it by the rules.** -/
theorem scored_alike_iff :
    (Solo.scorePegs target guess).numWhite = (scorePegs target guess).numWhite ↔
      ScoredRight target guess ∧ Solo.TotalsRight target guess := by
  have hmin := score_le_common target guess
  have hmax := common_le_solo target guess
  rw [ScoredRight, Solo.TotalsRight, Solo.numBlack_eq, numBlack_eq_agreements] at *
  omega

/-- Both count the same black pegs. -/
theorem solo_numBlack : (Solo.scorePegs target guess).numBlack = (scorePegs target guess).numBlack := by
  rw [Solo.numBlack_eq, numBlack_eq_agreements]

end scores

/-! ## what the status tells -/

/-- The first driver counts no more white pegs than there are places. -/
theorem length_decimal_solo_white (target guess : Code) :
    (decimal (Solo.scorePegs target guess).numWhite).length = 1 := by
  have hle : (Solo.scorePegs target guess).numWhite ≤ 4 := by
    rw [(Solo.paired_scorePegs target guess).white]
    exact (card_le_univ _).trans_eq (Fintype.card_fin NUM_PEGS)
  have hone := (length_decimal_le_one (Int.natCast_nonneg (Solo.scorePegs target guess).numWhite)).mpr
    (by omega)
  exact le_antisymm hone (length_decimal_pos _)

/-- An `int` is at most eleven characters wide. -/
theorem length_decimal_int32_le (x : Int) : (decimal (int32 x)).length ≤ 11 := by
  have hnat : ∀ n < 10 ^ 10, (decimalNat n).length ≤ 10 := fun n hn => by
    rw [decimalNat, List.length_map]
    exact (Nat.length_toDigits_le_iff (by decide) (by decide)).mpr hn
  have hrange : -2 ^ 31 ≤ int32 x ∧ int32 x < 2 ^ 31 := by
    rw [int32, Int.bmod_def]
    split <;> omega
  cases h : int32 x with
  | ofNat n =>
      rw [h, Int.ofNat_eq_natCast] at hrange
      exact (hnat n (by omega)).trans (by decide)
  | negSucc n =>
      rw [h, Int.negSucc_eq] at hrange
      have hn := hnat (n + 1) (by omega)
      simp only [decimal, List.length_append, show (ascii "-").length = 1 from rfl]
      omega

theorem nulFree_guessStatus (numGuesses : UInt32) (pegs : Pegs) : NulFree (guessStatus numGuesses pegs) := by
  have hguess : NulFree (ascii "Guess ") := by decide +kernel
  have hcolon : NulFree (ascii ": ") := by decide +kernel
  have hblack : NulFree (ascii " black peg(s), ") := by decide +kernel
  have hwhite : NulFree (ascii " white peg(s)\n") := by decide +kernel
  simp only [guessStatus, nulFree_append, nulFree_decimal, hguess, hcolon, hblack, hwhite, and_self]

/-- The white pegs are never cut off. -/
theorem numWhite_of_status {numGuesses : UInt32} {pegs pegs' : Pegs} {buf : List UInt8}
    (hblack : pegs.numBlack = pegs'.numBlack) (hb : (decimal pegs'.numBlack).length = 1)
    (hw : (decimal pegs.numWhite).length = 1) (hw' : (decimal pegs'.numWhite).length = 1)
    (h : scnprintf buf 41 (guessStatus numGuesses pegs) = scnprintf buf 41 (guessStatus numGuesses pegs')) :
    pegs.numWhite = pegs'.numWhite := by
  have hcut := congrArg cstr h
  rw [cstr_scnprintf (nulFree_guessStatus _ _) _ (by decide),
    cstr_scnprintf (nulFree_guessStatus _ _) _ (by decide)] at hcut
  -- what stands before the white pegs has at most 35 bytes
  have hsplit : ∀ p : Pegs, guessStatus numGuesses p =
      (ascii "Guess " ++ decimal (int32 numGuesses.toNat) ++ ascii ": " ++ decimal p.numBlack ++
        ascii " black peg(s), ") ++ (decimal p.numWhite ++ ascii " white peg(s)\n") := by
    intro p
    simp [guessStatus]
  rw [hsplit, hsplit, hblack] at hcut
  have hn := length_decimal_int32_le numGuesses.toNat
  generalize hhead : ascii "Guess " ++ decimal (int32 numGuesses.toNat) ++ ascii ": " ++
    decimal pegs'.numBlack ++ ascii " black peg(s), " = head at hcut
  have hlen : head.length < 40 := by
    rw [← hhead]
    simp only [List.length_append, show (ascii "Guess ").length = 6 from rfl,
      show (ascii ": ").length = 2 from rfl, show (ascii " black peg(s), ").length = 15 from rfl]
    omega
  have htail : ∀ w : Nat, (decimal w).length = 1 →
      (head ++ (decimal w ++ ascii " white peg(s)\n")).take 40 =
        head ++ (decimal w ++ (ascii " white peg(s)\n").take (39 - head.length)) := by
    intro w hlw
    rw [List.take_append, List.take_of_length_le (by omega), List.take_append,
      List.take_of_length_le (by omega), hlw]
    congr 3
    omega
  rw [htail _ hw, htail _ hw'] at hcut
  have hwhite := (List.append_inj (List.append_cancel_left hcut) (hw.trans hw'.symm)).1
  exact Int.ofNat_inj.mp (decimal_injective hwhite)

/-! ## the two drivers side by side -/

/-- Both drivers. -/
structure Versions where
  solo : Solo.Sys
  drv : Driver

/-- The same step in both: a call of the player with no other in between, or a change of
the module's parameter.  The entry of the player has been made.  Each module has its own bytes
behind the literals, `ro₁` and `ro₂`. -/
def Versions.step (ro₁ ro₂ : Rodata) (player : Kuid) (s : Versions) : Solo.Label → Option Versions
  | .call call rnd =>
      (Solo.step ro₁ s.solo (.call call rnd)).map fun z =>
        ⟨z, (wholeCall ro₂ s.drv player call ⟨false, none⟩ rnd).1⟩
  | .setRandomCode b =>
      (Solo.step ro₁ s.solo (.setRandomCode b)).map fun z =>
        ⟨z, { s.drv with vars := { s.drv.vars with randomCode := b } }⟩

/-- The machine: both modules are loaded, on pages with the same bytes, and the player has
made a first call to the second one. -/
def versions (ro₁ ro₂ : Rodata) (player : Kuid) : Machine Versions Solo.Label where
  init s := ∃ (page : Vector UInt8 PAGE_SIZE) (randomCode : Bool),
    s = ⟨⟨Solo.initGame page.toList, randomCode⟩,
      ⟨initVars randomCode, [newGame player page.toList]⟩⟩
  step := Versions.step ro₁ ro₂ player

/-- What a run of both does to the first driver is a run of it. -/
theorem solo_of_run {ro₁ ro₂ : Rodata} {player : Kuid} {tr : List (Versions × Solo.Label)}
    {s : Versions} (h : (versions ro₁ ro₂ player).Run tr s) :
    (Solo.soloDriver ro₁).Run (tr.map fun p => (p.1.solo, p.2)) s.solo := by
  induction h with
  | start hinit =>
      obtain ⟨page, randomCode, rfl⟩ := hinit
      exact .start ⟨page, rfl⟩
  | @next tr s t l _ hs ih =>
      replace hs : Versions.step ro₁ ro₂ player s l = some t := hs
      rw [List.map_append]
      refine ih.next ?_
      cases l with
      | call | setRandomCode =>
          simp only [Versions.step] at hs
          obtain ⟨z, hz, rfl⟩ := Option.map_eq_some_iff.mp hs
          exact hz

/-- The bytes that a caller of the second driver can see after a call. -/
def Call.bytes (g : MmGame) : Call → List UInt8
  | .read a => (readStatus a g).delivered
  | .mmap a => (mapView a g).mapped
  | .write _ _ | .ctlWrite _ => []

/-- The two games are the same, with six colors. -/
structure Alike (z : Solo.Sys) (v : Vars) (g : MmGame) : Prop where
  gameActive : g.gameActive = z.game.gameActive
  targetCode : v.targetCode = z.game.targetCode
  numGuesses : g.numGuesses = z.game.numGuesses
  gameStatus : g.gameStatus = z.game.gameStatus
  userView : g.userView = z.game.userView
  randomCode : v.randomCode = z.randomCode
  numColors : v.numColors = 6

/-- The player's entry in the second driver is the game of the first. -/
def Same (player : Kuid) (s : Versions) : Prop :=
  ∃ g, s.drv.gamesList = [g] ∧ g.playerId = player ∧ Alike s.solo s.drv.vars g

/-- A step shows the player the same in both drivers: the call returns the same with the
same bytes, and the games are the same after it. -/
def Agrees (ro₁ ro₂ : Rodata) (player : Kuid) (s : Versions) (l : Solo.Label) : Prop :=
  (∀ call rnd, l = .call call rnd →
    (wholeCall ro₂ s.drv player call ⟨false, none⟩ rnd).2 =
      .ret (Solo.perform ro₁ s.solo.randomCode rnd s.solo.game call).2.result ∧
    ∀ g ∈ s.drv.gamesList, call.bytes g =
      (Solo.perform ro₁ s.solo.randomCode rnd s.solo.game call).2.bytes) ∧
  ∀ t, Versions.step ro₁ ro₂ player s l = some t → Same player t

/-- The step makes use of nothing that only one of the drivers does: no guess is admitted
that is the code or that one of them scores wrong, no command is taken for `colors`, unless it
is refused as invalid, and none for `start` or `quit` because of what is behind one of the
literals. -/
def InCommon (ro₁ ro₂ : Rodata) (z : Solo.Sys) : Solo.Label → Prop
  | .call (.write ubuf count) _ =>
      Solo.Admits ubuf count z.game →
        guessDigits ubuf ≠ z.game.targetCode ∧
        ScoredRight z.game.targetCode (guessDigits ubuf) ∧
        Solo.TotalsRight z.game.targetCode (guessDigits ubuf)
  | .call (.ctlWrite c) _ =>
      (Takes ro₁ c .start ↔ Takes ro₂ c .start) ∧ (Takes ro₁ c .quit ↔ Takes ro₂ c .quit) ∧
        (Takes ro₂ c .colors → c.capSysAdmin = true ∧ c.colorsOk = false)
  | .call (.read _) _ | .call (.mmap _) _ | .setRandomCode _ => True

/-- The call shows the same: what it returns, the bytes, and the games after it. -/
structure CallAgrees (ro₁ ro₂ : Rodata) (rnd : Fin NUM_PEGS → UInt32) (z : Solo.Sys) (v : Vars) (g : MmGame)
    (call : Call) : Prop where
  result : (call.section ro₂ rnd (highestDigit v) v g).result =
    .ret (Solo.perform ro₁ z.randomCode rnd z.game call).2.result
  bytes : call.bytes g = (Solo.perform ro₁ z.randomCode rnd z.game call).2.bytes
  alike : Alike { z with game := (Solo.perform ro₁ z.randomCode rnd z.game call).1 }
    (call.section ro₂ rnd (highestDigit v) v g).vars (call.section ro₂ rnd (highestDigit v) v g).game

section calls

variable {ro₁ ro₂ : Rodata} {rnd : Fin NUM_PEGS → UInt32} {z : Solo.Sys} {v : Vars} {g : MmGame}

theorem Alike.read (h : Alike z v g) (a : ReadArgs) : CallAgrees ro₁ ro₂ rnd z v g (.read a) := by
  have hread : readStatus a g = Solo.mmRead a z.game := by
    rw [readStatus, Solo.mmRead, h.gameStatus]
  exact ⟨congrArg (fun r : ReadOutcome => Result.ret r.result) hread,
    congrArg ReadOutcome.delivered hread, h⟩

theorem Alike.mmap (h : Alike z v g) (a : MmapArgs) : CallAgrees ro₁ ro₂ rnd z v g (.mmap a) := by
  have hmap : mapView a g = Solo.mmMmap a z.game := by
    rw [mapView, Solo.mmMmap, h.userView]
  exact ⟨congrArg (fun r : MmapOutcome => Result.ret r.result) hmap,
    congrArg MmapOutcome.mapped hmap, h⟩

/-- The log does not depend on what was in `guess_log` before. -/
theorem strcat_line (dst buf buf' : List UInt8) (numGuesses : UInt32) (guess : Code) (pegs : Pegs) :
    strcat dst (scnprintf buf 24 (guessLine numGuesses guess pegs)) =
      strcat dst (scnprintf buf' 24 (guessLine numGuesses guess pegs)) := by
  rw [strcat, strcat, cstr_scnprintf (nulFree_guessLine _ _ _) _ (by decide),
    cstr_scnprintf (nulFree_guessLine _ _ _) _ (by decide)]

/-- The second driver at a guess that is not the code. -/
theorem scoreGuess_of_ne {count : Nat} {guess : Code} (hne : guess ≠ v.targetCode) :
    scoreGuess count guess v g =
      { vars := v
        game :=
          { g with
            numGuesses := g.numGuesses + 1
            gameStatus := scnprintf g.gameStatus 41
              (guessStatus (g.numGuesses + 1) (scorePegs v.targetCode guess))
            userView := strcat g.userView
              (scnprintf guessLog 24 (guessLine (g.numGuesses + 1) guess (scorePegs v.targetCode guess))) }
        result := .ret (.ok count) } :=
  if_neg ((numBlack_eq_iff v.targetCode guess).not.mpr hne)

/-- **A guess that is scored** leaves the games the same iff it is not the code and both
drivers score it right. -/
theorem Alike.score_iff (h : Alike z v g) (hact : z.game.gameActive = true) (count : Nat) (guess : Code) :
    Alike { z with game := Solo.scoreGuess guess z.game } (scoreGuess count guess v g).vars
        (scoreGuess count guess v g).game ↔
      guess ≠ z.game.targetCode ∧ ScoredRight z.game.targetCode guess ∧
        Solo.TotalsRight z.game.targetCode guess := by
  have hblack := solo_numBlack z.game.targetCode guess
  constructor
  · intro halike
    have hne : guess ≠ v.targetCode :=
      ((scoreGuess_gameActive count guess v g).mp (halike.gameActive.trans hact)).2
    have hstatus := halike.gameStatus
    rw [scoreGuess_of_ne hne] at hstatus
    rw [h.targetCode] at hne hstatus
    refine ⟨hne, (scored_alike_iff ..).mp ?_⟩
    simp only [Solo.scoreGuess, h.gameStatus, h.numGuesses] at hstatus
    obtain ⟨hb, hw⟩ := length_decimal_pegs z.game.targetCode guess
    exact numWhite_of_status hblack hb (length_decimal_solo_white ..) hw hstatus.symm
  · rintro ⟨hne, hright⟩
    have hwhite := (scored_alike_iff ..).mpr hright
    have hstatus : ∀ n, guessStatus n (Solo.scorePegs z.game.targetCode guess) =
        guessStatus n (scorePegs z.game.targetCode guess) := fun n => by
      rw [guessStatus, guessStatus, hblack, hwhite]
    have hline : ∀ n, guessLine n guess (Solo.scorePegs z.game.targetCode guess) =
        guessLine n guess (scorePegs z.game.targetCode guess) := fun n => by
      rw [guessLine, guessLine, hblack, hwhite]
    rw [scoreGuess_of_ne (by rwa [h.targetCode]), h.targetCode]
    refine ⟨h.gameActive, h.targetCode, ?_, ?_, ?_, h.randomCode, h.numColors⟩
    · simp only [Solo.scoreGuess, h.numGuesses]
    · simp only [Solo.scoreGuess, h.numGuesses, h.gameStatus, hstatus]
    · simp only [Solo.scoreGuess, h.numGuesses, h.userView, hline]
      exact strcat_line ..

/-- The two drivers admit the same guesses. -/
theorem Alike.admits_iff (h : Alike z v g) (ubuf : List UInt8) (count : Nat) :
    Admits (highestDigit v) ubuf count g ↔ Solo.Admits ubuf count z.game := by
  rw [Admits, Solo.Admits, h.gameActive, highestDigit, h.numColors]
  rfl

theorem Alike.write_iff (h : Alike z v g) (ubuf : List UInt8) (count : Nat) :
    CallAgrees ro₁ ro₂ rnd z v g (.write ubuf count) ↔
      InCommon ro₁ ro₂ z (.call (.write ubuf count) rnd) := by
  by_cases hadm : Solo.Admits ubuf count z.game
  · obtain ⟨hnot, -⟩ | ⟨-, hwrite⟩ := mmWrite_cases (highestDigit v) ubuf count v g
    · exact absurd ((h.admits_iff ubuf count).mpr hadm) hnot
    have hsolo : Solo.mmWrite ubuf count z.game = (Solo.scoreGuess (guessDigits ubuf) z.game, .ok count) := by
      rw [Solo.mmWrite, if_neg (by simp [hadm.1, hadm.2.1]), if_pos hadm.2.2]
    rw [InCommon, forall_prop_of_true hadm, ← h.score_iff hadm.1 count]
    constructor
    · intro hcall
      have halike := hcall.alike
      simpa only [Call.section, Solo.perform, hwrite, hsolo] using halike
    · intro halike
      constructor
      · simp only [Call.section, Solo.perform, hwrite, hsolo, scoreGuess_result]
      · rfl
      · simpa only [Call.section, Solo.perform, hwrite, hsolo] using halike
  · obtain ⟨-, hwrite⟩ | ⟨hyes, -⟩ := mmWrite_cases (highestDigit v) ubuf count v g
    swap
    · exact absurd ((h.admits_iff ubuf count).mp hyes) hadm
    have hsolo : Solo.mmWrite ubuf count z.game = (z.game, .error .EINVAL) := by
      obtain hrefuse | ⟨hact, hcount, hdigits, -⟩ := Solo.mmWrite_cases ubuf count z.game
      · exact hrefuse
      · exact absurd ⟨hact, hcount, hdigits⟩ hadm
    refine iff_of_true ⟨?_, rfl, ?_⟩ fun hyes => absurd hyes hadm
    · simp only [Call.section, Solo.perform, hwrite, hsolo, refuse]
    · simpa only [Call.section, Solo.perform, hwrite, hsolo, refuse] using h

/-- A start. -/
theorem Alike.start (h : Alike z v g) (rnd : Fin NUM_PEGS → UInt32) (count : Nat) :
    (startBranch rnd count v g).result = .ret (.ok count) ∧
      Alike { z with game := Solo.startGame z.randomCode rnd z.game } (startBranch rnd count v g).vars
        (startBranch rnd count v g).game := by
  have hcode : startCode v rnd = some (Solo.newCode z.randomCode rnd) := by
    unfold startCode Solo.newCode
    rw [h.randomCode, h.numColors]
    split
    · refine congrArg some (funext fun i => ?_)
      have hlt : (rnd i).toNat % 6 < 6 := Nat.mod_lt _ (by decide)
      exact int32_natCast (by
        show (rnd i).toNat % 6 < 2 ^ 31
        omega)
    · rfl
  simp only [startBranch, hcode]
  exact ⟨trivial, rfl, rfl, rfl, by simp [Solo.startGame, h.gameStatus],
    by simp [Solo.startGame, h.userView], h.randomCode, h.numColors⟩

/-- A quit. -/
theorem Alike.quit (h : Alike z v g) (count : Nat) :
    (quitBranch count v g).result = .ret (.ok count) ∧
      Alike { z with game := Solo.quitGame z.game } (quitBranch count v g).vars
        (quitBranch count v g).game := by
  unfold quitBranch Solo.quitGame
  rw [h.gameActive]
  split
  · exact ⟨rfl, rfl, h.targetCode, h.numGuesses, by rw [h.gameStatus, h.targetCode], h.userView,
      h.randomCode, h.numColors⟩
  · exact ⟨rfl, h⟩

theorem not_takes_of_other {ro : Rodata} {c : CtlWrite} {cmd : Command}
    (h : c.copied = false ∨ Takes ro c .other) (hne : cmd ≠ .other) : ¬ Takes ro c cmd := by
  intro htakes
  rcases h with hcopied | hother
  · simp [htakes.1] at hcopied
  · exact htakes.not hne hother

theorem Takes.memcmpEq_start {ro : Rodata} {c : CtlWrite} (h : Takes ro c .start) :
    memcmpEq c.userInput ro.start c.bytesCopied = true := by
  have hcmd := h.2
  unfold command at hcmd
  split at hcmd
  · assumption
  · split at hcmd <;> [skip; split at hcmd] <;> cases hcmd

theorem Takes.memcmpEq_quit {ro : Rodata} {c : CtlWrite} (h : Takes ro c .quit) :
    memcmpEq c.userInput ro.quit c.bytesCopied = true := by
  have hcmd := h.2
  unfold command at hcmd
  split at hcmd
  · cases hcmd
  · split at hcmd
    · assumption
    · split at hcmd <;> cases hcmd

theorem Takes.memcmpEq_colors {ro : Rodata} {c : CtlWrite} (h : Takes ro c .colors) :
    memcmpEq c.userInput Mastermind.colors (c.bytesCopied - 1) = true ∧
      ¬ memcmpEq c.userInput ro.start c.bytesCopied = true ∧
      ¬ memcmpEq c.userInput ro.quit c.bytesCopied = true := by
  have hcmd := h.2
  unfold command at hcmd
  split at hcmd
  · cases hcmd
  · split at hcmd
    · cases hcmd
    · split at hcmd
      · exact ⟨‹_›, ‹_›, ‹_›⟩
      · cases hcmd

/-- A command taken for `colors` that does not begin with a `c` has one byte. -/
theorem bytesCopied_of_colors {c : CtlWrite} (h : Takes ro₂ c .colors)
    (hfirst : c.userInput[0]? ≠ some 99) : c.bytesCopied = 1 := by
  have hpos := bytesCopied_pos h
  by_contra hne
  exact hfirst ((memcmpEq_zero h.memcmpEq_colors.1 (by omega)).trans rfl)

/-- A command for `colors` is for neither `start` nor `quit` in the other module: one byte is
compared with the first of the literal, and more begin with another letter. -/
theorem not_start_of_colors {c : CtlWrite} (h : Takes ro₂ c .colors) : ¬ Takes ro₁ c .start := by
  intro hstart
  have hone := bytesCopied_of_colors h (by
    rw [memcmpEq_zero hstart.memcmpEq_start (bytesCopied_pos h)]
    exact (by decide : some (115 : UInt8) ≠ some 99))
  have hmem := hstart.memcmpEq_start
  rw [hone] at hmem
  exact h.memcmpEq_colors.2.1 (by rw [hone]; exact hmem)

theorem not_quit_of_colors {c : CtlWrite} (h : Takes ro₂ c .colors) : ¬ Takes ro₁ c .quit := by
  intro hquit
  have hone := bytesCopied_of_colors h (by
    rw [memcmpEq_zero hquit.memcmpEq_quit (bytesCopied_pos h)]
    exact (by decide : some (113 : UInt8) ≠ some 99))
  have hmem := hquit.memcmpEq_quit
  rw [hone] at hmem
  exact h.memcmpEq_colors.2.2 (by rw [hone]; exact hmem)

theorem quitGame_gameActive (g : Solo.Game) : (Solo.quitGame g).gameActive = false := by
  unfold Solo.quitGame
  split
  · rfl
  · next h => exact Bool.not_eq_true _ ▸ h

/-- **A command that shows the same** is taken for the same in both drivers. -/
theorem Alike.takes_of_agrees (h : Alike z v g) {c : CtlWrite}
    (hcall : CallAgrees ro₁ ro₂ rnd z v g (.ctlWrite c)) :
    (Takes ro₁ c .start ↔ Takes ro₂ c .start) ∧ (Takes ro₁ c .quit ↔ Takes ro₂ c .quit) := by
  have hresult := hcall.result
  have hactive := hcall.alike.gameActive
  have hsolo := Solo.mmCtlWrite_eq ro₁ z.randomCode rnd c z.game
  obtain ⟨htakes, hctl⟩ | ⟨htakes, hctl⟩ | ⟨htakes, -⟩ | ⟨hother, hctl⟩ :=
    mmCtlWrite_cases ro₂ rnd c v g
  · have hstart : Takes ro₁ c .start := by
      by_contra hno
      rw [if_neg hno] at hsolo
      have hok := (h.start rnd c.count).1
      split at hsolo
      · simp [Call.section, Solo.perform, hctl, hsolo, quitGame_gameActive] at hactive
      · simp [Call.section, Solo.perform, hctl, hsolo, hok] at hresult
    exact ⟨iff_of_true hstart htakes, iff_of_false (hstart.not (by decide)) (htakes.not (by decide))⟩
  · have hquit : Takes ro₁ c .quit := by
      by_contra hno
      have hok := (h.quit c.count).1
      rw [if_neg hno] at hsolo
      split at hsolo
      · simp [Call.section, Solo.perform, hctl, hsolo, Solo.startGame] at hactive
      · simp [Call.section, Solo.perform, hctl, hsolo, hok] at hresult
    exact ⟨iff_of_false (hquit.not (by decide)) (htakes.not (by decide)), iff_of_true hquit htakes⟩
  · exact ⟨iff_of_false (not_start_of_colors htakes) (htakes.not (by decide)),
      iff_of_false (not_quit_of_colors htakes) (htakes.not (by decide))⟩
  · have hno : ¬ Takes ro₁ c .start ∧ ¬ Takes ro₁ c .quit := by
      constructor <;> intro hyes
      · rw [if_pos hyes] at hsolo
        simp [Call.section, Solo.perform, hctl, hsolo, refuse] at hresult
      · rw [if_neg (hyes.not (by decide)), if_pos hyes] at hsolo
        simp [Call.section, Solo.perform, hctl, hsolo, refuse] at hresult
    exact ⟨iff_of_false hno.1 (not_takes_of_other hother (by decide)),
      iff_of_false hno.2 (not_takes_of_other hother (by decide))⟩

theorem Alike.ctlWrite_iff (h : Alike z v g) (c : CtlWrite) :
    CallAgrees ro₁ ro₂ rnd z v g (.ctlWrite c) ↔ InCommon ro₁ ro₂ z (.call (.ctlWrite c) rnd) := by
  have hsolo := Solo.mmCtlWrite_eq ro₁ z.randomCode rnd c z.game
  constructor
  · intro hcall
    have hsame := h.takes_of_agrees hcall
    refine ⟨hsame.1, hsame.2, fun htakes => ?_⟩
    -- the first driver refuses the command
    rw [if_neg (not_start_of_colors htakes), if_neg (not_quit_of_colors htakes)] at hsolo
    have hctl : mmCtlWrite ro₂ rnd c v g = colorsBranch c v g := by
      simp [mmCtlWrite, htakes.1, htakes.2]
    have hresult := hcall.result
    simp only [Call.section, Solo.perform, hctl, hsolo] at hresult
    unfold colorsBranch at hresult
    split at hresult
    · simp at hresult
    · next hok =>
        split at hresult
        · next hadmin => exact ⟨hadmin, by simpa using hok⟩
        · simp [refuse] at hresult
  · rintro ⟨hstart, hquit, hcolors⟩
    simp only [hstart, hquit] at hsolo
    obtain ⟨htakes, hctl⟩ | ⟨htakes, hctl⟩ | ⟨htakes, hctl⟩ | ⟨hother, hctl⟩ :=
      mmCtlWrite_cases ro₂ rnd c v g
    · rw [if_pos htakes] at hsolo
      obtain ⟨hresult, halike⟩ := h.start rnd c.count
      refine ⟨?_, rfl, ?_⟩
      · simp only [Call.section, Solo.perform, hctl, hsolo, hresult]
      · simpa only [Call.section, Solo.perform, hctl, hsolo] using halike
    · rw [if_neg (htakes.not (by decide)), if_pos htakes] at hsolo
      obtain ⟨hresult, halike⟩ := h.quit c.count
      refine ⟨?_, rfl, ?_⟩
      · simp only [Call.section, Solo.perform, hctl, hsolo, hresult]
      · simpa only [Call.section, Solo.perform, hctl, hsolo] using halike
    · rw [if_neg (htakes.not (by decide)), if_neg (htakes.not (by decide))] at hsolo
      obtain ⟨hadmin, hok⟩ := hcolors htakes
      have hrefuse : colorsBranch c v g = refuse .EINVAL v g := by simp [colorsBranch, hadmin, hok]
      refine ⟨?_, rfl, ?_⟩
      · simp only [Call.section, Solo.perform, hctl, hsolo, hrefuse, refuse]
      · simpa only [Call.section, Solo.perform, hctl, hsolo, hrefuse, refuse] using h
    · rw [if_neg (not_takes_of_other hother (by decide)),
        if_neg (not_takes_of_other hother (by decide))] at hsolo
      refine ⟨?_, rfl, ?_⟩
      · simp only [Call.section, Solo.perform, hctl, hsolo, refuse]
      · simpa only [Call.section, Solo.perform, hctl, hsolo, refuse] using h

/-- **A call shows the same in both drivers** iff it makes use of what they have in
common. -/
theorem Alike.call_iff (h : Alike z v g) (call : Call) :
    CallAgrees ro₁ ro₂ rnd z v g call ↔ InCommon ro₁ ro₂ z (.call call rnd) := by
  cases call with
  | read a => exact iff_of_true (h.read a) trivial
  | mmap a => exact iff_of_true (h.mmap a) trivial
  | write ubuf count => exact h.write_iff ubuf count
  | ctlWrite c => exact h.ctlWrite_iff c

end calls

/-! ## runs -/

section runs

variable {ro₁ ro₂ : Rodata} {player : Kuid} {s t : Versions} {l : Solo.Label}

/-- A call of the player in both drivers. -/
theorem step_call {g : MmGame} (hlist : s.drv.gamesList = [g]) (call : Call)
    (rnd : Fin NUM_PEGS → UInt32) :
    (wholeCall ro₂ s.drv g.playerId call ⟨false, none⟩ rnd).2 =
        (call.section ro₂ rnd (highestDigit s.drv.vars) s.drv.vars g).result ∧
      Versions.step ro₁ ro₂ g.playerId s (.call call rnd) =
        some
          { solo := { s.solo with game := (Solo.perform ro₁ s.solo.randomCode rnd s.solo.game call).1 }
            drv :=
              { vars := (call.section ro₂ rnd (highestDigit s.drv.vars) s.drv.vars g).vars
                gamesList := [(call.section ro₂ rnd (highestDigit s.drv.vars) s.drv.vars g).game] } } := by
  have hnodup : (s.drv.gamesList.map (·.playerId)).Nodup := by simp [hlist]
  have hentry : s.drv.gamesList[0]? = some g := by simp [hlist]
  rw [Versions.step, wholeCall_found hnodup hentry]
  exact ⟨rfl, by simp [Solo.step, hlist]⟩

/-- **A step shows the same** iff it makes use of what the drivers have in common. -/
theorem agrees_iff (h : Same player s) : Agrees ro₁ ro₂ player s l ↔ InCommon ro₁ ro₂ s.solo l := by
  obtain ⟨g, hlist, rfl, halike⟩ := h
  cases l with
  | setRandomCode b =>
      refine iff_of_true ⟨by simp, fun t ht => ?_⟩ trivial
      obtain rfl := Option.some.inj ht
      exact ⟨g, hlist, rfl, halike.gameActive, halike.targetCode, halike.numGuesses, halike.gameStatus,
        halike.userView, rfl, halike.numColors⟩
  | call call rnd =>
      obtain ⟨hresult, hstep⟩ := step_call hlist call rnd
      rw [← halike.call_iff]
      constructor
      · rintro ⟨hreply, hnext⟩
        obtain ⟨hreply, hbytes⟩ := hreply call rnd rfl
        obtain ⟨g', hlist', -, halike'⟩ := hnext _ hstep
        obtain rfl := List.singleton_inj.mp hlist'
        exact ⟨hresult.symm.trans hreply, hbytes g (by simp [hlist]), halike'⟩
      · intro hcall
        constructor
        · intro call' rnd' heq
          obtain ⟨rfl, rfl⟩ : call = call' ∧ rnd = rnd' := by simpa using heq
          refine ⟨hresult.trans hcall.result, fun g' hg' => ?_⟩
          obtain rfl : g' = g := by simpa [hlist] using hg'
          exact hcall.bytes
        · intro t ht
          obtain rfl := Option.some.inj (hstep.symm.trans ht)
          exact ⟨_, rfl, section_playerId .., hcall.alike⟩

theorem same_init {page : Vector UInt8 PAGE_SIZE} {randomCode : Bool} :
    Same player ⟨⟨Solo.initGame page.toList, randomCode⟩,
      ⟨initVars randomCode, [newGame player page.toList]⟩⟩ :=
  ⟨_, rfl, rfl, rfl, rfl, rfl, rfl, rfl, rfl, rfl⟩

/-- **How long the two drivers cannot be told apart.**  In a run of the same calls of one
player on both drivers, all calls return the same with the same bytes and leave the same
games, exactly when no guess is admitted that is the code or that one of the drivers scores
wrong, and no command is taken for `colors` unless it is refused as invalid. -/
theorem versions_agree_iff (ro₁ ro₂ : Rodata) (player : Kuid) {tr : List (Versions × Solo.Label)}
    (h : (versions ro₁ ro₂ player).Run tr s) :
    (∀ p ∈ tr, Agrees ro₁ ro₂ player p.1 p.2) ↔ ∀ p ∈ tr, InCommon ro₁ ro₂ p.1.solo p.2 := by
  refine Machine.Run.steps_iff_meets (P := fun s l => InCommon ro₁ ro₂ s.solo l)
    (R := Agrees ro₁ ro₂ player) (I := fun _ s => Same player s) ?_ ?_ ?_ h
  · rintro s ⟨page, randomCode, rfl⟩
    exact same_init
  · intro _ s l t hI _
    exact agrees_iff hI
  · intro _ s l t hI hP hs
    exact ((agrees_iff hI).mpr hP).2 t hs

end runs

/-- Both modules are loaded on cleared pages. -/
def bothLoaded : Versions :=
  ⟨⟨Solo.initGame (Vector.replicate PAGE_SIZE (0 : UInt8)).toList, false⟩,
    ⟨initVars false, [newGame 1000 (Vector.replicate PAGE_SIZE (0 : UInt8)).toList]⟩⟩

/-- A game is started, and a guess has no digit of the code. -/
theorem versions_agree_iff_miss : ∃ tr s, (versions .zeros .zeros 1000).Run tr s ∧ tr.length = 2 ∧
    ∀ p ∈ tr, Agrees .zeros .zeros 1000 p.1 p.2 := by
  have hstart := Machine.Run.start (M := versions .zeros .zeros 1000) (s := bothLoaded) ⟨_, _, rfl⟩
  have hrun := (hstart.next (l := .call (ctlText "start" false) fun _ => 0) rfl).next
    (l := .call (guessText "3333") fun _ => 0) rfl
  refine ⟨_, _, hrun, rfl, (versions_agree_iff .zeros .zeros 1000 hrun).mpr ?_⟩
  intro p hp
  rcases List.mem_append.mp hp with hp | hp
  · obtain rfl := List.mem_singleton.mp hp
    exact ⟨Iff.rfl, Iff.rfl, fun htakes => absurd htakes (by decide)⟩
  · obtain rfl := List.mem_singleton.mp hp
    intro _
    have hcode : (Solo.perform .zeros false (fun _ => 0) bothLoaded.solo.game
        (ctlText "start" false)).1.targetCode = fixedCode := rfl
    show guessDigits (ascii "3333") ≠ (Solo.perform .zeros false (fun _ => 0) bothLoaded.solo.game
      (ctlText "start" false)).1.targetCode ∧ _ ∧ _
    rw [hcode]
    unfold ScoredRight Solo.TotalsRight
    decide +kernel

end Cmsc421.Mastermind
