import Cmsc421.Loop
import Cmsc421.Mastermind.Game

/-!
# Cmsc421.Mastermind.Guess

`mm_write`: a guess is read, checked, scored and logged.

The locked section is one function of the entry and the target code; it never
touches the scalars.  `mmWrite_cases` says all it can do — refuse and change
nothing, or score an admitted guess — and `numBlack_eq_iff` that the branch
which ends the game is taken exactly for the target code itself.
-/

namespace Cmsc421.Mastermind

/-! ## scoring -/

/-- `num_black`, `num_white` and `peg_color` while a guess is scored. -/
structure Pegs where
  numBlack : Nat
  numWhite : Nat
  pegColor : Fin NUM_PEGS → Bool

/-- One round of the loop that calculates the black pegs. -/
def blackPeg (target guess : Code) (st : Pegs) (i : Fin NUM_PEGS) : Pegs :=
  if target i = guess i then
    { st with numBlack := st.numBlack + 1, pegColor := Function.update st.pegColor i true }
  else st

/-- The loop that calculates the black pegs. -/
def blackPegs (target guess : Code) : Pegs :=
  (List.finRange NUM_PEGS).foldl (blackPeg target guess) ⟨0, 0, fun _ => false⟩

/-- The inner loop over the target code, for a guess peg with digit `digit`: it
breaks at the first equal digit, and counts it unless its peg is marked. -/
def matchPeg (target : Code) (digit : Int) (st : Pegs) : List (Fin NUM_PEGS) → Pegs
  | [] => st
  | j :: js =>
      if target j = digit then
        if st.pegColor j then st
        else { st with numWhite := st.numWhite + 1, pegColor := Function.update st.pegColor j true }
      else matchPeg target digit st js

/-- One round of the loop that calculates the white pegs. -/
def whitePeg (target guess : Code) (st : Pegs) (i : Fin NUM_PEGS) : Pegs :=
  if st.pegColor i then st else matchPeg target (guess i) st (List.finRange NUM_PEGS)

/-- Both loops. -/
def scorePegs (target guess : Code) : Pegs :=
  (List.finRange NUM_PEGS).foldl (whitePeg target guess) (blackPegs target guess)

/-! ## the call -/

/-- `user_guess` after `copy_from_user`, whose result is ignored: the bytes that
could not be read are still zero from the `memset`. -/
def userGuess (ubuf : List UInt8) : Fin NUM_PEGS → Int := fun i =>
  schar ((copyFromUser (List.replicate NUM_PEGS 0) ubuf NUM_PEGS).1.getD i 0)

/-- `user_guess` once every character has been converted to its digit. -/
def guessDigits (ubuf : List UInt8) : Code := fun i => userGuess ubuf i - zeroAscii

/-- The line of a guess that does not end the game, before `scnprintf` cuts it. -/
def guessLine (numGuesses : UInt32) (guess : Code) (pegs : Pegs) : List UInt8 :=
  ascii "Guess " ++ decimal (int32 numGuesses.toNat) ++ ascii ": " ++
    decimal (guess 0) ++ decimal (guess 1) ++ decimal (guess 2) ++ decimal (guess 3) ++
    ascii "  | B" ++ decimal pegs.numBlack ++ ascii " W" ++ decimal pegs.numWhite ++ ascii "\n"

/-- The status of a guess that does not end the game, before `scnprintf` cuts it. -/
def guessStatus (numGuesses : UInt32) (pegs : Pegs) : List UInt8 :=
  ascii "Guess " ++ decimal (int32 numGuesses.toNat) ++ ascii ": " ++
    decimal pegs.numBlack ++ ascii " black peg(s), " ++
    decimal pegs.numWhite ++ ascii " white peg(s)\n"

/-- `char guess_log[30]`; what it holds before `scnprintf` stands behind the NUL
afterwards and is not read. -/
def guessLog : List UInt8 := List.replicate 30 0

/-- The branch of `mm_write` for a valid guess: count it, score it, update the
status and append to the log. -/
def scoreGuess (count : Nat) (guess : Code) (v : Vars) (g : MmGame) : Outcome :=
  let numGuesses := g.numGuesses + 1
  let pegs := scorePegs v.targetCode guess
  if pegs.numBlack = NUM_PEGS then
    { vars := v
      game :=
        { g with
          gameActive := false
          numGuesses := numGuesses
          gameStatus := scnprintf g.gameStatus 20 (ascii "Correct! Game over\n")
          userView := strcat g.userView (scnprintf guessLog 26 (ascii "Correct Guess! Game over\n")) }
      result := .ret (.ok count) }
  else
    { vars := v
      game :=
        { g with
          numGuesses := numGuesses
          gameStatus := scnprintf g.gameStatus 41 (guessStatus numGuesses pegs)
          userView := strcat g.userView (scnprintf guessLog 24 (guessLine numGuesses guess pegs)) }
      result := .ret (.ok count) }

/-- The locked section of `mm_write`, with the bound that was read into
`highest_digit` before the lock was taken. -/
def mmWrite (highest : Int) (ubuf : List UInt8) (count : Nat) (v : Vars) (g : MmGame) : Outcome :=
  if g.gameActive = false ∨ count < NUM_PEGS then refuse .EINVAL v g
  else if ∀ i, digitOk highest (userGuess ubuf i) = true then
    scoreGuess count (guessDigits ubuf) v g
  else refuse .EINVAL v g

/-! ## what the call does -/

/-- The guess is admitted: the game is active, there are enough bytes and every
character is in range. -/
def Admits (highest : Int) (ubuf : List UInt8) (count : Nat) (g : MmGame) : Prop :=
  g.gameActive = true ∧ NUM_PEGS ≤ count ∧ ∀ i, digitOk highest (userGuess ubuf i) = true

/-- `mm_write` refuses and changes nothing, or scores an admitted guess. -/
theorem mmWrite_cases (highest : Int) (ubuf : List UInt8) (count : Nat) (v : Vars) (g : MmGame) :
    (¬ Admits highest ubuf count g ∧ mmWrite highest ubuf count v g = refuse .EINVAL v g) ∨
    (Admits highest ubuf count g ∧
      mmWrite highest ubuf count v g = scoreGuess count (guessDigits ubuf) v g) := by
  unfold mmWrite Admits
  split
  · next h =>
      refine .inl ⟨?_, rfl⟩
      rintro ⟨ha, hc, -⟩
      rcases h with h | h
      · simp [ha] at h
      · omega
  · next h =>
      rw [not_or, Bool.not_eq_false, not_lt] at h
      split
      · next hd => exact .inr ⟨⟨h.1, h.2, hd⟩, rfl⟩
      · next hd => exact .inl ⟨fun hadm => hd hadm.2.2, rfl⟩

/-- An admitted guess is the only one that is not answered with an error. -/
theorem mmWrite_result (highest : Int) (ubuf : List UInt8) (count : Nat) (v : Vars) (g : MmGame) :
    (mmWrite highest ubuf count v g).result = .ret (.ok count) ↔ Admits highest ubuf count g := by
  obtain ⟨hadm, h⟩ | ⟨hadm, h⟩ := mmWrite_cases highest ubuf count v g
  · simp [h, hadm, refuse]
  · rw [h]
    simp only [scoreGuess]
    split <;> simp [hadm]

@[simp] theorem scoreGuess_vars (count : Nat) (guess : Code) (v : Vars) (g : MmGame) :
    (scoreGuess count guess v g).vars = v := by
  simp only [scoreGuess]
  split <;> rfl

@[simp] theorem scoreGuess_playerId (count : Nat) (guess : Code) (v : Vars) (g : MmGame) :
    (scoreGuess count guess v g).game.playerId = g.playerId := by
  simp only [scoreGuess]
  split <;> rfl

@[simp] theorem scoreGuess_numGuesses (count : Nat) (guess : Code) (v : Vars) (g : MmGame) :
    (scoreGuess count guess v g).game.numGuesses = g.numGuesses + 1 := by
  simp only [scoreGuess]
  split <;> rfl

@[simp] theorem scoreGuess_result (count : Nat) (guess : Code) (v : Vars) (g : MmGame) :
    (scoreGuess count guess v g).result = .ret (.ok count) := by
  simp only [scoreGuess]
  split <;> rfl

/-- `mm_write` leaves the scalars alone, the target code among them. -/
@[simp] theorem mmWrite_vars (highest : Int) (ubuf : List UInt8) (count : Nat) (v : Vars)
    (g : MmGame) : (mmWrite highest ubuf count v g).vars = v := by
  obtain ⟨-, h⟩ | ⟨-, h⟩ := mmWrite_cases highest ubuf count v g
  · rw [h]; rfl
  · rw [h, scoreGuess_vars]

@[simp] theorem mmWrite_playerId (highest : Int) (ubuf : List UInt8) (count : Nat) (v : Vars)
    (g : MmGame) : (mmWrite highest ubuf count v g).game.playerId = g.playerId := by
  obtain ⟨-, h⟩ | ⟨-, h⟩ := mmWrite_cases highest ubuf count v g
  · rw [h]; rfl
  · rw [h, scoreGuess_playerId]

/-! ## black pegs -/

theorem matchPeg_numBlack (target : Code) (digit : Int) (st : Pegs) (js : List (Fin NUM_PEGS)) :
    (matchPeg target digit st js).numBlack = st.numBlack := by
  induction js with
  | nil => rfl
  | cons j js ih =>
      unfold matchPeg
      split
      · split <;> rfl
      · exact ih

/-- The second loop keeps the number of black pegs. -/
theorem foldl_whitePeg_numBlack (target guess : Code) (is : List (Fin NUM_PEGS)) (st : Pegs) :
    (is.foldl (whitePeg target guess) st).numBlack = st.numBlack := by
  refine foldl_keeps (p := Pegs.numBlack) (fun t i => ?_) is st
  unfold whitePeg
  split
  · rfl
  · exact matchPeg_numBlack _ _ _ _

/-- The first loop counts the positions where code and guess agree. -/
theorem foldl_blackPeg_numBlack (target guess : Code) (is : List (Fin NUM_PEGS)) (st : Pegs) :
    (is.foldl (blackPeg target guess) st).numBlack =
      st.numBlack + is.countP fun i => target i = guess i := by
  induction is generalizing st with
  | nil => rfl
  | cons i is ih =>
      rw [List.foldl_cons, ih, List.countP_cons]
      unfold blackPeg
      by_cases h : target i = guess i
      · simp [h]
        omega
      · simp [h]

theorem numBlack_eq_countP (target guess : Code) :
    (scorePegs target guess).numBlack =
      (List.finRange NUM_PEGS).countP fun i => target i = guess i := by
  rw [scorePegs, foldl_whitePeg_numBlack, blackPegs, foldl_blackPeg_numBlack, Nat.zero_add]

/-- All pegs are black exactly for the target code. -/
theorem numBlack_eq_iff (target guess : Code) :
    (scorePegs target guess).numBlack = NUM_PEGS ↔ guess = target := by
  have hall := List.countP_eq_length (p := fun i => decide (target i = guess i))
    (l := List.finRange NUM_PEGS)
  rw [List.length_finRange] at hall
  rw [numBlack_eq_countP, hall]
  constructor
  · intro h
    funext i
    exact (of_decide_eq_true (h i (List.mem_finRange i))).symm
  · rintro rfl i -
    simp

/-- A scored guess leaves the game active unless it is the target code. -/
theorem scoreGuess_gameActive (count : Nat) (guess : Code) (v : Vars) (g : MmGame) :
    (scoreGuess count guess v g).game.gameActive = true ↔
      g.gameActive = true ∧ guess ≠ v.targetCode := by
  simp only [scoreGuess]
  split
  · next h => simp [(numBlack_eq_iff _ _).mp h]
  · next h =>
      have hne : guess ≠ v.targetCode := fun heq => h ((numBlack_eq_iff _ _).mpr heq)
      simp [hne]

end Cmsc421.Mastermind
