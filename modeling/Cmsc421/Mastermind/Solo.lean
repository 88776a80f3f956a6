import Cmsc421.Mastermind.Scoring

/-!
# Cmsc421.Mastermind.Solo

`mm_write` of the first project: one game, no players, six colors.

The black pegs are counted as in `mastermind2.c`.  The loop for the white pegs is
another one: it compares each guess peg with every peg of the code, marks those that
match, and does not stop at the first.  So a guess peg, black or not, is paired with
all pegs of the code that have its digit and are not marked yet (`whitesOf_eq`); the
first guess peg with a digit takes them all.
-/

namespace Cmsc421.Mastermind.Solo

open Finset

/-! ## the loops -/

/-- One round of the inner loop, for a guess peg with digit `digit`. -/
def matchCodePeg (target : Code) (digit : Int) (st : Pegs) (j : Fin NUM_PEGS) : Pegs :=
  if st.pegColor j = false then
    if target j = digit then
      { st with numWhite := st.numWhite + 1, pegColor := Function.update st.pegColor j true }
    else st
  else st

/-- One round of the loop that calculates the white pegs. -/
def whitePeg (target guess : Code) (st : Pegs) (i : Fin NUM_PEGS) : Pegs :=
  (List.finRange NUM_PEGS).foldl (matchCodePeg target (guess i)) st

/-- Both loops; the first is that of `mastermind2.c`. -/
def scorePegs (target guess : Code) : Pegs :=
  (List.finRange NUM_PEGS).foldl (whitePeg target guess) (blackPegs target guess)

/-! ## the call -/

/-- The module's state. -/
structure Game where
  gameActive : Bool
  targetCode : Code
  numGuesses : UInt32
  /-- `char game_status[80]` -/
  gameStatus : List UInt8
  /-- the bytes from `user_view` on -/
  userView : List UInt8

/-- `five` -/
def five : Int := 53

/-- `char guess_log[24]` -/
def guessLog : List UInt8 := List.replicate 24 0

/-- The branch of `mm_write` for a valid guess. -/
def scoreGuess (guess : Code) (g : Game) : Game :=
  let numGuesses := g.numGuesses + 1
  let pegs := scorePegs g.targetCode guess
  { g with
    numGuesses := numGuesses
    gameStatus := scnprintf g.gameStatus 41 (guessStatus numGuesses pegs)
    userView := strcat g.userView (scnprintf guessLog 24 (guessLine numGuesses guess pegs)) }

/-- `mm_write()`. -/
def mmWrite (ubuf : List UInt8) (count : Nat) (g : Game) : Game × Except Errno Nat :=
  if g.gameActive = false ∨ count < NUM_PEGS then (g, .error .EINVAL)
  else if ∀ i, digitOk five (userGuess ubuf i) = true then
    (scoreGuess (guessDigits ubuf) g, .ok count)
  else (g, .error .EINVAL)

/-- `mm_write` refuses and changes nothing, or scores the guess. -/
theorem mmWrite_cases (ubuf : List UInt8) (count : Nat) (g : Game) :
    mmWrite ubuf count g = (g, .error .EINVAL) ∨
      g.gameActive = true ∧ NUM_PEGS ≤ count ∧ (∀ i, digitOk five (userGuess ubuf i) = true) ∧
        mmWrite ubuf count g = (scoreGuess (guessDigits ubuf) g, .ok count) := by
  unfold mmWrite
  split
  · exact .inl rfl
  · next h =>
      rw [not_or, Bool.not_eq_false, not_lt] at h
      split
      · next hdigits => exact .inr ⟨h.1, h.2, hdigits, rfl⟩
      · exact .inl rfl

/-! ## what the loops count -/

section loops

variable {target guess : Code} {st : Pegs}

/-- A round of the inner loop at a peg that is not marked and has the digit, … -/
theorem matchCodePeg_of_match {digit : Int} {j : Fin NUM_PEGS}
    (h : st.pegColor j = false ∧ target j = digit) :
    matchCodePeg target digit st j =
      { st with numWhite := st.numWhite + 1, pegColor := Function.update st.pegColor j true } := by
  rw [matchCodePeg, if_pos h.1, if_pos h.2]

/-- … and at another one. -/
theorem matchCodePeg_of_not {digit : Int} {j : Fin NUM_PEGS}
    (h : ¬ (st.pegColor j = false ∧ target j = digit)) : matchCodePeg target digit st j = st := by
  unfold matchCodePeg
  split
  · next hfree => rw [if_neg fun hdigit => h ⟨hfree, hdigit⟩]
  · rfl

/-- The inner loop counts the pegs that match and are not marked, and marks them. -/
theorem foldl_matchCodePeg (target : Code) (digit : Int) (js : List (Fin NUM_PEGS)) (hnodup : js.Nodup)
    (st : Pegs) :
    (js.foldl (matchCodePeg target digit) st).numWhite =
        st.numWhite + js.countP (fun j => st.pegColor j = false ∧ target j = digit) ∧
      ∀ j, (js.foldl (matchCodePeg target digit) st).pegColor j = true ↔
        st.pegColor j = true ∨ j ∈ js ∧ target j = digit := by
  induction js generalizing st with
  | nil => simp
  | cons k js ih =>
      obtain ⟨hk, hjs⟩ := List.nodup_cons.mp hnodup
      obtain ⟨hwhite, hcolor⟩ := ih hjs (matchCodePeg target digit st k)
      rw [List.foldl_cons]
      by_cases hmatch : st.pegColor k = false ∧ target k = digit
      · rw [matchCodePeg_of_match hmatch] at hwhite hcolor ⊢
        constructor
        · -- the pegs to come are not the one that has been marked
          have hrest : js.countP (fun j =>
                Function.update st.pegColor k true j = false ∧ target j = digit) =
              js.countP fun j => st.pegColor j = false ∧ target j = digit :=
            List.countP_congr fun j hj => by
              rw [Function.update_of_ne (ne_of_mem_of_not_mem hj hk)]
          dsimp only at hwhite
          rw [hwhite, hrest, List.countP_cons_of_pos (by simpa using hmatch), Nat.add_assoc,
            Nat.add_comm 1]
        · intro j
          rw [hcolor j]
          by_cases hj : j = k
          · subst hj
            simp [hmatch.2]
          · simp [hj]
      · rw [matchCodePeg_of_not hmatch] at hwhite hcolor ⊢
        constructor
        · rw [hwhite, List.countP_cons_of_neg (by simpa using hmatch)]
        · intro j
          rw [hcolor j]
          by_cases hj : j = k
          · subst hj
            rcases Bool.eq_false_or_eq_true (st.pegColor j) with hmarked | hfree
            · simp [hmarked]
            · have hne : target j ≠ digit := fun h => hmatch ⟨hfree, h⟩
              simp [hne]
          · simp [hj]

/-- One round. -/
theorem whitePeg_eq (target guess : Code) (st : Pegs) (i : Fin NUM_PEGS) :
    (whitePeg target guess st i).numWhite =
        st.numWhite + #{j | st.pegColor j = false ∧ target j = guess i} ∧
      ∀ j, (whitePeg target guess st i).pegColor j = true ↔
        st.pegColor j = true ∨ target j = guess i := by
  obtain ⟨hwhite, hcolor⟩ := foldl_matchCodePeg target (guess i) (List.finRange NUM_PEGS)
    (List.nodup_finRange NUM_PEGS) st
  refine ⟨?_, fun j => ?_⟩
  · rw [whitePeg, hwhite, List.countP_eq_length_filter]
    rfl
  · rw [whitePeg, hcolor j]
    simp

/-- The code peg has the digit of a guess peg that has had its turn. -/
def Reached (target guess : Code) (m : Nat) (j : Fin NUM_PEGS) : Prop :=
  ∃ k : Fin NUM_PEGS, k.val < m ∧ guess k = target j

instance (m : Nat) (j : Fin NUM_PEGS) : Decidable (Reached target guess m j) :=
  inferInstanceAs (Decidable (∃ k : Fin NUM_PEGS, k.val < m ∧ guess k = target j))

/-- What the loop knows after `m` rounds. -/
structure Paired (target guess : Code) (m : Nat) (st : Pegs) : Prop where
  white : st.numWhite = #{j | target j ≠ guess j ∧ Reached target guess m j}
  color : ∀ j, st.pegColor j = true ↔ target j = guess j ∨ Reached target guess m j

theorem reached_succ {i j : Fin NUM_PEGS} :
    Reached target guess (i.val + 1) j ↔ Reached target guess i j ∨ target j = guess i := by
  rw [Reached, exists_lt_succ_iff, eq_comm (a := guess i)]
  rfl

theorem not_reached_zero (j : Fin NUM_PEGS) : ¬ Reached target guess 0 j := by
  rintro ⟨k, hk, -⟩
  exact Nat.not_lt_zero _ hk

/-- The pegs that a round marks. -/
theorem Paired.free_iff {m : Nat} (h : Paired target guess m st) (j : Fin NUM_PEGS) :
    st.pegColor j = false ↔ target j ≠ guess j ∧ ¬ Reached target guess m j := by
  rw [← not_or, ← h.color, Bool.not_eq_true]

/-- One round. -/
theorem Paired.step {i : Fin NUM_PEGS} (h : Paired target guess i st) :
    Paired target guess (i.val + 1) (whitePeg target guess st i) := by
  obtain ⟨hwhite, hcolor⟩ := whitePeg_eq target guess st i
  constructor
  · have hsplit : ({j | target j ≠ guess j ∧ Reached target guess (i.val + 1) j} : Finset (Fin NUM_PEGS)) =
        ({j | target j ≠ guess j ∧ Reached target guess i j} : Finset (Fin NUM_PEGS)) ∪
          ({j | st.pegColor j = false ∧ target j = guess i} : Finset (Fin NUM_PEGS)) := by
      ext j
      simp only [mem_union, mem_filter, mem_univ, true_and, reached_succ, h.free_iff]
      tauto
    have hdisj : Disjoint ({j | target j ≠ guess j ∧ Reached target guess i j} : Finset (Fin NUM_PEGS))
        ({j | st.pegColor j = false ∧ target j = guess i} : Finset (Fin NUM_PEGS)) := by
      refine disjoint_filter.mpr fun j _ hj hfree => ?_
      exact ((h.free_iff j).mp hfree.1).2 hj.2
    rw [hwhite, h.white, hsplit, card_union_of_disjoint hdisj]
  · intro j
    rw [hcolor, h.color, reached_succ, or_assoc]

variable (target guess)

/-- Before the first round. -/
theorem paired_zero : Paired target guess 0 (blackPegs target guess) := by
  refine ⟨(blackPegs_numWhite target guess).trans ?_, fun j => (blackPegs_pegColor j).trans ?_⟩
  · simp [not_reached_zero]
  · simp [not_reached_zero]

/-- Every round. -/
theorem paired_roundsOf {m : Nat} (hm : m ≤ NUM_PEGS) :
    Paired target guess m (roundsOf (whitePeg target guess) m (blackPegs target guess)) :=
  roundsOf_inv (paired_zero target guess) (fun _ _ h => h.step) hm

/-- The whole loop. -/
theorem paired_scorePegs : Paired target guess NUM_PEGS (scorePegs target guess) :=
  foldl_finRange (paired_zero target guess) fun _ _ h => h.step

end loops

/-! ## the score -/

/-- The white pegs that the loop counts for one peg of the guess. -/
def whitesOf (target guess : Code) (i : Fin NUM_PEGS) : Nat :=
  (roundsOf (whitePeg target guess) (i.val + 1) (blackPegs target guess)).numWhite -
    (roundsOf (whitePeg target guess) i.val (blackPegs target guess)).numWhite

/-- The pegs, black and white, that one peg of the guess yields. -/
def pegsOf (target guess : Code) (i : Fin NUM_PEGS) : Nat :=
  (if target i = guess i then 1 else 0) + whitesOf target guess i

/-- The totals follow the rules. -/
def TotalsRight (target guess : Code) : Prop :=
  (scorePegs target guess).numBlack = agreements target guess ∧
    (scorePegs target guess).numBlack + (scorePegs target guess).numWhite = common target guess

/-- The score follows the rules, peg by peg. -/
def PegsRight (target guess : Code) : Prop :=
  TotalsRight target guess ∧ ∀ i, pegsOf target guess i ≤ 1

section score

variable {target guess : Code}

/-- **A guess peg takes all that is left of its digit**: the first with it does, and leaves
nothing for the others. -/
theorem whitesOf_eq (i : Fin NUM_PEGS) :
    whitesOf target guess i =
      if FirstPeg guess i then surplus target guess (guess i) else 0 := by
  have hpaired := paired_roundsOf target guess i.isLt.le
  rw [whitesOf, roundsOf_succ _ i.isLt, (whitePeg_eq ..).1, Nat.add_sub_cancel_left]
  split
  · next hfirst =>
      refine congrArg card (filter_congr fun j _ => ?_)
      rw [hpaired.free_iff, and_comm]
      refine and_congr_right fun hdigit => and_iff_left ?_
      rintro ⟨k, hk, heq⟩
      exact hfirst k hk (heq.trans hdigit)
  · next hlater =>
      obtain ⟨k, hk, heq⟩ : ∃ k < i, guess k = guess i := by
        simpa [FirstPeg] using hlater
      refine card_eq_zero.mpr (filter_eq_empty_iff.mpr fun j _ => ?_)
      rintro ⟨hfree, hdigit⟩
      exact ((hpaired.free_iff j).mp hfree).2 ⟨k, hk, heq.trans hdigit.symm⟩

/-- The first guess peg with the digit of another. -/
theorem exists_firstPeg (guess : Code) (i : Fin NUM_PEGS) :
    ∃ k, FirstPeg guess k ∧ guess k = guess i := by
  cases h : (List.finRange NUM_PEGS).find? fun k => guess k = guess i with
  | none => exact absurd rfl (find?_target_eq_none h i)
  | some k =>
      obtain ⟨hdigit, hfirst⟩ := find?_target_eq_some h
      exact ⟨k, hfirst, hdigit⟩

theorem matchCodePeg_numBlack (digit : Int) (st : Pegs) (j : Fin NUM_PEGS) :
    (matchCodePeg target digit st j).numBlack = st.numBlack := by
  unfold matchCodePeg
  split
  · split <;> rfl
  · rfl

theorem whitePeg_numBlack (st : Pegs) (i : Fin NUM_PEGS) :
    (whitePeg target guess st i).numBlack = st.numBlack :=
  foldl_keeps (p := Pegs.numBlack) (matchCodePeg_numBlack (guess i)) _ st

variable (target guess)

/-- The black pegs are the places where code and guess agree. -/
theorem numBlack_eq : (scorePegs target guess).numBlack = agreements target guess := by
  rw [scorePegs, foldl_keeps (p := Pegs.numBlack) whitePeg_numBlack, blackPegs_numBlack]

/-- The white pegs, digit by digit: all that is left in the code of the digits that the
guess has. -/
theorem numWhite_eq : (scorePegs target guess).numWhite =
    ∑ c ∈ univ.image target, if c ∈ univ.image guess then surplus target guess c else 0 := by
  rw [(paired_scorePegs target guess).white, card_eq_sum_card_fiberwise (f := target)
    fun j _ => mem_image_of_mem target (mem_univ j)]
  refine sum_congr rfl fun c _ => ?_
  rw [filter_filter]
  split
  · next hc =>
      obtain ⟨k, -, hk⟩ := mem_image.mp hc
      refine congrArg card (filter_congr fun j _ => ?_)
      constructor
      · rintro ⟨⟨hne, -⟩, hdigit⟩
        exact ⟨hdigit, hne⟩
      · rintro ⟨hdigit, hne⟩
        exact ⟨⟨hne, k, k.isLt, hk.trans hdigit.symm⟩, hdigit⟩
  · next hc =>
      refine card_eq_zero.mpr (filter_eq_empty_iff.mpr fun j _ => ?_)
      rintro ⟨⟨-, k, -, hk⟩, hdigit⟩
      exact hc (mem_image.mpr ⟨k, mem_univ k, hk.trans hdigit⟩)

/-- The totals are right iff the code has no digit of the guess more often than the guess. -/
theorem totalsRight_iff :
    TotalsRight target guess ↔ ∀ i, occ target (guess i) ≤ occ guess (guess i) := by
  rw [TotalsRight, and_iff_right (numBlack_eq target guess), numBlack_eq, numWhite_eq,
    agreements_add_sum_iff_of_ge]
  · constructor
    · intro h i
      rw [← surplus_le_iff]
      by_cases hi : guess i ∈ univ.image target
      · have hc := h _ hi
        rw [if_pos (mem_image_of_mem guess (mem_univ i))] at hc
        omega
      · rw [surplus_eq_zero hi]
        exact Nat.zero_le _
    · intro h c _
      split
      · next hc =>
          obtain ⟨i, -, rfl⟩ := mem_image.mp hc
          exact (Nat.min_eq_left (surplus_le_iff.mpr (h i))).symm
      · next hc => rw [surplus_eq_zero hc, Nat.min_zero]
  · intro c _
    split
    · exact Nat.min_le_left ..
    · next hc => rw [surplus_eq_zero hc, Nat.min_zero]

/-- Of each digit of the guess at most one peg of the code is left, and none is when the
first guess peg with the digit is black. -/
def OneLeft (target guess : Code) : Prop :=
  ∀ i, FirstPeg guess i → surplus target guess (guess i) ≤ if target i = guess i then 0 else 1

/-- No guess peg yields more than one peg. -/
theorem pegsOf_le_iff : (∀ i, pegsOf target guess i ≤ 1) ↔ OneLeft target guess := by
  refine forall_congr' fun i => ?_
  rw [pegsOf, whitesOf_eq]
  by_cases hfirst : FirstPeg guess i
  · rw [if_pos hfirst, forall_prop_of_true hfirst]
    split <;> omega
  · rw [if_neg hfirst]
    refine iff_of_true ?_ fun h => absurd h hfirst
    split <;> omega

/-- Then the totals are right as well. -/
theorem OneLeft.totalsRight (h : OneLeft target guess) : TotalsRight target guess := by
  refine (totalsRight_iff target guess).mpr fun i => ?_
  obtain ⟨k, hfirst, hk⟩ := exists_firstPeg guess i
  have hleft := h k hfirst
  rw [hk] at hleft
  rw [← surplus_le_iff]
  split at hleft
  · omega
  · next hne =>
      -- the first guess peg with the digit is left over as well
      have hpos : 0 < surplus guess target (guess i) := surplus_pos.mpr ⟨k, hk, fun heq => hne (heq.symm.trans hk)⟩
      omega

/-- **When the score follows the rules.** -/
theorem pegsRight_iff : PegsRight target guess ↔ OneLeft target guess := by
  rw [PegsRight, pegsOf_le_iff]
  exact and_iff_right_of_imp (OneLeft.totalsRight target guess)

end score

/-- A game with the code 0012. -/
def startedGame : Game where
  gameActive := true
  targetCode := fixedCode
  numGuesses := 0
  gameStatus := scnprintf (List.replicate 80 0) 15 (ascii "Starting game\n")
  userView := List.replicate 80 0

/-- The guess 0111 for the code 0012 has two black pegs and no white one.  Its 0, which is
black, counts as a white peg as well, for the other 0 of the code. -/
theorem black_peg_counted_again :
    (mmWrite (ascii "0111") 4 startedGame).2 = .ok 4 ∧
      cstr (mmWrite (ascii "0111") 4 startedGame).1.gameStatus =
        ascii "Guess 1: 2 black peg(s), 1 white peg(s)\n" ∧
      agreements fixedCode (guessDigits (ascii "0111")) = 2 ∧
      common fixedCode (guessDigits (ascii "0111")) = 2 ∧
      pegsOf fixedCode (guessDigits (ascii "0111")) 0 = 2 ∧
      ¬ PegsRight fixedCode (guessDigits (ascii "0111")) := by
  refine ⟨by decide +kernel, by decide +kernel, by decide +kernel, by decide +kernel,
    by decide +kernel, ?_⟩
  rintro ⟨-, hpegs⟩
  exact absurd (hpegs 0) (by decide +kernel)

end Cmsc421.Mastermind.Solo
