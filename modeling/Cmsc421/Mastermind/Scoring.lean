import Cmsc421.Mastermind.Guess
import Cmsc421.Mastermind.Control
import Cmsc421.Occurrences
import Cmsc421.Loop
import Mathlib.Algebra.BigOperators.Group.Finset.Piecewise
import Mathlib.Data.Fintype.Fin

/-!
# Cmsc421.Mastermind.Scoring

The score of a guess against the rules of the game.

The rules are `agreements` and `common`: black pegs are the places where guess and code
agree, black and white pegs together are the digits that they have in common.
`mm_write` takes the guess pegs from left to right, looks for each at the first peg of
the code with its digit only, and marks the pegs of the code in the array in which it
looks up whether a guess peg is black.  So it counts a digit once at most, not at all
when the first code peg of the digit is black, and skips a guess peg whose place it has
marked for the code (`UsedUp`).  `looped_scorePegs` says which digits it counts, and
`scoredRight_iff` when that is all there is to count.
-/

namespace Cmsc421.Mastermind

open Finset

/-- The score follows the rules. -/
def ScoredRight (target guess : Code) : Prop :=
  (scorePegs target guess).numBlack = agreements target guess ∧
  (scorePegs target guess).numBlack + (scorePegs target guess).numWhite = common target guess

/-- The first peg of the code with its digit. -/
def FirstPeg (target : Code) (j : Fin NUM_PEGS) : Prop := ∀ i < j, target i ≠ target j

instance (target : Code) (j : Fin NUM_PEGS) : Decidable (FirstPeg target j) :=
  inferInstanceAs (Decidable (∀ i < j, target i ≠ target j))

/-- The place `i` is marked, for the code, before the guess peg there has its turn: the
code peg is the first with its digit, and an earlier guess peg with that digit, neither
black nor marked itself, has been matched with it. -/
def UsedUp (target guess : Code) (i : Fin NUM_PEGS) : Prop :=
  FirstPeg target i ∧
    ∃ j, ∃ _ : j < i, guess j = target i ∧ target j ≠ guess j ∧ ¬ UsedUp target guess j
termination_by i

section loop

variable (target guess : Code)

/-- The digit is one that the loop has counted after `m` rounds. -/
def Counted (m : Nat) (c : Int) : Prop :=
  (∃ j, target j = c ∧ FirstPeg target j ∧ guess j ≠ c) ∧
    ∃ i : Fin NUM_PEGS, i.val < m ∧ guess i = c ∧ target i ≠ c ∧ ¬ UsedUp target guess i

/-- The peg is marked after `m` rounds. -/
def Marked (m : Nat) (j : Fin NUM_PEGS) : Prop :=
  target j = guess j ∨ FirstPeg target j ∧ Counted target guess m (target j)

open Classical in
/-- The digits that it has counted. -/
noncomputable def countedDigits (m : Nat) : Finset Int :=
  {c ∈ univ.image target | Counted target guess m c}

/-- What the loop knows after `m` rounds. -/
structure Looped (m : Nat) (st : Pegs) : Prop where
  white : st.numWhite = #(countedDigits target guess m)
  color : ∀ j, st.pegColor j = true ↔ Marked target guess m j

variable {target guess} {m : Nat} {st : Pegs}

open Classical in
theorem mem_countedDigits {c : Int} :
    c ∈ countedDigits target guess m ↔ Counted target guess m c := by
  rw [countedDigits, mem_filter, and_iff_right_iff_imp]
  rintro ⟨⟨j, hj, -⟩, -⟩
  exact mem_image.mpr ⟨j, mem_univ j, hj⟩

/-- The inner loop comes to the first code peg with the digit, if there is one. -/
theorem matchPeg_eq (digit : Int) (st : Pegs) (js : List (Fin NUM_PEGS)) :
    matchPeg target digit st js =
      match js.find? fun j => target j = digit with
      | none => st
      | some j =>
          if st.pegColor j then st
          else { st with numWhite := st.numWhite + 1, pegColor := Function.update st.pegColor j true } := by
  induction js with
  | nil => rfl
  | cons j js ih =>
      by_cases h : target j = digit
      · rw [matchPeg, if_pos h, List.find?_cons_of_pos (by simpa using h)]
      · rw [matchPeg, if_neg h, List.find?_cons_of_neg (by simpa using h), ih]

theorem find?_target_eq_some {digit : Int} {j : Fin NUM_PEGS}
    (h : (List.finRange NUM_PEGS).find? (fun j => target j = digit) = some j) :
    target j = digit ∧ FirstPeg target j := by
  obtain ⟨hj, i, hi, hij, hbefore⟩ := List.find?_eq_some_iff_getElem.mp h
  have hdigit : target j = digit := of_decide_eq_true hj
  have hval : i = j.val := by simp [← hij]
  refine ⟨hdigit, fun k hk heq => ?_⟩
  have := hbefore k (hval ▸ hk)
  simp [heq, hdigit] at this

theorem find?_target_eq_none {digit : Int}
    (h : (List.finRange NUM_PEGS).find? (fun j => target j = digit) = none) (j : Fin NUM_PEGS) :
    target j ≠ digit := by
  simpa using List.find?_eq_none.mp h j (List.mem_finRange j)

/-- Two first pegs with one digit are the same. -/
theorem FirstPeg.eq {i j : Fin NUM_PEGS} (hi : FirstPeg target i) (hj : FirstPeg target j)
    (h : target i = target j) : i = j := by
  rcases lt_trichotomy i j with hlt | heq | hgt
  · exact absurd h (hj i hlt)
  · exact heq
  · exact absurd h.symm (hi j hgt)

theorem usedUp_iff {i : Fin NUM_PEGS} (hblack : target i ≠ guess i) :
    UsedUp target guess i ↔ Marked target guess i.val i := by
  rw [UsedUp, Marked, Counted, or_iff_right hblack]
  refine and_congr_right fun hfirst => ?_
  constructor
  · rintro ⟨j, hj, hdigit, hne, hturn⟩
    exact ⟨⟨i, rfl, hfirst, hblack.symm⟩, j, hj, hdigit, hdigit ▸ hne, hturn⟩
  · rintro ⟨-, j, hj, hdigit, hne, hturn⟩
    exact ⟨j, hj, hdigit, hdigit ▸ hne, hturn⟩

/-- One more round counts the digit of its guess peg, at most. -/
theorem counted_succ {i : Fin NUM_PEGS} {c : Int} :
    Counted target guess (i.val + 1) c ↔
      Counted target guess i c ∨
        (guess i = c ∧ (∃ j, target j = c ∧ FirstPeg target j ∧ guess j ≠ c) ∧
          target i ≠ c ∧ ¬ UsedUp target guess i) := by
  rw [Counted, exists_lt_succ_iff, and_or_left]
  exact or_congr_right and_left_comm

/-- A round that counts no new digit. -/
theorem Looped.idle {i : Fin NUM_PEGS} (h : Looped target guess i st)
    (hno : ∀ c, Counted target guess (i.val + 1) c → Counted target guess i c) :
    Looped target guess (i.val + 1) st := by
  have hsame : ∀ c, Counted target guess (i.val + 1) c ↔ Counted target guess i c :=
    fun c => ⟨hno c, fun hc => counted_succ.mpr (.inl hc)⟩
  refine ⟨?_, fun j => ?_⟩
  · rw [h.white]
    exact congrArg card (Finset.ext fun c => by rw [mem_countedDigits, mem_countedDigits, hsame])
  · rw [h.color, Marked, Marked, hsame]

/-- A round that counts the digit of its guess peg. -/
theorem Looped.count {i j : Fin NUM_PEGS} (h : Looped target guess i st)
    (hdigit : target j = guess i) (hfirst : FirstPeg target j) (hblack : target i ≠ guess i)
    (hturn : ¬ UsedUp target guess i) (hj : st.pegColor j ≠ true) :
    Looped target guess (i.val + 1)
      { st with numWhite := st.numWhite + 1, pegColor := Function.update st.pegColor j true } := by
  have hfree : ¬ Marked target guess i j := fun hm => hj ((h.color j).mpr hm)
  obtain ⟨hother, hnew⟩ := not_or.mp hfree
  have hnew : ¬ Counted target guess i (guess i) := fun hc => hnew ⟨hfirst, hdigit ▸ hc⟩
  have hcounted : ∀ c, Counted target guess (i.val + 1) c ↔ c = guess i ∨ Counted target guess i c := by
    intro c
    rw [counted_succ]
    constructor
    · rintro (hc | ⟨rfl, -⟩)
      · exact .inr hc
      · exact .inl rfl
    · rintro (rfl | hc)
      · exact .inr ⟨rfl, ⟨j, hdigit, hfirst, fun heq => hother (hdigit.trans heq.symm)⟩, hblack, hturn⟩
      · exact .inl hc
  refine ⟨?_, fun k => ?_⟩
  · have hinsert : countedDigits target guess (i.val + 1) =
        insert (guess i) (countedDigits target guess i) := by
      ext c
      rw [mem_insert, mem_countedDigits, mem_countedDigits, hcounted]
    rw [hinsert, card_insert_of_notMem (by rwa [mem_countedDigits]), ← h.white]
  · by_cases hk : k = j
    · subst hk
      exact iff_of_true (Function.update_self ..) (.inr ⟨hfirst, (hcounted _).mpr (.inl hdigit)⟩)
    · show Function.update st.pegColor j true k = true ↔ _
      rw [Function.update_of_ne hk, h.color, Marked, Marked, hcounted]
      refine or_congr_right (and_congr_right fun hk' => ?_)
      exact (or_iff_right fun heq => hk (hk'.eq hfirst (heq.trans hdigit.symm))).symm

/-- One round. -/
theorem Looped.step {i : Fin NUM_PEGS} (h : Looped target guess i st) :
    Looped target guess (i.val + 1) (whitePeg target guess st i) := by
  unfold whitePeg
  split
  · next hmarked =>
      -- the peg is black, or its place has been marked for the code
      refine h.idle fun c hc => (counted_succ.mp hc).resolve_right ?_
      rintro ⟨rfl, -, hblack, hturn⟩
      exact hturn ((usedUp_iff hblack).mpr ((h.color i).mp hmarked))
  · next hfree =>
      have hnot : ¬ Marked target guess i i := fun hm => hfree ((h.color i).mpr hm)
      have hblack : target i ≠ guess i := fun heq => hnot (.inl heq)
      have hturn : ¬ UsedUp target guess i := fun hu => hnot ((usedUp_iff hblack).mp hu)
      rw [matchPeg_eq]
      split
      · next hnone =>
          refine h.idle fun c hc => (counted_succ.mp hc).resolve_right ?_
          rintro ⟨rfl, ⟨j, hj, -⟩, -⟩
          exact find?_target_eq_none hnone j hj
      · next j hsome =>
          obtain ⟨hdigit, hfirst⟩ := find?_target_eq_some hsome
          split
          · next hj =>
              -- its digit is matched already, or the code peg is black
              refine h.idle fun c hc => (counted_succ.mp hc).elim id ?_
              rintro ⟨rfl, ⟨k, hk, hk', hne⟩, -⟩
              obtain rfl := hk'.eq hfirst (hk.trans hdigit.symm)
              rcases (h.color k).mp hj with hsame | ⟨-, hc⟩
              · exact absurd (hsame.symm.trans hdigit) hne
              · rwa [hdigit] at hc
          · next hj => exact h.count hdigit hfirst hblack hturn hj

/-- The loop over the black pegs counts no white peg and marks the black ones. -/
theorem foldl_blackPeg_marks (is : List (Fin NUM_PEGS)) (st : Pegs) :
    (is.foldl (blackPeg target guess) st).numWhite = st.numWhite ∧
    ∀ j, (is.foldl (blackPeg target guess) st).pegColor j = true ↔
      st.pegColor j = true ∨ j ∈ is ∧ target j = guess j := by
  induction is generalizing st with
  | nil => simp
  | cons i is ih =>
      rw [List.foldl_cons]
      obtain ⟨hwhite, hcolor⟩ := ih (blackPeg target guess st i)
      refine ⟨hwhite.trans (by unfold blackPeg; split <;> rfl), fun j => (hcolor j).trans ?_⟩
      unfold blackPeg
      by_cases h : target i = guess i
      · rw [if_pos h]
        by_cases hj : j = i
        · subst hj
          simp [h]
        · simp [hj]
      · rw [if_neg h]
        by_cases hj : j = i
        · subst hj
          simp [h]
        · simp [hj]

theorem blackPegs_pegColor (j : Fin NUM_PEGS) :
    (blackPegs target guess).pegColor j = true ↔ target j = guess j :=
  ((foldl_blackPeg_marks (List.finRange NUM_PEGS) _).2 j).trans (by simp)

variable (target guess)

theorem blackPegs_numWhite : (blackPegs target guess).numWhite = 0 :=
  (foldl_blackPeg_marks (List.finRange NUM_PEGS) _).1

theorem blackPegs_numBlack : (blackPegs target guess).numBlack = agreements target guess := by
  rw [blackPegs, foldl_blackPeg_numBlack, Nat.zero_add, agreements, List.countP_eq_length_filter]
  rfl

/-- Before the first round. -/
theorem looped_zero : Looped target guess 0 (blackPegs target guess) := by
  have hnone : ∀ c, ¬ Counted target guess 0 c := by
    rintro c ⟨-, i, hi, -⟩
    exact Nat.not_lt_zero _ hi
  refine ⟨(blackPegs_numWhite target guess).trans ?_, fun j => (blackPegs_pegColor j).trans ?_⟩
  · have hempty : countedDigits target guess 0 = ∅ :=
      Finset.eq_empty_of_forall_notMem fun c hc => hnone c (mem_countedDigits.mp hc)
    rw [hempty, card_empty]
  · simp [Marked, hnone]

/-- The whole loop. -/
theorem looped_scorePegs : Looped target guess NUM_PEGS (scorePegs target guess) :=
  foldl_finRange (looped_zero target guess) fun _ _ h => h.step

end loop

/-! ## the score -/

section score

variable (target guess : Code)

theorem numBlack_eq_agreements : (scorePegs target guess).numBlack = agreements target guess := by
  rw [scorePegs, foldl_whitePeg_numBlack, blackPegs_numBlack]

open Classical in
/-- The white pegs, digit by digit. -/
theorem numWhite_eq_sum : (scorePegs target guess).numWhite =
    ∑ c ∈ univ.image target, if Counted target guess NUM_PEGS c then 1 else 0 := by
  rw [(looped_scorePegs target guess).white, countedDigits, card_filter]

variable {target guess}

/-- A digit that is counted is one that both have left. -/
theorem Counted.left {m : Nat} {c : Int} (h : Counted target guess m c) :
    0 < surplus target guess c ∧ 0 < surplus guess target c := by
  obtain ⟨⟨j, hj, -, hne⟩, i, -, hi, hne', -⟩ := h
  exact ⟨surplus_pos.mpr ⟨j, hj, fun heq => hne (heq.symm.trans hj)⟩,
    surplus_pos.mpr ⟨i, hi, fun heq => hne' (heq.symm.trans hi)⟩⟩

/-- What it takes for `mm_write` to count a digit in full: one peg of the code or one of
the guess is all that is left of it, the first code peg with it is not black, and a guess
peg with it, not black either, is not skipped. -/
structure Countable (target guess : Code) (c : Int) : Prop where
  once : min (surplus target guess c) (surplus guess target c) = 1
  first : ∃ j, target j = c ∧ FirstPeg target j ∧ guess j ≠ c
  turn : ∃ i, guess i = c ∧ target i ≠ c ∧ ¬ UsedUp target guess i

theorem counted_iff {c : Int} : Counted target guess NUM_PEGS c ↔
    (∃ j, target j = c ∧ FirstPeg target j ∧ guess j ≠ c) ∧
      ∃ i, guess i = c ∧ target i ≠ c ∧ ¬ UsedUp target guess i :=
  and_congr_right fun _ => exists_congr fun i => and_iff_right i.isLt

open Classical in
/-- No digit is counted more often than both have it. -/
theorem counted_le (c : Int) :
    (if Counted target guess NUM_PEGS c then 1 else 0) ≤
      min (surplus target guess c) (surplus guess target c) := by
  split
  · next hcounted => exact Nat.le_min.mpr hcounted.left
  · exact Nat.zero_le _

variable (target guess)

/-- The score is never too high. -/
theorem score_le_common : (scorePegs target guess).numBlack + (scorePegs target guess).numWhite ≤
    common target guess := by
  classical
  rw [numBlack_eq_agreements, numWhite_eq_sum, common_eq]
  exact Nat.add_le_add_left (sum_le_sum fun c _ => counted_le c) _

/-- **When the score follows the rules**: the black pegs always do, and the white pegs do
iff every digit that code and guess have left can be counted in full. -/
theorem scoredRight_iff :
    ScoredRight target guess ↔
      ∀ c, 0 < surplus target guess c → 0 < surplus guess target c → Countable target guess c := by
  classical
  rw [ScoredRight, and_iff_right (numBlack_eq_agreements target guess),
    numBlack_eq_agreements, numWhite_eq_sum, agreements_add_sum_iff fun c _ => counted_le c]
  constructor
  · intro h c hcode hguess
    obtain ⟨j, hj, -⟩ := surplus_pos.mp hcode
    have hc := h c (mem_image.mpr ⟨j, mem_univ j, hj⟩)
    split at hc
    · next hcounted =>
        obtain ⟨hfirst, hturn⟩ := counted_iff.mp hcounted
        exact ⟨hc.symm, hfirst, hturn⟩
    · omega
  · intro h c _
    split
    · next hcounted => exact (h c hcounted.left.1 hcounted.left.2).once.symm
    · next hnot =>
        by_contra hne
        obtain ⟨hcode, hguess⟩ := Nat.lt_min.mp (Nat.pos_of_ne_zero (Ne.symm hne))
        obtain ⟨-, hfirst, hturn⟩ := h c hcode hguess
        exact hnot (counted_iff.mpr ⟨hfirst, hturn⟩)

end score

/-- The first guess of a game with the code 0012 is 1120: no peg is black, and one of the
three white ones is missed. -/
theorem score_misses :
    Admits (highestDigit (initVars false)) (ascii "1120") 4
        { newGame 1000 [] with gameActive := true } ∧
      (scorePegs fixedCode (guessDigits (ascii "1120"))).numWhite = 2 ∧
      common fixedCode (guessDigits (ascii "1120")) = 3 ∧
      ¬ ScoredRight fixedCode (guessDigits (ascii "1120")) := by
  refine ⟨⟨rfl, by decide, by decide +kernel⟩, by decide +kernel, by decide +kernel, ?_⟩
  rintro ⟨-, hsum⟩
  exact absurd hsum (by decide +kernel)

end Cmsc421.Mastermind
