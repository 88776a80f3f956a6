import Cmsc421.Supply
import Cmsc421.Quiz.Board

/-!
# Cmsc421.Quiz.Show

The quiz as its audience sees it.

`quiz` is a machine whose labels are the printed lines: the clues come in order, after a
clue different contestants fail at it one after the other, and it ends with a right
answer, or when all of them have failed, with the correct response.  There are no
threads in it.  A list of lines is a transcript when the machine runs along it to the
end.  The questions that are given come of random numbers, one for every clue and answer
(`Drawn`).

`Printed` ties the machine to the board of the programs.  Each section of the programs
keeps it, with the line that the section prints as a step of the machine.
-/

namespace Cmsc421.Quiz

variable {N : Nat}

/-- Where the show is. -/
inductive Stage (N : Nat)
  /-- before the next clue, if there is one -/
  | idle
  /-- after a clue at which these contestants have failed -/
  | guessing (failed : List (Fin N))
  /-- all have failed, and the correct response comes next -/
  | failed
  deriving DecidableEq

/-- The clue that is open or comes next, and where the show is. -/
structure Show (N : Nat) where
  num : Nat
  stage : Stage N
  deriving DecidableEq

/-- The show goes on with a line, if that line can come next. -/
def Show.next (K : Nat) (sh : Show N) (l : Line N) : Option (Show N) :=
  match sh.stage, l with
  | .idle, .clue num => if num = sh.num ∧ num < K then some ⟨sh.num, .guessing []⟩ else none
  | .guessing failed, .answer who ans correct =>
      if who ∉ failed ∧ ans < K ∧ correct = decide (ans = sh.num) then
        some (if correct then ⟨sh.num + 1, .idle⟩
          else if failed.length + 1 < N then ⟨sh.num, .guessing (failed ++ [who])⟩
          else ⟨sh.num, .failed⟩)
      else none
  | .failed, .response num => if num = sh.num then some ⟨sh.num + 1, .idle⟩ else none
  | _, _ => none

/-- The quiz with `N` contestants and `K` clues. -/
def quiz (N K : Nat) : Machine (Show N) (Line N) where
  init sh := sh = ⟨0, .idle⟩
  step := Show.next K

/-- The show after some lines. -/
def after (K : Nat) (lines : List (Line N)) : Option (Show N) := (quiz N K).exec ⟨0, .idle⟩ lines

/-- The lines of a quiz from the first clue to the end of the last. -/
def IsTranscript (K : Nat) (lines : List (Line N)) : Prop := after K lines = some ⟨K, .idle⟩

instance (K : Nat) (lines : List (Line N)) : Decidable (IsTranscript K lines) :=
  inferInstanceAs (Decidable (after K lines = _))

/-- The final scores, as they are printed: each is the sum of the points, as an `int`. -/
def standings (lines : List (Line N)) : List (Line N) :=
  List.ofFn fun c => .standing c (int32 (pointsOf (tally lines).entries c))

/-- What is printed at the end: the scores, behind their heading. -/
def scores (lines : List (Line N)) : List (Line N) := .heading :: standings lines

/-- Alex or a contestant draws a random number at the line: for the pause after a clue, or
for the answer. -/
def Line.draws : Line N → Bool
  | .clue _ | .answer _ _ _ => true
  | .response _ | .heading | .standing _ _ => false

/-- The line comes of the random number that is drawn at it. -/
def Line.ComesOf (K : Nat) : Line N → UInt32 → Prop
  | .answer _ ans _, rnd => ans = rnd.toNat % K
  | _, _ => True

instance (K : Nat) : ∀ (l : Line N) (rnd : UInt32), Decidable (l.ComesOf K rnd)
  | .answer _ ans _, rnd => inferInstanceAs (Decidable (ans = rnd.toNat % K))
  | .clue _, _ | .response _, _ | .heading, _ | .standing _ _, _ => .isTrue trivial

/-- The lines come of these random numbers, one after the other. -/
def Drawn (K : Nat) (rnd : Nat → UInt32) (lines : List (Line N)) : Prop :=
  Matched (Line.ComesOf K) rnd (lines.filter Line.draws)

instance (K : Nat) (rnd : Nat → UInt32) (lines : List (Line N)) : Decidable (Drawn K rnd lines) :=
  inferInstanceAs (Decidable (Matched _ _ _))

/-- Two contestants, two clues: the second answers the first clue right, and both fail at
the second one. -/
example : IsTranscript 2 ([.clue 0, .answer 1 0 true, .clue 1, .answer 0 0 false,
    .answer 1 0 false, .response 1] : List (Line 2)) := by
  decide

theorem counted_true (N : Nat) : counted (fun _ : Fin N => true) = N := by simp [counted]

/-- Any question can come out of the random numbers. -/
theorem exists_rnd {K ans : Nat} (hans : ans < K) (hK : K < 2 ^ 32) :
    ∃ rnd : UInt32, rnd.toNat % K = ans := by
  refine ⟨UInt32.ofNat ans, ?_⟩
  rw [UInt32.toNat_ofNat', Nat.mod_eq_of_lt (b := 2 ^ 32) (by omega), Nat.mod_eq_of_lt hans]

/-! ## running along the lines -/

section after

variable {K : Nat} {lines : List (Line N)}

theorem after_nil (K : Nat) : after K ([] : List (Line N)) = some ⟨0, .idle⟩ := rfl

/-- One more line. -/
theorem after_concat {sh : Show N} (h : after K lines = some sh) (l : Line N) :
    after K (lines ++ [l]) = sh.next K l := by
  rw [after, Machine.exec_append, ← after, h, Option.bind_some]
  simp [Machine.exec, quiz]

/-- **All that can come next.** -/
inductive Turn (K : Nat) : Show N → Line N → Show N → Prop
  | clue {n : Nat} (hn : n < K) : Turn K ⟨n, .idle⟩ (.clue n) ⟨n, .guessing []⟩
  | answer {n : Nat} {failed : List (Fin N)} {c : Fin N} {ans : Nat} (hc : c ∉ failed)
      (hans : ans < K) :
      Turn K ⟨n, .guessing failed⟩ (.answer c ans (decide (ans = n)))
        (if ans = n then ⟨n + 1, .idle⟩
          else if failed.length + 1 < N then ⟨n, .guessing (failed ++ [c])⟩ else ⟨n, .failed⟩)
  | response {n : Nat} : Turn K ⟨n, .failed⟩ (.response n) ⟨n + 1, .idle⟩

/-- Every line that can come next is one of these. -/
theorem next_cases {sh sh' : Show N} {l : Line N} (h : sh.next K l = some sh') : Turn K sh l sh' := by
  obtain ⟨n, stage⟩ := sh
  unfold Show.next at h
  split at h
  · next num hstage =>
      obtain rfl : stage = .idle := hstage
      split at h
      · next hclue =>
          obtain ⟨rfl, hn⟩ := hclue
          obtain rfl := Option.some.inj h
          exact .clue hn
      · contradiction
  · next failed who ans correct hstage =>
      obtain rfl : stage = .guessing failed := hstage
      split at h
      · next hanswer =>
          obtain ⟨hwho, hans, rfl⟩ := hanswer
          obtain rfl := Option.some.inj h
          simpa using Turn.answer (n := n) hwho hans
      · contradiction
  · next num hstage =>
      obtain rfl : stage = .failed := hstage
      split at h
      · next hnum =>
          subst hnum
          obtain rfl := Option.some.inj h
          exact .response
      · contradiction
  · contradiction

/-- No more than the clues there are. -/
theorem Turn.num_le {sh sh' : Show N} {l : Line N} (h : Turn K sh l sh') (hle : sh.num ≤ K)
    (hlt : sh.stage ≠ .idle → sh.num < K) :
    sh'.num ≤ K ∧ (sh'.stage ≠ .idle → sh'.num < K) := by
  cases h with
  | clue hn => exact ⟨hle, fun _ => hn⟩
  | answer =>
      have hopen := hlt nofun
      split
      · exact ⟨hopen, fun hne => absurd rfl hne⟩
      · split <;> exact ⟨hle, fun _ => hopen⟩
  | response => exact ⟨hlt nofun, fun hne => absurd rfl hne⟩

theorem num_le_of_after {sh : Show N} (h : after K lines = some sh) :
    sh.num ≤ K ∧ (sh.stage ≠ .idle → sh.num < K) := by
  induction lines using List.reverseRecOn generalizing sh with
  | nil =>
      obtain rfl := Option.some.inj h
      exact ⟨Nat.zero_le K, fun hne => absurd rfl hne⟩
  | append_singleton lines l ih =>
      rw [after, Machine.exec_append] at h
      obtain ⟨sh', hsh', hl⟩ := Option.bind_eq_some_iff.mp h
      obtain ⟨hle, hlt⟩ := ih hsh'
      exact (next_cases (by simpa [Machine.exec, quiz] using hl)).num_le hle hlt

end after

theorem length_scores (lines : List (Line N)) : (scores lines).length = N + 1 := by
  simp [scores, standings]

/-- The lines of the scores are not part of the ledger, … -/
theorem tally_append_scores (lines : List (Line N)) (k : Nat) (lines' : List (Line N)) :
    tally (lines' ++ (scores lines).take k) = tally lines' := by
  induction k with
  | zero => rw [List.take_zero, List.append_nil]
  | succ k ih =>
      by_cases hk : k < (scores lines).length
      · rw [List.take_add_one, List.getElem?_eq_getElem hk, Option.toList_some, ← List.append_assoc,
          tally_concat, ih]
        cases k <;> simp [scores, standings, Tally.next]
      · rw [List.take_of_length_le (by omega), ← ih, List.take_of_length_le (by omega)]

/-- … and nothing is drawn for them. -/
theorem drawn_append_scores {K : Nat} {rnd : Nat → UInt32} {lines lines' : List (Line N)} :
    Drawn K rnd (lines ++ scores lines') ↔ Drawn K rnd lines := by
  have hnone : (scores lines').filter Line.draws = [] := by
    refine List.filter_eq_nil_iff.mpr fun l hl => ?_
    rw [scores, List.mem_cons, standings, List.mem_ofFn] at hl
    rcases hl with rfl | ⟨c, rfl⟩ <;> simp [Line.draws]
  rw [Drawn, List.filter_append, hnone, List.append_nil, ← Drawn]

/-! ## the board -/

theorem out_buzz (b : Board N) (c : Fin N) (ans : Nat) :
    (b.buzz c ans).out = b.out ++ [.answer c ans (decide (ans = b.num))] := by
  unfold Board.buzz
  split
  · next h => simp [h]
  · next h => simp [h]

theorem out_review (b : Board N) :
    b.review.out = b.out ++ if b.failedTries = N then [.response b.num] else [] := by
  unfold Board.review
  dsimp only
  split
  · rfl
  · rw [List.append_nil]

/-- The show that the board is at, in a phase. -/
inductive Shown (b : Board N) : Phase → Show N → Prop
  | idle : Shown b .idle ⟨b.num, .idle⟩
  | asked (hfailed : b.failedTries = 0) : Shown b .asked ⟨b.num, .guessing []⟩
  | guessing {failed : List (Fin N)} (hopen : ∀ c, b.canBuzzIn c = true ↔ c ∉ failed)
      (hnodup : failed.Nodup) (hfailed : b.failedTries = failed.length) (hlt : failed.length < N) :
      Shown b .released ⟨b.num, .guessing failed⟩
  | won (hquiet : ∀ c, b.canBuzzIn c = false) (hfailed : b.failedTries ≠ N) :
      Shown b .released ⟨b.num + 1, .idle⟩
  | failed (hquiet : ∀ c, b.canBuzzIn c = false) (hfailed : b.failedTries = N) :
      Shown b .released ⟨b.num, .failed⟩

/-- The lines lead to the show that the board is at. -/
def Printed (K : Nat) (p : Phase) (b : Board N) (lines : List (Line N)) : Prop :=
  ∃ sh, after K lines = some sh ∧ Shown b p sh

section printed

variable {K : Nat} {b : Board N} {lines : List (Line N)}

theorem printed_init (N K : Nat) : Printed K .idle (Board.init N) [] := ⟨_, after_nil K, .idle⟩

theorem Printed.enroll (h : Printed K .idle b lines) : Printed K .idle b.enroll lines := by
  obtain ⟨sh, hsh, hshown⟩ := h
  cases hshown with
  | idle => exact ⟨_, hsh, .idle⟩

theorem Printed.checkScores (h : Printed K .idle b lines) : Printed K .idle b.checkScores lines := by
  obtain ⟨sh, hsh, hshown⟩ := h
  cases hshown with
  | idle => exact ⟨_, hsh, .idle⟩

theorem Printed.announce (h : Printed K .idle b lines) (c : Fin N) :
    Printed K .idle (b.announce c) lines := by
  obtain ⟨sh, hsh, hshown⟩ := h
  cases hshown with
  | idle => exact ⟨_, hsh, .idle⟩

/-- A clue is read. -/
theorem Printed.ask (h : Printed K .idle b lines) (hnum : b.num < K) :
    Printed K .asked b.ask (lines ++ [.clue b.num]) := by
  obtain ⟨sh, hsh, hshown⟩ := h
  cases hshown with
  | idle => exact ⟨⟨b.num, .guessing []⟩, by simp [after_concat hsh, Show.next, hnum], .asked rfl⟩

/-- The buzzers are released. -/
theorem Printed.release (h : Printed K .asked b lines) (hN : 0 < N) :
    Printed K .released (b.setAllBuzzers true) lines := by
  obtain ⟨sh, hsh, hshown⟩ := h
  cases hshown with
  | asked hfailed => exact ⟨_, hsh, .guessing (by simp [Board.setAllBuzzers]) .nil hfailed hN⟩

/-- Contestants of whom nobody is missing. -/
theorem mem_of_length_eq {failed : List (Fin N)} (hnodup : failed.Nodup) (hlen : N ≤ failed.length)
    (c : Fin N) : c ∈ failed := by
  have huniv : failed.toFinset = Finset.univ := by
    refine Finset.eq_univ_of_card _ ?_
    have hle := hnodup.length_le_card
    rw [List.toFinset_card_of_nodup hnodup, Fintype.card_fin]
    rw [Fintype.card_fin] at hle
    omega
  exact List.mem_toFinset.mp (huniv ▸ Finset.mem_univ c)

/-- **An answer.** -/
theorem Printed.buzz (h : Printed K .released b lines) (hN : N < 2 ^ 32) {c : Fin N}
    (hc : b.canBuzzIn c = true) {ans : Nat} (hans : ans < K) :
    Printed K .released (b.buzz c ans) (lines ++ [.answer c ans (decide (ans = b.num))]) := by
  obtain ⟨sh, hsh, hshown⟩ := h
  have hnum := num_buzz b c ans
  cases hshown with
  | won hquiet => simp [hquiet c] at hc
  | failed hquiet => simp [hquiet c] at hc
  | @guessing failed hopen hnodup hfailed hlt =>
      have hnew := (hopen c).mp hc
      have hopen' : ∀ c', (b.buzz c ans).canBuzzIn c' = true ↔ c' ∉ failed ++ [c] ∧ ans ≠ b.num := by
        intro c'
        rw [canBuzzIn_buzz, hopen]
        simp [and_assoc]
      rw [Printed, after_concat hsh]
      by_cases hright : ans = b.num
      · refine ⟨⟨b.num + 1, .idle⟩, ?_, hnum ▸ .won (fun c' => ?_) ?_⟩
        · simp [Show.next, hnew, hright, hright ▸ hans]
        · rw [← Bool.not_eq_true, hopen']
          exact fun h => h.2 hright
        · rw [failedTries_buzz, if_pos hright]
          omega
      · have hcount : (b.buzz c ans).failedTries = failed.length + 1 := by
          rw [failedTries_buzz, if_neg hright, uinc, hfailed]
          omega
        have hnodup' : (failed ++ [c]).Nodup := by
          rw [← List.concat_eq_append]
          exact hnodup.concat hnew
        by_cases hmore : failed.length + 1 < N
        · refine ⟨⟨b.num, .guessing (failed ++ [c])⟩, ?_, hnum ▸ .guessing (fun c' => ?_) hnodup' ?_ ?_⟩
          · simp [Show.next, hnew, hans, hright, hmore]
          · rw [hopen']
            exact and_iff_left hright
          · simpa using hcount
          · simpa using hmore
        · have hall : N ≤ (failed ++ [c]).length := by
            rw [List.length_append, List.length_singleton]
            omega
          refine ⟨⟨b.num, .failed⟩, ?_, hnum ▸ .failed (fun c' => ?_) (by omega)⟩
          · simp [Show.next, hnew, hans, hright, hmore]
          · rw [← Bool.not_eq_true, hopen']
            exact fun h => h.1 (mem_of_length_eq hnodup' hall c')

/-- The end of a round: the correct response is printed if all have failed. -/
theorem Printed.review (h : Printed K .released b lines) (hK : K < 2 ^ 32)
    (hquiet : ∀ c, b.canBuzzIn c = false) :
    Printed K .idle b.review (lines ++ if b.failedTries = N then [.response b.num] else []) := by
  obtain ⟨sh, hsh, hshown⟩ := h
  obtain ⟨hle, hlt⟩ := num_le_of_after hsh
  have hnext : b.num < K → b.review.num = b.num + 1 := by
    intro hnum
    rw [Board.review, uinc, Nat.mod_eq_of_lt (by omega)]
  cases hshown with
  | @guessing failed hopen hnodup hfailed hlt =>
      -- somebody has not failed yet
      have hall : Finset.univ ⊆ failed.toFinset := fun c _ => by simpa [hquiet c] using hopen c
      have hle := (Finset.card_le_card hall).trans (List.toFinset_card_le failed)
      rw [Finset.card_univ, Fintype.card_fin] at hle
      omega
  | won _ hfailed =>
      refine ⟨⟨b.num + 1, .idle⟩, ?_, hnext hle ▸ .idle⟩
      rwa [if_neg hfailed, List.append_nil]
  | failed _ hfailed =>
      refine ⟨⟨b.num + 1, .idle⟩, ?_, hnext (hlt (by simp)) ▸ .idle⟩
      rw [if_pos hfailed, after_concat hsh]
      simp [Show.next]

end printed

end Cmsc421.Quiz
