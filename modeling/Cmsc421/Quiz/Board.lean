import Cmsc421.Bytes
import Mathlib.Algebra.BigOperators.Group.Finset.Piecewise
import Mathlib.Algebra.BigOperators.Group.List.Basic
import Mathlib.Data.Fintype.BigOperators

/-!
# Cmsc421.Quiz.Board

The board of the quiz: what `midterm.c` and `final.c` have in common.

Both programs keep the same variables under one mutex and run the same sections
between its operations; they differ in how the threads wait for each other.  There
are `N` contestants and `K` clues.  The lines that are printed are part of the board,
and the ledger of answers is read off them: `Booked` says what the ledger, the flags,
the scores and `failed_tries` have to do with each other, and `Kept` adds what is known
in each phase of a round; every section keeps it.
-/

namespace Cmsc421.Quiz

/-- The lines the programs print, each by what it says: the two programs have texts of
their own.  An answer is printed together with Alex's verdict. -/
inductive Line (N : Nat)
  | clue (num : Nat)
  | answer (who : Fin N) (ans : Nat) (correct : Bool)
  | response (num : Nat)
  /-- the line before the scores -/
  | heading
  | standing (who : Fin N) (score : Int)
  deriving DecidableEq

/-- The shared variables, and what has been printed. -/
structure Board (N : Nat) where
  ready : Nat
  num : Nat
  failedTries : Nat
  score : Fin N → Int
  canBuzzIn : Fin N → Bool
  out : List (Line N)

/-- The threads. -/
inductive Thread (N : Nat)
  | alex
  | cont (c : Fin N)
  deriving DecidableEq

/-- Static storage is zero. -/
def Board.init (N : Nat) : Board N := ⟨0, 0, 0, fun _ => 0, fun _ => false, []⟩

/-- `x++` of an `unsigned`. -/
def uinc (x : Nat) : Nat := (x + 1) % 2 ^ 32

namespace Board

variable {N : Nat}

/-- `set_all_buzzers(v)`. -/
def setAllBuzzers (b : Board N) (v : Bool) : Board N := { b with canBuzzIn := fun _ => v }

/-- `200 * (num + 1)`, an `unsigned`. -/
def worth (b : Board N) : Nat := 200 * uinc b.num % 2 ^ 32

/-- A contestant says that it is ready. -/
def enroll (b : Board N) : Board N := { b with ready := uinc b.ready }

/-- A contestant answers: from the line it prints to the end of the branch, without
the wake-up. -/
def buzz (b : Board N) (c : Fin N) (ans : Nat) : Board N :=
  if ans = b.num then
    { b with
      score := Function.update b.score c (int32 (b.score c + b.worth))
      canBuzzIn := fun _ => false
      out := b.out ++ [.answer c ans true] }
  else
    { b with
      failedTries := uinc b.failedTries
      score := Function.update b.score c (int32 (b.score c - b.worth))
      canBuzzIn := Function.update b.canBuzzIn c false
      out := b.out ++ [.answer c ans false] }

/-- The answer ends the guessing: it is right, or the last contestant has failed. -/
def settles (b : Board N) (ans : Nat) : Bool := decide (ans = b.num ∨ N ≤ uinc b.failedTries)

/-- Alex reads a clue. -/
def ask (b : Board N) : Board N := { b with failedTries := 0, out := b.out ++ [.clue b.num] }

/-- Alex goes on after the guessing: the rest of the loop, and `num++`. -/
def review (b : Board N) : Board N :=
  { b with
    num := uinc b.num
    canBuzzIn := fun _ => false
    out := if b.failedTries = N then b.out ++ [.response b.num] else b.out }

/-- The line before the scores is printed. -/
def checkScores (b : Board N) : Board N := { b with out := b.out ++ [.heading] }

/-- A final score is printed. -/
def announce (b : Board N) (c : Fin N) : Board N :=
  { b with out := b.out ++ [.standing c (b.score c)] }

end Board

/-! ## counting contestants -/

/-- How many contestants satisfy the test. -/
def counted {N : Nat} (f : Fin N → Bool) : Nat := (Finset.univ.filter fun c => f c = true).card

section counted

variable {N : Nat} {α : Type*}

theorem counted_eq_sum (f : Fin N → Bool) : counted f = ∑ c, (f c).toNat := by
  rw [counted, Finset.card_filter]
  exact Finset.sum_congr rfl fun c _ => by cases f c <;> rfl

/-- One contestant moves on. -/
theorem counted_update (test : α → Bool) (play : Fin N → α) (c : Fin N) (pc : α) :
    counted (fun c' => test (Function.update play c pc c')) + (test (play c)).toNat =
      counted (fun c' => test (play c')) + (test pc).toNat := by
  have hupdate : (fun c' => (test (Function.update play c pc c')).toNat) =
      Function.update (fun c' => (test (play c')).toNat) c (test pc).toNat := by
    funext c'
    by_cases hcc : c' = c <;> simp [hcc]
  have hsplit := Finset.sum_eq_add_sum_sdiff_singleton (s := Finset.univ) c
    (fun c' => (test (play c')).toNat) (by simp)
  rw [counted_eq_sum, counted_eq_sum, hupdate, Finset.sum_update_of_mem (Finset.mem_univ c), hsplit]
  omega

/-- An `unsigned` that counts all contestants up to `N` has counted all of them. -/
theorem all_of_le_counted {f : Fin N → Bool} (h : N ≤ counted f % 2 ^ 32) :
    N < 2 ^ 32 ∧ ∀ c, f c = true := by
  have hlt := Nat.mod_lt (counted f) (y := 2 ^ 32) (by decide)
  have hle := Nat.mod_le (counted f) (2 ^ 32)
  have hcard : counted f ≤ N := (Finset.card_le_univ _).trans_eq (Fintype.card_fin N)
  have huniv : (Finset.univ.filter fun c => f c = true) = Finset.univ :=
    Finset.eq_univ_of_card _ (by rw [Fintype.card_fin]; unfold counted at h hle hlt hcard; omega)
  refine ⟨by omega, fun c => ?_⟩
  have hc := huniv ▸ Finset.mem_univ c
  exact (Finset.mem_filter.mp hc).2

end counted

/-! ## the ledger -/

/-- An answer: the round it was given in, the clue, the contestant, the question that was
given, and Alex's verdict. -/
structure Entry (N : Nat) where
  round : Nat
  clue : Nat
  who : Fin N
  ans : Nat
  right : Bool

/-- What an answer is worth. -/
def Entry.points {N : Nat} (e : Entry N) : Int :=
  if e.right then 200 * (e.clue + 1) else -(200 * (e.clue + 1))

/-- What the printed lines say: how many clues have been read, the last one, and the
answers. -/
structure Tally (N : Nat) where
  round : Nat
  clue : Nat
  entries : List (Entry N)

/-- One more line. -/
def Tally.next {N : Nat} (t : Tally N) : Line N → Tally N
  | .clue num => ⟨t.round + 1, num, t.entries⟩
  | .answer who ans correct =>
      { t with entries := t.entries ++ [⟨t.round, t.clue, who, ans, correct⟩] }
  | .response _ | .heading | .standing _ _ => t

/-- The tally of the printed lines. -/
def tally {N : Nat} (out : List (Line N)) : Tally N := out.foldl Tally.next ⟨0, 0, []⟩

@[simp] theorem tally_concat {N : Nat} (out : List (Line N)) (l : Line N) :
    tally (out ++ [l]) = (tally out).next l := by simp [tally]

/-- The ledger is fair: in one round nobody answers twice, and nobody answers after a
right answer. -/
def Fair {N : Nat} (es : List (Entry N)) : Prop :=
  es.Pairwise fun e e' => e.round = e'.round → e.who ≠ e'.who ∧ e.right = false

/-- The points of a contestant. -/
def pointsOf {N : Nat} (es : List (Entry N)) (c : Fin N) : Int :=
  ((es.filter fun e => e.who = c).map Entry.points).sum

namespace Board

variable {N : Nat}

/-- The answers to the current clue. -/
def current (b : Board N) : List (Entry N) :=
  (tally b.out).entries.filter fun e => e.round = (tally b.out).round

/-- The right ones. -/
def wins (b : Board N) : Nat := b.current.countP fun e => e.right

/-- The wrong ones. -/
def losses (b : Board N) : Nat := b.current.countP fun e => !e.right

end Board

/-- A clue has been read, and it is the current one. -/
structure During {N : Nat} (b : Board N) : Prop where
  clue : (tally b.out).clue = b.num
  pos : 0 < (tally b.out).round
  num : b.num = ((tally b.out).round - 1) % 2 ^ 32

/-- The ledger, the flags, the scores and `failed_tries` agree. -/
structure Booked {N : Nat} (b : Board N) : Prop where
  fair : Fair (tally b.out).entries
  rounds : ∀ e ∈ (tally b.out).entries, e.round ≤ (tally b.out).round
  index : ∀ e ∈ (tally b.out).entries, 0 < e.round ∧ e.clue = (e.round - 1) % 2 ^ 32
  verdict : ∀ e ∈ (tally b.out).entries, e.right = true ↔ e.ans = e.clue
  spent : ∀ e ∈ b.current, b.canBuzzIn e.who = false
  won : 0 < b.wins → ∀ c, b.canBuzzIn c = false
  failed : b.failedTries = b.losses % 2 ^ 32
  during : ∀ c, b.canBuzzIn c = true → During b
  score : ∀ c, b.score c = int32 (pointsOf (tally b.out).entries c)

section booked

variable {N : Nat} {b : Board N}

theorem booked_init (N : Nat) : Booked (Board.init N) where
  fair := List.Pairwise.nil
  rounds := nofun
  index := nofun
  verdict := nofun
  spent := nofun
  won _ _ := rfl
  failed := rfl
  during := nofun
  score _ := by simp [Board.init, tally, pointsOf, int32]

theorem Booked.enroll (h : Booked b) : Booked b.enroll :=
  ⟨h.fair, h.rounds, h.index, h.verdict, h.spent, h.won, h.failed, fun c hc => ⟨(h.during c hc).clue,
    (h.during c hc).pos, (h.during c hc).num⟩, h.score⟩

/-! ## the answers to the current clue -/

theorem mem_current {e : Entry N} :
    e ∈ b.current ↔ e ∈ (tally b.out).entries ∧ e.round = (tally b.out).round := by
  simp [Board.current]

/-- They are as many as the right and the wrong ones together. -/
theorem wins_add_losses (b : Board N) : b.wins + b.losses = b.current.length := by
  rw [List.length_eq_countP_add_countP (fun e => e.right)]
  simp [Board.wins, Board.losses]

/-- They are of different contestants. -/
theorem Booked.nodup (h : Booked b) : (b.current.map (·.who)).Nodup := by
  refine List.pairwise_map.mpr ((h.fair.filter _).imp_of_mem ?_)
  intro e e' he he' hne
  exact (hne ((mem_current.mp he).2.trans (mem_current.mp he').2.symm)).1

/-- Where each answer but the last is wrong, no more than one is right. -/
theorem countP_right_le_one {es : List (Entry N)} (h : es.Pairwise fun e _ => e.right = false) :
    es.countP (fun e => e.right) ≤ 1 := by
  induction es with
  | nil => simp
  | cons e es ih =>
      obtain ⟨he, hes⟩ := List.pairwise_cons.mp h
      cases hr : e.right with
      | false =>
          rw [List.countP_cons_of_neg (by simp [hr])]
          exact ih hes
      | true =>
          have hnil : es = [] := List.eq_nil_iff_forall_not_mem.mpr fun e' he' => by
            simp [he e' he'] at hr
          simp [hnil, hr]

/-- No more than one contestant wins a clue. -/
theorem Booked.wins_le_one (h : Booked b) : b.wins ≤ 1 := by
  refine countP_right_le_one ((h.fair.filter _).imp_of_mem ?_)
  intro e e' he he' hne
  exact (hne ((mem_current.mp he).2.trans (mem_current.mp he').2.symm)).2

/-- While somebody may buzz, nobody has won the clue, … -/
theorem Booked.wins_eq_zero (h : Booked b) {c : Fin N} (hc : b.canBuzzIn c = true) : b.wins = 0 := by
  by_contra hw
  have := h.won (Nat.pos_of_ne_zero hw) c
  simp [this] at hc

/-- … and not everybody has answered, … -/
theorem Booked.length_lt (h : Booked b) {c : Fin N} (hc : b.canBuzzIn c = true) :
    b.current.length < N := by
  have hnot : c ∉ b.current.map (·.who) := by
    intro hmem
    obtain ⟨e, he, rfl⟩ := List.mem_map.mp hmem
    simp [h.spent e he] at hc
  have hle := (List.nodup_cons.mpr ⟨hnot, h.nodup⟩).length_le_card
  simp only [List.length_cons, List.length_map, Fintype.card_fin] at hle
  omega

/-- … and in any case no more than everybody has. -/
theorem Booked.length_le (h : Booked b) : b.current.length ≤ N := by
  simpa using h.nodup.length_le_card

/-- Where everybody has answered or may not buzz, … -/
theorem le_length {b : Board N} (h : ∀ c, ∃ e ∈ b.current, e.who = c) : N ≤ b.current.length := by
  have hsub : (Finset.univ : Finset (Fin N)) ⊆ (b.current.map (·.who)).toFinset := by
    intro c _
    simpa using h c
  have := (Finset.card_le_card hsub).trans (List.toFinset_card_le _)
  simpa using this

/-! ## what the sections do to the ledger -/

/-- A right or wrong answer is one more entry of the current round. -/
@[grind =] theorem tally_buzz (b : Board N) (c : Fin N) (ans : Nat) :
    tally (b.buzz c ans).out = (tally b.out).next (.answer c ans (decide (ans = b.num))) := by
  unfold Board.buzz
  split
  · next h => simp [h]
  · next h => simp [h]

theorem current_buzz (b : Board N) (c : Fin N) (ans : Nat) :
    (b.buzz c ans).current =
      b.current ++ [⟨(tally b.out).round, (tally b.out).clue, c, ans, decide (ans = b.num)⟩] := by
  simp [Board.current, tally_buzz, Tally.next]

theorem wins_buzz (b : Board N) (c : Fin N) (ans : Nat) :
    (b.buzz c ans).wins = b.wins + if ans = b.num then 1 else 0 := by
  rw [Board.wins, current_buzz, List.countP_append]
  by_cases h : ans = b.num <;> simp [h, Board.wins]

theorem losses_buzz (b : Board N) (c : Fin N) (ans : Nat) :
    (b.buzz c ans).losses = b.losses + if ans = b.num then 0 else 1 := by
  rw [Board.losses, current_buzz, List.countP_append]
  by_cases h : ans = b.num <;> simp [h, Board.losses]

/-- Nothing has been answered yet when a clue has just been read. -/
theorem Booked.current_ask (h : Booked b) : b.ask.current = [] := by
  refine List.filter_eq_nil_iff.mpr fun e he => ?_
  simp only [Board.ask, tally_concat, Tally.next] at he ⊢
  have := h.rounds e he
  simp only [decide_eq_true_eq]
  omega

theorem Booked.ask (h : Booked b) (hquiet : ∀ c, b.canBuzzIn c = false) : Booked b.ask := by
  have hentries : (tally b.ask.out).entries = (tally b.out).entries := by
    simp [Board.ask, Tally.next]
  have hround : (tally b.ask.out).round = (tally b.out).round + 1 := by simp [Board.ask, Tally.next]
  refine ⟨?_, ?_, ?_, ?_, ?_, ?_, ?_, ?_, ?_⟩
  · rw [hentries]
    exact h.fair
  · intro e he
    rw [hentries] at he
    rw [hround]
    exact Nat.le_succ_of_le (h.rounds e he)
  · rw [hentries]
    exact h.index
  · rw [hentries]
    exact h.verdict
  · rw [h.current_ask]
    nofun
  · exact fun _ => hquiet
  · rw [Board.losses, h.current_ask]
    rfl
  · intro c hc
    exact absurd hc (by simp [Board.ask, hquiet c])
  · intro c
    rw [hentries]
    exact h.score c

/-- The buzzers are released for a new clue. -/
theorem Booked.release (h : Booked b) (hcur : b.current = []) (hd : During b) :
    Booked (b.setAllBuzzers true) where
  fair := h.fair
  rounds := h.rounds
  index := h.index
  verdict := h.verdict
  spent := by
    show ∀ e ∈ b.current, _
    simp [hcur]
  won hw := by
    have : b.wins = 0 := by simp [Board.wins, hcur]
    exact absurd hw (by show ¬ 0 < b.wins; omega)
  failed := h.failed
  during _ _ := ⟨hd.clue, hd.pos, hd.num⟩
  score := h.score

/-- The points of a contestant after one more answer. -/
theorem pointsOf_concat (es : List (Entry N)) (e : Entry N) (c : Fin N) :
    pointsOf (es ++ [e]) c = pointsOf es c + if e.who = c then e.points else 0 := by
  by_cases h : e.who = c <;> simp [pointsOf, List.filter_append, h]

/-- What an answer adds to a score, which is an `int`. -/
theorem int32_score (x : Int) (n : Nat) :
    int32 (int32 x + (200 * uinc n % 2 ^ 32 : Nat)) = int32 (x + 200 * (n + 1)) ∧
    int32 (int32 x - (200 * uinc n % 2 ^ 32 : Nat)) = int32 (x + -(200 * (n + 1))) := by
  have hx := int32_emod x
  constructor <;> refine int32_congr ?_ <;> unfold uinc <;> omega

theorem score_buzz (b : Board N) (c c' : Fin N) (ans : Nat) :
    (b.buzz c ans).score c' =
      if c' = c then
        int32 (b.score c + if ans = b.num then (b.worth : Int) else -(b.worth : Int))
      else b.score c' := by
  unfold Board.buzz
  split
  · by_cases hc : c' = c <;> simp [hc]
  · by_cases hc : c' = c <;> simp [hc, Int.sub_eq_add_neg]

theorem canBuzzIn_buzz (b : Board N) (c c' : Fin N) (ans : Nat) :
    (b.buzz c ans).canBuzzIn c' = true ↔ b.canBuzzIn c' = true ∧ c' ≠ c ∧ ans ≠ b.num := by
  unfold Board.buzz
  split
  · next h => simp [h]
  · next h => by_cases hc : c' = c <;> simp [h, hc]

theorem failedTries_buzz (b : Board N) (c : Fin N) (ans : Nat) :
    (b.buzz c ans).failedTries = if ans = b.num then b.failedTries else uinc b.failedTries := by
  unfold Board.buzz
  split <;> rfl

@[simp] theorem num_buzz (b : Board N) (c : Fin N) (ans : Nat) : (b.buzz c ans).num = b.num := by
  unfold Board.buzz
  split <;> rfl

@[simp] theorem ready_buzz (b : Board N) (c : Fin N) (ans : Nat) :
    (b.buzz c ans).ready = b.ready := by
  unfold Board.buzz
  split <;> rfl

/-- **An answer keeps the books.** -/
theorem Booked.buzz (h : Booked b) {c : Fin N} (hc : b.canBuzzIn c = true) (ans : Nat) :
    Booked (b.buzz c ans) := by
  have hd := h.during c hc
  have hwins := h.wins_eq_zero hc
  have hround : (tally (b.buzz c ans).out).round = (tally b.out).round := by
    simp [tally_buzz, Tally.next]
  have hentries : (tally (b.buzz c ans).out).entries = (tally b.out).entries ++
      [⟨(tally b.out).round, (tally b.out).clue, c, ans, decide (ans = b.num)⟩] := by
    simp [tally_buzz, Tally.next]
  refine ⟨?fair, ?rounds, ?index, ?verdict, ?spent, ?won, ?failed, ?during, ?score⟩
  case fair =>
    rw [Fair, hentries, List.pairwise_append]
    refine ⟨h.fair, List.pairwise_singleton _ _, ?_⟩
    intro e he e' he' hsame
    obtain rfl := List.mem_singleton.mp he'
    have hcur : e ∈ b.current := mem_current.mpr ⟨he, hsame⟩
    refine ⟨?_, ?_⟩
    · rintro rfl
      simp [h.spent e hcur] at hc
    · by_contra hright
      have hpos : 0 < b.wins := List.countP_pos_iff.mpr ⟨e, hcur, by simpa using hright⟩
      omega
  case rounds =>
    intro e he
    rw [hentries, List.mem_append, List.mem_singleton] at he
    rw [hround]
    rcases he with he | rfl
    · exact h.rounds e he
    · exact Nat.le_refl _
  case index =>
    intro e he
    rw [hentries, List.mem_append, List.mem_singleton] at he
    rcases he with he | rfl
    · exact h.index e he
    · exact ⟨hd.pos, hd.clue.trans hd.num⟩
  case verdict =>
    intro e he
    rw [hentries, List.mem_append, List.mem_singleton] at he
    rcases he with he | rfl
    · exact h.verdict e he
    · simp [hd.clue]
  case spent =>
    intro e he
    rw [current_buzz, List.mem_append, List.mem_singleton] at he
    rw [← Bool.not_eq_true, canBuzzIn_buzz]
    rcases he with he | rfl
    · simp [h.spent e he]
    · simp
  case won =>
    intro hw c'
    rw [wins_buzz, hwins] at hw
    rw [← Bool.not_eq_true, canBuzzIn_buzz]
    split at hw
    · next hans => simp [hans]
    · omega
  case failed =>
    rw [failedTries_buzz, losses_buzz, h.failed]
    split
    · rfl
    · unfold uinc
      omega
  case during =>
    intro c' _
    exact ⟨by simpa [tally_buzz, Tally.next] using hd.clue, by rw [hround]; exact hd.pos,
      by rw [hround, num_buzz]; exact hd.num⟩
  case score =>
    intro c'
    rw [score_buzz, hentries, pointsOf_concat]
    obtain ⟨hadd, hsub⟩ := int32_score (pointsOf (tally b.out).entries c) b.num
    by_cases hcc : c' = c
    · subst hcc
      rw [if_pos rfl, h.score, Board.worth, if_pos rfl]
      by_cases hans : ans = b.num
      · simp only [hans, if_true, Entry.points, decide_true, hd.clue]
        exact hadd
      · simp only [hans, if_false, Entry.points, decide_false, Bool.false_eq_true, hd.clue,
          ← Int.sub_eq_add_neg]
        rw [hsub, Int.sub_eq_add_neg]
    · rw [if_neg hcc, if_neg (Ne.symm hcc), Int.add_zero]
      exact h.score c'

@[simp, grind =] theorem tally_review (b : Board N) : tally b.review.out = tally b.out := by
  unfold Board.review
  dsimp only
  split
  · rw [tally_concat]
    rfl
  · rfl

/-- The end of a round keeps the books. -/
theorem Booked.review (h : Booked b) : Booked b.review := by
  have htally := tally_review b
  have hcur : b.review.current = b.current := by rw [Board.current, Board.current, htally]
  refine ⟨?_, ?_, ?_, ?_, fun _ _ => rfl, fun _ _ => rfl, ?_, nofun, ?_⟩
  · rw [htally]
    exact h.fair
  · rw [htally]
    exact h.rounds
  · rw [htally]
    exact h.index
  · rw [htally]
    exact h.verdict
  · rw [Board.losses, hcur]
    exact h.failed
  · rw [htally]
    exact h.score

/-- A line that is not part of the ledger. -/
theorem Booked.print (h : Booked b) {out : List (Line N)} (htally : tally out = tally b.out) :
    Booked { b with out } := by
  have hcur : Board.current { b with out } = b.current := by rw [Board.current, Board.current, htally]
  refine ⟨?_, ?_, ?_, ?_, ?_, ?_, ?_, ?_, ?_⟩
  · rw [htally]
    exact h.fair
  · rw [htally]
    exact h.rounds
  · rw [htally]
    exact h.index
  · rw [htally]
    exact h.verdict
  · rw [hcur]
    exact h.spent
  · rw [Board.wins, hcur]
    exact h.won
  · rw [Board.losses, hcur]
    exact h.failed
  · intro c' hc'
    obtain ⟨hclue, hpos, hnum⟩ := h.during c' hc'
    constructor <;> rw [htally] <;> assumption
  · rw [htally]
    exact h.score

@[simp, grind =] theorem tally_checkScores (b : Board N) : tally b.checkScores.out = tally b.out := by
  rw [Board.checkScores, tally_concat]
  rfl

@[simp, grind =] theorem tally_announce (b : Board N) (c : Fin N) :
    tally (b.announce c).out = tally b.out := by
  rw [Board.announce, tally_concat]
  rfl

/-! ## the phases of a round -/

/-- No clue is open: nobody may buzz, and the next clue is the current one. -/
structure Between (b : Board N) : Prop where
  quiet : ∀ c, b.canBuzzIn c = false
  num : b.num = (tally b.out).round % 2 ^ 32

/-- A clue is open and has not been settled. -/
structure Guessing (b : Board N) : Prop where
  wins : b.wins = 0
  failed : b.failedTries < N
  open' : ∀ c, b.canBuzzIn c = true ∨ ∃ e ∈ b.current, e.who = c

/-- The current clue is settled: one answer was right, or everybody has failed. -/
def Settled (b : Board N) : Prop :=
  (b.wins = 1 ∧ b.failedTries ≠ N) ∨ (b.wins = 0 ∧ b.losses = N ∧ b.failedTries = N)

theorem between_init (N : Nat) : Between (Board.init N) := ⟨fun _ => rfl, rfl⟩

theorem Between.enroll (h : Between b) : Between b.enroll := ⟨h.quiet, h.num⟩

theorem Between.print (h : Between b) {out : List (Line N)} (htally : tally out = tally b.out) :
    Between { b with out } :=
  ⟨h.quiet, by rw [htally]; exact h.num⟩

theorem Between.ask (h : Between b) : During b.ask := by
  constructor <;> simp [Board.ask, Tally.next, h.num]

theorem During.review (h : During b) : Between b.review := by
  refine ⟨fun _ => rfl, ?_⟩
  have hnum := h.num
  have hpos := h.pos
  rw [tally_review, Board.review, uinc]
  dsimp only
  omega

/-- While `num` does not wrap around, no more clues are read than there are. -/
theorem Between.round_ask {K : Nat} (h : Between b) (hK : K < 2 ^ 32) (hnum : b.num < K)
    (hle : (tally b.out).round ≤ K) : (tally b.ask.out).round ≤ K := by
  have hround : (tally b.ask.out).round = (tally b.out).round + 1 := by simp [Board.ask, Tally.next]
  have := h.num
  omega

theorem During.buzz (h : During b) (c : Fin N) (ans : Nat) : During (b.buzz c ans) := by
  obtain ⟨hclue, hpos, hnum⟩ := h
  constructor <;> simpa [tally_buzz, Tally.next]

/-- Everybody may guess at first. -/
theorem Booked.guessing (h : Booked b) (hcur : b.current = []) (hN : 0 < N) :
    Guessing (b.setAllBuzzers true) where
  wins := by
    show b.wins = 0
    simp [Board.wins, hcur]
  failed := by
    have hlosses : b.losses = 0 := by simp [Board.losses, hcur]
    show b.failedTries < N
    rwa [h.failed, hlosses]
  open' _ := .inl rfl

/-- An answer that does not settle the clue. -/
theorem Guessing.buzz (h : Guessing b) {ans : Nat} (hs : b.settles ans = false) (c : Fin N) :
    Guessing (b.buzz c ans) := by
  obtain ⟨hans, hlt⟩ : ans ≠ b.num ∧ uinc b.failedTries < N := by
    simpa [Board.settles, not_or] using hs
  refine ⟨by rw [wins_buzz, h.wins, if_neg hans], by rwa [failedTries_buzz, if_neg hans], ?_⟩
  intro c'
  rw [canBuzzIn_buzz, current_buzz]
  by_cases hcc : c' = c
  · exact .inr ⟨_, List.mem_append_right _ (List.mem_singleton_self _), hcc.symm⟩
  · rcases h.open' c' with hc | ⟨e, he, hwho⟩
    · exact .inl ⟨hc, hcc, hans⟩
    · exact .inr ⟨e, by simp [he], hwho⟩

/-- One that does. -/
theorem Booked.settled_buzz (h : Booked b) {c : Fin N} (hc : b.canBuzzIn c = true) {ans : Nat}
    (hs : b.settles ans = true) : Settled (b.buzz c ans) := by
  have hwins := h.wins_eq_zero hc
  have hsum := wins_add_losses b
  have hlt := h.length_lt hc
  have hfailed := h.failed
  rw [Settled, wins_buzz, losses_buzz, failedTries_buzz]
  by_cases hans : ans = b.num
  · refine .inl ⟨by rw [hwins, if_pos hans], ?_⟩
    rw [if_pos hans]
    omega
  · have hN : N ≤ uinc b.failedTries := by simpa [Board.settles, hans] using hs
    rw [if_neg hans, if_neg hans, if_neg hans]
    unfold uinc at hN ⊢
    omega

/-- While a clue is open, somebody may buzz. -/
theorem Guessing.exists_canBuzzIn (h : Guessing b) (hb : Booked b) (hN : N < 2 ^ 32) :
    ∃ c, b.canBuzzIn c = true := by
  by_contra hnone
  have hle : N ≤ b.current.length := le_length fun c =>
    (h.open' c).resolve_left fun hc => hnone ⟨c, hc⟩
  have hsum := wins_add_losses b
  have hmax := hb.length_le
  have hfailed := hb.failed
  have hwins := h.wins
  have hlt := h.failed
  omega

/-- Once it is settled, nobody may. -/
theorem Settled.quiet (h : Settled b) (hb : Booked b) (c : Fin N) : b.canBuzzIn c = false := by
  rcases h with ⟨hw, -⟩ | ⟨hw, hl, -⟩
  · exact hb.won (by omega) c
  · by_contra hc
    have hlt := hb.length_lt (by simpa using hc)
    have hsum := wins_add_losses b
    omega

/-- Where the current clue is: settled or not read yet, read, and given to the
contestants. -/
inductive Phase
  | idle
  | asked
  | released
  deriving DecidableEq

/-- The books in a phase. -/
structure Kept (p : Phase) (b : Board N) : Prop where
  booked : Booked b
  between : p = .idle → Between b
  asked : p = .asked → b.current = [] ∧ ∀ c, b.canBuzzIn c = false
  during : p ≠ .idle → During b

theorem kept_init (N : Nat) : Kept .idle (Board.init N) where
  booked := booked_init N
  between _ := between_init N
  asked := nofun
  during h := absurd rfl h

theorem Kept.enroll (h : Kept .idle b) : Kept .idle b.enroll where
  booked := h.booked.enroll
  between _ := (h.between rfl).enroll
  asked := nofun
  during h := absurd rfl h

theorem Kept.ask (h : Kept .idle b) : Kept .asked b.ask where
  booked := h.booked.ask (h.between rfl).quiet
  between := nofun
  asked _ := ⟨h.booked.current_ask, (h.between rfl).quiet⟩
  during _ := (h.between rfl).ask

theorem Kept.release (h : Kept .asked b) : Kept .released (b.setAllBuzzers true) where
  booked := h.booked.release (h.asked rfl).1 (h.during nofun)
  between := nofun
  asked := nofun
  during _ := by
    have hd := h.during nofun
    exact ⟨hd.clue, hd.pos, hd.num⟩

/-- Only while the buzzers are released somebody may buzz. -/
theorem Kept.phase_eq {p : Phase} (h : Kept p b) {c : Fin N} (hc : b.canBuzzIn c = true) :
    p = .released := by
  cases p with
  | idle => simp [(h.between rfl).quiet c] at hc
  | asked => simp [(h.asked rfl).2 c] at hc
  | released => rfl

theorem Kept.buzz {p : Phase} (h : Kept p b) {c : Fin N} (hc : b.canBuzzIn c = true) (ans : Nat) :
    Kept p (b.buzz c ans) := by
  obtain rfl := h.phase_eq hc
  exact ⟨h.booked.buzz hc ans, nofun, nofun, fun hp => (h.during hp).buzz c ans⟩

theorem Kept.review (h : Kept .released b) : Kept .idle b.review where
  booked := h.booked.review
  between _ := (h.during nofun).review
  asked := nofun
  during h := absurd rfl h

theorem Kept.print (h : Kept .idle b) {out : List (Line N)} (htally : tally out = tally b.out) :
    Kept .idle { b with out } where
  booked := h.booked.print htally
  between _ := (h.between rfl).print htally
  asked := nofun
  during h := absurd rfl h

theorem Kept.checkScores (h : Kept .idle b) : Kept .idle b.checkScores := h.print (tally_checkScores b)

theorem Kept.announce (h : Kept .idle b) (c : Fin N) : Kept .idle (b.announce c) :=
  h.print (tally_announce b c)

/-- While no clue is read twice, every entry is in the round of its clue. -/
theorem Booked.round_eq {K : Nat} (h : Booked b) (hK : K < 2 ^ 32)
    (hle : (tally b.out).round ≤ K) {e : Entry N} (he : e ∈ (tally b.out).entries) :
    e.round = e.clue + 1 := by
  have := h.rounds e he
  have := h.index e he
  omega

end booked

end Cmsc421.Quiz
