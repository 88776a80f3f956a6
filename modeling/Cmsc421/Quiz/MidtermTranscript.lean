import Cmsc421.Reach
import Cmsc421.Quiz.Show
import Cmsc421.Quiz.MidtermScores

/-!
# Cmsc421.Quiz.MidtermTranscript

What `midterm.c` can print.

Without spurious wake-ups, the lines of a run are always the beginning of a transcript,
and of a transcript with the final scores once `main` joins the contestants
(`Recorded`).  Conversely every transcript is printed in some run: `Placed` says
where the threads stand when the show is at some point, and `leads_next` lets them print
any line that can come next.

What `rand()` returns is fixed by the seed, call by call.  It is called under the mutex,
once for every clue and for every answer, so the printed lines are a log of the calls
(`logs_rand`).  With given values the program prints exactly the transcripts whose answers
come of them (`prints_iff`).
-/

namespace Cmsc421.Quiz.Midterm

variable {N K : Nat} {s s' : State N} {l : Label N} {lines : List (Line N)}

/-- The step is no spurious wake-up. -/
def Scheduled : Label N → Prop
  | .play _ _ | .main => True
  | .spuriousPlay _ | .spuriousMain => False

instance : DecidablePred (Scheduled (N := N))
  | .play _ _ | .main => .isTrue trivial
  | .spuriousPlay _ | .spuriousMain => .isFalse id

/-! ## only transcripts are printed -/

/-- How many lines of the scores have been printed. -/
def MainPc.told : MainPc → Nat
  | .joining k => k + 1
  | _ => 0

theorem told_signal (pc : MainPc) : pc.signal.told = pc.told := by cases pc <;> rfl

/-- While a clue is open, none has been. -/
theorem told_of_phase {pc : MainPc} (h : pc.phase ≠ .idle) : pc.told = 0 := by
  cases pc with
  | joining k => exact absurd rfl h
  | _ => rfl

/-- The lines are the clues and answers that have been printed, and the scores come behind
them. -/
structure Recorded (K : Nat) (s : State N) (lines : List (Line N)) : Prop where
  printed : Printed K s.main.phase s.board lines
  out : s.board.out = lines ++ (scores lines).take s.main.told
  told : s.main.told ≤ N + 1

theorem recorded_init (N K : Nat) : Recorded K (initState N) [] :=
  ⟨printed_init N K, rfl, Nat.zero_le (N + 1)⟩

/-- A step that leaves the board alone, and `main` in its phase. -/
theorem Recorded.of_board (h : Recorded K s lines) (hboard : s'.board = s.board)
    (hphase : s'.main.phase = s.main.phase) (htold : s'.main.told = s.main.told) :
    Recorded K s' lines := by
  constructor
  · rw [hphase, hboard]
    exact h.printed
  · rw [hboard, htold]
    exact h.out
  · rw [htold]
    exact h.told

/-- Before the scores, the recorded lines are all that has been printed. -/
theorem Recorded.lines_eq (h : Recorded K s lines) (htold : s.main.told = 0) : s.board.out = lines := by
  rw [h.out, htold, List.take_zero, List.append_nil]

/-- A step of the show. -/
theorem Recorded.of_lines (h : Recorded K s lines) {ls : List (Line N)} (htold : s.main.told = 0)
    (htold' : s'.main.told = 0) (hout : s'.board.out = s.board.out ++ ls)
    (hprinted : Printed K s'.main.phase s'.board (lines ++ ls)) : Recorded K s' (lines ++ ls) := by
  refine ⟨hprinted, ?_, by rw [htold']; exact Nat.zero_le _⟩
  rw [hout, h.lines_eq htold, htold', List.take_zero, List.append_nil]

/-- The heading of the scores is printed. -/
theorem Recorded.unlock (h : Recorded K s lines) (hpc : s.main = .unlocking) :
    Recorded K { s with board := s.board.checkScores, owner := none, main := .joining 0 } lines := by
  have hprinted := h.printed
  rw [hpc] at hprinted
  refine ⟨hprinted.checkScores, ?_, Nat.succ_le_succ (Nat.zero_le N)⟩
  show s.board.out ++ [.heading] = lines ++ (scores lines).take 1
  rw [h.lines_eq (by rw [hpc]; rfl)]
  rfl

/-- A final score is printed. -/
theorem Recorded.join (h : Recorded K s lines) (hplayed : Played s) {k : Nat} (hpc : s.main = .joining k)
    (hk : k < N) :
    Recorded K { s with board := s.board.announce ⟨k, hk⟩, main := .joining (k + 1) } lines := by
  have hprinted := h.printed
  have hout := h.out
  rw [hpc] at hprinted hout
  have hscore := hplayed.booked.score ⟨k, hk⟩
  rw [hout, tally_append_scores] at hscore
  have hlen : k + 1 < (scores lines).length := by
    rw [length_scores]
    exact Nat.succ_lt_succ hk
  refine ⟨hprinted.announce _, ?_, Nat.succ_le_succ hk⟩
  show s.board.out ++ [_] = lines ++ (scores lines).take (k + 1 + 1)
  rw [hout, List.take_add_one, List.getElem?_eq_getElem hlen, hscore]
  simp [scores, standings, MainPc.told]

/-- **One step that is no spurious wake-up of `main`.** -/
theorem Recorded.step (h : Recorded K s lines) (hsound : Sound K s) (hplayed : Played s)
    (hresumes : Resumes s) (hN : 0 < N) (hK : K < 2 ^ 32) (hs : Effect K s l s') :
    ∃ lines', Recorded K s' lines' := by
  have hprinted := h.printed
  cases hs with
  | lock | rest | quit | leave | spuriousPlay => exact ⟨_, h.of_board rfl rfl rfl⟩
  | mainLock _ hpc =>
      rcases hpc with ⟨hpc, rfl⟩ | ⟨hpc, rfl⟩ <;>
        exact ⟨_, h.of_board rfl (by rw [hpc]; rfl) (by rw [hpc]; rfl)⟩
  | again hpc | start hpc | close hpc | pause hpc | dismiss hpc | spuriousMain hpc =>
      exact ⟨_, h.of_board rfl (by rw [hpc]; rfl) (by rw [hpc]; rfl)⟩
  | @enroll c rnd hpc =>
      -- `main` is still in the loop over `ready`
      have hstarted : s.main.started = false := by
        by_contra hst
        have := (hsound.started (by simpa using hst)).2 c
        simp [hpc, PlayPc.enrolled] at this
      have hphase := phase_of_not_started hstarted
      rw [hphase] at hprinted
      refine ⟨lines, ?_, h.out, h.told⟩
      show Printed K s.main.phase _ _
      rw [hphase]
      exact hprinted.enroll
  | @buzz c rnd hpc hnum hbuzz =>
      have hphase := hplayed.kept.phase_eq hbuzz
      have hstarted : s.main.started = true := by
        by_contra hst
        rw [phase_of_not_started (by simpa using hst)] at hphase
        contradiction
      have htold : s.main.told = 0 := told_of_phase (by simp [hphase])
      rw [hphase] at hprinted
      refine ⟨_, h.of_lines htold ?_ (out_buzz ..) ?_⟩
      · show MainPc.told (if _ then _ else _) = 0
        split
        · rw [told_signal, htold]
        · exact htold
      · have hafter : ∀ b : Bool, (if b then s.main.signal else s.main).phase = .released := by
          intro b
          cases b
          · exact hphase
          · exact (phase_signal s.main).trans hphase
        show Printed K (MainPc.phase _) _ _
        rw [hafter]
        exact hprinted.buzz (hsound.started hstarted).1 hbuzz (Nat.mod_lt _ (Nat.zero_lt_of_lt hnum))
  | ask hpc hnum =>
      rw [hpc] at hprinted
      exact ⟨_, h.of_lines (by rw [hpc]; rfl) rfl rfl (hprinted.ask hnum)⟩
  | call hpc =>
      rw [hpc] at hprinted
      have hout := h.out
      rw [hpc] at hout
      exact ⟨lines, hprinted.release hN, hout, Nat.zero_le (N + 1)⟩
  | review hpc =>
      rw [hpc] at hprinted
      have hquiet := (hresumes (.inr hpc)).quiet hplayed.booked
      exact ⟨_, h.of_lines (by rw [hpc]; rfl) rfl (out_review _) (hprinted.review hK hquiet)⟩
  | unlock hpc => exact ⟨lines, h.unlock hpc⟩
  | join hpc hk => exact ⟨lines, h.join hplayed hpc hk⟩

/-- A run is recorded as long as there are no spurious wake-ups of `main`. -/
theorem recorded_of_run (hN : 0 < N) (hK : K < 2 ^ 32) {tr : List (State N × Label N)}
    (h : (midterm N K).Run tr s) (hno : ∀ p ∈ tr, Scheduled p.2) : ∃ lines, Recorded K s lines := by
  suffices hI : (Sound K s ∧ Played s ∧ Resumes s) ∧ ∃ lines, Recorded K s lines from hI.2
  refine Machine.Run.invariant_of_steps (P := fun _ l => Scheduled l)
    (I := fun _ s => (Sound K s ∧ Played s ∧ Resumes s) ∧ ∃ lines, Recorded K s lines) ?_ ?_ h hno
  · rintro s rfl
    refine ⟨⟨sound_init K, played_init N, ?_⟩, [], recorded_init N K⟩
    rintro (hmain | hmain) <;> simp [initState] at hmain
  · rintro _ s l t ⟨⟨hsound, hplayed, hresumes⟩, lines, hrecorded⟩ hl hs
    have he := step_cases hs
    have hne : l ≠ .spuriousMain := by
      rintro rfl
      exact hl
    exact ⟨⟨hsound.step hs, hplayed.step hsound he, hresumes.step hsound hplayed hne he⟩,
      hrecorded.step hsound hplayed hresumes hN hK he⟩

/-- Once all contestants have been joined, a transcript and the scores have been printed. -/
theorem transcript_of_run (hN : 0 < N) (hK : K < 2 ^ 32) {tr : List (State N × Label N)}
    (h : (midterm N K).Run tr s) (hno : ∀ p ∈ tr, Scheduled p.2) (hmain : s.main = .joining N) :
    ∃ lines, IsTranscript K lines ∧ s.board.out = lines ++ scores lines := by
  obtain ⟨lines, hprinted, hout, -⟩ := recorded_of_run hN hK h hno
  rw [hmain] at hprinted hout
  refine ⟨lines, ?_, ?_⟩
  · obtain ⟨sh, hsh, hshown⟩ := hprinted
    have hover := (sound_of_run h).past (by rw [hmain]; rfl)
    cases hshown with
    | idle =>
        have hle := (num_le_of_after hsh).1
        rw [IsTranscript, hsh, show s.board.num = K from le_antisymm hle hover]
  · rw [hout, List.take_of_length_le (by rw [length_scores]; rfl)]

/-! ## every transcript is printed -/

/-- The effects are the steps. -/
theorem step_of_effect (h : Effect K s l s') : Midterm.step K s l = some s' := by
  cases h with
  | lock hfree hpc | mainLock hfree hpc =>
      rcases hpc with ⟨hpc, rfl⟩ | ⟨hpc, rfl⟩ <;> simp [Midterm.step, playStep, mainStep, hpc, hfree]
  | rest hpc =>
      rcases hpc with ⟨hpc, hnum, hbuzz⟩ | hpc
      · simp [Midterm.step, playStep, hpc, not_le.mpr hnum, hbuzz]
      · simp [Midterm.step, playStep, hpc]
  | buzz hpc hnum hbuzz => simp [Midterm.step, playStep, hpc, not_le.mpr hnum, hbuzz]
  | quit hpc hover => simp [Midterm.step, playStep, hpc, hover]
  | enroll hpc | leave hpc => simp [Midterm.step, playStep, hpc]
  | again hpc hready => simp [Midterm.step, mainStep, hpc, hready]
  | start hpc hready => simp [Midterm.step, mainStep, hpc, not_lt.mpr hready]
  | ask hpc hnum => simp [Midterm.step, mainStep, hpc, hnum]
  | close hpc hnum => simp [Midterm.step, mainStep, hpc, not_lt.mpr hnum]
  | join hpc hk hfinished => simp [Midterm.step, mainStep, hpc, hk, hfinished]
  | call hpc | pause hpc | review hpc | dismiss hpc | unlock hpc => simp [Midterm.step, mainStep, hpc]
  | spuriousPlay hpc | spuriousMain hpc => simp [Midterm.step, hpc]

/-- Steps without a spurious wake-up lead from one state to another. -/
abbrev Leads (K : Nat) : State N → State N → Prop := (midterm N K).Reach Scheduled

theorem leads_of_effect (hl : Scheduled l) (h : Effect K s l s') : Leads K s s' :=
  .single hl (step_of_effect h)

/-- A contestant gets ready and waits. -/
theorem leads_enroll {c : Fin N} (hfree : s.owner = none) (hpc : s.play c = .starting) :
    ∃ t, Leads K s t ∧ t.owner = none ∧ t.main = s.main ∧ t.board.out = s.board.out ∧
      t.play = Function.update s.play c .waiting := by
  refine ⟨_, (leads_of_effect (l := .play c 0) trivial (.lock hfree (.inl ⟨hpc, rfl⟩))).trans
    (leads_of_effect (l := .play c 0) trivial (.enroll (by simp [play_move]))), rfl, rfl, rfl, ?_⟩
  simp [State.move]

/-- A contestant takes the mutex, answers, sleeps and goes back to the wait. -/
theorem leads_answer {c : Fin N} (hfree : s.owner = none) (hpc : s.play c = .woken)
    (hnum : s.board.num < K) (hbuzz : s.board.canBuzzIn c = true) {ans : Nat} (hans : ans < K)
    (hK : K < 2 ^ 32) :
    ∃ t, Leads K s t ∧ t.owner = none ∧ t.board = s.board.buzz c ans ∧
      t.main = (if s.board.settles ans then s.main.signal else s.main) ∧
      t.play = Function.update s.play c .waiting := by
  obtain ⟨rnd, rfl⟩ := exists_rnd hans hK
  refine ⟨_, ((leads_of_effect (l := .play c 0) trivial (.lock hfree (.inr ⟨hpc, rfl⟩))).trans
    (leads_of_effect (l := .play c rnd) trivial (.buzz (by simp [play_move]) hnum hbuzz))).trans
    (leads_of_effect (l := .play c 0) trivial (.rest (.inr (by simp [play_move])))), rfl, rfl, rfl, ?_⟩
  simp [State.move]

/-- A contestant takes the mutex, finds no clue to come, and is done. -/
theorem leads_quit {c : Fin N} (hfree : s.owner = none) (hpc : s.play c = .woken)
    (hover : K ≤ s.board.num) :
    ∃ t, Leads K s t ∧ t.owner = none ∧ t.board = s.board ∧ t.main = s.main ∧
      t.play = Function.update s.play c .finished := by
  refine ⟨_, ((leads_of_effect (l := .play c 0) trivial (.lock hfree (.inr ⟨hpc, rfl⟩))).trans
    (leads_of_effect (l := .play c 0) trivial (.quit (by simp [play_move]) hover))).trans
    (leads_of_effect (l := .play c 0) trivial (.leave (by simp [play_move]))), rfl, rfl, rfl, ?_⟩
  simp [State.move]

/-- `main` takes the mutex after its wait and ends the round. -/
theorem leads_review (hfree : s.owner = none) (hpc : s.main = .woken) :
    Leads K s { s with owner := some .alex, board := s.board.review, main := .asking } :=
  (leads_of_effect (l := .main) trivial (.mainLock hfree (.inr ⟨hpc, rfl⟩))).trans
    (leads_of_effect (l := .main) trivial (.review rfl))

/-- The contestants are at their waits, or have been woken. -/
def Resting (s : State N) : Prop := ∀ c, s.play c = .waiting ∨ s.play c = .woken

/-- Where the threads are when the show is at some point. -/
inductive Placed (s : State N) : Show N → Prop
  | idle {n : Nat} (hmain : s.main = .asking) (hrest : Resting s) : Placed s ⟨n, .idle⟩
  | guessing {n : Nat} {failed : List (Fin N)} (hmain : s.main = .waiting) (hfree : s.owner = none)
      (hrest : Resting s) (hwoken : ∀ c, c ∉ failed → s.play c = .woken) :
      Placed s ⟨n, .guessing failed⟩
  | failed {n : Nat} (hmain : s.main = .woken) (hfree : s.owner = none) (hrest : Resting s) :
      Placed s ⟨n, .failed⟩

theorem Resting.update (h : Resting s) {t : State N} {c : Fin N} (hplay : t.play = Function.update s.play c .waiting) :
    Resting t := by
  intro c'
  rw [hplay, Function.update_apply]
  split
  · exact .inl rfl
  · exact h c'

/-- The broadcast wakes all that wait. -/
theorem broadcast_of_resting (h : Resting s) (c : Fin N) : (s.play c).broadcast = .woken := by
  rcases h c with hpc | hpc <;> rw [hpc] <;> rfl

/-- A clue is read, and the contestants are called. -/
theorem leads_clue (hmain : s.main = .asking) (hnum : s.board.num < K) :
    Leads K s { s with
      board := s.board.ask.setAllBuzzers true
      owner := none
      main := .waiting
      play := fun c => (s.play c).broadcast } :=
  ((leads_of_effect (l := .main) trivial (.ask hmain hnum)).trans
    (leads_of_effect (l := .main) trivial (.call rfl))).trans
    (leads_of_effect (l := .main) trivial (.pause rfl))

/-- **An answer that can come next can be given.** -/
theorem leads_answered {n : Nat} {failed : List (Fin N)} (hplaced : Placed s ⟨n, .guessing failed⟩)
    (hshown : Shown s.board s.main.phase ⟨n, .guessing failed⟩) (hsound : Sound K s)
    (hN : N < 2 ^ 32) (hK : K < 2 ^ 32) {c : Fin N} (hc : c ∉ failed) {ans : Nat} (hans : ans < K) :
    ∃ t, Leads K s t ∧ t.board.out = s.board.out ++ [.answer c ans (decide (ans = n))] ∧
      Placed t (if ans = n then ⟨n + 1, .idle⟩
        else if failed.length + 1 < N then ⟨n, .guessing (failed ++ [c])⟩ else ⟨n, .failed⟩) := by
  cases hplaced with
  | guessing hmain hfree hrest hwoken =>
      rw [hmain] at hshown
      cases hshown with
      | guessing hopen hnodup hfailed hlt =>
          obtain ⟨t, hlead, hfree', hboard, hmain', hplay⟩ := leads_answer hfree (hwoken c hc)
            (hsound.playing (by rw [hmain]; rfl)) ((hopen c).mpr hc) hans hK
          have hrest' := hrest.update hplay
          have hout : t.board.out = s.board.out ++ [.answer c ans (decide (ans = s.board.num))] := by
            rw [hboard, out_buzz]
          rw [hmain] at hmain'
          by_cases hright : ans = s.board.num
          · -- `main` ends the round, and prints nothing more
            have hsettles : s.board.settles ans = true := decide_eq_true (.inl hright)
            rw [hsettles] at hmain'
            have hmiss : t.board.failedTries ≠ N := by
              rw [hboard, failedTries_buzz, if_pos hright]
              omega
            refine ⟨_, hlead.trans (leads_review hfree' hmain'), ?_, ?_⟩
            · rw [← hout]
              show t.board.review.out = _
              rw [out_review, if_neg hmiss, List.append_nil]
            · rw [if_pos hright]
              exact .idle rfl hrest'
          · have hsettles : s.board.settles ans = decide (N ≤ failed.length + 1) := by
              rw [Board.settles, hfailed, uinc, Nat.mod_eq_of_lt (by omega)]
              simp [hright]
            refine ⟨t, hlead, hout, ?_⟩
            rw [if_neg hright]
            by_cases hmore : failed.length + 1 < N
            · rw [hsettles, decide_eq_false (by omega)] at hmain'
              rw [if_pos hmore]
              refine .guessing hmain' hfree' hrest' fun c' hc' => ?_
              rw [List.mem_append, List.mem_singleton, not_or] at hc'
              rw [hplay, Function.update_of_ne hc'.2]
              exact hwoken c' hc'.1
            · rw [hsettles, decide_eq_true (by omega)] at hmain'
              rw [if_neg hmore]
              exact .failed hmain' hfree' hrest'

/-- **Any line that can come next can be printed next.** -/
theorem leads_next {sh sh' : Show N} {line : Line N} (hplaced : Placed s sh)
    (hshown : Shown s.board s.main.phase sh) (hsound : Sound K s) (hN : N < 2 ^ 32) (hK : K < 2 ^ 32)
    (hturn : Turn K sh line sh') :
    ∃ t, Leads K s t ∧ t.board.out = s.board.out ++ [line] ∧ Placed t sh' := by
  cases hturn with
  | clue hnum =>
      cases hplaced with
      | idle hmain hrest =>
          rw [hmain] at hshown
          cases hshown with
          | idle =>
              exact ⟨_, leads_clue hmain hnum, rfl, .guessing rfl rfl
                (fun c => .inr (broadcast_of_resting hrest c)) fun c _ => broadcast_of_resting hrest c⟩
  | answer hc hans => exact leads_answered hplaced hshown hsound hN hK hc hans
  | response =>
      cases hplaced with
      | failed hmain hfree hrest =>
          rw [hmain] at hshown
          cases hshown with
          | failed hquiet hfailed =>
              refine ⟨_, leads_review hfree hmain, ?_, .idle rfl hrest⟩
              rw [out_review, if_pos hfailed]

/-- The contestants get ready, and `main` starts. -/
theorem leads_start (hN : N < 2 ^ 32) :
    ∃ t, Leads K (initState N) t ∧ t.board.out = [] ∧ Placed t ⟨0, .idle⟩ := by
  obtain ⟨s, hs, hfree, hmain, hout, hplay⟩ : ∃ s, Leads K (initState N) s ∧ s.owner = none ∧
      s.main = .spinning ∧ s.board.out = [] ∧
      ∀ c, s.play c = if c.val < N then .waiting else .starting := by
    refine Machine.Reach.iterate (n := N) (Q := fun (k : Nat) (s : State N) => s.owner = none ∧
      s.main = .spinning ∧ s.board.out = [] ∧
      ∀ c, s.play c = if c.val < k then .waiting else .starting) ?_
      ⟨rfl, rfl, rfl, fun c => rfl⟩
    rintro k hk s ⟨hfree, hmain, hout, hplay⟩
    obtain ⟨t, hlead, hfree', hmain', hout', hplay'⟩ :=
      leads_enroll (K := K) (c := ⟨k, hk⟩) hfree (by simp [hplay])
    refine ⟨t, hlead, hfree', hmain'.trans hmain, hout'.trans hout, fun c => ?_⟩
    rw [hplay', Function.update_apply, hplay]
    grind
  -- all contestants have counted themselves
  have hready : N ≤ s.board.ready := by
    obtain ⟨tr, hrun, -⟩ := (Machine.Run.start (M := midterm N K) rfl).extend hs
    have hall : (fun c => (s.play c).enrolled) = fun _ => true := by
      funext c
      rw [hplay, if_pos c.isLt]
      rfl
    rw [(sound_of_run hrun).ready, hall, counted_true, Nat.mod_eq_of_lt hN]
  refine ⟨_, (hs.trans (leads_of_effect (l := .main) trivial (.mainLock hfree (.inl ⟨hmain, rfl⟩)))).trans
    (leads_of_effect (l := .main) trivial (.start rfl hready)), hout, .idle rfl fun c => .inl ?_⟩
  show s.play c = .waiting
  rw [hplay, if_pos c.isLt]

theorem Placed.told {sh : Show N} (h : Placed s sh) : s.main.told = 0 := by
  cases h with
  | idle hmain | guessing hmain | failed hmain => rw [hmain]; rfl

/-- The beginning of a transcript, up to any of its lines. -/
theorem exists_run_of_after (hN : 0 < N) (hN' : N < 2 ^ 32) (hK : K < 2 ^ 32) {sh : Show N}
    (h : after K lines = some sh) :
    ∃ tr s, (midterm N K).Run tr s ∧ (∀ p ∈ tr, Scheduled p.2) ∧ Recorded K s lines ∧ Placed s sh := by
  induction lines using List.reverseRecOn generalizing sh with
  | nil =>
      obtain rfl := Option.some.inj h
      obtain ⟨t, hlead, hout, hplaced⟩ := leads_start (K := K) hN'
      obtain ⟨tr, hrun, hno⟩ := (Machine.Run.start (M := midterm N K) rfl).extend_of_steps nofun hlead
      obtain ⟨lines, hrecorded⟩ := recorded_of_run hN hK hrun hno
      obtain rfl := (hrecorded.lines_eq hplaced.told).symm.trans hout
      exact ⟨tr, t, hrun, hno, hrecorded, hplaced⟩
  | append_singleton lines line ih =>
      rw [after, Machine.exec_append] at h
      obtain ⟨sh', hsh', hline⟩ := Option.bind_eq_some_iff.mp h
      obtain ⟨tr, s, hrun, hno, hrecorded, hplaced⟩ := ih hsh'
      have hshown : Shown s.board s.main.phase sh' := by
        obtain ⟨sh'', hsh'', hshown⟩ := hrecorded.printed
        rw [← after, hsh''] at hsh'
        exact Option.some.inj hsh' ▸ hshown
      have hturn : Turn K sh' line sh := next_cases (by simpa [Machine.exec, quiz] using hline)
      obtain ⟨t, hlead, hout, hplaced'⟩ := leads_next hplaced hshown (sound_of_run hrun) hN' hK hturn
      obtain ⟨tr', hrun', hno'⟩ := hrun.extend_of_steps hno hlead
      obtain ⟨lines', hrecorded'⟩ := recorded_of_run hN hK hrun' hno'
      obtain rfl : lines' = lines ++ [line] := by
        rw [← hrecorded'.lines_eq hplaced'.told, hout, hrecorded.lines_eq hplaced.told]
      exact ⟨tr', t, hrun', hno', hrecorded', hplaced'⟩

/-- All contestants that have been woken leave their loops. -/
theorem leads_dismissed (hfree : s.owner = none) (hwoken : ∀ c, s.play c = .woken)
    (hover : K ≤ s.board.num) :
    ∃ t, Leads K s t ∧ t.board = s.board ∧ t.main = s.main ∧ ∀ c, t.play c = .finished := by
  obtain ⟨t, ht, -, hboard, hmain, hplay⟩ : ∃ t, Leads K s t ∧ t.owner = none ∧ t.board = s.board ∧
      t.main = s.main ∧ ∀ c, t.play c = if c.val < N then .finished else .woken := by
    refine Machine.Reach.iterate (n := N) (Q := fun (k : Nat) (t : State N) => t.owner = none ∧
      t.board = s.board ∧ t.main = s.main ∧
      ∀ c, t.play c = if c.val < k then .finished else .woken) ?_ ⟨hfree, rfl, rfl, hwoken⟩
    rintro k hk t ⟨hfree, hboard, hmain, hplay⟩
    obtain ⟨u, hlead, hfree', hboard', hmain', hplay'⟩ :=
      leads_quit (K := K) (c := ⟨k, hk⟩) hfree (by simp [hplay]) (by rwa [hboard])
    refine ⟨u, hlead, hfree', hboard'.trans hboard, hmain'.trans hmain, fun c => ?_⟩
    rw [hplay', Function.update_apply, hplay]
    grind
  exact ⟨t, ht, hboard, hmain, fun c => by rw [hplay, if_pos c.isLt]⟩

/-- `main` joins the contestants and prints the final scores. -/
theorem leads_joined {tr : List (State N × Label N)} (hrun : (midterm N K).Run tr s)
    (h : Recorded K s lines) (hmain : s.main = .joining 0) (hplay : ∀ c, s.play c = .finished) :
    ∃ t, Leads K s t ∧ Recorded K t lines ∧ t.main = .joining N := by
  obtain ⟨t, ht, -, hrecorded, hmain', -⟩ : ∃ t, Leads K s t ∧ (∃ tr, (midterm N K).Run tr t) ∧
      Recorded K t lines ∧ t.main = .joining N ∧ ∀ c, t.play c = .finished := by
    refine Machine.Reach.iterate (n := N) (Q := fun (k : Nat) (t : State N) =>
      (∃ tr, (midterm N K).Run tr t) ∧ Recorded K t lines ∧ t.main = .joining k ∧
      ∀ c, t.play c = .finished) ?_ ⟨⟨tr, hrun⟩, h, hmain, hplay⟩
    rintro k hk t ⟨⟨tr, hrun⟩, hrecorded, hmain, hplay⟩
    have hlead := leads_of_effect (K := K) (l := .main) trivial (.join hmain hk (hplay _))
    obtain ⟨tr', hrun', -⟩ := hrun.extend hlead
    exact ⟨_, hlead, ⟨_, hrun'⟩, hrecorded.join (played_of_run hrun) hmain hk, rfl, hplay⟩
  exact ⟨t, ht, hrecorded, hmain'⟩

/-- After the last clue `main` lets the contestants go. -/
theorem leads_over (hmain : s.main = .asking) (hover : K ≤ s.board.num) :
    Leads K s { s with
      board := s.board.checkScores
      owner := none
      main := .joining 0
      play := fun c => (s.play c).broadcast } :=
  ((leads_of_effect (l := .main) trivial (.close hmain hover)).trans
    (leads_of_effect (l := .main) trivial (.dismiss rfl))).trans
    (leads_of_effect (l := .main) trivial (.unlock rfl))

/-- Every transcript is printed in some run, with the scores. -/
theorem run_of_transcript (hN : 0 < N) (hN' : N < 2 ^ 32) (hK : K < 2 ^ 32)
    (h : IsTranscript K lines) :
    ∃ tr s, (midterm N K).Run tr s ∧ (∀ p ∈ tr, Scheduled p.2) ∧ s.main = .joining N ∧
      s.board.out = lines ++ scores lines := by
  obtain ⟨tr, s, hrun, hno, hrecorded, hplaced⟩ := exists_run_of_after hN hN' hK h
  cases hplaced with
  | idle hmain hrest =>
      have hnum : s.board.num = K := by
        obtain ⟨sh, hsh, hshown⟩ := hrecorded.printed
        rw [IsTranscript, hsh] at h
        obtain rfl := Option.some.inj h
        rw [hmain] at hshown
        cases hshown
        rfl
      obtain ⟨tr₁, hrun₁, hno₁⟩ := hrun.extend_of_steps hno (leads_over hmain hnum.ge)
      obtain ⟨u, hlead, hboard, hmain', hplay⟩ :=
        leads_dismissed (K := K) (s := { s with
          board := s.board.checkScores
          owner := none
          main := .joining 0
          play := fun c => (s.play c).broadcast }) rfl (broadcast_of_resting hrest) hnum.ge
      obtain ⟨tr₂, hrun₂, hno₂⟩ := hrun₁.extend_of_steps hno₁ hlead
      have hclosed : Recorded K { s with main := .unlocking } lines :=
        hrecorded.of_board rfl (by rw [hmain]; rfl) (by rw [hmain]; rfl)
      have hrecorded' : Recorded K u lines :=
        (hclosed.unlock rfl).of_board hboard (by rw [hmain']) (by rw [hmain'])
      obtain ⟨v, hlead', hrecorded'', hmain''⟩ := leads_joined hrun₂ hrecorded' hmain' hplay
      obtain ⟨tr₃, hrun₃, hno₃⟩ := hrun₂.extend_of_steps hno₂ hlead'
      refine ⟨tr₃, v, hrun₃, hno₃, hmain'', ?_⟩
      rw [hrecorded''.out, hmain'', List.take_of_length_le (by rw [length_scores]; rfl)]

/-! ## what `rand()` returns -/

/-- The step calls `rand()`: `main` after a clue, for its pause, and a contestant for its
answer. -/
def callsRand (K : Nat) (s : State N) : Label N → Bool
  | .play c _ => decide (s.play c = .checking ∧ s.board.num < K) && s.board.canBuzzIn c
  | .main => decide (s.main = .asking ∧ s.board.num < K)
  | .spuriousPlay _ | .spuriousMain => false

/-- The step is one in which `rand()` returns this. -/
def Label.returns : Label N → UInt32 → Bool
  | .play _ rnd, rnd' => rnd == rnd'
  | .main, _ | .spuriousPlay _, _ | .spuriousMain, _ => true

/-- The program, when the calls of `rand()` return `rnd 0`, `rnd 1` and so on.  The seed
decides which sequence that is; its values are from 0 to `RAND_MAX`. -/
def seeded (N K : Nat) (rnd : Nat → UInt32) : Machine (State N × Nat) (Label N) :=
  (midterm N K).supplied (callsRand K) Label.returns rnd

/-- The printed lines that a random number was drawn at. -/
def drawnLines (s : State N) : List (Line N) := s.board.out.filter Line.draws

/-- Nothing is drawn in a step that does not call `rand()`. -/
theorem drawnLines_quiet (hs : Effect K s l s') (hquiet : callsRand K s l = false) :
    drawnLines s' = drawnLines s := by
  cases hs with
  | buzz hpc hnum hbuzz => simp [callsRand, hpc, hnum, hbuzz] at hquiet
  | ask hpc hnum => simp [callsRand, hpc, hnum] at hquiet
  | review =>
      rw [drawnLines, out_review, List.filter_append]
      split <;> simp [Line.draws, drawnLines]
  | unlock | join => simp [drawnLines, Board.checkScores, Board.announce, Line.draws]
  | lock | enroll | rest | quit | leave | mainLock | again | start | close | call | pause | dismiss
  | spuriousPlay | spuriousMain => rfl

/-- The line of a step that calls `rand()` comes of what it returns, and another value with
the same remainder would have done the same. -/
theorem drawnLines_calls (hs : Effect K s l s') (hcalls : callsRand K s l = true) :
    ∃ line, drawnLines s' = drawnLines s ++ [line] ∧
      (∀ rnd, l.returns rnd = true → line.ComesOf K rnd) ∧
      ∀ rnd, line.ComesOf K rnd → ∃ l', Scheduled l' ∧ callsRand K s l' = true ∧
        l'.returns rnd = true ∧ Midterm.step K s l' = some s' := by
  cases hs with
  | @buzz c rnd hpc hnum hbuzz =>
      refine ⟨.answer c (rnd.toNat % K) (decide (rnd.toNat % K = s.board.num)), ?_, ?_, ?_⟩
      · simp [drawnLines, out_buzz, Line.draws]
      · intro rnd' hret
        obtain rfl : rnd = rnd' := by simpa [Label.returns] using hret
        rfl
      · intro rnd' hcomes
        have hans : rnd.toNat % K = rnd'.toNat % K := hcomes
        refine ⟨.play c rnd', trivial, hcalls, by simp [Label.returns], ?_⟩
        rw [step_of_effect (.buzz hpc hnum hbuzz), hans]
  | ask hpc hnum =>
      refine ⟨.clue s.board.num, by simp [drawnLines, Board.ask, Line.draws], fun _ _ => trivial, ?_⟩
      exact fun _ _ => ⟨.main, trivial, hcalls, rfl, step_of_effect (.ask hpc hnum)⟩
  | lock hfree hpc => rcases hpc with ⟨hpc, rfl⟩ | ⟨hpc, rfl⟩ <;> simp [callsRand, hpc] at hcalls
  | rest hpc =>
      rcases hpc with ⟨hpc, hnum, hbuzz⟩ | hpc
      · simp [callsRand, hbuzz] at hcalls
      · simp [callsRand, hpc] at hcalls
  | quit hpc hover => simp [callsRand, not_lt.mpr hover] at hcalls
  | mainLock hfree hpc => rcases hpc with ⟨hpc, rfl⟩ | ⟨hpc, rfl⟩ <;> simp [callsRand, hpc] at hcalls
  | close hpc hnum => simp [callsRand, not_lt.mpr hnum] at hcalls
  | enroll hpc | leave hpc | again hpc | start hpc | call hpc | pause hpc | review hpc | dismiss hpc
  | unlock hpc | join hpc => simp [callsRand, hpc] at hcalls
  | spuriousPlay | spuriousMain => simp [callsRand] at hcalls

/-- The printed lines are a log of the calls of `rand()`. -/
theorem logs_rand (N K : Nat) :
    Machine.Logs (midterm N K) Scheduled (callsRand K) Label.returns drawnLines (Line.ComesOf K) where
  init := by
    rintro s rfl
    rfl
  quiet _ _ _ hs := drawnLines_quiet (step_cases hs)
  takes _ _ _ _ hs := drawnLines_calls (step_cases hs)

/-- With these values, a run prints a transcript whose answers come of them. -/
theorem transcript_of_seeded (hN : 0 < N) (hK : K < 2 ^ 32) {rnd : Nat → UInt32}
    {tr : List ((State N × Nat) × Label N)} {s : State N × Nat} (h : (seeded N K rnd).Run tr s)
    (hno : ∀ p ∈ tr, Scheduled p.2) (hmain : s.1.main = .joining N) :
    ∃ lines, IsTranscript K lines ∧ Drawn K rnd lines ∧ s.1.board.out = lines ++ scores lines := by
  obtain ⟨⟨tr', hrun, hno'⟩, -, hdrawn⟩ := (logs_rand N K).run_of_supplied h hno
  obtain ⟨lines, htranscript, hout⟩ := transcript_of_run hN hK hrun hno' hmain
  refine ⟨lines, htranscript, ?_, hout⟩
  rw [drawnLines, hout] at hdrawn
  exact drawn_append_scores.mp hdrawn

/-- A transcript whose answers come of these values is printed in some run with them. -/
theorem seeded_of_transcript (hN : 0 < N) (hN' : N < 2 ^ 32) (hK : K < 2 ^ 32) {rnd : Nat → UInt32}
    (h : IsTranscript K lines) (hdrawn : Drawn K rnd lines) :
    ∃ tr s, (seeded N K rnd).Run tr s ∧ (∀ p ∈ tr, Scheduled p.2) ∧ s.1.main = .joining N ∧
      s.1.board.out = lines ++ scores lines := by
  obtain ⟨tr, s, hrun, hno, hmain, hout⟩ := run_of_transcript hN hN' hK h
  have hmatched : Matched (Line.ComesOf K) rnd (drawnLines s) := by
    rw [drawnLines, hout]
    exact drawn_append_scores.mpr hdrawn
  obtain ⟨tr', hrun', hno'⟩ := (logs_rand N K).supplied_of_run hrun hno hmatched
  exact ⟨tr', _, hrun', hno', hmain, hout⟩

/-- **What the pthread quiz prints.**  When `rand()` returns these values, the schedules
without spurious wake-ups that come to an end print exactly the transcripts whose answers come
of them, each with its scores. -/
theorem prints_iff (hN : 0 < N) (hN' : N < 2 ^ 32) (hK : K < 2 ^ 32) (rnd : Nat → UInt32)
    (out : List (Line N)) :
    (∃ tr s, (seeded N K rnd).Run tr s ∧ (∀ p ∈ tr, Scheduled p.2) ∧ s.1.main = .joining N ∧
      s.1.board.out = out) ↔
    ∃ lines, IsTranscript K lines ∧ Drawn K rnd lines ∧ out = lines ++ scores lines := by
  constructor
  · rintro ⟨tr, s, hrun, hno, hmain, rfl⟩
    exact transcript_of_seeded hN hK hrun hno hmain
  · rintro ⟨lines, htranscript, hdrawn, rfl⟩
    exact seeded_of_transcript hN hN' hK htranscript hdrawn

/-- The second contestant answers the first clue right, and both fail at the second one. -/
def shortShow : List (Line 2) :=
  [.clue 0, .answer (Fin.last 1) 0 true, .clue 1, .answer ⟨0, Nat.two_pos⟩ 0 false,
    .answer (Fin.last 1) 0 false, .response 1]

/-- Five calls. -/
def shortRandom (i : Nat) : UInt32 := [7, 4, 1, 2, 6].getD i 0

theorem prints_iff_shortShow :
    ∃ tr s, (seeded 2 2 shortRandom).Run tr s ∧ (∀ p ∈ tr, Scheduled p.2) ∧ s.1.main = .joining 2 ∧
      s.1.board.out = shortShow ++ [.heading, .standing 0 (-400), .standing 1 (-200)] :=
  (prints_iff (by decide) (by decide) (by decide) _ _).mpr
    ⟨shortShow, by decide, by decide, by decide⟩

end Cmsc421.Quiz.Midterm
