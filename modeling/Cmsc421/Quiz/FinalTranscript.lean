import Cmsc421.Quiz.MidtermTranscript
import Cmsc421.Quiz.FinalScores

/-!
# Cmsc421.Quiz.FinalTranscript

What `final.c` can print.

The argument is that of `Cmsc421.Quiz.MidtermTranscript`: the lines of a run are always
the beginning of a transcript, and every transcript is printed in some run.  Here
the threads of that run hand the token on, and the contestant that takes it is the
one that answers next.  `get_random_int()` is called under the mutex as well, once for every
clue and every answer.  The heading of the scores comes from Alex, and the scores from
`jeop_exit`.
-/

namespace Cmsc421.Quiz.Final

variable {N K : Nat} {s s' : State N} {l : Label N} {lines : List (Line N)}

/-- The loop of `jeop_exit`, over the list of the contestants. -/
def jeopExit (b : Board N) : Board N := (List.finRange N).foldl Board.announce b

/-- All threads have returned. -/
def Over (s : State N) : Prop := s.alex = .finished ∧ ∀ c, s.play c = .finished

instance (s : State N) : Decidable (Over s) := inferInstanceAs (Decidable (_ ∧ _))

theorem announce_score (b : Board N) (c : Fin N) : (b.announce c).score = b.score := rfl

/-- All scores are printed, in the order of the list. -/
theorem out_foldl_announce (cs : List (Fin N)) (b : Board N) :
    (cs.foldl Board.announce b).out = b.out ++ cs.map fun c => .standing c (b.score c) := by
  induction cs generalizing b with
  | nil => rw [List.foldl_nil, List.map_nil, List.append_nil]
  | cons c cs ih =>
      rw [List.foldl_cons, ih, announce_score, List.map_cons]
      simp [Board.announce]

/-! ## only transcripts are printed -/

/-- The heading of the scores, once Alex has printed it. -/
def AlexPc.told : AlexPc → List (Line N)
  | .finished => [.heading]
  | _ => []

/-- The lines are the beginning of a transcript, and nothing but the heading comes behind
them. -/
structure Recorded (K : Nat) (s : State N) (lines : List (Line N)) : Prop where
  printed : Printed K s.alex.phase s.board lines
  out : s.board.out = lines ++ s.alex.told

theorem recorded_init (N K : Nat) : Recorded K (initState N) [] := ⟨printed_init N K, rfl⟩

/-- Before the heading, the recorded lines are all that has been printed. -/
theorem Recorded.lines_eq (h : Recorded K s lines) (hpc : s.alex ≠ .finished) : s.board.out = lines := by
  have hnone : (s.alex.told : List (Line N)) = [] := by
    cases halex : s.alex with
    | finished => exact absurd halex hpc
    | _ => rfl
  rw [h.out, hnone, List.append_nil]

/-- A step of Alex that leaves the board alone. -/
theorem Recorded.of_board (h : Recorded K s lines) (hboard : s'.board = s.board)
    (hphase : s'.alex.phase = s.alex.phase) (hpc : s.alex ≠ .finished) (hpc' : s'.alex ≠ .finished) :
    Recorded K s' lines := by
  constructor
  · rw [hphase, hboard]
    exact h.printed
  · rw [hboard, h.lines_eq hpc]
    cases halex : s'.alex with
    | finished => exact absurd halex hpc'
    | _ => exact (List.append_nil lines).symm

/-- A step of the show. -/
theorem Recorded.of_lines (h : Recorded K s lines) {ls : List (Line N)} (hpc : s.alex ≠ .finished)
    (hpc' : s'.alex ≠ .finished) (hout : s'.board.out = s.board.out ++ ls)
    (hprinted : Printed K s'.alex.phase s'.board (lines ++ ls)) : Recorded K s' (lines ++ ls) := by
  refine ⟨hprinted, ?_⟩
  rw [hout, h.lines_eq hpc]
  cases halex : s'.alex with
  | finished => exact absurd halex hpc'
  | _ => exact (List.append_nil _).symm

/-- **One step.** -/
theorem Recorded.step (h : Recorded K s lines) (hcarried : Carried K s) (hN : 0 < N) (hK : K < 2 ^ 32)
    (hs : Effect K s l s') : ∃ lines', Recorded K s' lines' := by
  have hsound := hcarried.sound
  have hprinted := h.printed
  cases hs with
  | lock | unlock | take | reinit | quit | rest | pass => exact ⟨lines, hprinted, h.out⟩
  | alexLock _ hpc | alexUnlock hpc =>
      rcases hpc with ⟨hpc, rfl⟩ | ⟨hpc, rfl⟩ <;>
        exact ⟨lines, h.of_board rfl (by rw [hpc]; rfl) (by simp [hpc]) (by simp)⟩
  | again hpc | start hpc | close hpc | alexTake hpc | alexReinit hpc =>
      exact ⟨lines, h.of_board rfl (by rw [hpc]; rfl) (by simp [hpc]) (by simp)⟩
  | @enroll c rnd hpc =>
      -- Alex is still in the loop over `ready`
      have hstarted : s.alex.started = false := by
        by_contra hst
        have := (hsound.started (by simpa using hst)).2 c
        simp [hpc, PlayPc.enrolled] at this
      have hphase := phase_of_not_started hstarted
      rw [hphase] at hprinted
      refine ⟨lines, ?_, h.out⟩
      show Printed K s.alex.phase _ _
      rw [hphase]
      exact hprinted.enroll
  | @buzz c rnd hpc hnum hbuzz =>
      have hphase := hsound.kept.phase_eq hbuzz
      have hstarted : s.alex.started = true := by
        by_contra hst
        rw [phase_of_not_started (by simpa using hst)] at hphase
        contradiction
      have hunfinished : s.alex ≠ .finished := by
        intro halex
        rw [halex] at hphase
        contradiction
      rw [hphase] at hprinted
      refine ⟨_, h.of_lines hunfinished hunfinished (out_buzz ..) ?_⟩
      show Printed K s.alex.phase _ _
      rw [hphase]
      exact hprinted.buzz (hsound.started hstarted).1 hbuzz (Nat.mod_lt _ (Nat.zero_lt_of_lt hnum))
  | ask hpc hnum =>
      rw [hpc] at hprinted
      exact ⟨_, h.of_lines (by simp [hpc]) (by simp) rfl (hprinted.ask hnum)⟩
  | call hpc =>
      have hout := h.out
      rw [hpc] at hprinted hout
      exact ⟨lines, hprinted.release hN, hout⟩
  | review hpc =>
      rw [hpc] at hprinted
      have hquiet := (hcarried.settled (.inr (by rw [hpc]; rfl))).quiet hsound.kept.booked
      exact ⟨_, h.of_lines (by simp [hpc]) (by simp) (out_review _) (hprinted.review hK hquiet)⟩
  | finish hpc =>
      rw [hpc] at hprinted
      refine ⟨lines, hprinted.checkScores, ?_⟩
      show s.board.out ++ [.heading] = lines ++ [.heading]
      rw [h.lines_eq (by simp [hpc])]

theorem recorded_of_run (hN : 0 < N) (hK : K < 2 ^ 32) {tr : List (State N × Label N)}
    (h : (final N K).Run tr s) : ∃ lines, Recorded K s lines := by
  suffices hI : Carried K s ∧ ∃ lines, Recorded K s lines from hI.2
  refine Machine.Run.invariant (I := fun _ s => Carried K s ∧ ∃ lines, Recorded K s lines) ?_ ?_ h
  · rintro s rfl
    exact ⟨carried_init K, [], recorded_init N K⟩
  · rintro _ s l t ⟨hcarried, lines, hrecorded⟩ hs
    have he := step_cases hs
    exact ⟨hcarried.step he, hrecorded.step hcarried hN hK he⟩

/-- The lines `jeop_exit` adds are the final scores. -/
theorem out_jeopExit {tr : List (State N × Label N)} (h : (final N K).Run tr s) :
    (jeopExit s.board).out = s.board.out ++ standings s.board.out := by
  have hscore := (carried_of_run h).sound.kept.booked.score
  rw [jeopExit, out_foldl_announce, standings, List.ofFn_eq_map]
  simp only [hscore]

/-- Behind the heading of Alex, the lines of `jeop_exit` are the scores. -/
theorem append_standings (lines : List (Line N)) :
    (lines ++ [.heading]) ++ standings (lines ++ [.heading]) = lines ++ scores lines := by
  have htally : tally (lines ++ [.heading]) = tally lines := by
    rw [tally_concat]
    rfl
  rw [standings, htally, List.append_assoc]
  rfl

/-- Once Alex is done, a transcript has been printed, and with the lines of `jeop_exit` the
scores. -/
theorem transcript_of_run (hN : 0 < N) (hK : K < 2 ^ 32) {tr : List (State N × Label N)}
    (h : (final N K).Run tr s) (halex : s.alex = .finished) :
    ∃ lines, IsTranscript K lines ∧ s.board.out = lines ++ [.heading] ∧
      (jeopExit s.board).out = lines ++ scores lines := by
  obtain ⟨lines, ⟨sh, hsh, hshown⟩, hout⟩ := recorded_of_run hN hK h
  have hover := (carried_of_run h).sound.past (by rw [halex]; rfl)
  rw [halex] at hshown hout
  refine ⟨lines, ?_, hout, ?_⟩
  · cases hshown with
    | idle =>
        have hle := (num_le_of_after hsh).1
        rw [IsTranscript, hsh, show s.board.num = K from le_antisymm hle hover]
  · rw [out_jeopExit h, hout]
    exact append_standings lines

/-! ## every transcript is printed -/

/-- The effects are the steps. -/
theorem step_of_effect (h : Effect K s l s') : Final.step K s l = some s' := by
  cases h with
  | lock hfree hpc | alexLock hfree hpc =>
      rcases hpc with ⟨hpc, rfl⟩ | ⟨hpc, rfl⟩ <;> simp [Final.step, playStep, alexStep, hpc, hfree]
  | unlock hpc | alexUnlock hpc =>
      rcases hpc with ⟨hpc, rfl⟩ | ⟨hpc, rfl⟩ <;> simp [Final.step, playStep, alexStep, hpc]
  | take hpc hd | alexTake hpc hd => simp [Final.step, playStep, alexStep, hpc, hd]
  | quit hpc hover => simp [Final.step, playStep, hpc, hover]
  | rest hpc hnum hbuzz => simp [Final.step, playStep, hpc, not_le.mpr hnum, hbuzz]
  | buzz hpc hnum hbuzz => simp [Final.step, playStep, hpc, not_le.mpr hnum, hbuzz]
  | enroll hpc | reinit hpc | pass hpc => simp [Final.step, playStep, hpc]
  | again hpc hready => simp [Final.step, alexStep, hpc, hready]
  | start hpc hready => simp [Final.step, alexStep, hpc, not_lt.mpr hready]
  | ask hpc hnum => simp [Final.step, alexStep, hpc, hnum]
  | close hpc hnum => simp [Final.step, alexStep, hpc, not_lt.mpr hnum]
  | call hpc | alexReinit hpc | review hpc | finish hpc => simp [Final.step, alexStep, hpc]

/-- Steps lead from one state to another. -/
abbrev Leads (K : Nat) : State N → State N → Prop := (final N K).Reach fun _ => True

theorem leads_of_effect (h : Effect K s l s') : Leads K s s' := .single trivial (step_of_effect h)

/-- A contestant gets ready and waits. -/
theorem leads_enroll {c : Fin N} (hfree : s.owner = none) (hpc : s.play c = .starting) :
    ∃ t, Leads K s t ∧ t.owner = none ∧ t.alex = s.alex ∧ t.contCv = s.contCv ∧ t.alexCv = s.alexCv ∧
      t.board.out = s.board.out ∧ t.play = Function.update s.play c .waiting := by
  refine ⟨_, ((leads_of_effect (l := .play c 0) (.lock hfree (.inl ⟨hpc, rfl⟩))).trans
    (leads_of_effect (l := .play c 0) (.enroll (by simp [play_move])))).trans
    (leads_of_effect (l := .play c 0) (.unlock (.inl ⟨by simp [play_move], rfl⟩))),
    rfl, rfl, rfl, rfl, rfl, ?_⟩
  simp [State.move]

/-- A contestant takes the token and the mutex. -/
theorem leads_checking {c : Fin N} {d : Completion} (hfree : s.owner = none)
    (hpc : s.play c = .waiting) (hd : s.contCv.wait = some d) :
    ∃ t, Leads K s t ∧ t.owner = some (.cont c) ∧ t.alex = s.alex ∧ t.contCv = .reinit ∧
      t.alexCv = s.alexCv ∧ t.board = s.board ∧ t.play = Function.update s.play c .checking := by
  refine ⟨_, ((leads_of_effect (l := .play c 0) (.take hpc hd)).trans
    (leads_of_effect (l := .play c 0) (.lock hfree (.inr ⟨by simp [play_move], rfl⟩)))).trans
    (leads_of_effect (l := .play c 0) (.reinit (by simp [play_move]))), rfl, rfl, rfl, rfl, rfl, ?_⟩
  simp [State.move]

/-- It answers, hands the token on, and goes back to the wait. -/
theorem leads_answer {c : Fin N} (hpc : s.play c = .checking) (hnum : s.board.num < K)
    (hbuzz : s.board.canBuzzIn c = true) {ans : Nat} (hans : ans < K) (hK : K < 2 ^ 32) :
    ∃ t, Leads K s t ∧ t.owner = none ∧ t.alex = s.alex ∧ t.board = s.board.buzz c ans ∧
      t.alexCv = (if s.board.settles ans then s.alexCv.complete else s.alexCv) ∧
      t.contCv = (if s.board.settles ans then s.contCv else s.contCv.complete) ∧
      t.play = Function.update s.play c .waiting := by
  obtain ⟨rnd, rfl⟩ := exists_rnd hans hK
  refine ⟨_, (leads_of_effect (l := .play c rnd) (.buzz hpc hnum hbuzz)).trans
    (leads_of_effect (l := .play c 0) (.unlock (.inl ⟨by simp [play_move], rfl⟩))),
    rfl, rfl, rfl, rfl, rfl, ?_⟩
  simp [State.move]

/-- It finds no clue to come, hands the token on, and is done. -/
theorem leads_quit {c : Fin N} (hpc : s.play c = .checking) (hover : K ≤ s.board.num) :
    ∃ t, Leads K s t ∧ t.owner = none ∧ t.alex = s.alex ∧ t.board = s.board ∧
      t.contCv = s.contCv.complete ∧ t.play = Function.update s.play c .finished := by
  refine ⟨_, ((leads_of_effect (l := .play c 0) (.quit hpc hover)).trans
    (leads_of_effect (l := .play c 0) (.unlock (.inr ⟨by simp [play_move], rfl⟩)))).trans
    (leads_of_effect (l := .play c 0) (.pass (by simp [play_move]))), rfl, rfl, rfl, rfl, ?_⟩
  simp [State.move]

/-- A clue is read, and the token goes to the contestants. -/
theorem leads_clue (halex : s.alex = .asking) (hnum : s.board.num < K) :
    Leads K s { s with
      board := s.board.ask.setAllBuzzers true
      contCv := s.contCv.complete
      owner := none
      alex := .waiting } :=
  ((leads_of_effect (l := .alex) (.ask halex hnum)).trans
    (leads_of_effect (l := .alex) (.call rfl))).trans
    (leads_of_effect (l := .alex) (.alexUnlock (.inl ⟨rfl, rfl⟩)))

/-- Alex takes the token and ends the round. -/
theorem leads_review {d : Completion} (hfree : s.owner = none) (halex : s.alex = .waiting)
    (hd : s.alexCv.wait = some d) :
    Leads K s { s with
      owner := some .alex
      alexCv := .reinit
      board := s.board.review
      alex := .asking } :=
  (((leads_of_effect (l := .alex) (.alexTake halex hd)).trans
    (leads_of_effect (l := .alex) (.alexLock hfree (.inr ⟨rfl, rfl⟩)))).trans
    (leads_of_effect (l := .alex) (.alexReinit rfl))).trans
    (leads_of_effect (l := .alex) (.review rfl))

/-- After the last clue Alex leaves the token to the contestants. -/
theorem leads_over (halex : s.alex = .asking) (hover : K ≤ s.board.num) :
    Leads K s { s with
      board := s.board.checkScores
      owner := none
      contCv := s.contCv.complete
      alex := .finished } :=
  ((leads_of_effect (l := .alex) (.close halex hover)).trans
    (leads_of_effect (l := .alex) (.alexUnlock (.inr ⟨rfl, rfl⟩)))).trans
    (leads_of_effect (l := .alex) (.finish rfl))

/-- Where the threads are when the show is at some point, and where the token is. -/
inductive Placed (s : State N) : Show N → Prop
  | idle {n : Nat} (halex : s.alex = .asking) (hcont : s.contCv = .reinit)
      (halexCv : s.alexCv = .reinit) (hwait : ∀ c, s.play c = .waiting) : Placed s ⟨n, .idle⟩
  | guessing {n : Nat} {failed : List (Fin N)} (halex : s.alex = .waiting) (hfree : s.owner = none)
      (hcont : s.contCv = Completion.reinit.complete) (halexCv : s.alexCv = .reinit)
      (hwait : ∀ c, s.play c = .waiting) : Placed s ⟨n, .guessing failed⟩
  | failed {n : Nat} (halex : s.alex = .waiting) (hfree : s.owner = none) (hcont : s.contCv = .reinit)
      (halexCv : s.alexCv = Completion.reinit.complete) (hwait : ∀ c, s.play c = .waiting) :
      Placed s ⟨n, .failed⟩

/-- **An answer that can come next can be given.** -/
theorem leads_answered {n : Nat} {failed : List (Fin N)} (hplaced : Placed s ⟨n, .guessing failed⟩)
    (hshown : Shown s.board s.alex.phase ⟨n, .guessing failed⟩) (hn : n < K)
    (hN : N < 2 ^ 32) (hK : K < 2 ^ 32) {c : Fin N} (hc : c ∉ failed) {ans : Nat} (hans : ans < K) :
    ∃ t, Leads K s t ∧ t.board.out = s.board.out ++ [.answer c ans (decide (ans = n))] ∧
      Placed t (if ans = n then ⟨n + 1, .idle⟩
        else if failed.length + 1 < N then ⟨n, .guessing (failed ++ [c])⟩ else ⟨n, .failed⟩) := by
  cases hplaced with
  | guessing halex hfree hcont halexCv hwait =>
      rw [halex] at hshown
      cases hshown with
      | guessing hopen hnodup hfailed hlt =>
          have htoken : s.contCv.wait = some .reinit := by rw [hcont, Completion.wait_complete_reinit]
          obtain ⟨t, hlead, -, halex', hcont', halexCv', hboard, hplay⟩ :=
            leads_checking (K := K) hfree (hwait c) htoken
          obtain ⟨u, hlead', hfree'', halex'', hboard', halexCv'', hcont'', hplay'⟩ :=
            leads_answer (s := t) (c := c) (by rw [hplay, Function.update_self]) (by rwa [hboard])
              (by rw [hboard]; exact (hopen c).mpr hc) hans hK
          rw [hboard] at hboard' halexCv'' hcont''
          rw [halexCv', halexCv] at halexCv''
          rw [hcont'] at hcont''
          have halexU : u.alex = .waiting := by rw [halex'', halex', halex]
          have hwait' : ∀ c', u.play c' = .waiting := by
            intro c'
            rw [hplay', hplay, Function.update_idem, Function.update_apply]
            split
            · rfl
            · exact hwait c'
          have hout : u.board.out = s.board.out ++ [.answer c ans (decide (ans = s.board.num))] := by
            rw [hboard', out_buzz]
          by_cases hright : ans = s.board.num
          · -- Alex ends the round, and prints nothing more
            have hsettles : s.board.settles ans = true := decide_eq_true (.inl hright)
            rw [hsettles] at halexCv'' hcont''
            have hmiss : u.board.failedTries ≠ N := by
              rw [hboard', failedTries_buzz, if_pos hright]
              omega
            refine ⟨_, (hlead.trans hlead').trans (leads_review (d := .reinit) hfree'' halexU ?_), ?_, ?_⟩
            · rw [halexCv'']
              rfl
            · rw [← hout]
              show u.board.review.out = _
              rw [out_review, if_neg hmiss, List.append_nil]
            · rw [if_pos hright]
              exact .idle rfl hcont'' rfl hwait'
          · have hsettles : s.board.settles ans = decide (N ≤ failed.length + 1) := by
              rw [Board.settles, hfailed, uinc, Nat.mod_eq_of_lt (by omega)]
              simp [hright]
            refine ⟨u, hlead.trans hlead', hout, ?_⟩
            rw [if_neg hright]
            by_cases hmore : failed.length + 1 < N
            · rw [hsettles, decide_eq_false (by omega)] at halexCv'' hcont''
              rw [if_pos hmore]
              exact .guessing halexU hfree'' hcont'' halexCv'' hwait'
            · rw [hsettles, decide_eq_true (by omega)] at halexCv'' hcont''
              rw [if_neg hmore]
              exact .failed halexU hfree'' hcont'' halexCv'' hwait'

/-- **Any line that can come next can be printed next.** -/
theorem leads_next {sh sh' : Show N} {line : Line N} (hplaced : Placed s sh)
    (hshown : Shown s.board s.alex.phase sh) (hlt : sh.stage ≠ .idle → sh.num < K) (hN : N < 2 ^ 32)
    (hK : K < 2 ^ 32) (hturn : Turn K sh line sh') :
    ∃ t, Leads K s t ∧ t.board.out = s.board.out ++ [line] ∧ Placed t sh' := by
  cases hturn with
  | clue hnum =>
      cases hplaced with
      | idle halex hcont halexCv hwait =>
          rw [halex] at hshown
          cases hshown with
          | idle =>
              exact ⟨_, leads_clue halex hnum, rfl,
                .guessing rfl rfl (congrArg Completion.complete hcont) halexCv hwait⟩
  | answer hc hans => exact leads_answered hplaced hshown (hlt nofun) hN hK hc hans
  | response =>
      cases hplaced with
      | failed halex hfree hcont halexCv hwait =>
          rw [halex] at hshown
          cases hshown with
          | failed hquiet hfailed =>
              refine ⟨_, leads_review (d := .reinit) hfree halex (by rw [halexCv]; rfl), ?_,
                .idle rfl hcont rfl hwait⟩
              rw [out_review, if_pos hfailed]

/-- The contestants get ready, and Alex starts. -/
theorem leads_start (hN : N < 2 ^ 32) :
    ∃ t, Leads K (initState N) t ∧ t.board.out = [] ∧ Placed t ⟨0, .idle⟩ := by
  obtain ⟨s, hs, hfree, halex, hcont, halexCv, hout, hplay⟩ : ∃ s, Leads K (initState N) s ∧
      s.owner = none ∧ s.alex = .spinning ∧ s.contCv = .reinit ∧ s.alexCv = .reinit ∧
      s.board.out = [] ∧ ∀ c, s.play c = if c.val < N then .waiting else .starting := by
    refine Machine.Reach.iterate (n := N) (Q := fun (k : Nat) (s : State N) => s.owner = none ∧
      s.alex = .spinning ∧ s.contCv = .reinit ∧ s.alexCv = .reinit ∧ s.board.out = [] ∧
      ∀ c, s.play c = if c.val < k then .waiting else .starting) ?_
      ⟨rfl, rfl, rfl, rfl, rfl, fun c => rfl⟩
    rintro k hk s ⟨hfree, halex, hcont, halexCv, hout, hplay⟩
    obtain ⟨t, hlead, hfree', halex', hcont', halexCv', hout', hplay'⟩ :=
      leads_enroll (K := K) (c := ⟨k, hk⟩) hfree (by simp [hplay])
    refine ⟨t, hlead, hfree', halex'.trans halex, hcont'.trans hcont, halexCv'.trans halexCv,
      hout'.trans hout, fun c => ?_⟩
    rw [hplay', Function.update_apply, hplay]
    grind
  -- all contestants have counted themselves
  have hready : N ≤ s.board.ready := by
    obtain ⟨tr, hrun, -⟩ := (Machine.Run.start (M := final N K) rfl).extend hs
    have hall : (fun c => (s.play c).enrolled) = fun _ => true := by
      funext c
      rw [hplay, if_pos c.isLt]
      rfl
    rw [(carried_of_run hrun).sound.ready, hall, counted_true, Nat.mod_eq_of_lt hN]
  refine ⟨_, (hs.trans (leads_of_effect (l := .alex) (.alexLock hfree (.inl ⟨halex, rfl⟩)))).trans
    (leads_of_effect (l := .alex) (.start rfl hready)), hout, .idle rfl hcont halexCv fun c => ?_⟩
  show s.play c = .waiting
  rw [hplay, if_pos c.isLt]

theorem Placed.unfinished {sh : Show N} (h : Placed s sh) : s.alex ≠ .finished := by
  cases h with
  | idle halex | guessing halex | failed halex => simp [halex]

/-- The beginning of a transcript, up to any of its lines. -/
theorem exists_run_of_after (hN : 0 < N) (hN' : N < 2 ^ 32) (hK : K < 2 ^ 32) {sh : Show N}
    (h : after K lines = some sh) :
    ∃ tr s, (final N K).Run tr s ∧ s.board.out = lines ∧ Placed s sh := by
  induction lines using List.reverseRecOn generalizing sh with
  | nil =>
      obtain rfl := Option.some.inj h
      obtain ⟨t, hlead, hout, hplaced⟩ := leads_start (K := K) hN'
      obtain ⟨tr, hrun, -⟩ := (Machine.Run.start (M := final N K) rfl).extend hlead
      exact ⟨_, t, hrun, hout, hplaced⟩
  | append_singleton lines line ih =>
      rw [after, Machine.exec_append] at h
      obtain ⟨sh', hsh', hline⟩ := Option.bind_eq_some_iff.mp h
      obtain ⟨tr, s, hrun, rfl, hplaced⟩ := ih hsh'
      have hshown : Shown s.board s.alex.phase sh' := by
        obtain ⟨lines, hrecorded⟩ := recorded_of_run hN hK hrun
        rw [hrecorded.lines_eq hplaced.unfinished] at hsh'
        obtain ⟨sh'', hsh'', hshown⟩ := hrecorded.printed
        rw [← after, hsh''] at hsh'
        exact Option.some.inj hsh' ▸ hshown
      have hturn : Turn K sh' line sh := next_cases (by simpa [Machine.exec, quiz] using hline)
      obtain ⟨t, hlead, hout, hplaced'⟩ :=
        leads_next hplaced hshown (num_le_of_after hsh').2 hN' hK hturn
      obtain ⟨tr', hrun', -⟩ := hrun.extend hlead
      exact ⟨_, t, hrun', hout, hplaced'⟩

/-- The token goes from contestant to contestant, and each of them is done. -/
theorem leads_dismissed (hfree : s.owner = none) (hcont : s.contCv = Completion.reinit.complete)
    (hwait : ∀ c, s.play c = .waiting) (hover : K ≤ s.board.num) :
    ∃ t, Leads K s t ∧ t.board = s.board ∧ t.alex = s.alex ∧ ∀ c, t.play c = .finished := by
  obtain ⟨t, ht, -, -, hboard, halex, hplay⟩ : ∃ t, Leads K s t ∧ t.owner = none ∧
      t.contCv = Completion.reinit.complete ∧ t.board = s.board ∧ t.alex = s.alex ∧
      ∀ c, t.play c = if c.val < N then .finished else .waiting := by
    refine Machine.Reach.iterate (n := N) (Q := fun (k : Nat) (t : State N) => t.owner = none ∧
      t.contCv = Completion.reinit.complete ∧ t.board = s.board ∧ t.alex = s.alex ∧
      ∀ c, t.play c = if c.val < k then .finished else .waiting) ?_ ⟨hfree, hcont, rfl, rfl, hwait⟩
    rintro k hk t ⟨hfree, hcont, hboard, halex, hplay⟩
    obtain ⟨u, hlead, -, halex', hcont', -, hboard', hplay'⟩ := leads_checking (K := K)
      (d := .reinit) (c := ⟨k, hk⟩) hfree (by simp [hplay]) (by rw [hcont]; rfl)
    obtain ⟨v, hlead', hfree'', halex'', hboard'', hcont'', hplay''⟩ := leads_quit (K := K) (s := u)
      (c := ⟨k, hk⟩) (by rw [hplay', Function.update_self]) (by rwa [hboard', hboard])
    refine ⟨v, hlead.trans hlead', hfree'', by rw [hcont'', hcont'], by rw [hboard'', hboard', hboard],
      by rw [halex'', halex', halex], fun c => ?_⟩
    rw [hplay'', hplay', Function.update_idem, Function.update_apply, hplay]
    grind
  exact ⟨t, ht, hboard, halex, fun c => by rw [hplay, if_pos c.isLt]⟩

/-- Every transcript is printed in some run in which all threads come to an end. -/
theorem run_of_transcript (hN : 0 < N) (hN' : N < 2 ^ 32) (hK : K < 2 ^ 32)
    (h : IsTranscript K lines) :
    ∃ tr s, (final N K).Run tr s ∧ Over s ∧ s.board.out = lines ++ [.heading] ∧
      (jeopExit s.board).out = lines ++ scores lines := by
  obtain ⟨tr, s, hrun, rfl, hplaced⟩ := exists_run_of_after hN hN' hK h
  cases hplaced with
  | idle halex hcont halexCv hwait =>
      have hnum : s.board.num = K := by
        obtain ⟨lines, hrecorded⟩ := recorded_of_run hN hK hrun
        rw [hrecorded.lines_eq (by simp [halex])] at h
        obtain ⟨sh, hsh, hshown⟩ := hrecorded.printed
        rw [IsTranscript, hsh] at h
        obtain rfl := Option.some.inj h
        rw [halex] at hshown
        cases hshown
        rfl
      obtain ⟨tr₁, hrun₁, -⟩ := hrun.extend (leads_over halex hnum.ge)
      obtain ⟨u, hlead, hboard, halex', hplay⟩ := leads_dismissed (K := K)
        (s := { s with
          board := s.board.checkScores
          owner := none
          contCv := s.contCv.complete
          alex := .finished })
        rfl (congrArg Completion.complete hcont) hwait hnum.ge
      obtain ⟨tr₂, hrun₂, -⟩ := hrun₁.extend hlead
      have hout : u.board.out = s.board.out ++ [.heading] := by
        rw [hboard]
        rfl
      refine ⟨_, u, hrun₂, ⟨halex', hplay⟩, hout, ?_⟩
      rw [out_jeopExit hrun₂, hout]
      exact append_standings s.board.out

/-! ## what `get_random_int()` returns -/

/-- The step calls `get_random_int()`: Alex after a clue, for his pause, and a contestant for
its answer. -/
def callsRandom (K : Nat) (s : State N) : Label N → Bool
  | .play c _ => decide (s.play c = .checking ∧ s.board.num < K) && s.board.canBuzzIn c
  | .alex => decide (s.alex = .asking ∧ s.board.num < K)

/-- The step is one in which `get_random_int()` returns this. -/
def Label.returns : Label N → UInt32 → Bool
  | .play _ rnd, rnd' => rnd == rnd'
  | .alex, _ => true

/-- The module, when the calls of `get_random_int()` return `rnd 0`, `rnd 1` and so on. -/
def randomized (N K : Nat) (rnd : Nat → UInt32) : Machine (State N × Nat) (Label N) :=
  (final N K).supplied (callsRandom K) Label.returns rnd

/-- The printed lines that a random number was drawn at. -/
def drawnLines (s : State N) : List (Line N) := s.board.out.filter Line.draws

/-- Nothing is drawn in a step that does not call `get_random_int()`. -/
theorem drawnLines_quiet (hs : Effect K s l s') (hquiet : callsRandom K s l = false) :
    drawnLines s' = drawnLines s := by
  cases hs with
  | buzz hpc hnum hbuzz => simp [callsRandom, hpc, hnum, hbuzz] at hquiet
  | ask hpc hnum => simp [callsRandom, hpc, hnum] at hquiet
  | review =>
      rw [drawnLines, out_review, List.filter_append]
      split <;> simp [Line.draws, drawnLines]
  | finish => simp [drawnLines, Board.checkScores, Line.draws]
  | lock | enroll | unlock | take | reinit | quit | rest | pass | alexLock | again | start | close
  | call | alexUnlock | alexTake | alexReinit => rfl

/-- The line of a step that calls `get_random_int()` comes of what it returns, and another
value with the same remainder would have done the same. -/
theorem drawnLines_calls (hs : Effect K s l s') (hcalls : callsRandom K s l = true) :
    ∃ line, drawnLines s' = drawnLines s ++ [line] ∧
      (∀ rnd, l.returns rnd = true → line.ComesOf K rnd) ∧
      ∀ rnd, line.ComesOf K rnd → ∃ l', True ∧ callsRandom K s l' = true ∧
        l'.returns rnd = true ∧ Final.step K s l' = some s' := by
  cases hs with
  | @buzz c rnd hpc hnum hbuzz =>
      refine ⟨.answer c (rnd.toNat % K) (decide (rnd.toNat % K = s.board.num)), ?_, ?_, ?_⟩
      · simp [drawnLines, out_buzz, Line.draws]
      · intro rnd' hret
        obtain rfl : rnd = rnd' := by simpa [Label.returns] using hret
        rfl
      · intro rnd' hcomes
        have hans : rnd.toNat % K = rnd'.toNat % K := hcomes
        refine ⟨.play c rnd', trivial, hcalls, by simp [Label.returns], ?_⟩
        rw [step_of_effect (.buzz hpc hnum hbuzz), hans]
  | ask hpc hnum =>
      refine ⟨.clue s.board.num, by simp [drawnLines, Board.ask, Line.draws], fun _ _ => trivial, ?_⟩
      exact fun _ _ => ⟨.alex, trivial, hcalls, rfl, step_of_effect (.ask hpc hnum)⟩
  | lock hfree hpc | unlock hpc =>
      rcases hpc with ⟨hpc, rfl⟩ | ⟨hpc, rfl⟩ <;> simp [callsRandom, hpc] at hcalls
  | rest hpc hnum hbuzz => simp [callsRandom, hbuzz] at hcalls
  | quit hpc hover => simp [callsRandom, not_lt.mpr hover] at hcalls
  | alexLock hfree hpc | alexUnlock hpc =>
      rcases hpc with ⟨hpc, rfl⟩ | ⟨hpc, rfl⟩ <;> simp [callsRandom, hpc] at hcalls
  | close hpc hnum => simp [callsRandom, not_lt.mpr hnum] at hcalls
  | enroll hpc | take hpc | reinit hpc | pass hpc | again hpc | start hpc | call hpc | alexTake hpc
  | alexReinit hpc | review hpc | finish hpc => simp [callsRandom, hpc] at hcalls

/-- The printed lines are a log of the calls of `get_random_int()`. -/
theorem logs_random (N K : Nat) :
    Machine.Logs (final N K) (fun _ => True) (callsRandom K) Label.returns drawnLines
      (Line.ComesOf K) where
  init := by
    rintro s rfl
    rfl
  quiet _ _ _ hs := drawnLines_quiet (step_cases hs)
  takes _ _ _ _ hs := drawnLines_calls (step_cases hs)

theorem drawn_heading {rnd : Nat → UInt32} :
    Drawn K rnd (lines ++ [.heading]) ↔ Drawn K rnd lines := by
  simp [Drawn, Line.draws]

/-- With these values, a run prints a transcript whose answers come of them. -/
theorem transcript_of_randomized (hN : 0 < N) (hK : K < 2 ^ 32) {rnd : Nat → UInt32}
    {tr : List ((State N × Nat) × Label N)} {s : State N × Nat} (h : (randomized N K rnd).Run tr s)
    (halex : s.1.alex = .finished) :
    ∃ lines, IsTranscript K lines ∧ Drawn K rnd lines ∧
      (jeopExit s.1.board).out = lines ++ scores lines := by
  obtain ⟨⟨tr', hrun, -⟩, -, hdrawn⟩ := (logs_random N K).run_of_supplied h fun _ _ => trivial
  obtain ⟨lines, htranscript, hout, hexit⟩ := transcript_of_run hN hK hrun halex
  rw [drawnLines, hout] at hdrawn
  exact ⟨lines, htranscript, drawn_heading.mp hdrawn, hexit⟩

/-- A transcript whose answers come of these values is printed in some run with them. -/
theorem randomized_of_transcript (hN : 0 < N) (hN' : N < 2 ^ 32) (hK : K < 2 ^ 32)
    {rnd : Nat → UInt32} (h : IsTranscript K lines) (hdrawn : Drawn K rnd lines) :
    ∃ tr s, (randomized N K rnd).Run tr s ∧ Over s.1 ∧
      (jeopExit s.1.board).out = lines ++ scores lines := by
  obtain ⟨tr, s, hrun, hover, hout, hexit⟩ := run_of_transcript hN hN' hK h
  have hmatched : Matched (Line.ComesOf K) rnd (drawnLines s) := by
    rw [drawnLines, hout]
    exact drawn_heading.mpr hdrawn
  obtain ⟨tr', hrun', -⟩ := (logs_random N K).supplied_of_run hrun (fun _ _ => trivial) hmatched
  exact ⟨tr', _, hrun', hover, hexit⟩

/-- **The kernel quiz prints what the pthread quiz prints**: when the random calls of both
return the same values, the lines of the schedules in which all threads come to an end, with
those of `jeop_exit`, are the lines of the schedules of `midterm.c` without spurious wake-ups
that come to an end. -/
theorem prints_as_midterm_iff (hN : 0 < N) (hN' : N < 2 ^ 32) (hK : K < 2 ^ 32) (rnd : Nat → UInt32)
    (out : List (Line N)) :
    (∃ tr s, (randomized N K rnd).Run tr s ∧ Over s.1 ∧ (jeopExit s.1.board).out = out) ↔
    ∃ tr s, (Midterm.seeded N K rnd).Run tr s ∧ (∀ p ∈ tr, Midterm.Scheduled p.2) ∧
      s.1.main = .joining N ∧ s.1.board.out = out := by
  constructor
  · rintro ⟨tr, s, hrun, ⟨halex, -⟩, rfl⟩
    obtain ⟨lines, htranscript, hdrawn, hout⟩ := transcript_of_randomized hN hK hrun halex
    rw [hout]
    exact Midterm.seeded_of_transcript hN hN' hK htranscript hdrawn
  · rintro ⟨tr, s, hrun, hno, hmain, rfl⟩
    obtain ⟨lines, htranscript, hdrawn, hout⟩ := Midterm.transcript_of_seeded hN hK hrun hno hmain
    rw [hout]
    exact randomized_of_transcript hN hN' hK htranscript hdrawn

theorem prints_as_midterm_iff_shortShow :
    ∃ tr s, (randomized 2 2 Midterm.shortRandom).Run tr s ∧ Over s.1 ∧
      (jeopExit s.1.board).out =
        Midterm.shortShow ++ [.heading, .standing 0 (-400), .standing 1 (-200)] := by
  have htranscript : IsTranscript 2 Midterm.shortShow := by decide
  have hdrawn : Drawn 2 Midterm.shortRandom Midterm.shortShow := by decide
  exact (prints_as_midterm_iff (by decide) (by decide) (by decide) _ _).mpr
    (Midterm.seeded_of_transcript (by decide) (by decide) (by decide) htranscript hdrawn)

end Cmsc421.Quiz.Final
