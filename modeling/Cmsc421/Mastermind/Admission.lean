import Cmsc421.Loop
import Cmsc421.Mastermind.Atomic
import Cmsc421.Mastermind.Provenance
import Mathlib.Data.List.GetD

/-!
# Cmsc421.Mastermind.Admission

Which guesses `mm_write` takes.

The result of `copy_from_user` is ignored: a byte that could not be copied is zero from
the `memset`, and no digit.  The loop that checks the digits converts those it has
checked before it has seen the others; `checkPegs_eq` says that the guess is converted
as a whole where it is valid.  A call is taken or changes nothing (`admission`).
-/

namespace Cmsc421.Mastermind

/-! ## the loop over the digits -/

/-- `user_guess` and `valid_input`. -/
structure Checked where
  userGuess : Code
  validInput : Bool

/-- One round of the loop that checks the digits. -/
def checkPeg (highest : Int) (st : Checked) (i : Fin NUM_PEGS) : Checked :=
  if st.userGuess i < zeroAscii ∨ highest < st.userGuess i then { st with validInput := false }
  else { st with userGuess := Function.update st.userGuess i (st.userGuess i - zeroAscii) }

/-- The loop. -/
def checkPegs (highest : Int) (ubuf : List UInt8) : Checked :=
  (List.finRange NUM_PEGS).foldl (checkPeg highest) ⟨userGuess ubuf, true⟩

/-- What the loop knows after `m` rounds. -/
structure CheckedTo (highest : Int) (guess : Code) (m : Nat) (st : Checked) : Prop where
  valid : st.validInput = true ↔ ∀ i : Fin NUM_PEGS, i.val < m → digitOk highest (guess i) = true
  done : ∀ i : Fin NUM_PEGS, i.val < m → digitOk highest (guess i) = true →
    st.userGuess i = guess i - zeroAscii
  todo : ∀ i : Fin NUM_PEGS, m ≤ i.val → st.userGuess i = guess i

/-- One round. -/
theorem CheckedTo.step {highest : Int} {guess : Code} {i : Fin NUM_PEGS} {st : Checked}
    (h : CheckedTo highest guess i st) : CheckedTo highest guess (i.val + 1) (checkPeg highest st i) := by
  have hi : st.userGuess i = guess i := h.todo i (Nat.le_refl _)
  unfold checkPeg
  rw [hi]
  split
  · next hbad =>
      have hbad : ¬ digitOk highest (guess i) = true := by
        rw [digitOk_iff]
        omega
      refine ⟨?_, forall_lt_succ_iff.mpr ⟨h.done, fun hok => absurd hok hbad⟩, fun k hk => h.todo k (by omega)⟩
      rw [forall_lt_succ_iff]
      simp [hbad]
  · next hgood =>
      have hgood : digitOk highest (guess i) = true := by
        rw [digitOk_iff]
        omega
      refine ⟨?_, ?_, fun k hk => ?_⟩
      · rw [forall_lt_succ_iff, ← h.valid]
        simp [hgood]
      · refine forall_lt_succ_iff.mpr ⟨fun k hk hok => ?_, fun _ => Function.update_self ..⟩
        have hne : k ≠ i := Fin.ne_of_lt hk
        exact (Function.update_of_ne hne ..).trans (h.done k hk hok)
      · have hne : k ≠ i := Fin.ne_of_gt hk
        exact (Function.update_of_ne hne ..).trans (h.todo k (by omega))

/-- **What the loop does**: it finds the guess valid iff every character is in range, and
has then converted all of them. -/
theorem checkPegs_eq (highest : Int) (ubuf : List UInt8) :
    ((checkPegs highest ubuf).validInput = true ↔ ∀ i, digitOk highest (userGuess ubuf i) = true) ∧
      ((checkPegs highest ubuf).validInput = true →
        (checkPegs highest ubuf).userGuess = guessDigits ubuf) := by
  have hloop : CheckedTo highest (userGuess ubuf) NUM_PEGS (checkPegs highest ubuf) :=
    foldl_finRange (I := CheckedTo highest (userGuess ubuf)) ⟨by simp, by simp, fun _ _ => rfl⟩
      fun _ _ h => h.step
  have hvalid := hloop.valid.trans (forall_congr' fun i => forall_prop_of_true i.isLt)
  exact ⟨hvalid, fun h => funext fun i => hloop.done i i.isLt (hvalid.mp h i)⟩

/-- `mm_write` with its loop. -/
theorem mmWrite_eq_checkPegs (highest : Int) (ubuf : List UInt8) (count : Nat) (v : Vars) (g : MmGame) :
    mmWrite highest ubuf count v g =
      if g.gameActive = false ∨ count < NUM_PEGS then refuse .EINVAL v g
      else if (checkPegs highest ubuf).validInput = true then
        scoreGuess count (checkPegs highest ubuf).userGuess v g
      else refuse .EINVAL v g := by
  obtain ⟨hvalid, hguess⟩ := checkPegs_eq highest ubuf
  unfold mmWrite
  by_cases h : (checkPegs highest ubuf).validInput = true
  · rw [if_pos h, if_pos (hvalid.mp h), hguess h]
  · rw [if_neg h, if_neg fun hok => h (hvalid.mpr hok)]

/-! ## the characters -/

/-- The first characters of the buffer, and zeros behind what can be read. -/
theorem userGuess_eq (ubuf : List UInt8) (i : Fin NUM_PEGS) :
    userGuess ubuf i = schar ((ubuf.take NUM_PEGS).getD i 0) := by
  rw [userGuess, copyFromUser, poke, List.take_zero, List.nil_append]
  rcases Nat.lt_or_ge i (ubuf.take NUM_PEGS).length with hlt | hge
  · rw [List.getD_append _ _ _ _ hlt]
  · rw [List.getD_append_right _ _ _ _ hge, List.getD_eq_default _ _ hge, List.drop_replicate,
      List.getD_eq_getElem?_getD, List.getElem?_getD_replicate_default_eq]

theorem userGuess_congr {ubuf ubuf' : List UInt8} (h : ubuf'.take NUM_PEGS = ubuf.take NUM_PEGS) :
    userGuess ubuf' = userGuess ubuf := by
  funext i
  rw [userGuess_eq, userGuess_eq, h]

/-- All characters are in range iff the first four bytes can be read and are a code. -/
theorem digitsOk_iff {v : Vars} (hn : v.numColors ≤ 80) (ubuf : List UInt8) :
    (∀ i, digitOk (highestDigit v) (userGuess ubuf i) = true) ↔
      Spells v.numColors (ubuf.take NUM_PEGS) := by
  simp only [userGuess_eq, digitOk_schar hn]
  constructor
  · intro h
    have hlen : (ubuf.take NUM_PEGS).length = NUM_PEGS := by
      -- the first byte that could not be read is no digit
      by_contra hne
      have hshort : (ubuf.take NUM_PEGS).length < NUM_PEGS :=
        Nat.lt_of_le_of_ne (List.length_take_le ..) hne
      have hzero := (h ⟨_, hshort⟩).1
      rw [List.getD_eq_default _ _ (Nat.le_refl _)] at hzero
      exact absurd hzero (by decide)
    exact ⟨hlen, (forall_getD_iff hlen).mp h⟩
  · rintro ⟨hlen, hdigits⟩
    exact (forall_getD_iff hlen).mpr hdigits

/-! ## the number of colors -/

/-- `NUM_COLORS` is a character minus `'0'`, whichever command has set it. -/
theorem numColors_le_of_run {ro : Rodata} {tr : List (Sys × Label)} {s : Sys}
    (h : (driver ro).Run tr s) : s.drv.vars.numColors ≤ 79 := by
  refine (Machine.Run.invariant (I := fun _ s => Owned s ∧ s.drv.vars.numColors ≤ 79) ?_ ?_ h).2
  · rintro s ⟨randomCode, rfl⟩
    exact ⟨owned_init randomCode, (by decide : (6 : Int) ≤ 79)⟩
  · rintro _ s l s' ⟨howned, hle⟩ hs
    refine ⟨howned.step hs, ?_⟩
    cases writes_of_step howned hs with
    | none hcolors | start _ _ _ hcolors | packet _ _ hcolors => exact hcolors ▸ hle
    | @colors t rnd c _ _ _ _ _ hcolors =>
        have hchar := schar_le (c.userInput.getD 7 0)
        rw [hcolors, CtlWrite.newColors, zeroAscii]
        omega

/-! ## calls one at a time -/

/-- The step ends no call by a trap: such a call never returns, and keeps the lock. -/
def Returns (ro : Rodata) (s : Sys) (l : Label) : Prop :=
  ∀ act ∈ finishes ro s l, act.result ≠ some .trap

/-- While all calls have returned, the lock is free. -/
theorem unlocked_of_run {ro : Rodata} {tr : List (Sys × Label)} {s : Sys} (h : (driver ro).Run tr s)
    (hreturned : ∀ p ∈ tr, Returns ro p.1 p.2) : s.lockHeld = false := by
  refine Machine.Run.invariant_of_steps (P := Returns ro) (I := fun _ s => s.lockHeld = false) ?_ ?_
    h hreturned
  · rintro s ⟨randomCode, rfl⟩
    rfl
  · intro _ s l s' hlock hreturns hs
    cases step_cases hs with
    | enter | found | added | failed | noEntry | irq | bottom | setRandomCode => exact hlock
    | @main t rnd user call highest p g hframe hentry =>
        have hresult : (call.section ro rnd highest s.drv.vars g).result ≠ .trap := by
          simpa [Returns, finishes, hframe, Driver.withGame, hentry] using hreturns
        simpa [afterSection] using hresult

/-- A call that is made with nothing in between, and what it returns. -/
def MadeAlone (ro : Rodata) (s : Sys) (t : Nat) (user : Kuid) (call : Call) (a : Allocation)
    (rnd : Fin NUM_PEGS → UInt32) (s' : Sys) (r : Result) : Prop :=
  ∃ z₁ z₂, step ro s (.enter t user call) = some z₁ ∧ step ro z₁ (.find t a) = some z₂ ∧
    step ro z₂ (.main t rnd) = some s' ∧
    finishes ro z₂ (.main t rnd) = some ⟨.call t user call, some r⟩

/-- Nothing has changed but for an entry that `find_game` may have added. -/
def Untouched (user : Kuid) (d d' : Driver) : Prop :=
  d'.vars = d.vars ∧
    (d'.gamesList = d.gamesList ∨
      (∀ g ∈ d.gamesList, g.playerId ≠ user) ∧
        ∃ page : Vector UInt8 PAGE_SIZE, d'.gamesList = d.gamesList ++ [newGame user page.toList])

/-- A whole call. -/
theorem madeAlone_iff {ro : Rodata} {s s' : Sys} {t : Nat} {user : Kuid} {call : Call}
    {a : Allocation} {rnd : Fin NUM_PEGS → UInt32} {r : Result} (hrest : s.frames = fun _ => none) :
    MadeAlone ro s t user call a rnd s' r ↔
      s.lockHeld = false ∧ s' = afterCall (wholeCall ro s.drv user call a rnd) ∧
        r = (wholeCall ro s.drv user call a rnd).2 := by
  constructor
  · rintro ⟨z₁, z₂, henter, hfind, hmain, hact⟩
    obtain ⟨rfl, hwhole⟩ := whole_of_steps hrest henter hfind hmain
    obtain rfl := Option.some.inj ((step_enter hrest).symm.trans henter)
    rw [hact] at hwhole
    rw [step_find] at hfind
    split at hfind
    · contradiction
    · next hlock => exact ⟨by simpa using hlock, rfl, by simpa using hwhole⟩
  · rintro ⟨hlock, rfl, rfl⟩
    exact ⟨_, _, step_enter hrest, by rw [step_find, hlock, if_neg Bool.false_ne_true],
      step_main hrest hlock, finishes_located⟩

theorem driver_step (ro : Rodata) : (driver ro).step = step ro := rfl

/-- The state after a call that returns is reachable, with calls that return. -/
theorem exists_run_afterCall {ro : Rodata} {tr : List (Sys × Label)} {s : Sys}
    (h : (driver ro).Run tr s) (hreturned : ∀ p ∈ tr, Returns ro p.1 p.2)
    (hrest : s.frames = fun _ => none) (t : Nat) (user : Kuid) (call : Call) (a : Allocation)
    (rnd : Fin NUM_PEGS → UInt32) (hreturns : (wholeCall ro s.drv user call a rnd).2 ≠ .trap) :
    ∃ tr', (driver ro).Run tr' (afterCall (wholeCall ro s.drv user call a rnd)) ∧
      ∀ p ∈ tr', Returns ro p.1 p.2 := by
  have hlock := unlocked_of_run h hreturned
  have henter : (driver ro).step s (.enter t user call) = some (s.entered t user call) := by
    rw [driver_step, step_enter hrest]
  have hfind : (driver ro).step (s.entered t user call) (.find t a) =
      some (s.located t user call a) := by
    rw [driver_step, step_find, hlock, if_neg Bool.false_ne_true]
  have hmain : (driver ro).step (s.located t user call a) (.main t rnd) =
      some (afterCall (wholeCall ro s.drv user call a rnd)) := by
    rw [driver_step, step_main hrest hlock]
  have hlast : Returns ro (s.located t user call a) (.main t rnd) := by
    simpa [Returns, finishes_located] using hreturns
  refine ⟨_, ((h.next henter).next hfind).next hmain, ?_⟩
  simp only [List.forall_mem_append, List.forall_mem_singleton]
  exact ⟨⟨⟨hreturned, by simp [Returns, finishes]⟩, by simp [Returns, finishes]⟩, hlast⟩

/-- The guess is admitted iff the game is active, there are enough bytes, and the first
four can be read and are a code. -/
theorem admits_iff {v : Vars} (hn : v.numColors ≤ 80) {ubuf : List UInt8} {count : Nat} {g : MmGame} :
    Admits (highestDigit v) ubuf count g ↔
      g.gameActive = true ∧ NUM_PEGS ≤ count ∧ Spells v.numColors (ubuf.take NUM_PEGS) :=
  and_congr_right fun _ => and_congr_right fun _ => digitsOk_iff hn ubuf

section write

variable (ro : Rodata) {d : Driver} (user : Kuid) (ubuf : List UInt8) (count : Nat) (a : Allocation)
  (rnd : Fin NUM_PEGS → UInt32)

/-- A whole call of `mm_write` takes the guess for the user's entry, or changes nothing. -/
theorem wholeWrite_cases (hnodup : (d.gamesList.map (·.playerId)).Nodup) :
    ((∃ g ∈ d.gamesList, g.playerId = user ∧ Admits (highestDigit d.vars) ubuf count g) ∧
      (wholeCall ro d user (.write ubuf count) a rnd).2 = .ret (.ok count)) ∨
    ((∀ g ∈ d.gamesList, g.playerId = user → ¬ Admits (highestDigit d.vars) ubuf count g) ∧
      (wholeCall ro d user (.write ubuf count) a rnd).2 = .ret (.error .EINVAL) ∧
      Untouched user d (wholeCall ro d user (.write ubuf count) a rnd).1) := by
  obtain ⟨p, g, hentry, rfl, hf⟩ | ⟨hnew, page, -, -, hf⟩ | ⟨hnew, -, hf⟩ := findGame_cases user a d
  · have hwhole : wholeCall ro d g.playerId (.write ubuf count) a rnd = _ :=
      wholeCall_found hnodup hentry a
    rw [hwhole, Call.section]
    obtain ⟨hno, hw⟩ | ⟨hadmits, hw⟩ := mmWrite_cases (highestDigit d.vars) ubuf count d.vars g
    · rw [hw]
      refine .inr ⟨fun g' hg' hid => ?_, rfl, rfl, .inl ?_⟩
      · obtain rfl := List.inj_on_of_nodup_map hnodup hg' (List.mem_of_getElem? hentry) hid
        exact hno
      · obtain ⟨hlt, hg⟩ := List.getElem?_eq_some_iff.mp hentry
        rw [refuse, ← hg, List.set_getElem_self]
    · rw [hw]
      exact .inl ⟨⟨g, List.mem_of_getElem? hentry, rfl, hadmits⟩, scoreGuess_result ..⟩
  · -- a new entry is idle
    have hno : ¬ Admits (highestDigit d.vars) ubuf count (newGame user page.toList) := fun h =>
      absurd h.1 Bool.false_ne_true
    obtain ⟨-, hw⟩ | ⟨hadmits, -⟩ :=
      mmWrite_cases (highestDigit d.vars) ubuf count d.vars (newGame user page.toList)
    · refine .inr ⟨fun g hg hid => absurd hid (hnew g hg), ?_⟩
      simp only [wholeCall, hf, Driver.withGame, Call.section, List.getElem?_concat_length, hw, refuse]
      exact ⟨trivial, rfl, .inr ⟨hnew, page, by simp⟩⟩
    · exact absurd hadmits hno
  · refine .inr ⟨fun g hg hid => absurd hid (hnew g hg), ?_⟩
    rw [wholeCall, hf]
    exact ⟨rfl, rfl, .inl rfl⟩

/-- The bytes behind the fourth do not matter. -/
theorem wholeWrite_congr {ubuf' : List UInt8} (h : ubuf'.take NUM_PEGS = ubuf.take NUM_PEGS) :
    wholeCall ro d user (.write ubuf' count) a rnd = wholeCall ro d user (.write ubuf count) a rnd := by
  have hguess := userGuess_congr h
  have hdigits : guessDigits ubuf' = guessDigits ubuf := by
    funext i
    rw [guessDigits, guessDigits, hguess]
  have hsection : ∀ highest, mmWrite highest ubuf' count = mmWrite highest ubuf count := by
    intro highest
    funext v g
    simp only [mmWrite, hdigits, hguess]
  rw [wholeCall, wholeCall, Call.section, Call.section, hsection]
  rfl

end write

/-- **Admission.**  A call of `mm_write` in a reachable state, after calls that have
returned and with nothing in between, returns: it takes the guess exactly when the user's
game is active, `count` is at least four, and the first four bytes can be read and are
digits below `NUM_COLORS`; otherwise it returns an error and changes nothing but that
`find_game` may add an idle entry; and the bytes behind the fourth do not matter. -/
theorem admission {ro : Rodata} {tr : List (Sys × Label)} {s : Sys} (h : (driver ro).Run tr s)
    (hreturned : ∀ p ∈ tr, Returns ro p.1 p.2) (hrest : s.frames = fun _ => none) (t : Nat)
    (user : Kuid) (ubuf : List UInt8) (count : Nat) (a : Allocation) (rnd : Fin NUM_PEGS → UInt32) :
    ∃ s' r, (∀ z q, MadeAlone ro s t user (.write ubuf count) a rnd z q ↔ z = s' ∧ q = r) ∧
      (r = .ret (.ok count) ↔
        InGame s user ∧ NUM_PEGS ≤ count ∧ Spells s.drv.vars.numColors (ubuf.take NUM_PEGS)) ∧
      (r ≠ .ret (.ok count) → r = .ret (.error .EINVAL) ∧ Untouched user s.drv s'.drv) ∧
      ∀ ubuf', ubuf'.take NUM_PEGS = ubuf.take NUM_PEGS →
        MadeAlone ro s t user (.write ubuf' count) a rnd s' r := by
  have hn : s.drv.vars.numColors ≤ 80 := (numColors_le_of_run h).trans (by decide)
  have hlock := unlocked_of_run h hreturned
  have hcases := wholeWrite_cases ro user ubuf count a rnd (owned_of_run h).nodup
  refine ⟨_, _, fun z q => (madeAlone_iff hrest).trans (and_iff_right hlock), ?_, ?_,
    fun ubuf' hsame => (madeAlone_iff hrest).mpr ⟨hlock, ?_⟩⟩
  · obtain ⟨⟨g, hg, hid, hadmits⟩, hok⟩ | ⟨hno, herr, -⟩ := hcases
    · obtain ⟨hact, henough⟩ := (admits_iff hn).mp hadmits
      exact iff_of_true hok ⟨⟨g, hg, hid, hact⟩, henough⟩
    · refine iff_of_false (by simp [herr]) ?_
      rintro ⟨⟨g, hg, hid, hact⟩, henough⟩
      exact hno g hg hid ((admits_iff hn).mpr ⟨hact, henough⟩)
  · intro hne
    obtain ⟨-, hok⟩ | ⟨-, herr⟩ := hcases
    · exact absurd hok hne
    · exact herr
  · rw [wholeWrite_congr ro user ubuf count a rnd hsame]
    exact ⟨rfl, rfl⟩

/-- A user has started a game. -/
def startedSys : Sys :=
  afterCall (wholeCall .zeros (initSys false).drv 1000 (ctlText "start" false) clearPage 0)

theorem admission_started :
    ∃ s', MadeAlone .zeros startedSys 0 1000 (.write (ascii "5432 and more") 13) clearPage 0 s'
        (.ret (.ok 13)) ∧
      InGame startedSys 1000 ∧ Spells startedSys.drv.vars.numColors (ascii "5432") := by
  have hinit : (driver .zeros).Run [] (initSys false) := .start ⟨false, rfl⟩
  obtain ⟨tr, hrun, hreturned⟩ := exists_run_afterCall hinit (List.forall_mem_nil _) rfl 0 1000
    (ctlText "start" false) clearPage 0 (by decide +kernel)
  obtain ⟨s', r, hcall, hok, -⟩ :=
    admission hrun hreturned rfl 0 1000 (ascii "5432 and more") 13 clearPage 0
  have hwhole : MadeAlone .zeros startedSys 0 1000 (.write (ascii "5432 and more") 13) clearPage 0
      (afterCall (wholeCall .zeros startedSys.drv 1000 (.write (ascii "5432 and more") 13) clearPage 0))
      (.ret (.ok 13)) := (madeAlone_iff rfl).mpr ⟨rfl, rfl, by decide +kernel⟩
  obtain ⟨hgame, -, hspells⟩ := hok.mp ((hcall _ _).mp hwhole).2.symm
  exact ⟨_, hwhole, hgame, hspells⟩

end Cmsc421.Mastermind
