import Cmsc421.Mastermind.Colors

/-!
# Cmsc421.Mastermind.Winnable

When an active game can be won.

A guess ends a game if it spells the target code, and `mm_write` admits only
digits below `NUM_COLORS`; so a game can be won exactly while every digit of the
code is below it (`winnable_iff`).  A random start establishes the relation and
a valid packet is checked against it; a fixed start and the colors command are
not.  `codesInRange_iff` gives the exact condition on the steps of a run under
which no active game is ever out of reach.
-/

namespace Cmsc421.Mastermind

/-! ## one game -/

/-- Some guess that `mm_write` accepts ends the game. -/
def Winnable (v : Vars) (g : MmGame) : Prop :=
  ∃ ubuf count, (mmWrite (highestDigit v) ubuf count v g).result = .ret (.ok count) ∧
    (mmWrite (highestDigit v) ubuf count v g).game.gameActive = false

/-- Every digit of the code is a digit of a guess. -/
def InRange (v : Vars) : Prop := ∀ i, 0 ≤ v.targetCode i ∧ v.targetCode i < v.numColors

instance (v : Vars) : Decidable (InRange v) :=
  inferInstanceAs (Decidable (∀ i, 0 ≤ v.targetCode i ∧ v.targetCode i < v.numColors))

/-- The bytes a player writes to guess a code. -/
def guessBytes (code : Code) : List UInt8 :=
  (List.finRange NUM_PEGS).map fun i => UInt8.ofNat (zeroAscii + code i).toNat

theorem userGuess_guessBytes {code : Code} (h : ∀ i, 0 ≤ code i ∧ code i < 80) (i : Fin NUM_PEGS) :
    userGuess (guessBytes code) i = zeroAscii + code i := by
  have hget : (guessBytes code).getD i 0 = UInt8.ofNat (zeroAscii + code i).toNat := by
    simp [guessBytes, List.getD_eq_getElem?_getD]
  have hcopy : (copyFromUser (List.replicate NUM_PEGS 0) (guessBytes code) NUM_PEGS).1 =
      guessBytes code := by
    simp [copyFromUser, poke, guessBytes]
  obtain ⟨hnonneg, hlt⟩ := h i
  rw [userGuess, hcopy, hget, schar]
  simp only [zeroAscii, UInt8.toNat_ofNat']
  split <;> omega

/-- An accepted guess ends the game exactly when it is the target code. -/
theorem ends_iff {v : Vars} {g : MmGame} {ubuf : List UInt8} {count : Nat}
    (h : Admits (highestDigit v) ubuf count g) :
    (mmWrite (highestDigit v) ubuf count v g).game.gameActive = false ↔
      guessDigits ubuf = v.targetCode := by
  obtain ⟨hadm, -⟩ | ⟨-, hw⟩ := mmWrite_cases (highestDigit v) ubuf count v g
  · exact absurd h hadm
  · have hact := scoreGuess_gameActive count (guessDigits ubuf) v g
    rw [hw, ← Bool.not_eq_true, hact]
    simp [h.1]

/-- **A game can be won exactly while the code is in range.** -/
theorem winnable_iff {v : Vars} {g : MmGame} (hact : g.gameActive = true) (hle : v.numColors ≤ 79) :
    Winnable v g ↔ InRange v := by
  constructor
  · rintro ⟨ubuf, count, hres, hend⟩ i
    have hadm := (mmWrite_result ..).mp hres
    have hcode := congrFun ((ends_iff hadm).mp hend) i
    have hdigit := digitOk_iff.mp (hadm.2.2 i)
    simp only [guessDigits] at hcode
    simp only [highestDigit] at hdigit
    omega
  · intro hrange
    have hguess : ∀ i, userGuess (guessBytes v.targetCode) i = zeroAscii + v.targetCode i :=
      userGuess_guessBytes fun i => by
        have := hrange i
        omega
    have hadm : Admits (highestDigit v) (guessBytes v.targetCode) NUM_PEGS g := by
      refine ⟨hact, le_rfl, fun i => digitOk_iff.mpr ?_⟩
      have := hrange i
      rw [hguess, highestDigit]
      omega
    refine ⟨guessBytes v.targetCode, NUM_PEGS, (mmWrite_result ..).mpr hadm, (ends_iff hadm).mpr ?_⟩
    funext i
    rw [guessDigits, hguess]
    omega

/-! ## every game of a run -/

/-- If anybody is in a game, the code is in range. -/
def CodesInRange (s : Sys) : Prop := ∀ A, InGame s A → InRange s.drv.vars

/-- A colors command has the form `colors ` and one character. -/
def EightBytes (ro : Rodata) (s : Sys) (l : Label) : Prop :=
  ∀ c ∈ ctlCall s l, Takes ro c .colors → c.count = 8

instance (ro : Rodata) (s : Sys) (l : Label) : Decidable (EightBytes ro s l) :=
  inferInstanceAs (Decidable (∀ c ∈ ctlCall s l, Takes ro c .colors → c.count = 8))

theorem EightBytes.full {ro : Rodata} {s : Sys} {l : Label} (h : EightBytes ro s l) :
    FullCommand s l := by
  intro c hc hshort
  obtain ⟨htakes, -, hne⟩ := hshort.passes ro
  exact hne (h c hc htakes)

/-- The step keeps codes in range: a start of the fixed code finds at least three
colors, and a change of `NUM_COLORS` or of the code under an active game leaves
every digit below `NUM_COLORS`. -/
structure KeepsRange (ro : Rodata) (s : Sys) (l : Label) : Prop where
  start : ∀ user, observe ro s l = some (.start user) → s.drv.vars.randomCode = false →
    3 ≤ s.drv.vars.numColors
  colors : ∀ c ∈ ctlCall s l, Takes ro c .colors → c.colorsOk = true → ∀ A, InGame s A →
    ∀ i, s.drv.vars.targetCode i < c.newColors
  packet : ∀ t highest data, l = .bottom t (some data) → s.frames t = some (.bottom highest) →
    ValidPacket highest (some data) → ∀ A, InGame s A →
    ∀ i, packetCode data i < s.drv.vars.numColors

/-- The fixed code needs three colors. -/
theorem fixedCode_inRange {n : Int} : (∀ i, 0 ≤ fixedCode i ∧ fixedCode i < n) ↔ 3 ≤ n := by
  constructor
  · intro h
    have : (2 : Int) < n := (h 3).2
    omega
  · intro h i
    have hmax : ∀ i, 0 ≤ fixedCode i ∧ fixedCode i ≤ 2 := by decide
    have := hmax i
    omega

/-- **Exactness, one step**: from a sane state in range, the next state is in range
exactly when the step keeps codes in range. -/
theorem codesInRange_step {ro : Rodata} {s s' : Sys} {l : Label} (hsane : Sane s)
    (hrange : CodesInRange s) (hs : Mastermind.step ro s l = some s') :
    CodesInRange s' ↔ KeepsRange ro s l := by
  cases writes_of_step hsane.owned hs with
  | none hcolors hcode hgames _ hno hcalls hpacket =>
      refine ⟨fun _ => ⟨fun u hu => absurd hu (hno u), fun c hc htakes hok => ?_, ?_⟩, fun _ A hA i => ?_⟩
      · exact absurd ⟨htakes, hok⟩ (hcalls c hc)
      · rintro t highest data rfl hframe hvalid
        exact absurd ⟨t, highest, some data, rfl, hframe, hvalid⟩ hpacket
      · rw [hcode, hcolors]
        exact hrange A (hgames A hA) i
  | @start t rnd user c _ hcall htakes hevent hcolors hcode hgame =>
      obtain ⟨code, hsome, hrandom, hfixed⟩ := hsane.startCode rnd
      rw [hsome, Option.getD_some] at hcode
      have hiff : CodesInRange s' ↔ ∀ i, 0 ≤ code i ∧ code i < s.drv.vars.numColors := by
        rw [← hcode, ← hcolors]
        exact ⟨fun h => h user hgame, fun h _ _ => h⟩
      rw [hiff]
      constructor
      · intro h
        refine ⟨fun u _ hr => ?_, fun c' hc' htakes' => ?_, nofun⟩
        · rw [hfixed hr] at h
          exact fixedCode_inRange.mp h
        · obtain rfl := Option.some.inj (hcall.symm.trans hc')
          exact absurd htakes' (htakes.not (by decide))
      · intro h
        cases hr : s.drv.vars.randomCode with
        | true => exact hrandom hr
        | false =>
            rw [hfixed hr]
            exact fixedCode_inRange.mpr (h.start user hevent hr)
  | @colors t rnd c _ hcall htakes hok hno hcolors hcode hgames =>
      constructor
      · intro h
        refine ⟨fun u hu => absurd hu (hno u), fun c' hc' _ _ A hA i => ?_, nofun⟩
        obtain rfl := Option.some.inj (hcall.symm.trans hc')
        rw [← hcode, ← hcolors]
        exact (h A ((hgames A).mpr hA) i).2
      · intro h A hA i
        have hA' := (hgames A).mp hA
        rw [hcode, hcolors]
        exact ⟨(hrange A hA' i).1, h.colors c hcall htakes hok A hA' i⟩
  | @packet t highest data _ hframe hvalid hcolors hcode hgames =>
      constructor
      · intro h
        refine ⟨by simp [observe], by simp [ctlCall], ?_⟩
        rintro t' highest' data' hl - - A hA i
        obtain ⟨-, hdata⟩ := Label.bottom.inj hl
        obtain rfl := Option.some.inj hdata
        rw [← hcode, ← hcolors]
        exact (h A ((hgames A).mpr hA) i).2
      · intro h A hA i
        rw [hcode, hcolors]
        exact ⟨(packetCode_le hvalid.2 i).1,
          h.packet t highest data rfl hframe ⟨data, rfl, hvalid⟩ A ((hgames A).mp hA) i⟩

/-- **When every active game can be won.**  In a run whose colors commands have
eight bytes, the code is in range in every state with an active game exactly
when all steps keep codes in range; and a game can be won exactly while the code
is in range. -/
theorem codesInRange_iff (ro : Rodata) {tr : List (Sys × Label)} {s : Sys} (h : (driver ro).Run tr s)
    (hbytes : ∀ p ∈ tr, EightBytes ro p.1 p.2) :
    (((∀ p ∈ tr, CodesInRange p.1) ∧ CodesInRange s) ↔ ∀ p ∈ tr, KeepsRange ro p.1 p.2) ∧
    (∀ g ∈ s.drv.gamesList, g.gameActive = true → (Winnable s.drv.vars g ↔ InRange s.drv.vars)) := by
  constructor
  · refine Machine.Run.stays_iff_meets (H := EightBytes ro) (P := KeepsRange ro) (Q := CodesInRange)
      (I := fun _ s => Sane s) ?_ ?_ ?_ h hbytes
    · rintro s ⟨randomCode, rfl⟩
      exact ⟨sane_init randomCode, by simp [CodesInRange, InGame, initSys]⟩
    · intro _ s l t hsane hrange _ hs
      exact codesInRange_step hsane hrange hs
    · intro _ s l t hsane _ hl _ hs
      exact (hsane.step hl.full hs).sane
  · have hsane := sane_of_run h fun p hp => (hbytes p hp).full
    exact fun g _ hact => winnable_iff hact hsane.le

/-- Root sets two colors, and a player starts a game with the fixed code. -/
def twoColors : List Label :=
  callSteps 0 0 (ctlText "colors 2" true) 0 ++ callSteps 0 1000 (ctlText "start" false) 0

/-- The code is 0012, and no guess wins. -/
theorem fixed_code_out_of_range :
    ∃ s, (driver .zeros).Run ((driver .zeros).trace (initSys false) twoColors) s ∧
      (∀ p ∈ (driver .zeros).trace (initSys false) twoColors, EightBytes .zeros p.1 p.2) ∧
      InGame s 1000 ∧
      s.drv.vars.numColors = 2 ∧ s.drv.vars.targetCode 3 = 2 ∧
      ∀ g ∈ s.drv.gamesList, g.gameActive = true → ¬ Winnable s.drv.vars g := by
  have hbytes : ∀ p ∈ (driver .zeros).trace (initSys false) twoColors,
      EightBytes .zeros p.1 p.2 := by
    decide +kernel
  obtain ⟨s, hrun, hs⟩ := Machine.exists_run_of_exec (M := driver .zeros) ⟨false, rfl⟩ twoColors
    (b := fun s => decide (InGame s 1000) && s.drv.vars.numColors == 2 &&
      s.drv.vars.targetCode 3 == 2) (by decide +kernel)
  simp only [Bool.and_eq_true, decide_eq_true_eq, beq_iff_eq] at hs
  obtain ⟨⟨hA, hcolors⟩, hcode⟩ := hs
  refine ⟨s, hrun, hbytes, hA, hcolors, hcode, fun g _ hact hwin => ?_⟩
  have hrange := (winnable_iff hact (by omega)).mp hwin 3
  omega

/-- The same with three colors. -/
def threeColors : List Label :=
  callSteps 0 0 (ctlText "colors 3" true) 0 ++ callSteps 0 1000 (ctlText "start" false) 0

theorem codesInRange_iff_threeColors :
    ∃ s, (driver .zeros).Run ((driver .zeros).trace (initSys false) threeColors) s ∧
      InGame s 1000 ∧ ∀ g ∈ s.drv.gamesList, g.gameActive = true → Winnable s.drv.vars g := by
  have hbytes : ∀ p ∈ (driver .zeros).trace (initSys false) threeColors,
      EightBytes .zeros p.1 p.2 := by
    decide +kernel
  obtain ⟨s, hrun, hs⟩ := Machine.exists_run_of_exec (M := driver .zeros) ⟨false, rfl⟩ threeColors
    (b := fun s => decide (InGame s 1000) && decide (InRange s.drv.vars)) (by decide +kernel)
  simp only [Bool.and_eq_true, decide_eq_true_eq] at hs
  exact ⟨s, hrun, hs.1, fun g hg hact =>
    ((codesInRange_iff .zeros hrun hbytes).2 g hg hact).mpr hs.2⟩

end Cmsc421.Mastermind
