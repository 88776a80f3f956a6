import Cmsc421.Mastermind.Codes

/-!
# Cmsc421.Mastermind.Colors

How `NUM_COLORS` gets its value.

The colors branch tests the last byte it has copied and takes the new value from
the eighth byte of the stack array.  The two are the same byte for a command of
eight bytes; a shorter one that passes the test (`ShortColors`) sets
`NUM_COLORS` from what the stack happened to hold.  Without such commands
`NUM_COLORS` is at least 2 in every run and the remainder of a random start
never traps.
-/

namespace Cmsc421.Mastermind

/-! ## the array after the copy -/

theorem CtlWrite.bytesCopied_le (c : CtlWrite) : c.bytesCopied ≤ 8 ∧ c.bytesCopied ≤ c.count := by
  unfold bytesCopied
  split <;> omega

theorem CtlWrite.copied_iff (c : CtlWrite) : c.copied = true ↔ c.bytesCopied ≤ c.ubuf.length := by
  simp [copied, copyFromUser, Nat.sub_eq_zero_iff_le]

/-- The array is the copied bytes, and behind them what the stack held. -/
theorem CtlWrite.userInput_eq {c : CtlWrite} (h : c.copied = true) :
    c.userInput = c.ubuf.take c.bytesCopied ++ c.stack.toList.drop c.bytesCopied := by
  have hlen := c.copied_iff.mp h
  simp [userInput, copyFromUser, poke, Nat.min_eq_left hlen]

theorem CtlWrite.take_userInput {c : CtlWrite} (h : c.copied = true) {n : Nat}
    (hn : n ≤ c.bytesCopied) : c.userInput.take n = c.ubuf.take n := by
  have hlen := c.copied_iff.mp h
  rw [userInput_eq h, List.take_append_of_le_length (by simp; omega), List.take_take,
    Nat.min_eq_left hn]

theorem CtlWrite.getD_userInput {c : CtlWrite} (h : c.copied = true) (i : Nat) :
    c.userInput.getD i 0 =
      if i < c.bytesCopied then c.ubuf.getD i 0 else c.stack.toList.getD i 0 := by
  have hlen := c.copied_iff.mp h
  rw [userInput_eq h]
  simp only [List.getD_eq_getElem?_getD, List.getElem?_append, List.length_take,
    Nat.min_eq_left hlen, List.getElem?_take, List.getElem?_drop]
  split
  · rfl
  · rw [show c.bytesCopied + (i - c.bytesCopied) = i by omega]

/-! ## the commands that read the stack -/

/-- A colors command that passes its test with fewer than eight bytes: the
caller has `CAP_SYS_ADMIN`, all but the last byte spell a beginning of
`"colors "`, the last byte is at least `'2'`, and a single byte is neither `'s'`
nor `'q'`. -/
structure ShortColors (c : CtlWrite) : Prop where
  admin : c.capSysAdmin = true
  count_pos : 0 < c.count
  count_lt : c.count < 8
  readable : c.count ≤ c.ubuf.length
  spells : c.ubuf.take (c.count - 1) = colors.take (c.count - 1)
  single : c.count = 1 → c.ubuf[0]? ≠ some 115 ∧ c.ubuf[0]? ≠ some 113
  last : zeroAscii + 2 ≤ schar (c.ubuf.getD (c.count - 1) 0)

/-- Equal bytes start with the same byte. -/
theorem memcmpEq_zero {a b : List UInt8} {n : Nat} (h : memcmpEq a b n = true) (hn : 0 < n) :
    a[0]? = b[0]? := by
  have := congrArg (fun l : List UInt8 => l[0]?) (memcmpEq_iff.mp h)
  simpa [List.getElem?_take, hn] using this

/-- The comparison with a literal other than `"colors "` fails where the first byte
is another. -/
private theorem command_colors {ro : Rodata} {c : CtlWrite} (hpos : 0 < c.bytesCopied)
    (hs : c.userInput[0]? ≠ some 115) (hq : c.userInput[0]? ≠ some 113)
    (hcol : memcmpEq c.userInput Mastermind.colors (c.bytesCopied - 1) = true) :
    command ro c = .colors := by
  have hns : ¬ memcmpEq c.userInput ro.start c.bytesCopied = true := fun h =>
    hs ((memcmpEq_zero h hpos).trans rfl)
  have hnq : ¬ memcmpEq c.userInput ro.quit c.bytesCopied = true := fun h =>
    hq ((memcmpEq_zero h hpos).trans rfl)
  unfold command
  rw [if_neg hns, if_neg hnq, if_pos hcol]

/-- An empty write is a start. -/
theorem bytesCopied_pos {ro : Rodata} {c : CtlWrite} (h : Takes ro c .colors) :
    0 < c.bytesCopied := by
  by_contra hz
  have hstart : command ro c = .start := by
    unfold command
    rw [show c.bytesCopied = 0 by omega, if_pos (by rfl)]
  exact absurd (h.2.symm.trans hstart) (by decide)

/-- A short command passes the test of the colors branch. -/
theorem ShortColors.passes {c : CtlWrite} (h : ShortColors c) (ro : Rodata) :
    Takes ro c .colors ∧ c.colorsOk = true ∧ c.count ≠ 8 := by
  have hbytes : c.bytesCopied = c.count := if_pos h.count_lt
  have hcop : c.copied = true := c.copied_iff.mpr (hbytes ▸ h.readable)
  have hzero : c.userInput[0]? = c.ubuf[0]? := by
    have hlen := h.readable
    have hpos := h.count_pos
    rw [CtlWrite.userInput_eq hcop, hbytes, List.getElem?_append_left (by simp; omega),
      List.getElem?_take_of_lt hpos]
  have hcol : memcmpEq c.userInput Mastermind.colors (c.bytesCopied - 1) = true := by
    rw [memcmpEq_iff, CtlWrite.take_userInput hcop (by omega), hbytes, h.spells]
  have hfirst : c.ubuf[0]? ≠ some 115 ∧ c.ubuf[0]? ≠ some 113 := by
    by_cases hone : c.count = 1
    · exact h.single hone
    · have hc : c.ubuf[0]? = some 99 := by
        have hpos : 0 < c.count - 1 := by have := h.count_pos; omega
        have := congrArg (fun l : List UInt8 => l[0]?) h.spells
        simp only [List.getElem?_take_of_lt hpos] at this
        rw [this]
        rfl
      rw [hc]
      decide
  refine ⟨⟨hcop, ?_⟩, ?_, by have := h.count_lt; omega⟩
  · exact command_colors (by rw [hbytes]; exact h.count_pos) (hzero ▸ hfirst.1) (hzero ▸ hfirst.2)
      hcol
  · have hlast : c.userInput.getD (c.bytesCopied - 1) 0 = c.ubuf.getD (c.count - 1) 0 := by
      rw [CtlWrite.getD_userInput hcop, if_pos (by have := h.count_pos; omega), hbytes]
    simp only [CtlWrite.colorsOk, Bool.and_eq_true, beq_iff_eq, decide_eq_true_eq]
    rw [hlast]
    exact ⟨⟨h.admin, hbytes.symm⟩, h.last⟩

/-- With other than eight bytes only a short command passes it. -/
theorem shortColors_of_passes {ro : Rodata} {c : CtlWrite} (htakes : Takes ro c .colors)
    (hok : c.colorsOk = true) (hne : c.count ≠ 8) : ShortColors c := by
  obtain ⟨hcop, hcmd⟩ := htakes
  have hpos := bytesCopied_pos ⟨hcop, hcmd⟩
  simp only [CtlWrite.colorsOk, Bool.and_eq_true, beq_iff_eq, decide_eq_true_eq] at hok
  obtain ⟨⟨hadmin, hbytes⟩, hlast⟩ := hok
  have hle := c.bytesCopied_le
  have hread := c.copied_iff.mp hcop
  unfold command at hcmd
  split at hcmd
  · contradiction
  split at hcmd
  · contradiction
  next hns hnq =>
  split at hcmd
  · next hcol =>
      rw [CtlWrite.getD_userInput hcop, if_pos (by omega)] at hlast
      rw [memcmpEq_iff, CtlWrite.take_userInput hcop (by omega)] at hcol
      rw [memcmpEq_iff, CtlWrite.take_userInput hcop le_rfl] at hns hnq
      refine ⟨hadmin, by omega, by omega, by omega, by rwa [hbytes], fun hone => ?_, by rwa [hbytes]⟩
      rw [← hbytes, hone] at hns hnq
      constructor
      · intro h
        refine hns ?_
        rw [List.take_one, List.head?_eq_getElem?, h]
        rfl
      · intro h
        refine hnq ?_
        rw [List.take_one, List.head?_eq_getElem?, h]
        rfl
  · contradiction

/-- A command of eight bytes takes the value from the byte it has tested. -/
theorem newColors_of_full {ro : Rodata} {c : CtlWrite} (htakes : Takes ro c .colors)
    (hok : c.colorsOk = true) (hcount : c.count = 8) :
    ∃ b, c.ubuf[7]? = some b ∧ c.newColors = schar b - zeroAscii ∧ 2 ≤ c.newColors ∧
      c.newColors ≤ 79 := by
  have hbytes : c.bytesCopied = 8 := by simp [CtlWrite.bytesCopied, hcount]
  have hread := c.copied_iff.mp htakes.1
  simp only [CtlWrite.colorsOk, Bool.and_eq_true, beq_iff_eq, decide_eq_true_eq] at hok
  have hlast := hok.2
  rw [hbytes, CtlWrite.getD_userInput htakes.1, if_pos (by omega)] at hlast
  have hget : c.ubuf[7]? = some (c.ubuf.getD 7 0) := by
    rw [List.getD_eq_getElem?_getD, List.getElem?_eq_getElem (by omega)]
    rfl
  have hnew : c.newColors = schar (c.ubuf.getD 7 0) - zeroAscii := by
    rw [CtlWrite.newColors, CtlWrite.getD_userInput htakes.1, if_pos (by omega)]
  refine ⟨_, hget, hnew, ?_, ?_⟩
  · rw [hnew]
    simp only [Nat.add_one_sub_one] at hlast
    omega
  · have hmax := schar_le (c.ubuf.getD 7 0)
    rw [hnew, zeroAscii]
    omega

/-! ## the remainder of a random start -/

/-- A remainder by a positive `NUM_COLORS` is a digit below it. -/
theorem randomDigit_range {n : Int} (hpos : 0 < n) (hmax : n < 2 ^ 31) (d : UInt32) :
    0 ≤ randomDigit n d ∧ randomDigit n d < n := by
  have hu : (uint32 n : Int) = n := by
    unfold uint32
    omega
  have hmod : d.toNat % uint32 n < uint32 n := Nat.mod_lt _ (by omega)
  rw [randomDigit, int32_natCast (by omega)]
  omega

/-- `NUM_COLORS` is a number of colors, and the lock is free. -/
structure Sane (s : Sys) : Prop where
  owned : Owned s
  two_le : 2 ≤ s.drv.vars.numColors
  le : s.drv.vars.numColors ≤ 79
  unlocked : s.lockHeld = false

theorem sane_init (randomCode : Bool) : Sane (initSys randomCode) :=
  ⟨owned_init randomCode, by simp [initSys, initVars], by simp [initSys, initVars], rfl⟩

/-- With a sane number of colors a start sets a code, and a random one is in range. -/
theorem Sane.startCode {s : Sys} (h : Sane s) (rnd : Fin NUM_PEGS → UInt32) :
    ∃ code, startCode s.drv.vars rnd = some code ∧
      (s.drv.vars.randomCode = true → ∀ i, 0 ≤ code i ∧ code i < s.drv.vars.numColors) ∧
      (s.drv.vars.randomCode = false → code = fixedCode) := by
  obtain ⟨-, htwo, hle, -⟩ := h
  have hz : uint32 s.drv.vars.numColors ≠ 0 := by
    unfold uint32
    omega
  unfold Mastermind.startCode
  by_cases hr : s.drv.vars.randomCode = true
  · rw [if_pos hr, if_neg hz]
    exact ⟨_, rfl, fun _ i => randomDigit_range (by omega) (by omega) (rnd i), by simp [hr]⟩
  · rw [if_neg hr]
    exact ⟨_, rfl, by simp [hr], fun _ => rfl⟩

instance (c : CtlWrite) : Decidable (ShortColors c) :=
  decidable_of_iff
    (c.capSysAdmin = true ∧ 0 < c.count ∧ c.count < 8 ∧ c.count ≤ c.ubuf.length ∧
      c.ubuf.take (c.count - 1) = colors.take (c.count - 1) ∧
      (c.count = 1 → c.ubuf[0]? ≠ some 115 ∧ c.ubuf[0]? ≠ some 113) ∧
      zeroAscii + 2 ≤ schar (c.ubuf.getD (c.count - 1) 0))
    ⟨fun ⟨h₁, h₂, h₃, h₄, h₅, h₆, h₇⟩ => ⟨h₁, h₂, h₃, h₄, h₅, h₆, h₇⟩,
      fun ⟨h₁, h₂, h₃, h₄, h₅, h₆, h₇⟩ => ⟨h₁, h₂, h₃, h₄, h₅, h₆, h₇⟩⟩

/-- The step is no short colors command. -/
def FullCommand (s : Sys) (l : Label) : Prop := ∀ c ∈ ctlCall s l, ¬ ShortColors c

instance (s : Sys) (l : Label) : Decidable (FullCommand s l) :=
  inferInstanceAs (Decidable (∀ c ∈ ctlCall s l, ¬ ShortColors c))

/-- The step is a write of eight bytes to `/dev/mm_ctl`, the last of them `b`. -/
def Supplies (s : Sys) (l : Label) (b : UInt8) : Prop :=
  ∃ c ∈ ctlCall s l, c.count = 8 ∧ c.ubuf[7]? = some b

/-- What one step does to `NUM_COLORS`, and what its random start draws. -/
structure SaneStep (ro : Rodata) (s : Sys) (l : Label) (s' : Sys) : Prop where
  sane : Sane s'
  supplied : s'.drv.vars.numColors = s.drv.vars.numColors ∨
    ∃ b, Supplies s l b ∧ s'.drv.vars.numColors = schar b - zeroAscii
  inRange : ∀ user, observe ro s l = some (.start user) → s.drv.vars.randomCode = true →
    ∀ i, 0 ≤ s'.drv.vars.targetCode i ∧ s'.drv.vars.targetCode i < s'.drv.vars.numColors

/-- A step that is no short colors command keeps the number of colors sane. -/
theorem Sane.step {ro : Rodata} {s s' : Sys} {l : Label} (h : Sane s) (hl : FullCommand s l)
    (hs : Mastermind.step ro s l = some s') : SaneStep ro s l s' := by
  have howned := h.owned.step hs
  cases writes_of_step h.owned hs with
  | none hcolors _ _ hlock hno =>
      refine ⟨⟨howned, hcolors ▸ h.two_le, hcolors ▸ h.le, ?_⟩, .inl hcolors, fun A hA => ?_⟩
      · exact Bool.eq_false_iff.mpr fun hheld => by simp [h.unlocked] at hlock; simp [hlock] at hheld
      · exact absurd hA (hno A)
  | @start t rnd user c _ _ _ _ hcolors hcode _ _ hlock =>
      obtain ⟨code, hsome, hrange, -⟩ := h.startCode rnd
      refine ⟨⟨howned, hcolors ▸ h.two_le, hcolors ▸ h.le, ?_⟩, .inl hcolors, fun _ _ hr i => ?_⟩
      · exact Bool.eq_false_iff.mpr fun hheld => by simp [hsome] at hlock; simp [hlock] at hheld
      · rw [hcode, hcolors, hsome]
        exact hrange hr i
  | @colors t rnd c _ hcall htakes hok hno hcolors _ _ hlock =>
      have hcount : c.count = 8 := by
        by_contra hne
        exact hl c hcall (shortColors_of_passes htakes hok hne)
      obtain ⟨b, hb, hnew, htwo, hle⟩ := newColors_of_full htakes hok hcount
      exact ⟨⟨howned, hcolors ▸ htwo, hcolors ▸ hle, hlock⟩,
        .inr ⟨b, ⟨c, hcall, hcount, hb⟩, hcolors.trans hnew⟩, fun A hA => absurd hA (hno A)⟩
  | packet _ _ hcolors _ _ hlock =>
      exact ⟨⟨howned, hcolors ▸ h.two_le, hcolors ▸ h.le, hlock.trans h.unlocked⟩, .inl hcolors,
        by simp [observe]⟩

theorem sane_of_run {ro : Rodata} {tr : List (Sys × Label)} {s : Sys} (h : (driver ro).Run tr s)
    (hfull : ∀ p ∈ tr, FullCommand p.1 p.2) : Sane s := by
  refine Machine.Run.invariant_of_steps (P := FullCommand) (I := fun _ s => Sane s) ?_ ?_ h hfull
  · rintro s ⟨randomCode, rfl⟩
    exact sane_init randomCode
  · intro _ s l t hI hl hs
    exact (hI.step hl hs).sane

/-! ## the dependence on the stack -/

/-- `NUM_COLORS` after `mm_ctl_write`. -/
theorem mmCtlWrite_numColors (ro : Rodata) (rnd : Fin NUM_PEGS → UInt32) (c : CtlWrite) (v : Vars)
    (g : MmGame) :
    (mmCtlWrite ro rnd c v g).vars.numColors =
      if Takes ro c .colors ∧ c.colorsOk = true then c.newColors else v.numColors := by
  have hother : ∀ {cmd}, Takes ro c cmd → cmd ≠ .colors → ¬ (Takes ro c .colors ∧ c.colorsOk = true) :=
    fun h hne h' => hne (h.2.symm.trans h'.1.2)
  obtain ⟨h, hw⟩ | ⟨h, hw⟩ | ⟨h, hw⟩ | ⟨h, hw⟩ := mmCtlWrite_cases ro rnd c v g
  · rw [hw, startBranch_numColors, if_neg (hother h (by decide))]
  · rw [hw, quitBranch_vars, if_neg (hother h (by decide))]
  · rw [hw, colorsBranch_vars]
    by_cases hok : c.colorsOk = true <;> simp [h, hok]
  · rw [hw, if_neg]
    · rfl
    · rcases h with h | h
      · intro h'
        simp [h'.1.1] at h
      · exact hother h (by decide)

/-- `NUM_COLORS` after `mm_ctl_write` with `stack` in its array. -/
def CtlWrite.colorsAfter (c : CtlWrite) (ro : Rodata) (rnd : Fin NUM_PEGS → UInt32) (v : Vars)
    (g : MmGame) (stack : Vector UInt8 8) : Int :=
  (mmCtlWrite ro rnd { c with stack := stack } v g).vars.numColors

/-- Which branch is taken, and the test of the colors branch, do not depend on the
stack. -/
theorem passes_stack (ro : Rodata) (c : CtlWrite) (stack : Vector UInt8 8) :
    (Takes ro { c with stack := stack } .colors ∧
        ({ c with stack := stack } : CtlWrite).colorsOk = true) ↔
      (Takes ro c .colors ∧ c.colorsOk = true) := by
  by_cases h : c.copied = true
  · have h' : ({ c with stack := stack } : CtlWrite).copied = true := h
    have htake : ∀ n ≤ c.bytesCopied,
        ({ c with stack := stack } : CtlWrite).userInput.take n = c.userInput.take n := by
      intro n hn
      rw [CtlWrite.take_userInput h hn, CtlWrite.take_userInput h' hn]
    have hcmd : command ro { c with stack := stack } = command ro c := by
      unfold command memcmpEq
      rw [show ({ c with stack := stack } : CtlWrite).bytesCopied = c.bytesCopied from rfl,
        htake _ le_rfl, htake _ (Nat.sub_le ..)]
    have htakes : Takes ro { c with stack := stack } .colors ↔ Takes ro c .colors := by
      simp [Takes, h, h', hcmd]
    rw [htakes]
    refine and_congr_right fun hc => ?_
    have hpos := bytesCopied_pos hc
    have hlast : ({ c with stack := stack } : CtlWrite).userInput.getD (c.bytesCopied - 1) 0 =
        c.userInput.getD (c.bytesCopied - 1) 0 := by
      have hlt : c.bytesCopied - 1 < c.bytesCopied := by omega
      exact ((CtlWrite.getD_userInput h' _).trans (if_pos hlt)).trans
        ((CtlWrite.getD_userInput h _).trans (if_pos hlt)).symm
    unfold CtlWrite.colorsOk
    rw [show ({ c with stack := stack } : CtlWrite).bytesCopied = c.bytesCopied from rfl, hlast]
  · have h' : ¬ ({ c with stack := stack } : CtlWrite).copied = true := h
    simp [Takes, h, h']

/-- A short command sets `NUM_COLORS` from the last byte of the stack array. -/
theorem colorsAfter_short {c : CtlWrite} (h : ShortColors c) (ro : Rodata)
    (rnd : Fin NUM_PEGS → UInt32) (v : Vars) (g : MmGame) (stack : Vector UInt8 8) :
    c.colorsAfter ro rnd v g stack = schar (stack.toList.getD 7 0) - zeroAscii := by
  obtain ⟨htakes, hok, -⟩ := h.passes ro
  obtain ⟨htakes', hok'⟩ := (passes_stack ro c stack).mpr ⟨htakes, hok⟩
  have hlt : ¬ 7 < ({ c with stack := stack } : CtlWrite).bytesCopied := by
    have hle := CtlWrite.bytesCopied_le { c with stack := stack }
    have hcount := h.count_lt
    dsimp only at hle
    omega
  rw [CtlWrite.colorsAfter, mmCtlWrite_numColors, if_pos ⟨htakes', hok'⟩, CtlWrite.newColors,
    CtlWrite.getD_userInput htakes'.1, if_neg hlt]

/-- Any other call sets it from the caller's eighth byte, or leaves it alone, whatever
the stack holds. -/
theorem colorsAfter_full {c : CtlWrite} (h : ¬ ShortColors c) (ro : Rodata)
    (rnd : Fin NUM_PEGS → UInt32) (v : Vars) (g : MmGame) :
    (∀ stack, c.colorsAfter ro rnd v g stack = v.numColors) ∨
    (∃ b, c.ubuf[7]? = some b ∧ 2 ≤ schar b - zeroAscii ∧
      ∀ stack, c.colorsAfter ro rnd v g stack = schar b - zeroAscii) := by
  by_cases hpass : Takes ro c .colors ∧ c.colorsOk = true
  · have hcount : c.count = 8 := by
      by_contra hne
      exact h (shortColors_of_passes hpass.1 hpass.2 hne)
    obtain ⟨b, hb, hnew, htwo, -⟩ := newColors_of_full hpass.1 hpass.2 hcount
    refine .inr ⟨b, hb, hnew ▸ htwo, fun stack => ?_⟩
    have hpass' := (passes_stack ro c stack).mpr hpass
    obtain ⟨b', hb', hnew', -⟩ := newColors_of_full hpass'.1 hpass'.2 hcount
    obtain rfl := Option.some.inj (hb.symm.trans hb')
    rw [CtlWrite.colorsAfter, mmCtlWrite_numColors, if_pos hpass', hnew']
  · refine .inl fun stack => ?_
    rw [CtlWrite.colorsAfter, mmCtlWrite_numColors, if_neg fun h' => hpass ((passes_stack ..).mp h')]

/-- **When `NUM_COLORS` stays sane.**  In a run without short colors commands it is
at least 2 in every state, every value it takes comes from the eighth byte of a
caller's write, the random digits are in range and no remainder traps.  And a
call from such a state has these effects whatever the stack holds exactly when
it is not short. -/
theorem numColors_sane (ro : Rodata) {tr : List (Sys × Label)} {s : Sys} (h : (driver ro).Run tr s)
    (hfull : ∀ p ∈ tr, FullCommand p.1 p.2) :
    Sane s ∧
    (∀ p ∈ tr, ∀ s', Mastermind.step ro p.1 p.2 = some s' → SaneStep ro p.1 p.2 s') ∧
    (∀ c rnd g,
      ((∀ stack, 2 ≤ c.colorsAfter ro rnd s.drv.vars g stack) ↔ ¬ ShortColors c) ∧
      ((∀ stack stack', c.colorsAfter ro rnd s.drv.vars g stack =
          c.colorsAfter ro rnd s.drv.vars g stack') ↔ ¬ ShortColors c)) := by
  have hsane := sane_of_run h hfull
  refine ⟨hsane, fun p hp s' hs' => ?_, fun c rnd g => ⟨?_, ?_⟩⟩
  · obtain ⟨tr₁, tr₂, -, rfl, hrun, -⟩ := h.split hp
    have hsane₁ := sane_of_run hrun fun q hq => hfull q (List.mem_append_left _ hq)
    exact hsane₁.step (hfull p hp) hs'
  · constructor
    · intro hall hshort
      have := hall (Vector.replicate 8 48)
      rw [colorsAfter_short hshort] at this
      exact absurd this (by decide)
    · intro hshort stack
      obtain hsame | ⟨b, -, htwo, hsame⟩ := colorsAfter_full hshort ro rnd s.drv.vars g
      · rw [hsame]
        exact hsane.two_le
      · rw [hsame]
        exact htwo
  · constructor
    · intro hall hshort
      have := hall (Vector.replicate 8 48) (Vector.replicate 8 49)
      rw [colorsAfter_short hshort, colorsAfter_short hshort] at this
      exact absurd this (by decide)
    · intro hshort stack stack'
      obtain hsame | ⟨b, -, -, hsame⟩ := colorsAfter_full hshort ro rnd s.drv.vars g <;>
        rw [hsame, hsame]

/-- Root sets five colors. -/
def fiveColors : List Label := callSteps 0 0 (ctlText "colors 5" true) 0

theorem numColors_sane_fiveColors :
    ∃ s, (driver .zeros).Run ((driver .zeros).trace (initSys true) fiveColors) s ∧
      s.drv.vars.numColors = 5 ∧ Sane s := by
  obtain ⟨s, hrun, hs⟩ := Machine.exists_run_of_exec (M := driver .zeros) ⟨true, rfl⟩ fiveColors
    (b := fun s => s.drv.vars.numColors == 5) (by decide +kernel)
  have hfull : ∀ p ∈ (driver .zeros).trace (initSys true) fiveColors, FullCommand p.1 p.2 := by
    decide +kernel
  exact ⟨s, hrun, beq_iff_eq.mp hs, (numColors_sane .zeros hrun hfull).1⟩

/-- Root writes the single byte `9` while the stack holds zeros; then a player starts
a game with a random code. -/
def shortThenStart : List Label :=
  callSteps 0 0 (.ctlWrite ⟨ascii "9", 1, Vector.replicate 8 48, true⟩) 0 ++
    callSteps 0 1000 (ctlText "start" false) 0

/-- `NUM_COLORS` is 0, and the start has trapped with the lock taken. -/
theorem short_command_traps :
    ∃ s, (driver .zeros).Run ((driver .zeros).trace (initSys true) shortThenStart) s ∧
      s.drv.vars.numColors = 0 ∧ s.lockHeld = true := by
  obtain ⟨s, hrun, hs⟩ := Machine.exists_run_of_exec (M := driver .zeros) ⟨true, rfl⟩ shortThenStart
    (b := fun s => s.drv.vars.numColors == 0 && s.lockHeld) (by decide +kernel)
  simp only [Bool.and_eq_true, beq_iff_eq] at hs
  exact ⟨s, hrun, hs⟩

end Cmsc421.Mastermind
