import Cmsc421.Mastermind.Game

/-!
# Cmsc421.Mastermind.Control

`mm_ctl_write`: the commands `start`, `quit` and `colors n`.

The call copies up to eight bytes of the caller's buffer over an uninitialised
stack array and compares them with three literals over the number of bytes it
copied, so the comparison with `"start"` and `"quit"` can run past the literal:
`Rodata` is what the compiler put behind them.  The choice of the branch
(`command`) depends on the copied bytes only; the `colors` branch is the one
that looks at the array itself.
-/

namespace Cmsc421.Mastermind

/-- The bytes behind the literals `"start"` and `"quit"`, up to the eight that
`memcmp` can look at. -/
structure Rodata where
  afterStart : Vector UInt8 2
  afterQuit : Vector UInt8 3

/-- Eight bytes from the literal `start` on. -/
def Rodata.start (ro : Rodata) : List UInt8 := ascii "start" ++ 0 :: ro.afterStart.toList

/-- Eight bytes from the literal `quit` on. -/
def Rodata.quit (ro : Rodata) : List UInt8 := ascii "quit" ++ 0 :: ro.afterQuit.toList

/-- Both literals are followed by zeros. -/
def Rodata.zeros : Rodata := ⟨Vector.replicate 2 0, Vector.replicate 3 0⟩

/-- Eight bytes from the literal `colors` on. -/
def colors : List UInt8 := ascii "colors " ++ [0]

/-- The arguments of `mm_ctl_write`, what its stack array holds on entry, and
whether the caller has `CAP_SYS_ADMIN`. -/
structure CtlWrite where
  ubuf : List UInt8
  count : Nat
  stack : Vector UInt8 8
  capSysAdmin : Bool

/-- `bytes_copied`: the lesser of `count` and 8. -/
def CtlWrite.bytesCopied (c : CtlWrite) : Nat := if c.count < 8 then c.count else 8

/-- `user_input` after the copy. -/
def CtlWrite.userInput (c : CtlWrite) : List UInt8 :=
  (copyFromUser c.stack.toList c.ubuf c.bytesCopied).1

/-- `ret_value == 0`: all bytes could be copied. -/
def CtlWrite.copied (c : CtlWrite) : Bool :=
  (copyFromUser c.stack.toList c.ubuf c.bytesCopied).2 == 0

/-- The branches of `mm_ctl_write` after a successful copy. -/
inductive Command
  | start
  | quit
  | colors
  | other
  deriving DecidableEq

/-- The chain of comparisons. -/
def command (ro : Rodata) (c : CtlWrite) : Command :=
  if memcmpEq c.userInput ro.start c.bytesCopied then .start
  else if memcmpEq c.userInput ro.quit c.bytesCopied then .quit
  else if memcmpEq c.userInput Mastermind.colors (c.bytesCopied - 1) then .colors
  else .other

/-- `digit % NUM_COLORS`, computed in `unsigned int` and stored in an `int`. -/
def randomDigit (numColors : Int) (digit : UInt32) : Int :=
  int32 ((digit.toNat % uint32 numColors : Nat) : Int)

/-- The code a start sets when `random_code` is off. -/
def fixedCode : Code := ![0, 0, 1, 2]

/-- The code a start sets; `none` where the remainder traps, with the divisor
zero. -/
def startCode (v : Vars) (rnd : Fin NUM_PEGS → UInt32) : Option Code :=
  if v.randomCode then
    if uint32 v.numColors = 0 then none else some fun i => randomDigit v.numColors (rnd i)
  else some fixedCode

/-- The start branch, with the four words `get_random_bytes` delivers. -/
def startBranch (rnd : Fin NUM_PEGS → UInt32) (count : Nat) (v : Vars) (g : MmGame) : Outcome :=
  let g' : MmGame :=
    { g with
      gameActive := true
      numGuesses := 0
      gameStatus := scnprintf (memsetZero g.gameStatus 80) 15 (ascii "Starting game\n")
      userView := memsetZero g.userView 80 }
  let v' := { v with numGameStarted := int32 (v.numGameStarted + 1) }
  match startCode v rnd with
  | some code => ⟨{ v' with targetCode := code }, g', .ret (.ok count)⟩
  | none => ⟨v', g', .trap⟩

/-- The text `quit` leaves in the status, before `scnprintf` cuts it. -/
def quitStatus (code : Code) : List UInt8 :=
  ascii "Game over. The code was " ++ decimal (code 0) ++ decimal (code 1) ++ decimal (code 2) ++
    decimal (code 3) ++ ascii ".\n"

/-- The quit branch. -/
def quitBranch (count : Nat) (v : Vars) (g : MmGame) : Outcome :=
  if g.gameActive then
    { vars := v
      game :=
        { g with
          gameActive := false
          gameStatus := scnprintf g.gameStatus 31 (quitStatus v.targetCode) }
      result := .ret (.ok count) }
  else ⟨v, g, .ret (.ok count)⟩

/-- The test of the colors branch: it looks at the last copied byte, … -/
def CtlWrite.colorsOk (c : CtlWrite) : Bool :=
  c.capSysAdmin && c.count == c.bytesCopied &&
    decide (zeroAscii + 2 ≤ schar (c.userInput.getD (c.bytesCopied - 1) 0))

/-- … and takes the number of colors from the eighth. -/
def CtlWrite.newColors (c : CtlWrite) : Int := schar (c.userInput.getD 7 0) - zeroAscii

/-- The colors branch. -/
def colorsBranch (c : CtlWrite) (v : Vars) (g : MmGame) : Outcome :=
  if c.colorsOk then ⟨{ v with numColors := c.newColors }, g, .ret (.ok c.count)⟩
  else if c.capSysAdmin then refuse .EINVAL v g
  else refuse .EACCES v g

/-- The locked section of `mm_ctl_write`. -/
def mmCtlWrite (ro : Rodata) (rnd : Fin NUM_PEGS → UInt32) (c : CtlWrite) (v : Vars) (g : MmGame) :
    Outcome :=
  if c.copied then
    match command ro c with
    | .start => startBranch rnd c.count v g
    | .quit => quitBranch c.count v g
    | .colors => colorsBranch c v g
    | .other => refuse .EINVAL v g
  else refuse .EINVAL v g

/-! ## what the call does -/

/-- The call takes the branch of a command. -/
def Takes (ro : Rodata) (c : CtlWrite) (cmd : Command) : Prop :=
  c.copied = true ∧ command ro c = cmd

instance (ro : Rodata) (c : CtlWrite) (cmd : Command) : Decidable (Takes ro c cmd) :=
  inferInstanceAs (Decidable (_ ∧ _))

/-- A call takes one branch. -/
theorem Takes.not {ro : Rodata} {c : CtlWrite} {cmd cmd' : Command} (h : Takes ro c cmd)
    (hne : cmd ≠ cmd') : ¬ Takes ro c cmd' := fun h' => hne (h.2.symm.trans h'.2)

/-- `mm_ctl_write` is one of its three branches, or refuses and changes nothing. -/
theorem mmCtlWrite_cases (ro : Rodata) (rnd : Fin NUM_PEGS → UInt32) (c : CtlWrite) (v : Vars)
    (g : MmGame) :
    (Takes ro c .start ∧ mmCtlWrite ro rnd c v g = startBranch rnd c.count v g) ∨
    (Takes ro c .quit ∧ mmCtlWrite ro rnd c v g = quitBranch c.count v g) ∨
    (Takes ro c .colors ∧ mmCtlWrite ro rnd c v g = colorsBranch c v g) ∨
    ((c.copied = false ∨ Takes ro c .other) ∧ mmCtlWrite ro rnd c v g = refuse .EINVAL v g) := by
  unfold mmCtlWrite Takes
  cases hc : c.copied with
  | false => simp
  | true => cases hcmd : command ro c <;> simp

@[simp] theorem startBranch_playerId (rnd : Fin NUM_PEGS → UInt32) (count : Nat) (v : Vars)
    (g : MmGame) : (startBranch rnd count v g).game.playerId = g.playerId := by
  simp only [startBranch]
  split <;> rfl

@[simp] theorem startBranch_gameActive (rnd : Fin NUM_PEGS → UInt32) (count : Nat) (v : Vars)
    (g : MmGame) : (startBranch rnd count v g).game.gameActive = true := by
  simp only [startBranch]
  split <;> rfl

@[simp] theorem startBranch_numGuesses (rnd : Fin NUM_PEGS → UInt32) (count : Nat) (v : Vars)
    (g : MmGame) : (startBranch rnd count v g).game.numGuesses = 0 := by
  simp only [startBranch]
  split <;> rfl

@[simp] theorem startBranch_userView (rnd : Fin NUM_PEGS → UInt32) (count : Nat) (v : Vars)
    (g : MmGame) : (startBranch rnd count v g).game.userView = memsetZero g.userView 80 := by
  simp only [startBranch]
  split <;> rfl

@[simp] theorem startBranch_numColors (rnd : Fin NUM_PEGS → UInt32) (count : Nat) (v : Vars)
    (g : MmGame) : (startBranch rnd count v g).vars.numColors = v.numColors := by
  simp only [startBranch]
  split <;> rfl

@[simp] theorem startBranch_randomCode (rnd : Fin NUM_PEGS → UInt32) (count : Nat) (v : Vars)
    (g : MmGame) : (startBranch rnd count v g).vars.randomCode = v.randomCode := by
  simp only [startBranch]
  split <;> rfl

@[simp] theorem startBranch_targetCode (rnd : Fin NUM_PEGS → UInt32) (count : Nat) (v : Vars)
    (g : MmGame) :
    (startBranch rnd count v g).vars.targetCode = (startCode v rnd).getD v.targetCode := by
  simp only [startBranch]
  split
  · next h => simp [h]
  · next h => simp [h]

@[simp] theorem quitBranch_vars (count : Nat) (v : Vars) (g : MmGame) :
    (quitBranch count v g).vars = v := by
  unfold quitBranch
  split <;> rfl

@[simp] theorem quitBranch_playerId (count : Nat) (v : Vars) (g : MmGame) :
    (quitBranch count v g).game.playerId = g.playerId := by
  unfold quitBranch
  split <;> rfl

@[simp] theorem quitBranch_gameActive (count : Nat) (v : Vars) (g : MmGame) :
    (quitBranch count v g).game.gameActive = false := by
  unfold quitBranch
  split
  · rfl
  · next h => simpa using h

@[simp] theorem quitBranch_numGuesses (count : Nat) (v : Vars) (g : MmGame) :
    (quitBranch count v g).game.numGuesses = g.numGuesses := by
  unfold quitBranch
  split <;> rfl

@[simp] theorem quitBranch_userView (count : Nat) (v : Vars) (g : MmGame) :
    (quitBranch count v g).game.userView = g.userView := by
  unfold quitBranch
  split <;> rfl

theorem quitBranch_result_ne_trap (count : Nat) (v : Vars) (g : MmGame) :
    (quitBranch count v g).result ≠ .trap := by
  unfold quitBranch
  split <;> simp

theorem colorsBranch_result_ne_trap (c : CtlWrite) (v : Vars) (g : MmGame) :
    (colorsBranch c v g).result ≠ .trap := by
  unfold colorsBranch refuse
  split
  · simp
  · split <;> simp

@[simp] theorem colorsBranch_game (c : CtlWrite) (v : Vars) (g : MmGame) :
    (colorsBranch c v g).game = g := by
  unfold colorsBranch
  split
  · rfl
  · split <;> rfl

/-- The colors branch changes the number of colors, when its test passes, and no
other scalar. -/
theorem colorsBranch_vars (c : CtlWrite) (v : Vars) (g : MmGame) :
    (colorsBranch c v g).vars =
      if c.colorsOk = true then { v with numColors := c.newColors } else v := by
  unfold colorsBranch
  split
  · rfl
  · split <;> rfl

@[simp] theorem mmCtlWrite_playerId (ro : Rodata) (rnd : Fin NUM_PEGS → UInt32) (c : CtlWrite)
    (v : Vars) (g : MmGame) : (mmCtlWrite ro rnd c v g).game.playerId = g.playerId := by
  obtain ⟨-, h⟩ | ⟨-, h⟩ | ⟨-, h⟩ | ⟨-, h⟩ := mmCtlWrite_cases ro rnd c v g <;> rw [h] <;>
    simp [refuse]

end Cmsc421.Mastermind
