import Cmsc421.Mastermind.Solo
import Cmsc421.Mastermind.Driver

/-!
# Cmsc421.Mastermind.SoloDriver

The driver of the first project: `/dev/mm` and `/dev/mm_ctl` with one game.

There is no lock and no list of players: the calls work on the module's variables
themselves.  A call is one step here.  `mm_ctl_write` copies and compares as in
`mastermind2.c`, up to eight bytes with literals that are shorter, but knows the commands
`start` and `quit` only; `random_code` can be changed at any time through the module's
parameter.
-/

namespace Cmsc421.Mastermind.Solo

/-! ## the calls -/

/-- What a call returns, and the bytes the caller can see after it: what a read has
copied, or what has been mapped. -/
structure Reply where
  result : Except Errno Nat
  bytes : List UInt8

/-- `mm_read()`. -/
def mmRead (a : ReadArgs) (g : Game) : ReadOutcome :=
  let pos := (a.ppos % 2 ^ 64).toNat
  if strlen g.gameStatus ≤ pos then ⟨.ok 0, [], a.ppos⟩
  else
    let bytesCopied := min (a.count % 2 ^ 32) (strlen g.gameStatus - pos)
    if a.copyOk then
      ⟨.ok bytesCopied, (g.gameStatus.drop pos).take bytesCopied, a.ppos + bytesCopied⟩
    else ⟨.error .EINVAL, [], a.ppos⟩

open Errno in
/-- `mm_mmap()`. -/
def mmMmap (a : MmapArgs) (g : Game) : MmapOutcome :=
  if PAGE_SIZE < a.size then ⟨.error EIO, []⟩
  else if a.remapOk then ⟨.ok 0, g.userView.take a.size⟩
  else ⟨.error .EAGAIN, []⟩

/-- The code a start sets, with the four words `get_random_bytes` delivers. -/
def newCode (randomCode : Bool) (rnd : Fin NUM_PEGS → UInt32) : Code :=
  if randomCode then fun i => ((rnd i).toNat % 6 : Nat) else fixedCode

/-- The start branch. -/
def startGame (randomCode : Bool) (rnd : Fin NUM_PEGS → UInt32) (g : Game) : Game where
  gameActive := true
  numGuesses := 0
  gameStatus := scnprintf (memsetZero g.gameStatus 80) 15 (ascii "Starting game\n")
  userView := memsetZero g.userView 80
  targetCode := newCode randomCode rnd

/-- The quit branch. -/
def quitGame (g : Game) : Game :=
  if g.gameActive then
    { g with
      gameActive := false
      gameStatus := scnprintf g.gameStatus 31 (quitStatus g.targetCode) }
  else g

/-- `mm_ctl_write()`. -/
def mmCtlWrite (ro : Rodata) (randomCode : Bool) (rnd : Fin NUM_PEGS → UInt32) (c : CtlWrite)
    (g : Game) : Game × Except Errno Nat :=
  if c.copied then
    if memcmpEq c.userInput ro.start c.bytesCopied then (startGame randomCode rnd g, .ok c.count)
    else if memcmpEq c.userInput ro.quit c.bytesCopied then (quitGame g, .ok c.count)
    else (g, .error .EINVAL)
  else (g, .error .EINVAL)

/-- A call. -/
def perform (ro : Rodata) (randomCode : Bool) (rnd : Fin NUM_PEGS → UInt32) (g : Game) :
    Call → Game × Reply
  | .read a => (g, ⟨(mmRead a g).result, (mmRead a g).delivered⟩)
  | .mmap a => (g, ⟨(mmMmap a g).result, (mmMmap a g).mapped⟩)
  | .write ubuf count => ((mmWrite ubuf count g).1, ⟨(mmWrite ubuf count g).2, []⟩)
  | .ctlWrite c =>
      ((mmCtlWrite ro randomCode rnd c g).1, ⟨(mmCtlWrite ro randomCode rnd c g).2, []⟩)

/-! ## the module -/

/-- The module's variables after `mastermind_init`, on the page that `vmalloc` has
returned. -/
def initGame (page : List UInt8) : Game where
  gameActive := false
  targetCode := fun _ => 0
  numGuesses := 0
  gameStatus := scnprintf (memsetZero (List.replicate 80 0) 80) 13 (ascii "No game yet\n")
  userView := memsetZero page 80

/-- The module, with its parameter. -/
structure Sys where
  game : Game
  randomCode : Bool

/-- The steps. -/
inductive Label
  | call (call : Call) (rnd : Fin NUM_PEGS → UInt32)
  | setRandomCode (b : Bool)

/-- One step. -/
def step (ro : Rodata) (s : Sys) : Label → Option Sys
  | .call call rnd => some { s with game := (perform ro s.randomCode rnd s.game call).1 }
  | .setRandomCode b => some { s with randomCode := b }

/-- The machine of the module. -/
def soloDriver (ro : Rodata) : Machine Sys Label where
  init s := ∃ page : Vector UInt8 PAGE_SIZE, s.game = initGame page.toList
  step := step ro

/-- The guess is admitted. -/
def Admits (ubuf : List UInt8) (count : Nat) (g : Game) : Prop :=
  g.gameActive = true ∧ NUM_PEGS ≤ count ∧ ∀ i, digitOk five (userGuess ubuf i) = true

instance (ubuf : List UInt8) (count : Nat) (g : Game) : Decidable (Admits ubuf count g) :=
  inferInstanceAs (Decidable (_ ∧ _))

/-- The command of a call, of which this driver knows two. -/
theorem mmCtlWrite_eq (ro : Rodata) (randomCode : Bool) (rnd : Fin NUM_PEGS → UInt32) (c : CtlWrite)
    (g : Game) :
    mmCtlWrite ro randomCode rnd c g =
      if Takes ro c .start then (startGame randomCode rnd g, .ok c.count)
      else if Takes ro c .quit then (quitGame g, .ok c.count)
      else (g, .error .EINVAL) := by
  unfold mmCtlWrite Takes command
  by_cases hcopied : c.copied = true
  · by_cases hstart : memcmpEq c.userInput ro.start c.bytesCopied = true
    · simp [hcopied, hstart]
    · by_cases hquit : memcmpEq c.userInput ro.quit c.bytesCopied = true
      · simp [hcopied, hstart, hquit]
      · by_cases hcolors : memcmpEq c.userInput colors (c.bytesCopied - 1) = true
        · simp [hcopied, hstart, hquit, hcolors]
        · simp [hcopied, hstart, hquit, hcolors]
  · simp [hcopied]

end Cmsc421.Mastermind.Solo
