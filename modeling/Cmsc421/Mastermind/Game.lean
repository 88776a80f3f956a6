import Cmsc421.Bytes
import Mathlib.Data.Fin.VecNotation
import Mathlib.Data.List.FinRange

/-!
# Cmsc421.Mastermind.Game

The data of `mastermind2.c` and `find_game`.

The module's globals are split in two: the scalars (`Vars`, with the one
`target_code`) and `games_list`, which holds one `mm_game` per player.  A
`struct mm_game *` is the position of the entry in the list: entries are only
ever appended while the driver is bound, so a position never moves.

Every call works on its own entry inside one locked section, which is a
function of the scalars and the entry (`Outcome`); `Driver.withGame` finds the
entry behind the pointer that `find_game` returned and puts it back.
-/

namespace Cmsc421.Mastermind

/-- Digits in a code. -/
abbrev NUM_PEGS : Nat := 4

instance : NeZero NUM_PEGS := ⟨by decide⟩

/-- Bytes of a page, and of the `user_view` that `find_game` allocates. -/
def PAGE_SIZE : Nat := 4096

/-- The module variable `zero_ascii`, never assigned. -/
def zeroAscii : Int := 48

/-- A user id. -/
abbrev Kuid := Nat

/-- The digits of a code or of a guess. -/
abbrev Code := Fin NUM_PEGS → Int

instance : DecidableEq Code := fun a b => decidable_of_iff (∀ i, a i = b i) funext_iff.symm

/-- `struct mm_game`; the list head is the entry's place in the list. -/
structure MmGame where
  gameActive : Bool
  numGuesses : UInt32
  /-- `char game_status[80]` -/
  gameStatus : List UInt8
  /-- the bytes from `user_view` on, which points to one page -/
  userView : List UInt8
  playerId : Kuid

/-- The scalar globals of the module. -/
structure Vars where
  numColors : Int
  numGameStarted : Int
  timesTargetCodeChanged : Int
  numInvalidChangeAttempts : Int
  randomCode : Bool
  targetCode : Code

/-- The scalars as the module is loaded, with `random_code` from the command
line. -/
def initVars (randomCode : Bool) : Vars where
  numColors := 6
  numGameStarted := 0
  timesTargetCodeChanged := 0
  numInvalidChangeAttempts := 0
  randomCode := randomCode
  targetCode := fun _ => 0

/-- The module's state. -/
structure Driver where
  vars : Vars
  gamesList : List MmGame

/-- The errors the driver returns, negated in the source. -/
inductive Errno
  | EINVAL
  | EACCES
  | EIO
  | EAGAIN
  deriving DecidableEq

/-- How a locked section ends: it releases the lock and returns a byte count or
an error, or the processor traps in it (a division by zero), and then the lock
is never released. -/
inductive Result
  | ret (r : Except Errno Nat)
  | trap
  deriving DecidableEq

/-- What a locked section leaves behind. -/
structure Outcome where
  vars : Vars
  game : MmGame
  result : Result

/-- A section that returns an error and changes nothing. -/
def refuse (e : Errno) (v : Vars) (g : MmGame) : Outcome := ⟨v, g, .ret (.error e)⟩

/-- The entry behind a pointer, `none` for `NULL`. -/
def Driver.deref (d : Driver) (curr : Option Nat) : Option MmGame := curr.bind fun p => d.gamesList[p]?

/-- Run a locked section on the entry `curr` points to; for `NULL` the caller
gets the error `e`. -/
def Driver.withGame (d : Driver) (e : Errno) (curr : Option Nat) (f : Vars → MmGame → Outcome) :
    Driver × Result :=
  match curr with
  | none => (d, .ret (.error e))
  | some p =>
      match d.gamesList[p]? with
      | none => (d, .ret (.error e))
      | some g =>
          ({ vars := (f d.vars g).vars
             gamesList := d.gamesList.set p (f d.vars g).game },
            (f d.vars g).result)

/-! ## find_game -/

/-- What the two allocations of `find_game` give: whether `kzalloc` succeeds,
and the page `vmalloc` returns with whatever it holds. -/
structure Allocation where
  kzalloc : Bool
  vmalloc : Option (Vector UInt8 PAGE_SIZE)

/-- The entry `find_game` sets up for a new player on a fresh page. -/
def newGame (player : Kuid) (page : List UInt8) : MmGame where
  gameActive := false
  numGuesses := 0
  gameStatus := scnprintf (memsetZero (List.replicate 80 0) 80) 13 (ascii "No game yet\n")
  userView := memsetZero page 80
  playerId := player

/-- `find_game()`: the player's entry, or a new one at the end of the list, or
`NULL` when an allocation fails. -/
def findGame (player : Kuid) (a : Allocation) (d : Driver) : Driver × Option Nat :=
  match d.gamesList.findIdx? (fun entry => player == entry.playerId) with
  | some p => (d, some p)
  | none =>
      if a.kzalloc then
        match a.vmalloc with
        | some page =>
            ({ d with gamesList := d.gamesList ++ [newGame player page.toList] },
              some d.gamesList.length)
        | none => (d, none)
      else (d, none)

/-! ## digits as characters -/

/-- The bound `zero_ascii + NUM_COLORS - 1` on the characters of a code. -/
def highestDigit (v : Vars) : Int := zeroAscii + v.numColors - 1

/-- The test both `mm_write` and `cs421net_bottom` make on a character. -/
def digitOk (highest c : Int) : Bool := !(decide (c < zeroAscii) || decide (highest < c))

theorem digitOk_iff {highest c : Int} : digitOk highest c = true ↔ zeroAscii ≤ c ∧ c ≤ highest := by
  simp [digitOk, not_lt]

/-! ## facts about the entry behind a pointer -/

/-- What `find_game` can do: return an entry of the player, append a new one,
or fail and change nothing. -/
theorem findGame_cases (player : Kuid) (a : Allocation) (d : Driver) :
    (∃ p g, d.gamesList[p]? = some g ∧ g.playerId = player ∧ findGame player a d = (d, some p)) ∨
    ((∀ g ∈ d.gamesList, g.playerId ≠ player) ∧
      ∃ page : Vector UInt8 PAGE_SIZE, a.kzalloc = true ∧ a.vmalloc = some page ∧
        findGame player a d =
          ({ d with gamesList := d.gamesList ++ [newGame player page.toList] },
            some d.gamesList.length)) ∨
    ((∀ g ∈ d.gamesList, g.playerId ≠ player) ∧ (a.kzalloc = false ∨ a.vmalloc = none) ∧
      findGame player a d = (d, none)) := by
  unfold findGame
  split
  · next p hp =>
      obtain ⟨hlt, hg, -⟩ := List.findIdx?_eq_some_iff_getElem.mp hp
      refine .inl ⟨p, d.gamesList[p], by simp [hlt], ?_, rfl⟩
      exact (beq_iff_eq.mp hg).symm
  · next hnone =>
      have hne : ∀ g ∈ d.gamesList, g.playerId ≠ player := by
        intro g hg h
        have := List.findIdx?_eq_none_iff.mp hnone g hg
        simp [h] at this
      split
      · next hk =>
          split
          · next page hv => exact .inr (.inl ⟨hne, page, hk, hv, rfl⟩)
          · next hv => exact .inr (.inr ⟨hne, .inr hv, rfl⟩)
      · next hk => exact .inr (.inr ⟨hne, .inl (by simpa using hk), rfl⟩)

/-- What a locked section can do through a pointer: nothing but return the error
when there is no entry, and otherwise replace the entry. -/
theorem withGame_cases (d : Driver) (e : Errno) (curr : Option Nat) (f : Vars → MmGame → Outcome) :
    (d.deref curr = none ∧ d.withGame e curr f = (d, .ret (.error e))) ∨
    (∃ p g, curr = some p ∧ d.gamesList[p]? = some g ∧
      d.withGame e curr f =
        ({ vars := (f d.vars g).vars
           gamesList := d.gamesList.set p (f d.vars g).game },
          (f d.vars g).result)) := by
  unfold Driver.withGame Driver.deref
  cases curr with
  | none => exact .inl ⟨rfl, rfl⟩
  | some p =>
      simp only [Option.bind_some]
      split
      · next h => exact .inl ⟨h, rfl⟩
      · next g h => exact .inr ⟨p, g, rfl, h, rfl⟩

end Cmsc421.Mastermind
