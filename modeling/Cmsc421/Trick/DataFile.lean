import Cmsc421.Input
import Cmsc421.Trick.Neighborhood

/-!
# Cmsc421.Trick.DataFile

The data file: the number of groups, ten houses, the groups, and then refills up to the
end.

Nothing checks it.  A line with too few tokens makes the program pass `NULL` to `atoi`,
a group whose line is missing is never set up, and a house index is used as it is
read.  `wellFormed` is the shape of a file that does none of this; like the program it
takes the records one by one.
-/

namespace Cmsc421.Trick

/-- `max_char_per_line` -/
def maxCharPerLine : Nat := 81

/-- `atoi(strtok(s, space))`, and what is left of `s`; `none` where the token is `NULL`. -/
def number (s : List UInt8) : Option (Int × List UInt8) :=
  (strtok 32 s).map fun t => (atoi t.1, t.2)

/-- The numbers of a line about a group or a refill. -/
def twoNumbers (line : List UInt8) : Option (Int × Int) :=
  (number line).bind fun a => (number a.2).map fun b => (a.1, b.1)

/-- The numbers of a line about a house. -/
def threeNumbers (line : List UInt8) : Option (Int × Int × Int) :=
  (number line).bind fun a => (number a.2).bind fun b => (number b.2).map fun c =>
    (a.1, b.1, c.1)

/-- A line about a group or a refill has two tokens, the first one a house index. -/
def namesHouse (line : List UInt8) : Bool := (twoNumbers line).any fun p => (houseIndex p.1).isSome

/-- The lines from the first refill on. -/
def refillsOk (lines : List (List UInt8)) : Bool := lines.all namesHouse

/-- The lines from a group on, if `n` groups are to come. -/
def groupsOk : Nat → List (List UInt8) → Bool
  | 0, lines => refillsOk lines
  | _ + 1, [] => false
  | n + 1, line :: lines => namesHouse line && groupsOk n lines

/-- The lines from a house on, if `n` houses and then `G` groups are to come.  Without
a line for a house the program ends. -/
def housesOk (G : Nat) : Nat → List (List UInt8) → Bool
  | 0, lines => groupsOk G lines
  | _ + 1, [] => true
  | n + 1, line :: lines => (threeNumbers line).isSome && housesOk G n lines

/-- The file is well formed, as far as the program reads it. -/
def wellFormed (file : List UInt8) : Bool :=
  match records maxCharPerLine file with
  | [] => true
  | line :: lines => housesOk (atoi line).toNat numOfHouses lines

/-- Ten houses in a row with four pieces of candy each, a group of three that starts at
the first one, and a refill. -/
def sampleData : List UInt8 :=
  ascii "1\n0 0 4\n1 0 4\n2 0 4\n3 0 4\n4 0 4\n5 0 4\n6 0 4\n7 0 4\n8 0 4\n9 0 4\n0 3\n1 5\n"

example : wellFormed sampleData = true := by decide +kernel

end Cmsc421.Trick
