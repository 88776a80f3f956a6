import Cmsc421.Mastermind.Game

/-!
# Cmsc421.Mastermind.Status

`mm_read` and `mm_mmap`: hand out the player's status from a file position on, and
map the page with the log of the guesses.

The calls change neither the scalars nor the entry; what a read moves is the
position of the open file, which is an argument here.
-/

namespace Cmsc421.Mastermind

/-- The arguments of `mm_read` that decide what it does: the byte count, the
file position, and whether `copy_to_user` can write the whole of what it is
given. -/
structure ReadArgs where
  count : Nat
  ppos : Int
  copyOk : Bool

/-- What a read delivers, and the file position after it. -/
structure ReadOutcome where
  result : Except Errno Nat
  delivered : List UInt8
  ppos : Int

/-- The locked section of `mm_read`.  `count` is cut to an `unsigned int`, and the
position is compared with a length as an unsigned 64-bit number. -/
def readStatus (a : ReadArgs) (g : MmGame) : ReadOutcome :=
  let len := strlen g.gameStatus
  let pos := (a.ppos % 2 ^ 64).toNat
  if len ≤ pos then ⟨.ok 0, [], a.ppos⟩
  else
    let bytesCopied := min (a.count % 2 ^ 32) (len - pos)
    if a.copyOk then
      ⟨.ok bytesCopied, (g.gameStatus.drop pos).take bytesCopied, a.ppos + bytesCopied⟩
    else ⟨.error .EINVAL, [], a.ppos⟩

/-- `mm_read` as a locked section. -/
def mmRead (a : ReadArgs) (v : Vars) (g : MmGame) : Outcome := ⟨v, g, .ret (readStatus a g).result⟩

/-- The arguments of `mm_mmap` that decide what it does: the bytes of the area, and
whether `remap_pfn_range` can map them. -/
structure MmapArgs where
  size : Nat
  remapOk : Bool

/-- What a mapping returns, and the bytes that can be read through it. -/
structure MmapOutcome where
  result : Except Errno Nat
  mapped : List UInt8

open Errno in
/-- The locked section of `mm_mmap`. -/
def mapView (a : MmapArgs) (g : MmGame) : MmapOutcome :=
  if PAGE_SIZE < a.size then ⟨.error EIO, []⟩
  else if a.remapOk then ⟨.ok 0, g.userView.take a.size⟩
  else ⟨.error .EAGAIN, []⟩

/-- `mm_mmap` as a locked section. -/
def mmMmap (a : MmapArgs) (v : Vars) (g : MmGame) : Outcome := ⟨v, g, .ret (mapView a g).result⟩

end Cmsc421.Mastermind
