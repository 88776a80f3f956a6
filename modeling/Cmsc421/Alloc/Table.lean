import Cmsc421.Mutex
import Cmsc421.Bytes

/-!
# Cmsc421.Alloc.Table

The allocator of `hw4.c`: its table, and its four functions as programs.

The functions are written operation by operation — every `sem_wait` and
`sem_post`, every read and write of a field of `TOTAL_FLAGS`, the `memcpy`, the
store to `errno` and the `raise` — so that the same text can be run alone or
interleaved with other threads.  `raise(SIGSEGV)` returns: a handler that
returns is installed.

The number of frames is a parameter `N`; `main` has 12 of them.  Products with
`BYTES_PER_FRAME` are computed in `unsigned int`, which is exact for fewer than
`2 ^ 26` frames.
-/

namespace Cmsc421.Alloc

/-- Frames of the simulated machine. -/
def NUM_OF_FRAMES : Nat := 12

/-- Bytes of a frame. -/
def BYTES_PER_FRAME : Nat := 32

/-- The error number of a request that cannot be met. -/
def ENOMEM : Int := 12

/-- `MEM_FLAG`. -/
structure MemFlag where
  free : Bool
  startFrame : Bool
  numOfFrames : Nat
  deriving DecidableEq

/-- A pointer: `NULL`, or the address at some distance from `TOTAL_MEM`. -/
inductive Ptr
  | null
  | mem (off : Int)
  deriving DecidableEq

/-- `&TOTAL_MEM[i * BYTES_PER_FRAME]`. -/
def frameAddr (i : Nat) : Ptr := .mem (i * BYTES_PER_FRAME : Nat)

/-- The allocator's data; entries and bytes past the end of the arrays are what
stands in memory behind them. -/
structure Region where
  totalFlags : Nat → MemFlag
  totalMem : Nat → UInt8
  errno : Int
  /-- signals raised -/
  faults : Nat

/-- The operations on the data. -/
inductive Access
  | readFree (i : Nat)
  | readStart (i : Nat)
  | readNum (i : Nat)
  | writeFree (i : Nat) (b : Bool)
  | writeStart (i : Nat) (b : Bool)
  | writeNum (i : Nat) (n : Nat)
  | writeMem (b : Nat) (v : UInt8)
  | memcpy (dst src n : Nat)
  | setErrno (e : Int)
  | raise

/-- What an operation answers. -/
abbrev Access.Ans : Access → Type
  | .readFree _ => Bool
  | .readStart _ => Bool
  | .readNum _ => Nat
  | _ => Unit

/-- Change one entry of the table. -/
def Region.setFlag (d : Region) (i : Nat) (f : MemFlag) : Region :=
  { d with totalFlags := Function.update d.totalFlags i f }

/-- The effect of an operation. -/
def act : (o : Access) → Region → o.Ans × Region
  | .readFree i, d => ((d.totalFlags i).free, d)
  | .readStart i, d => ((d.totalFlags i).startFrame, d)
  | .readNum i, d => ((d.totalFlags i).numOfFrames, d)
  | .writeFree i b, d => ((), d.setFlag i { d.totalFlags i with free := b })
  | .writeStart i b, d => ((), d.setFlag i { d.totalFlags i with startFrame := b })
  | .writeNum i n, d => ((), d.setFlag i { d.totalFlags i with numOfFrames := n })
  | .writeMem b v, d => ((), { d with totalMem := Function.update d.totalMem b v })
  | .memcpy dst src n, d =>
      ((), { d with
        totalMem := fun b =>
          if dst ≤ b ∧ b < dst + n then d.totalMem (src + (b - dst)) else d.totalMem b })
  | .setErrno e, d => ((), { d with errno := e })
  | .raise, d => ((), { d with faults := d.faults + 1 })

/-- A program of the allocator. -/
abbrev AllocProg (α : Type) : Type := LockProg Access Access.Ans α

/-! ## single operations -/

/-- Perform an operation on the data. -/
def access (o : Access) : AllocProg o.Ans := Prog.perform (LockOp.data o)

def semWait : AllocProg Unit := Prog.perform LockOp.wait
def semPost : AllocProg Unit := Prog.perform LockOp.post
def readFree (i : Nat) : AllocProg Bool := access (.readFree i)
def readStart (i : Nat) : AllocProg Bool := access (.readStart i)
def readNum (i : Nat) : AllocProg Nat := access (.readNum i)
def writeFree (i : Nat) (b : Bool) : AllocProg Unit := access (.writeFree i b)
def writeStart (i : Nat) (b : Bool) : AllocProg Unit := access (.writeStart i b)
def writeNum (i n : Nat) : AllocProg Unit := access (.writeNum i n)
def writeMem (b : Nat) (v : UInt8) : AllocProg Unit := access (.writeMem b v)
def memcpy (dst src n : Nat) : AllocProg Unit := access (.memcpy dst src n)
def setErrno (e : Int) : AllocProg Unit := access (.setErrno e)
def raiseSegv : AllocProg Unit := access .raise

/-- `a + b` in `unsigned int`. -/
def uadd (a b : Nat) : Nat := (a + b) % 2 ^ 32

/-- `numOfFrames` of a request, an `int`; the conversion and the increment wrap. -/
def numOfFrames (size : Nat) : Int :=
  let n := int32 ((size / BYTES_PER_FRAME : Nat) : Int)
  if int32 ((size % BYTES_PER_FRAME : Nat) : Int) ≠ 0 then int32 (n + 1) else n

/-- Write the three fields of an entry. -/
def writeFlag (f : MemFlag) (i : Nat) : AllocProg Unit := do
  writeFree i f.free
  writeStart i f.startFrame
  writeNum i f.numOfFrames

/-- The flags of a frame that belongs to no block. -/
def freeFlag : MemFlag := ⟨true, false, 0⟩

/-- The loop that writes the entries from `i` up to, and without, `bound`. -/
def writeFlags (f : MemFlag) (i bound : Nat) : AllocProg Unit :=
  (List.range' i (bound - i)).forM (writeFlag f)

/-! ## my_malloc -/

/-- The variables of the search for the largest free region. -/
structure Scan where
  largestRegionStart : Int
  largestRegionSize : Nat
  currRegionStart : Int
  currRegionSize : Nat
  first : Bool

/-- Their initial values. -/
def Scan.init : Scan := ⟨-1, 0, -1, 0, true⟩

/-- The current region becomes the largest, if it is larger. -/
def Scan.keep (st : Scan) : Scan :=
  if st.largestRegionSize < st.currRegionSize then
    { st with largestRegionStart := st.currRegionStart, largestRegionSize := st.currRegionSize }
  else st

/-- One round of the search, at frame `i`. -/
def Scan.frame (N : Nat) (free : Bool) (i : Nat) (st : Scan) : Scan :=
  if free then
    let st :=
      if st.first then { st with currRegionStart := i, currRegionSize := 1, first := false }
      else { st with currRegionSize := st.currRegionSize + 1 }
    if i = N - 1 then st.keep else st
  else { st.keep with first := true, currRegionSize := 0 }

/-- One round as a program. -/
def scanFrame (N : Nat) (st : Scan) (i : Nat) : AllocProg Scan := do
  let free ← readFree i
  return st.frame N free i

/-- The search. -/
def scan (N : Nat) : AllocProg Scan := (List.range N).foldlM (scanFrame N) .init

/-- `my_malloc()`. -/
def myMalloc (N size : Nat) : AllocProg Ptr := do
  semWait
  if size = 0 ∨ N * BYTES_PER_FRAME < size then
    semPost
    return .null
  else
    let st ← scan N
    if size ≤ st.largestRegionSize * BYTES_PER_FRAME then
      let start := st.largestRegionStart.toNat
      let n := uint32 (numOfFrames size)
      writeFlag ⟨false, true, n⟩ start
      writeFlags ⟨false, false, n⟩ (start + 1) (uadd start n)
      semPost
      return frameAddr start
    else
      setErrno ENOMEM
      semPost
      return .null

/-! ## my_free -/

/-- The search for the frame at the address `ptr`; it reads no entry of the table
before it has found the frame. -/
def frameOf (N : Nat) (ptr : Ptr) : Option Nat := (List.range N).find? fun i => frameAddr i = ptr

/-- `!start_frame || free`, the second only looked at if need be. -/
def notAllocated (i : Nat) : AllocProg Bool := do
  let start ← readStart i
  if start then readFree i else return true

/-- Release the lock and raise the signal. -/
def fault : AllocProg Unit := do
  semPost
  raiseSegv

/-- `my_free()`. -/
def myFree (N : Nat) (ptr : Ptr) : AllocProg Unit := do
  semWait
  if ptr ≠ .null then
    match frameOf N ptr with
    | some i =>
        let bad ← notAllocated i
        if bad then fault
        else
          let framesToFree ← readNum i
          writeFlags freeFlag i (uadd i framesToFree)
    | none => fault
  semPost

/-! ## my_realloc -/

/-- The loop that cuts the block at `i` to `n` frames, from frame `j` on; it reads
the length of the block afresh in every round. -/
def cutLoop (i n : Nat) : Nat → Nat → AllocProg Unit
  | 0, _ => return ()
  | fuel + 1, j => do
      let k ← readNum i
      if j < uadd i k then
        if uadd i n ≤ j then writeFlag freeFlag j
        cutLoop i n fuel (j + 1)

/-- The part of `my_realloc` that works on the block at frame `i`, with the lock
taken. -/
def reallocAt (N i size : Nat) : AllocProg Ptr := do
  let n := uint32 (numOfFrames size)
  let k ← readNum i
  if n < k then
    cutLoop i n (k + 1) i
    writeNum i n
    semPost
    return frameAddr i
  else
    let k ← readNum i
    if k < n then
      let new ← myMalloc N size
      match new with
      | .mem off =>
          let k ← readNum i
          memcpy off.toNat (i * BYTES_PER_FRAME) (k * BYTES_PER_FRAME % 2 ^ 32)
          myFree N (frameAddr i)
          semPost
          return .mem off
      | .null =>
          setErrno ENOMEM
          semPost
          return .null
    else
      -- the same size: out of the loop, and past every `sem_post`
      return .null

/-- `my_realloc()`. -/
def myRealloc (N : Nat) (ptr : Ptr) (size : Nat) : AllocProg Ptr :=
  if ptr = .null then myMalloc N size
  else if size = 0 then do
    myFree N ptr
    return .null
  else do
    semWait
    match frameOf N ptr with
    | some i =>
        let bad ← notAllocated i
        if bad then
          fault
          return .null
        else reallocAt N i size
    | none =>
        fault
        return .null

/-! ## my_malloc_usable_size -/

/-- `my_malloc_usable_size()`; the size is read after the lock is released. -/
def myMallocUsableSize (N : Nat) (ptr : Ptr) : AllocProg Nat :=
  if ptr = .null then return 0
  else do
    semWait
    match frameOf N ptr with
    | some i =>
        let bad ← notAllocated i
        semPost
        if bad then return 0
        else
          let k ← readNum i
          return k * BYTES_PER_FRAME % 2 ^ 32
    | none =>
        semPost
        return 0

/-! ## calls -/

/-- A call, with its arguments; a size is a `size_t`. -/
inductive Call
  | malloc (size : Nat)
  | free (ptr : Ptr)
  | realloc (ptr : Ptr) (size : Nat)
  | usableSize (ptr : Ptr)
  deriving DecidableEq

/-- What a call returns. -/
inductive Ret
  | ptr (p : Ptr)
  | size (n : Nat)
  | void
  deriving DecidableEq

/-- The program of a call. -/
def Call.body (N : Nat) : Call → AllocProg Ret
  | .malloc size => do return .ptr (← myMalloc N size)
  | .free ptr => do
      myFree N ptr
      return .void
  | .realloc ptr size => do return .ptr (← myRealloc N ptr size)
  | .usableSize ptr => do return .size (← myMallocUsableSize N ptr)

/-! ## main -/

/-- The data before `main`: static storage is zero. -/
def staticRegion : Region := ⟨fun _ => ⟨false, false, 0⟩, fun _ => 0, 0, 0⟩

/-- What `main` does with the lock, which `sem_init` has set to one, before it
runs the test. -/
def setUp (N : Nat) : AllocProg Unit := do
  semWait
  (List.range (N * BYTES_PER_FRAME)).forM fun b => writeMem b 0
  writeFlags freeFlag 0 N
  semPost

/-- The data `main` leaves behind. -/
def initRegion (N : Nat) : Region :=
  { staticRegion with totalFlags := fun i => if i < N then freeFlag else ⟨false, false, 0⟩ }

end Cmsc421.Alloc
