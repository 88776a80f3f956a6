import Mathlib.Data.List.TakeWhile
import Mathlib.Data.List.TakeDrop
import Mathlib.Data.UInt

/-!
# Cmsc421.Bytes

Byte buffers and the C string functions on them.

A buffer is the list of the bytes from a pointer on.  A write is `poke`: it
replaces bytes in place, and where it runs past the end of the list the list
grows — the bytes past the original end are the ones a C write out of the
buffer hits.  So a function that stays inside its buffer is one that keeps the
list's length, and nothing is silently cut.

The string in a buffer is what stands before its first NUL (`cstr`).  The
lemmas say what `memset`, `scnprintf` and `strcat` make of it and of the
length; the decimal renderings of `%d` are free of NULs.
-/

namespace Cmsc421

/-! ## writes -/

/-- Write `bs` over the buffer from offset `k` on. -/
def poke (buf : List UInt8) (k : Nat) (bs : List UInt8) : List UInt8 :=
  buf.take k ++ (bs ++ buf.drop (k + bs.length))

theorem length_poke {buf : List UInt8} {k : Nat} (bs : List UInt8) (h : k ≤ buf.length) :
    (poke buf k bs).length = max buf.length (k + bs.length) := by
  simp only [poke, List.length_append, List.length_take, List.length_drop]
  omega

/-- A write that fits keeps the length. -/
theorem length_poke_of_le {buf bs : List UInt8} {k : Nat} (h : k + bs.length ≤ buf.length) :
    (poke buf k bs).length = buf.length := by
  rw [length_poke bs (by omega)]
  omega

/-- `memset(buf, 0, n)`. -/
def memsetZero (buf : List UInt8) (n : Nat) : List UInt8 := poke buf 0 (List.replicate n 0)

theorem length_memsetZero {buf : List UInt8} {n : Nat} (h : n ≤ buf.length) :
    (memsetZero buf n).length = buf.length := by
  simp only [memsetZero]
  exact length_poke_of_le (by simpa using h)

/-- `memcmp(a, b, n) == 0`. -/
def memcmpEq (a b : List UInt8) (n : Nat) : Bool := a.take n == b.take n

theorem memcmpEq_iff {a b : List UInt8} {n : Nat} : memcmpEq a b n = true ↔ a.take n = b.take n := by
  simp [memcmpEq]

/-- `copy_from_user(dst, ubuf, n)`, where `ubuf` is what the caller's memory
holds from its pointer on, up to the first unreadable byte: the buffer after
the copy and the number of bytes that could not be copied. -/
def copyFromUser (dst ubuf : List UInt8) (n : Nat) : List UInt8 × Nat :=
  (poke dst 0 (ubuf.take n), n - ubuf.length)

/-! ## strings -/

/-- The string in a buffer: the bytes before the first NUL. -/
def cstr (buf : List UInt8) : List UInt8 := buf.takeWhile (· ≠ 0)

/-- `strlen(buf)`. -/
def strlen (buf : List UInt8) : Nat := (cstr buf).length

/-- No byte is NUL. -/
def NulFree (bs : List UInt8) : Prop := ∀ b ∈ bs, b ≠ 0

instance (bs : List UInt8) : Decidable (NulFree bs) := inferInstanceAs (Decidable (∀ b ∈ bs, b ≠ 0))

@[simp] theorem nulFree_append {xs ys : List UInt8} : NulFree (xs ++ ys) ↔ NulFree xs ∧ NulFree ys :=
  List.forall_mem_append

theorem NulFree.take {bs : List UInt8} (h : NulFree bs) (n : Nat) : NulFree (bs.take n) :=
  fun b hb => h b (List.mem_of_mem_take hb)

theorem nulFree_cstr (buf : List UInt8) : NulFree (cstr buf) := fun b hb => by
  simpa using List.mem_takeWhile_imp hb

/-- Without a NUL it is all of them. -/
theorem cstr_eq_self {buf : List UInt8} (h : NulFree buf) : cstr buf = buf :=
  List.takeWhile_eq_self_iff.mpr fun b hb => by simpa using h b hb

/-- A NUL ends the string. -/
theorem cstr_append_nul {bs : List UInt8} (h : NulFree bs) (rest : List UInt8) :
    cstr (bs ++ 0 :: rest) = bs := by
  rw [cstr, List.takeWhile_append_of_pos fun b hb => by simpa using h b hb]
  simp

/-- Or it ends before. -/
theorem strlen_append_nul_le (bs rest : List UInt8) : strlen (bs ++ 0 :: rest) ≤ bs.length := by
  induction bs with
  | nil => simp [strlen, cstr]
  | cons b bs ih =>
      rw [strlen, cstr, List.cons_append, List.takeWhile_cons]
      split
      · exact Nat.succ_le_succ ih
      · exact Nat.zero_le _

/-- The bytes of the string are the first `strlen` bytes of the buffer. -/
theorem take_strlen (buf : List UInt8) : buf.take (strlen buf) = cstr buf :=
  (List.prefix_iff_eq_take.mp (List.takeWhile_prefix _)).symm

theorem strlen_le_length (buf : List UInt8) : strlen buf ≤ buf.length :=
  (List.takeWhile_prefix _).length_le

@[simp] theorem cstr_memsetZero {buf : List UInt8} {n : Nat} (h : 0 < n) :
    cstr (memsetZero buf n) = [] := by
  obtain ⟨m, rfl⟩ := Nat.exists_eq_succ_of_ne_zero (Nat.pos_iff_ne_zero.mp h)
  rfl

/-- `strcat(dst, src)`: the string of `src` and its NUL, from the end of the
string of `dst` on. -/
def strcat (dst src : List UInt8) : List UInt8 := poke dst (strlen dst) (cstr src ++ [0])

@[simp] theorem cstr_strcat (dst src : List UInt8) : cstr (strcat dst src) = cstr dst ++ cstr src := by
  have hnul : NulFree (cstr dst ++ cstr src) :=
    nulFree_append.mpr ⟨nulFree_cstr dst, nulFree_cstr src⟩
  rw [strcat, poke, take_strlen]
  simpa using cstr_append_nul hnul _

theorem strlen_strcat (dst src : List UInt8) : strlen (strcat dst src) = strlen dst + strlen src := by
  simp [strlen]

theorem length_strcat (dst src : List UInt8) :
    (strcat dst src).length = max dst.length (strlen dst + strlen src + 1) := by
  rw [strcat, length_poke _ (strlen_le_length dst)]
  simp [strlen, Nat.add_assoc]

/-! ## formatted output -/

/-- `scnprintf(buf, size, …)` with the rendering `text`: at most `size - 1`
bytes of it and a NUL. -/
def scnprintf (buf : List UInt8) (size : Nat) (text : List UInt8) : List UInt8 :=
  if size = 0 then buf else poke buf 0 (text.take (size - 1) ++ [0])

theorem cstr_scnprintf {text : List UInt8} (h : NulFree text) (buf : List UInt8) {size : Nat}
    (hs : 0 < size) : cstr (scnprintf buf size text) = text.take (size - 1) := by
  rw [scnprintf, if_neg (by omega), poke]
  simpa using cstr_append_nul (h.take _) _

/-- The string in the buffer is shorter than `size`. -/
theorem strlen_scnprintf_lt (buf text : List UInt8) {size : Nat} (hs : 0 < size) :
    strlen (scnprintf buf size text) < size := by
  have hcut := strlen_append_nul_le (text.take (size - 1)) (buf.drop (text.take (size - 1) ++ [0]).length)
  rw [scnprintf, if_neg (by omega), poke, List.take_zero, List.nil_append, Nat.zero_add,
    List.append_assoc, List.singleton_append]
  rw [List.length_take] at hcut
  omega

theorem length_scnprintf {buf : List UInt8} {size : Nat} (hsize : size ≤ buf.length) (text : List UInt8) :
    (scnprintf buf size text).length = buf.length := by
  unfold scnprintf
  split
  · rfl
  · refine length_poke_of_le ?_
    rw [List.length_append, List.length_take, List.length_singleton]
    omega

/-- The bytes of a text without multi-byte characters. -/
def ascii (s : String) : List UInt8 := s.toList.map fun c => c.toNat.toUInt8

/-- The digits of `n`, as `%u` prints them. -/
def decimalNat (n : Nat) : List UInt8 := (Nat.toDigits 10 n).map fun c => c.toNat.toUInt8

/-- The rendering of `%d`. -/
def decimal : Int → List UInt8
  | .ofNat n => decimalNat n
  | .negSucc n => ascii "-" ++ decimalNat (n + 1)

theorem length_decimalNat_pos (n : Nat) : 0 < (decimalNat n).length := by
  simpa [decimalNat] using Nat.length_toDigits_pos

theorem length_decimal_pos (i : Int) : 0 < (decimal i).length := by
  cases i with
  | ofNat n => exact length_decimalNat_pos n
  | negSucc n => simp [decimal, ascii]

/-- One byte is enough for a digit, and only for a digit. -/
theorem length_decimal_le_one {i : Int} (h : 0 ≤ i) : (decimal i).length ≤ 1 ↔ i ≤ 9 := by
  obtain ⟨n, rfl⟩ := Int.eq_ofNat_of_zero_le h
  have hlen := Nat.length_toDigits_le_iff (b := 10) (n := n) (by decide) Nat.one_pos
  simp only [decimal, decimalNat, List.length_map, hlen]
  omega

theorem toNat_of_mem_toDigits {n : Nat} {c : Char} (h : c ∈ Nat.toDigits 10 n) :
    48 ≤ c.toNat ∧ c.toNat ≤ 57 := by
  have hd := Nat.isDigit_of_mem_toDigits (by decide) (by decide) h
  simpa [Char.isDigit, Char.le_def, UInt32.le_iff_toNat_le] using hd

theorem digit_of_mem_decimalNat {n : Nat} {b : UInt8} (h : b ∈ decimalNat n) :
    48 ≤ b.toNat ∧ b.toNat ≤ 57 := by
  obtain ⟨c, hc, rfl⟩ := List.mem_map.mp h
  have hle := toNat_of_mem_toDigits hc
  simp only [Nat.toUInt8, UInt8.toNat_ofNat']
  omega

theorem nulFree_decimalNat (n : Nat) : NulFree (decimalNat n) := by
  rintro b hb rfl
  exact absurd (digit_of_mem_decimalNat hb).1 (by decide)

theorem nulFree_decimal (i : Int) : NulFree (decimal i) := by
  cases i with
  | ofNat n => exact nulFree_decimalNat n
  | negSucc n => exact nulFree_append.mpr ⟨by decide +kernel, nulFree_decimalNat (n + 1)⟩

/-! ## characters -/

/-- A byte read as a `char`, which is signed on this target. -/
def schar (b : UInt8) : Int := if b.toNat < 128 then b.toNat else (b.toNat : Int) - 256

theorem schar_le (b : UInt8) : schar b ≤ 127 := by
  have := b.toNat_lt
  unfold schar
  split <;> omega

/-- The value of a C `int` after an operation with the mathematical result `x`:
two's complement, 32 bits. -/
def int32 (x : Int) : Int := x.bmod (2 ^ 32)

/-- The value of a C `unsigned int` after an operation with the mathematical
result `x`. -/
def uint32 (x : Int) : Nat := (x % 2 ^ 32).toNat

/-- The values of an `int`. -/
def FitsInt (x : Int) : Prop := -2 ^ 31 ≤ x ∧ x < 2 ^ 31

instance : DecidablePred FitsInt := fun x => inferInstanceAs (Decidable (-2 ^ 31 ≤ x ∧ x < 2 ^ 31))

/-- What fits is stored as it is. -/
theorem int32_of_fits {x : Int} (hlo : -2 ^ 31 ≤ x) (hhi : x < 2 ^ 31) : int32 x = x := by
  rw [int32, Int.bmod_def]
  split <;> omega

theorem FitsInt.int32_eq {x : Int} (h : FitsInt x) : int32 x = x := int32_of_fits h.1 h.2

theorem int32_natCast {n : Nat} (h : n < 2 ^ 31) : int32 n = n := int32_of_fits (by omega) (by omega)

/-- Storing in an `int` changes nothing modulo `2 ^ 32`. -/
theorem int32_emod (x : Int) : int32 x % 2 ^ 32 = x % 2 ^ 32 := by
  rw [int32, Int.bmod_def]
  split <;> omega

theorem int32_congr {x y : Int} (h : x % 2 ^ 32 = y % 2 ^ 32) : int32 x = int32 y := by
  rw [int32, int32, Int.bmod_def, Int.bmod_def]
  split <;> split <;> omega

theorem uint32_int32 (x : Int) : uint32 (int32 x) = uint32 x := by rw [uint32, uint32, int32_emod]

theorem uint32_int32_add_one (x : Int) : uint32 (int32 x + 1) = uint32 (x + 1) := by
  have := int32_emod x
  rw [uint32, uint32]
  omega

end Cmsc421
