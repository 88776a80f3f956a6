import Cmsc421.Bytes

/-!
# Cmsc421.Input

Text input: `fgets`, `strtok` and `atoi`.

A file is the list of the bytes that have not been read yet.  `fgets` with a buffer
of `size` bytes takes at most `size - 1` of them, so a long line is read in several
pieces; `records` is the list of what successive calls deliver.  `strtok` gives a
token and what is left for the next call, and `none` where it returns `NULL`.
-/

namespace Cmsc421

/-! ## fgets -/

/-- What `fgets` takes from a file, at most `n` bytes up to the first newline, and the
rest of the file. -/
def takeLine : Nat → List UInt8 → List UInt8 × List UInt8
  | 0, file => ([], file)
  | _ + 1, [] => ([], [])
  | n + 1, b :: file =>
      if b = 10 then ([b], file) else (b :: (takeLine n file).1, (takeLine n file).2)

/-- `fgets(buf, size, file)`: the string that is in the buffer then, and the rest of
the file; `none` at the end of the file. -/
def fgets (size : Nat) (file : List UInt8) : Option (List UInt8 × List UInt8) :=
  if file = [] then none
  else some (cstr (takeLine (size - 1) file).1, (takeLine (size - 1) file).2)

theorem length_takeLine_le (n : Nat) (file : List UInt8) : (takeLine n file).2.length ≤ file.length := by
  induction n generalizing file with
  | zero => rfl
  | succ n ih =>
      cases file with
      | nil => rfl
      | cons b file =>
          unfold takeLine
          split
          · simp
          · have := ih file
            simp only [List.length_cons]
            omega

/-- A line that fits. -/
theorem takeLine_line {n : Nat} {line : List UInt8} (hline : 10 ∉ line) (hlen : line.length < n)
    (rest : List UInt8) : takeLine n (line ++ 10 :: rest) = (line ++ [10], rest) := by
  induction line generalizing n with
  | nil =>
      obtain ⟨m, rfl⟩ := Nat.exists_eq_succ_of_ne_zero (Nat.ne_zero_of_lt hlen)
      rfl
  | cons b line ih =>
      obtain ⟨hb, hline⟩ := not_or.mp (mt List.mem_cons.mpr hline)
      obtain ⟨m, rfl⟩ := Nat.exists_eq_succ_of_ne_zero (Nat.ne_zero_of_lt hlen)
      rw [List.cons_append, takeLine, if_neg (Ne.symm hb), ih hline (Nat.lt_of_succ_lt_succ hlen)]
      rfl

/-- The beginning of one that does not. -/
theorem takeLine_long {n : Nat} {line : List UInt8} (hline : 10 ∉ line) (hlen : n ≤ line.length)
    (rest : List UInt8) : takeLine n (line ++ rest) = (line.take n, line.drop n ++ rest) := by
  induction line generalizing n with
  | nil =>
      obtain rfl := Nat.le_zero.mp hlen
      rfl
  | cons b line ih =>
      obtain ⟨hb, hline⟩ := not_or.mp (mt List.mem_cons.mpr hline)
      cases n with
      | zero => rfl
      | succ m =>
          rw [List.cons_append, takeLine, if_neg (Ne.symm hb), ih hline (Nat.le_of_succ_le_succ hlen)]
          rfl

/-- Every call makes progress. -/
theorem length_lt_of_fgets {size : Nat} (hsize : 2 ≤ size) {file line rest : List UInt8}
    (h : fgets size file = some (line, rest)) : rest.length < file.length := by
  cases file with
  | nil => simp [fgets] at h
  | cons b file =>
      obtain ⟨n, rfl⟩ := Nat.exists_eq_add_of_le hsize
      obtain ⟨-, rfl⟩ := by simpa [fgets] using h
      rw [Nat.add_comm 1 n, takeLine]
      split
      · simp
      · have := length_takeLine_le n file
        simp only [List.length_cons]
        omega

/-- What `fgets` delivers, at most `n` times. -/
def recordsUpTo (size : Nat) : Nat → List UInt8 → List (List UInt8)
  | 0, _ => []
  | n + 1, file =>
      match fgets size file with
      | none => []
      | some (line, rest) => line :: recordsUpTo size n rest

/-- What `fgets` delivers, until the end of the file. -/
def records (size : Nat) (file : List UInt8) : List (List UInt8) := recordsUpTo size file.length file

theorem recordsUpTo_eq {size : Nat} (hsize : 2 ≤ size) {n : Nat} {file : List UInt8}
    (h : file.length ≤ n) : recordsUpTo size n file = records size file := by
  induction n using Nat.strongRecOn generalizing file with
  | ind n ih =>
      cases n with
      | zero =>
          obtain rfl := List.length_eq_zero_iff.mp (Nat.le_zero.mp h)
          rfl
      | succ n =>
          unfold records
          cases hfile : file with
          | nil => simp [recordsUpTo, fgets]
          | cons b bs =>
              rw [List.length_cons, recordsUpTo, recordsUpTo]
              cases hget : fgets size (b :: bs) with
              | none => rfl
              | some x =>
                  obtain ⟨line, rest⟩ := x
                  have hlt := length_lt_of_fgets hsize hget
                  rw [hfile, List.length_cons] at h
                  rw [List.length_cons] at hlt
                  simp only
                  rw [ih n (by omega) (by omega), ih bs.length (by omega) (by omega)]

theorem records_none {size : Nat} {file : List UInt8} (h : fgets size file = none) :
    records size file = [] := by
  unfold records
  cases file with
  | nil => rfl
  | cons b file => simp [fgets] at h

theorem records_some {size : Nat} (hsize : 2 ≤ size) {file line rest : List UInt8}
    (h : fgets size file = some (line, rest)) :
    records size file = line :: records size rest := by
  have hlt := length_lt_of_fgets hsize h
  obtain ⟨n, hn⟩ : ∃ n, file.length = n + 1 := Nat.exists_eq_succ_of_ne_zero (by omega)
  rw [records, hn, recordsUpTo, h]
  simp only
  rw [recordsUpTo_eq hsize (by omega)]

/-- A line that fits in the buffer is one string, … -/
theorem records_line {size : Nat} {line : List UInt8} (hline : 10 ∉ line) (hnul : NulFree line)
    (hlen : line.length + 1 < size) (rest : List UInt8) :
    records size (line ++ 10 :: rest) = (line ++ [10]) :: records size rest := by
  have hget : fgets size (line ++ 10 :: rest) = some (line ++ [10], rest) := by
    rw [fgets, if_neg (by simp), takeLine_line hline (by omega),
      cstr_eq_self (nulFree_append.mpr ⟨hnul, by simp [NulFree]⟩)]
  exact records_some (by omega) hget

/-- … and a longer one is continued by the next. -/
theorem records_long {size : Nat} {line : List UInt8} (hline : 10 ∉ line) (hnul : NulFree line)
    (hsize : 2 ≤ size) (hlen : size ≤ line.length + 1) (rest : List UInt8) :
    records size (line ++ 10 :: rest) =
      line.take (size - 1) :: records size (line.drop (size - 1) ++ 10 :: rest) := by
  have hget : fgets size (line ++ 10 :: rest) =
      some (line.take (size - 1), line.drop (size - 1) ++ 10 :: rest) := by
    rw [fgets, if_neg (by simp), takeLine_long hline (by omega), cstr_eq_self (hnul.take _)]
  exact records_some hsize hget

theorem fgets_of_records {size : Nat} (hsize : 2 ≤ size) {file line : List UInt8}
    {lines : List (List UInt8)} (h : records size file = line :: lines) :
    ∃ rest, fgets size file = some (line, rest) ∧ records size rest = lines := by
  cases hget : fgets size file with
  | none => simp [records_none hget] at h
  | some p =>
      obtain ⟨line', rest⟩ := p
      obtain ⟨rfl, hrest⟩ := List.cons.inj ((records_some hsize hget).symm.trans h)
      exact ⟨rest, rfl, hrest⟩

/-! ## tokens and numbers -/

/-- `strtok(s, delim)` for a single delimiter: the token, and what the next
`strtok(NULL, delim)` looks at. -/
def strtok (delim : UInt8) (s : List UInt8) : Option (List UInt8 × List UInt8) :=
  let t := s.dropWhile (· = delim)
  if t = [] then none
  else some (t.takeWhile (· ≠ delim), (t.dropWhile (· ≠ delim)).drop 1)

/-- `isspace(b)`. -/
def isSpace (b : UInt8) : Bool := b == 32 || (9 ≤ b && b ≤ 13)

/-- The value of the digits at the start of `s`. -/
def digitsValue (s : List UInt8) : Nat :=
  (s.takeWhile fun b => 48 ≤ b && b ≤ 57).foldl (fun n b => 10 * n + (b.toNat - 48)) 0

/-- `strtol(s, NULL, 10)`, with a `long` of 64 bits. -/
def strtol (s : List UInt8) : Int :=
  let x : Int :=
    match s.dropWhile isSpace with
    | 45 :: t => -digitsValue t
    | 43 :: t => digitsValue t
    | t => digitsValue t
  max (-2 ^ 63) (min (2 ^ 63 - 1) x)

/-- `atoi(s)`: the `long` cut to an `int`. -/
def atoi (s : List UInt8) : Int := int32 (strtol s)

example : records 81 (ascii "3\n8 9 0\n\n12") = [ascii "3\n", ascii "8 9 0\n", ascii "\n", ascii "12"] := by
  decide +kernel

example : (strtok 32 (ascii "  8 -9\n")).map Prod.fst = some (ascii "8") ∧ atoi (ascii "-9\n") = -9 := by
  decide +kernel

end Cmsc421
