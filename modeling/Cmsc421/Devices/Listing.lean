import Cmsc421.Search

/-!
# Cmsc421.Devices.Listing

`hw1.c`: the address ranges of a device, from `/proc/ioports` and `/proc/iomem`.

The program looks for the device in what `fgets` delivers, the address included, and
cuts it at the first colon, which it takes to be there.  A line of 100 characters, which
it means to allow, comes in two pieces.
-/

namespace Cmsc421.Devices

/-! ## the program -/

/-- `chars_per_line` -/
def charsPerLine : Nat := 100

/-- The loop that moves `end` back over the blanks at the end of the argument; `k` is
`end - stringToSearch`. -/
def endOf (s : List UInt8) : Nat → Nat
  | 0 => 0
  | k + 1 => if isSpace (s.getD (k + 1) 0) then endOf s k else k + 1

/-- `stringToSearch`, after its blanks have been cut off. -/
def stringToSearch (arg : List UInt8) : List UInt8 :=
  let s := arg.dropWhile isSpace
  if s = [] then [] else s.take (endOf s (s.length - 1) + 1)

/-- `tempString` up to the colon, without leading blanks; `none` where there is no colon,
and the program writes through a null pointer. -/
def addressOf (tempString : List UInt8) : Option (List UInt8) :=
  (strstr (ascii ":") tempString).map fun colon => (tempString.take colon).dropWhile isSpace

/-- What the program has printed of a file, and how many lines of it. -/
structure Printed where
  out : List UInt8
  num : Nat

/-- What is done with a string that `fgets` has read.  `num_in_ioports` and `num_in_iomem`
are of type `int`, and may not overflow. -/
def readString (needle : List UInt8) (st : Printed) (tempString : List UInt8) : Option Printed :=
  if (strstr needle tempString).isSome then
    (addressOf tempString).bind fun address =>
      if st.num + 1 < 2 ^ 31 then some ⟨st.out ++ (address ++ ascii "\n"), st.num + 1⟩ else none
  else some st

/-- The part of `main` for a file, `none` where it cannot be opened. -/
def listFile (name path : String) (needle : List UInt8) (file : Option (List UInt8)) :
    Option (List UInt8) :=
  let found : Option Printed :=
    match file with
    | some bytes => (records charsPerLine bytes).foldlM (readString needle) ⟨ascii name ++ ascii ":\n", 0⟩
    | none => some ⟨[], 0⟩
  found.map fun st =>
    if st.num = 0 then st.out ++ (ascii "No matching entry found in " ++ ascii path ++ ascii "\n")
    else st.out

/-- `main()`, with the arguments behind the program's name; what it prints, or `none`
where its behaviour is not defined. -/
def main (args : List (List UInt8)) (ioports iomem : Option (List UInt8)) : Option (List UInt8) :=
  match args with
  | [] => some (ascii "No device given.\n")
  | [arg] =>
      (listFile "ioports" "/proc/ioports" (stringToSearch arg) ioports).bind fun ports =>
        (listFile "iomem" "/proc/iomem" (stringToSearch arg) iomem).map fun mem => ports ++ mem
  | _ => some (ascii "Multiple devices given.\n")

/-! ## the argument -/

/-- The loop over the end. -/
theorem take_endOf {s : List UInt8} (hhead : ∀ b ∈ s.head?, isSpace b = false) {k : Nat}
    (hk : k < s.length) : s.take (endOf s k + 1) = (s.take (k + 1)).rdropWhile isSpace := by
  induction k with
  | zero =>
      cases s with
      | nil => simp at hk
      | cons b s =>
          have hb : isSpace b = false := hhead b rfl
          simp [endOf, List.rdropWhile_singleton, hb]
  | succ k ih =>
      rw [endOf, List.take_succ_eq_append_getElem hk, List.rdropWhile_concat,
        List.getD_eq_getElem?_getD, List.getElem?_eq_getElem hk, Option.getD_some]
      split
      · exact ih (by omega)
      · rw [List.take_succ_eq_append_getElem hk]

/-- The program searches for the argument without the blanks at its ends. -/
theorem stringToSearch_eq (arg : List UInt8) : stringToSearch arg = strip arg := by
  rw [stringToSearch, strip]
  split
  · next h => rw [h, List.rdropWhile_nil]
  · next h =>
      have hlen := List.length_pos_iff.mpr h
      rw [take_endOf _ (by omega), Nat.sub_add_cancel hlen, List.take_length]
      intro b hb
      obtain ⟨t, ht⟩ := List.head?_eq_some_iff.mp hb
      have hnot := List.head_dropWhile_not isSpace h
      simpa [ht] using hnot

/-! ## the loop -/

/-- The addresses that are printed for a string. -/
def printsOf (needle tempString : List UInt8) : Option (List (List UInt8)) :=
  if (strstr needle tempString).isSome then (addressOf tempString).map fun address => [address]
  else some []

/-- Those for all strings. -/
def printsFor (needle : List UInt8) (strings : List (List UInt8)) : Option (List (List UInt8)) :=
  (strings.mapM (printsOf needle)).map List.flatten

theorem printsFor_nil (needle : List UInt8) : printsFor needle [] = some [] := rfl

theorem printsFor_cons (needle s : List UInt8) (strings : List (List UInt8)) :
    printsFor needle (s :: strings) =
      (printsOf needle s).bind fun ps => (printsFor needle strings).map (ps ++ ·) := by
  rw [printsFor, List.mapM_cons]
  cases printsOf needle s with
  | none => rfl
  | some ps =>
      rw [printsFor]
      cases strings.mapM (printsOf needle) <;> rfl

theorem printsFor_append (needle : List UInt8) (strings strings' : List (List UInt8)) :
    printsFor needle (strings ++ strings') =
      (printsFor needle strings).bind fun ps => (printsFor needle strings').map (ps ++ ·) := by
  induction strings with
  | nil => simp [printsFor_nil]
  | cons s strings ih =>
      rw [List.cons_append, printsFor_cons, printsFor_cons, ih]
      cases printsOf needle s <;> cases printsFor needle strings <;> cases printsFor needle strings' <;>
        simp

/-- A round prints what it finds, as long as it can count it. -/
theorem readString_eq (needle s : List UInt8) {st : Printed} (hst : st.num < 2 ^ 31) :
    readString needle st s =
      (printsOf needle s).bind fun ps =>
        if st.num + ps.length < 2 ^ 31 then
          some ⟨st.out ++ ps.flatMap (· ++ ascii "\n"), st.num + ps.length⟩
        else none := by
  rw [readString, printsOf]
  by_cases hfound : (strstr needle s).isSome = true
  · rw [if_pos hfound, if_pos hfound]
    cases addressOf s with
    | none => rfl
    | some address => simp
  · have hfits : st.num + ([] : List (List UInt8)).length < 2 ^ 31 := hst
    rw [if_neg hfound, if_neg hfound, Option.bind_some, if_pos hfits]
    simp

/-- And so does the loop. -/
theorem foldlM_readString (needle : List UInt8) (strings : List (List UInt8)) (st : Printed)
    (hst : st.num < 2 ^ 31) :
    strings.foldlM (readString needle) st =
      (printsFor needle strings).bind fun ps =>
        if st.num + ps.length < 2 ^ 31 then
          some ⟨st.out ++ ps.flatMap (· ++ ascii "\n"), st.num + ps.length⟩
        else none := by
  induction strings generalizing st with
  | nil =>
      have hfits : st.num + ([] : List (List UInt8)).length < 2 ^ 31 := hst
      rw [List.foldlM_nil, printsFor_nil, Option.bind_some, if_pos hfits, List.flatMap_nil,
        List.append_nil]
      rfl
  | cons s strings ih =>
      rw [List.foldlM_cons, printsFor_cons, readString_eq needle s hst]
      cases printsOf needle s with
      | none => rfl
      | some ps =>
          simp only [Option.bind_some]
          by_cases hnum : st.num + ps.length < 2 ^ 31
          · rw [if_pos hnum]
            refine (ih _ hnum).trans ?_
            cases printsFor needle strings with
            | none => rfl
            | some qs => simp [Nat.add_assoc]
          · rw [if_neg hnum]
            cases printsFor needle strings with
            | none => rfl
            | some qs =>
                have hmany : ¬ st.num + (ps ++ qs).length < 2 ^ 31 := by
                  rw [List.length_append]
                  omega
                exact (if_neg hmany).symm

/-! ## the lines -/

/-- A line of the form that the files have: blanks, an address range, `" : "` and a name.
A colon may stand in the name, but not in front of it. -/
structure Entry where
  indent : List UInt8
  address : List UInt8
  name : List UInt8
  indent_blank : ∀ b ∈ indent, isSpace b = true ∧ b ≠ 10
  address_head : ∃ b ∈ address.head?, isSpace b = false
  address_text : ∀ b ∈ address, b ≠ 58 ∧ b ≠ 10 ∧ b ≠ 0
  name_text : ∀ b ∈ name, b ≠ 10 ∧ b ≠ 0
  short : (indent ++ address ++ ascii " : " ++ name).length ≤ 100

namespace Entry

/-- The line. -/
def line (e : Entry) : List UInt8 := e.indent ++ e.address ++ ascii " : " ++ e.name

/-- What stands in front of the colon, without the leading blanks. -/
def field (e : Entry) : List UInt8 := e.address ++ ascii " "

/-- The name contains the device. -/
def IsOf (needle : List UInt8) (e : Entry) : Prop := needle <:+: e.name

instance (needle : List UInt8) : DecidablePred (IsOf needle) := fun e =>
  inferInstanceAs (Decidable (needle <:+: e.name))

/-- The strings in which it is read. -/
def pieces (e : Entry) : List (List UInt8) :=
  if e.line.length < 99 then [e.line ++ [10]] else [e.line.take 99, e.line.drop 99 ++ [10]]

variable (e : Entry)

theorem nulFree_line : NulFree e.line := by
  have hindent : NulFree e.indent := by
    rintro b hb rfl
    exact absurd (e.indent_blank 0 hb).1 (by decide)
  exact nulFree_append.mpr ⟨nulFree_append.mpr ⟨nulFree_append.mpr ⟨hindent,
    fun b hb => (e.address_text b hb).2.2⟩, by decide +kernel⟩, fun b hb => (e.name_text b hb).2⟩

theorem newline_notMem_line : 10 ∉ e.line := by
  have hsep : (10 : UInt8) ∉ ascii " : " := by decide +kernel
  have hindent : 10 ∉ e.indent := fun h => (e.indent_blank 10 h).2 rfl
  have haddress : 10 ∉ e.address := fun h => (e.address_text 10 h).2.1 rfl
  have hname : 10 ∉ e.name := fun h => (e.name_text 10 h).1 rfl
  simp [line, hsep, hindent, haddress, hname]

/-- The line, cut at its colon. -/
theorem line_eq : e.line = (e.indent ++ e.field) ++ 58 :: (ascii " " ++ e.name) := by
  simp [line, field, show ascii " : " = ascii " " ++ 58 :: ascii " " from rfl]

theorem colon_notMem : 58 ∉ e.indent ++ e.field := by
  have hblank : (58 : UInt8) ∉ ascii " " := by decide +kernel
  have hindent : 58 ∉ e.indent := fun h => absurd (e.indent_blank 58 h).1 (by decide)
  have haddress : 58 ∉ e.address := fun h => (e.address_text 58 h).1 rfl
  simp [field, hblank, hindent, haddress]

/-- The colon is in the first string. -/
theorem length_le : (e.indent ++ e.field).length ≤ 98 := by
  have hshort := e.short
  have hsep : (ascii " : ").length = 3 := rfl
  have hblank : (ascii " ").length = 1 := rfl
  simp only [field, List.length_append] at hshort ⊢
  omega

/-- Without the leading blanks. -/
theorem dropWhile_field : (e.indent ++ e.field).dropWhile isSpace = e.field := by
  obtain ⟨b, hb, hblank⟩ := e.address_head
  obtain ⟨t, ht⟩ := List.head?_eq_some_iff.mp hb
  rw [List.dropWhile_append_of_pos fun b hb => (e.indent_blank b hb).1, field, ht, List.cons_append,
    List.dropWhile_cons_of_neg (by simp [hblank])]

/-- So it is what is printed for the first string. -/
theorem addressOf_append (rest : List UInt8) :
    addressOf ((e.indent ++ e.field) ++ 58 :: rest) = some e.field := by
  rw [addressOf, show ascii ":" = [58] from rfl, strstr_byte e.colon_notMem, Option.map_some,
    List.take_left, dropWhile_field]

end Entry

/-- A file of such lines. -/
def fileOf (es : List Entry) : List UInt8 := es.flatMap fun e => e.line ++ [10]

/-- It is read line by line. -/
theorem records_fileOf (es : List Entry) : records charsPerLine (fileOf es) = es.flatMap Entry.pieces := by
  induction es with
  | nil => rfl
  | cons e es ih =>
      have hfile : fileOf (e :: es) = e.line ++ 10 :: fileOf es := by
        rw [fileOf, List.flatMap_cons, List.append_assoc]
        rfl
      rw [hfile, List.flatMap_cons, Entry.pieces, ← ih]
      split
      · next hlt =>
          have hfits : e.line.length + 1 < charsPerLine := by
            rw [charsPerLine]
            omega
          exact records_line e.newline_notMem_line e.nulFree_line hfits _
      · next hge =>
          have hshort : e.line.length ≤ 100 := e.short
          have hrest : 10 ∉ e.line.drop 99 := fun h => e.newline_notMem_line (List.mem_of_mem_drop h)
          have hnul : NulFree (e.line.drop 99) := fun b hb => e.nulFree_line b (List.mem_of_mem_drop hb)
          have hfits : (e.line.drop 99).length + 1 < 100 := by
            rw [List.length_drop]
            omega
          have hlong : charsPerLine ≤ e.line.length + 1 := by
            rw [charsPerLine]
            omega
          rw [records_long e.newline_notMem_line e.nulFree_line (by decide) hlong]
          exact congrArg _ (records_line hrest hnul hfits _)

/-! ## what is printed for a line -/

/-- **What the program needs of a line** to list it if and only if the device is in its
name: the device is in the first 99 characters just when it is in the name, and a
hundredth character is not the device. -/
structure Told (needle : List UInt8) (e : Entry) : Prop where
  inName : needle <:+: e.line.take 99 ↔ e.IsOf needle
  last : e.line.drop 99 ≠ needle

section prints

variable {needle : List UInt8} (hne : needle ≠ []) (hlast : needle.getLast? ≠ some 10) (e : Entry)

include hne hlast

theorem found_iff (s : List UInt8) : (strstr needle (s ++ [10])).isSome = true ↔ needle <:+: s :=
  strstr_isSome_iff.trans (infix_concat_iff_of_getLast hne hlast)

omit hne hlast in
/-- The colon is among the first characters. -/
theorem take_line : ∃ rest, e.line.take 99 = (e.indent ++ e.field) ++ 58 :: rest := by
  have hlen := e.length_le
  obtain ⟨n, hn⟩ : ∃ n, 99 - (e.indent ++ e.field).length = n + 1 :=
    Nat.exists_eq_succ_of_ne_zero (by omega)
  refine ⟨(ascii " " ++ e.name).take n, ?_⟩
  rw [Entry.line_eq, List.take_append, List.take_of_length_le (by omega), hn, List.take_succ_cons]

/-- For the first string, which has the colon. -/
theorem printsOf_first {s : List UInt8} (hs : s = e.line ++ [10] ∧ e.line.length < 99 ∨
    s = e.line.take 99) : printsOf needle s = some (if needle <:+: e.line.take 99 then [e.field] else []) := by
  have hfound : (strstr needle s).isSome = true ↔ needle <:+: e.line.take 99 := by
    rcases hs with ⟨rfl, hlen⟩ | rfl
    · rw [found_iff hne hlast, List.take_of_length_le (by omega)]
    · exact strstr_isSome_iff
  have haddress : addressOf s = some e.field := by
    rcases hs with ⟨rfl, -⟩ | rfl
    · rw [Entry.line_eq, List.append_assoc, List.cons_append]
      exact e.addressOf_append _
    · obtain ⟨rest, hrest⟩ := take_line e
      rw [hrest]
      exact e.addressOf_append _
  rw [printsOf, haddress]
  by_cases h : needle <:+: e.line.take 99
  · rw [if_pos (hfound.mpr h), if_pos h]
    rfl
  · rw [if_neg (mt hfound.mp h), if_neg h]

/-- For the second. -/
theorem printsOf_second : printsOf needle (e.line.drop 99 ++ [10]) =
    if e.line.drop 99 = needle then (if needle = [58] then some [[]] else none) else some [] := by
  have hshort : e.line.length ≤ 100 := e.short
  have hfound : (strstr needle (e.line.drop 99 ++ [10])).isSome = true ↔ e.line.drop 99 = needle := by
    rw [found_iff hne hlast]
    constructor
    · intro hin
      have hle : (e.line.drop 99).length ≤ needle.length := by
        have hpos := List.length_pos_iff.mpr hne
        rw [List.length_drop]
        omega
      exact (hin.eq_of_length_le hle).symm
    · rintro rfl
      exact List.infix_refl _
  by_cases h : e.line.drop 99 = needle
  · obtain ⟨c, hc⟩ : ∃ c, e.line.drop 99 = [c] := by
      have hpos := List.length_pos_iff.mpr (h ▸ hne)
      refine List.length_eq_one_iff.mp (Nat.le_antisymm ?_ hpos)
      rw [List.length_drop]
      omega
    rw [printsOf, if_pos (hfound.mpr h), if_pos h, ← h, hc]
    by_cases hcolon : c = 58
    · subst hcolon
      rfl
    · have hno : (58 : UInt8) ∉ [c] ++ [10] := by simp [Ne.symm hcolon]
      rw [if_neg (by simpa using hcolon), addressOf, show ascii ":" = [58] from rfl, strstr_byte_none hno]
      rfl
  · rw [printsOf, if_neg (mt hfound.mp h), if_neg h]

/-- **For the line.** -/
theorem printsFor_pieces_iff :
    printsFor needle e.pieces = some (if e.IsOf needle then [e.field] else []) ↔ Told needle e := by
  have hsame : (if needle <:+: e.line.take 99 then [e.field] else []) =
      (if e.IsOf needle then [e.field] else []) ↔ (needle <:+: e.line.take 99 ↔ e.IsOf needle) := by
    by_cases h : needle <:+: e.line.take 99 <;> by_cases h' : e.IsOf needle <;> simp [h, h']
  rw [Entry.pieces]
  split
  · next hlt =>
      have hend : e.line.drop 99 ≠ needle := by
        rw [List.drop_of_length_le (by omega)]
        exact hne.symm
      rw [printsFor_cons, printsOf_first hne hlast e (.inl ⟨rfl, hlt⟩), printsFor_nil, Option.bind_some,
        Option.map_some, List.append_nil, Option.some.injEq, hsame]
      exact ⟨fun h => ⟨h, hend⟩, Told.inName⟩
  · next hge =>
      rw [printsFor_cons, printsFor_cons, printsOf_first hne hlast e (.inr rfl), printsFor_nil,
        printsOf_second hne hlast]
      by_cases hend : e.line.drop 99 = needle
      · rw [if_pos hend]
        refine iff_of_false ?_ fun h => h.last hend
        by_cases hcolon : needle = [58]
        · -- the colon in front of the name has been found before
          have hin : needle <:+: e.line.take 99 := by
            obtain ⟨rest, hrest⟩ := take_line e
            rw [hrest, hcolon]
            exact ⟨e.indent ++ e.field, rest, by simp⟩
          rw [if_pos hcolon, if_pos hin]
          split <;> simp
        · rw [if_neg hcolon]
          simp
      · rw [if_neg hend, Option.bind_some, Option.bind_some, Option.map_some, Option.map_some,
          List.append_nil, List.append_nil, Option.some.injEq, hsame]
        exact ⟨fun h => ⟨h, hend⟩, Told.inName⟩

end prints

/-! ## whole files -/

/-- What should be printed for a file. -/
def listing (name path : String) (needle : List UInt8) (es : List Entry) : List UInt8 :=
  ascii name ++ ascii ":\n" ++ (es.filter (·.IsOf needle)).flatMap (fun e => e.field ++ ascii "\n") ++
    if ∃ e ∈ es, e.IsOf needle then []
    else ascii "No matching entry found in " ++ ascii path ++ ascii "\n"

/-- The lines of a file are printed for one by one. -/
theorem printsFor_fileOf {needle : List UInt8} {es : List Entry}
    (h : ∀ e ∈ es, printsFor needle e.pieces = some (if e.IsOf needle then [e.field] else [])) :
    printsFor needle (records charsPerLine (fileOf es)) =
      some ((es.filter (·.IsOf needle)).map Entry.field) := by
  rw [records_fileOf]
  induction es with
  | nil => rfl
  | cons e es ih =>
      obtain ⟨hfirst, hrest⟩ := List.forall_mem_cons.mp h
      rw [List.flatMap_cons, printsFor_append, hfirst, ih hrest, Option.bind_some, Option.map_some]
      by_cases hof : e.IsOf needle <;> simp [hof]

/-- And so the file is. -/
theorem listFile_fileOf {needle : List UInt8} {es : List Entry} (name path : String)
    (h : ∀ e ∈ es, printsFor needle e.pieces = some (if e.IsOf needle then [e.field] else [])) :
    listFile name path needle (some (fileOf es)) =
      if es.countP (·.IsOf needle) < 2 ^ 31 then some (listing name path needle es) else none := by
  have hzero : es.countP (·.IsOf needle) = 0 ↔ ¬ ∃ e ∈ es, e.IsOf needle := by
    rw [List.countP_eq_zero]
    simp
  have hstart : (0 : Nat) < 2 ^ 31 := by decide
  rw [listFile, foldlM_readString _ _ ⟨_, 0⟩ hstart, printsFor_fileOf h, Option.bind_some, List.length_map,
    ← List.countP_eq_length_filter, Nat.zero_add, List.flatMap_map]
  split
  · rw [Option.map_some, listing]
    by_cases hfound : ∃ e ∈ es, e.IsOf needle
    · rw [if_neg (mt hzero.mp (not_not.mpr hfound)), if_pos hfound, List.append_nil]
    · rw [if_pos (hzero.mpr hfound), if_neg hfound]
  · rfl

/-- The program lists what it should, in all and for every line by itself. -/
structure ListsExactly (arg : List UInt8) (ports mem : List Entry) : Prop where
  output : main [arg] (some (fileOf ports)) (some (fileOf mem)) =
    some (listing "ioports" "/proc/ioports" (strip arg) ports ++
      listing "iomem" "/proc/iomem" (strip arg) mem)
  lines : ∀ e ∈ ports ++ mem, printsFor (strip arg) (records charsPerLine (fileOf [e])) =
    some (if e.IsOf (strip arg) then [e.field] else [])

/-- **When the program lists the device's address ranges.** -/
theorem listsExactly_iff {arg : List UInt8} (harg : ∃ b ∈ arg, isSpace b = false)
    (ports mem : List Entry) :
    ListsExactly arg ports mem ↔
      (∀ e ∈ ports ++ mem, Told (strip arg) e) ∧
        ports.countP (·.IsOf (strip arg)) < 2 ^ 31 ∧ mem.countP (·.IsOf (strip arg)) < 2 ^ 31 := by
  have hne := strip_ne_nil harg
  have hlast : (strip arg).getLast? ≠ some 10 := fun h => absurd (getLast?_strip h) (by decide)
  have hlines : (∀ e ∈ ports ++ mem, printsFor (strip arg) (records charsPerLine (fileOf [e])) =
      some (if e.IsOf (strip arg) then [e.field] else [])) ↔ ∀ e ∈ ports ++ mem, Told (strip arg) e := by
    refine forall₂_congr fun e _ => ?_
    rw [records_fileOf, List.flatMap_singleton, printsFor_pieces_iff hne hlast]
  have houtput : (∀ e ∈ ports ++ mem, Told (strip arg) e) →
      (main [arg] (some (fileOf ports)) (some (fileOf mem)) =
          some (listing "ioports" "/proc/ioports" (strip arg) ports ++
            listing "iomem" "/proc/iomem" (strip arg) mem) ↔
        ports.countP (·.IsOf (strip arg)) < 2 ^ 31 ∧ mem.countP (·.IsOf (strip arg)) < 2 ^ 31) := by
    intro htold
    have hprints := fun e he => (printsFor_pieces_iff hne hlast e).mpr (htold e he)
    rw [main, stringToSearch_eq,
      listFile_fileOf _ _ fun e he => hprints e (List.mem_append_left _ he),
      listFile_fileOf _ _ fun e he => hprints e (List.mem_append_right _ he)]
    by_cases hports : ports.countP (·.IsOf (strip arg)) < 2 ^ 31
    · by_cases hmem : mem.countP (·.IsOf (strip arg)) < 2 ^ 31
      · rw [if_pos hports, if_pos hmem]
        exact iff_of_true rfl ⟨hports, hmem⟩
      · rw [if_neg hmem]
        exact iff_of_false (by simp) fun h => hmem h.2
    · rw [if_neg hports]
      exact iff_of_false (by simp) fun h => hports h.1
  constructor
  · intro h
    have htold := hlines.mp h.lines
    exact ⟨htold, (houtput htold).mp h.output⟩
  · rintro ⟨htold, hcounts⟩
    exact ⟨(houtput htold).mpr hcounts, hlines.mpr htold⟩

/-- `0cf8-0cff : PCI conf1` -/
def pciConf : Entry where
  indent := []
  address := ascii "0cf8-0cff"
  name := ascii "PCI conf1"
  indent_blank := by simp
  address_head := by decide +kernel
  address_text := by decide +kernel
  name_text := by decide +kernel
  short := by decide +kernel

/-- `  0d00-ffff : PCI Bus 0000:00` -/
def pciBus : Entry where
  indent := ascii "  "
  address := ascii "0d00-ffff"
  name := ascii "PCI Bus 0000:00"
  indent_blank := by decide +kernel
  address_head := by decide +kernel
  address_text := by decide +kernel
  name_text := by decide +kernel
  short := by decide +kernel

/-- `fed00000-fed003ff : HPET 0` -/
def hpet : Entry where
  indent := []
  address := ascii "fed00000-fed003ff"
  name := ascii "HPET 0"
  indent_blank := by simp
  address_head := by decide +kernel
  address_text := by decide +kernel
  name_text := by decide +kernel
  short := by decide +kernel

/-- Two devices of three are found, both in the first file. -/
theorem listsExactly_pciDevices :
    ListsExactly (ascii " PCI ") [pciConf, pciBus] [hpet] ∧
      listing "ioports" "/proc/ioports" (strip (ascii " PCI ")) [pciConf, pciBus] =
        ascii "ioports:\n0cf8-0cff \n0d00-ffff \n" ∧
      listing "iomem" "/proc/iomem" (strip (ascii " PCI ")) [hpet] =
        ascii "iomem:\nNo matching entry found in /proc/iomem\n" := by
  have htold : ∀ e ∈ [pciConf, pciBus] ++ [hpet], Told (strip (ascii " PCI ")) e := by
    simp only [List.cons_append, List.nil_append, List.forall_mem_cons]
    exact ⟨⟨by decide +kernel, by decide +kernel⟩, ⟨by decide +kernel, by decide +kernel⟩,
      ⟨by decide +kernel, by decide +kernel⟩, by simp⟩
  exact ⟨(listsExactly_iff (by decide +kernel) [pciConf, pciBus] [hpet]).mpr
    ⟨htold, by decide +kernel, by decide +kernel⟩, by decide +kernel, by decide +kernel⟩

/-- A line of 100 characters, the last of them an `x`. -/
def hundred : Entry where
  indent := ascii "  "
  address := ascii "fed00000-fed003ff"
  name := ascii "HPET " ++ (List.replicate 72 45 ++ ascii "x")
  indent_blank := by decide +kernel
  address_head := by decide +kernel
  address_text := by decide +kernel
  name_text := by decide +kernel
  short := by decide +kernel

/-- No device of the first file has `cf8` in its name, but an address has.  The only device
of the second is found at its end, in a string without a colon. -/
theorem found_outside_name :
    (¬ pciConf.IsOf (strip (ascii "cf8")) ∧
      main [ascii "cf8"] (some (fileOf [pciConf])) (some (fileOf [])) = some (ascii <|
        "ioports:\n0cf8-0cff \niomem:\nNo matching entry found in /proc/iomem\n") ∧
      ¬ ListsExactly (ascii "cf8") [pciConf] []) ∧
    hundred.IsOf (strip (ascii "x")) ∧ main [ascii "x"] (some (fileOf [])) (some (fileOf [hundred])) = none ∧
      ¬ ListsExactly (ascii "x") [] [hundred] := by
  refine ⟨⟨by decide +kernel, by decide +kernel, fun h => ?_⟩, by decide +kernel, by decide +kernel,
    fun h => ?_⟩
  · exact absurd h.output (by decide +kernel)
  · exact absurd h.output (by decide +kernel)

end Cmsc421.Devices
