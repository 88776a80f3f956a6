import Cmsc421.Mastermind.Colors
import Cmsc421.Mastermind.History

/-!
# Cmsc421.Mastermind.Grammar

The language of the control device.

`grammar` says what a text asks for, `Ask.perform` what that is.  `mm_ctl_write`
compares the text with its literals over as many bytes as there are, up to eight, so it
takes texts for commands that are none: whatever the first eight bytes of are a
beginning of the literal and the bytes behind it in memory, and whatever spells a
beginning of `"colors "` but for its last byte.  `Deviates` lists these texts, and
`obeys_iff` says that the call obeys the grammar on all others, provided that there is an
entry to work on and that a random start does not trap.
-/

namespace Cmsc421.Mastermind

/-! ## the grammar -/

/-- What a text asks the driver to do. -/
inductive Ask
  | start
  | quit
  | colors (n : Int)
  | refuse (e : Errno)
  deriving DecidableEq

/-- The grammar: `start`, `quit`, and `colors` with one character; any other text is
refused. -/
def grammar (text : List UInt8) (capSysAdmin : Bool) : Ask :=
  if text = ascii "start" then .start
  else if text = ascii "quit" then .quit
  else if text.length = 8 ∧ text.take 7 = ascii "colors " then
    if capSysAdmin = false then .refuse .EACCES
    else if zeroAscii + 2 ≤ schar (text.getD 7 0) then .colors (schar (text.getD 7 0) - zeroAscii)
    else .refuse .EINVAL
  else .refuse .EINVAL

/-- Do what is asked, on the caller's entry. -/
def Ask.perform (rnd : Fin NUM_PEGS → UInt32) (count : Nat) (v : Vars) (g : MmGame) : Ask → Outcome
  | .start => startBranch rnd count v g
  | .quit => quitBranch count v g
  | .colors n => ⟨{ v with numColors := n }, g, .ret (.ok count)⟩
  | .refuse e => Mastermind.refuse e v g

/-- The text of a write. -/
def CtlWrite.text (c : CtlWrite) : List UInt8 := c.ubuf.take c.count

/-- What the text of a write asks for. -/
def CtlWrite.ask (c : CtlWrite) : Ask := grammar c.text c.capSysAdmin

/-- The call does what its text asks for, on the caller's entry, and comes to its end;
only for a text that is refused with `EINVAL` there need not be an entry. -/
structure Obeys (ro : Rodata) (d : Driver) (user : Kuid) (c : CtlWrite) (a : Allocation)
    (rnd : Fin NUM_PEGS → UInt32) : Prop where
  performs : wholeCall ro d user (.ctlWrite c) a rnd =
    (findGame user a d).1.withGame .EINVAL (findGame user a d).2 fun v g =>
      c.ask.perform rnd c.count v g
  entry : (findGame user a d).2.isSome = true ∨ c.ask = .refuse .EINVAL
  returns : (wholeCall ro d user (.ctlWrite c) a rnd).2 ≠ .trap

/-- The texts on which the comparisons go wrong. -/
inductive Deviates (ro : Rodata) (text : List UInt8) (capSysAdmin : Bool) : Prop
  | start (hne : text ≠ ascii "start") (h : text.take 8 <+: ro.start)
  | quit (hne : text ≠ ascii "quit") (h : text.take 8 <+: ro.quit)
  | denied (hcap : capSysAdmin = false) (hstart : ¬ text.take 8 <+: ro.start)
      (hquit : ¬ text.take 8 <+: ro.quit) (hlen : text.length ≠ 8)
      (h : (text.take 8).dropLast <+: colors)
  | short (hcap : capSysAdmin = true) (hstart : ¬ text.take 8 <+: ro.start)
      (hquit : ¬ text.take 8 <+: ro.quit) (hlen : text.length < 8)
      (h : text.dropLast <+: colors) (hlast : zeroAscii + 2 ≤ schar (text.getD (text.length - 1) 0))

/-! ## the comparisons -/

section comparisons

variable {ro : Rodata} {c : CtlWrite}

theorem CtlWrite.length_text (h : c.count ≤ c.ubuf.length) : c.text.length = c.count := by
  simpa [text] using h

theorem CtlWrite.getD_text {i : Nat} (hi : i < c.count) : c.text.getD i 0 = c.ubuf.getD i 0 := by
  rw [text, List.getD_eq_getElem?_getD, List.getElem?_take_of_lt hi, ← List.getD_eq_getElem?_getD]

theorem CtlWrite.copied_of_le (h : c.count ≤ c.ubuf.length) : c.copied = true :=
  c.copied_iff.mpr (c.bytesCopied_le.2.trans h)

theorem CtlWrite.bytesCopied_eq (h : c.count ≤ c.ubuf.length) :
    c.bytesCopied = (c.text.take 8).length := by
  rw [List.length_take, length_text h]
  unfold bytesCopied
  split <;> omega

/-- The copied bytes are the first eight of the text. -/
theorem CtlWrite.take_userInput_text (h : c.count ≤ c.ubuf.length) {n : Nat}
    (hn : n ≤ c.bytesCopied) : c.userInput.take n = (c.text.take 8).take n := by
  have hle := c.bytesCopied_le
  rw [take_userInput (copied_of_le h) hn, text, List.take_take, List.take_take,
    show min (min n 8) c.count = n by omega]

/-- A comparison over all copied bytes: they are a beginning of the literal. -/
theorem memcmp_iff (h : c.count ≤ c.ubuf.length) (lit : List UInt8) :
    memcmpEq c.userInput lit c.bytesCopied = true ↔ c.text.take 8 <+: lit := by
  rw [memcmpEq_iff, CtlWrite.take_userInput_text h le_rfl, List.prefix_iff_eq_take,
    ← CtlWrite.bytesCopied_eq h, List.take_of_length_le (CtlWrite.bytesCopied_eq h).ge]

/-- A comparison over all but the last. -/
theorem memcmp_dropLast_iff (h : c.count ≤ c.ubuf.length) (lit : List UInt8) :
    memcmpEq c.userInput lit (c.bytesCopied - 1) = true ↔ (c.text.take 8).dropLast <+: lit := by
  rw [memcmpEq_iff, CtlWrite.take_userInput_text h (Nat.sub_le ..), List.prefix_iff_eq_take,
    List.length_dropLast, ← CtlWrite.bytesCopied_eq h, List.dropLast_eq_take,
    ← CtlWrite.bytesCopied_eq h]

/-- The branch by the text. -/
theorem command_eq (h : c.count ≤ c.ubuf.length) [Decidable (c.text.take 8 <+: ro.start)]
    [Decidable (c.text.take 8 <+: ro.quit)] [Decidable ((c.text.take 8).dropLast <+: colors)] :
    command ro c =
      if c.text.take 8 <+: ro.start then .start
      else if c.text.take 8 <+: ro.quit then .quit
      else if (c.text.take 8).dropLast <+: colors then .colors
      else .other := by
  unfold command
  simp only [memcmp_iff h, memcmp_dropLast_iff h]

/-- The first byte of a beginning. -/
theorem head?_of_prefix {text lit : List UInt8} (h : text.take 8 <+: lit) :
    text = [] ∨ text.head? = lit.head? := by
  cases text with
  | nil => exact .inl rfl
  | cons b text =>
      obtain ⟨rest, rfl⟩ := h
      exact .inr rfl

end comparisons

/-! ## what the grammar says -/

section grammar

variable {text : List UInt8} {cap : Bool}

/-- A text that is none of the commands is refused. -/
theorem grammar_of_other (hstart : text ≠ ascii "start") (hquit : text ≠ ascii "quit")
    (hcolors : ¬ (text.length = 8 ∧ text.take 7 = ascii "colors ")) :
    grammar text cap = .refuse .EINVAL := by
  rw [grammar, if_neg hstart, if_neg hquit, if_neg hcolors]

/-- A text of eight bytes is no start and no quit. -/
theorem grammar_of_colors (hlen : text.length = 8) (hcolors : text.take 7 = ascii "colors ") :
    grammar text cap =
      if cap = false then .refuse .EACCES
      else if zeroAscii + 2 ≤ schar (text.getD 7 0) then .colors (schar (text.getD 7 0) - zeroAscii)
      else .refuse .EINVAL := by
  have hstart : text ≠ ascii "start" := by
    rintro rfl
    exact absurd hlen (by decide)
  have hquit : text ≠ ascii "quit" := by
    rintro rfl
    exact absurd hlen (by decide)
  rw [grammar, if_neg hstart, if_neg hquit, if_pos ⟨hlen, hcolors⟩]

/-- The first byte of a colors command. -/
theorem head?_of_colors (hcolors : text.take 7 = ascii "colors ") : text.head? = some 99 := by
  cases text with
  | nil => exact absurd hcolors (by decide)
  | cons b text => exact (congrArg List.head? hcolors).trans (by decide)

/-- A text that is no command, and does not begin as a colors command does, is refused. -/
theorem grammar_of_head? (hstart : text ≠ ascii "start") (hquit : text ≠ ascii "quit")
    (hhead : text.head? ≠ some 99) : grammar text cap = .refuse .EINVAL :=
  grammar_of_other hstart hquit fun hcolors => hhead (head?_of_colors hcolors.2)

/-- A beginning of the literal `start` that is not the command is refused, … -/
theorem grammar_of_shorter_start {ro : Rodata} (hne : text ≠ ascii "start")
    (h : text.take 8 <+: ro.start) : grammar text cap = .refuse .EINVAL := by
  rcases head?_of_prefix h with rfl | hhead
  · cases cap <;> decide
  · have hhead : text.head? = some 115 := hhead
    refine grammar_of_head? hne ?_ (by simp [hhead])
    rintro rfl
    exact absurd hhead (by decide)

/-- … and so is one of `quit`. -/
theorem grammar_of_shorter_quit {ro : Rodata} (hne : text ≠ ascii "quit")
    (h : text.take 8 <+: ro.quit) : grammar text cap = .refuse .EINVAL := by
  rcases head?_of_prefix h with rfl | hhead
  · cases cap <;> decide
  · have hhead : text.head? = some 113 := hhead
    refine grammar_of_head? ?_ hne (by simp [hhead])
    rintro rfl
    exact absurd hhead (by decide)

/-- A text that no comparison takes for `start` or `quit` is neither. -/
theorem ne_of_not_prefix {ro : Rodata} (hstart : ¬ text.take 8 <+: ro.start)
    (hquit : ¬ text.take 8 <+: ro.quit) : text ≠ ascii "start" ∧ text ≠ ascii "quit" := by
  refine ⟨?_, ?_⟩
  · rintro rfl
    exact hstart ⟨0 :: ro.afterStart.toList, rfl⟩
  · rintro rfl
    exact hquit ⟨0 :: ro.afterQuit.toList, rfl⟩

/-- Eight bytes are a colors command if all but the last spell it. -/
theorem dropLast_prefix_iff (hlen : text.length = 8) :
    (text.take 8).dropLast <+: colors ↔ text.take 7 = ascii "colors " := by
  rw [List.take_of_length_le hlen.le, List.dropLast_eq_take, hlen, List.prefix_iff_eq_take,
    List.length_take, hlen]
  rfl

/-- Only `start` asks for a start. -/
theorem text_of_grammar_start (h : grammar text cap = .start) : text = ascii "start" := by
  by_contra hne
  rw [grammar, if_neg hne] at h
  split at h
  · contradiction
  · split at h
    · split at h
      · contradiction
      · split at h <;> contradiction
    · contradiction

end grammar

/-! ## the locked section -/

section locked

variable {ro : Rodata} {c : CtlWrite}

/-- The branch is that of `start`. -/
theorem mmCtlWrite_start (h : c.count ≤ c.ubuf.length) (hstart : c.text.take 8 <+: ro.start)
    (rnd : Fin NUM_PEGS → UInt32) (v : Vars) (g : MmGame) :
    mmCtlWrite ro rnd c v g = startBranch rnd c.count v g := by
  classical
  rw [mmCtlWrite, if_pos (CtlWrite.copied_of_le h), command_eq h, if_pos hstart]

/-- The branch is that of `quit`. -/
theorem mmCtlWrite_quit (h : c.count ≤ c.ubuf.length) (hstart : ¬ c.text.take 8 <+: ro.start)
    (hquit : c.text.take 8 <+: ro.quit) (rnd : Fin NUM_PEGS → UInt32) (v : Vars) (g : MmGame) :
    mmCtlWrite ro rnd c v g = quitBranch c.count v g := by
  classical
  rw [mmCtlWrite, if_pos (CtlWrite.copied_of_le h), command_eq h, if_neg hstart, if_pos hquit]

/-- The branch is that of `colors`. -/
theorem mmCtlWrite_colors (h : c.count ≤ c.ubuf.length) (hstart : ¬ c.text.take 8 <+: ro.start)
    (hquit : ¬ c.text.take 8 <+: ro.quit) (hcolors : (c.text.take 8).dropLast <+: colors)
    (rnd : Fin NUM_PEGS → UInt32) (v : Vars) (g : MmGame) :
    mmCtlWrite ro rnd c v g = colorsBranch c v g := by
  classical
  rw [mmCtlWrite, if_pos (CtlWrite.copied_of_le h), command_eq h, if_neg hstart, if_neg hquit,
    if_pos hcolors]

/-- There is no branch. -/
theorem mmCtlWrite_other (h : c.count ≤ c.ubuf.length) (hstart : ¬ c.text.take 8 <+: ro.start)
    (hquit : ¬ c.text.take 8 <+: ro.quit) (hcolors : ¬ (c.text.take 8).dropLast <+: colors)
    (rnd : Fin NUM_PEGS → UInt32) (v : Vars) (g : MmGame) :
    mmCtlWrite ro rnd c v g = refuse .EINVAL v g := by
  classical
  rw [mmCtlWrite, if_pos (CtlWrite.copied_of_le h), command_eq h, if_neg hstart, if_neg hquit,
    if_neg hcolors]

/-- The test of the colors branch, on the text: the last of at most eight bytes. -/
theorem colorsOk_iff (h : c.count ≤ c.ubuf.length) (hpos : c.text ≠ []) :
    c.colorsOk = true ↔ c.capSysAdmin = true ∧ c.text.length ≤ 8 ∧
      zeroAscii + 2 ≤ schar (c.text.getD (c.text.length - 1) 0) := by
  have hlen := CtlWrite.length_text h
  have hlen0 : 0 < c.text.length := List.length_pos_of_ne_nil hpos
  simp only [CtlWrite.colorsOk, Bool.and_eq_true, beq_iff_eq, decide_eq_true_eq, and_assoc]
  refine and_congr_right fun _ => ?_
  have hbytes : c.count = c.bytesCopied ↔ c.text.length ≤ 8 := by
    rw [hlen]
    unfold CtlWrite.bytesCopied
    split <;> omega
  rw [hbytes]
  refine and_congr_right fun hle => ?_
  have hcount := hbytes.mpr hle
  rw [CtlWrite.getD_userInput (CtlWrite.copied_of_le h), if_pos (by omega),
    CtlWrite.getD_text (by omega), hlen, hcount]

/-- Eight bytes give the number of colors themselves. -/
theorem newColors_eq (h : c.count ≤ c.ubuf.length) (hlen : c.text.length = 8) :
    c.newColors = schar (c.text.getD 7 0) - zeroAscii := by
  have hcount := (CtlWrite.length_text h).symm.trans hlen
  have hbytes : c.bytesCopied = 8 := by rw [CtlWrite.bytesCopied_eq h, List.length_take, hlen, Nat.min_self]
  rw [CtlWrite.newColors, CtlWrite.getD_userInput (CtlWrite.copied_of_le h), if_pos (by omega),
    CtlWrite.getD_text (by omega)]

/-- Where the texts do not deviate, the section does what is asked. -/
theorem mmCtlWrite_of_not_deviates (h : c.count ≤ c.ubuf.length)
    (hno : ¬ Deviates ro c.text c.capSysAdmin) (rnd : Fin NUM_PEGS → UInt32) (v : Vars) (g : MmGame) :
    mmCtlWrite ro rnd c v g = c.ask.perform rnd c.count v g := by
  by_cases hstart : c.text.take 8 <+: ro.start
  · have htext : c.text = ascii "start" := by
      by_contra hne
      exact hno (.start hne hstart)
    rw [mmCtlWrite_start h hstart, CtlWrite.ask, grammar, if_pos htext]
    rfl
  by_cases hquit : c.text.take 8 <+: ro.quit
  · have htext : c.text = ascii "quit" := by
      by_contra hne
      exact hno (.quit hne hquit)
    rw [mmCtlWrite_quit h hstart hquit, CtlWrite.ask, grammar, htext]
    rfl
  obtain ⟨hnstart, hnquit⟩ := ne_of_not_prefix hstart hquit
  by_cases hcolors : (c.text.take 8).dropLast <+: colors
  · have hpos : c.text ≠ [] := by
      intro hnil
      exact hstart (by rw [hnil]; exact List.nil_prefix)
    rw [mmCtlWrite_colors h hstart hquit hcolors, colorsBranch]
    by_cases hlen : c.text.length = 8
    · -- a colors command
      rw [CtlWrite.ask, grammar_of_colors hlen ((dropLast_prefix_iff hlen).mp hcolors)]
      have hok := colorsOk_iff h hpos
      rw [hlen] at hok
      cases hcap : c.capSysAdmin with
      | false =>
          rw [if_neg (by simp [hok, hcap]), if_neg Bool.false_ne_true, if_pos rfl]
          rfl
      | true =>
          by_cases hdigit : zeroAscii + 2 ≤ schar (c.text.getD 7 0)
          · rw [if_pos (hok.mpr ⟨hcap, le_rfl, hdigit⟩), newColors_eq h hlen, if_neg nofun,
              if_pos hdigit]
            rfl
          · rw [if_neg fun hc => hdigit (hok.mp hc).2.2, if_pos rfl, if_neg nofun, if_neg hdigit]
            rfl
    · -- any other text that spells a beginning of one
      have hask : c.ask = .refuse .EINVAL :=
        grammar_of_other hnstart hnquit fun hc => hlen hc.1
      cases hcap : c.capSysAdmin with
      | false => exact absurd (.denied hcap hstart hquit hlen hcolors) hno
      | true =>
          have hok : ¬ c.colorsOk = true := by
            intro hok
            obtain ⟨-, hle, hlast⟩ := (colorsOk_iff h hpos).mp hok
            have hlt : c.text.length < 8 := lt_of_le_of_ne hle hlen
            rw [List.take_of_length_le hlt.le] at hcolors
            exact hno (.short hcap hstart hquit hlt hcolors hlast)
          rw [if_neg hok, hask]
          rfl
  · rw [mmCtlWrite_other h hstart hquit hcolors, CtlWrite.ask, grammar_of_other hnstart hnquit]
    · rfl
    · rintro ⟨hlen, hc⟩
      exact hcolors ((dropLast_prefix_iff hlen).mpr hc)

/-- The start and the quit branch do not return an error. -/
theorem startBranch_result_ne (rnd : Fin NUM_PEGS → UInt32) (count : Nat) (v : Vars) (g : MmGame)
    (e : Errno) : (startBranch rnd count v g).result ≠ .ret (.error e) := by
  simp only [startBranch]
  split <;> simp

theorem quitBranch_result_ne (count : Nat) (v : Vars) (g : MmGame) (e : Errno) :
    (quitBranch count v g).result ≠ .ret (.error e) := by
  unfold quitBranch
  split <;> simp

/-- Where they do, the result is not the one asked for. -/
theorem result_of_deviates (h : c.count ≤ c.ubuf.length) (hdev : Deviates ro c.text c.capSysAdmin)
    (rnd : Fin NUM_PEGS → UInt32) (v : Vars) (g : MmGame) :
    (mmCtlWrite ro rnd c v g).result ≠ (c.ask.perform rnd c.count v g).result := by
  have hrefused : c.ask = .refuse .EINVAL →
      (c.ask.perform rnd c.count v g).result = .ret (.error .EINVAL) := fun hask => by
    rw [hask]
    rfl
  cases hdev with
  | start hne hstart =>
      rw [mmCtlWrite_start h hstart, hrefused (grammar_of_shorter_start hne hstart)]
      exact startBranch_result_ne _ _ _ _ _
  | quit hne hquit =>
      rw [hrefused (grammar_of_shorter_quit hne hquit)]
      by_cases hstart : c.text.take 8 <+: ro.start
      · rw [mmCtlWrite_start h hstart]
        exact startBranch_result_ne _ _ _ _ _
      · rw [mmCtlWrite_quit h hstart hquit]
        exact quitBranch_result_ne _ _ _ _
  | denied hcap hstart hquit hlen hcolors =>
      obtain ⟨hnstart, hnquit⟩ := ne_of_not_prefix hstart hquit
      rw [hrefused (grammar_of_other hnstart hnquit fun hc => hlen hc.1),
        mmCtlWrite_colors h hstart hquit hcolors, colorsBranch,
        if_neg (by simp [CtlWrite.colorsOk, hcap]), hcap]
      simp [refuse]
  | short hcap hstart hquit hlen hcolors hlast =>
      obtain ⟨hnstart, hnquit⟩ := ne_of_not_prefix hstart hquit
      have hpos : c.text ≠ [] := by
        intro hnil
        exact hstart (by rw [hnil]; exact List.nil_prefix)
      have hcolors' : (c.text.take 8).dropLast <+: colors := by
        rwa [List.take_of_length_le hlen.le]
      rw [hrefused (grammar_of_other hnstart hnquit fun hc => hlen.ne hc.1),
        mmCtlWrite_colors h hstart hquit hcolors', colorsBranch,
        if_pos ((colorsOk_iff h hpos).mpr ⟨hcap, hlen.le, hlast⟩)]
      simp

/-- A command traps only as a random start without colors. -/
theorem perform_trap_iff (ask : Ask) (rnd : Fin NUM_PEGS → UInt32) (count : Nat) (v : Vars)
    (g : MmGame) :
    (ask.perform rnd count v g).result = .trap ↔ ask = .start ∧ startCode v rnd = none := by
  cases ask with
  | start =>
      simp only [Ask.perform, startBranch, true_and]
      split
      · next hcode => simp [hcode]
      · next hcode => simp [hcode]
  | quit => exact iff_of_false (quitBranch_result_ne_trap _ _ _) (by simp)
  | colors n => exact iff_of_false (by simp [Ask.perform]) (by simp)
  | refuse e => exact iff_of_false (by simp [Ask.perform, Mastermind.refuse]) (by simp)

end locked

/-! ## the call -/

/-- The entry that `find_game` returns is in the list. -/
theorem findGame_entry {user : Kuid} {a : Allocation} {d : Driver} {p : Nat}
    (h : (findGame user a d).2 = some p) :
    ∃ g, (findGame user a d).1.gamesList[p]? = some g ∧ (findGame user a d).1.vars = d.vars := by
  obtain ⟨q, g, hentry, -, hf⟩ | ⟨-, page, -, -, hf⟩ | ⟨-, -, hf⟩ := findGame_cases user a d
  · rw [hf] at h ⊢
    obtain rfl := Option.some.inj h
    exact ⟨g, hentry, rfl⟩
  · rw [hf] at h ⊢
    obtain rfl := Option.some.inj h
    exact ⟨newGame user page.toList, by simp, rfl⟩
  · rw [hf] at h
    contradiction

/-- **When the control device obeys its grammar**: with no entry for the caller, exactly
on the texts that are refused with `EINVAL`; with one, exactly on the texts that do not
deviate, a random start without colors apart. -/
theorem obeys_iff (ro : Rodata) (d : Driver) (user : Kuid) {c : CtlWrite} (a : Allocation)
    (rnd : Fin NUM_PEGS → UInt32) (hread : c.count ≤ c.ubuf.length) :
    Obeys ro d user c a rnd ↔
      if (findGame user a d).2.isSome = true then
        ¬ Deviates ro c.text c.capSysAdmin ∧
          ¬ (c.text = ascii "start" ∧ startCode d.vars rnd = none)
      else c.ask = .refuse .EINVAL := by
  cases hf : (findGame user a d).2 with
  | none =>
      have hnull : wholeCall ro d user (.ctlWrite c) a rnd =
          ((findGame user a d).1, .ret (.error .EINVAL)) := by
        rw [wholeCall, hf]
        rfl
      rw [if_neg (by simp)]
      constructor
      · intro h
        exact h.entry.resolve_left (by simp [hf])
      · intro hask
        refine ⟨?_, .inr hask, by rw [hnull]; simp⟩
        rw [hnull, hf]
        rfl
  | some p =>
      obtain ⟨g, hentry, hvars⟩ := findGame_entry hf
      have hwith : ∀ f, (findGame user a d).1.withGame .EINVAL (findGame user a d).2 f =
          ({ vars := (f d.vars g).vars
             gamesList := (findGame user a d).1.gamesList.set p (f d.vars g).game },
            (f d.vars g).result) := by
        intro f
        rw [hf, Driver.withGame]
        simp only [hentry, hvars]
      have hcall : wholeCall ro d user (.ctlWrite c) a rnd =
          ({ vars := (mmCtlWrite ro rnd c d.vars g).vars
             gamesList := (findGame user a d).1.gamesList.set p (mmCtlWrite ro rnd c d.vars g).game },
            (mmCtlWrite ro rnd c d.vars g).result) := hwith _
      rw [if_pos (by simp)]
      constructor
      · intro h
        have heq : (mmCtlWrite ro rnd c d.vars g).result = (c.ask.perform rnd c.count d.vars g).result := by
          have := congrArg Prod.snd h.performs
          rwa [hcall, hwith] at this
        refine ⟨fun hdev => result_of_deviates hread hdev rnd d.vars g heq, ?_⟩
        rintro ⟨htext, hcode⟩
        have htrap := h.returns
        rw [hcall, heq] at htrap
        exact htrap ((perform_trap_iff ..).mpr ⟨by rw [CtlWrite.ask, htext]; rfl, hcode⟩)
      · rintro ⟨hno, hstart⟩
        have hdo := mmCtlWrite_of_not_deviates hread hno rnd d.vars g
        refine ⟨by rw [hcall, hwith, hdo], .inl (by rw [hf]; rfl), ?_⟩
        rw [hcall, hdo]
        intro htrap
        obtain ⟨hask, hcode⟩ := (perform_trap_iff ..).mp htrap
        exact hstart ⟨text_of_grammar_start hask, hcode⟩

/-- A write of a text by root, over a cleared stack. -/
def ctlBytes (text : String) : CtlWrite :=
  ⟨ascii text, (ascii text).length, Vector.replicate 8 0, true⟩

/-- Five colors are set; and without memory for an entry a refused text is refused. -/
theorem obeys_iff_fiveColors :
    Obeys .zeros (initSys false).drv 0 (ctlBytes "colors 5") clearPage 0 ∧
      Obeys .zeros (initSys false).drv 0 (ctlBytes "begin") ⟨false, none⟩ 0 := by
  constructor
  · refine (obeys_iff .zeros (initSys false).drv 0 clearPage 0 (by decide)).mpr ?_
    rw [if_pos (by decide +kernel)]
    refine ⟨fun hdev => ?_, fun h => absurd h.1 (by decide)⟩
    cases hdev with
    | start _ h => exact absurd h (by decide)
    | quit _ h => exact absurd h (by decide)
    | denied hcap => exact absurd hcap (by decide)
    | short _ _ _ hlen => exact absurd hlen (by decide)
  · refine (obeys_iff .zeros (initSys false).drv 0 ⟨false, none⟩ 0 (by decide)).mpr ?_
    rw [if_neg (by decide +kernel)]
    decide

/-- The first two letters of `start` start a game. -/
theorem prefix_starts :
    (ctlBytes "st").ask = .refuse .EINVAL ∧
      (wholeCall .zeros (initSys false).drv 0 (.ctlWrite (ctlBytes "st")) clearPage 0).2 =
        .ret (.ok 2) ∧
      ¬ Obeys .zeros (initSys false).drv 0 (ctlBytes "st") clearPage 0 := by
  have hcall : (wholeCall .zeros (initSys false).drv 0 (.ctlWrite (ctlBytes "st")) clearPage 0).2 =
      .ret (.ok 2) := by decide +kernel
  refine ⟨by decide +kernel, hcall, fun h => ?_⟩
  have hperforms := congrArg Prod.snd h.performs
  rw [hcall] at hperforms
  exact absurd hperforms (by decide +kernel)

end Cmsc421.Mastermind
