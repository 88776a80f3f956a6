import Cmsc421.Decimal
import Cmsc421.Mastermind.Driver

/-!
# Cmsc421.Mastermind.Stats

`mm_stats_show`: the statistics, as a text.

The page has room for any of these texts, but `scnprintf` is given 147 bytes.  That is
enough while the four numbers have five characters together (`reportsAll_iff`).
-/

namespace Cmsc421.Mastermind

/-- The text, before `scnprintf` cuts it. -/
def statsText (v : Vars) : List UInt8 :=
  ascii "Number of pegs: " ++ decimal NUM_PEGS ++
    (ascii " \nNumber of colors: " ++ decimal v.numColors ++
      (ascii " \nNumber of times code was changed: " ++ decimal v.timesTargetCodeChanged ++
        (ascii "\nNumber of invalid code change attempts: " ++ decimal v.numInvalidChangeAttempts ++
          (ascii "\nNumber of games started: " ++ decimal v.numGameStarted ++ ascii "\n"))))

/-- `EPERM` -/
def EPERM : Int := 1

/-- `mm_stats_show()`: the page after it, and its result.  `scnprintf` returns the number
of bytes in front of the NUL. -/
def mmStatsShow (buf : List UInt8) (v : Vars) : List UInt8 × Int :=
  let retValue : Int := min (statsText v).length (147 - 1)
  (scnprintf buf 147 (statsText v), if 0 ≤ retValue then retValue else -EPERM)

/-- What the reader of the file gets. -/
def report (buf : List UInt8) (v : Vars) : List UInt8 :=
  (mmStatsShow buf v).1.take (mmStatsShow buf v).2.toNat

/-- The result is no error, and the reader gets the bytes in front of the NUL. -/
theorem report_eq (buf : List UInt8) (v : Vars) : report buf v = (statsText v).take 146 := by
  have hret : (mmStatsShow buf v).2.toNat = ((statsText v).take 146).length := by
    rw [mmStatsShow, List.length_take]
    dsimp only
    split <;> omega
  have hbuf : (mmStatsShow buf v).1 =
      (statsText v).take 146 ++ (0 :: buf.drop ((statsText v).take 146 ++ [0]).length) := by
    rw [mmStatsShow, scnprintf, if_neg (by decide), poke]
    simp
  rw [report, hret, hbuf, List.take_left]

/-- The numbers that are reported, and can change. -/
def figures (v : Vars) : List Int :=
  [v.numColors, v.timesTargetCodeChanged, v.numInvalidChangeAttempts, v.numGameStarted]

/-- Their widths. -/
def width (v : Vars) : Nat := ((figures v).map fun x => (decimal x).length).sum

theorem length_statsText (v : Vars) : (statsText v).length = 141 + width v := by
  have hpegs : (ascii "Number of pegs: ").length = 16 := by decide +kernel
  have hnum : (decimal NUM_PEGS).length = 1 := by decide +kernel
  have hcolors : (ascii " \nNumber of colors: ").length = 20 := by decide +kernel
  have hchanged : (ascii " \nNumber of times code was changed: ").length = 36 := by decide +kernel
  have hinvalid : (ascii "\nNumber of invalid code change attempts: ").length = 41 := by decide +kernel
  have hstarted : (ascii "\nNumber of games started: ").length = 26 := by decide +kernel
  have hend : (ascii "\n").length = 1 := by decide +kernel
  simp only [statsText, width, figures, List.length_append, List.map_cons, List.map_nil, List.sum_cons,
    List.sum_nil]
  omega

/-- A text that begins with that of `v` is about the same numbers. -/
theorem figures_eq_of_begins {v v' : Vars} (h : statsText v <+: statsText v') :
    figures v = figures v' := by
  obtain ⟨rest, h⟩ := h
  simp only [statsText, List.append_assoc, List.append_cancel_left_eq] at h
  obtain ⟨hcolors, h⟩ := decimal_append_inj (by decide +kernel) h
  obtain ⟨hchanged, h⟩ := decimal_append_inj (by decide +kernel) h
  obtain ⟨hinvalid, h⟩ := decimal_append_inj (by decide +kernel) h
  obtain ⟨hstarted, -⟩ : v.numGameStarted = v'.numGameStarted ∧ rest = [] :=
    decimal_append_inj (t := ascii "\n") (by decide +kernel) (by rw [h, List.append_nil])
  rw [figures, figures, hcolors, hchanged, hinvalid, hstarted]

/-- The report of a state is complete, and tells it from the states with other numbers. -/
structure ReportsAll (ro : Rodata) (buf : List UInt8) (s : Sys) : Prop where
  complete : report buf s.drv.vars = statsText s.drv.vars
  newline : (report buf s.drv.vars).getLast? = some 10
  tells : ∀ tr' s', (driver ro).Run tr' s' → report buf s'.drv.vars = report buf s.drv.vars →
    figures s'.drv.vars = figures s.drv.vars

/-- **When the statistics lose nothing.** -/
theorem reportsAll_iff (ro : Rodata) (buf : List UInt8) (s : Sys) :
    ReportsAll ro buf s ↔ width s.drv.vars ≤ 5 := by
  have hlen := length_statsText s.drv.vars
  constructor
  · intro h
    have hcomplete := congrArg List.length h.complete
    rw [report_eq, List.length_take] at hcomplete
    omega
  · intro hwidth
    have hcomplete : report buf s.drv.vars = statsText s.drv.vars := by
      rw [report_eq, List.take_of_length_le (by omega)]
    refine ⟨hcomplete, ?_, fun tr' s' _ hsame => ?_⟩
    · rw [hcomplete]
      simp only [statsText, ← List.append_assoc]
      exact List.getLast?_concat ..
    · rw [hcomplete, report_eq] at hsame
      exact (figures_eq_of_begins (hsame ▸ List.take_prefix ..)).symm

/-- Ten packets with a code, ten that are a byte too long, and `n` starts. -/
def packetsAndStarts (n : Nat) : List Label :=
  (List.replicate 10 [Label.irq 1, .bottom 1 (some (ascii "5432"))]).flatten ++
    (List.replicate 10 [Label.irq 1, .bottom 1 (some (ascii "54321"))]).flatten ++
    (List.replicate n (callSteps 0 1000 (ctlText "start" false) 0)).flatten

/-- What is reported after 10 starts, and after 11. -/
def cutReport : List UInt8 := ascii <|
  "Number of pegs: 4 \nNumber of colors: 6 \nNumber of times code was changed: 10\n" ++
    "Number of invalid code change attempts: 10\nNumber of games started: 1"

/-- Such a text is cut behind the first digit of its last number. -/
theorem take_statsText {v : Vars} {n : Int} (rest : List UInt8) (h : figures v = [6, 10, 10, n])
    (hn : decimal n = ascii "1" ++ rest) : (statsText v).take 146 = cutReport := by
  have hten : (decimal 10).length = 2 := by decide +kernel
  have hone : (decimal 6).length = 1 ∧ (ascii "1").length = 1 ∧ (ascii "\n").length = 1 := by
    decide +kernel
  have hcut : ascii "Number of pegs: " ++ decimal NUM_PEGS ++ (ascii " \nNumber of colors: " ++
      decimal 6 ++ (ascii " \nNumber of times code was changed: " ++ decimal 10 ++
      (ascii "\nNumber of invalid code change attempts: " ++ decimal 10 ++
      (ascii "\nNumber of games started: " ++ ascii "1")))) = cutReport := by
    decide +kernel
  have hlen := length_statsText v
  rw [width, h] at hlen
  simp only [figures, List.cons.injEq, and_true] at h
  obtain ⟨hcolors, hchanged, hinvalid, hstarted⟩ := h
  have htext : statsText v = cutReport ++ (rest ++ ascii "\n") := by
    simp only [statsText, hcolors, hchanged, hinvalid, hstarted, hn, ← hcut, List.append_assoc]
  have hcutLength : cutReport.length = 146 := by
    simp only [htext, List.length_append, List.map_cons, List.map_nil, List.sum_cons, List.sum_nil, hn,
      hten, hone] at hlen
    omega
  rw [htext, List.take_left' hcutLength]

theorem starts_reported_alike :
    ∃ s s', (driver .zeros).Run ((driver .zeros).trace (initSys false) (packetsAndStarts 10)) s ∧
      (driver .zeros).Run ((driver .zeros).trace (initSys false) (packetsAndStarts 11)) s' ∧
      s.drv.vars.numGameStarted = 10 ∧ s'.drv.vars.numGameStarted = 11 ∧
      ∀ buf, report buf s.drv.vars = cutReport ∧ report buf s'.drv.vars = cutReport ∧
        ¬ ReportsAll .zeros buf s := by
  obtain ⟨s, hrun, hs⟩ := Machine.exists_run_of_exec (M := driver .zeros) ⟨false, rfl⟩
    (packetsAndStarts 10) (b := fun s => decide (figures s.drv.vars = [6, 10, 10, 10])) (by decide +kernel)
  obtain ⟨s', hrun', hs'⟩ := Machine.exists_run_of_exec (M := driver .zeros) ⟨false, rfl⟩
    (packetsAndStarts 11) (b := fun s => decide (figures s.drv.vars = [6, 10, 10, 11])) (by decide +kernel)
  have hten : figures s.drv.vars = [6, 10, 10, 10] := of_decide_eq_true hs
  have heleven : figures s'.drv.vars = [6, 10, 10, 11] := of_decide_eq_true hs'
  refine ⟨s, s', hrun, hrun', ?_, ?_, fun buf => ?_⟩
  · exact Option.some.inj (congrArg (fun l : List Int => l[3]?) hten)
  · exact Option.some.inj (congrArg (fun l : List Int => l[3]?) heleven)
  have hreport : report buf s.drv.vars = cutReport :=
    (report_eq ..).trans (take_statsText (ascii "0") hten (by decide +kernel))
  have hreport' : report buf s'.drv.vars = cutReport :=
    (report_eq ..).trans (take_statsText (ascii "1") heleven (by decide +kernel))
  refine ⟨hreport, hreport', fun h => ?_⟩
  have hsame := h.tells _ s' hrun' (hreport'.trans hreport.symm)
  rw [hten, heleven] at hsame
  simp at hsame

end Cmsc421.Mastermind
