import Cmsc421.Mastermind.GuessLog
import Cmsc421.Mastermind.History

/-!
# Cmsc421.Mastermind.Pieces

A status that is read in pieces.

`game_status` is a string that ends inside its array in every state
(`terminated_of_run`).  `readStatus_eq` is all that a read does, with the casts gone;
what the reads through one file deliver, however long they are and whether or not
some of them fail, is the status from the first position on (`reads_in_pieces`).
-/

namespace Cmsc421.Mastermind

/-! ## the array -/

/-- The array has its 80 bytes, and a NUL among them. -/
structure Terminated (status : List UInt8) : Prop where
  length : status.length = 80
  strlen_lt : strlen status < 80

/-- What `scnprintf` leaves in it. -/
theorem terminated_scnprintf {buf text : List UInt8} (size : Nat) (hbuf : buf.length = 80)
    (hpos : 0 < size) (hsize : size ≤ 80) : Terminated (scnprintf buf size text) where
  length := by rw [length_scnprintf (by omega), hbuf]
  strlen_lt := Nat.lt_of_lt_of_le (strlen_scnprintf_lt buf text hpos) hsize

theorem terminated_newGame (user : Kuid) (page : Vector UInt8 PAGE_SIZE) :
    Terminated (newGame user page.toList).gameStatus := by
  rw [newGame]
  exact terminated_scnprintf 13 (length_memsetZero (by decide)) (by decide) (by decide)

/-- Every locked section leaves it so. -/
theorem Terminated.section {g : MmGame} (h : Terminated g.gameStatus) (ro : Rodata)
    (rnd : Fin NUM_PEGS → UInt32) (highest : Int) (call : Call) (v : Vars) :
    Terminated (call.section ro rnd highest v g).game.gameStatus := by
  have hlen := h.length
  cases call with
  | read a | mmap a => exact h
  | write ubuf count =>
      simp only [Call.section]
      obtain ⟨-, hw⟩ | ⟨-, hw⟩ := mmWrite_cases highest ubuf count v g
      · rw [hw]
        exact h
      · rw [hw]
        simp only [scoreGuess]
        split
        · exact terminated_scnprintf 20 hlen (by decide) (by decide)
        · exact terminated_scnprintf 41 hlen (by decide) (by decide)
  | ctlWrite c =>
      simp only [Call.section]
      obtain ⟨-, hw⟩ | ⟨-, hw⟩ | ⟨-, hw⟩ | ⟨-, hw⟩ := mmCtlWrite_cases ro rnd c v g
      · rw [hw]
        have hzero : (memsetZero g.gameStatus 80).length = 80 := by
          rw [length_memsetZero (by omega), hlen]
        simp only [startBranch]
        split
        · exact terminated_scnprintf 15 hzero (by decide) (by decide)
        · exact terminated_scnprintf 15 hzero (by decide) (by decide)
      · rw [hw, quitBranch]
        split
        · exact terminated_scnprintf 31 hlen (by decide) (by decide)
        · exact h
      · rw [hw, colorsBranch_game]
        exact h
      · rw [hw]
        exact h

/-- What holds of new entries, and is kept by the locked sections, holds of all entries. -/
theorem forall_entries_of_run {ro : Rodata} {I : MmGame → Prop}
    (hnew : ∀ (user : Kuid) (page : Vector UInt8 PAGE_SIZE), I (newGame user page.toList))
    (hsection : ∀ rnd highest (call : Call) v g, I g → I (call.section ro rnd highest v g).game)
    {tr : List (Sys × Label)} {s : Sys} (h : (driver ro).Run tr s) : ∀ g ∈ s.drv.gamesList, I g := by
  refine Machine.Run.invariant (I := fun _ s => ∀ g ∈ s.drv.gamesList, I g) ?_ ?_ h
  · rintro s ⟨randomCode, rfl⟩
    simp [initSys]
  · intro _ s l s' hall hs
    cases step_cases hs with
    | enter | found | failed | noEntry | irq | bottom | setRandomCode => exact hall
    | added =>
        intro g hg
        rcases List.mem_append.mp hg with hg | hg
        · exact hall g hg
        · rw [List.mem_singleton.mp hg]
          exact hnew ..
    | main _ hentry =>
        exact (forall_afterSection hentry hall).mpr
          (hsection _ _ _ _ _ (hall _ (List.mem_of_getElem? hentry)))

theorem terminated_of_run {ro : Rodata} {tr : List (Sys × Label)} {s : Sys}
    (h : (driver ro).Run tr s) : ∀ g ∈ s.drv.gamesList, Terminated g.gameStatus :=
  forall_entries_of_run terminated_newGame
    (fun rnd highest call v _ hg => hg.section ro rnd highest call v) h

/-! ## one read -/

/-- The bytes of a string from a position on, at most `count` of them. -/
def piece (st : List UInt8) (pos : Int) (count : Nat) : List UInt8 := (st.drop pos.toNat).take count

theorem piece_eq_nil {st : List UInt8} {pos : Int} (h : st.length ≤ pos) (count : Nat) :
    piece st pos count = [] := by
  rw [piece, List.drop_of_length_le (by omega), List.take_nil]

theorem length_piece (st : List UInt8) (pos : Int) (count : Nat) :
    (piece st pos count).length = min count (st.length - pos.toNat) := by
  rw [piece, List.length_take, List.length_drop]

/-- A piece, and the next one. -/
theorem piece_append (st : List UInt8) {pos : Int} (hpos : 0 ≤ pos) (count count' : Nat) :
    piece st pos count ++ piece st (pos + (piece st pos count).length) count' =
      piece st pos (count + count') := by
  have hdrop : st.drop (pos + (piece st pos count).length).toNat = (st.drop pos.toNat).drop count := by
    rw [List.drop_drop, length_piece]
    rcases Nat.le_total count (st.length - pos.toNat) with hle | hge
    · rw [Nat.min_eq_left hle]
      congr 1
      omega
    · rw [Nat.min_eq_right hge, List.drop_of_length_le (by omega), List.drop_of_length_le (by omega)]
  unfold piece at hdrop ⊢
  rw [hdrop, List.take_add]

/-- **All that a read does**: it delivers the piece it is asked for and moves the position
behind it, or fails and does neither; at the end it does not touch the caller's memory. -/
theorem readStatus_eq {a : ReadArgs} {g : MmGame} (hcount : a.count < 2 ^ 32) (hpos : 0 ≤ a.ppos)
    (hmax : a.ppos < 2 ^ 63) :
    readStatus a g =
      if a.copyOk = true ∨ strlen g.gameStatus ≤ a.ppos then
        ⟨.ok (piece (cstr g.gameStatus) a.ppos a.count).length,
          piece (cstr g.gameStatus) a.ppos a.count,
          a.ppos + (piece (cstr g.gameStatus) a.ppos a.count).length⟩
      else ⟨.error .EINVAL, [], a.ppos⟩ := by
  have hcast : (a.ppos % 2 ^ 64).toNat = a.ppos.toNat := by omega
  have hcut : a.count % 2 ^ 32 = a.count := Nat.mod_eq_of_lt hcount
  rw [readStatus, hcast, hcut]
  by_cases hend : strlen g.gameStatus ≤ a.ppos
  · rw [if_pos (by omega), if_pos (.inr hend), piece_eq_nil hend]
    simp
  · have hpiece : (g.gameStatus.drop a.ppos.toNat).take
          (min a.count (strlen g.gameStatus - a.ppos.toNat)) =
        piece (cstr g.gameStatus) a.ppos a.count := by
      rw [piece, ← take_strlen, List.drop_take, List.take_take]
    rw [if_neg (by omega)]
    by_cases hcopy : a.copyOk = true
    · rw [if_pos hcopy, if_pos (.inl hcopy), hpiece, length_piece]
      rfl
    · rw [if_neg hcopy, if_neg (by simp [hcopy, hend])]

/-! ## reads through one file -/

/-- A call of `mm_read` that has been made, with the entry it found. -/
structure Read where
  args : ReadArgs
  entry : Option MmGame

/-- What it does. -/
def Read.outcome (r : Read) : ReadOutcome :=
  match r.entry with
  | some g => readStatus r.args g
  | none => ⟨.error (Call.read r.args).noEntry, [], r.args.ppos⟩

/-- The step is the locked section of a read of the user. -/
def readOf (user : Kuid) (s : Sys) : Label → Option Read
  | .main t _ =>
      match s.frames t with
      | some (.locked user' (.read a) _ curr) => if user' = user then some ⟨a, s.drv.deref curr⟩ else none
      | _ => none
  | _ => none

/-- The reads of the user in a run. -/
def readsOf (user : Kuid) (tr : List (Sys × Label)) : List Read :=
  tr.filterMap fun p => readOf user p.1 p.2

/-- The reads go through one file, whose position is `p` before them and `q` afterwards. -/
def Through : Int → List Read → Int → Prop
  | p, [], q => p = q
  | p, r :: rs, q => r.args.ppos = p ∧ Through r.outcome.ppos rs q

/-- The read has returned a number of bytes. -/
def Read.succeeded (r : Read) : Bool :=
  match r.outcome.result with
  | .ok _ => true
  | .error _ => false

/-- The bytes that the reads have delivered. -/
def delivered (rs : List Read) : List UInt8 := rs.flatMap (·.outcome.delivered)

/-- The bytes that the successful ones have asked for. -/
def asked (rs : List Read) : Nat := ((rs.filter (·.succeeded)).map (·.args.count)).sum

instance : (p : Int) → (rs : List Read) → (q : Int) → Decidable (Through p rs q)
  | p, [], q => inferInstanceAs (Decidable (p = q))
  | p, r :: rs, q =>
      have : Decidable (Through r.outcome.ppos rs q) := instDecidableThrough r.outcome.ppos rs q
      inferInstanceAs (Decidable (r.args.ppos = p ∧ Through r.outcome.ppos rs q))

/-- The read returns its outcome, and leaves the driver as it is. -/
theorem readOf_step {ro : Rodata} {user : Kuid} {s s' : Sys} {l : Label} {r : Read}
    (h : readOf user s l = some r) (hs : Mastermind.step ro s l = some s') :
    (∃ t, finishes ro s l = some ⟨.call t user (.read r.args), some (.ret r.outcome.result)⟩) ∧
      s'.drv = s.drv := by
  have hread : ∀ (a : ReadArgs) (curr : Option Nat), s.drv.withGame .EINVAL curr (mmRead a) =
      (s.drv, .ret (Read.outcome ⟨a, s.drv.deref curr⟩).result) := by
    intro a curr
    obtain ⟨hnull, hw⟩ | ⟨p, g, rfl, hentry, hw⟩ := withGame_cases s.drv .EINVAL curr (mmRead a)
    · rw [hw, hnull]
      rfl
    · have hderef : s.drv.deref (some p) = some g := hentry
      obtain ⟨hlt, hg⟩ := List.getElem?_eq_some_iff.mp hentry
      rw [hw, hderef]
      simp only [mmRead, ← hg, List.set_getElem_self]
      rfl
  cases l with
  | main t rnd =>
      simp only [readOf] at h
      split at h
      · next user' a highest curr hframe =>
          split at h
          · next huser =>
              obtain rfl := Option.some.inj h
              subst huser
              refine ⟨⟨t, ?_⟩, ?_⟩
              · simp only [finishes, hframe, Call.section, Call.noEntry, hread]
              · cases hlock : s.lockHeld with
                | false =>
                    simp only [Mastermind.step, hlock, hframe, Call.section, Call.noEntry, hread] at hs
                    obtain rfl := Option.some.inj hs
                    rfl
                | true => simp [Mastermind.step, hlock] at hs
          · contradiction
      · contradiction
  | enter | find | irq | bottom | setRandomCode => contradiction

/-- The entry of a read is one of the list. -/
theorem mem_of_readOf {user : Kuid} {s : Sys} {l : Label} {r : Read} (h : readOf user s l = some r)
    {g : MmGame} (hg : g ∈ r.entry) : g ∈ s.drv.gamesList := by
  unfold readOf at h
  split at h
  · split at h
    · split at h
      · obtain rfl := Option.some.inj h
        obtain ⟨p, -, hp⟩ := Option.bind_eq_some_iff.mp hg
        exact List.mem_of_getElem? hp
      · contradiction
    · contradiction
  · contradiction

/-- The read has no entry, or bytes to deliver that it cannot copy. -/
def Read.Fails (st : List UInt8) (r : Read) : Prop :=
  r.entry = none ∨ r.args.copyOk = false ∧ r.args.ppos < st.length

/-- What a read does when the status is `st`. -/
structure ReadRight (st : List UInt8) (r : Read) : Prop where
  fails : r.Fails st → r.outcome = ⟨.error .EINVAL, [], r.args.ppos⟩
  succeeds : ¬ r.Fails st → r.outcome =
    ⟨.ok (piece st r.args.ppos r.args.count).length, piece st r.args.ppos r.args.count,
      r.args.ppos + (piece st r.args.ppos r.args.count).length⟩
  atEnd : r.entry ≠ none → st.length ≤ r.args.ppos → r.outcome.result = .ok 0

/-- One read. -/
theorem readRight {st : List UInt8} {r : Read} (hst : ∀ g ∈ r.entry, cstr g.gameStatus = st)
    (hcount : r.args.count < 2 ^ 32) (hpos : 0 ≤ r.args.ppos) (hmax : r.args.ppos < 2 ^ 63) :
    ReadRight st r := by
  cases hentry : r.entry with
  | none =>
      have houtcome : r.outcome = ⟨.error .EINVAL, [], r.args.ppos⟩ := by
        rw [Read.outcome, hentry]
        rfl
      exact ⟨fun _ => houtcome, fun hno => absurd (.inl hentry) hno, fun hsome => absurd hentry hsome⟩
  | some g =>
      have houtcome : r.outcome = readStatus r.args g := by rw [Read.outcome, hentry]
      have hst := hst g hentry
      have hlen : strlen g.gameStatus = st.length := by rw [strlen, hst]
      have hfails : r.Fails st ↔ ¬ (r.args.copyOk = true ∨ (strlen g.gameStatus : Int) ≤ r.args.ppos) := by
        rw [Read.Fails, hentry, hlen, not_or, not_le, Bool.not_eq_true]
        simp
      rw [readStatus_eq hcount hpos hmax, hst] at houtcome
      refine ⟨fun hf => ?_, fun hf => ?_, fun _ hend => ?_⟩
      · rw [houtcome, if_neg (hfails.mp hf)]
      · rw [houtcome, if_pos (not_not.mp (mt hfails.mpr hf))]
      · rw [houtcome, if_pos (.inr (hlen ▸ hend)), piece_eq_nil hend]
        rfl

theorem ReadRight.succeeded_iff {st : List UInt8} {r : Read} (h : ReadRight st r) :
    r.succeeded = true ↔ ¬ r.Fails st := by
  constructor
  · intro hok hfails
    rw [Read.succeeded, h.fails hfails] at hok
    contradiction
  · intro hnot
    rw [Read.succeeded, h.succeeds hnot]

/-- Reads through one file, of a status that stays the same. -/
theorem through_delivers {st : List UInt8} {rs : List Read} {p q : Int}
    (hst : ∀ r ∈ rs, ∀ g ∈ r.entry, cstr g.gameStatus = st ∧ Terminated g.gameStatus)
    (hcount : ∀ r ∈ rs, r.args.count < 2 ^ 32) (hpos : 0 ≤ p) (hmax : p < 2 ^ 63)
    (h : Through p rs q) :
    (∀ r ∈ rs, ReadRight st r) ∧ delivered rs = piece st p (asked rs) ∧
      q = p + (delivered rs).length := by
  induction rs generalizing p with
  | nil => simp [delivered, asked, piece, h.symm]
  | cons r rs ih =>
      obtain ⟨rfl, hrest⟩ := h
      rw [List.forall_mem_cons] at hst hcount
      have hr : ReadRight st r := readRight (fun g hg => (hst.1 g hg).1) hcount.1 hpos hmax
      by_cases hf : r.Fails st
      · -- the position is where it was
        have hnot : r.succeeded = false := Bool.eq_false_iff.mpr fun hok => hr.succeeded_iff.mp hok hf
        have hasked : asked (r :: rs) = asked rs := by rw [asked, asked, List.filter_cons_of_neg (by simp [hnot])]
        have hdelivered : delivered (r :: rs) = delivered rs := by
          rw [delivered, List.flatMap_cons, hr.fails hf]
          rfl
        rw [hr.fails hf] at hrest
        obtain ⟨hall, hpieces, hq⟩ := ih hst.2 hcount.2 hpos hmax hrest
        rw [hasked, hdelivered]
        exact ⟨List.forall_mem_cons.mpr ⟨hr, hall⟩, hpieces, hq⟩
      · have hok : r.succeeded = true := hr.succeeded_iff.mpr hf
        have hasked : asked (r :: rs) = r.args.count + asked rs := by
          rw [asked, asked, List.filter_cons_of_pos hok, List.map_cons, List.sum_cons]
        have hdelivered : delivered (r :: rs) =
            piece st r.args.ppos r.args.count ++ delivered rs := by
          rw [delivered, List.flatMap_cons, hr.succeeds hf]
          rfl
        have hlen : st.length < 80 := by
          obtain ⟨g, hg⟩ := Option.ne_none_iff_exists'.mp fun hnone => hf (.inl hnone)
          obtain ⟨rfl, hterm⟩ := hst.1 g hg
          exact hterm.strlen_lt
        have hpiece := length_piece st r.args.ppos r.args.count
        rw [hr.succeeds hf] at hrest
        dsimp only at hrest
        obtain ⟨hall, hpieces, hq⟩ := ih hst.2 hcount.2 (by omega) (by omega) hrest
        rw [hasked, hdelivered]
        refine ⟨List.forall_mem_cons.mpr ⟨hr, hall⟩, ?_, ?_⟩
        · rw [hpieces, piece_append st hpos]
        · rw [hq, List.length_append]
          omega

/-- **A status read in pieces.** -/
theorem reads_in_pieces {ro : Rodata} {tr : List (Sys × Label)} {s : Sys} (h : (driver ro).Run tr s) :
    (∀ g ∈ s.drv.gamesList, Terminated g.gameStatus) ∧
    ∀ (user : Kuid) (rs : List Read) (st : List UInt8) (p q : Int),
      rs.Sublist (readsOf user tr) → Through p rs q → 0 ≤ p → p < 2 ^ 63 →
      (∀ r ∈ rs, r.args.count < 2 ^ 32) → (∀ r ∈ rs, ∀ g ∈ r.entry, cstr g.gameStatus = st) →
        delivered rs = piece st p (asked rs) ∧
        (delivered rs).length = min (asked rs) (st.length - p.toNat) ∧
        q = p + (delivered rs).length ∧ ∀ r ∈ rs, ReadRight st r := by
  refine ⟨terminated_of_run h, fun user rs st p q hsub hthrough hpos hmax hcount hst => ?_⟩
  have hterm : ∀ r ∈ rs, ∀ g ∈ r.entry, cstr g.gameStatus = st ∧ Terminated g.gameStatus := by
    intro r hr g hg
    obtain ⟨⟨s₁, l⟩, hp, hread⟩ := List.mem_filterMap.mp (hsub.subset hr)
    obtain ⟨_, _, _, -, hrun, -⟩ := h.split hp
    exact ⟨hst r hr g hg, terminated_of_run hrun g (mem_of_readOf hread hg)⟩
  obtain ⟨hall, hpieces, hq⟩ := through_delivers hterm hcount hpos hmax hthrough
  exact ⟨hpieces, by rw [hpieces, length_piece], hq, hall⟩

/-- A read from `/dev/mm`. -/
def readCall (count : Nat) (ppos : Int) (copyOk : Bool) : List Label :=
  callSteps 0 1000 (.read ⟨count, ppos, copyOk⟩) 0

/-- The status after a start, five bytes first, then a failure, then the rest. -/
def startAndReads : List Label :=
  callSteps 0 1000 (ctlText "start" false) 0 ++ readCall 5 0 true ++ readCall 5 5 false ++
    readCall 100 5 true ++ readCall 100 14 true

theorem reads_in_pieces_startAndReads :
    delivered (readsOf 1000 ((driver .zeros).trace (initSys false) startAndReads)) =
        ascii "Starting game\n" ∧
      asked (readsOf 1000 ((driver .zeros).trace (initSys false) startAndReads)) = 205 := by
  obtain ⟨s, hrun⟩ := Machine.exists_run (M := driver .zeros) ⟨false, rfl⟩ startAndReads (by decide +kernel)
  obtain ⟨hdelivered, -⟩ := (reads_in_pieces hrun).2 1000 _ (ascii "Starting game\n") 0 14
    (List.Sublist.refl _) (by decide +kernel) (by decide) (by decide) (by decide +kernel) (by decide +kernel)
  have hasked : asked (readsOf 1000 ((driver .zeros).trace (initSys false) startAndReads)) = 205 := by
    decide +kernel
  rw [hdelivered, hasked]
  exact ⟨by decide, rfl⟩

end Cmsc421.Mastermind
