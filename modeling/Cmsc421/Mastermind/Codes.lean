import Cmsc421.Mastermind.Ledger

/-!
# Cmsc421.Mastermind.Codes

Who changes the target code.

There is one `target_code` for all players.  `Writes` says what a step of the
driver can do to it, to `NUM_COLORS` and to the set of the games under way; only
a start, a colors command and a valid packet write anything.  From it follows
what a player can count on: a call of another player leaves the code of a game
under way alone exactly unless it is a start that sets a different code.
-/

namespace Cmsc421.Mastermind

/-! ## the writers of the shared scalars -/

/-- `A` has an active game. -/
def InGame (s : Sys) (A : Kuid) : Prop :=
  ∃ g ∈ s.drv.gamesList, g.playerId = A ∧ g.gameActive = true

/-- A locked section is a start, a colors command that passes its test, or it is
neither, leaves the scalars alone, makes no game active and does not trap. -/
theorem section_cases (ro : Rodata) (rnd : Fin NUM_PEGS → UInt32) (highest : Int) (call : Call)
    (v : Vars) (g : MmGame) :
    (∃ c, call = .ctlWrite c ∧ Takes ro c .start ∧
      call.section ro rnd highest v g = startBranch rnd c.count v g) ∨
    (∃ c, call = .ctlWrite c ∧ Takes ro c .colors ∧ c.colorsOk = true ∧
      call.section ro rnd highest v g =
        ⟨{ v with numColors := c.newColors }, g, .ret (.ok c.count)⟩) ∨
    ((∀ c, call = .ctlWrite c → ¬ Takes ro c .start ∧ ¬ (Takes ro c .colors ∧ c.colorsOk = true)) ∧
      (call.section ro rnd highest v g).vars = v ∧
      ((call.section ro rnd highest v g).game.gameActive = true → g.gameActive = true) ∧
      (call.section ro rnd highest v g).result ≠ .trap) := by
  cases call with
  | read a => exact .inr (.inr ⟨by simp, rfl, id, by simp [Call.section, mmRead]⟩)
  | mmap a => exact .inr (.inr ⟨by simp, rfl, id, by simp [Call.section, mmMmap]⟩)
  | write ubuf count =>
      refine .inr (.inr ⟨by simp, mmWrite_vars .., ?_⟩)
      simp only [Call.section]
      obtain ⟨-, hw⟩ | ⟨-, hw⟩ := mmWrite_cases highest ubuf count v g
      · rw [hw]
        exact ⟨id, by simp [refuse]⟩
      · rw [hw]
        exact ⟨fun h => ((scoreGuess_gameActive ..).mp h).1, by simp⟩
  | ctlWrite c =>
      simp only [Call.section]
      obtain ⟨htakes, hw⟩ | ⟨htakes, hw⟩ | ⟨htakes, hw⟩ | ⟨hrej, hw⟩ := mmCtlWrite_cases ro rnd c v g
      · exact .inl ⟨c, rfl, htakes, hw⟩
      · rw [hw]
        refine .inr (.inr ⟨?_, quitBranch_vars .., by simp, quitBranch_result_ne_trap _ _ _⟩)
        rintro _ ⟨⟩
        exact ⟨htakes.not (by decide), fun h => htakes.not (by decide) h.1⟩
      · rw [hw]
        by_cases hok : c.colorsOk = true
        · exact .inr (.inl ⟨c, rfl, htakes, hok, if_pos hok⟩)
        · refine .inr (.inr ⟨?_, by rw [colorsBranch_vars, if_neg hok], by simp, ?_⟩)
          · rintro _ ⟨⟩
            exact ⟨htakes.not (by decide), fun h => hok h.2⟩
          · exact colorsBranch_result_ne_trap _ _ _
      · rw [hw]
        refine .inr (.inr ⟨?_, rfl, id, by simp [refuse]⟩)
        rintro _ ⟨⟩
        have hno : ∀ cmd, cmd ≠ .other → ¬ Takes ro c cmd := fun cmd hne h =>
          hrej.elim (fun hcop => by simp [h.1] at hcop) fun hother => hother.not hne.symm h
        exact ⟨hno .start (by decide), fun h => hno .colors (by decide) h.1⟩

/-- The write to `/dev/mm_ctl` whose locked section a step runs on an entry. -/
def ctlCall (s : Sys) : Label → Option CtlWrite
  | .main t _ =>
      match s.frames t with
      | some (.locked _ (.ctlWrite c) _ (some _)) => some c
      | _ => none
  | _ => none

/-- The handler accepts a packet. -/
def AcceptsPacket (s : Sys) (l : Label) : Prop :=
  ∃ t highest packet, l = .bottom t packet ∧ s.frames t = some (.bottom highest) ∧
    ValidPacket highest packet

/-- **What a step can do to the shared scalars and to the games under way.** -/
inductive Writes (ro : Rodata) (s : Sys) : Label → Sys → Prop
  | none {l : Label} {s' : Sys} (hcolors : s'.drv.vars.numColors = s.drv.vars.numColors)
      (hcode : s'.drv.vars.targetCode = s.drv.vars.targetCode)
      (hgames : ∀ A, InGame s' A → InGame s A) (hlock : s'.lockHeld = true → s.lockHeld = true)
      (hevent : ∀ A, observe ro s l ≠ some (.start A))
      (hcalls : ∀ c ∈ ctlCall s l, ¬ (Takes ro c .colors ∧ c.colorsOk = true))
      (hpacket : ¬ AcceptsPacket s l) : Writes ro s l s'
  | start {t : Nat} {rnd : Fin NUM_PEGS → UInt32} {user : Kuid} {c : CtlWrite} {s' : Sys}
      (hcall : ctlCall s (.main t rnd) = some c) (htakes : Takes ro c .start)
      (hevent : observe ro s (.main t rnd) = some (.start user))
      (hcolors : s'.drv.vars.numColors = s.drv.vars.numColors)
      (hcode : s'.drv.vars.targetCode = (startCode s.drv.vars rnd).getD s.drv.vars.targetCode)
      (hgame : InGame s' user) (hgames : ∀ A ≠ user, InGame s' A → InGame s A)
      (hlock : s'.lockHeld = true → startCode s.drv.vars rnd = .none) :
      Writes ro s (.main t rnd) s'
  | colors {t : Nat} {rnd : Fin NUM_PEGS → UInt32} {c : CtlWrite} {s' : Sys}
      (hcall : ctlCall s (.main t rnd) = some c) (htakes : Takes ro c .colors)
      (hok : c.colorsOk = true) (hevent : ∀ A, observe ro s (.main t rnd) ≠ some (.start A))
      (hcolors : s'.drv.vars.numColors = c.newColors)
      (hcode : s'.drv.vars.targetCode = s.drv.vars.targetCode)
      (hgames : ∀ A, InGame s' A ↔ InGame s A) (hlock : s'.lockHeld = false) :
      Writes ro s (.main t rnd) s'
  | packet {t : Nat} {highest : Int} {data : List UInt8} {s' : Sys}
      (hframe : s.frames t = some (.bottom highest))
      (hvalid : data.length = NUM_PEGS ∧ validCode highest data = true)
      (hcolors : s'.drv.vars.numColors = s.drv.vars.numColors)
      (hcode : s'.drv.vars.targetCode = packetCode data)
      (hgames : ∀ A, InGame s' A ↔ InGame s A) (hlock : s'.lockHeld = s.lockHeld) :
      Writes ro s (.bottom t (some data)) s'

/-- The games under way after a locked section: those of the other entries, and
the section's own if it leaves it active. -/
theorem inGame_afterSection {ro : Rodata} {rnd : Fin NUM_PEGS → UInt32} {s : Sys} {t : Nat}
    {call : Call} {highest : Int} {p : Nat} {g : MmGame} (hentry : s.drv.gamesList[p]? = some g)
    (A : Kuid) :
    InGame (afterSection ro rnd s t call highest p g) A ↔
      (∃ i g', i ≠ p ∧ s.drv.gamesList[i]? = some g' ∧ g'.playerId = A ∧ g'.gameActive = true) ∨
      (g.playerId = A ∧ (call.section ro rnd highest s.drv.vars g).game.gameActive = true) := by
  simp only [InGame, List.mem_iff_getElem?, getElem?_afterSection hentry]
  constructor
  · rintro ⟨g', ⟨i, hi⟩, hid, hact⟩
    split at hi
    · obtain rfl := Option.some.inj hi
      exact .inr ⟨by rw [← hid, section_playerId], hact⟩
    · next hne => exact .inl ⟨i, g', hne, hi, hid, hact⟩
  · rintro (⟨i, g', hne, hi, hid, hact⟩ | ⟨hid, hact⟩)
    · exact ⟨g', ⟨i, by rw [if_neg hne, hi]⟩, hid, hact⟩
    · exact ⟨_, ⟨p, if_pos rfl⟩, by rw [section_playerId, hid], hact⟩

/-- Before a locked section, the same with the entry itself. -/
theorem inGame_split {s : Sys} {p : Nat} {g : MmGame} (hentry : s.drv.gamesList[p]? = some g)
    (A : Kuid) :
    InGame s A ↔
      (∃ i g', i ≠ p ∧ s.drv.gamesList[i]? = some g' ∧ g'.playerId = A ∧ g'.gameActive = true) ∨
      (g.playerId = A ∧ g.gameActive = true) := by
  simp only [InGame, List.mem_iff_getElem?]
  constructor
  · rintro ⟨g', ⟨i, hi⟩, hid, hact⟩
    by_cases hip : i = p
    · subst hip
      obtain rfl := Option.some.inj (hi.symm.trans hentry)
      exact .inr ⟨hid, hact⟩
    · exact .inl ⟨i, g', hip, hi, hid, hact⟩
  · rintro (⟨i, g', -, hi, hid, hact⟩ | ⟨hid, hact⟩)
    · exact ⟨g', ⟨i, hi⟩, hid, hact⟩
    · exact ⟨g, ⟨p, hentry⟩, hid, hact⟩

/-- The event of a step whose section runs on an entry. -/
theorem observe_main (ro : Rodata) (rnd : Fin NUM_PEGS → UInt32) {s : Sys} {t : Nat} {user : Kuid}
    {call : Call} {highest : Int} {p : Nat} {g : MmGame}
    (hframe : s.frames t = some (.locked user call highest (some p)))
    (hentry : s.drv.gamesList[p]? = some g) :
    observe ro s (.main t rnd) = call.event ro user highest s.drv.vars g := by
  simp [observe, hframe, Driver.deref, hentry]

/-- A call starts a game exactly when it takes the start branch. -/
theorem Call.event_start {ro : Rodata} {user A : Kuid} {highest : Int} {call : Call} {v : Vars}
    {g : MmGame} :
    call.event ro user highest v g = some (.start A) ↔
      A = user ∧ ∃ c, call = .ctlWrite c ∧ Takes ro c .start := by
  cases call with
  | read a => simp [Call.event]
  | mmap a => simp [Call.event]
  | write ubuf count => simp [Call.event]
  | ctlWrite c =>
      simp only [Call.event]
      by_cases hs : Takes ro c .start
      · simp [hs, eq_comm]
      · by_cases hq : Takes ro c .quit <;> simp [hs, hq]

/-- A step that neither runs a section on an entry nor the handler writes nothing. -/
private theorem writes_none {ro : Rodata} {s s' : Sys} {l : Label} (hvars : s'.drv.vars.numColors =
      s.drv.vars.numColors ∧ s'.drv.vars.targetCode = s.drv.vars.targetCode)
    (hgames : ∀ A, InGame s' A → InGame s A) (hlock : s'.lockHeld = s.lockHeld)
    (hevent : observe ro s l = none) (hcall : ctlCall s l = none)
    (hpacket : ∀ t packet, l ≠ .bottom t packet) : Writes ro s l s' := by
  refine .none hvars.1 hvars.2 hgames (fun h => hlock ▸ h) (by simp [hevent]) (by simp [hcall]) ?_
  rintro ⟨t, highest, packet, hl, -⟩
  exact hpacket t packet hl

/-- A locked section is a start, a colors command that passes, or it writes nothing. -/
private theorem writes_main {ro : Rodata} {s : Sys} {t : Nat} {rnd : Fin NUM_PEGS → UInt32}
    {user : Kuid} {call : Call} {highest : Int} {p : Nat} {g : MmGame}
    (hframe : s.frames t = some (.locked user call highest (some p)))
    (hentry : s.drv.gamesList[p]? = some g) (huser : g.playerId = user) :
    Writes ro s (.main t rnd) (afterSection ro rnd s t call highest p g) := by
  have hevent := observe_main ro rnd hframe hentry
  obtain ⟨c, rfl, htakes, hw⟩ | ⟨c, rfl, htakes, hok, hw⟩ | ⟨hno, hv, hact, hres⟩ :=
    section_cases ro rnd highest call s.drv.vars g
  · refine .start (by simp [ctlCall, hframe]) htakes
      (hevent.trans (Call.event_start.mpr ⟨rfl, c, rfl, htakes⟩)) ?_ ?_ ?_ (fun A hA h => ?_) ?_
    · simp [afterSection, hw]
    · simp [afterSection, hw]
    · exact (inGame_afterSection hentry user).mpr (.inr ⟨huser, by simp [hw]⟩)
    · rw [inGame_afterSection hentry] at h
      rw [inGame_split hentry]
      exact h.imp_right fun hown => absurd (hown.1.symm.trans huser) hA
    · simp only [afterSection, hw, startBranch]
      cases startCode s.drv.vars rnd <;> simp
  · refine .colors (by simp [ctlCall, hframe]) htakes hok (fun A => ?_) ?_ ?_ (fun A => ?_) ?_
    · rw [hevent, Ne, Call.event_start]
      rintro ⟨-, c', hc', htakes'⟩
      obtain rfl := Call.ctlWrite.inj hc'
      exact htakes.not (by decide) htakes'
    · simp [afterSection, hw]
    · simp [afterSection, hw]
    · rw [inGame_afterSection hentry, inGame_split hentry, hw]
    · simp [afterSection, hw]
  · refine .none (by simp [afterSection, hv]) (by simp [afterSection, hv]) (fun A h => ?_)
      ?_ (fun A hA => ?_) (fun c hc => ?_) (by simp [AcceptsPacket])
    · rw [inGame_afterSection hentry] at h
      rw [inGame_split hentry]
      exact h.imp_right (And.imp_right hact)
    · simp [afterSection, hres]
    · obtain ⟨-, c, hc, htakes⟩ := Call.event_start.mp (hevent.symm.trans hA)
      exact (hno c hc).1 htakes
    · simp only [ctlCall, hframe] at hc
      cases call with
      | ctlWrite c' =>
          obtain rfl : c' = c := by simpa using hc
          exact (hno c' rfl).2
      | read a => simp at hc
      | mmap a => simp at hc
      | write ubuf count => simp at hc

/-- Every step is one of the writes. -/
theorem writes_of_step {ro : Rodata} {s s' : Sys} {l : Label} (howned : Owned s)
    (hs : Mastermind.step ro s l = some s') : Writes ro s l s' := by
  cases step_cases hs with
  | enter => exact writes_none ⟨rfl, rfl⟩ (fun _ h => h) rfl rfl rfl (by simp)
  | found => exact writes_none ⟨rfl, rfl⟩ (fun _ h => h) rfl rfl rfl (by simp)
  | added =>
      refine writes_none ⟨rfl, rfl⟩ (fun A h => ?_) rfl rfl rfl (by simp)
      obtain ⟨g, hg, hid, hact⟩ := h
      rcases List.mem_append.mp hg with hg | hg
      · exact ⟨g, hg, hid, hact⟩
      · obtain rfl := List.mem_singleton.mp hg
        simp [newGame] at hact
  | failed => exact writes_none ⟨rfl, rfl⟩ (fun _ h => h) rfl rfl rfl (by simp)
  | @noEntry t rnd user call highest curr hframe hnull =>
      refine writes_none ⟨rfl, rfl⟩ (fun _ h => h) rfl (by simp [observe, hframe, hnull]) ?_
        (by simp)
      cases curr with
      | none => simp [ctlCall, hframe]
      | some p =>
          obtain ⟨g, hg, -⟩ := howned.pointer hframe
          simp [Driver.deref, hg] at hnull
  | main hframe hentry =>
      obtain ⟨g', hg', huser⟩ := howned.pointer hframe
      obtain rfl := Option.some.inj (hg'.symm.trans hentry)
      exact writes_main hframe hentry huser
  | irq => exact writes_none ⟨rfl, rfl⟩ (fun _ h => h) rfl rfl rfl (by simp)
  | @bottom t highest packet hframe =>
      obtain ⟨data, rfl, hlen, hvalid, hcode⟩ | ⟨hinvalid, hcode⟩ :=
        cs421netBottom_cases highest packet s.drv.vars
      · exact .packet hframe ⟨hlen, hvalid⟩ (cs421netBottom_numColors ..) hcode (fun _ => .rfl) rfl
      · refine .none (cs421netBottom_numColors ..) hcode (fun _ h => h) id (by simp [observe])
          (by simp [ctlCall]) ?_
        rintro ⟨t', highest', packet', hl, hframe', hvalid⟩
        obtain ⟨rfl, rfl⟩ := Label.bottom.inj hl
        obtain rfl : highest = highest' := by simpa [hframe] using hframe'
        exact hinvalid hvalid
  | setRandomCode => exact writes_none ⟨rfl, rfl⟩ (fun _ h => h) rfl rfl rfl (by simp)

/-! ## the code of a game under way -/

/-- The user whose call a step belongs to. -/
def caller (s : Sys) : Label → Option Kuid
  | .enter _ user _ => some user
  | .find t _ =>
      match s.frames t with
      | some (.finding user _ _) => some user
      | _ => none
  | .main t _ =>
      match s.frames t with
      | some (.locked user _ _ _) => some user
      | _ => none
  | _ => none

theorem caller_of_start {ro : Rodata} {s : Sys} {l : Label} {B : Kuid}
    (h : observe ro s l = some (.start B)) : caller s l = some B := by
  cases l with
  | main t rnd =>
      simp only [observe] at h
      split at h
      · next user call highest curr hframe =>
          obtain ⟨g, -, hev⟩ := Option.bind_eq_some_iff.mp h
          obtain rfl : B = user := Call.event_user hev
          simp [caller, hframe]
      · contradiction
  | enter | find | irq | bottom | setRandomCode => simp [observe] at h

/-- The code a start sets is the one in force already. -/
def StartKeeps (v : Vars) (rnd : Fin NUM_PEGS → UInt32) : Prop :=
  if v.randomCode = true then
    uint32 v.numColors ≠ 0 → ∀ i, randomDigit v.numColors (rnd i) = v.targetCode i
  else v.targetCode = fixedCode

theorem startKeeps_iff (v : Vars) (rnd : Fin NUM_PEGS → UInt32) :
    (startCode v rnd).getD v.targetCode = v.targetCode ↔ StartKeeps v rnd := by
  unfold startCode StartKeeps
  by_cases hr : v.randomCode = true
  · by_cases hz : uint32 v.numColors = 0
    · simp [hr, hz]
    · simp [hr, hz, funext_iff]
  · simp [hr, eq_comm]

/-- The step is no start of another player that changes the code under `A`'s
game. -/
def LeavesCode (ro : Rodata) (A : Kuid) (s : Sys) (l : Label) : Prop :=
  ∀ t rnd B, l = .main t rnd → observe ro s l = some (.start B) → B ≠ A → InGame s A →
    StartKeeps s.drv.vars rnd

/-- If the step belongs to a call of another player while `A`'s game is active,
the code is the same after it. -/
def KeepsCode (ro : Rodata) (A : Kuid) (s : Sys) (l : Label) : Prop :=
  ∀ B s', caller s l = some B → B ≠ A → InGame s A → Mastermind.step ro s l = some s' →
    s'.drv.vars.targetCode = s.drv.vars.targetCode

/-- A call of another player keeps the code exactly unless it is a start that
draws a different one. -/
theorem keepsCode_iff {ro : Rodata} {A : Kuid} {s s' : Sys} {l : Label} (howned : Owned s)
    (hs : Mastermind.step ro s l = some s') : KeepsCode ro A s l ↔ LeavesCode ro A s l := by
  constructor
  · rintro h t rnd B rfl hevent hB hA
    have hkeep := h B s' (caller_of_start hevent) hB hA hs
    cases writes_of_step howned hs with
    | none _ _ _ _ hno => exact absurd hevent (hno B)
    | start _ _ _ _ hcode => rwa [hcode, startKeeps_iff] at hkeep
    | colors _ _ _ hno => exact absurd hevent (hno B)
  · intro h B s'' hcaller hB hA hs''
    obtain rfl := Option.some.inj (hs.symm.trans hs'')
    cases writes_of_step howned hs with
    | none _ hcode => exact hcode
    | @start t rnd user c _ _ _ hevent _ hcode =>
        obtain rfl := Option.some.inj ((caller_of_start hevent).symm.trans hcaller)
        rw [hcode, startKeeps_iff]
        exact h t rnd _ rfl hevent hB hA
    | colors _ _ _ _ _ hcode => exact hcode
    | packet => simp [caller] at hcaller

/-- Nobody but `A` puts `A` into a game. -/
theorem inGame_of_step {ro : Rodata} {A : Kuid} {s s' : Sys} {l : Label}
    (hw : Writes ro s l s') (hstart : observe ro s l ≠ some (.start A)) (h : InGame s' A) :
    InGame s A := by
  cases hw with
  | none _ _ hgames => exact hgames A h
  | @start t rnd user c _ _ _ hevent _ _ _ hgames =>
      refine hgames A (fun heq => hstart ?_) h
      rw [hevent, heq]
  | colors _ _ _ _ _ _ hgames => exact (hgames A).mp h
  | packet _ _ _ _ hgames => exact (hgames A).mp h

/-- A step that is no start of `A`, no packet and no start that changes the code
keeps the code of `A`'s game. -/
private theorem targetCode_step {ro : Rodata} {A : Kuid} {s s' : Sys} {l : Label}
    (hw : Writes ro s l s') (hstart : observe ro s l ≠ some (.start A))
    (hpacket : ¬ AcceptsPacket s l) (hleaves : LeavesCode ro A s l) (hA : InGame s A) :
    s'.drv.vars.targetCode = s.drv.vars.targetCode := by
  cases hw with
  | none _ hcode => exact hcode
  | @start t rnd user c _ _ _ hevent _ hcode =>
      rw [hcode, startKeeps_iff]
      refine hleaves t rnd user rfl hevent (fun heq => hstart ?_) hA
      rw [hevent, heq]
  | colors _ _ _ _ _ hcode => exact hcode
  | @packet t highest data _ hframe hvalid =>
      exact absurd ⟨t, highest, some data, rfl, hframe, data, rfl, hvalid⟩ hpacket

/-- In a run whose steps leave `A`'s code alone, the code of `A`'s game is the one
that stood after `A`'s start, as long as no packet is accepted. -/
theorem code_since_start {ro : Rodata} {A : Kuid} {tr : List (Sys × Label)} {s : Sys}
    (h : (driver ro).Run tr s) (hleaves : ∀ p ∈ tr, LeavesCode ro A p.1 p.2) :
    ∀ tr₁ tr₂ s₀ l₀ s₁, tr = tr₁ ++ (s₀, l₀) :: tr₂ → Mastermind.step ro s₀ l₀ = some s₁ →
      (∀ p ∈ tr₂, observe ro p.1 p.2 ≠ some (.start A)) →
      (∀ p ∈ tr₂, ¬ AcceptsPacket p.1 p.2) → InGame s A →
      s.drv.vars.targetCode = s₁.drv.vars.targetCode := by
  suffices hI : Owned s ∧ ∀ tr₁ tr₂ s₀ l₀ s₁, tr = tr₁ ++ (s₀, l₀) :: tr₂ →
      Mastermind.step ro s₀ l₀ = some s₁ →
      (∀ p ∈ tr₂, observe ro p.1 p.2 ≠ some (.start A)) →
      (∀ p ∈ tr₂, ¬ AcceptsPacket p.1 p.2) → InGame s A →
      s.drv.vars.targetCode = s₁.drv.vars.targetCode from hI.2
  refine Machine.Run.invariant_of_steps (P := LeavesCode ro A)
    (I := fun tr s => Owned s ∧ ∀ tr₁ tr₂ s₀ l₀ s₁, tr = tr₁ ++ (s₀, l₀) :: tr₂ →
      Mastermind.step ro s₀ l₀ = some s₁ →
      (∀ p ∈ tr₂, observe ro p.1 p.2 ≠ some (.start A)) →
      (∀ p ∈ tr₂, ¬ AcceptsPacket p.1 p.2) → InGame s A →
      s.drv.vars.targetCode = s₁.drv.vars.targetCode) ?_ ?_ h hleaves
  · rintro s ⟨randomCode, rfl⟩
    exact ⟨owned_init randomCode, by simp⟩
  · rintro tr s l t ⟨howned, ih⟩ hl hs
    replace hs : Mastermind.step ro s l = some t := hs
    refine ⟨howned.step hs, ?_⟩
    intro tr₁ tr₂ s₀ l₀ s₁ heq hs₁ hstart hpacket hA
    rcases List.eq_nil_or_concat tr₂ with rfl | ⟨tr₂, p, rfl⟩
    · obtain ⟨-, hlast⟩ := List.append_inj' heq rfl
      obtain ⟨rfl, rfl⟩ : s = s₀ ∧ l = l₀ := by simpa using hlast
      rw [Option.some.inj (hs.symm.trans hs₁)]
    · rw [List.concat_eq_append, ← List.cons_append, ← List.append_assoc] at heq
      obtain ⟨rfl, hlast⟩ := List.append_inj' heq rfl
      obtain rfl : (s, l) = p := by simpa using hlast
      have hw := writes_of_step howned hs
      have hstart' : observe ro s l ≠ some (.start A) := hstart (s, l) (by simp)
      have hAs := inGame_of_step hw hstart' hA
      rw [targetCode_step hw hstart' (hpacket (s, l) (by simp)) hl hAs]
      exact ih tr₁ tr₂ s₀ l₀ s₁ rfl hs₁ (fun p hp => hstart p (by simp [hp]))
        (fun p hp => hpacket p (by simp [hp])) hAs

/-- **When players do not change each other's code.**  In every run, the calls of
other players keep the code of `A`'s game exactly when each start of another
player during it sets the code that is in force; and then only a packet changes
the code between a start of `A` and the next. -/
theorem code_kept_iff (ro : Rodata) (A : Kuid) {tr : List (Sys × Label)} {s : Sys}
    (h : (driver ro).Run tr s) :
    ((∀ p ∈ tr, KeepsCode ro A p.1 p.2) ↔ ∀ p ∈ tr, LeavesCode ro A p.1 p.2) ∧
    ((∀ p ∈ tr, LeavesCode ro A p.1 p.2) →
      ∀ tr₁ tr₂ s₀ l₀ s₁, tr = tr₁ ++ (s₀, l₀) :: tr₂ →
        observe ro s₀ l₀ = some (.start A) → Mastermind.step ro s₀ l₀ = some s₁ →
        (∀ p ∈ tr₂, observe ro p.1 p.2 ≠ some (.start A)) →
        (∀ p ∈ tr₂, ¬ AcceptsPacket p.1 p.2) → InGame s A →
        s.drv.vars.targetCode = s₁.drv.vars.targetCode) := by
  constructor
  · refine forall₂_congr fun p hp => ?_
    obtain ⟨tr₁, -, s', -, hrun, hs⟩ := h.split hp
    exact keepsCode_iff (owned_of_run hrun) hs
  · intro hleaves tr₁ tr₂ s₀ l₀ s₁ heq _ hs₁
    exact code_since_start h hleaves tr₁ tr₂ s₀ l₀ s₁ heq hs₁

instance (s : Sys) (A : Kuid) : Decidable (InGame s A) :=
  inferInstanceAs (Decidable (∃ g ∈ _, _))

/-- With `random_code` on, user 1000 starts a game with the code 0000; then user
1001 is about to start one with the words 1, 1, 1, 1. -/
def twoStarts : List Label :=
  callSteps 0 1000 (ctlText "start" false) 0 ++
    [.enter 1 1001 (ctlText "start" false), .find 1 clearPage]

/-- The start of user 1001 changes the code of user 1000. -/
theorem start_changes_other_code :
    ∃ s s', (driver .zeros).Run ((driver .zeros).trace (initSys true) twoStarts) s ∧
      InGame s 1000 ∧
      caller s (.main 1 fun _ => 1) = some 1001 ∧
      Mastermind.step .zeros s (.main 1 fun _ => 1) = some s' ∧
      s'.drv.vars.targetCode ≠ s.drv.vars.targetCode := by
  obtain ⟨s, hrun, hs⟩ := Machine.exists_run_of_exec (M := driver .zeros) ⟨true, rfl⟩ twoStarts
    (b := fun s => decide (InGame s 1000) && caller s (.main 1 fun _ => 1) == some 1001 &&
      (Mastermind.step .zeros s (.main 1 fun _ => 1)).any fun s' : Sys =>
        decide (s'.drv.vars.targetCode ≠ s.drv.vars.targetCode)) (by decide +kernel)
  simp only [Bool.and_eq_true, decide_eq_true_eq, beq_iff_eq, Option.any_eq_true] at hs
  obtain ⟨⟨hA, hcaller⟩, s', hs', hne⟩ := hs
  exact ⟨s, s', hrun, hA, hcaller, hs', hne⟩

/-- While `random_code` is off and the fixed code is in force, no start changes it. -/
theorem leavesCode_of_fixed {ro : Rodata} {A : Kuid} {s : Sys} {l : Label}
    (h : caller s l = some A ∨ s.drv.vars.randomCode = false ∧ s.drv.vars.targetCode = fixedCode) :
    LeavesCode ro A s l := by
  rintro t rnd B rfl hevent hB -
  obtain hA | ⟨hoff, hcode⟩ := h
  · exact absurd (Option.some.inj ((caller_of_start hevent).symm.trans hA)) hB
  · simpa [StartKeeps, hoff] using hcode

/-- A step of a call accepts no packet. -/
theorem not_acceptsPacket_of_caller {s : Sys} {l : Label} {B : Kuid} (h : caller s l = some B) :
    ¬ AcceptsPacket s l := by
  rintro ⟨t, highest, packet, rfl, -⟩
  simp [caller] at h

/-- With `random_code` off, user 1000 starts a game; during it user 1001 starts one
with the same code and guesses wrong. -/
def sharedCode : List Label :=
  callSteps 0 1000 (ctlText "start" false) 0 ++ callSteps 1 1001 (ctlText "start" false) 0 ++
    callSteps 1 1001 (guessText "0123") 0

/-- Its trace. -/
def sharedTrace : List (Sys × Label) := (driver .zeros).trace (initSys false) sharedCode

/-- The calls of user 1001 keep the code of user 1000. -/
theorem code_kept_iff_sharedCode :
    ∃ s p s₁, (driver .zeros).Run sharedTrace s ∧ sharedTrace[2]? = some p ∧
      observe .zeros p.1 p.2 = some (.start 1000) ∧ Mastermind.step .zeros p.1 p.2 = some s₁ ∧
      InGame s 1000 ∧ (∀ p ∈ sharedTrace.drop 3, caller p.1 p.2 = some 1001 ∧ InGame p.1 1000) ∧
      (∀ p ∈ sharedTrace, KeepsCode .zeros 1000 p.1 p.2) ∧
      s.drv.vars.targetCode = s₁.drv.vars.targetCode := by
  obtain ⟨s, hrun, hs⟩ := Machine.exists_run_of_exec (M := driver .zeros) ⟨false, rfl⟩ sharedCode
    (b := fun s => decide (InGame s 1000)) (by decide +kernel)
  have hfixed : ∀ p ∈ sharedTrace, caller p.1 p.2 = some 1000 ∨
      p.1.drv.vars.randomCode = false ∧ p.1.drv.vars.targetCode = fixedCode := by decide +kernel
  have hleaves : ∀ p ∈ sharedTrace, LeavesCode .zeros 1000 p.1 p.2 := fun p hp =>
    leavesCode_of_fixed (hfixed p hp)
  have hother : ∀ p ∈ sharedTrace.drop 3, caller p.1 p.2 = some 1001 ∧ InGame p.1 1000 := by
    decide +kernel
  have hthird : sharedTrace[2]?.any (fun p =>
      decide (observe .zeros p.1 p.2 = some (.start 1000)) &&
        (Mastermind.step .zeros p.1 p.2).isSome) = true := by decide +kernel
  obtain ⟨p, hp, hthird⟩ := (Option.any_eq_true _ _).mp hthird
  simp only [Bool.and_eq_true, decide_eq_true_eq, Option.isSome_iff_exists] at hthird
  obtain ⟨hevent, s₁, hs₁⟩ := hthird
  obtain ⟨hlt, hget⟩ := List.getElem?_eq_some_iff.mp hp
  have hsplit : sharedTrace = sharedTrace.take 2 ++ (p.1, p.2) :: sharedTrace.drop 3 := by
    rw [← hget, List.getElem_cons_drop, List.take_append_drop]
  have hA : InGame s 1000 := of_decide_eq_true hs
  have hkept := code_kept_iff .zeros 1000 hrun
  refine ⟨s, p, s₁, hrun, hp, hevent, hs₁, hA, hother, hkept.1.mpr hleaves,
    hkept.2 hleaves _ _ _ _ _ hsplit hevent hs₁ (fun q hq hstart => ?_) (fun q hq => ?_) hA⟩
  · have hcaller := (caller_of_start hstart).symm.trans (hother q hq).1
    exact absurd hcaller (by decide)
  · exact not_acceptsPacket_of_caller (hother q hq).1

end Cmsc421.Mastermind
