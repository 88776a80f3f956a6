import Cmsc421.Mastermind.History
import Mathlib.Data.List.Permutation

/-!
# Cmsc421.Mastermind.Atomic

Whether the calls of the driver are atomic.

A call takes effect in its own locked section, with the one exception of a call that
`find_game` gives no entry: it takes effect when `find_game` fails.  The serial run is
built along these points (`Linearized`).  It lags behind in one thing: it has no entry
yet where `find_game` has added one that no section has run on.

`mm_write` and the handler read `NUM_COLORS` before they take the lock, so this works as
long as they judge the digits as they would under the number of colors in force
(`BoundInForce`); `not_serializable` is what happens otherwise.
-/

namespace Cmsc421.Mastermind

/-! ## the bound -/

/-- A locked section judges the digits as it would under the number of colors in force. -/
def BoundInForce (s : Sys) : Label → Prop
  | .main t _ => ∀ user ubuf count highest p g,
      s.frames t = some (.locked user (.write ubuf count) highest (some p)) →
      s.drv.gamesList[p]? = some g →
      (Admits highest ubuf count g ↔ Admits (highestDigit s.drv.vars) ubuf count g)
  | .bottom t packet => ∀ highest, s.frames t = some (.bottom highest) →
      (ValidPacket highest packet ↔ ValidPacket (highestDigit s.drv.vars) packet)
  | .enter _ _ _ | .find _ _ | .irq _ | .setRandomCode _ => True

/-- What a thread has read into `highest_digit`. -/
def Frame.highest : Frame → Int
  | .finding _ _ highest | .locked _ _ highest _ | .bottom highest => highest

/-- So it does when the number of colors is still what it was. -/
theorem boundInForce_of_eq {s : Sys} {l : Label}
    (h : ∀ t ∈ l.thread, ∀ f ∈ s.frames t, f.highest = highestDigit s.drv.vars) :
    BoundInForce s l := by
  cases l with
  | main t rnd =>
      intro user ubuf count highest p g hframe _
      have heq : highest = highestDigit s.drv.vars := h t rfl _ hframe
      rw [heq]
  | bottom t packet =>
      intro highest hframe
      have heq : highest = highestDigit s.drv.vars := h t rfl _ hframe
      rw [heq]
  | enter | find | irq | setRandomCode => trivial

theorem mmWrite_congr {highest highest' : Int} {ubuf : List UInt8} {count : Nat} {g : MmGame}
    (h : Admits highest ubuf count g ↔ Admits highest' ubuf count g) (v : Vars) :
    mmWrite highest ubuf count v g = mmWrite highest' ubuf count v g := by
  rcases mmWrite_cases highest ubuf count v g with ⟨hadm, he⟩ | ⟨hadm, he⟩ <;>
    rcases mmWrite_cases highest' ubuf count v g with ⟨hadm', he'⟩ | ⟨hadm', he'⟩
  · rw [he, he']
  · exact absurd (h.mpr hadm') hadm
  · exact absurd (h.mp hadm) hadm'
  · rw [he, he']

theorem cs421netBottom_congr {highest highest' : Int} {packet : Option (List UInt8)}
    (h : ValidPacket highest packet ↔ ValidPacket highest' packet) (v : Vars) :
    cs421netBottom highest packet v = cs421netBottom highest' packet v := by
  unfold cs421netBottom
  cases packet with
  | none => rfl
  | some data =>
      have hiff : (data.length = NUM_PEGS ∧ validCode highest data = true) ↔
          (data.length = NUM_PEGS ∧ validCode highest' data = true) := by
        simpa [ValidPacket] using h
      simp only [hiff]

/-- Only `mm_write` looks at the bound. -/
theorem section_congr {ro : Rodata} {rnd : Fin NUM_PEGS → UInt32} {s : Sys} {t : Nat} {user : Kuid}
    {call : Call} {highest : Int} {p : Nat} {g : MmGame} (hbound : BoundInForce s (.main t rnd))
    (hframe : s.frames t = some (.locked user call highest (some p)))
    (hentry : s.drv.gamesList[p]? = some g) :
    call.section ro rnd highest s.drv.vars g =
      call.section ro rnd (highestDigit s.drv.vars) s.drv.vars g := by
  cases call with
  | write ubuf count => exact mmWrite_congr (hbound _ _ _ _ _ _ hframe hentry) _
  | read a | mmap a | ctlWrite c => rfl

/-! ## a whole call -/

section wholeCall

variable {ro : Rodata} {d : Driver} {user : Kuid} {call : Call} {rnd : Fin NUM_PEGS → UInt32}

/-- The driver after a section has run on an entry that is in the list at `q`. -/
theorem wholeCall_found (hnodup : (d.gamesList.map (·.playerId)).Nodup) {q : Nat} {g : MmGame}
    (hentry : d.gamesList[q]? = some g) (a : Allocation) :
    wholeCall ro d g.playerId call a rnd =
      ({ vars := (call.section ro rnd (highestDigit d.vars) d.vars g).vars
         gamesList := d.gamesList.set q (call.section ro rnd (highestDigit d.vars) d.vars g).game },
        (call.section ro rnd (highestDigit d.vars) d.vars g).result) := by
  obtain ⟨p, g', hentry', huser, hf⟩ | ⟨hnew, -⟩ | ⟨hnew, -⟩ := findGame_cases g.playerId a d
  · obtain rfl := eq_of_nodup_playerId hnodup hentry' hentry huser
    simp [wholeCall, hf, Driver.withGame, hentry]
  · exact absurd rfl (hnew g (List.mem_of_getElem? hentry))
  · exact absurd rfl (hnew g (List.mem_of_getElem? hentry))

/-- The same for an entry that is added. -/
theorem wholeCall_added (hnew : ∀ g ∈ d.gamesList, g.playerId ≠ user)
    (page : Vector UInt8 PAGE_SIZE) :
    wholeCall ro d user call ⟨true, some page⟩ rnd =
      ({ vars := (call.section ro rnd (highestDigit d.vars) d.vars (newGame user page.toList)).vars
         gamesList := d.gamesList ++
          [(call.section ro rnd (highestDigit d.vars) d.vars (newGame user page.toList)).game] },
        (call.section ro rnd (highestDigit d.vars) d.vars (newGame user page.toList)).result) := by
  obtain ⟨p, g, hentry, huser, -⟩ | ⟨-, page', -, hpage, hf⟩ | ⟨-, hfail, -⟩ :=
    findGame_cases user ⟨true, some page⟩ d
  · exact absurd huser (hnew g (List.mem_of_getElem? hentry))
  · obtain rfl : page = page' := Option.some.inj hpage
    simp [wholeCall, hf, Driver.withGame]
  · simp at hfail

/-- A call that gets no entry. -/
theorem wholeCall_failed (hnew : ∀ g ∈ d.gamesList, g.playerId ≠ user) :
    wholeCall ro d user call ⟨false, none⟩ rnd = (d, .ret (.error call.noEntry)) := by
  obtain ⟨p, g, hentry, huser, -⟩ | ⟨-, page, hk, -⟩ | ⟨-, -, hf⟩ :=
    findGame_cases user ⟨false, none⟩ d
  · exact absurd huser (hnew g (List.mem_of_getElem? hentry))
  · contradiction
  · rw [wholeCall, hf]
    rfl

end wholeCall

/-! ## a driver that lags behind -/

/-- The driver of the serial run `z` has everything that the driver `s` has, but for
entries that `find_game` has added for a call that has not run its section yet. -/
structure Lags (s z : Sys) : Prop where
  vars : z.drv.vars = s.drv.vars
  lock : z.lockHeld = s.lockHeld
  nodup : (z.drv.gamesList.map (·.playerId)).Nodup
  sub : ∀ g ∈ z.drv.gamesList, g ∈ s.drv.gamesList
  fresh : ∀ {p : Nat} {g : MmGame}, s.drv.gamesList[p]? = some g → g ∈ z.drv.gamesList ∨
    ∃ (page : Vector UInt8 PAGE_SIZE) (t : Nat) (call : Call) (highest : Int),
      g = newGame g.playerId page.toList ∧
      s.frames t = some (.locked g.playerId call highest (some p))

/-- The entries after one of them has been replaced. -/
theorem mem_set_iff {games : List MmGame} (hnodup : (games.map (·.playerId)).Nodup) {q : Nat}
    {g y : MmGame} (hq : games[q]? = some g) (x : MmGame) :
    x ∈ games.set q y ↔ x = y ∨ x ∈ games ∧ x.playerId ≠ g.playerId := by
  have hlt := (List.getElem?_eq_some_iff.mp hq).1
  constructor
  · intro hx
    obtain ⟨i, hi⟩ := List.mem_iff_getElem?.mp hx
    by_cases hiq : q = i
    · subst hiq
      exact .inl (by simpa [hlt, eq_comm] using hi)
    · rw [List.getElem?_set_ne hiq] at hi
      refine .inr ⟨List.mem_of_getElem? hi, fun hid => hiq ?_⟩
      exact (eq_of_nodup_playerId hnodup hi hq hid).symm
  · rintro (rfl | ⟨hx, hne⟩)
    · exact List.mem_set hlt x
    · obtain ⟨i, hi⟩ := List.mem_iff_getElem?.mp hx
      have hiq : q ≠ i := by
        rintro rfl
        rw [hq] at hi
        exact hne (congrArg _ (Option.some.inj hi).symm)
      exact List.mem_of_getElem? (i := i) (by rw [List.getElem?_set_ne hiq, hi])

section lags

variable {ro : Rodata} {s s' z : Sys} {t : Nat}

/-- Where `s` has no entry of a player, `z` has none. -/
theorem Lags.new (h : Lags s z) {user : Kuid} (hnew : ∀ g ∈ s.drv.gamesList, g.playerId ≠ user) :
    ∀ g ∈ z.drv.gamesList, g.playerId ≠ user := fun g hg => hnew g (h.sub g hg)

/-- A step of a thread without a pointer that leaves the list alone. -/
theorem Lags.of_update (h : Lags s z) {f : Option Frame} {z' : Sys}
    (hframes : s'.frames = Function.update s.frames t f)
    (ht : ∀ user call highest p, s.frames t ≠ some (.locked user call highest (some p)))
    (hs' : s'.drv.gamesList = s.drv.gamesList) (hz' : z'.drv.gamesList = z.drv.gamesList)
    (hvars : z'.drv.vars = s'.drv.vars) (hlock : z'.lockHeld = s'.lockHeld) : Lags s' z' where
  vars := hvars
  lock := hlock
  nodup := hz' ▸ h.nodup
  sub := by
    rw [hs', hz']
    exact h.sub
  fresh hg := by
    rw [hs'] at hg
    rw [hz']
    rcases h.fresh hg with hmem | ⟨page, u, call, highest, hnew, hu⟩
    · exact .inl hmem
    · have hut : u ≠ t := by
        rintro rfl
        exact ht _ _ _ _ hu
      exact .inr ⟨page, u, call, highest, hnew, by simpa [hframes, hut] using hu⟩

/-- `find_game` adds an entry. -/
theorem Lags.added (h : Lags s z) {user : Kuid} {call call' : Call} {highest highest' : Int}
    {page : Vector UInt8 PAGE_SIZE}
    (hframe : s.frames t = some (.finding user call' highest')) :
    Lags (afterAdd s t user call highest page) z where
  vars := h.vars
  lock := h.lock
  nodup := h.nodup
  sub g hg := List.mem_append_left _ (h.sub g hg)
  fresh {p g} hg := by
    by_cases hp : p < s.drv.gamesList.length
    · have hold : s.drv.gamesList[p]? = some g := by
        simpa [afterAdd, List.getElem?_append_left hp] using hg
      rcases h.fresh hold with hmem | ⟨page', u, call', highest', hnew, hu⟩
      · exact .inl hmem
      · refine .inr ⟨page', u, call', highest', hnew, ?_⟩
        have hut : u ≠ t := by
          rintro rfl
          simp [hframe] at hu
        simpa [afterAdd, hut] using hu
    · obtain ⟨hlt, hget⟩ := List.getElem?_eq_some_iff.mp hg
      have hlt' : p < s.drv.gamesList.length + 1 := by simpa [afterAdd] using hlt
      obtain rfl : p = s.drv.gamesList.length := by omega
      obtain rfl : newGame user page.toList = g := by simpa [afterAdd] using hget
      exact .inr ⟨page, t, call, highest, rfl, by simp [afterAdd, newGame]⟩

/-- A section has run on the entry of `g`, in `z` as well as in `s`. -/
theorem Lags.main (h : Lags s z) (howned : Owned s) {rnd : Fin NUM_PEGS → UInt32} {user : Kuid}
    {call call' : Call} {highest highest' : Int} {p : Nat} {g : MmGame}
    (hframe : s.frames t = some (.locked user call' highest' (some p)))
    (hentry : s.drv.gamesList[p]? = some g) {games : List MmGame}
    (hnodup : (games.map (·.playerId)).Nodup)
    (hgames : ∀ x, x ∈ games ↔ x = (call.section ro rnd highest s.drv.vars g).game ∨
      x ∈ z.drv.gamesList ∧ x.playerId ≠ g.playerId) :
    Lags (afterSection ro rnd s t call highest p g)
      ⟨⟨(call.section ro rnd highest s.drv.vars g).vars, games⟩,
        (call.section ro rnd highest s.drv.vars g).result == .trap, fun _ => none⟩ where
  vars := rfl
  lock := rfl
  nodup := hnodup
  sub x hx := by
    rcases (hgames x).mp hx with rfl | ⟨hx, hne⟩
    · exact List.mem_of_getElem? (i := p) (by rw [getElem?_afterSection hentry, if_pos rfl])
    · obtain ⟨i, hi⟩ := List.mem_iff_getElem?.mp (h.sub x hx)
      have hip : i ≠ p := by
        rintro rfl
        rw [hentry] at hi
        exact hne (congrArg _ (Option.some.inj hi).symm)
      exact List.mem_of_getElem? (i := i) (by rw [getElem?_afterSection hentry, if_neg hip, hi])
  fresh {i x} hx := by
    rw [getElem?_afterSection hentry] at hx
    by_cases hip : i = p
    · rw [if_pos hip] at hx
      exact .inl ((hgames x).mpr (.inl (Option.some.inj hx).symm))
    · rw [if_neg hip] at hx
      have hne : x.playerId ≠ g.playerId := fun hid => hip (howned.eq_of_playerId hx hentry hid)
      rcases h.fresh hx with hmem | ⟨page, u, call'', highest'', hnew, hu⟩
      · exact .inl ((hgames x).mpr (.inr ⟨hmem, hne⟩))
      · refine .inr ⟨page, u, call'', highest'', hnew, ?_⟩
        have hut : u ≠ t := by
          rintro rfl
          rw [hframe] at hu
          simp only [Option.some.injEq, Frame.locked.injEq] at hu
          exact hip hu.2.2.2.symm
        simpa [afterSection, hut] using hu

end lags

/-! ## the order of the entries -/

/-- The entry that a step runs a section on. -/
def usedBy (s : Sys) : Label → Option Nat
  | .main t _ =>
      match s.frames t with
      | some (.locked _ _ _ curr) => curr
      | _ => none
  | .enter _ _ _ | .find _ _ | .irq _ | .bottom _ _ | .setRandomCode _ => none

/-- Some section has run on an entry. -/
def Used (tr : List (Sys × Label)) (p : Nat) : Prop := ∃ q ∈ tr, usedBy q.1 q.2 = some p

/-- The entries are used in the order in which `find_game` has added them: a section runs
on an entry when one has run on each entry before it. -/
def InTurn (tr : List (Sys × Label)) : Prop :=
  ∀ tr₁ q tr₂, tr = tr₁ ++ q :: tr₂ → ∀ p, usedBy q.1 q.2 = some p → ∀ i < p, Used tr₁ i

section inTurn

variable {tr : List (Sys × Label)} {s : Sys} {l : Label}

theorem used_concat (p : Nat) : Used (tr ++ [(s, l)]) p ↔ Used tr p ∨ usedBy s l = some p := by
  simp [Used, List.mem_append, or_and_right, exists_or]

theorem InTurn.of_concat (h : InTurn (tr ++ [(s, l)])) : InTurn tr := by
  rintro tr₁ q tr₂ rfl
  exact h tr₁ q (tr₂ ++ [(s, l)]) (by simp)

theorem InTurn.last (h : InTurn (tr ++ [(s, l)])) {p : Nat} (hp : usedBy s l = some p) :
    ∀ i < p, Used tr i := h tr (s, l) [] rfl p hp

end inTurn

/-- The entries of the serial run are the first ones of the list, those that have been
used. -/
def Ahead (tr : List (Sys × Label)) (s z : Sys) : Prop :=
  z.drv.gamesList <+: s.drv.gamesList ∧ ∀ i, Used tr i ↔ i < z.drv.gamesList.length

/-- A step that runs no section, and keeps the entries at their places. -/
theorem Ahead.keep {tr : List (Sys × Label)} {s s' z z' : Sys} {l : Label} (h : Ahead tr s z)
    (hused : usedBy s l = none) (hs' : s.drv.gamesList <+: s'.drv.gamesList)
    (hz' : z'.drv.gamesList = z.drv.gamesList) : Ahead (tr ++ [(s, l)]) s' z' := by
  refine ⟨hz' ▸ h.1.trans hs', fun i => ?_⟩
  rw [used_concat, hused, hz', ← h.2]
  simp

/-! ## the linearization -/

/-- A call that gets no entry. -/
def noEntryAct (t : Nat) (user : Kuid) (call : Call) : Act :=
  ⟨.call t user call, some (.ret (.error call.noEntry))⟩

/-- The calls of a run that have taken effect, in this order, and the serial run that
makes them. -/
structure Linearized (ro : Rodata) (randomCode : Bool) (tr : List (Sys × Label)) (s z : Sys)
    (L : List (Placed Act)) : Prop where
  owned : Owned s
  lags : Lags s z
  serial : SerialRun ro randomCode z (L.map (·.what))
  done : (ended L).Perm (callHistory ro tr).done
  realTime : RealTime L
  began : ∀ i ∈ L, i.began ≤ (callHistory ro tr).clock
  -- the calls under way that have taken effect are those that `find_game` has failed for
  failed : ∀ {t user call highest}, s.frames t = some (.locked user call highest none) →
    ⟨noEntryAct t user call, (callHistory ro tr).began t, none⟩ ∈ L
  underWay : ∀ i ∈ L, i.ended = none → ∃ t user call highest,
    s.frames t = some (.locked user call highest none) ∧ i.what = noEntryAct t user call
  unique : L.Pairwise fun i j => i.ended = none → j.ended = none → i.what ≠ j.what
  ahead : InTurn tr → Ahead tr s z

section linearized

variable {ro : Rodata} {randomCode : Bool} {tr : List (Sys × Label)} {s s' z : Sys} {l : Label}
  {L : List (Placed Act)}

theorem linearized_init (ro : Rodata) (randomCode : Bool) :
    Linearized ro randomCode [] (initSys randomCode) (initSys randomCode) [] where
  owned := owned_init randomCode
  lags := ⟨rfl, rfl, (owned_init randomCode).nodup, fun _ => id, fun hg => by simp [initSys] at hg⟩
  serial := .start
  done := List.Perm.refl _
  realTime := List.Pairwise.nil
  began := nofun
  failed h := by simp [initSys] at h
  underWay := nofun
  unique := List.Pairwise.nil
  ahead _ := ⟨List.prefix_refl _, fun i => by simp [Used, initSys]⟩

/-- A step that finishes nothing and makes nothing take effect. -/
theorem Linearized.quiet (h : Linearized ro randomCode tr s z L) (howned : Owned s')
    (hlags : Lags s' z) (hfinishes : finishes ro s l = none) (hused : usedBy s l = none)
    (hgrows : s.drv.gamesList <+: s'.drv.gamesList)
    (hbegan : ∀ {t user call highest}, s'.frames t = some (.locked user call highest none) →
      ((callHistory ro tr).next ro s l).began t = (callHistory ro tr).began t)
    (hframes : ∀ {t user call highest}, s'.frames t = some (.locked user call highest none) ↔
      s.frames t = some (.locked user call highest none)) :
    Linearized ro randomCode (tr ++ [(s, l)]) s' z L where
  owned := howned
  lags := hlags
  serial := h.serial
  done := by
    rw [callHistory_concat, done_next_of_none hfinishes]
    exact h.done
  realTime := h.realTime
  began i hi := by
    rw [callHistory_concat]
    exact Nat.le_succ_of_le (h.began i hi)
  failed hf := by
    rw [callHistory_concat, hbegan hf]
    exact h.failed (hframes.mp hf)
  underWay i hi hopen := by
    obtain ⟨t, user, call, highest, hf, hwhat⟩ := h.underWay i hi hopen
    exact ⟨t, user, call, highest, hframes.mpr hf, hwhat⟩
  unique := h.unique
  ahead hturn := (h.ahead hturn.of_concat).keep hused hgrows rfl

/-- One more call that has begun by now. -/
theorem forall_began_concat {x : Placed Act} (h : ∀ i ∈ L, i.began ≤ (callHistory ro tr).clock)
    (hx : x.began ≤ (callHistory ro tr).clock) :
    ∀ i ∈ L ++ [x], i.began ≤ (callHistory ro (tr ++ [(s, l)])).clock := by
  intro i hi
  rw [callHistory_concat]
  rcases List.mem_append.mp hi with hi | hi
  · exact Nat.le_succ_of_le (h i hi)
  · obtain rfl := List.mem_singleton.mp hi
    exact Nat.le_succ_of_le hx

/-- A step that makes an act take effect and finishes it. -/
theorem Linearized.act (h : Linearized ro randomCode tr s z L) {z' : Sys} {act : Act}
    (howned : Owned s') (hlags : Lags s' z')
    (hserial : SerialRun ro randomCode z' (L.map (·.what) ++ [act]))
    (hfinishes : finishes ro s l = some act)
    (hbegan : ((callHistory ro tr).next ro s l).began = (callHistory ro tr).began)
    (hframes : ∀ {t user call highest}, s'.frames t = some (.locked user call highest none) ↔
      s.frames t = some (.locked user call highest none))
    (hahead : InTurn (tr ++ [(s, l)]) → Ahead (tr ++ [(s, l)]) s' z') :
    Linearized ro randomCode (tr ++ [(s, l)]) s' z'
      (L ++ [⟨act, (callHistory ro tr).beganOf act.task, some (callHistory ro tr).clock⟩]) where
  owned := howned
  lags := hlags
  serial := by simpa using hserial
  done := by
    rw [callHistory_concat, done_next_of_some hfinishes, ended_concat_done rfl]
    exact h.done.append_right _
  realTime := h.realTime.concat h.began fun e he => (Option.some.inj he).symm
  began := forall_began_concat h.began (beganOf_le_clock ro tr act.task)
  failed hf := by
    rw [callHistory_concat, hbegan]
    exact List.mem_append_left _ (h.failed (hframes.mp hf))
  underWay i hi hopen := by
    rcases List.mem_append.mp hi with hi | hi
    · obtain ⟨t, user, call, highest, hf, hwhat⟩ := h.underWay i hi hopen
      exact ⟨t, user, call, highest, hframes.mpr hf, hwhat⟩
    · obtain rfl := List.mem_singleton.mp hi
      contradiction
  unique := by
    refine List.pairwise_append.mpr ⟨h.unique, List.pairwise_singleton _ _, ?_⟩
    intro i _ j hj _ hopen
    obtain rfl := List.mem_singleton.mp hj
    contradiction
  ahead := hahead

/-- `find_game` fails: the call takes effect, and is still under way. -/
theorem Linearized.noEntry (h : Linearized ro randomCode tr s z L) {t : Nat} {a : Allocation}
    {user : Kuid} {call : Call} {highest : Int}
    (hframe : s.frames t = some (.finding user call highest))
    (hnew : ∀ g ∈ s.drv.gamesList, g.playerId ≠ user) (hlock : s.lockHeld = false)
    (hs : step ro s (.find t a) = some { s with
      frames := Function.update s.frames t (some (.locked user call highest none)) }) :
    ∃ z' L', Linearized ro randomCode (tr ++ [(s, .find t a)]) { s with
      frames := Function.update s.frames t (some (.locked user call highest none)) } z' L' := by
  have hwhole : wholeCall ro z.drv user call ⟨false, none⟩ 0 =
      (z.drv, .ret (.error call.noEntry)) := wholeCall_failed (h.lags.new hnew)
  have hserial := h.serial.wholeCall (h.lags.lock.trans hlock) t user call ⟨false, none⟩ 0
  rw [hwhole] at hserial
  refine ⟨afterCall (z.drv, .ret (.error call.noEntry)),
    L ++ [⟨noEntryAct t user call, (callHistory ro tr).began t, none⟩], ?_⟩
  have hne : ∀ {u user' call' highest' curr},
      s.frames u = some (.locked user' call' highest' curr) → u ≠ t := by
    rintro u user' call' highest' curr hu rfl
    simp [hframe] at hu
  constructor
  case owned => exact h.owned.step hs
  case lags =>
    exact h.lags.of_update rfl (by simp [hframe]) rfl rfl h.lags.vars hlock.symm
  case serial => simpa [noEntryAct] using hserial
  case done =>
    rw [callHistory_concat, done_next_of_none rfl, ended_concat_open rfl]
    exact h.done
  case realTime => exact h.realTime.concat h.began nofun
  case began => exact forall_began_concat h.began (began_le_clock ro tr t)
  case failed =>
    intro u user' call' highest' hu
    rw [callHistory_concat]
    by_cases hut : u = t
    · subst hut
      obtain ⟨rfl, rfl, -⟩ := by simpa using hu
      exact List.mem_append_right _ (List.mem_singleton_self _)
    · exact List.mem_append_left _ (h.failed (by simpa [hut] using hu))
  case underWay =>
    intro i hi hopen
    rcases List.mem_append.mp hi with hi | hi
    · obtain ⟨u, user', call', highest', hu, hwhat⟩ := h.underWay i hi hopen
      exact ⟨u, user', call', highest', by simpa [hne hu]
        using hu, hwhat⟩
    · obtain rfl := List.mem_singleton.mp hi
      exact ⟨t, user, call, highest, by simp, rfl⟩
  case unique =>
    refine List.pairwise_append.mpr ⟨h.unique, List.pairwise_singleton _ _, ?_⟩
    intro i hi j hj hopen _ hsame
    obtain rfl := List.mem_singleton.mp hj
    obtain ⟨u, user', call', highest', hu, hwhat⟩ := h.underWay i hi hopen
    rw [hwhat] at hsame
    simp only [noEntryAct, Act.mk.injEq, Task.call.injEq] at hsame
    exact hne hu hsame.1.1
  case ahead => exact fun hturn => (h.ahead hturn.of_concat).keep rfl (List.prefix_refl _) rfl

/-- A call that has got no entry ends. -/
theorem Linearized.finish (h : Linearized ro randomCode tr s z L) {t : Nat}
    {rnd : Fin NUM_PEGS → UInt32} {user : Kuid} {call : Call} {highest : Int}
    (hframe : s.frames t = some (.locked user call highest none))
    (hs : step ro s (.main t rnd) = some { s with frames := Function.update s.frames t none }) :
    ∃ L', Linearized ro randomCode (tr ++ [(s, .main t rnd)])
      { s with frames := Function.update s.frames t none } z L' := by
  have hfinishes : finishes ro s (.main t rnd) = some (noEntryAct t user call) := by
    simp [finishes, hframe, Driver.withGame, noEntryAct]
  have hused : usedBy s (.main t rnd) = none := by simp [usedBy, hframe]
  obtain ⟨A, B, rfl⟩ := List.append_of_mem (h.failed hframe)
  obtain ⟨hA, hiB, hAB⟩ := List.pairwise_append.mp h.unique
  obtain ⟨hi, hB⟩ := List.pairwise_cons.mp hiB
  -- no other call under way is that of this thread
  have hother : ∀ j, j ∈ A ∨ j ∈ B → j.ended = none → ∀ {u user' call' highest'},
      s.frames u = some (.locked user' call' highest' none) → j.what = noEntryAct u user' call' →
      u ≠ t := by
    rintro j hj hopen u user' call' highest' hu hwhat rfl
    obtain ⟨rfl, rfl, -⟩ := by simpa [hframe] using hu
    rcases hj with hj | hj
    · exact hAB j hj _ (List.mem_cons_self ..) hopen rfl hwhat
    · exact hi j hj rfl hopen hwhat.symm
  have hmem : ∀ j, j ∈ A ∨ j ∈ B →
      j ∈ A ++ (⟨noEntryAct t user call, (callHistory ro tr).began t, none⟩ : Placed Act) :: B := by
    rintro j (hj | hj) <;> simp [hj]
  refine ⟨A ++ Placed.finish ⟨noEntryAct t user call, (callHistory ro tr).began t, none⟩
    (callHistory ro tr).clock :: B, ?_⟩
  constructor
  case owned => exact h.owned.step hs
  case lags => exact h.lags.of_update rfl (by simp [hframe]) rfl rfl h.lags.vars h.lags.lock
  case serial => simpa using h.serial
  case done =>
    rw [callHistory_concat, done_next_of_some hfinishes]
    exact (ended_finish rfl _).trans (h.done.append_right _)
  case realTime => exact h.realTime.finish fun j hj => h.began j (hmem j (.inl hj))
  case began =>
    have hle := forall_began_finish (P := (· ≤ (callHistory ro tr).clock)) h.began
      (callHistory ro tr).clock
    intro j hj
    rw [callHistory_concat]
    exact Nat.le_succ_of_le (hle j hj)
  case failed =>
    intro u user' call' highest' hu
    have hut : u ≠ t := by
      rintro rfl
      simp at hu
    rw [callHistory_concat]
    rcases List.mem_append.mp (h.failed (by simpa [hut] using hu)) with hj | hj
    · exact List.mem_append_left _ hj
    · rcases List.mem_cons.mp hj with hsame | hj
      · simp [noEntryAct, hut] at hsame
      · exact List.mem_append_right _ (List.mem_cons_of_mem _ hj)
  case underWay =>
    intro j hj hopen
    have hj' : j ∈ A ∨ j ∈ B := by
      rcases List.mem_append.mp hj with hj | hj
      · exact .inl hj
      · rcases List.mem_cons.mp hj with rfl | hj
        · contradiction
        · exact .inr hj
    obtain ⟨u, user', call', highest', hu, hwhat⟩ := h.underWay j (hmem j hj') hopen
    exact ⟨u, user', call', highest', by simpa [hother j hj' hopen hu hwhat] using hu, hwhat⟩
  case unique =>
    refine List.pairwise_append.mpr ⟨hA, List.pairwise_cons.mpr ⟨fun k _ hopen => ?_, hB⟩, ?_⟩
    · contradiction
    intro j hj k hk hopen hopen'
    rcases List.mem_cons.mp hk with rfl | hk
    · contradiction
    · exact hAB j hj k (List.mem_cons_of_mem _ hk) hopen hopen'
  case ahead => exact fun hturn => (h.ahead hturn.of_concat).keep hused (List.prefix_refl _) rfl

/-- The serial run is ahead after a section on one of its entries. -/
theorem Ahead.set (h : Ahead tr s z) {p q : Nat} {g g' : MmGame}
    (howned : Owned s) (hused : usedBy s l = some p) (hentry : s.drv.gamesList[p]? = some g)
    (hq : z.drv.gamesList[q]? = some g) (hs' : s'.drv.gamesList = s.drv.gamesList.set p g')
    {z' : Sys} (hz' : z'.drv.gamesList = z.drv.gamesList.set q g') :
    Ahead (tr ++ [(s, l)]) s' z' := by
  obtain ⟨⟨rest, hrest⟩, hlt⟩ := h
  have hqlt := (List.getElem?_eq_some_iff.mp hq).1
  have hqs : s.drv.gamesList[q]? = some g := by
    rw [← hrest, List.getElem?_append_left hqlt, hq]
  obtain rfl : q = p := howned.eq_of_playerId hqs hentry rfl
  refine ⟨⟨rest, ?_⟩, fun i => ?_⟩
  · rw [hs', hz', ← hrest, List.set_append_left q g' hqlt]
  · rw [used_concat, hused, hz', List.length_set, ← hlt]
    constructor
    · rintro (hi | hi)
      · exact hi
      · exact Option.some.inj hi ▸ (hlt q).mpr hqlt
    · exact .inl

/-- … and after one on the first entry that it has not got yet. -/
theorem Ahead.append (h : Ahead tr s z) {p : Nat} {g g' : MmGame} (hused : usedBy s l = some p)
    (hturn : ∀ i < p, Used tr i) (hentry : s.drv.gamesList[p]? = some g)
    (hnew : g ∉ z.drv.gamesList) (hs' : s'.drv.gamesList = s.drv.gamesList.set p g')
    {z' : Sys} (hz' : z'.drv.gamesList = z.drv.gamesList ++ [g']) :
    Ahead (tr ++ [(s, l)]) s' z' := by
  obtain ⟨⟨rest, hrest⟩, hlt⟩ := h
  have hle : z.drv.gamesList.length ≤ p := by
    by_contra hp
    rw [← hrest, List.getElem?_append_left (by omega)] at hentry
    exact hnew (List.mem_of_getElem? hentry)
  obtain rfl : p = z.drv.gamesList.length := by
    by_contra hne
    have := (hlt z.drv.gamesList.length).mp (hturn _ (by omega))
    omega
  rw [← hrest, List.getElem?_append_right (Nat.le_refl _), Nat.sub_self] at hentry
  rw [← List.head?_eq_getElem?] at hentry
  obtain ⟨rest', rfl⟩ := List.head?_eq_some_iff.mp hentry
  refine ⟨⟨rest', ?_⟩, fun i => ?_⟩
  · rw [hs', hz', ← hrest, List.set_append_right _ _ (Nat.le_refl _)]
    simp
  · rw [used_concat, hused, hz', List.length_append, hlt]
    simp only [Option.some.injEq, List.length_singleton]
    omega

/-- **A section takes effect.** -/
theorem Linearized.main (h : Linearized ro randomCode tr s z L) {t : Nat}
    {rnd : Fin NUM_PEGS → UInt32} {user : Kuid} {call : Call} {highest : Int} {p : Nat} {g : MmGame}
    (hbound : BoundInForce s (.main t rnd))
    (hframe : s.frames t = some (.locked user call highest (some p)))
    (hentry : s.drv.gamesList[p]? = some g) (hlock : s.lockHeld = false)
    (hs : step ro s (.main t rnd) = some (afterSection ro rnd s t call highest p g)) :
    ∃ z' L', Linearized ro randomCode (tr ++ [(s, .main t rnd)])
      (afterSection ro rnd s t call highest p g) z' L' := by
  obtain rfl : g.playerId = user := by
    obtain ⟨g', hg', huser⟩ := h.owned.pointer hframe
    rw [hentry] at hg'
    rwa [Option.some.inj hg']
  have hsection : call.section ro rnd (highestDigit z.drv.vars) z.drv.vars g =
      call.section ro rnd highest s.drv.vars g := by
    rw [h.lags.vars, section_congr hbound hframe hentry]
  have hfinishes : finishes ro s (.main t rnd) = some ⟨.call t g.playerId call,
      some (call.section ro rnd highest s.drv.vars g).result⟩ := by
    simp [finishes, hframe, Driver.withGame, hentry]
  have hused : usedBy s (.main t rnd) = some p := by simp [usedBy, hframe]
  have hframes : ∀ {u user call' highest'},
      (afterSection ro rnd s t call highest p g).frames u = some (.locked user call' highest' none) ↔
        s.frames u = some (.locked user call' highest' none) := by
    intro u user call' highest'
    by_cases hut : u = t
    · simp [afterSection, hut, hframe]
    · simp [afterSection, hut]
  have hzlock := h.lags.lock.trans hlock
  by_cases hg : g ∈ z.drv.gamesList
  · obtain ⟨q, hq⟩ := List.mem_iff_getElem?.mp hg
    have hserial := h.serial.wholeCall hzlock t g.playerId call ⟨false, none⟩ rnd
    rw [wholeCall_found h.lags.nodup hq, hsection] at hserial
    refine ⟨_, _, h.act (h.owned.step hs) (h.lags.main h.owned hframe hentry ?_ ?_) hserial hfinishes
      rfl hframes ?_⟩
    · rw [map_playerId_set hq (section_playerId ..)]
      exact h.lags.nodup
    · exact mem_set_iff h.lags.nodup hq
    · exact fun hturn => (h.ahead hturn.of_concat).set h.owned hused hentry hq rfl rfl
  · obtain ⟨page, -, -, -, hnew, -⟩ := (h.lags.fresh hentry).resolve_left hg
    have hnone : ∀ x ∈ z.drv.gamesList, x.playerId ≠ g.playerId := by
      intro x hx hid
      obtain rfl := h.owned.eq_of_mem (h.lags.sub x hx) hentry hid
      exact hg hx
    have hserial := h.serial.wholeCall hzlock t g.playerId call ⟨true, some page⟩ rnd
    rw [wholeCall_added hnone, ← hnew, hsection] at hserial
    refine ⟨_, _, h.act (h.owned.step hs) (h.lags.main h.owned hframe hentry ?_ ?_) hserial hfinishes
      rfl hframes ?_⟩
    · rw [List.map_append, List.map_singleton, section_playerId]
      refine List.nodup_append.mpr ⟨h.lags.nodup, List.nodup_singleton _, ?_⟩
      rintro _ hx _ hy rfl
      obtain ⟨x, hx, hid⟩ := List.mem_map.mp hx
      exact hnone x hx (hid.trans (List.mem_singleton.mp hy))
    · intro x
      rw [List.mem_append, List.mem_singleton, or_comm]
      exact or_congr_right ⟨fun hx => ⟨hx, hnone x hx⟩, And.left⟩
    · exact fun hturn => (h.ahead hturn.of_concat).append hused (hturn.last hused) hentry hg rfl rfl

/-- A thread starts where there is none. -/
theorem frame_of_start {t : Nat}
    (h : (∃ user call, Mastermind.step ro s (.enter t user call) = some s') ∨
      Mastermind.step ro s (.irq t) = some s') : s.frames t = none := by
  rcases h with ⟨user, call, h⟩ | h <;> simp only [Mastermind.step] at h <;> split at h
  · assumption
  · contradiction
  · assumption
  · contradiction

/-- A thread that comes from and goes to another place is not one without an entry. -/
theorem failed_update {t : Nat} {f : Option Frame}
    (ht : ∀ user call highest, s.frames t ≠ some (.locked user call highest none))
    (hf : ∀ user call highest, f ≠ some (.locked user call highest none)) {u : Nat} {user : Kuid}
    {call : Call} {highest : Int} :
    Function.update s.frames t f u = some (.locked user call highest none) ↔
      s.frames u = some (.locked user call highest none) := by
  by_cases hut : u = t
  · subst hut
    simp [ht, hf]
  · simp [hut]

/-- A thread that comes inside. -/
theorem Linearized.start (h : Linearized ro randomCode tr s z L) {t : Nat} {f : Frame}
    (hnone : s.frames t = none)
    (hf : ∀ user call highest, f ≠ .locked user call highest none)
    (hs : Mastermind.step ro s l = some { s with frames := Function.update s.frames t (some f) })
    (hfinishes : finishes ro s l = none) (hused : usedBy s l = none)
    (hbegan : ∀ u ≠ t,
      ((callHistory ro tr).next ro s l).began u = (callHistory ro tr).began u) :
    Linearized ro randomCode (tr ++ [(s, l)])
      { s with frames := Function.update s.frames t (some f) } z L := by
  have hother : ∀ {u : Nat} {user : Kuid} {call : Call} {highest : Int},
      Function.update s.frames t (some f) u = some (.locked user call highest none) → u ≠ t := by
    rintro u user call highest hu rfl
    exact hf _ _ _ (by simpa using hu)
  exact h.quiet (h.owned.step hs)
    (h.lags.of_update rfl (by simp [hnone]) rfl rfl h.lags.vars h.lags.lock) hfinishes hused
    (List.prefix_refl _) (fun hu => hbegan _ (hother hu))
    (failed_update (by simp [hnone]) (by simpa using hf))

/-- **One step.** -/
theorem Linearized.step (h : Linearized ro randomCode tr s z L) (hbound : BoundInForce s l)
    (hs : Mastermind.step ro s l = some s') :
    ∃ z' L', Linearized ro randomCode (tr ++ [(s, l)]) s' z' L' := by
  have howned := h.owned.step hs
  cases step_cases hs with
  | enter =>
      exact ⟨z, L, h.start (frame_of_start (.inl ⟨_, _, hs⟩)) (by simp) hs rfl rfl
        fun u hu => by simp [History.next, hu]⟩
  | @found t a user call highest p g hframe hentry huser hlock =>
      exact ⟨z, L, h.quiet howned
        (h.lags.of_update rfl (by simp [hframe]) rfl rfl h.lags.vars h.lags.lock) rfl rfl
        (List.prefix_refl _) (fun _ => rfl) (failed_update (by simp [hframe]) (by simp))⟩
  | @added t a user call highest page hframe hnew hlock =>
      exact ⟨z, L, h.quiet howned (h.lags.added hframe) rfl rfl (List.prefix_append _ _)
        (fun _ => rfl) (failed_update (by simp [hframe]) (by simp))⟩
  | failed hframe hnew hlock => exact h.noEntry hframe hnew hlock hs
  | @noEntry t rnd user call highest curr hframe hnull hlock =>
      cases curr with
      | none => exact ⟨z, h.finish hframe hs⟩
      | some p =>
          obtain ⟨g, hg, -⟩ := h.owned.pointer hframe
          simp [Driver.deref, hg] at hnull
  | main hframe hentry hlock => exact h.main hbound hframe hentry hlock hs
  | irq =>
      exact ⟨z, L, h.start (frame_of_start (.inr hs)) (by simp) hs rfl rfl
        fun u hu => by simp [History.next, hu]⟩
  | @bottom t highest packet hframe hlock =>
      have hserial := h.serial.handled (h.lags.lock.trans hlock) t packet
      have hvars : cs421netBottom (highestDigit z.drv.vars) packet z.drv.vars =
          cs421netBottom highest packet s.drv.vars := by
        rw [h.lags.vars]
        exact (cs421netBottom_congr (hbound highest hframe) _).symm
      refine ⟨_, _, h.act howned ?_ hserial rfl rfl (failed_update (by simp [hframe]) (by simp))
        fun hturn => (h.ahead hturn.of_concat).keep rfl (List.prefix_refl _) rfl⟩
      exact h.lags.of_update rfl (by simp [hframe]) rfl rfl hvars h.lags.lock
  | @setRandomCode b =>
      have hserial := h.serial.param (b := b) rfl
      refine ⟨_, _, h.act howned ?_ hserial rfl rfl Iff.rfl
        fun hturn => (h.ahead hturn.of_concat).keep rfl (List.prefix_refl _) rfl⟩
      exact ⟨by simp [h.lags.vars], h.lags.lock, h.lags.nodup, h.lags.sub, h.lags.fresh⟩

end linearized

/-- Every run whose sections judge the digits as under the number of colors in force has a
linearization. -/
theorem linearized_of_run {ro : Rodata} {randomCode : Bool} {tr : List (Sys × Label)} {s : Sys}
    (h : (driverWith ro randomCode).Run tr s) (hbound : ∀ p ∈ tr, BoundInForce p.1 p.2) :
    ∃ z L, Linearized ro randomCode tr s z L := by
  refine Machine.Run.invariant_of_steps (P := BoundInForce)
    (I := fun tr s => ∃ z L, Linearized ro randomCode tr s z L) ?_ ?_ h hbound
  · rintro s rfl
    exact ⟨_, _, linearized_init ro randomCode⟩
  · rintro tr s l s' ⟨z, L, hlin⟩ hP hs
    exact hlin.step hP hs

/-- Two states of the driver that no call tells apart: the order of the entries in the
list is not looked at. -/
def SameEntries (d d' : Driver) : Prop := d.vars = d'.vars ∧ d.gamesList.Perm d'.gamesList

/-- **When the calls are atomic.**  In every run that has come to rest and whose sections
judge the digits as under the number of colors in force, the calls could have been made
one after the other, with the same results and the same scalars and entries; if the
entries are used in the order in which they were added, also with the same list. -/
theorem serializable_of_run {ro : Rodata} {randomCode : Bool} {tr : List (Sys × Label)} {s : Sys}
    (h : (driverWith ro randomCode).Run tr s) (hrest : ∀ t, s.frames t = none)
    (hbound : ∀ p ∈ tr, BoundInForce p.1 p.2) :
    Serializable ro randomCode (fun d d' => SameEntries d d' ∧ (InTurn tr → d = d')) tr s := by
  obtain ⟨z, L, hlin⟩ := linearized_of_run h hbound
  have hended : ended L = L := ended_eq fun i hi hopen => by
    obtain ⟨t, user, call, highest, hf, -⟩ := hlin.underWay i hi hopen
    simp [hrest t] at hf
  have hmem : ∀ g, g ∈ z.drv.gamesList ↔ g ∈ s.drv.gamesList := by
    refine fun g => ⟨hlin.lags.sub g, fun hg => ?_⟩
    obtain ⟨p, hp⟩ := List.mem_iff_getElem?.mp hg
    rcases hlin.lags.fresh hp with hz | ⟨-, t, call, highest, -, hf⟩
    · exact hz
    · simp [hrest t] at hf
  have hperm : z.drv.gamesList.Perm s.drv.gamesList :=
    (List.perm_ext_iff_of_nodup hlin.lags.nodup.of_map hlin.owned.nodup.of_map).mpr hmem
  refine ⟨z, L, hlin.serial, hended ▸ hlin.done, hlin.realTime, hlin.lags.lock,
    ⟨hlin.lags.vars, hperm⟩, fun hturn => ?_⟩
  have hlist := (hlin.ahead hturn).1.eq_of_length hperm.length_eq
  calc z.drv = ⟨z.drv.vars, z.drv.gamesList⟩ := rfl
    _ = s.drv := by rw [hlin.lags.vars, hlist]

/-- An interrupt, a start and a guess that overlap. -/
def overlapping : List Label :=
  [.irq 0, .enter 1 1000 (ctlText "start" false), .enter 2 1001 (guessText "0123"),
    .find 2 clearPage, .find 1 clearPage, .main 1 0, .bottom 0 (some (ascii "4321")), .main 2 0]

theorem serializable_of_run_overlapping :
    ∃ s, (driverWith .zeros false).Run
        ((driverWith .zeros false).trace (initSys false) overlapping) s ∧
      Serializable .zeros false
        (fun d d' => SameEntries d d' ∧
          (InTurn ((driverWith .zeros false).trace (initSys false) overlapping) → d = d'))
        ((driverWith .zeros false).trace (initSys false) overlapping) s := by
  obtain ⟨s, hrun, hs⟩ := Machine.exists_run_of_exec (M := driverWith .zeros false)
    (s := initSys false) rfl overlapping
    (b := fun s => (List.range 3).all fun t => (s.frames t).isNone) (by decide +kernel)
  have hrest : ∀ t < 3, s.frames t = none := by simpa using hs
  have hbound : ∀ p ∈ (driverWith .zeros false).trace (initSys false) overlapping,
      ∀ t ∈ p.2.thread, ∀ f ∈ p.1.frames t, f.highest = highestDigit p.1.drv.vars := by
    decide +kernel
  exact ⟨s, hrun, serializable_of_run hrun (rest_of_run hrun (by decide +kernel) hrest)
    fun p hp => boundInForce_of_eq (hbound p hp)⟩

/-! ## the number of colors changes in the gap -/

/-- The scalars after a whole call are those after its section, or what they were. -/
theorem wholeCall_vars (ro : Rodata) (d : Driver) (user : Kuid) (call : Call) (a : Allocation)
    (rnd : Fin NUM_PEGS → UInt32) :
    ((wholeCall ro d user call a rnd).1.vars = d.vars ∧
      (wholeCall ro d user call a rnd).2 = .ret (.error call.noEntry)) ∨
    ∃ g, (wholeCall ro d user call a rnd).1.vars =
        (call.section ro rnd (highestDigit d.vars) d.vars g).vars ∧
      (wholeCall ro d user call a rnd).2 =
        (call.section ro rnd (highestDigit d.vars) d.vars g).result := by
  have hvars : (findGame user a d).1.vars = d.vars := by
    obtain ⟨p, g, -, -, hf⟩ | ⟨-, page, -, -, hf⟩ | ⟨-, -, hf⟩ := findGame_cases user a d <;> rw [hf]
  obtain ⟨-, hw⟩ | ⟨p, g, -, -, hw⟩ := withGame_cases (findGame user a d).1 call.noEntry
    (findGame user a d).2 (call.section ro rnd (highestDigit d.vars))
  · exact .inl ⟨by rw [wholeCall, hw, hvars], by rw [wholeCall, hw]⟩
  · exact .inr ⟨g, by rw [wholeCall, hw, hvars], by rw [wholeCall, hw, hvars]⟩

/-- A root user sets two colors. -/
def toTwoColors : Act := ⟨.call 1 0 (ctlText "colors 2" true), some (.ret (.ok 8))⟩

/-- A user starts a game. -/
def started : Act := ⟨.call 2 1000 (ctlText "start" false), some (.ret (.ok 5))⟩

/-- The handler gets a packet. -/
def packet5555 : Act := ⟨.handler 0 (some (ascii "5555")), none⟩

section gap

variable {z : Sys}

theorem vars_toTwoColors (acts : List Act) (h : SerialRun .zeros false z (acts ++ [toTwoColors])) :
    ∃ z₀, SerialRun .zeros false z₀ acts ∧ z.drv.vars = { z₀.drv.vars with numColors := 2 } := by
  obtain ⟨z₀, a, rnd, h₀, rfl, hr⟩ := h.last_call
  refine ⟨z₀, h₀, ?_⟩
  obtain ⟨-, he⟩ | ⟨g, hvars, -⟩ := wholeCall_vars .zeros z₀.drv 0 (ctlText "colors 2" true) a rnd
  · rw [he] at hr
    contradiction
  · rw [afterCall, hvars]
    have hsection : ∀ v, mmCtlWrite .zeros rnd
        ⟨ascii "colors 2", 8, Vector.replicate 8 0, true⟩ v g =
          ⟨{ v with numColors := 2 }, g, .ret (.ok 8)⟩ := fun v => rfl
    exact congrArg Outcome.vars (hsection _)

theorem vars_started (acts : List Act) (h : SerialRun .zeros false z (acts ++ [started])) :
    ∃ z₀, SerialRun .zeros false z₀ acts ∧ z.drv.vars.numColors = z₀.drv.vars.numColors ∧
      z.drv.vars.randomCode = z₀.drv.vars.randomCode ∧
      (z₀.drv.vars.randomCode = false → z.drv.vars.targetCode = fixedCode) := by
  obtain ⟨z₀, a, rnd, h₀, rfl, hr⟩ := h.last_call
  refine ⟨z₀, h₀, ?_⟩
  obtain ⟨-, he⟩ | ⟨g, hvars, -⟩ := wholeCall_vars .zeros z₀.drv 1000 (ctlText "start" false) a rnd
  · rw [he] at hr
    contradiction
  · have hsection : (ctlText "start" false).section .zeros rnd (highestDigit z₀.drv.vars)
        z₀.drv.vars g = startBranch rnd 5 z₀.drv.vars g := rfl
    rw [afterCall, hvars, hsection]
    refine ⟨startBranch_numColors .., startBranch_randomCode .., fun hfixed => ?_⟩
    rw [startBranch_targetCode, startCode, hfixed]
    rfl

theorem vars_packet5555 (acts : List Act) (h : SerialRun .zeros false z (acts ++ [packet5555])) :
    ∃ z₀, SerialRun .zeros false z₀ acts ∧ z.drv.vars.numColors = z₀.drv.vars.numColors ∧
      z.drv.vars.randomCode = z₀.drv.vars.randomCode ∧
      (z₀.drv.vars.numColors = 2 → z.drv.vars.targetCode = z₀.drv.vars.targetCode) := by
  obtain ⟨z₀, h₀, rfl⟩ := h.last_handler
  refine ⟨z₀, h₀, cs421netBottom_numColors .., cs421netBottom_randomCode .., fun htwo => ?_⟩
  have hinvalid : ¬ ValidPacket (highestDigit z₀.drv.vars) (some (ascii "5555")) := by
    rw [highestDigit, htwo]
    rintro ⟨data, hdata, -, hvalid⟩
    obtain rfl := Option.some.inj hdata
    revert hvalid
    decide
  obtain ⟨data, hdata, hlen, hvalid, -⟩ | ⟨-, hsame⟩ :=
    cs421netBottom_cases (highestDigit z₀.drv.vars) (some (ascii "5555")) z₀.drv.vars
  · exact absurd ⟨data, hdata, hlen, hvalid⟩ hinvalid
  · exact hsame

/-- In every serial order with the start after the change of the colors, the start has
the last word on the code. -/
theorem targetCode_of_serial {acts : List Act} (h : SerialRun .zeros false z acts)
    (horder : acts = [toTwoColors, started, packet5555] ∨
      acts = [toTwoColors, packet5555, started] ∨ acts = [packet5555, toTwoColors, started]) :
    z.drv.vars.targetCode = fixedCode := by
  rcases horder with rfl | rfl | rfl
  · obtain ⟨z₁, h₁, -, -, hcode⟩ := vars_packet5555 [toTwoColors, started] h
    obtain ⟨z₂, h₂, hcolors, -, hfixed⟩ := vars_started [toTwoColors] h₁
    obtain ⟨z₃, h₃, hvars⟩ := vars_toTwoColors [] h₂
    rw [h₃.eq_init] at hvars
    rw [hcode (by rw [hcolors, hvars]), hfixed (by rw [hvars]; rfl)]
  · obtain ⟨z₁, h₁, -, -, hfixed⟩ := vars_started [toTwoColors, packet5555] h
    obtain ⟨z₂, h₂, -, hrandom, -⟩ := vars_packet5555 [toTwoColors] h₁
    obtain ⟨z₃, h₃, hvars⟩ := vars_toTwoColors [] h₂
    rw [h₃.eq_init] at hvars
    exact hfixed (by rw [hrandom, hvars]; rfl)
  · obtain ⟨z₁, h₁, -, -, hfixed⟩ := vars_started [packet5555, toTwoColors] h
    obtain ⟨z₂, h₂, hvars⟩ := vars_toTwoColors [packet5555] h₁
    obtain ⟨z₃, h₃, -, hrandom, -⟩ := vars_packet5555 [] h₂
    rw [h₃.eq_init] at hrandom
    exact hfixed (by rw [hvars]; exact hrandom)

end gap

/-- The orders of three operations. -/
theorem eq_of_perm_three {α : Type*} {l : List α} {a b c : α} (h : l.Perm [a, b, c]) :
    l = [a, b, c] ∨ l = [b, a, c] ∨ l = [c, b, a] ∨ l = [b, c, a] ∨ l = [c, a, b] ∨
      l = [a, c, b] := by
  simpa [List.permutations, List.permutationsAux_cons, List.permutationsAux_nil,
    List.permutationsAux2] using List.mem_permutations.mpr h

/-- The handler has read the number of colors; then it is set to two, a game is started,
and only then the handler gets the lock. -/
def colorsInTheGap : List Label :=
  [.irq 0, .enter 1 0 (ctlText "colors 2" true), .find 1 clearPage, .main 1 0,
    .enter 2 1000 (ctlText "start" false), .find 2 clearPage, .main 2 0,
    .bottom 0 (some (ascii "5555"))]

theorem done_colorsInTheGap :
    (callHistory .zeros ((driverWith .zeros false).trace (initSys false) colorsInTheGap)).done =
      [⟨toTwoColors, 1, some 3⟩, ⟨started, 4, some 6⟩, ⟨packet5555, 0, some 7⟩] := rfl

/-- The interleaving is not serializable: it ends with the code 5555. -/
theorem not_serializable :
    ∃ tr s, (driverWith .zeros false).Run tr s ∧ (∀ t, s.frames t = none) ∧
      ¬ Serializable .zeros false SameEntries tr s := by
  obtain ⟨s, hrun, hs⟩ := Machine.exists_run_of_exec (M := driverWith .zeros false)
    (s := initSys false) rfl colorsInTheGap
    (b := fun s => ((List.range 3).all fun t => (s.frames t).isNone) &&
      s.drv.vars.targetCode != fixedCode) (by decide +kernel)
  obtain ⟨hrest, hcode⟩ := by simpa using hs
  refine ⟨_, s, hrun, rest_of_run hrun (n := 3) (by decide +kernel) hrest, ?_⟩
  rintro ⟨z, order, hserial, hperm, hreal, -, hsame, -⟩
  rw [done_colorsInTheGap] at hperm
  refine hcode (hsame ▸ targetCode_of_serial hserial ?_)
  rcases eq_of_perm_three hperm with rfl | rfl | rfl | rfl | rfl | rfl <;> simp [RealTime] at hreal ⊢

end Cmsc421.Mastermind
