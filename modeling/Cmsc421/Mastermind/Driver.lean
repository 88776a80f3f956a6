import Cmsc421.Run
import Cmsc421.Mastermind.Guess
import Cmsc421.Mastermind.Control
import Cmsc421.Mastermind.Status
import Cmsc421.Mastermind.Packet

/-!
# Cmsc421.Mastermind.Driver

The driver under any number of concurrent calls.

A call of a user is three steps: `enter`, the part before any lock is taken, in
which `mm_write` reads `NUM_COLORS`; `find`, the locked section of `find_game`;
and `main`, the call's own locked section.  The interrupt handler is two steps,
`irq` and `bottom`.  The steps of different threads interleave in any order,
and the labels carry what the environment decides: which thread moves, the
outcome of the allocations, the random words, the packet.

A division by zero inside a locked section traps: the thread is gone and the
spinlock stays taken, so that no locked section runs any more.

`step_cases` says all that a step can do; every invariant of the driver is
derived from it.
-/

namespace Cmsc421.Mastermind

/-- A call of a user, with its arguments. -/
inductive Call
  | read (a : ReadArgs)
  | mmap (a : MmapArgs)
  | write (ubuf : List UInt8) (count : Nat)
  | ctlWrite (c : CtlWrite)

/-- A thread in the middle of a call or of the interrupt handler, with the value
it has read into `highest_digit` (of which only `mm_write` and the handler make
use). -/
inductive Frame
  | finding (user : Kuid) (call : Call) (highest : Int)
  | locked (user : Kuid) (call : Call) (highest : Int) (curr : Option Nat)
  | bottom (highest : Int)

/-- The driver, its spinlock, and the threads inside it. -/
structure Sys where
  drv : Driver
  lockHeld : Bool
  frames : Nat → Option Frame

/-- The steps. -/
inductive Label
  | enter (t : Nat) (user : Kuid) (call : Call)
  | find (t : Nat) (a : Allocation)
  | main (t : Nat) (rnd : Fin NUM_PEGS → UInt32)
  | irq (t : Nat)
  | bottom (t : Nat) (packet : Option (List UInt8))
  | setRandomCode (b : Bool)

/-- The locked section of a call. -/
def Call.section (ro : Rodata) (rnd : Fin NUM_PEGS → UInt32) (highest : Int) :
    Call → Vars → MmGame → Outcome
  | .read a => mmRead a
  | .mmap a => mmMmap a
  | .write ubuf count => mmWrite highest ubuf count
  | .ctlWrite c => mmCtlWrite ro rnd c

/-- What a call returns when `find_game` has returned `NULL`. -/
def Call.noEntry : Call → Errno
  | .mmap _ => .EAGAIN
  | .read _ | .write _ _ | .ctlWrite _ => .EINVAL

/-- One step. -/
def step (ro : Rodata) (s : Sys) : Label → Option Sys
  | .enter t user call =>
      match s.frames t with
      | none =>
          some { s with
            frames := Function.update s.frames t
              (some (.finding user call (highestDigit s.drv.vars))) }
      | some _ => none
  | .find t a =>
      match s.lockHeld, s.frames t with
      | false, some (.finding user call highest) =>
          some { s with
            drv := (findGame user a s.drv).1
            frames := Function.update s.frames t
              (some (.locked user call highest (findGame user a s.drv).2)) }
      | _, _ => none
  | .main t rnd =>
      match s.lockHeld, s.frames t with
      | false, some (.locked _ call highest curr) =>
          let r := s.drv.withGame call.noEntry curr (call.section ro rnd highest)
          some { drv := r.1
                 lockHeld := r.2 == .trap
                 frames := Function.update s.frames t none }
      | _, _ => none
  | .irq t =>
      match s.frames t with
      | none =>
          some { s with
            frames := Function.update s.frames t (some (.bottom (highestDigit s.drv.vars))) }
      | some _ => none
  | .bottom t packet =>
      match s.lockHeld, s.frames t with
      | false, some (.bottom highest) =>
          some { s with
            drv := { s.drv with vars := cs421netBottom highest packet s.drv.vars }
            frames := Function.update s.frames t none }
      | _, _ => none
  | .setRandomCode b =>
      some { s with drv := { s.drv with vars := { s.drv.vars with randomCode := b } } }

/-- The driver right after it is loaded. -/
def initSys (randomCode : Bool) : Sys := ⟨⟨initVars randomCode, []⟩, false, fun _ => none⟩

/-- The machine of the driver. -/
def driver (ro : Rodata) : Machine Sys Label where
  init s := ∃ randomCode, s = initSys randomCode
  step := step ro

/-! ## whole calls -/

/-- A write of a text to `/dev/mm_ctl`, over a cleared stack. -/
def ctlText (text : String) (capSysAdmin : Bool) : Call :=
  .ctlWrite ⟨ascii text, (ascii text).length, Vector.replicate 8 0, capSysAdmin⟩

/-- A write of a text to `/dev/mm`. -/
def guessText (text : String) : Call := .write (ascii text) (ascii text).length

/-- Both allocations succeed, with a cleared page. -/
def clearPage : Allocation := ⟨true, some (Vector.replicate PAGE_SIZE 0)⟩

/-- The three steps of a call with nothing in between. -/
def callSteps (t : Nat) (user : Kuid) (call : Call) (rnd : Fin NUM_PEGS → UInt32) : List Label :=
  [.enter t user call, .find t clearPage, .main t rnd]

/-! ## what a step can do -/

/-- The state after the locked section of a call on the entry `g` at `p`. -/
def afterSection (ro : Rodata) (rnd : Fin NUM_PEGS → UInt32) (s : Sys) (t : Nat) (call : Call)
    (highest : Int) (p : Nat) (g : MmGame) : Sys where
  drv :=
    { vars := (call.section ro rnd highest s.drv.vars g).vars
      gamesList := s.drv.gamesList.set p (call.section ro rnd highest s.drv.vars g).game }
  lockHeld := (call.section ro rnd highest s.drv.vars g).result == .trap
  frames := Function.update s.frames t none

/-- The state after `find_game` has added an entry for `user`. -/
def afterAdd (s : Sys) (t : Nat) (user : Kuid) (call : Call) (highest : Int)
    (page : Vector UInt8 PAGE_SIZE) : Sys :=
  { s with
    drv := { s.drv with gamesList := s.drv.gamesList ++ [newGame user page.toList] }
    frames := Function.update s.frames t
      (some (.locked user call highest (some s.drv.gamesList.length))) }

/-- The state after the handler has looked at a packet. -/
def afterPacket (s : Sys) (t : Nat) (highest : Int) (packet : Option (List UInt8)) : Sys :=
  { s with
    drv := { s.drv with vars := cs421netBottom highest packet s.drv.vars }
    frames := Function.update s.frames t none }

/-- **All that a step can do**, by what the code did: a thread enters a call or
the handler; `find_game` finds an entry, adds one or fails; a call returns
an error for want of an entry, or runs its section on the entry; the handler
looks at a packet; root writes the module parameter. -/
inductive Effect (ro : Rodata) (s : Sys) : Label → Sys → Prop
  | enter {t : Nat} {user : Kuid} {call : Call} :
      Effect ro s (.enter t user call)
        { s with
          frames := Function.update s.frames t
            (some (.finding user call (highestDigit s.drv.vars))) }
  | found {t : Nat} {a : Allocation} {user : Kuid} {call : Call} {highest : Int} {p : Nat}
      {g : MmGame} (hframe : s.frames t = some (.finding user call highest))
      (hentry : s.drv.gamesList[p]? = some g) (huser : g.playerId = user)
      (hlock : s.lockHeld = false) :
      Effect ro s (.find t a)
        { s with frames := Function.update s.frames t (some (.locked user call highest (some p))) }
  | added {t : Nat} {a : Allocation} {user : Kuid} {call : Call} {highest : Int}
      {page : Vector UInt8 PAGE_SIZE} (hframe : s.frames t = some (.finding user call highest))
      (hnew : ∀ g ∈ s.drv.gamesList, g.playerId ≠ user) (hlock : s.lockHeld = false) :
      Effect ro s (.find t a) (afterAdd s t user call highest page)
  | failed {t : Nat} {a : Allocation} {user : Kuid} {call : Call} {highest : Int}
      (hframe : s.frames t = some (.finding user call highest))
      (hnew : ∀ g ∈ s.drv.gamesList, g.playerId ≠ user) (hlock : s.lockHeld = false) :
      Effect ro s (.find t a)
        { s with frames := Function.update s.frames t (some (.locked user call highest none)) }
  | noEntry {t : Nat} {rnd : Fin NUM_PEGS → UInt32} {user : Kuid} {call : Call} {highest : Int}
      {curr : Option Nat} (hframe : s.frames t = some (.locked user call highest curr))
      (hnull : s.drv.deref curr = none) (hlock : s.lockHeld = false) :
      Effect ro s (.main t rnd) { s with frames := Function.update s.frames t none }
  | main {t : Nat} {rnd : Fin NUM_PEGS → UInt32} {user : Kuid} {call : Call} {highest : Int}
      {p : Nat} {g : MmGame} (hframe : s.frames t = some (.locked user call highest (some p)))
      (hentry : s.drv.gamesList[p]? = some g) (hlock : s.lockHeld = false) :
      Effect ro s (.main t rnd) (afterSection ro rnd s t call highest p g)
  | irq {t : Nat} :
      Effect ro s (.irq t)
        { s with
          frames := Function.update s.frames t (some (.bottom (highestDigit s.drv.vars))) }
  | bottom {t : Nat} {highest : Int} {packet : Option (List UInt8)}
      (hframe : s.frames t = some (.bottom highest)) (hlock : s.lockHeld = false) :
      Effect ro s (.bottom t packet) (afterPacket s t highest packet)
  | setRandomCode {b : Bool} :
      Effect ro s (.setRandomCode b)
        { s with drv := { s.drv with vars := { s.drv.vars with randomCode := b } } }

/-- Every step has one of the effects. -/
theorem step_cases {ro : Rodata} {s s' : Sys} {l : Label} (h : step ro s l = some s') :
    Effect ro s l s' := by
  cases l with
  | enter t user call =>
      simp only [step] at h
      split at h
      · obtain rfl := Option.some.inj h
        exact .enter
      · contradiction
  | find t a =>
      simp only [step] at h
      split at h
      · next user call highest hl hframe =>
          obtain rfl := Option.some.inj h
          obtain ⟨p, g, hentry, huser, hf⟩ | ⟨hnew, page, -, -, hf⟩ | ⟨hnew, -, hf⟩ :=
            findGame_cases user a s.drv
          · rw [hf]
            exact .found hframe hentry huser hl
          · rw [hf]
            exact .added hframe hnew hl
          · rw [hf]
            exact .failed hframe hnew hl
      · contradiction
  | main t rnd =>
      simp only [step] at h
      split at h
      · next user call highest curr hl hframe =>
          obtain rfl := Option.some.inj h
          obtain ⟨hnull, hw⟩ | ⟨p, g, rfl, hentry, hw⟩ :=
            withGame_cases s.drv call.noEntry curr (call.section ro rnd highest)
          · rw [hw]
            convert Effect.noEntry hframe hnull hl
            exact hl.symm
          · rw [hw]
            exact .main hframe hentry hl
      · contradiction
  | irq t =>
      simp only [step] at h
      split at h
      · obtain rfl := Option.some.inj h
        exact .irq
      · contradiction
  | bottom t packet =>
      simp only [step] at h
      split at h
      · next highest hl hframe =>
          obtain rfl := Option.some.inj h
          exact .bottom hframe hl
      · contradiction
  | setRandomCode b =>
      obtain rfl := Option.some.inj h
      exact .setRandomCode

/-- No call changes the owner of an entry. -/
@[simp] theorem section_playerId (ro : Rodata) (rnd : Fin NUM_PEGS → UInt32) (highest : Int)
    (call : Call) (v : Vars) (g : MmGame) :
    (call.section ro rnd highest v g).game.playerId = g.playerId := by
  cases call with
  | read a => rfl
  | mmap a => rfl
  | write ubuf count => exact mmWrite_playerId _ _ _ _ _
  | ctlWrite c => exact mmCtlWrite_playerId _ _ _ _ _

/-! ## one entry for each player -/

/-- The list has one entry for each player, and a thread that holds a pointer
holds that of its own user. -/
structure Owned (s : Sys) : Prop where
  nodup : (s.drv.gamesList.map (·.playerId)).Nodup
  pointer : ∀ {t : Nat} {user : Kuid} {call : Call} {highest : Int} {p : Nat},
    s.frames t = some (.locked user call highest (some p)) →
    ∃ g : MmGame, s.drv.gamesList[p]? = some g ∧ g.playerId = user

/-- Where the players differ, two entries of one player are the same entry. -/
theorem eq_of_nodup_playerId {games : List MmGame} (hnodup : (games.map (·.playerId)).Nodup)
    {i j : Nat} {g g' : MmGame} (hi : games[i]? = some g) (hj : games[j]? = some g')
    (hid : g.playerId = g'.playerId) : i = j := by
  have hmap : (games.map (·.playerId))[i]? = (games.map (·.playerId))[j]? := by simp [hi, hj, hid]
  have hlt : i < (games.map (·.playerId)).length := by
    simpa using (List.getElem?_eq_some_iff.mp hi).1
  exact (List.getElem?_inj hlt hnodup).mp hmap

/-- Two entries of one player are the same entry. -/
theorem Owned.eq_of_playerId {s : Sys} (h : Owned s) {i j : Nat} {g g' : MmGame}
    (hi : s.drv.gamesList[i]? = some g) (hj : s.drv.gamesList[j]? = some g')
    (hid : g.playerId = g'.playerId) : i = j := eq_of_nodup_playerId h.nodup hi hj hid

theorem Owned.eq_of_mem {s : Sys} (h : Owned s) {x g : MmGame} (hx : x ∈ s.drv.gamesList) {p : Nat}
    (hentry : s.drv.gamesList[p]? = some g) (hid : x.playerId = g.playerId) : x = g :=
  List.inj_on_of_nodup_map h.nodup hx (List.mem_of_getElem? hentry) hid

/-- An entry that is replaced by one of the same player keeps the owners in place. -/
theorem map_playerId_set {games : List MmGame} {p : Nat} {g g' : MmGame} (hentry : games[p]? = some g)
    (hid : g'.playerId = g.playerId) :
    (games.set p g').map (·.playerId) = games.map (·.playerId) := by
  obtain ⟨hlt, hg⟩ := List.getElem?_eq_some_iff.mp hentry
  have hlt' : p < (games.map (·.playerId)).length := by simpa using hlt
  have hp : g.playerId = (games.map (·.playerId))[p] := by simp [hg]
  rw [List.map_set, hid, hp, List.set_getElem_self]

/-- A locked section keeps the owners in place. -/
theorem map_playerId_afterSection {ro : Rodata} {rnd : Fin NUM_PEGS → UInt32} {s : Sys} {t : Nat}
    {call : Call} {highest : Int} {p : Nat} {g : MmGame} (hentry : s.drv.gamesList[p]? = some g) :
    (afterSection ro rnd s t call highest p g).drv.gamesList.map (·.playerId) =
      s.drv.gamesList.map (·.playerId) := map_playerId_set hentry (section_playerId ..)

/-- Each entry of the list after a locked section is an old one with the same
owner at the same place, or the entry of the section. -/
theorem getElem?_afterSection {ro : Rodata} {rnd : Fin NUM_PEGS → UInt32} {s : Sys} {t : Nat}
    {call : Call} {highest : Int} {p : Nat} {g : MmGame} (hentry : s.drv.gamesList[p]? = some g)
    (i : Nat) :
    (afterSection ro rnd s t call highest p g).drv.gamesList[i]? =
      if i = p then some (call.section ro rnd highest s.drv.vars g).game
      else s.drv.gamesList[i]? := by
  obtain ⟨hlt, -⟩ := List.getElem?_eq_some_iff.mp hentry
  simp only [afterSection, List.getElem?_set]
  by_cases hi : i = p
  · subst hi; simp [hlt]
  · simp [hi, Ne.symm hi]

/-- A pointer into the list survives a step that keeps the entries' owners in
place and hands out only good pointers. -/
private theorem Owned.of_update {s s' : Sys} (h : Owned s) {t : Nat} {f : Option Frame}
    (hframes : s'.frames = Function.update s.frames t f)
    (hkeep : ∀ {p : Nat} {g : MmGame}, s.drv.gamesList[p]? = some g →
      ∃ g' : MmGame, s'.drv.gamesList[p]? = some g' ∧ g'.playerId = g.playerId)
    (hnodup : (s'.drv.gamesList.map (·.playerId)).Nodup)
    (hf : ∀ {user : Kuid} {call : Call} {highest : Int} {p : Nat},
      f = some (.locked user call highest (some p)) →
      ∃ g : MmGame, s'.drv.gamesList[p]? = some g ∧ g.playerId = user) : Owned s' where
  nodup := hnodup
  pointer {u user call highest p} hu := by
    rw [hframes] at hu
    by_cases hut : u = t
    · subst hut
      exact hf (by simpa using hu)
    · obtain ⟨g, hg, huser⟩ := h.pointer (by simpa [hut] using hu)
      obtain ⟨g', hg', hid⟩ := hkeep hg
      exact ⟨g', hg', hid.trans huser⟩

/-- One step preserves the ownership of entries. -/
theorem Owned.step {ro : Rodata} {s s' : Sys} {l : Label} (h : Owned s)
    (hs : Mastermind.step ro s l = some s') : Owned s' := by
  cases step_cases hs with
  | enter => exact h.of_update rfl (fun hg => ⟨_, hg, rfl⟩) h.nodup nofun
  | found hframe hentry huser =>
      refine h.of_update rfl (fun hg => ⟨_, hg, rfl⟩) h.nodup fun hf => ?_
      obtain ⟨rfl, -, -, rfl⟩ := by simpa using hf
      exact ⟨_, hentry, huser⟩
  | @added t a user call highest page hframe hnew =>
      refine h.of_update rfl (fun {p g} hg => ⟨g, ?_, rfl⟩) ?_ fun hf => ?_
      · have hlt := (List.getElem?_eq_some_iff.mp hg).1
        simpa [afterAdd, List.getElem?_append_left hlt] using hg
      · simp only [afterAdd, List.map_append, List.map_cons, List.map_nil]
        refine List.nodup_append.mpr ⟨h.nodup, by simp, ?_⟩
        rintro x hx y hy rfl
        obtain ⟨g, hg, hgx⟩ := List.mem_map.mp hx
        obtain rfl := List.mem_singleton.mp hy
        exact hnew g hg hgx
      · obtain ⟨rfl, -, -, rfl⟩ := by simpa using hf
        exact ⟨newGame user page.toList, by simp [afterAdd], rfl⟩
  | failed => exact h.of_update rfl (fun hg => ⟨_, hg, rfl⟩) h.nodup nofun
  | noEntry => exact h.of_update rfl (fun hg => ⟨_, hg, rfl⟩) h.nodup nofun
  | @main t rnd user call highest p g hframe hentry =>
      refine h.of_update rfl (fun {i g'} hg => ?_) ?_ nofun
      · rw [getElem?_afterSection hentry]
        by_cases hi : i = p
        · subst hi
          obtain rfl : g = g' := Option.some.inj (hentry.symm.trans hg)
          exact ⟨_, if_pos rfl, section_playerId ..⟩
        · exact ⟨g', by rw [if_neg hi, hg], rfl⟩
      · rw [map_playerId_afterSection hentry]
        exact h.nodup
  | irq => exact h.of_update rfl (fun hg => ⟨_, hg, rfl⟩) h.nodup nofun
  | bottom => exact h.of_update rfl (fun hg => ⟨_, hg, rfl⟩) h.nodup nofun
  | setRandomCode => exact ⟨h.nodup, h.pointer⟩

theorem owned_init (randomCode : Bool) : Owned (initSys randomCode) where
  nodup := by simp [initSys]
  pointer h := by simp [initSys] at h

/-- Entries are owned in every reachable state. -/
theorem owned_of_run {ro : Rodata} {tr : List (Sys × Label)} {s : Sys} (h : (driver ro).Run tr s) :
    Owned s := by
  refine Machine.Run.invariant (I := fun _ s => Owned s) ?_ (fun _ _ _ _ hI hs => hI.step hs) h
  rintro s ⟨randomCode, rfl⟩
  exact owned_init randomCode

end Cmsc421.Mastermind
