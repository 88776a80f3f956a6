import Cmsc421.Mastermind.Driver
import Mathlib.Data.List.Induction

/-!
# Cmsc421.Mastermind.Ledger

What the entry of a player says about the player's history.

`observe` names what a step of the driver did for its user: a start, a quit, or
an accepted guess together with the code it was scored against.  `Player` is the
game of one player by itself, driven by these events; `replay` is its state
after a history, and `playing_iff` and `replay_guesses` read it back in terms of
the history alone.  The driver refines it: `Ledger` relates every entry of
`games_list` to the replay of its owner's events, in every reachable state.
-/

namespace Cmsc421.Mastermind

/-! ## events -/

/-- What a locked section did for its user. -/
inductive Event
  | start (user : Kuid)
  | quit (user : Kuid)
  | guess (user : Kuid) (guess target : Code)
  deriving DecidableEq

/-- The user an event is about. -/
def Event.user : Event → Kuid
  | .start u => u
  | .quit u => u
  | .guess u _ _ => u

/-- The event of a call that runs on the entry `g`: the command branch that is
taken, or a guess that is answered with its byte count. -/
def Call.event (ro : Rodata) (user : Kuid) (highest : Int) (v : Vars) (g : MmGame) :
    Call → Option Event
  | .read _ => none
  | .mmap _ => none
  | .write ubuf count =>
      if (mmWrite highest ubuf count v g).result = .ret (.ok count) then
        some (.guess user (guessDigits ubuf) v.targetCode)
      else none
  | .ctlWrite c =>
      if Takes ro c .start then some (.start user)
      else if Takes ro c .quit then some (.quit user)
      else none

/-- The event of a step. -/
def observe (ro : Rodata) (s : Sys) : Label → Option Event
  | .main t _ =>
      match s.frames t with
      | some (.locked user call highest curr) =>
          (s.drv.deref curr).bind fun g => call.event ro user highest s.drv.vars g
      | _ => none
  | _ => none

/-- The events of a run, in order. -/
def history (ro : Rodata) (tr : List (Sys × Label)) : List Event :=
  tr.filterMap fun p => observe ro p.1 p.2

theorem history_concat (ro : Rodata) (tr : List (Sys × Label)) (s : Sys) (l : Label) :
    history ro (tr ++ [(s, l)]) = history ro tr ++ (observe ro s l).toList := by
  cases h : observe ro s l <;> simp [history, h]

/-! ## the game of one player -/

/-- The game of a player: whether one is on, and the guesses since it began. -/
structure Player where
  active : Prop
  guesses : Nat

/-- A player's game before any event. -/
def Player.idle : Player := ⟨False, 0⟩

/-- One event in the game of player `u`. -/
def Player.next (u : Kuid) (p : Player) : Event → Player
  | .start v => if v = u then ⟨True, 0⟩ else p
  | .quit v => if v = u then ⟨False, p.guesses⟩ else p
  | .guess v guess target => if v = u then ⟨p.active ∧ guess ≠ target, p.guesses + 1⟩ else p

/-- The game of player `u` after a history. -/
def replay (u : Kuid) (h : List Event) : Player := h.foldl (Player.next u) .idle

@[simp] theorem replay_nil (u : Kuid) : replay u [] = .idle := rfl

@[simp] theorem replay_concat (u : Kuid) (h : List Event) (e : Event) :
    replay u (h ++ [e]) = (replay u h).next u e := by simp [replay]

/-- Events of others do not matter. -/
theorem Player.next_of_ne {u : Kuid} {e : Event} (h : e.user ≠ u) (p : Player) : p.next u e = p := by
  cases e <;> exact if_neg h

/-- `u` is playing: there is a start, after which `u` has neither started again
nor quit nor guessed the code that was in force. -/
def Playing (u : Kuid) (h : List Event) : Prop :=
  ∃ before after, h = before ++ .start u :: after ∧
    ∀ e ∈ after, e ≠ .start u ∧ e ≠ .quit u ∧ ∀ code, e ≠ .guess u code code

/-- The guesses of `u` since the latest start, or since ever if there is none. -/
def guessesSinceStart (u : Kuid) (h : List Event) : Nat :=
  (h.reverse.takeWhile fun e => match e with | .start v => v ≠ u | _ => true).countP
    fun e => match e with | .guess v _ _ => v = u | _ => false

theorem playing_concat (u : Kuid) (h : List Event) (e : Event) :
    Playing u (h ++ [e]) ↔
      e = .start u ∨ (Playing u h ∧ e ≠ .quit u ∧ ∀ code, e ≠ .guess u code code) := by
  constructor
  · rintro ⟨before, after, heq, hafter⟩
    rcases List.eq_nil_or_concat after with rfl | ⟨after', e', rfl⟩
    · obtain ⟨-, he⟩ := List.append_inj' heq rfl
      exact .inl (by simpa using he)
    · rw [List.concat_eq_append, ← List.cons_append, ← List.append_assoc] at heq
      obtain ⟨rfl, he⟩ := List.append_inj' heq rfl
      obtain rfl : e = e' := by simpa using he
      refine .inr ⟨⟨before, after', rfl, fun x hx => hafter x ?_⟩, (hafter e ?_).2⟩ <;>
        simp [*]
  · rintro (rfl | ⟨⟨before, after, rfl, hafter⟩, hq, hg⟩)
    · exact ⟨h, [], rfl, nofun⟩
    · by_cases hs : e = .start u
      · subst hs
        exact ⟨before ++ .start u :: after, [], rfl, nofun⟩
      · refine ⟨before, after ++ [e], by simp, fun x hx => ?_⟩
        rcases List.mem_append.mp hx with hx | hx
        · exact hafter x hx
        · obtain rfl := List.mem_singleton.mp hx
          exact ⟨hs, hq, hg⟩

/-- The replayed game is on exactly while the player is playing. -/
theorem playing_iff (u : Kuid) (h : List Event) : (replay u h).active ↔ Playing u h := by
  induction h using List.reverseRecOn with
  | nil => simp [Playing, Player.idle]
  | append_singleton h e ih =>
      rw [replay_concat, playing_concat, ← ih]
      cases e with
      | start v => by_cases hv : v = u <;> simp [Player.next, hv]
      | quit v => by_cases hv : v = u <;> simp [Player.next, hv]
      | guess v guess target =>
          by_cases hv : v = u
          · simp only [Player.next, hv, if_true, reduceCtorEq, false_or, ne_eq, not_false_iff,
              true_and, Event.guess.injEq, not_and]
            refine and_congr_right fun _ => ⟨fun hne code hg ht => hne (hg.trans ht.symm), ?_⟩
            intro hne heq
            exact hne target heq rfl
          · simp [Player.next, hv]

/-- The replayed game counts the guesses since the latest start. -/
theorem replay_guesses (u : Kuid) (h : List Event) :
    (replay u h).guesses = guessesSinceStart u h := by
  induction h using List.reverseRecOn with
  | nil => rfl
  | append_singleton h e ih =>
      rw [replay_concat]
      simp only [guessesSinceStart, List.reverse_append, List.reverse_cons, List.reverse_nil,
        List.nil_append, List.singleton_append, List.takeWhile_cons] at ih ⊢
      cases e with
      | start v => by_cases hv : v = u <;> simp [Player.next, hv, ih]
      | quit v => by_cases hv : v = u <;> simp [Player.next, hv, ih]
      | guess v guess target => by_cases hv : v = u <;> simp [Player.next, hv, ih]

/-! ## the driver refines it -/

/-- An entry shows the state of a player's game, the counter modulo `2 ^ 32`. -/
def Shows (g : MmGame) (p : Player) : Prop :=
  (g.gameActive = true ↔ p.active) ∧ g.numGuesses = UInt32.ofNat p.guesses

theorem shows_newGame (u : Kuid) (page : List UInt8) : Shows (newGame u page) .idle := by
  simp [Shows, newGame, Player.idle]

/-- A guess that is scored moves the entry as the guess moves the game. -/
theorem shows_scoreGuess {g : MmGame} {p : Player} {u : Kuid} (h : Shows g p) (count : Nat)
    (guess : Code) (v : Vars) :
    Shows (scoreGuess count guess v g).game (p.next u (.guess u guess v.targetCode)) := by
  obtain ⟨hact, hnum⟩ := h
  simp only [Player.next, if_true]
  refine ⟨?_, ?_⟩
  · rw [scoreGuess_gameActive, hact]
  · rw [scoreGuess_numGuesses, hnum, UInt32.ofNat_add]
    rfl

/-- The event of a write: the guess, if it is admitted. -/
theorem Call.event_write {ro : Rodata} {user : Kuid} {highest : Int} {ubuf : List UInt8} {count : Nat}
    {v : Vars} {g : MmGame} {e : Event} :
    (Call.write ubuf count).event ro user highest v g = some e ↔
      Admits highest ubuf count g ∧ e = .guess user (guessDigits ubuf) v.targetCode := by
  simp only [Call.event, Option.ite_none_right_eq_some, Option.some.injEq, mmWrite_result]
  exact and_congr_right fun _ => eq_comm

/-- **Refinement of one call**: the locked section of a call moves its entry as the
call's event moves the player's game. -/
theorem shows_section {ro : Rodata} {rnd : Fin NUM_PEGS → UInt32} {highest : Int} {call : Call}
    {v : Vars} {g : MmGame} {p : Player} {u : Kuid} (h : Shows g p) :
    Shows (call.section ro rnd highest v g).game
      ((call.event ro u highest v g).elim p (p.next u)) := by
  cases call with
  | read a => exact h
  | mmap a => exact h
  | write ubuf count =>
      simp only [Call.section]
      obtain ⟨hadm, hw⟩ | ⟨hadm, hw⟩ := mmWrite_cases highest ubuf count v g
      · have hnone : (Call.write ubuf count).event ro u highest v g = none :=
          Option.eq_none_iff_forall_ne_some.mpr fun e he => hadm (Call.event_write.mp he).1
        rw [hw, hnone]
        exact h
      · rw [hw, Call.event_write.mpr ⟨hadm, rfl⟩]
        exact shows_scoreGuess h count _ v
  | ctlWrite c =>
      simp only [Call.section, Call.event]
      obtain ⟨⟨hc, hcmd⟩, hw⟩ | ⟨⟨hc, hcmd⟩, hw⟩ | ⟨⟨hc, hcmd⟩, hw⟩ | ⟨hrej, hw⟩ :=
        mmCtlWrite_cases ro rnd c v g
      · rw [hw, if_pos ⟨hc, hcmd⟩]
        simp [Shows, Player.next]
      · rw [hw, if_neg (by simp [Takes, hcmd]), if_pos ⟨hc, hcmd⟩]
        simpa [Shows, Player.next] using h.2
      · rw [hw, if_neg (by simp [Takes, hcmd]), if_neg (by simp [Takes, hcmd])]
        simpa using h
      · have hno : ∀ cmd, cmd ≠ .other → ¬ Takes ro c cmd := by
          rintro cmd hne ⟨hc, hcmd⟩
          rcases hrej with hrej | ⟨-, hrej⟩
          · simp [hc] at hrej
          · exact hne (hcmd.symm.trans hrej)
        rw [hw, if_neg (hno .start (by decide)), if_neg (hno .quit (by decide))]
        exact h

/-- An accepted guess found the game active. -/
theorem accepted_active {ro : Rodata} {user u : Kuid} {highest : Int} {v : Vars} {g : MmGame}
    {call : Call} {guess target : Code}
    (h : call.event ro user highest v g = some (.guess u guess target)) : g.gameActive = true := by
  cases call with
  | read a => simp [Call.event] at h
  | mmap a => simp [Call.event] at h
  | write ubuf count => exact (Call.event_write.mp h).1.1
  | ctlWrite c =>
      simp only [Call.event] at h
      split at h
      · cases h
      · split at h <;> cases h

/-- The event of a call is about its user. -/
theorem Call.event_user {ro : Rodata} {user : Kuid} {highest : Int} {v : Vars} {g : MmGame}
    {call : Call} {e : Event} (h : call.event ro user highest v g = some e) : e.user = user := by
  cases call with
  | read a => simp [Call.event] at h
  | mmap a => simp [Call.event] at h
  | write ubuf count =>
      rw [(Call.event_write.mp h).2]
      rfl
  | ctlWrite c =>
      simp only [Call.event] at h
      split at h
      · rw [← Option.some.inj h]; rfl
      · split at h
        · rw [← Option.some.inj h]; rfl
        · contradiction

/-- After the history `h`, every entry shows its owner's game, and whoever has no
entry has no history. -/
structure Ledger (h : List Event) (s : Sys) : Prop where
  owned : Owned s
  entries : ∀ {i : Nat} {g : MmGame}, s.drv.gamesList[i]? = some g → Shows g (replay g.playerId h)
  newcomer : ∀ u, (∀ g ∈ s.drv.gamesList, g.playerId ≠ u) → replay u h = .idle

/-- A step without an event that leaves the list alone. -/
private theorem Ledger.quiet {h : List Event} {s s' : Sys} (hL : Ledger h s) (howned : Owned s')
    (hlist : s'.drv.gamesList = s.drv.gamesList) : Ledger h s' where
  owned := howned
  entries hg := hL.entries (hlist ▸ hg)
  newcomer u hu := hL.newcomer u (hlist ▸ hu)

/-- A new entry shows an idle game, and its player has no history. -/
private theorem Ledger.add {h : List Event} {s : Sys} (hL : Ledger h s) {t : Nat} {user : Kuid}
    {call : Call} {highest : Int} {page : Vector UInt8 PAGE_SIZE}
    (hnew : ∀ g ∈ s.drv.gamesList, g.playerId ≠ user)
    (howned : Owned (afterAdd s t user call highest page)) :
    Ledger h (afterAdd s t user call highest page) where
  owned := howned
  entries {i g} hg := by
    rcases List.mem_append.mp (List.mem_of_getElem? hg) with hold | hadded
    · obtain ⟨j, hj⟩ := List.mem_iff_getElem?.mp hold
      exact hL.entries hj
    · obtain rfl := List.mem_singleton.mp hadded
      rw [show (newGame user page.toList).playerId = user from rfl, hL.newcomer user hnew]
      exact shows_newGame user _
  newcomer u hu := hL.newcomer u fun g hg => hu g (List.mem_append_left _ hg)

/-- The locked section of a call moves the entry of its user, and no other. -/
private theorem Ledger.section {ro : Rodata} {h : List Event} {s : Sys} (hL : Ledger h s) {t : Nat}
    {rnd : Fin NUM_PEGS → UInt32} {user : Kuid} {call : Call} {highest : Int} {p : Nat} {g : MmGame}
    (hentry : s.drv.gamesList[p]? = some g) (huser : g.playerId = user)
    (howned : Owned (afterSection ro rnd s t call highest p g)) :
    Ledger (h ++ (call.event ro user highest s.drv.vars g).toList)
      (afterSection ro rnd s t call highest p g) where
  owned := howned
  entries {i g'} hg := by
    rw [getElem?_afterSection hentry] at hg
    by_cases hi : i = p
    · subst hi
      obtain rfl := Option.some.inj ((if_pos rfl).symm.trans hg)
      have hshow : Shows (call.section ro rnd highest s.drv.vars g).game
          ((call.event ro user highest s.drv.vars g).elim (replay g.playerId h)
            ((replay g.playerId h).next user)) :=
        shows_section (hL.entries hentry)
      rw [section_playerId]
      cases hev : call.event ro user highest s.drv.vars g with
      | none => simpa [hev] using hshow
      | some e => simpa [hev, huser] using hshow
    · rw [if_neg hi] at hg
      have hne : g'.playerId ≠ user := fun heq =>
        hi (hL.owned.eq_of_playerId hg hentry (heq.trans huser.symm))
      cases hev : call.event ro user highest s.drv.vars g with
      | none => simpa using hL.entries hg
      | some e =>
          have heu : e.user ≠ g'.playerId := by rw [Call.event_user hev]; exact hne.symm
          simpa [Player.next_of_ne heu] using hL.entries hg
  newcomer u hu := by
    have hmap : (afterSection ro rnd s t call highest p g).drv.gamesList.map (·.playerId) =
        s.drv.gamesList.map (·.playerId) :=
      map_playerId_afterSection hentry
    have hold : ∀ g' ∈ s.drv.gamesList, g'.playerId ≠ u := by
      intro g' hg' heq
      have hmem : u ∈ s.drv.gamesList.map (·.playerId) := List.mem_map.mpr ⟨g', hg', heq⟩
      rw [← hmap] at hmem
      obtain ⟨g'', hg'', hid⟩ := List.mem_map.mp hmem
      exact hu g'' hg'' hid
    have hne : u ≠ user := fun heq =>
      hold g (List.mem_of_getElem? hentry) (huser.trans heq.symm)
    cases hev : call.event ro user highest s.drv.vars g with
    | none => simpa using hL.newcomer u hold
    | some e =>
        have heu : e.user ≠ u := by rw [Call.event_user hev]; exact hne.symm
        simpa [Player.next_of_ne heu] using hL.newcomer u hold

/-- One step of the driver moves every game by the step's event. -/
theorem Ledger.step {ro : Rodata} {h : List Event} {s s' : Sys} {l : Label} (hL : Ledger h s)
    (hs : Mastermind.step ro s l = some s') : Ledger (h ++ (observe ro s l).toList) s' := by
  have howned := hL.owned.step hs
  cases step_cases hs with
  | enter => simpa [observe] using hL.quiet howned rfl
  | found => simpa [observe] using hL.quiet howned rfl
  | added hframe hnew => simpa [observe] using hL.add hnew howned
  | failed => simpa [observe] using hL.quiet howned rfl
  | noEntry hframe hnull => simpa [observe, hframe, hnull] using hL.quiet howned rfl
  | main hframe hentry =>
      obtain ⟨g', hg', huser⟩ := hL.owned.pointer hframe
      obtain rfl := Option.some.inj (hg'.symm.trans hentry)
      simpa [observe, hframe, Driver.deref, hentry] using hL.section hentry huser howned
  | irq => simpa [observe] using hL.quiet howned rfl
  | bottom => simpa [observe] using hL.quiet howned rfl
  | setRandomCode => simpa [observe] using hL.quiet howned rfl

/-- The ledger is right in every reachable state. -/
theorem ledger_of_run {ro : Rodata} {tr : List (Sys × Label)} {s : Sys} (h : (driver ro).Run tr s) :
    Ledger (history ro tr) s := by
  refine Machine.Run.invariant (I := fun tr s => Ledger (history ro tr) s) ?_ ?_ h
  · rintro s ⟨randomCode, rfl⟩
    exact ⟨owned_init randomCode, by simp [initSys], fun _ _ => rfl⟩
  · intro tr s l t hI hs
    rw [history_concat]
    exact hI.step hs

/-- **The entry of a player refines the player's game**: in every reachable
state, whatever the calls and packets and however they interleave, the game of
an entry is active exactly while its owner is playing, its counter is the number
of guesses since the owner's latest start modulo `2 ^ 32`, and every guess that
was accepted on the way found the game of its user active. -/
theorem game_refines_history (ro : Rodata) {tr : List (Sys × Label)} {s : Sys}
    (h : (driver ro).Run tr s) :
    (∀ g ∈ s.drv.gamesList,
      (g.gameActive = true ↔ Playing g.playerId (history ro tr)) ∧
      g.numGuesses = UInt32.ofNat (guessesSinceStart g.playerId (history ro tr))) ∧
    (∀ p ∈ tr, ∀ user guess target, observe ro p.1 p.2 = some (.guess user guess target) →
      (∃ g ∈ p.1.drv.gamesList, g.playerId = user) ∧
      ∀ g ∈ p.1.drv.gamesList, g.playerId = user → g.gameActive = true) := by
  constructor
  · intro g hg
    obtain ⟨i, hi⟩ := List.mem_iff_getElem?.mp hg
    have hshow := (ledger_of_run h).entries hi
    rw [← playing_iff, ← replay_guesses]
    exact hshow
  · rintro ⟨s₁, l⟩ hp user guess target hobs
    obtain ⟨tr₁, -, s₂, -, hrun, hs⟩ := h.split hp
    have howned : Owned s₁ := owned_of_run hrun
    replace hs : Mastermind.step ro s₁ l = some s₂ := hs
    cases step_cases hs with
    | @main t rnd user' call highest q g hframe hentry =>
        simp only [observe, hframe, Driver.deref, Option.bind_some, hentry] at hobs
        obtain ⟨g', hg', huser⟩ := howned.pointer hframe
        obtain rfl := Option.some.inj (hg'.symm.trans hentry)
        obtain rfl : user = user' := Call.event_user hobs
        have hact : g'.gameActive = true := accepted_active hobs
        refine ⟨⟨g', List.mem_of_getElem? hentry, huser⟩, fun x hx hxu => ?_⟩
        obtain rfl := howned.eq_of_mem hx hentry (hxu.trans huser.symm)
        exact hact
    | noEntry hframe hnull => simp [observe, hframe, hnull] at hobs
    | enter | found | added | failed | irq | bottom | setRandomCode => simp [observe] at hobs

/-- A player starts a game and wins it at the second guess. -/
def oneGame : List Label :=
  callSteps 0 1000 (ctlText "start" false) 0 ++ callSteps 0 1000 (guessText "0123") 0 ++
    callSteps 0 1000 (guessText "0012") 0

theorem game_refines_history_oneGame :
    ∃ s, (driver .zeros).Run ((driver .zeros).trace (initSys false) oneGame) s ∧
      (s.drv.gamesList.map fun g => (g.playerId, g.gameActive, g.numGuesses)) =
        [(1000, false, 2)] ∧
      ∀ g ∈ s.drv.gamesList,
        (g.gameActive = true ↔
          Playing g.playerId (history .zeros ((driver .zeros).trace (initSys false) oneGame))) := by
  obtain ⟨s, hrun, hs⟩ := Machine.exists_run_of_exec (M := driver .zeros) ⟨false, rfl⟩ oneGame
    (b := fun s => (s.drv.gamesList.map fun g => (g.playerId, g.gameActive, g.numGuesses)) ==
      [(1000, false, 2)]) (by decide +kernel)
  exact ⟨s, hrun, beq_iff_eq.mp hs, fun g hg => ((game_refines_history .zeros hrun).1 g hg).1⟩

end Cmsc421.Mastermind
