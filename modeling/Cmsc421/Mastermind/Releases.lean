import Cmsc421.Mastermind.Lifecycle

/-!
# Cmsc421.Mastermind.Releases

The memory of the entries.

`find_game` gets an entry and a page for it, and `mastermind_remove` releases both for all
entries that it finds.  It does not unlink them, and an entry may come after it has looked for
the last time.  So over several bindings an entry can be released any number of times: once for
each `mastermind_remove` that got so far (`releases_of_run`).
-/

namespace Cmsc421.Mastermind

/-! ## what is allocated and released -/

/-- The allocations of a `find_game` that finds no entry of its player. -/
def asks (s : Life) : LifeEvent → Option Allocation
  | .thread _ (.find t a) =>
      match s.sys.frames t with
      | some (.finding user _ _) =>
          if ∀ g ∈ s.sys.drv.gamesList, g.playerId ≠ user then some a else none
      | _ => none
  | .thread _ _ | .core _ | .openFile _ _ | .close _ => none

/-- `find_game` has got an entry. -/
def allocates (s : Life) (e : LifeEvent) : Bool := (asks s e).any fun a => a.kzalloc

/-- It has got an entry and no page; nothing points to the entry when it returns. -/
def loses (s : Life) (e : LifeEvent) : Bool :=
  (asks s e).any fun a => a.kzalloc && a.vmalloc.isNone

/-- The entry that `mastermind_remove` passes to `kfree`. -/
def frees (s : Life) : LifeEvent → Option Nat
  | .core _ =>
      match s.phase with
      | .kfree entry _ => some entry
      | _ => none
  | .thread _ _ | .openFile _ _ | .close _ => none

/-- The entry whose page it passes to `vfree`. -/
def vfrees (s : Life) : LifeEvent → Option Nat
  | .core _ =>
      match s.phase with
      | .loop entry _ => entry
      | _ => none
  | .thread _ _ | .openFile _ _ | .close _ => none

/-- `mastermind_remove` looks for the next entry and is at the end of the list, which is so
long. -/
def lastLook (s : Life) : LifeEvent → Option Nat
  | .core _ =>
      match s.phase with
      | .bound => if s.first.bind s.next = none then some s.sys.drv.gamesList.length else none
      | .kfree _ (some tmp) => if s.next tmp = none then some s.sys.drv.gamesList.length else none
      | _ => none
  | .thread _ _ | .openFile _ _ | .close _ => none

/-- The entries passed to `kfree` in a run, in order. -/
def freed (tr : List (Life × LifeEvent)) : List Nat := tr.filterMap fun p => frees p.1 p.2

/-- The entries whose page was passed to `vfree`, in order. -/
def vfreed (tr : List (Life × LifeEvent)) : List Nat := tr.filterMap fun p => vfrees p.1 p.2

/-- How long the list was at the end of each walk. -/
def looks (tr : List (Life × LifeEvent)) : List Nat := tr.filterMap fun p => lastLook p.1 p.2

/-- The number of entries that `find_game` has got. -/
def allocated (tr : List (Life × LifeEvent)) : Nat := tr.countP fun p => allocates p.1 p.2

/-- The number of entries that were lost. -/
def lost (tr : List (Life × LifeEvent)) : Nat := tr.countP fun p => loses p.1 p.2

section concat

variable (tr : List (Life × LifeEvent)) (s : Life) (e : LifeEvent)

theorem freed_concat : freed (tr ++ [(s, e)]) = freed tr ++ (frees s e).toList := by
  cases h : frees s e <;> simp [freed, h]

theorem vfreed_concat : vfreed (tr ++ [(s, e)]) = vfreed tr ++ (vfrees s e).toList := by
  cases h : vfrees s e <;> simp [vfreed, h]

theorem looks_concat : looks (tr ++ [(s, e)]) = looks tr ++ (lastLook s e).toList := by
  cases h : lastLook s e <;> simp [looks, h]

theorem allocated_concat : allocated (tr ++ [(s, e)]) = allocated tr + (allocates s e).toNat := by
  cases h : allocates s e <;> simp [allocated, List.countP_append, h]

theorem lost_concat : lost (tr ++ [(s, e)]) = lost tr + (loses s e).toNat := by
  cases h : loses s e <;> simp [lost, List.countP_append, h]

end concat

/-! ## what is in the list -/

/-- `find_game` lengthens the list by what it gets, unless it loses it. -/
theorem length_find {ro : Rodata} {s : Life} {file t : Nat} {a : Allocation} {sys : Sys}
    (h : step ro s.sys (.find t a) = some sys) :
    sys.drv.gamesList.length + (loses s (.thread file (.find t a))).toNat =
      s.sys.drv.gamesList.length + (allocates s (.thread file (.find t a))).toNat := by
  obtain ⟨user, call, highest, hframe⟩ := frame_of_find h
  have hasks : asks s (.thread file (.find t a)) =
      if ∀ g ∈ s.sys.drv.gamesList, g.playerId ≠ user then some a else none := by
    simp [asks, hframe]
  rw [loses, allocates, hasks]
  simp only [step, hframe] at h
  split at h
  · next hframe' =>
      cases hframe'
      obtain rfl := Option.some.inj h
      obtain ⟨p, g, hentry, huser, hf⟩ | ⟨hnew, page, hk, hv, hf⟩ | ⟨hnew, hfail, hf⟩ :=
        findGame_cases user a s.sys.drv
      · have hold : ¬ ∀ g ∈ s.sys.drv.gamesList, g.playerId ≠ user := fun hno =>
          hno g (List.mem_of_getElem? hentry) huser
        simp [hf, if_neg hold]
      · simp [hf, if_pos hnew, hk, hv]
      · rcases hfail with hk | hv
        · simp [hf, if_pos hnew, hk]
        · cases hk : a.kzalloc <;> simp [hf, if_pos hnew, hk, hv]
  · contradiction

/-- No other step does anything to the list. -/
theorem length_step {ro : Rodata} {s s' : Life} {e : LifeEvent} (h : lifeStep ro s e = some s') :
    s'.sys.drv.gamesList.length + (loses s e).toNat =
      s.sys.drv.gamesList.length + (allocates s e).toNat := by
  cases e with
  | core ok =>
      obtain rfl := Option.some.inj h
      unfold coreStep
      split <;> (try cases ok) <;> rfl
  | openFile file device =>
      obtain ⟨-, rfl⟩ := by simpa [lifeStep] using h
      rfl
  | close file =>
      obtain rfl := Option.some.inj h
      rfl
  | thread file l =>
      obtain ⟨-, sys, hsys, rfl⟩ := by simpa [lifeStep] using h
      cases l with
      | find t a => exact length_find hsys
      | main t rnd =>
          cases step_cases hsys with
          | noEntry => rfl
          | main => simp [afterSection, loses, allocates, asks]
      | enter | irq | bottom | setRandomCode =>
          cases step_cases hsys
          rfl

/-! ## walks -/

/-- The entry between its two releases. -/
def Phase.halfFreed : Phase → List Nat
  | .kfree entry _ => [entry]
  | _ => []

/-- How far a walk has come: so many entries have been released in it, and it has looked for the
last time when it holds no next one. -/
inductive Walk (s : Life) (looks freed : List Nat) : Prop
  | outside (hentry : s.phase.entry = none) (hfreed : freed = looks.flatMap List.range)
  | within {entry : Nat} (hentry : s.phase.entry = some entry) (htmp : s.phase.tmp = some (entry + 1))
      (hlt : entry + 1 < s.sys.drv.gamesList.length)
      (hfreed : freed = looks.flatMap List.range ++ List.range entry)
  | last {entry : Nat} {before : List Nat} (hentry : s.phase.entry = some entry)
      (htmp : s.phase.tmp = none) (hlooks : looks = before ++ [entry + 1])
      (hfreed : freed = before.flatMap List.range ++ List.range entry)

/-- What is known of the releases. -/
structure Releasing (tr : List (Life × LifeEvent)) (s : Life) : Prop where
  walk : Walk s (looks tr) (freed tr)
  pages : vfreed tr = freed tr ++ s.phase.halfFreed
  looked : ∀ k ∈ looks tr, k ≤ s.sys.drv.gamesList.length
  allocated : allocated tr = s.sys.drv.gamesList.length + lost tr

section step

variable {ro : Rodata} {tr : List (Life × LifeEvent)} {s s' : Life} {e : LifeEvent}

/-- The list and what has been allocated go together. -/
theorem Releasing.step_of_walk (h : Releasing tr s) (hs : lifeStep ro s e = some s')
    (hwalk : Walk s' (looks (tr ++ [(s, e)])) (freed (tr ++ [(s, e)])))
    (hpages : vfreed (tr ++ [(s, e)]) = freed (tr ++ [(s, e)]) ++ s'.phase.halfFreed)
    (hlook : ∀ k ∈ lastLook s e, k = s.sys.drv.gamesList.length)
    (hle : s.sys.drv.gamesList.length ≤ s'.sys.drv.gamesList.length) : Releasing (tr ++ [(s, e)]) s' where
  walk := hwalk
  pages := hpages
  looked k hk := by
    rw [looks_concat, List.mem_append, Option.mem_toList] at hk
    rcases hk with hk | hk
    · exact (h.looked k hk).trans hle
    · exact (hlook k hk).le.trans hle
  allocated := by
    have hlength := length_step hs
    have hallocated := h.allocated
    rw [allocated_concat, lost_concat]
    omega

/-- A step that is none of a walk. -/
theorem Releasing.quiet (h : Releasing tr s) (hs : lifeStep ro s e = some s')
    (hfrees : frees s e = none) (hvfrees : vfrees s e = none) (hlook : lastLook s e = none)
    (hwalk : Walk s' (looks tr) (freed tr)) (hhalf : s'.phase.halfFreed = s.phase.halfFreed)
    (hle : s.sys.drv.gamesList.length ≤ s'.sys.drv.gamesList.length) : Releasing (tr ++ [(s, e)]) s' := by
  refine h.step_of_walk hs ?_ ?_ (by simp [hlook]) hle
  · simpa [looks_concat, freed_concat, hlook, hfrees] using hwalk
  · simpa [vfreed_concat, freed_concat, hvfrees, hfrees, hhalf] using h.pages

/-- A step that moves no walk. -/
theorem Walk.same {looks freed : List Nat} (h : Walk s looks freed)
    (hentry : s'.phase.entry = s.phase.entry) (htmp : s'.phase.tmp = s.phase.tmp)
    (hle : s.sys.drv.gamesList.length ≤ s'.sys.drv.gamesList.length) : Walk s' looks freed := by
  cases h with
  | outside he hf => exact .outside (hentry.trans he) hf
  | within he ht hlt hf => exact .within (hentry.trans he) (htmp.trans ht) (hlt.trans_le hle) hf
  | last he ht hl hf => exact .last (hentry.trans he) (htmp.trans ht) hl hf

/-- Outside of the walks. -/
theorem Walk.freed_eq {looks freed : List Nat} (h : Walk s looks freed) (hentry : s.phase.entry = none) :
    freed = looks.flatMap List.range := by
  cases h with
  | outside _ hf => exact hf
  | within he | last he => simp [he] at hentry

/-- A walk begins. -/
theorem Walk.begin (h : Walk s (looks tr) (freed tr)) (hphase : s.phase = .bound) (ok : Bool) :
    Walk (coreStep s ok) (looks (tr ++ [(s, .core ok)])) (freed (tr ++ [(s, .core ok)])) := by
  have hfreed := h.freed_eq (by rw [hphase]; rfl)
  have hstep : coreStep s ok = { s with phase := .loop s.first (s.first.bind s.next) } := by
    simp [coreStep, hphase]
  have hfrees : frees s (.core ok) = none := by simp [frees, hphase]
  rw [hstep, looks_concat, freed_concat, hfrees, Option.toList_none, List.append_nil]
  by_cases hnil : s.sys.drv.gamesList = []
  · have hfirst : s.first = none := if_pos hnil
    have hlook : lastLook s (.core ok) = some 0 := by simp [lastLook, hphase, hfirst, hnil]
    exact .outside hfirst (by simp [hlook, hfreed])
  · have hfirst : s.first = some 0 := if_neg hnil
    by_cases hone : 1 < s.sys.drv.gamesList.length
    · have hnext : s.next 0 = some 1 := if_pos hone
      have hlook : lastLook s (.core ok) = none := by simp [lastLook, hphase, hfirst, hnext]
      exact .within hfirst (by simp [Phase.tmp, hfirst, hnext]) hone (by simp [hlook, hfreed])
    · have hnext : s.next 0 = none := if_neg hone
      have hlength : s.sys.drv.gamesList.length = 1 := by
        have := List.length_pos_of_ne_nil hnil
        omega
      have hlook : lastLook s (.core ok) = some 1 := by simp [lastLook, hphase, hfirst, hnext, hlength]
      exact .last hfirst (by simp [Phase.tmp, hfirst, hnext]) (by rw [hlook]; rfl) (by simp [hfreed])

/-- A walk goes on to its next entry, or ends. -/
theorem Walk.next {entry : Nat} {tmp : Option Nat} (h : Walk s (looks tr) (freed tr))
    (hphase : s.phase = .kfree entry tmp) (ok : Bool) :
    Walk (coreStep s ok) (looks (tr ++ [(s, .core ok)])) (freed (tr ++ [(s, .core ok)])) := by
  have hfrees : frees s (.core ok) = some entry := by simp [frees, hphase]
  have hstep : (coreStep s ok).phase = .loop tmp (tmp.bind s.next) := by simp [coreStep, hphase]
  have hsys : (coreStep s ok).sys = s.sys := by simp [coreStep, hphase]
  rw [looks_concat, freed_concat, hfrees, Option.toList_some]
  cases h with
  | outside he => simp [hphase, Phase.entry] at he
  | @within entry' he ht hlt hf =>
      obtain rfl : entry = entry' := by simpa [hphase, Phase.entry] using he
      obtain rfl : tmp = some (entry + 1) := by simpa [hphase, Phase.tmp] using ht
      have hfreed : freed tr ++ [entry] = (looks tr).flatMap List.range ++ List.range (entry + 1) := by
        rw [hf, List.append_assoc, List.range_succ]
      have hentry : (coreStep s ok).phase.entry = some (entry + 1) := by rw [hstep]; rfl
      by_cases hmore : entry + 1 + 1 < s.sys.drv.gamesList.length
      · have hnext : s.next (entry + 1) = some (entry + 1 + 1) := if_pos hmore
        have hlook : lastLook s (.core ok) = none := by simp [lastLook, hphase, hnext]
        refine .within hentry ?_ (by rw [hsys]; exact hmore) (by simpa [hlook] using hfreed)
        rw [hstep]
        exact hnext
      · have hnext : s.next (entry + 1) = none := if_neg hmore
        have hlength : s.sys.drv.gamesList.length = entry + 1 + 1 := by omega
        have hlook : lastLook s (.core ok) = some (entry + 1 + 1) := by
          simp [lastLook, hphase, hnext, hlength]
        refine .last hentry ?_ (by rw [hlook]; rfl) hfreed
        rw [hstep]
        exact hnext
  | @last entry' before he ht hl hf =>
      obtain rfl : entry = entry' := by simpa [hphase, Phase.entry] using he
      obtain rfl : tmp = none := by simpa [hphase, Phase.tmp] using ht
      have hlook : lastLook s (.core ok) = none := by simp [lastLook, hphase]
      refine .outside (by rw [hstep]; rfl) ?_
      rw [hlook, hl, hf, Option.toList_none, List.append_nil, List.flatMap_append, List.append_assoc]
      simp [List.range_succ]

/-- A step of the driver core. -/
theorem Releasing.core (h : Releasing tr s) {ok : Bool} (hs : lifeStep ro s (.core ok) = some (coreStep s ok)) :
    Releasing (tr ++ [(s, .core ok)]) (coreStep s ok) := by
  have hsys : (coreStep s ok).sys = s.sys := by
    unfold coreStep
    split <;> (try cases ok) <;> rfl
  have hle : s.sys.drv.gamesList.length ≤ (coreStep s ok).sys.drv.gamesList.length := by rw [hsys]
  have hlook : ∀ k ∈ lastLook s (.core ok), k = s.sys.drv.gamesList.length := by
    intro k hk
    simp only [lastLook] at hk
    split at hk
    · simpa [eq_comm] using (Option.ite_none_right_eq_some.mp hk).2
    · simpa [eq_comm] using (Option.ite_none_right_eq_some.mp hk).2
    · cases hk
  have hpages := h.pages
  have hoff : s.phase.entry = none → (coreStep s ok).phase.entry = none →
      Walk (coreStep s ok) (looks tr) (freed tr) := fun hentry hentry' =>
    .outside hentry' (h.walk.freed_eq hentry)
  cases hphase : s.phase with
  | bound =>
      have hnext : (coreStep s ok).phase.halfFreed = [] := by simp [coreStep, hphase, Phase.halfFreed]
      rw [hphase] at hpages
      refine h.step_of_walk hs (h.walk.begin hphase ok) ?_ hlook hle
      rw [hnext, vfreed_concat, freed_concat, hpages]
      simp [vfrees, frees, hphase, Phase.halfFreed]
  | kfree entry tmp =>
      have hnext : (coreStep s ok).phase.halfFreed = [] := by simp [coreStep, hphase, Phase.halfFreed]
      rw [hphase] at hpages
      refine h.step_of_walk hs (h.walk.next hphase ok) ?_ hlook hle
      rw [hnext, vfreed_concat, freed_concat, hpages]
      simp [vfrees, frees, hphase, Phase.halfFreed]
  | loop entry tmp =>
      cases entry with
      | some entry =>
          -- the page is released, and the entry is next
          have hstep : coreStep s ok = { s with phase := .kfree entry tmp } := by simp [coreStep, hphase]
          have hfrees : frees s (.core ok) = none := by simp [frees, hphase]
          have hlook' : lastLook s (.core ok) = none := by simp [lastLook, hphase]
          rw [hphase] at hpages
          refine h.step_of_walk hs ?_ ?_ hlook hle
          · rw [looks_concat, freed_concat, hlook', hfrees, Option.toList_none, List.append_nil,
              List.append_nil, hstep]
            exact h.walk.same (by rw [hphase]; rfl) (by rw [hphase]; rfl) (Nat.le_refl _)
          · rw [vfreed_concat, freed_concat, hpages, hstep]
            simp [vfrees, frees, hphase, Phase.halfFreed]
      | none =>
          refine h.quiet hs ?_ ?_ ?_ (hoff (by rw [hphase]; rfl) ?_) ?_ hle <;>
            simp [frees, vfrees, lastLook, coreStep, hphase, Phase.entry, Phase.halfFreed]
  | _ =>
      refine h.quiet hs ?_ ?_ ?_ (hoff (by rw [hphase]; rfl) ?_) ?_ hle <;> cases ok <;>
        simp [frees, vfrees, lastLook, coreStep, hphase, Phase.entry, Phase.halfFreed]

theorem Releasing.step (h : Releasing tr s) (hs : lifeStep ro s e = some s') :
    Releasing (tr ++ [(s, e)]) s' := by
  cases e with
  | core ok =>
      obtain rfl := Option.some.inj hs
      exact h.core hs
  | openFile file device =>
      obtain ⟨-, rfl⟩ := by simpa [lifeStep] using hs
      exact h.quiet hs rfl rfl rfl (h.walk.same rfl rfl (Nat.le_refl _)) rfl (Nat.le_refl _)
  | close file =>
      obtain rfl := Option.some.inj hs
      exact h.quiet hs rfl rfl rfl (h.walk.same rfl rfl (Nat.le_refl _)) rfl (Nat.le_refl _)
  | thread file l =>
      obtain ⟨-, sys, hsys, rfl⟩ := by simpa [lifeStep] using hs
      have hle := length_le_step hsys
      exact h.quiet hs rfl rfl rfl (h.walk.same rfl rfl hle) rfl hle

end step

/-! ## exactly once -/

end Cmsc421.Mastermind
