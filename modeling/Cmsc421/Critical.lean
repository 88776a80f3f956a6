import Cmsc421.Mutex
import Cmsc421.Reach

/-!
# Cmsc421.Critical

Threads whose calls go on after the post, or never come to it.

A call that has got the semaphore works on the data until it posts, waits for the semaphore a
second time, or returns with it: `toLock` says which, and what it leaves behind.  After the
post it may still do what no other operation notices (`Tail`).  In a run where the calls that
get the semaphore keep to this, at most one thread is inside (`PoolInv.inside_unique`), and the
semaphore stays to be had exactly as long as each of them comes to a post (`usable_iff`).
-/

namespace Cmsc421

namespace LockProg

variable {D δ α β : Type} {A : D → Type} (act : (o : D) → δ → A o × δ)

/-! ## up to the next operation on the semaphore -/

/-- Perform the operations on the data up to the next one on the semaphore, or the return. -/
def toLock : LockProg D A α → δ → LockProg D A α × δ
  | .op (.data o) k, d => toLock (k (act o d).1) (act o d).2
  | .op .wait k, d => (.op .wait k, d)
  | .op .post k, d => (.op .post k, d)
  | .ret a, d => (.ret a, d)

@[simp] theorem toLock_data (o : D) (k : A o → LockProg D A α) (d : δ) :
    toLock act (.op (.data o) k) d = toLock act (k (act o d).1) (act o d).2 := rfl

@[simp] theorem toLock_wait (k : Unit → LockProg D A α) (d : δ) :
    toLock act (.op .wait k) d = (.op .wait k, d) := rfl

@[simp] theorem toLock_post (k : Unit → LockProg D A α) (d : δ) :
    toLock act (.op .post k) d = (.op .post k, d) := rfl

@[simp] theorem toLock_ret (a : α) (d : δ) : toLock act (.ret a : LockProg D A α) d = (.ret a, d) := rfl

/-- A data section in front. -/
theorem toLock_bind {p : LockProg D A α} {f : α → LockProg D A β} {d d' : δ} {a : α}
    (h : dataRun act p d = some (a, d')) : toLock act (p >>= f) d = toLock act (f a) d' := by
  induction p generalizing d with
  | ret b =>
      obtain ⟨rfl, rfl⟩ := Prod.mk.inj (Option.some.inj h)
      rfl
  | op o k ih =>
      cases o with
      | wait => simp [dataRun] at h
      | post => simp [dataRun] at h
      | data o => exact ih (act o d).1 h

/-- A program in front, up to its end or its first operation on the semaphore. -/
theorem toLock_seq (p : LockProg D A α) (f : α → LockProg D A β) (d : δ) :
    toLock act (p >>= f) d =
      match toLock act p d with
      | (.ret a, d') => toLock act (f a) d'
      | (.op o k, d') => (.op o fun r => k r >>= f, d') := by
  induction p generalizing d with
  | ret a => rfl
  | op o k ih =>
      cases o with
      | wait => rfl
      | post => rfl
      | data o => exact ih (act o d).1 (act o d).2

/-- The rest of a critical section posts and returns. -/
theorem toLock_of_finish {p : LockProg D A α} {d d' : δ} {a : α} (h : finish act p d = some (a, d')) :
    ∃ k, toLock act p d = (.op .post k, d') ∧ k () = .ret a := by
  induction p generalizing d with
  | ret b => simp [finish] at h
  | op o k ih =>
      cases o with
      | wait => simp [finish] at h
      | data o => exact ih (act o d).1 h
      | post =>
          simp only [finish] at h
          split at h
          · next b hb =>
              obtain ⟨rfl, rfl⟩ := Prod.mk.inj (Option.some.inj h)
              exact ⟨k, rfl, hb⟩
          · contradiction

/-- Run alone, it makes no difference where the program is taken up. -/
theorem runAlone_toLock (p : LockProg D A α) (n : Nat) (d : δ) :
    p.runAlone act ⟨n, d⟩ = (toLock act p d).1.runAlone act ⟨n, (toLock act p d).2⟩ := by
  induction p generalizing d with
  | ret a => rfl
  | op o k ih =>
      cases o with
      | wait => rfl
      | post => rfl
      | data o => exact ih (act o d).1 (act o d).2

/-! ## what nobody notices -/

/-- No operation notices the change `g` of the data. -/
def Unseen (g : δ → δ) : Prop := ∀ o d, act o (g d) = ((act o d).1, g (act o d).2)

theorem Unseen.id : Unseen act (fun d => d) := fun _ _ => rfl

variable {act} in
theorem Unseen.comp {f g : δ → δ} (hf : Unseen act f) (hg : Unseen act g) :
    Unseen act fun d => f (g d) := by
  intro o d
  rw [hf, hg]

variable {act} in
theorem Unseen.toLock {g : δ → δ} (hg : Unseen act g) (p : LockProg D A α) (d : δ) :
    toLock act p (g d) = ((toLock act p d).1, g (toLock act p d).2) := by
  induction p generalizing d with
  | ret a => rfl
  | op o k ih =>
      cases o with
      | wait => rfl
      | post => rfl
      | data o =>
          rw [toLock_data, toLock_data, hg]
          exact ih _ _

/-- An operation whose effect nobody notices. -/
def Quiet (o : D) : Prop := ∃ g, Unseen act g ∧ ∀ d, (act o d).2 = g d

/-- A program of such operations, with a result that satisfies `P`. -/
inductive Tail (P : α → Prop) : LockProg D A α → Prop
  | ret {a : α} (h : P a) : Tail P (.ret a)
  | data {o : D} {k : A o → LockProg D A α} (h : Quiet act o) (hk : ∀ r, Tail P (k r)) :
      Tail P (.op (.data o) k)

variable {act} in
/-- Wrapping up the result of a tail. -/
theorem Tail.map {P : α → Prop} {Q : β → Prop} {p : LockProg D A α} (h : Tail act P p) {f : α → β}
    (hf : ∀ a, P a → Q (f a)) : Tail act Q (p >>= fun a => .ret (f a)) := by
  induction h with
  | ret h => exact .ret (hf _ h)
  | data ho _ ih => exact .data ho ih

end LockProg

/-! ## pools -/

namespace Pool

variable {C D R δ : Type} {A : D → Type} (act : (o : D) → δ → A o × δ) (body : C → LockProg D A R)
variable (J : List (C × R) → δ → Prop)

/-- Recording that `c` has returned `v` changes nothing about the data. -/
def Late (c : C) (v : R) : Prop := ∀ log d, J log d → J (log ++ [(c, v)]) d

/-- The call `c`, which gets the semaphore on the data `d`, keeps what the completed calls say
about the data: at its post, where it returns or has a tail left, or at its return without
one. -/
def KeepsAt (d : δ) (c : C) : Prop :=
  ∀ log k, J log d → body c = .op .wait k →
    match LockProg.toLock act (k ()) d with
    | (.ret v, d') => J (log ++ [(c, v)]) d'
    | (.op .post k', d') =>
        (∃ v, k' () = .ret v ∧ J (log ++ [(c, v)]) d') ∨
          J log d' ∧ LockProg.Tail act (Late J c) (k' ())
    | _ => True

/-- The call comes to a post. -/
def PostsAt (d : δ) (c : C) : Prop :=
  ∀ k, body c = .op .wait k → ∃ k', (LockProg.toLock act (k ()) d).1 = .op .post k'

/-- A step that gets the semaphore does so with a call that satisfies `P` on the data. -/
def Getting (P : δ → C → Prop) (s : Pool C D R δ A) : PoolStep C → Prop
  | .call _ _ => True
  | .step t => (s.threads t).atWait = true → ∀ c ∈ (s.threads t).call?, P s.shared.data c

instance {P : δ → C → Prop} [∀ d c, Decidable (P d c)] (s : Pool C D R δ A) :
    DecidablePred (Getting P s)
  | .call _ _ => instDecidableTrue
  | .step t => inferInstanceAs (Decidable ((s.threads t).atWait = true →
      ∀ c ∈ (s.threads t).call?, P s.shared.data c))

section getting

variable {s : Pool C D R δ A} {l : PoolStep C} {P Q : δ → C → Prop}

theorem Getting.imp (h : Getting P s l) (hPQ : ∀ d c, P d c → Q d c) : Getting Q s l := by
  cases l with
  | call t c => trivial
  | step t => exact fun hwait c hc => hPQ _ _ (h hwait c hc)

theorem Getting.congr {S : δ → C → Prop} (h : Getting S s l) (hPQ : ∀ d c, S d c → (P d c ↔ Q d c)) :
    Getting P s l ↔ Getting Q s l := by
  cases l with
  | call t c => exact .rfl
  | step t =>
      constructor
      · exact fun hP hwait c hc => (hPQ _ _ (h hwait c hc)).mp (hP hwait c hc)
      · exact fun hQ hwait c hc => (hPQ _ _ (h hwait c hc)).mpr (hQ hwait c hc)

end getting

/-- A thread that does not have the semaphore: idle, at the start of its call, or with a tail
left. -/
inductive Without : ThreadState C D R A → Prop
  | idle : Without .idle
  | start {c : C} {k : Unit → LockProg D A R} (h : body c = .op .wait k) :
      Without (.busy c (.op .wait k) false)
  | tail {c : C} {p : LockProg D A R} (h : LockProg.Tail act (Late J c) p) : Without (.busy c p false)

/-- Nobody has the semaphore. -/
structure Calm (s : Pool C D R δ A) : Prop where
  keeps : J s.completed s.shared.data
  without : ∀ t, Without act body J (s.threads t)

/-- Thread `t` has got the semaphore on the data `d`, and its work on the data ends with `q`
before it. -/
structure Holding (s : Pool C D R δ A) (t : Nat) (c : C) (d : δ) (q : LockProg D A R) : Prop where
  sem : s.shared.sem = 0
  keeps : J s.completed d
  entered : KeepsAt act body J d c
  begun : ∃ k d' g p, body c = .op .wait k ∧ LockProg.toLock act (k ()) d = (q, d') ∧
    LockProg.Unseen act g ∧ s.threads t = .busy c p true ∧
      LockProg.toLock act p s.shared.data = (q, g d')
  without : ∀ u, u ≠ t → Without act body J (s.threads u)

/-- At most one thread has the semaphore, and nobody has it where it is to be had. -/
inductive PoolInv (s : Pool C D R δ A) : Prop
  | free (hsem : s.shared.sem = 1) (h : Calm act body J s)
  | held (t : Nat) (c : C) (d : δ) (q : LockProg D A R) (h : Holding act body J s t c d q)
  | lost (hsem : s.shared.sem = 0) (h : Calm act body J s)

/-! ### settling -/

@[simp] theorem settle_shared (s : Pool C D R δ A) (t : Nat) (c : C) (b : Bool)
    (r : LockProg D A R) : (s.settle t c b r).shared = s.shared := by
  cases r <;> rfl

theorem settle_other (s : Pool C D R δ A) {t u : Nat} (h : u ≠ t) (c : C) (b : Bool)
    (r : LockProg D A R) : (s.settle t c b r).threads u = s.threads u := by
  cases r <;> simp [h]

/-- What a thread without the semaphore goes on with: its whole call, or a tail. -/
def Rest (c : C) (r : LockProg D A R) : Prop :=
  (∃ k, body c = .op .wait k ∧ r = .op .wait k) ∨ LockProg.Tail act (Late J c) r

section settle

variable {act body J} {s : Pool C D R δ A} {t : Nat} {c : C} {r : LockProg D A R}

theorem Rest.without (h : Rest act body J c r) :
    Without act body J ((s.settle t c false r).threads t) := by
  obtain ⟨k, hk, rfl⟩ | h := h
  · simpa using Without.start hk
  · cases h with
    | ret _ => simpa using Without.idle
    | data ho hk => simpa using Without.tail (.data ho hk)

theorem Rest.keeps (h : Rest act body J c r) {d : δ} (hJ : J s.completed d) :
    J (s.settle t c false r).completed d := by
  obtain ⟨k, -, rfl⟩ | h := h
  · exact hJ
  · cases h with
    | ret hv => exact hv _ _ hJ
    | data _ _ => exact hJ

theorem Rest.withoutAll (h : Rest act body J c r)
    (hothers : ∀ u, u ≠ t → Without act body J (s.threads u)) (u : Nat) :
    Without act body J ((s.settle t c false r).threads u) := by
  by_cases hu : u = t
  · subst hu
    exact h.without
  · rw [settle_other s hu]
    exact hothers u hu

/-- Nobody has the semaphore, and one thread goes on. -/
theorem Rest.calm (h : Rest act body J c r) (hJ : J s.completed s.shared.data)
    (hothers : ∀ u, u ≠ t → Without act body J (s.threads u)) :
    Calm act body J (s.settle t c false r) :=
  ⟨by rw [settle_shared]; exact h.keeps hJ, h.withoutAll hothers⟩

/-- A thread with the semaphore is held up by nothing that the others do. -/
theorem Rest.holding (h : Rest act body J c r) {w : Nat} {c' : C} {d : δ} {q : LockProg D A R}
    (hw : Holding act body J s w c' d q) (hne : t ≠ w) :
    Holding act body J (s.settle t c false r) w c' d q := by
  obtain ⟨hsem, hJ, hentered, ⟨k, d', g, p, hk, hq, hg, hp, hdata⟩, hothers⟩ := hw
  refine ⟨by rw [settle_shared]; exact hsem, h.keeps hJ, hentered, ?_, fun u hu => ?_⟩
  · refine ⟨k, d', g, p, hk, hq, hg, ?_, by rw [settle_shared]; exact hdata⟩
    rw [settle_other s hne.symm]
    exact hp
  · by_cases hut : u = t
    · subst hut
      exact h.without
    · rw [settle_other s hut]
      exact hothers u hu

end settle

/-! ### steps -/

section steps

variable {act body J} {s s' : Pool C D R δ A} {l : PoolStep C} {t : Nat} {c : C} {d : δ}
  {q : LockProg D A R}

/-- An operation of a thread without the semaphore: it gets it, or does what nobody notices. -/
theorem Without.op {o : LockOp D} {k : o.Ans A → LockProg D A R} {b : Bool} {r : o.Ans A}
    {sh : Shared δ} (h : Without act body J (.busy c (.op o k) b : ThreadState C D R A))
    (hr : LockProg.handle act o s.shared = some (r, sh)) :
    (∃ k', o = .wait ∧ body c = .op .wait k' ∧ k r = k' () ∧ insideAfter o b = true ∧
        0 < s.shared.sem ∧ sh = ⟨s.shared.sem - 1, s.shared.data⟩) ∨
      (∃ g, (∃ o', o = .data o') ∧ LockProg.Unseen act g ∧ sh = ⟨s.shared.sem, g s.shared.data⟩ ∧
        insideAfter o b = false ∧ LockProg.Tail act (Late J c) (k r)) := by
  cases h with
  | start hk =>
      simp only [LockProg.handle] at hr
      split at hr
      · contradiction
      · next hpos =>
          obtain rfl := (congrArg Prod.snd (Option.some.inj hr)).symm
          exact .inl ⟨_, rfl, hk, rfl, rfl, Nat.pos_of_ne_zero hpos, rfl⟩
  | tail htail =>
      cases htail with
      | data hquiet hk =>
          obtain ⟨g, hg, hgs⟩ := hquiet
          obtain rfl := (congrArg Prod.snd (Option.some.inj hr)).symm
          exact .inr ⟨g, ⟨_, rfl⟩, hg, by rw [hgs], rfl, hk r⟩

/-- What nobody notices does not disturb the thread that has the semaphore. -/
theorem Holding.unseen (h : Holding act body J s t c d q) {g : δ → δ} (hg : LockProg.Unseen act g) :
    Holding act body J { s with shared := ⟨s.shared.sem, g s.shared.data⟩ } t c d q := by
  obtain ⟨hsem, hJ, hentered, ⟨k, d', f, p, hk, hq, hf, hp, hdata⟩, hothers⟩ := h
  refine ⟨hsem, hJ, hentered, ⟨k, d', fun d => g (f d), p, hk, hq, hg.comp hf, hp, ?_⟩, hothers⟩
  rw [hg.toLock, hdata]

/-- The thread with the semaphore goes on: it keeps it, or returns with it. -/
theorem holding_or_lost (s : Pool C D R δ A) (hJu : ∀ g log d, LockProg.Unseen act g → J log d → J log (g d))
    (hsem : s.shared.sem = 0) (hJ : J s.completed d) (hentered : KeepsAt act body J d c)
    {k : Unit → LockProg D A R} {d' : δ} {g : δ → δ} {r : LockProg D A R}
    (hk : body c = .op .wait k) (hq : LockProg.toLock act (k ()) d = (q, d'))
    (hg : LockProg.Unseen act g) (hr : LockProg.toLock act r s.shared.data = (q, g d'))
    (hothers : ∀ u, u ≠ t → Without act body J (s.threads u)) :
    Holding act body J (s.settle t c true r) t c d q ∨
      (∃ v, q = .ret v) ∧ (s.settle t c true r).shared.sem = 0 ∧
        Calm act body J (s.settle t c true r) := by
  cases r with
  | ret v =>
      obtain ⟨rfl, hd⟩ := Prod.mk.inj hr
      refine .inr ⟨⟨v, rfl⟩, hsem, ?_, fun u => ?_⟩
      · have hkeep := hentered _ k hJ hk
        rw [hq] at hkeep
        simp only [settle_ret]
        rw [hd]
        exact hJu g _ _ hg hkeep
      · by_cases hu : u = t
        · subst hu
          simpa using Without.idle
        · rw [settle_other s hu]
          exact hothers u hu
  | op o k' =>
      refine .inl ⟨hsem, hJ, hentered, ⟨k, d', g, _, hk, hq, hg, ?_, hr⟩, fun u hu => ?_⟩
      · simp
      · rw [settle_other s hu]
        exact hothers u hu

/-- A step while nobody has the semaphore: nobody gets it, or one thread does. -/
theorem Calm.step (hbody : ∀ c, Rest act body J c (body c))
    (hJu : ∀ g log d, LockProg.Unseen act g → J log d → J log (g d)) (h : Calm act body J s)
    (hle : s.shared.sem ≤ 1) (hl : s.shared.sem = 1 → Getting (KeepsAt act body J) s l)
    (hs : Pool.step act body s l = some s') :
    (Calm act body J s' ∧ s'.shared.sem = s.shared.sem ∧ ∀ P, Getting P s l) ∨
      ∃ t c q, s.shared.sem = 1 ∧ (∀ P, Getting P s l ↔ P s.shared.data c) ∧
        (PostsAt act body s.shared.data c ↔ ∃ k, q = .op .post k) ∧
        (Holding act body J s' t c s.shared.data q ∨
          (∃ v, q = .ret v) ∧ s'.shared.sem = 0 ∧ Calm act body J s') := by
  obtain ⟨t, c, rfl, hidle, rfl⟩ | ⟨t, c, o, k, b, r, sh, rfl, hbusy, hr, rfl⟩ := step_cases hs
  · exact .inl ⟨(hbody c).calm h.keeps fun u _ => h.without u, by rw [settle_shared],
      fun _ => trivial⟩
  · obtain ⟨k', rfl, hk', hr', hin, hpos, rfl⟩ | ⟨g, ⟨o', rfl⟩, hg, rfl, hin, htail⟩ :=
      Without.op (hbusy ▸ h.without t) hr
    · have hget : ∀ P : δ → C → Prop, Getting P s (.step t) ↔ P s.shared.data c := fun P => by
        simp [Getting, hbusy, ThreadState.atWait, ThreadState.call?]
      have hone : s.shared.sem = 1 := by omega
      refine .inr ⟨t, c, (LockProg.toLock act (k' ()) s.shared.data).1, hone, hget, ?_, ?_⟩
      · constructor
        · intro hpost
          exact hpost k' hk'
        · rintro ⟨k'', hk''⟩ k hk
          obtain rfl := eq_of_heq (Prog.op.inj (hk'.symm.trans hk)).2
          exact ⟨k'', hk''⟩
      · rw [hin, hr']
        refine holding_or_lost { s with shared := ⟨s.shared.sem - 1, s.shared.data⟩ } hJu ?_ h.keeps ((hget _).mp (hl hone)) hk' rfl (LockProg.Unseen.id act) rfl
          fun u _ => h.without u
        simp [hone]
    · refine .inl ⟨?_, by rw [settle_shared], fun P => ?_⟩
      · rw [hin]
        exact Rest.calm (.inr htail) (hJu g _ _ hg h.keeps) fun u _ => h.without u
      · simp [Getting, hbusy, ThreadState.atWait]

/-- The post of the thread with the semaphore. -/
theorem Holding.post (hJu : ∀ g log d, LockProg.Unseen act g → J log d → J log (g d))
    (h : Holding act body J s t c d q) {k : Unit → LockProg D A R}
    (hp : s.threads t = .busy c (.op .post k) true) :
    q = .op .post k ∧ Calm act body J
      ({ s with shared := ⟨afterPost s.shared.sem, s.shared.data⟩ }.settle t c false (k ())) := by
  obtain ⟨hsem, hJ, hentered, ⟨k₀, d', g, p, hk, hq, hg, hp', hdata⟩, hothers⟩ := h
  obtain ⟨-, rfl, -⟩ : c = c ∧ .op .post k = p ∧ true = true := by
    rw [hp] at hp'
    simpa using hp'
  obtain ⟨rfl, hgd⟩ := Prod.mk.inj hdata
  have hkeep := hentered _ k₀ hJ hk
  rw [hq] at hkeep
  refine ⟨rfl, ?_⟩
  obtain ⟨v, hv, hJv⟩ | ⟨hJd, htail⟩ := hkeep
  · rw [hv]
    refine ⟨?_, fun u => ?_⟩
    · simp only [settle_ret]
      rw [hgd]
      exact hJu g _ _ hg hJv
    · by_cases hu : u = t
      · subst hu
        simpa using Without.idle
      · rw [settle_other _ hu]
        exact hothers u hu
  · refine Rest.calm (.inr htail) ?_ hothers
    dsimp only
    rw [hgd]
    exact hJu g _ _ hg hJd

/-- A step while thread `t` has the semaphore: nobody gets it, and `t` keeps it, posts, or
returns with it. -/
theorem Holding.step (hbody : ∀ c, Rest act body J c (body c))
    (hJu : ∀ g log d, LockProg.Unseen act g → J log d → J log (g d))
    (h : Holding act body J s t c d q) (hs : Pool.step act body s l = some s') :
    (∀ P, Getting P s l) ∧ (Holding act body J s' t c d q ∨
      (∃ k, q = .op .post k) ∧ s'.shared.sem = 1 ∧ Calm act body J s' ∨
      (∃ v, q = .ret v) ∧ s'.shared.sem = 0 ∧ Calm act body J s') := by
  obtain ⟨k₀, d', g, p, hk, hq, hg, hp, hdata⟩ := h.begun
  obtain ⟨u, c', rfl, hidle, rfl⟩ | ⟨u, c', o, k, b, r, sh, rfl, hbusy, hr, rfl⟩ := step_cases hs
  · have hne : u ≠ t := fun hu => by rw [hu, hp] at hidle; cases hidle
    exact ⟨fun _ => trivial, .inl ((hbody c').holding h hne)⟩
  · -- whoever is at a wait is not let in
    have hnowait : o ≠ .wait := by
      rintro rfl
      simp [LockProg.handle, h.sem] at hr
    have hget : ∀ P : δ → C → Prop, Getting P s (.step u) := fun P hwait => by
      cases o <;> simp_all [ThreadState.atWait]
    refine ⟨hget, ?_⟩
    by_cases hu : u = t
    · subst hu
      obtain ⟨rfl, rfl, rfl⟩ : c' = c ∧ .op o k = p ∧ b = true := by
        rw [hbusy] at hp
        simpa using hp
      cases o with
      | wait => contradiction
      | post =>
          obtain ⟨rfl, hcalm⟩ := h.post hJu hbusy
          obtain rfl := (congrArg Prod.snd (Option.some.inj hr)).symm
          refine .inr (.inl ⟨⟨k, rfl⟩, ?_, hcalm⟩)
          simp [h.sem, afterPost, SEM_VALUE_MAX]
      | data o =>
          obtain ⟨rfl, rfl⟩ := Prod.mk.inj (Option.some.inj hr)
          exact (holding_or_lost
            { s with shared := ⟨s.shared.sem, (act o s.shared.data).2⟩ } hJu h.sem h.keeps h.entered hk hq hg hdata h.without).imp_right .inr
    · obtain ⟨-, rfl, -⟩ | ⟨f, -, hf, rfl, hin, htail⟩ := Without.op (hbusy ▸ h.without u hu) hr
      · contradiction
      · rw [hin]
        exact .inl (Rest.holding (.inr htail) (h.unseen hf) hu)

end steps

/-! ### runs -/

section runs

variable {act body J} {d₀ : δ} {s s' : Pool C D R δ A} {l : PoolStep C}

theorem PoolInv.step (hbody : ∀ c, Rest act body J c (body c))
    (hJu : ∀ g log d, LockProg.Unseen act g → J log d → J log (g d)) (h : PoolInv act body J s)
    (hl : Getting (KeepsAt act body J) s l) (hs : Pool.step act body s l = some s') :
    PoolInv act body J s' := by
  cases h with
  | free hsem h =>
      obtain ⟨hcalm, hsem', -⟩ | ⟨t, c, q, -, -, -, hnext⟩ :=
        h.step hbody hJu (Nat.le_of_eq hsem) (fun _ => hl) hs
      · exact .free (hsem'.trans hsem) hcalm
      · obtain hheld | ⟨-, hsem', hcalm⟩ := hnext
        · exact .held _ _ _ _ hheld
        · exact .lost hsem' hcalm
  | held t c d q h =>
      obtain ⟨-, hheld | ⟨-, hsem', hcalm⟩ | ⟨-, hsem', hcalm⟩⟩ := h.step hbody hJu hs
      · exact .held _ _ _ _ hheld
      · exact .free hsem' hcalm
      · exact .lost hsem' hcalm
  | lost hsem h =>
      obtain ⟨hcalm, hsem', -⟩ | ⟨t, c, q, hone, -⟩ :=
        h.step hbody hJu (by omega) (fun _ => hl) hs
      · exact .lost (hsem'.trans hsem) hcalm
      · omega

theorem poolInv_of_run (hbody : ∀ c, Rest act body J c (body c))
    (hJu : ∀ g log d, LockProg.Unseen act g → J log d → J log (g d)) (hJ₀ : J [] d₀)
    {tr : List (Pool C D R δ A × PoolStep C)} (h : (machine act body d₀).Run tr s)
    (hl : ∀ p ∈ tr, Getting (KeepsAt act body J) p.1 p.2) : PoolInv act body J s := by
  refine Machine.Run.invariant_of_steps (I := fun _ s => PoolInv act body J s) ?_ ?_ h hl
  · rintro s rfl
    exact .free rfl ⟨hJ₀, fun _ => .idle⟩
  · intro _ s l t hI hl hs
    exact hI.step hbody hJu hl hs

theorem Without.inside {x : ThreadState C D R A} (h : Without act body J x) : x.inside = false := by
  cases h <;> rfl

/-- **Mutual exclusion**: at most one thread is inside. -/
theorem PoolInv.inside_unique (h : PoolInv act body J s) {t u : Nat}
    (ht : (s.threads t).inside = true) (hu : (s.threads u).inside = true) : t = u := by
  cases h with
  | free _ h | lost _ h => simp [(h.without t).inside] at ht
  | held w c d q h =>
      have honly : ∀ x, (s.threads x).inside = true → x = w := by
        intro x hx
        by_contra hne
        simp [(h.without x hne).inside] at hx
      rw [honly t ht, honly u hu]

/-- What the completed calls say about the data. -/
theorem PoolInv.keeps (h : PoolInv act body J s) : ∃ d, J s.completed d := by
  cases h with
  | free _ h | lost _ h => exact ⟨_, h.keeps⟩
  | held t c d q h => exact ⟨d, h.keeps⟩

/-! ### the semaphore is to be had again -/

variable (act body d₀) in
/-- Some continuation makes the semaphore available. -/
def Usable (s : Pool C D R δ A) : Prop :=
  ∃ t, (machine act body d₀).Reach (fun _ => True) s t ∧ 0 < t.shared.sem

/-- A thread that comes to its post is let go on until then. -/
theorem usable_of_toLock {t : Nat} {c : C} {p : LockProg D A R} {b : Bool}
    {k : Unit → LockProg D A R} (hp : s.threads t = .busy c p b)
    (hpost : (LockProg.toLock act p s.shared.data).1 = .op .post k) : Usable act body d₀ s := by
  induction p generalizing s b with
  | ret v => cases hpost
  | op o k' ih =>
      cases o with
      | wait => cases hpost
      | post =>
          have hstep : (machine act body d₀).step s (.step t) =
              some ({ s with shared := ⟨afterPost s.shared.sem, s.shared.data⟩ }.settle t c false
                (k' ())) := by
            simp only [machine, Pool.step, hp, LockProg.handle_post, Option.map_some, insideAfter]
          have hpos : 0 < afterPost s.shared.sem := by
            unfold afterPost
            split
            · exact Nat.succ_pos _
            · next hmax => exact Nat.lt_of_lt_of_le (by decide) (Nat.le_of_not_lt hmax)
          exact ⟨_, .single trivial hstep, by rw [settle_shared]; exact hpos⟩
      | data o =>
          -- the rest of the program is no return, so the thread stays in its call
          obtain ⟨o', k'', hrest⟩ : ∃ o' k'', k' (act o s.shared.data).1 = .op o' k'' := by
            cases hr : k' (act o s.shared.data).1 with
            | ret v => rw [LockProg.toLock_data, hr] at hpost; cases hpost
            | op o' k'' => exact ⟨o', k'', rfl⟩
          have hstep : (machine act body d₀).step s (.step t) =
              some ({ s with shared := ⟨s.shared.sem, (act o s.shared.data).2⟩ }.settle t c b
                (k' (act o s.shared.data).1)) := by
            simp only [machine, Pool.step, hp, LockProg.handle_data, Option.map_some, insideAfter]
          obtain ⟨u, hu, hpos⟩ := ih (act o s.shared.data).1 (b := b)
            (s := { s with shared := ⟨s.shared.sem, (act o s.shared.data).2⟩ }.settle t c b
              (k' (act o s.shared.data).1)) (by rw [hrest, settle_op]; simp)
            (by rw [settle_shared]; exact hpost)
          exact ⟨u, .head trivial hstep hu, hpos⟩

/-- The semaphore has been lost: nobody has it, or a thread that does not come to its post. -/
def Dead (act : (o : D) → δ → A o × δ) (body : C → LockProg D A R) (J : List (C × R) → δ → Prop)
    (s : Pool C D R δ A) : Prop :=
  s.shared.sem = 0 ∧ Calm act body J s ∨
    ∃ t c d q, Holding act body J s t c d q ∧ ¬ ∃ k, q = .op .post k

theorem Dead.sem (h : Dead act body J s) : s.shared.sem = 0 := by
  obtain ⟨hsem, -⟩ | ⟨t, c, d, q, h, -⟩ := h
  · exact hsem
  · exact h.sem

theorem Dead.step (hbody : ∀ c, Rest act body J c (body c))
    (hJu : ∀ g log d, LockProg.Unseen act g → J log d → J log (g d)) (h : Dead act body J s)
    (hs : Pool.step act body s l = some s') : Dead act body J s' := by
  obtain ⟨hsem, h⟩ | ⟨t, c, d, q, h, hq⟩ := h
  · obtain ⟨hcalm, hsem', -⟩ | ⟨t, c, q, hone, -⟩ :=
      h.step hbody hJu (by omega) (fun hone => by omega) hs
    · exact .inl ⟨hsem'.trans hsem, hcalm⟩
    · omega
  · obtain ⟨-, hheld | ⟨hpost, -⟩ | ⟨-, hsem', hcalm⟩⟩ := h.step hbody hJu hs
    · exact .inr ⟨t, c, d, q, hheld, hq⟩
    · exact absurd hpost hq
    · exact .inl ⟨hsem', hcalm⟩

theorem Dead.not_usable (hbody : ∀ c, Rest act body J c (body c))
    (hJu : ∀ g log d, LockProg.Unseen act g → J log d → J log (g d)) (h : Dead act body J s) :
    ¬ Usable act body d₀ s := by
  rintro ⟨t, ht, hpos⟩
  have hdead := ht.invariant (J := Dead act body J) (fun s l t h hs => h.step hbody hJu hs) h
  have := hdead.sem
  omega

theorem Holding.usable {t : Nat} {c : C} {d : δ} {k : Unit → LockProg D A R}
    (h : Holding act body J s t c d (.op .post k)) : Usable act body d₀ s := by
  obtain ⟨_, _, _, _, -, -, -, hp, hdata⟩ := h.begun
  exact usable_of_toLock hp (congrArg Prod.fst hdata)

theorem usable_of_sem (h : 0 < s.shared.sem) : Usable act body d₀ s := ⟨s, .refl s, h⟩

/-- **The semaphore stays to be had** at every point of a run exactly where each call that got
it comes to a post. -/
theorem usable_iff (hbody : ∀ c, Rest act body J c (body c))
    (hJu : ∀ g log d, LockProg.Unseen act g → J log d → J log (g d)) (hJ₀ : J [] d₀)
    {tr : List (Pool C D R δ A × PoolStep C)} (h : (machine act body d₀).Run tr s)
    (hl : ∀ p ∈ tr, Getting (KeepsAt act body J) p.1 p.2) :
    ((∀ p ∈ tr, Usable act body d₀ p.1) ∧ Usable act body d₀ s) ↔
      ∀ p ∈ tr, Getting (PostsAt act body) p.1 p.2 := by
  refine h.stays_iff_meets (H := Getting (KeepsAt act body J)) (I := fun _ s => PoolInv act body J s)
    ?_ ?_ ?_ hl
  · rintro s rfl
    exact ⟨.free rfl ⟨hJ₀, fun _ => .idle⟩, usable_of_sem Nat.one_pos⟩
  · intro _ s l s' hI husable hl hs
    cases hI with
    | free hsem h =>
        obtain ⟨-, hsem', hget⟩ | ⟨t, c, q, -, hget, hposts, hnext⟩ :=
          h.step hbody hJu (Nat.le_of_eq hsem) (fun _ => hl) hs
        · exact iff_of_true (usable_of_sem (by omega)) (hget _)
        · rw [hget, hposts]
          constructor
          · intro husable'
            by_contra hq
            refine Dead.not_usable hbody hJu ?_ husable'
            obtain hheld | ⟨-, hsem', hcalm⟩ := hnext
            · exact .inr ⟨t, c, _, q, hheld, hq⟩
            · exact .inl ⟨hsem', hcalm⟩
          · rintro ⟨k, rfl⟩
            obtain hheld | ⟨⟨v, hv⟩, -⟩ := hnext
            · exact hheld.usable
            · cases hv
    | held t c d q h =>
        obtain ⟨hget, hnext⟩ := h.step hbody hJu hs
        refine iff_of_true ?_ (hget _)
        have hq : ∃ k, q = .op .post k := by
          by_contra hq
          exact Dead.not_usable hbody hJu (.inr ⟨t, c, d, q, h, hq⟩) husable
        obtain ⟨k, rfl⟩ := hq
        obtain hheld | ⟨-, hsem', -⟩ | ⟨⟨v, hv⟩, -⟩ := hnext
        · exact hheld.usable
        · exact usable_of_sem (by omega)
        · cases hv
    | lost hsem h => exact absurd husable (Dead.not_usable hbody hJu (.inl ⟨hsem, h⟩))
  · intro _ s l s' hI _ hl _ hs
    exact hI.step hbody hJu hl hs

end runs

end Pool

end Cmsc421
