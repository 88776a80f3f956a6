import Cmsc421.Prog
import Mathlib.Logic.Function.Basic

/-!
# Cmsc421.Mutex

Programs that protect shared data with one semaphore, for any data, any set of
data operations and any set of calls.

A `LockProg` is a program whose operations are a wait and a post on the
semaphore and operations on the data.  `Pool` is the machine of any number of
threads, each making one call after the other, where a step is a single
operation of a single thread; a thread returns with its last operation.

The library's result is that calls which behave inside their critical section
are atomic.  `finish` runs the rest of a critical section — data operations,
then one post, then the return — and `atomic` does it for a whole call.  In a
run where a call only ever gets the semaphore when its critical section is of
that shape on the data it finds (`EntersSafely`), the invariant `LockInv`
holds: at most one thread is inside (`inside_unique`) and the completed calls
are a serial history of atomic calls (`LockInv.serial`).
-/

namespace Cmsc421

/-- The operations of a lock-protected program: the semaphore's two, and those
on the data. -/
inductive LockOp (D : Type) : Type
  | wait
  | post
  | data (o : D)

/-- What an operation answers: only data operations answer something. -/
abbrev LockOp.Ans {D : Type} (A : D → Type) : LockOp D → Type
  | .wait => Unit
  | .post => Unit
  | .data o => A o

/-- A program over one semaphore and data operations `D` with answers `A`. -/
abbrev LockProg (D : Type) (A : D → Type) (α : Type) : Type := Prog (LockOp D) (LockOp.Ans A) α

/-- The largest value of a POSIX semaphore. -/
def SEM_VALUE_MAX : Nat := 2147483647

/-- The value after `sem_post`: one more, except at the maximum, where the
post fails and changes nothing. -/
def afterPost (v : Nat) : Nat := if v < SEM_VALUE_MAX then v + 1 else v

theorem afterPost_of_lt {v : Nat} (h : v < SEM_VALUE_MAX) : afterPost v = v + 1 := if_pos h

theorem afterPost_le {v : Nat} (h : v ≤ SEM_VALUE_MAX) : afterPost v ≤ SEM_VALUE_MAX := by
  unfold afterPost
  split <;> omega

/-- The semaphore's value and the data it protects. -/
structure Shared (δ : Type) where
  sem : Nat
  data : δ

namespace LockProg

variable {D δ α β : Type} {A : D → Type} (act : (o : D) → δ → A o × δ)

/-- The outcome of an operation; a wait blocks while the semaphore is zero. -/
def handle : (o : LockOp D) → Shared δ → Option (o.Ans A × Shared δ)
  | .wait, s => if s.sem = 0 then none else some ((), { s with sem := s.sem - 1 })
  | .post, s => some ((), { s with sem := afterPost s.sem })
  | .data o, s => some ((act o s.data).1, { s with data := (act o s.data).2 })

/-- Run a call alone; `none` when it waits forever. -/
abbrev runAlone (p : LockProg D A α) (s : Shared δ) : Option (α × Shared δ) := p.run (handle act) s

@[simp] theorem handle_wait_succ (n : Nat) (d : δ) :
    handle act .wait ⟨n + 1, d⟩ = some ((), ⟨n, d⟩) := by simp [handle]

@[simp] theorem handle_wait_zero (d : δ) : handle act .wait ⟨0, d⟩ = none := by simp [handle]

@[simp] theorem handle_post (s : Shared δ) :
    handle act .post s = some ((), ⟨afterPost s.sem, s.data⟩) := rfl

@[simp] theorem handle_data (o : D) (s : Shared δ) :
    handle act (.data o) s = some ((act o s.data).1, ⟨s.sem, (act o s.data).2⟩) := rfl

/-- A program run alone does not take the semaphore past its maximum. -/
theorem sem_le_of_runAlone {p : LockProg D A α} {s s' : Shared δ} {a : α}
    (h : p.runAlone act s = some (a, s')) (hs : s.sem ≤ SEM_VALUE_MAX) : s'.sem ≤ SEM_VALUE_MAX := by
  induction p generalizing s with
  | ret b =>
      obtain ⟨-, rfl⟩ := Prod.mk.inj (Option.some.inj h)
      exact hs
  | op o k ih =>
      obtain ⟨r, hr, hk⟩ := Option.bind_eq_some_iff.mp h
      refine ih r.1 hk ?_
      cases o with
      | wait =>
          simp only [handle] at hr
          split at hr
          · contradiction
          · obtain rfl := Option.some.inj hr
            dsimp only
            omega
      | post =>
          obtain rfl := Option.some.inj hr
          exact afterPost_le hs
      | data o =>
          obtain rfl := Option.some.inj hr
          exact hs

/-! ## data sections -/

/-- Run a program that only works on the data; `none` if it touches the
semaphore. -/
def dataRun : LockProg D A α → δ → Option (α × δ)
  | .ret a, d => some (a, d)
  | .op (.data o) k, d => dataRun (k (act o d).1) (act o d).2
  | .op .wait _, _ => none
  | .op .post _, _ => none

@[simp] theorem dataRun_ret (a : α) (d : δ) : dataRun act (.ret a) d = some (a, d) := rfl

@[simp] theorem dataRun_data (o : D) (k : A o → LockProg D A α) (d : δ) :
    dataRun act (.op (.data o) k) d = dataRun act (k (act o d).1) (act o d).2 := rfl

@[simp] theorem dataRun_perform (o : D) (d : δ) :
    dataRun act (Prog.perform (LockOp.data o) : LockProg D A (A o)) d = some (act o d) := rfl

/-- Data sections compose. -/
@[simp] theorem dataRun_bind (p : LockProg D A α) (f : α → LockProg D A β) (d : δ) :
    dataRun act (p >>= f) d = (dataRun act p d).bind fun r => dataRun act (f r.1) r.2 := by
  induction p generalizing d with
  | ret a => rfl
  | op o k ih =>
      cases o with
      | wait => rfl
      | post => rfl
      | data o => exact ih (act o d).1 (act o d).2

/-- A loop of data sections. -/
theorem dataRun_forM {f : β → LockProg D A Unit} {g : δ → β → δ}
    (h : ∀ b d, dataRun act (f b) d = some ((), g d b)) (l : List β) (d : δ) :
    dataRun act (l.forM f) d = some ((), l.foldl g d) := by
  induction l generalizing d with
  | nil => rfl
  | cons b l ih =>
      change dataRun act (f b >>= fun _ => l.forM f) d = _
      rw [dataRun_bind, h]
      exact ih (g d b)

/-- A loop with an accumulator whose rounds only read the data. -/
theorem dataRun_foldlM {f : α → β → LockProg D A α} {g : α → β → α} {d : δ}
    (h : ∀ a b, dataRun act (f a b) d = some (g a b, d)) (l : List β) (a : α) :
    dataRun act (l.foldlM f a) d = some (l.foldl g a, d) := by
  induction l generalizing a with
  | nil => rfl
  | cons b l ih =>
      rw [List.foldlM_cons, dataRun_bind, h]
      exact ih (g a b)

/-- Run alone, a data section leaves the semaphore as it was. -/
theorem runAlone_of_dataRun {p : LockProg D A α} {d d' : δ} {a : α} {n : Nat}
    (h : dataRun act p d = some (a, d')) : p.runAlone act ⟨n, d⟩ = some (a, ⟨n, d'⟩) := by
  induction p generalizing d with
  | ret b =>
      obtain ⟨rfl, rfl⟩ := Prod.mk.inj (Option.some.inj h)
      rfl
  | op o k ih =>
      cases o with
      | wait => simp [dataRun] at h
      | post => simp [dataRun] at h
      | data o => exact ih (act o d).1 h

/-- Run alone, a data section in front of a program. -/
theorem runAlone_bind {p : LockProg D A α} {f : α → LockProg D A β} {d d' : δ} {a : α} {n : Nat}
    (h : dataRun act p d = some (a, d')) :
    (p >>= f).runAlone act ⟨n, d⟩ = (f a).runAlone act ⟨n, d'⟩ := by
  have hp : p.run (handle act) ⟨n, d⟩ = some (a, ⟨n, d'⟩) := runAlone_of_dataRun act h
  rw [runAlone, Prog.run_bind, hp, Option.bind_some]

/-- Run alone, a program whose result is wrapped up. -/
theorem runAlone_bind_ret (p : LockProg D A α) (f : α → β) (s : Shared δ) :
    (p >>= fun a => .ret (f a)).runAlone act s = (p.runAlone act s).map fun r => (f r.1, r.2) := by
  rw [runAlone, Prog.run_bind, Option.map_eq_bind]
  rfl

/-! ## critical sections -/

/-- Run the rest of a critical section: data operations, one post and the
return.  `none` if the program does anything else. -/
def finish : LockProg D A α → δ → Option (α × δ)
  | .op (.data o) k, d => finish (k (act o d).1) (act o d).2
  | .op .post k, d =>
      match k () with
      | .ret a => some (a, d)
      | .op _ _ => none
  | .op .wait _, _ => none
  | .ret _, _ => none

@[simp] theorem finish_data (o : D) (k : A o → LockProg D A α) (d : δ) :
    finish act (.op (.data o) k) d = finish act (k (act o d).1) (act o d).2 := rfl

@[simp] theorem finish_post_ret (a : α) (d : δ) :
    finish act (.op .post fun _ => .ret a) d = some (a, d) := rfl

/-- A data section in front of the rest of a critical section. -/
theorem finish_bind {p : LockProg D A α} {f : α → LockProg D A β} {d d' : δ} {a : α}
    (h : dataRun act p d = some (a, d')) : finish act (p >>= f) d = finish act (f a) d' := by
  induction p generalizing d with
  | ret b =>
      obtain ⟨rfl, rfl⟩ := Prod.mk.inj (Option.some.inj h)
      rfl
  | op o k ih =>
      cases o with
      | wait => simp [dataRun] at h
      | post => simp [dataRun] at h
      | data o => exact ih (act o d).1 h

/-- Run alone, the rest of a critical section posts once. -/
theorem runAlone_of_finish {p : LockProg D A α} {d d' : δ} {a : α} {n : Nat}
    (h : finish act p d = some (a, d')) : p.runAlone act ⟨n, d⟩ = some (a, ⟨afterPost n, d'⟩) := by
  induction p generalizing d with
  | ret b => simp [finish] at h
  | op o k ih =>
      cases o with
      | wait => simp [finish] at h
      | data o => exact ih (act o d).1 h
      | post =>
          simp only [finish] at h
          split at h
          · next b hb =>
              obtain ⟨rfl, rfl⟩ := Prod.mk.inj (Option.some.inj h)
              simp [runAlone, hb]
          · contradiction

/-- What a call does to the data when nobody else runs and it behaves: wait,
then finish. -/
def atomic (p : LockProg D A α) (d : δ) : Option (α × δ) :=
  match p with
  | .op .wait k => finish act (k ()) d
  | _ => none

@[simp] theorem atomic_wait (k : Unit → LockProg D A α) (d : δ) :
    atomic act (.op .wait k) d = finish act (k ()) d := rfl

/-- Wrapping up the result of the rest of a critical section. -/
theorem finish_bind_ret (p : LockProg D A α) (f : α → β) (d : δ) :
    finish act (p >>= fun a => .ret (f a)) d = (finish act p d).map fun r => (f r.1, r.2) := by
  induction p generalizing d with
  | ret a => rfl
  | op o k ih =>
      cases o with
      | wait => rfl
      | data o => exact ih (act o d).1 (act o d).2
      | post =>
          rw [Prog.op_bind]
          cases hk : k () <;> simp [finish, hk]

/-- Wrapping up the result of a call. -/
theorem atomic_bind_ret (p : LockProg D A α) (f : α → β) (d : δ) :
    atomic act (p >>= fun a => .ret (f a)) d = (atomic act p d).map fun r => (f r.1, r.2) := by
  cases p with
  | ret a => rfl
  | op o k =>
      cases o with
      | wait => exact finish_bind_ret act (k ()) f d
      | data o => rfl
      | post => rfl

/-- An atomic call run alone while the semaphore is positive: it returns, and
takes and gives back the semaphore once. -/
theorem runAlone_of_atomic {p : LockProg D A α} {d d' : δ} {a : α} {n : Nat}
    (h : atomic act p d = some (a, d')) :
    p.runAlone act ⟨n + 1, d⟩ = some (a, ⟨afterPost n, d'⟩) := by
  unfold atomic at h
  split at h
  · next k => simpa [runAlone] using runAlone_of_finish act h
  · contradiction

/-- With the semaphore at zero it never returns. -/
theorem runAlone_zero_of_atomic {p : LockProg D A α} {d : δ} (h : (atomic act p d).isSome = true) :
    p.runAlone act ⟨0, d⟩ = none := by
  unfold atomic at h
  split at h
  · simp [runAlone]
  · contradiction

/-- An atomic call in front of a program. -/
theorem runAlone_call {p : LockProg D A α} {f : α → LockProg D A β} {d d' : δ} {a : α} {n : Nat}
    (h : atomic act p d = some (a, d')) :
    (p >>= f).runAlone act ⟨n + 1, d⟩ = (f a).runAlone act ⟨afterPost n, d'⟩ := by
  have hp : p.run (handle act) ⟨n + 1, d⟩ = some (a, ⟨afterPost n, d'⟩) := runAlone_of_atomic act h
  rw [runAlone, Prog.run_bind, hp, Option.bind_some]

/-- A program that calls it while the semaphore is zero never returns. -/
theorem runAlone_call_zero {p : LockProg D A α} {f : α → LockProg D A β} {d : δ}
    (h : (atomic act p d).isSome = true) : (p >>= f).runAlone act ⟨0, d⟩ = none := by
  have hp : p.run (handle act) ⟨0, d⟩ = none := runAlone_zero_of_atomic act h
  rw [runAlone, Prog.run_bind, hp, Option.bind_none]

end LockProg

/-! ## pools of threads -/

/-- A thread: between calls, or in the middle of one.  `inside` says that it is
between its wait and the matching post. -/
inductive ThreadState (C D R : Type) (A : D → Type) : Type
  | idle
  | busy (c : C) (p : LockProg D A R) (inside : Bool)

namespace ThreadState

variable {C D R : Type} {A : D → Type}

/-- Whether the thread is between its wait and the matching post. -/
def inside : ThreadState C D R A → Bool
  | .idle => false
  | .busy _ _ b => b

/-- The call the thread is in, if any. -/
def call? : ThreadState C D R A → Option C
  | .idle => none
  | .busy c _ _ => some c

/-- Whether the thread's next operation is a wait. -/
def atWait : ThreadState C D R A → Bool
  | .busy _ (.op .wait _) _ => true
  | _ => false

end ThreadState

/-- Any number of threads over shared data, and the calls completed so far
with their results, oldest first. -/
structure Pool (C D R δ : Type) (A : D → Type) where
  shared : Shared δ
  threads : Nat → ThreadState C D R A
  completed : List (C × R)

/-- A step of the pool: an idle thread begins a call, or a thread performs its
next operation. -/
inductive PoolStep (C : Type) : Type
  | call (t : Nat) (c : C)
  | step (t : Nat)

namespace Pool

variable {C D R δ : Type} {A : D → Type}
variable (act : (o : D) → δ → A o × δ) (body : C → LockProg D A R)

/-- Thread `t` goes on with the program `p` of its call `c`; it returns at once
where nothing is left to do. -/
def settle (s : Pool C D R δ A) (t : Nat) (c : C) (inside : Bool) : LockProg D A R → Pool C D R δ A
  | .ret v =>
      { s with
        threads := Function.update s.threads t .idle
        completed := s.completed ++ [(c, v)] }
  | .op o k => { s with threads := Function.update s.threads t (.busy c (.op o k) inside) }

/-- Whether a thread is inside after an operation. -/
def insideAfter (o : LockOp D) (inside : Bool) : Bool :=
  match o with
  | .wait => true
  | .post => false
  | .data _ => inside

/-- One step of one thread. -/
def step (s : Pool C D R δ A) : PoolStep C → Option (Pool C D R δ A)
  | .call t c =>
      match s.threads t with
      | .idle => some (s.settle t c false (body c))
      | .busy .. => none
  | .step t =>
      match s.threads t with
      | .busy c (.op o k) b =>
          (LockProg.handle act o s.shared).map fun r =>
            { s with shared := r.2 }.settle t c (insideAfter o b) (k r.1)
      | _ => none

/-- The machine of the pool: the semaphore is one, the data is `d₀`, nobody has
called anything. -/
def machine (d₀ : δ) : Machine (Pool C D R δ A) (PoolStep C) where
  init s := s = ⟨⟨1, d₀⟩, fun _ => .idle, []⟩
  step := step act body

/-! ### the invariant -/

/-- The completed calls are the serial history of atomic calls that leads from
`d₀` to `d`. -/
inductive Serial (d₀ : δ) : List (C × R) → δ → Prop
  | nil : Serial d₀ [] d₀
  | call {log : List (C × R)} {d d' : δ} {c : C} {v : R} (h : Serial d₀ log d)
      (ha : LockProg.atomic act (body c) d = some (v, d')) : Serial d₀ (log ++ [(c, v)]) d'

/-- What every atomic call preserves, a serial history preserves. -/
theorem Serial.invariant {J : List (C × R) → δ → Prop} {d₀ : δ} (h₀ : J [] d₀)
    (hcall : ∀ log c v d d', J log d → LockProg.atomic act (body c) d = some (v, d') →
      J (log ++ [(c, v)]) d') {log : List (C × R)} {d : δ} (h : Serial act body d₀ log d) :
    J log d := by
  induction h with
  | nil => exact h₀
  | call _ ha ih => exact hcall _ _ _ _ _ ih ha

/-- A thread that has not yet got the semaphore: idle, or at the start of its
call. -/
def Outside : ThreadState C D R A → Prop
  | .idle => True
  | .busy c p b => b = false ∧ p = body c

/-- Either the semaphore is free, nobody is inside and the data is what the
serial history gives; or it is taken, exactly one thread is inside, and what is
left of its critical section completes its call atomically. -/
inductive LockInv (d₀ : δ) (s : Pool C D R δ A) : Prop
  | free (hsem : s.shared.sem = 1) (hser : Serial act body d₀ s.completed s.shared.data)
      (hout : ∀ t, Outside body (s.threads t))
  | held (t : Nat) (c : C) (p : LockProg D A R) (v : R) (d d' : δ)
      (hsem : s.shared.sem = 0) (hser : Serial act body d₀ s.completed d)
      (ht : s.threads t = .busy c p true)
      (hat : LockProg.atomic act (body c) d = some (v, d'))
      (hfin : LockProg.finish act p s.shared.data = some (v, d'))
      (hout : ∀ u, u ≠ t → Outside body (s.threads u))

/-- The condition on a step: a call that gets the semaphore finds the data in
a state where its critical section behaves. -/
def EntersSafely (s : Pool C D R δ A) : PoolStep C → Prop
  | .call _ _ => True
  | .step t => (s.threads t).atWait = true → ∀ c ∈ (s.threads t).call?,
      (LockProg.atomic act (body c) s.shared.data).isSome = true

@[simp] theorem settle_op (s : Pool C D R δ A) (t : Nat) (c : C) (b : Bool) (o : LockOp D)
    (k : o.Ans A → LockProg D A R) :
    s.settle t c b (.op o k) =
      { s with threads := Function.update s.threads t (.busy c (.op o k) b) } := rfl

@[simp] theorem settle_ret (s : Pool C D R δ A) (t : Nat) (c : C) (b : Bool) (v : R) :
    s.settle t c b (.ret v) =
      { s with threads := Function.update s.threads t .idle
               completed := s.completed ++ [(c, v)] } := rfl

variable {act body}

/-- A critical section that finishes is not over: its next step is an
operation. -/
private theorem exists_op_of_finish {p : LockProg D A R} {d d' : δ} {v : R}
    (h : LockProg.finish act p d = some (v, d')) : ∃ o k, p = .op o k := by
  cases p with
  | ret a => simp [LockProg.finish] at h
  | op o k => exact ⟨o, k, rfl⟩

private theorem outside_update {threads : Nat → ThreadState C D R A} {t : Nat}
    {x : ThreadState C D R A} (hx : Outside body x)
    (h : ∀ u, u ≠ t → Outside body (threads u)) (u : Nat) :
    Outside body (Function.update threads t x u) := by
  by_cases hu : u = t
  · subst hu; simpa using hx
  · simpa [hu] using h u hu

/-- What a step of the pool can be: a call begins, or a busy thread performs its
operation and settles on the rest. -/
theorem step_cases {s s' : Pool C D R δ A} {l : PoolStep C} (h : Pool.step act body s l = some s') :
    (∃ t c, l = .call t c ∧ s.threads t = .idle ∧ s' = s.settle t c false (body c)) ∨
    (∃ t c o k b r sh, l = .step t ∧ s.threads t = .busy c (.op o k) b ∧
      LockProg.handle act o s.shared = some (r, sh) ∧
      s' = { s with shared := sh }.settle t c (insideAfter o b) (k r)) := by
  cases l with
  | call t c =>
      simp only [Pool.step] at h
      split at h
      · next hidle => exact .inl ⟨t, c, rfl, hidle, (Option.some.inj h).symm⟩
      · contradiction
  | step t =>
      simp only [Pool.step] at h
      split at h
      · next c o k b hbusy =>
          obtain ⟨⟨r, sh⟩, hr, hs⟩ := Option.map_eq_some_iff.mp h
          exact .inr ⟨t, c, o, k, b, r, sh, rfl, hbusy, hr, hs.symm⟩
      · contradiction

/-- A thread outside at an operation is at the wait its call begins with. -/
private theorem wait_of_outside (hbody : ∀ c, ∃ k, body c = .op .wait k) {c : C} {o : LockOp D}
    {k : o.Ans A → LockProg D A R} {b : Bool}
    (h : Outside body (.busy c (.op o k) b : ThreadState C D R A)) : o = .wait := by
  obtain ⟨-, hp⟩ := h
  obtain ⟨k', hk'⟩ := hbody c
  rw [hk'] at hp
  exact (Prog.op.inj hp).1

/-- Beginning a call keeps the invariant: the caller is outside. -/
private theorem LockInv.begin (hbody : ∀ c, ∃ k, body c = .op .wait k) {d₀ : δ}
    {s : Pool C D R δ A} {t : Nat} {c : C} (hinv : LockInv act body d₀ s)
    (hidle : s.threads t = .idle) : LockInv act body d₀ (s.settle t c false (body c)) := by
  obtain ⟨k, hk⟩ := hbody c
  have hnew : Outside body (.busy c (.op .wait k) false : ThreadState C D R A) := ⟨rfl, hk.symm⟩
  rw [hk, settle_op]
  cases hinv with
  | free hsem hser hout =>
      exact .free hsem hser (outside_update hnew fun u _ => hout u)
  | held w c' p v d d' hsem hser ht hat hfin hout =>
      have hne : w ≠ t := fun h => by rw [h, hidle] at ht; cases ht
      refine .held w c' p v d d' hsem hser ?_ hat hfin fun u hu => ?_
      · simpa [hne] using ht
      · by_cases hut : u = t
        · subst hut; simpa using hnew
        · simpa [hut] using hout u hu

/-- Getting the free semaphore at the start of a call that behaves. -/
private theorem LockInv.enter {d₀ : δ} {s : Pool C D R δ A} {t : Nat} {c : C}
    {k : Unit → LockProg D A R} {v : R} {d' : δ} (hk : body c = .op .wait k)
    (hser : Serial act body d₀ s.completed s.shared.data)
    (hat : LockProg.atomic act (body c) s.shared.data = some (v, d'))
    (hout : ∀ u, Outside body (s.threads u)) :
    LockInv act body d₀ ({ s with shared := ⟨0, s.shared.data⟩ }.settle t c true (k ())) := by
  have hfin : LockProg.finish act (k ()) s.shared.data = some (v, d') := by
    simpa [hk] using hat
  obtain ⟨o, k', hk'⟩ := exists_op_of_finish hfin
  rw [hk', settle_op]
  refine .held t c (.op o k') v s.shared.data d' rfl hser (by simp) hat (by simpa [hk'] using hfin) ?_
  intro u hu
  simpa [hu] using hout u

/-- A data operation of the thread inside. -/
private theorem LockInv.work {d₀ : δ} {s : Pool C D R δ A} {t : Nat} {c : C} {o : D}
    {k : A o → LockProg D A R} {v : R} {d d' : δ} (hsem : s.shared.sem = 0)
    (hser : Serial act body d₀ s.completed d)
    (hat : LockProg.atomic act (body c) d = some (v, d'))
    (hfin : LockProg.finish act (k (act o s.shared.data).1) (act o s.shared.data).2 = some (v, d'))
    (hout : ∀ u, u ≠ t → Outside body (s.threads u)) :
    LockInv act body d₀ ({ s with shared := ⟨s.shared.sem, (act o s.shared.data).2⟩ }.settle t c true
      (k (act o s.shared.data).1)) := by
  obtain ⟨o', k', hk'⟩ := exists_op_of_finish hfin
  rw [hk', settle_op]
  refine .held t c (.op o' k') v d d' hsem hser (by simp) hat (by simpa [hk'] using hfin) ?_
  intro u hu
  simpa [hu] using hout u hu

/-- The post at the end of a critical section: the call joins the history. -/
private theorem LockInv.leave {d₀ : δ} {s : Pool C D R δ A} {t : Nat} {c : C} {b : Bool}
    {k : Unit → LockProg D A R} {v : R} {d d' : δ} (hsem : s.shared.sem = 0)
    (hser : Serial act body d₀ s.completed d)
    (hat : LockProg.atomic act (body c) d = some (v, d'))
    (hfin : LockProg.finish act (.op .post k) s.shared.data = some (v, d'))
    (hout : ∀ u, u ≠ t → Outside body (s.threads u)) :
    LockInv act body d₀
      ({ s with shared := ⟨afterPost s.shared.sem, s.shared.data⟩ }.settle t c b (k ())) := by
  simp only [LockProg.finish] at hfin
  split at hfin
  · next w hw =>
      obtain ⟨rfl, rfl⟩ := Prod.mk.inj (Option.some.inj hfin)
      rw [hw, settle_ret]
      refine .free ?_ (hser.call hat) (outside_update trivial hout)
      simp [hsem, afterPost, SEM_VALUE_MAX]
  · contradiction

/-- One step preserves the invariant. -/
theorem LockInv.step (hbody : ∀ c, ∃ k, body c = .op .wait k) {d₀ : δ} {s s' : Pool C D R δ A}
    {l : PoolStep C} (hinv : LockInv act body d₀ s) (hl : EntersSafely act body s l)
    (hs : Pool.step act body s l = some s') : LockInv act body d₀ s' := by
  obtain ⟨t, c, rfl, hidle, rfl⟩ | ⟨t, c, o, k, b, r, sh, rfl, hbusy, hr, rfl⟩ := step_cases hs
  · exact hinv.begin hbody hidle
  · cases hinv with
    | free hsem hser hout =>
        -- nobody is inside, so the step is the wait at the start of a call
        have hot : Outside body (.busy c (.op o k) b : ThreadState C D R A) := hbusy ▸ hout t
        obtain rfl := wait_of_outside hbody hot
        obtain ⟨⟨v, d'⟩, hat⟩ := Option.isSome_iff_exists.mp
          (hl (by simp [hbusy, ThreadState.atWait]) c (by simp [hbusy, ThreadState.call?]))
        have hsh : sh = ⟨0, s.shared.data⟩ := by
          simp only [LockProg.handle, hsem] at hr
          exact (congrArg Prod.snd (Option.some.inj hr)).symm
        subst hsh
        exact .enter hot.2.symm hser hat hout
    | held w c' p v d d' hsem hser ht hat hfin hout =>
        by_cases htw : t = w
        · subst htw
          obtain ⟨rfl, rfl, rfl⟩ : c = c' ∧ .op o k = p ∧ b = true := by
            rw [hbusy] at ht
            simpa using ht
          cases o with
          | wait => simp [LockProg.finish] at hfin
          | post =>
              obtain rfl : sh = _ := (congrArg Prod.snd (Option.some.inj hr)).symm
              exact .leave hsem hser hat hfin hout
          | data o =>
              obtain ⟨rfl, rfl⟩ := Prod.mk.inj (Option.some.inj hr)
              exact .work hsem hser hat hfin hout
        · -- any other thread is at a wait, and the semaphore is taken
          have hot : Outside body (.busy c (.op o k) b : ThreadState C D R A) := hbusy ▸ hout t htw
          obtain rfl := wait_of_outside hbody hot
          simp [LockProg.handle, hsem] at hr

/-- **Lock-protected calls are atomic**: the invariant holds at the end of every
run whose calls enter safely. -/
theorem lockInv_of_run (hbody : ∀ c, ∃ k, body c = .op .wait k) {d₀ : δ}
    {tr : List (Pool C D R δ A × PoolStep C)} {s : Pool C D R δ A}
    (h : (machine act body d₀).Run tr s) (hP : ∀ p ∈ tr, EntersSafely act body p.1 p.2) :
    LockInv act body d₀ s := by
  refine Machine.Run.invariant_of_steps (I := fun _ s => LockInv act body d₀ s) ?_ ?_ h hP
  · rintro s rfl
    exact .free rfl .nil fun _ => trivial
  · intro _ s l t hI hl hs
    exact hI.step hbody hl hs

/-- **Mutual exclusion**: at most one thread is inside. -/
theorem LockInv.inside_unique {d₀ : δ} {s : Pool C D R δ A} (h : LockInv act body d₀ s)
    {t u : Nat} (ht : (s.threads t).inside = true) (hu : (s.threads u).inside = true) : t = u := by
  have hin : ∀ x, Outside body x → (x : ThreadState C D R A).inside = false := by
    intro x hx
    cases x with
    | idle => rfl
    | busy c p b => exact hx.1
  cases h with
  | free _ _ hout => rw [hin _ (hout t)] at ht; contradiction
  | held w _ _ _ _ _ _ _ _ _ _ hout =>
      have huniq : ∀ x, (s.threads x).inside = true → x = w := by
        intro x hx
        by_contra hne
        rw [hin _ (hout x hne)] at hx
        contradiction
      rw [huniq t ht, huniq u hu]

/-- The completed calls are a serial history of atomic calls. -/
theorem LockInv.serial {d₀ : δ} {s : Pool C D R δ A} (h : LockInv act body d₀ s) :
    ∃ d, Serial act body d₀ s.completed d := by
  cases h with
  | free _ hser _ => exact ⟨_, hser⟩
  | held _ _ _ _ d _ _ hser _ _ _ _ => exact ⟨d, hser⟩

end Pool

end Cmsc421
