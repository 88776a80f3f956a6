import Cmsc421.Run

/-!
# Cmsc421.Prog

Programs of atomic operations, for any set of operations.

A program either returns or performs one operation and goes on with its
result.  The same text is given two meanings: `run` executes a program alone,
one operation after the other, and `Cmsc421.Mutex` interleaves the operations
of many programs.  An operation that cannot proceed (a wait on a semaphore
that is zero) has no outcome, and a program run alone that reaches it never
returns: `run` is then `none`, and `final` is the state it waits in.
-/

namespace Cmsc421

/-- A program over the operations `Op`, where `o : Op` answers with a `Res o`. -/
inductive Prog (Op : Type) (Res : Op → Type) (α : Type) : Type
  | ret (a : α)
  | op (o : Op) (k : Res o → Prog Op Res α)

namespace Prog

variable {Op : Type} {Res : Op → Type} {α β γ σ : Type}

/-- Sequencing: the second program continues where the first one returns. -/
def bind : Prog Op Res α → (α → Prog Op Res β) → Prog Op Res β
  | .ret a, f => f a
  | .op o k, f => .op o fun r => (k r).bind f

instance : Monad (Prog Op Res) where
  pure := .ret
  bind := Prog.bind

@[simp] theorem pure_eq_ret (a : α) : (pure a : Prog Op Res α) = .ret a := rfl

@[simp] theorem ret_bind (a : α) (f : α → Prog Op Res β) : (.ret a : Prog Op Res α) >>= f = f a := rfl

@[simp] theorem op_bind (o : Op) (k : Res o → Prog Op Res α) (f : α → Prog Op Res β) :
    (.op o k : Prog Op Res α) >>= f = .op o fun r => k r >>= f := rfl

/-- The program that performs one operation and returns its answer. -/
def perform (o : Op) : Prog Op Res (Res o) := .op o .ret

@[simp] theorem perform_bind (o : Op) (f : Res o → Prog Op Res β) :
    (perform o : Prog Op Res (Res o)) >>= f = .op o f := rfl

/-! ## running a program alone -/

/-- Execute a program alone; `handle` gives the outcome of each operation, or
`none` where the operation blocks. -/
def run (handle : (o : Op) → σ → Option (Res o × σ)) : Prog Op Res α → σ → Option (α × σ)
  | .ret a, s => some (a, s)
  | .op o k, s => (handle o s).bind fun r => (k r.1).run handle r.2

variable (handle : (o : Op) → σ → Option (Res o × σ))

@[simp] theorem run_ret (a : α) (s : σ) : (.ret a : Prog Op Res α).run handle s = some (a, s) := rfl

@[simp] theorem run_op (o : Op) (k : Res o → Prog Op Res α) (s : σ) :
    (Prog.op o k).run handle s = (handle o s).bind fun r => (k r.1).run handle r.2 := rfl

/-- Running a sequence runs its parts one after the other. -/
@[simp] theorem run_bind (p : Prog Op Res α) (f : α → Prog Op Res β) (s : σ) :
    (p >>= f).run handle s = (p.run handle s).bind fun r => (f r.1).run handle r.2 := by
  induction p generalizing s with
  | ret a => rfl
  | op o k ih =>
      simp only [op_bind, run_op, Option.bind_assoc]
      congr 1
      funext r
      exact ih r.1 r.2

/-! ## where a program stops -/

/-- The state in which a program run alone stops: the one it returns in, or the one in
which it waits forever. -/
def final : Prog Op Res α → σ → σ
  | .ret _, s => s
  | .op o k, s =>
      match handle o s with
      | some r => (k r.1).final r.2
      | none => s

/-- A program that returns stops where it returns. -/
theorem final_of_run {p : Prog Op Res α} {s t : σ} {a : α} (h : p.run handle s = some (a, t)) :
    p.final handle s = t := by
  induction p generalizing s with
  | ret b => exact (Prod.mk.inj (Option.some.inj h)).2
  | op o k ih =>
      obtain ⟨r, hr, hk⟩ := Option.bind_eq_some_iff.mp h
      rw [final, hr]
      exact ih r.1 hk

/-- A sequence whose first part returns stops where the second part does. -/
theorem final_bind {p : Prog Op Res α} (f : α → Prog Op Res β) {s t : σ} {a : α}
    (h : p.run handle s = some (a, t)) : (p >>= f).final handle s = (f a).final handle t := by
  induction p generalizing s with
  | ret b =>
      obtain ⟨rfl, rfl⟩ := Prod.mk.inj (Option.some.inj h)
      rfl
  | op o k ih =>
      obtain ⟨r, hr, hk⟩ := Option.bind_eq_some_iff.mp h
      rw [op_bind, final, hr]
      exact ih r.1 hk

/-- A program whose result is wrapped up stops where it would. -/
theorem final_bind_ret (p : Prog Op Res α) (f : α → β) (s : σ) :
    (p >>= fun a => .ret (f a)).final handle s = p.final handle s := by
  induction p generalizing s with
  | ret a => rfl
  | op o k ih =>
      rw [op_bind, final, final]
      split
      · exact ih _ _
      · rfl

end Prog

end Cmsc421
