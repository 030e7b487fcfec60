import Mathlib.Logic.Relation
import Mathlib.Order.PropInstances

/-! Programs that talk to a world only through calls.  A program is data: either it has
returned, or it issues one call and continues with whatever the world replies. -/

universe u

namespace Codery.Effect

structure Signature where
  Call : Type u
  Reply : Call → Type u

inductive Prog (S : Signature.{u}) (α : Type u) : Type u
  | ret : α → Prog S α
  | call : (c : S.Call) → (S.Reply c → Prog S α) → Prog S α

variable {S : Signature.{u}} {α β γ ε : Type u}

namespace Prog

def bind : Prog S α → (α → Prog S β) → Prog S β
  | .ret a, f => f a
  | .call c k, f => .call c (fun r => (k r).bind f)

instance : Monad (Prog S) where
  pure := .ret
  bind := bind

def result? : Prog S α → Option α
  | .ret a => some a
  | .call _ _ => none

@[simp] theorem pure_eq (a : α) : (pure a : Prog S α) = .ret a := rfl
@[simp] theorem ret_bind (a : α) (f : α → Prog S β) : (Prog.ret a >>= f) = f a := rfl
@[simp] theorem call_bind (c : S.Call) (k : S.Reply c → Prog S α) (f : α → Prog S β) :
    (Prog.call c k >>= f) = .call c (fun r => k r >>= f) := rfl

theorem bind_ret (p : Prog S α) : p >>= .ret = p := by
  induction p with
  | ret a => rfl
  | call c k ih =>
    simp only [call_bind]
    congr 1
    funext r
    exact ih r

theorem bind_assoc (p : Prog S α) (f : α → Prog S β) (g : β → Prog S γ) :
    p >>= f >>= g = p >>= fun a => f a >>= g := by
  induction p with
  | ret a => rfl
  | call c k ih =>
    simp only [call_bind]
    congr 1
    funext r
    exact ih r

instance : LawfulMonad (Prog S) :=
  LawfulMonad.mk' (Prog S) bind_ret (fun _ _ => rfl) bind_assoc

end Prog

/-- Issue one call and return its reply. -/
def ask (c : S.Call) : Prog S (S.Reply c) := .call c .ret

/-- `p.Only P`: on every branch, every call `p` can issue satisfies `P`. -/
def Prog.Only (P : S.Call → Prop) : Prog S α → Prop
  | .ret _ => True
  | .call c k => P c ∧ ∀ r, (k r).Only P

namespace Prog.Only

variable {P P' : S.Call → Prop}

theorem ret (a : α) : (Prog.ret a : Prog S α).Only P := trivial

theorem ask {c : S.Call} (h : P c) : (Effect.ask c).Only P := ⟨h, fun _ => trivial⟩

theorem bind {p : Prog S α} {f : α → Prog S β} (hp : p.Only P) (hf : ∀ a, (f a).Only P) :
    (p >>= f).Only P := by
  induction p with
  | ret a => exact hf a
  | call c k ih => exact ⟨hp.1, fun r => ih r (hp.2 r)⟩

theorem mono {p : Prog S α} (hP : ∀ c, P c → P' c) (hp : p.Only P) : p.Only P' := by
  induction p with
  | ret a => trivial
  | call c k ih => exact ⟨hP c hp.1, fun r => ih r (hp.2 r)⟩

section Except

theorem bindE {x : ExceptT ε (Prog S) α} {f : α → ExceptT ε (Prog S) β}
    (hx : x.run.Only P) (hf : ∀ a, (f a).run.Only P) : (x >>= f).run.Only P := by
  rw [ExceptT.run_bind]
  refine bind hx fun r => ?_
  cases r with
  | ok a => exact hf a
  | error e => trivial

theorem liftE {p : Prog S α} (hp : p.Only P) : (ExceptT.lift p : ExceptT ε (Prog S) α).run.Only P :=
  bind (β := Except ε α) hp fun _ => trivial

end Except

end Prog.Only

end Codery.Effect
