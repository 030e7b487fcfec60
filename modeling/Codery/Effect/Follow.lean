import Codery.Effect.Run

/-! Programs built around one subprogram, and programs that answer one call directly with
another. -/

universe u

namespace Codery.Effect

variable {S : Signature.{u}} {W : Type u} {α β γ ε : Type u}

/-- `Uses P b p`: on every branch, `p` consists of calls that satisfy `P` and of whole runs of
`b`. -/
inductive Uses (P : S.Call → Prop) (b : Prog S γ) : Prog S α → Prop
  | ret (a : α) : Uses P b (.ret a)
  | call {c : S.Call} {k : S.Reply c → Prog S α} : P c → (∀ r, Uses P b (k r)) →
      Uses P b (.call c k)
  | block {k : γ → Prog S α} : (∀ x, Uses P b (k x)) → Uses P b (b >>= k)

namespace Uses

variable {P P' : S.Call → Prop} {b : Prog S γ}

theorem bind {p : Prog S α} {f : α → Prog S β} (hp : Uses P b p) (hf : ∀ a, Uses P b (f a)) :
    Uses P b (p >>= f) := by
  induction hp with
  | ret a => exact hf a
  | call hc _ ih => exact .call hc ih
  | block _ ih =>
    rw [Prog.bind_assoc]
    exact .block ih

theorem self : Uses P b b := by
  have whole : Uses P b (b >>= Prog.ret) := .block .ret
  rwa [Prog.bind_ret] at whole

theorem of_only {p : Prog S α} (hp : p.Only P) : Uses P b p := by
  induction p with
  | ret a => exact .ret a
  | call c k ih => exact .call hp.1 fun r => ih r (hp.2 r)

theorem mono {p : Prog S α} (hp : Uses P b p) (hP : ∀ c, P c → P' c) : Uses P' b p := by
  induction hp with
  | ret a => exact .ret a
  | call hc _ ih => exact .call (hP _ hc) ih
  | block _ ih => exact .block ih

theorem only {p : Prog S α} (hp : Uses P b p) (hb : b.Only P) : p.Only P := by
  induction hp with
  | ret a => trivial
  | call hc _ ih => exact ⟨hc, ih⟩
  | block _ ih => exact Prog.Only.bind hb ih

theorem bindE {x : ExceptT ε (Prog S) α} {f : α → ExceptT ε (Prog S) β} (hx : Uses P b x.run)
    (hf : ∀ a, Uses P b (f a).run) : Uses P b (x >>= f).run := by
  rw [ExceptT.run_bind]
  refine bind hx fun r => ?_
  cases r with
  | ok a => exact hf a
  | error e => exact .ret _

theorem liftE {p : Prog S α} (hp : Uses P b p) :
    Uses P b (ExceptT.lift p : ExceptT ε (Prog S) α).run :=
  bind (β := Except ε α) hp fun _ => .ret _

end Uses

/-- `p.Follows first second due`: the next call of `p` is a `second` one if and only if it is due,
and it is due directly after a call that `first` holds of with its reply, and nowhere else. -/
def Prog.Follows (first : (c : S.Call) → S.Reply c → Prop) (second : S.Call → Prop) :
    Prog S α → Prop → Prop
  | .ret _, due => ¬ due
  | .call c k, due => (second c ↔ due) ∧ ∀ r, (k r).Follows first second (first c r)

namespace Prog.Follows

variable {first : (c : S.Call) → S.Reply c → Prop} {second : S.Call → Prop} {due : Prop}

theorem bind {p : Prog S α} {f : α → Prog S β} (hp : p.Follows first second due)
    (hf : ∀ a, (f a).Follows first second False) : (p >>= f).Follows first second due := by
  induction p generalizing due with
  | ret a =>
    have none : due = False := eq_false hp
    rw [none]
    exact hf a
  | call c k ih => exact ⟨hp.1, fun r => ih r (hp.2 r)⟩

theorem bindE {x : ExceptT ε (Prog S) α} {f : α → ExceptT ε (Prog S) β}
    (hx : x.run.Follows first second due) (hf : ∀ a, (f a).run.Follows first second False) :
    (x >>= f).run.Follows first second due := by
  rw [ExceptT.run_bind]
  refine bind hx fun r => ?_
  cases r with
  | ok a => exact hf a
  | error e => exact not_false

theorem of_only {P : S.Call → Prop} {p : Prog S α} (hp : p.Only P)
    (neither : ∀ c, P c → ¬ second c ∧ ∀ r, ¬ first c r) : p.Follows first second False := by
  induction p with
  | ret a => exact not_false
  | call c k ih =>
    obtain ⟨noSecond, noFirst⟩ := neither c hp.1
    refine ⟨iff_false_intro noSecond, fun r => ?_⟩
    rw [eq_false (noFirst r)]
    exact ih r (hp.2 r)

/-- A program that uses another one inherits its order of calls. -/
theorem of_uses {P : S.Call → Prop} {b : Prog S γ} {p : Prog S α} (hp : Uses P b p)
    (hb : b.Follows first second False) (neither : ∀ c, P c → ¬ second c ∧ ∀ r, ¬ first c r) :
    p.Follows first second False := by
  induction hp with
  | ret a => exact not_false
  | @call c k hc _ ih =>
    obtain ⟨noSecond, noFirst⟩ := neither c hc
    refine ⟨iff_false_intro noSecond, fun r => ?_⟩
    rw [eq_false (noFirst r)]
    exact ih r
  | block _ ih => exact bind hb ih

variable {H : StepRel S W} {J : Prop → W → Prop}

/-- The run rule: `J due w` is kept by every call that is a `second` one exactly when it is due. -/
theorem reaches (keep : ∀ c w r w', J (second c) w → H c w r w' → J (first c r) w')
    {x y : Prog S α × W} (run : Reaches H x y) (hx : x.1.Follows first second due)
    (now : J due x.2) : ∃ due', y.1.Follows first second due' ∧ J due' y.2 := by
  induction run with
  | refl => exact ⟨due, hx, now⟩
  | tail _ step ih =>
    obtain ⟨due', hy, before⟩ := ih
    cases step with
    | @call c k w r w' step =>
      have same : second c = due' := propext hy.1
      exact ⟨first c r, hy.2 r, keep c w r w' (same ▸ before) step⟩

theorem finishes (keep : ∀ c w r w', J (second c) w → H c w r w' → J (first c r) w')
    {p : Prog S α} {w w' : W} {a : α} (run : Finishes H p w a w')
    (hp : p.Follows first second False) (now : J False w) : J False w' := by
  obtain ⟨due', none, after⟩ := reaches keep run hp now
  rwa [eq_false none] at after

end Prog.Follows

end Codery.Effect
