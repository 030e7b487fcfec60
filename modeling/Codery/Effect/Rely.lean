import Codery.Effect.Pool

/-! A program among others: between its calls, others change the world as far as a relation on
worlds lets them. -/

universe u

namespace Codery.Effect

variable {S : Signature.{u}} {W : Type u} {α : Type u}

/-- Each call of the program is followed by what the others do. -/
def among (H : StepRel S W) (others : W → W → Prop) : StepRel S W :=
  fun c w r w' => ∃ w₁, H c w r w₁ ∧ others w₁ w'

variable {H : StepRel S W} {others : W → W → Prop} {P : S.Call → Prop} {J : W → Prop}
  {I : S.Call → W → Prop} {p : Prog S α} {w : W}

/-- A program of `P` calls guarantees `I` of them as long as `J` holds, which neither they nor the
others end. -/
theorem safe_among (only : p.Only P) (start : J w) (guarantee : ∀ c w, P c → J w → I c w)
    (keep : ∀ c w r w₁, H c w r w₁ → I c w → J w → J w₁)
    (stable : ∀ w w', others w w' → J w → J w') :
    Safe (among H others) (fun c w _ _ => I c w) (fun _ w' => J w') p w := by
  induction p generalizing w with
  | ret a => exact start
  | call c k ih =>
    intro r w' step
    obtain ⟨w₁, own, other⟩ := step
    have holds := guarantee c w only.1 start
    exact ⟨holds, ih r (only.2 r) (stable _ _ other (keep _ _ _ _ own holds start))⟩

/-- The others may do nothing at all. -/
theorem le_among (idle : ∀ w, others w w) : H ≤ among H others :=
  fun _ _ _ w' step => ⟨w', step, idle w'⟩

/-! ### Programs that rely on each other -/

section Pool

variable {ι R : Type u} {turn : Pool S ι R → ι → Prop} {ps : ι → Prog S R}
  {rely : ι → W → W → Prop} {G : ι → S.Call → W → Prop} {Q : ι → R → W → Prop}
  {x y : Pool S ι R × W} {w₀ : W}

/-- What the programs of a pool are known to do: each on its own, among others that keep to what it
relies on, makes calls that it guarantees, and returns what it is to return. -/
def Pool.Relies (H : StepRel S W) (rely : ι → W → W → Prop) (G : ι → S.Call → W → Prop)
    (Q : ι → R → W → Prop) (x : Pool S ι R × W) : Prop :=
  ∀ i w, rely i x.2 w → Safe (among H (rely i)) (fun c w _ _ => G i c w) (Q i) (x.1.prog i) w

/-- What the others do: nothing, one thing after the other, and what they guarantee. -/
structure Interferes (H : StepRel S W) (rely : ι → W → W → Prop) (G : ι → S.Call → W → Prop) :
    Prop where
  idle : ∀ i w, rely i w w
  trans : ∀ i w₁ w₂ w₃, rely i w₁ w₂ → rely i w₂ w₃ → rely i w₁ w₃
  step : ∀ i j, i ≠ j → ∀ c w r w', H c w r w' → G j c w → rely i w w'

/-- What a program of the pool has returned. -/
theorem Pool.Relies.returned (relies : Pool.Relies H rely G Q x) (others : Interferes H rely G)
    {i : ι} {a : R} (ret : x.1.prog i = .ret a) : Q i a x.2 := by
  have own := relies i x.2 (others.idle i x.2)
  rwa [ret] at own

variable [DecidableEq ι]

theorem Pool.Relies.step (relies : Pool.Relies H rely G Q x) (others : Interferes H rely G)
    (step : Pool.Step H turn x y) : Pool.Relies H rely G Q y := by
  cases step with
  | @call x w j c k r w' prog turn step =>
    have own := relies j w (others.idle j w)
    rw [show (x, w).1.prog j = .call c k from prog] at own
    intro i w'' later
    by_cases eq : i = j
    · subst eq
      rw [Pool.resume_prog_self]
      exact (own r w'' ⟨w', step, later⟩).2
    · rw [Pool.resume_prog_of_ne eq]
      have guaranteed := (own r w' ⟨w', step, others.idle j w'⟩).1
      exact relies i w'' (others.trans i _ _ _ (others.step i j eq c w r w' step guaranteed) later)

/-- The rule for programs that run at once: what each does among others it does in the pool. -/
theorem Pool.relies (others : Interferes H rely G)
    (each : ∀ i w, rely i w₀ w → Safe (among H (rely i)) (fun c w _ _ => G i c w) (Q i) (ps i) w)
    (run : Pool.Reaches H turn (Pool.start ps, w₀) x) : Pool.Relies H rely G Q x := by
  induction run with
  | refl => exact each
  | tail _ step ih => exact ih.step others step

/-- What the guaranteed calls keep holds in every state of a run. -/
theorem Pool.relies_keeps (others : Interferes H rely G)
    (each : ∀ i w, rely i w₀ w → Safe (among H (rely i)) (fun c w _ _ => G i c w) (Q i) (ps i) w)
    (keep : ∀ i c w r w', H c w r w' → G i c w → J w → J w') (start : J w₀)
    (run : Pool.Reaches H turn (Pool.start ps, w₀) x) : J x.2 := by
  induction run with
  | refl => exact start
  | tail before step ih =>
    have relies := Pool.relies others each before
    cases step with
    | @call x w j c k r w' prog turn step =>
      have own := relies j w (others.idle j w)
      rw [show (x, w).1.prog j = .call c k from prog] at own
      exact keep j c w r w' step (own r w' ⟨w', step, others.idle j w'⟩).1 ih

end Pool

end Codery.Effect
