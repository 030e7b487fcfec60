import Codery.Effect.Run

/-! A program logic for runs: `Safe H I Q p w` says that every step `p` takes from `w` satisfies
`I`, and that `Q` holds of the value and the world whenever `p` returns. -/

universe u

namespace Codery.Effect

variable {S : Signature.{u}} {W : Type u} {α β γ ε : Type u}

def Safe (H I : StepRel S W) (Q : α → W → Prop) : Prog S α → W → Prop
  | .ret a, w => Q a w
  | .call c k, w => ∀ r w', H c w r w' → I c w r w' ∧ Safe H I Q (k r) w'

variable {H I I' : StepRel S W} {J : W → Prop}

namespace Safe

theorem reaches {Q : α → W → Prop} {x y : Prog S α × W} (h : Safe H I Q x.1 x.2)
    (run : Reaches H x y) : Safe H I Q y.1 y.2 := by
  induction run with
  | refl => exact h
  | tail _ step ih =>
    cases step with
    | call step => exact (ih _ _ step).2

theorem finishes {Q : α → W → Prop} {p : Prog S α} {w w' : W} {a : α} (h : Safe H I Q p w)
    (run : Finishes H p w a w') : Q a w' := h.reaches run

theorem everyStep {Q : α → W → Prop} {p : Prog S α} {w : W} (h : Safe H I Q p w) :
    EveryStep H I p w := fun _ _ _ _ _ run step => (h.reaches run _ _ step).1

theorem everyState {Q : α → W → Prop} {p : Prog S α} {w : W}
    (h : Safe H (fun _ _ _ w' => J w') Q p w) (hw : J w) : EveryState H J p w := by
  intro p' w' run
  cases Relation.ReflTransGen.cases_tail run with
  | inl same =>
    cases same
    exact hw
  | inr last =>
    obtain ⟨_, before, step⟩ := last
    cases step with
    | call step => exact h.everyStep _ _ _ _ _ before step

/-- The logic is complete: it holds as soon as every run has the property. -/
theorem of_runs {Q : α → W → Prop} {p : Prog S α} {w : W} (steps : EveryStep H I p w)
    (ends : ∀ a w', Finishes H p w a w' → Q a w') : Safe H I Q p w := by
  induction p generalizing w with
  | ret a => exact ends a w .refl
  | call c k ih =>
    intro r w' step
    refine ⟨steps c k w r w' .refl step, ih r ?_ ?_⟩
    · intro c₁ k₁ w₁ r₁ w₂ run
      exact steps c₁ k₁ w₁ r₁ w₂ (.head (.call step) run)
    · intro a w₂ run
      exact ends a w₂ (.head (.call step) run)

theorem mono {Q Q' : α → W → Prop} {p : Prog S α} {w : W} (h : Safe H I Q p w)
    (hI : ∀ c w r w', H c w r w' → I c w r w' → I' c w r w')
    (hQ : ∀ a w, Q a w → Q' a w) : Safe H I' Q' p w := by
  induction p generalizing w with
  | ret a => exact hQ a w h
  | call c k ih =>
    intro r w' step
    obtain ⟨hc, hk⟩ := h r w' step
    exact ⟨hI c w r w' step hc, ih r hk⟩

/-- What holds of all runs holds of those of a tamer world. -/
theorem restrict {H' : StepRel S W} {Q : α → W → Prop} {p : Prog S α} {w : W}
    (h : Safe H I Q p w) (hH : H' ≤ H) : Safe H' I Q p w := by
  induction p generalizing w with
  | ret a => exact h
  | call c k ih =>
    intro r w' step
    obtain ⟨hc, hk⟩ := h r w' (hH _ _ _ _ step)
    exact ⟨hc, ih r hk⟩

theorem post {Q Q' : α → W → Prop} {p : Prog S α} {w : W} (h : Safe H I Q p w)
    (hQ : ∀ a w, Q a w → Q' a w) : Safe H I Q' p w := h.mono (fun _ _ _ _ _ hc => hc) hQ

theorem and {Q Q' : α → W → Prop} {p : Prog S α} {w : W} (h : Safe H I Q p w)
    (h' : Safe H I' Q' p w) :
    Safe H (fun c w r w' => I c w r w' ∧ I' c w r w') (fun a w => Q a w ∧ Q' a w) p w := by
  apply of_runs
  · intro c k w₁ r w₂ run step
    exact ⟨h.everyStep c k w₁ r w₂ run step, h'.everyStep c k w₁ r w₂ run step⟩
  · intro a w' run
    exact ⟨h.finishes run, h'.finishes run⟩

/-- An assertion kept by every step `I` allows holds at the start and the end of each step. -/
theorem carry {Q : α → W → Prop} {p : Prog S α} {w : W} (h : Safe H I Q p w) (hw : J w)
    (keep : ∀ c w r w', H c w r w' → I c w r w' → J w → J w') :
    Safe H (fun c w r w' => I c w r w' ∧ J w ∧ J w') (fun a w => Q a w ∧ J w) p w := by
  induction p generalizing w with
  | ret a => exact ⟨h, hw⟩
  | call c k ih =>
    intro r w' step
    obtain ⟨hc, hk⟩ := h r w' step
    have hw' : J w' := keep c w r w' step hc hw
    exact ⟨⟨hc, hw, hw'⟩, ih r hk hw'⟩

theorem ret {Q : α → W → Prop} {a : α} {w : W} (h : Q a w) : Safe H I Q (.ret a) w := h

theorem ask {c : S.Call} {Q : S.Reply c → W → Prop} {w : W}
    (h : ∀ r w', H c w r w' → I c w r w' ∧ Q r w') : Safe H I Q (Effect.ask c) w := h

theorem bind {R : α → W → Prop} {Q : β → W → Prop} {p : Prog S α} {f : α → Prog S β} {w : W}
    (hp : Safe H I R p w) (hf : ∀ a w', R a w' → Safe H I Q (f a) w') :
    Safe H I Q (p >>= f) w := by
  induction p generalizing w with
  | ret a => exact hf a w hp
  | call c k ih =>
    intro r w' step
    obtain ⟨hc, hk⟩ := hp r w' step
    exact ⟨hc, ih r hk⟩

section Except

variable {R : Except ε α → W → Prop} {Q : Except ε β → W → Prop}

theorem bindE {x : ExceptT ε (Prog S) α} {f : α → ExceptT ε (Prog S) β} {w : W}
    (hx : Safe H I R x.run w) (ok : ∀ a w', R (.ok a) w' → Safe H I Q (f a).run w')
    (error : ∀ e w', R (.error e) w' → Q (.error e) w') : Safe H I Q (x >>= f).run w := by
  rw [ExceptT.run_bind]
  refine bind hx fun r w' h => ?_
  cases r with
  | ok a => exact ok a w' h
  | error e => exact error e w' h

theorem liftE {p : Prog S α} {R : α → W → Prop} {f : α → ExceptT ε (Prog S) β} {w : W}
    (hp : Safe H I R p w) (ok : ∀ a w', R a w' → Safe H I Q (f a).run w') :
    Safe H I Q (ExceptT.lift p >>= f).run w := by
  refine bindE (R := fun r w => ∃ a, r = .ok a ∧ R a w) ?_ ?_ ?_
  · exact bind (β := Except ε α) hp fun a w' h => ⟨a, rfl, h⟩
  · rintro a w' ⟨_, same, h⟩
    cases same
    exact ok _ w' h
  · rintro e w' ⟨_, same, _⟩
    cases same

end Except

end Safe

/-- What a program calls bounds what its steps can be. -/
theorem Prog.Only.safe {P : S.Call → Prop} {p : Prog S α} (h : p.Only P) (w : W) :
    Safe H (fun c _ _ _ => P c) (fun _ _ => True) p w := by
  induction p generalizing w with
  | ret a => trivial
  | call c k ih => exact fun r w' _ => ⟨h.1, ih r (h.2 r) w'⟩

/-- A program whose calls all keep `J` keeps `J`. -/
theorem Prog.Only.keeps {P : S.Call → Prop} {p : Prog S α} (h : p.Only P) {w : W} (hw : J w)
    (keep : ∀ c w r w', H c w r w' → P c → J w → J w') :
    Safe H (fun c w _ w' => P c ∧ J w ∧ J w') (fun _ w => J w) p w :=
  ((h.safe (H := H) w).carry hw keep).mono (fun _ _ _ _ _ h => h) fun _ _ h => h.2

end Codery.Effect
