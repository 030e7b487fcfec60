import Codery.Effect.Safety

/-! The other reading of runs: `May H Q p w` says that some run of `p` from `w` returns, with a
value and a world of which `Q` holds. -/

universe u

namespace Codery.Effect

variable {S : Signature.{u}} {W : Type u} {α β ε : Type u}

def May (H : StepRel S W) (Q : α → W → Prop) : Prog S α → W → Prop
  | .ret a, w => Q a w
  | .call c k, w => ∃ r w', H c w r w' ∧ May H Q (k r) w'

namespace May

variable {H : StepRel S W} {Q Q' : α → W → Prop} {p : Prog S α} {w : W}

theorem finishes (h : May H Q p w) : ∃ a w', Finishes H p w a w' ∧ Q a w' := by
  induction p generalizing w with
  | ret a => exact ⟨a, w, .refl, h⟩
  | call c k ih =>
    obtain ⟨r, w₁, step, rest⟩ := h
    obtain ⟨a, w', run, done⟩ := ih r rest
    exact ⟨a, w', .head (.call step) run, done⟩

theorem mono (h : May H Q p w) (hQ : ∀ a w, Q a w → Q' a w) : May H Q' p w := by
  induction p generalizing w with
  | ret a => exact hQ a w h
  | call c k ih =>
    obtain ⟨r, w₁, step, rest⟩ := h
    exact ⟨r, w₁, step, ih r rest⟩

theorem bind {R : α → W → Prop} {Q : β → W → Prop} {f : α → Prog S β} (h : May H R p w)
    (hf : ∀ a w', R a w' → May H Q (f a) w') : May H Q (p >>= f) w := by
  induction p generalizing w with
  | ret a => exact hf a w h
  | call c k ih =>
    obtain ⟨r, w₁, step, rest⟩ := h
    exact ⟨r, w₁, step, ih r rest⟩

theorem bindE {R : Except ε α → W → Prop} {Q : Except ε β → W → Prop}
    {x : ExceptT ε (Prog S) α} {f : α → ExceptT ε (Prog S) β} (h : May H R x.run w)
    (ok : ∀ a w', R (.ok a) w' → May H Q (f a).run w')
    (error : ∀ e w', R (.error e) w' → Q (.error e) w') : May H Q (x >>= f).run w := by
  rw [ExceptT.run_bind]
  refine bind h fun r w' hr => ?_
  cases r with
  | ok a => exact ok a w' hr
  | error e => exact error e w' hr

theorem liftE {R : α → W → Prop} {Q : Except ε β → W → Prop} {f : α → ExceptT ε (Prog S) β}
    (h : May H R p w) (ok : ∀ a w', R a w' → May H Q (f a).run w') :
    May H Q (ExceptT.lift p >>= f).run w := by
  refine bindE (R := fun r w => ∃ a, r = .ok a ∧ R a w) ?_ ?_ ?_
  · exact bind (β := Except ε α) h fun a w' hr => ⟨a, rfl, hr⟩
  · rintro a w' ⟨_, same, hr⟩
    cases same
    exact ok _ w' hr
  · rintro e w' ⟨_, same, _⟩
    cases same

/-- What holds of every run holds of the one that may be. -/
theorem and_safe {I : StepRel S W} {R : α → W → Prop} (h : May H Q p w) (safe : Safe H I R p w) :
    May H (fun a w => Q a w ∧ R a w) p w := by
  induction p generalizing w with
  | ret a => exact ⟨h, safe⟩
  | call c k ih =>
    obtain ⟨r, w₁, step, rest⟩ := h
    exact ⟨r, w₁, step, ih r rest (safe r w₁ step).2⟩

end May

/-- Some run of `p` from `w` meets a world of which `J` holds. -/
def Meets (H : StepRel S W) (J : W → Prop) (p : Prog S α) (w : W) : Prop :=
  ∃ p' w', Reaches H (p, w) (p', w') ∧ J w'

namespace Meets

variable {H : StepRel S W} {J : W → Prop} {p : Prog S α} {w : W}

theorem now (h : J w) : Meets H J p w := ⟨p, w, .refl, h⟩

theorem call {c : S.Call} {k : S.Reply c → Prog S α} {r : S.Reply c} {w' : W}
    (step : H c w r w') (h : Meets H J (k r) w') : Meets H J (.call c k) w := by
  obtain ⟨p', w₁, run, hJ⟩ := h
  exact ⟨p', w₁, .head (.call step) run, hJ⟩

theorem first {f : α → Prog S β} (h : Meets H J p w) : Meets H J (p >>= f) w := by
  obtain ⟨p', w', run, hJ⟩ := h
  exact ⟨p' >>= f, w', reaches_bind f run, hJ⟩

theorem after {f : α → Prog S β} {R : α → W → Prop} (h : May H R p w)
    (hf : ∀ a w', R a w' → Meets H J (f a) w') : Meets H J (p >>= f) w := by
  obtain ⟨a, w', run, hR⟩ := h.finishes
  obtain ⟨q, w₁, rest, hJ⟩ := hf a w' hR
  exact ⟨q, w₁, (reaches_bind f run).trans rest, hJ⟩

section Except

variable {x : ExceptT ε (Prog S) α} {f : α → ExceptT ε (Prog S) β}

theorem liftE {p : Prog S α} (h : Meets H J p w) :
    Meets H J (ExceptT.lift p >>= f).run w := first (first (β := Except ε α) h)

end Except

end Meets

end Codery.Effect
