import Codery.Effect.Safety

/-! Runs up to a mark: what holds of a run that returns without having met a marked program. -/

universe u

namespace Codery.Effect

variable {S : Signature.{u}} {W O : Type u} {α β ε : Type u}

/-- A step from a program that is not marked. -/
inductive StepBefore (H : StepRel S W) (Mark : Prog S α → Prop) :
    Prog S α × W → Prog S α × W → Prop
  | call {c k w r w'} : ¬ Mark (.call c k) → H c w r w' → StepBefore H Mark (.call c k, w) (k r, w')

abbrev ReachesBefore (H : StepRel S W) (Mark : Prog S α → Prop) :
    Prog S α × W → Prog S α × W → Prop :=
  Relation.ReflTransGen (StepBefore H Mark)

/-- `p` returns `a` on a run that meets no marked program. -/
def FinishesBefore (H : StepRel S W) (Mark : Prog S α → Prop) (p : Prog S α) (w : W) (a : α)
    (w' : W) : Prop :=
  ReachesBefore H Mark (p, w) (.ret a, w')

/-- `Q` holds of the value and the world whenever `p` returns before it is marked. -/
def Until (H : StepRel S W) (Mark : Prog S α → Prop) (Q : α → W → Prop) : Prog S α → W → Prop
  | .ret a, w => Q a w
  | .call c k, w => Mark (.call c k) ∨ ∀ r w', H c w r w' → Until H Mark Q (k r) w'

variable {H I : StepRel S W}

namespace Until

theorem reaches {Mark : Prog S α → Prop} {Q : α → W → Prop} {x y : Prog S α × W}
    (h : Until H Mark Q x.1 x.2) (run : ReachesBefore H Mark x y) : Until H Mark Q y.1 y.2 := by
  induction run with
  | refl => exact h
  | tail _ step ih =>
    cases step with
    | call free step =>
      cases ih with
      | inl marked => exact absurd marked free
      | inr next => exact next _ _ step

theorem finishes {Mark : Prog S α → Prop} {Q : α → W → Prop} {p : Prog S α} {w w' : W} {a : α}
    (h : Until H Mark Q p w) (run : FinishesBefore H Mark p w a w') : Q a w' := h.reaches run

theorem mark {Mark : Prog S α → Prop} {Q : α → W → Prop} {c : S.Call} {k : S.Reply c → Prog S α}
    {w : W} (h : Mark (.call c k)) : Until H Mark Q (.call c k) w := .inl h

/-- Run a program that is safe to its end, and then another. -/
theorem bind {γ : Type u} {Mark : Prog S β → Prop} {Q : β → W → Prop} {R : γ → W → Prop}
    {p : Prog S γ} {f : γ → Prog S β} {w : W} (hp : Safe H I R p w)
    (next : ∀ a w', R a w' → Until H Mark Q (f a) w') : Until H Mark Q (p >>= f) w := by
  induction p generalizing w with
  | ret a => exact next a w hp
  | call c k ih => exact .inr fun r w' step => ih r (hp r w' step).2

theorem bindE {Mark : Prog S (Except ε β) → Prop} {Q : Except ε β → W → Prop}
    {R : Except ε α → W → Prop} {x : ExceptT ε (Prog S) α} {f : α → ExceptT ε (Prog S) β} {w : W}
    (hx : Safe H I R x.run w) (ok : ∀ a w', R (.ok a) w' → Until H Mark Q (f a).run w')
    (error : ∀ e w', R (.error e) w' → Q (.error e) w') : Until H Mark Q (x >>= f).run w := by
  rw [ExceptT.run_bind]
  refine bind hx fun r w' h => ?_
  cases r with
  | ok a => exact ok a w' h
  | error e => exact error e w' h

end Until

section Play

variable (answer : (c : S.Call) → O → W → Option (S.Reply c × W)) (allowed : S.Call → O → Bool)
  (marked : Prog S α → Bool)

/-- Play a program against a list of choices, as long as it is not marked. -/
def playBefore : List O → Prog S α × W → Option (Prog S α × W)
  | [], x => some x
  | _ :: _, (.ret _, _) => none
  | o :: os, (.call c k, w) =>
    if marked (.call c k) = false ∧ allowed c o = true then
      match answer c o w with
      | none => none
      | some (r, w') => playBefore os (k r, w')
    else none

variable {answer allowed marked} {Mark : Prog S α → Prop}

theorem playBefore_reaches (mark : ∀ p, Mark p → marked p = true) {os : List O}
    {x y : Prog S α × W} (h : playBefore answer allowed marked os x = some y) :
    ReachesBefore (handler answer allowed) Mark x y := by
  induction os generalizing x with
  | nil =>
    cases h
    exact .refl
  | cons o os ih =>
    match x with
    | (.ret _, _) => cases h
    | (.call c k, w) =>
      simp only [playBefore] at h
      split at h
      case isTrue ok =>
        split at h
        case h_1 => cases h
        case h_2 r w' ans =>
          have free : ¬ Mark (.call c k) := fun here => by simp [mark _ here] at ok
          exact .head (.call free ⟨o, ok.2, ans⟩) (ih h)
      case isFalse => cases h

/-- A played run that returns before it is marked. -/
theorem playBefore_finishes (mark : ∀ p, Mark p → marked p = true) {os : List O} {p : Prog S α}
    {w : W} {a : α} (h : (playBefore answer allowed marked os (p, w)).map (·.1.result?) = some (some a)) :
    ∃ w', FinishesBefore (handler answer allowed) Mark p w a w' := by
  obtain ⟨⟨p', w'⟩, played, ret⟩ := Option.map_eq_some_iff.mp h
  cases p' with
  | ret a' =>
    cases ret
    exact ⟨w', playBefore_reaches mark played⟩
  | call => cases ret

end Play

end Codery.Effect
