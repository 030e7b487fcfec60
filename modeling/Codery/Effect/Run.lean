import Codery.Effect.Program

/-! Runs of programs.  A handler relates a call issued in a world to the replies it may get and
the worlds it may leave; a run is a chain of handled calls. -/

universe u v

namespace Codery.Effect

variable {S : Signature.{u}} {W O : Type u} {α β : Type u}

/-- A relation on single steps: the call, the world it is issued in, its reply, the world after. -/
abbrev StepRel (S : Signature.{u}) (W : Type u) :=
  (c : S.Call) → W → S.Reply c → W → Prop

/-- The handler of a world that answers deterministically once the environment has made a choice
`o : O`; `allowed` says which choices the environment has at a call. -/
def handler (answer : (c : S.Call) → O → W → Option (S.Reply c × W)) (allowed : S.Call → O → Bool) :
    StepRel S W :=
  fun c w r w' => ∃ o, allowed c o = true ∧ answer c o w = some (r, w')

inductive Step (H : StepRel S W) : Prog S α × W → Prog S α × W → Prop
  | call {c k w r w'} : H c w r w' → Step H (.call c k, w) (k r, w')

abbrev Reaches (H : StepRel S W) : Prog S α × W → Prog S α × W → Prop :=
  Relation.ReflTransGen (Step H)

def Finishes (H : StepRel S W) (p : Prog S α) (w : W) (a : α) (w' : W) : Prop :=
  Reaches H (p, w) (.ret a, w')

/-- Every world met while `p` runs from `w`, both ends included, satisfies `J`. -/
def EveryState (H : StepRel S W) (J : W → Prop) (p : Prog S α) (w : W) : Prop :=
  ∀ p' w', Reaches H (p, w) (p', w') → J w'

/-- Every step taken while `p` runs from `w` satisfies `I`. -/
def EveryStep (H I : StepRel S W) (p : Prog S α) (w : W) : Prop :=
  ∀ c k w₁ r w₂, Reaches H (p, w) (.call c k, w₁) → H c w₁ r w₂ → I c w₁ r w₂

theorem Step.mono {H H' : StepRel S W} (hH : H ≤ H') {x y : Prog S α × W} (h : Step H x y) :
    Step H' x y := by
  cases h with
  | call h => exact .call (hH _ _ _ _ h)

theorem Reaches.mono {H H' : StepRel S W} (hH : H ≤ H') {x y : Prog S α × W} (h : Reaches H x y) :
    Reaches H' x y :=
  Relation.ReflTransGen.mono (fun _ _ => Step.mono hH) _ _ h

/-- What every step keeps, every run keeps. -/
theorem Reaches.keeps {H : StepRel S W} {J : W → Prop} {x y : Prog S α × W} (run : Reaches H x y)
    (keep : ∀ c w r w', H c w r w' → J w → J w') (start : J x.2) : J y.2 := by
  induction run with
  | refl => exact start
  | tail _ step ih =>
    cases step with
    | call step => exact keep _ _ _ _ step ih

theorem Step.bind {H : StepRel S W} (f : α → Prog S β) {x y : Prog S α × W} (h : Step H x y) :
    Step H (x.1 >>= f, x.2) (y.1 >>= f, y.2) := by
  cases h with
  | call h => exact .call h

theorem reaches_bind {H : StepRel S W} (f : α → Prog S β) {x y : Prog S α × W}
    (h : Reaches H x y) : Reaches H (x.1 >>= f, x.2) (y.1 >>= f, y.2) :=
  h.lift (fun z => (z.1 >>= f, z.2)) fun _ _ => Step.bind f

section Play

variable (answer : (c : S.Call) → O → W → Option (S.Reply c × W)) (allowed : S.Call → O → Bool)

/-- Run a program against a list of environment choices, one for each call. -/
def play : List O → Prog S α × W → Option (Prog S α × W)
  | [], x => some x
  | _ :: _, (.ret _, _) => none
  | o :: os, (.call c k, w) =>
    if allowed c o then
      match answer c o w with
      | none => none
      | some (r, w') => play os (k r, w')
    else none

theorem play_reaches {os : List O} {x y : Prog S α × W}
    (h : play answer allowed os x = some y) : Reaches (handler answer allowed) x y := by
  induction os generalizing x with
  | nil =>
    cases h
    exact .refl
  | cons o os ih =>
    match x with
    | (.ret _, _) => cases h
    | (.call c k, w) =>
      simp only [play] at h
      split at h
      case isTrue ok =>
        split at h
        case h_1 => cases h
        case h_2 r w' ans => exact .head (.call ⟨o, ok, ans⟩) (ih h)
      case isFalse => cases h

/-- What a played run shows: the value returned, if it has returned, and an observation of the
world it stopped in. -/
def playShow (see : W → β) (os : List O) (p : Prog S α) (w : W) : Option (Option α × β) :=
  (play answer allowed os (p, w)).map fun x => (x.1.result?, see x.2)

theorem playShow_reaches {see : W → β} {os : List O} {p : Prog S α} {w : W} {a? : Option α} {b : β}
    (h : playShow answer allowed see os p w = some (a?, b)) :
    ∃ p' w', Reaches (handler answer allowed) (p, w) (p', w') ∧ p'.result? = a? ∧ see w' = b := by
  obtain ⟨⟨p', w'⟩, hplay, hsee⟩ := Option.map_eq_some_iff.mp h
  cases hsee
  exact ⟨p', w', play_reaches answer allowed hplay, rfl, rfl⟩

theorem playShow_finishes {see : W → β} {os : List O} {p : Prog S α} {w : W} {a : α} {b : β}
    (h : playShow answer allowed see os p w = some (some a, b)) :
    ∃ w', Finishes (handler answer allowed) p w a w' ∧ see w' = b := by
  obtain ⟨p', w', run, hret, hsee⟩ := playShow_reaches answer allowed h
  cases p' with
  | ret a' => cases hret; exact ⟨w', run, hsee⟩
  | call => cases hret

end Play

end Codery.Effect
