import Codery.Host.Docker

/-! The blue/green pair as an abstract machine: which slot is recorded as active, what the two
slots hold, and where the router sends the traffic of the service. -/

namespace Codery

structure Slots where
  active : Option Color
  slot : Color → Option Container
  /-- The slot the router's file names, and the slot its loaded configuration names, if any. -/
  filed : Option Color
  routed : Option Color

namespace Slots

inductive Act
  | idle
  | replace (c : Color)
  | promote (c : Color)
  | rewrite
  | reload
  deriving DecidableEq

def Up (x : Slots) (c : Color) : Prop := ∃ k, x.slot c = some k ∧ k.running = true

def Live (x : Slots) : Prop := ∃ c, x.active = some c ∧ x.Up c

/-- Traffic, if routed at all, goes to the recorded slot. -/
def Aligned (x : Slots) : Prop := ∀ c, x.routed = some c → x.active = some c

variable (aligned vetted : Prop)

/-- What the machine asks of an action.  `aligned` and `vetted` are facts about the state an
operation starts in, which its actions may rely on. -/
def Guard (x : Slots) : Act → Prop
  | .replace c => x.active = some (flip c) ∧ (aligned → x.routed ≠ some c)
  | .promote c => x.active = some (flip c) ∧
      ∃ k, x.slot c = some k ∧ k.running = true ∧ (vetted → k.healthPassed = true)
  | .reload => ∀ c a, x.filed = some c → x.active = some a → c = a
  | _ => True

/-- What an action can do.  Recording a color may fail and leave either color behind. -/
inductive Effect : Act → Slots → Slots → Prop
  | idle {x} : Effect .idle x x
  | replace {x c} (k : Option Container) :
      Effect (.replace c) x { x with slot := Function.update x.slot c k }
  | promote {x c} (e : Color) : Effect (.promote c) x { x with active := some e }
  | refuse {x c} : Effect (.promote c) x x
  | rewrite {x} (f : Option Color) : Effect .rewrite x { x with filed := f }
  | reload {x} : Effect .reload x { x with routed := x.filed }
  | keep {x} : Effect .reload x x

structure Step (act : Act) (x x' : Slots) : Prop where
  guard : x.Guard aligned vetted act
  effect : Effect act x x'

variable {aligned vetted} {act : Act} {x x' : Slots} {c : Color}

theorem Effect.slot (step : Effect act x x') (hc : act ≠ .replace c) : x'.slot c = x.slot c := by
  cases step with
  | replace k =>
    have ne : c ≠ _ := fun same => hc (same ▸ rfl)
    simp [ne]
  | _ => rfl

theorem Effect.up (step : Effect act x x') (hc : act ≠ .replace c) : x'.Up c ↔ x.Up c := by
  unfold Up
  rw [step.slot hc]

theorem Effect.active (step : Effect act x x') (hc : ∀ c, act ≠ .promote c) :
    x'.active = x.active := by
  cases step with
  | promote | refuse => exact absurd rfl (hc _)
  | _ => rfl

/-- The recorded slot stays up: only the other one is replaced, and a slot is recorded only
while both are up. -/
theorem Step.live (step : Step aligned vetted act x x') (live : x.Live) : x'.Live := by
  obtain ⟨a, active, up⟩ := live
  obtain ⟨guard, effect⟩ := step
  cases act with
  | promote c =>
    obtain ⟨standby, k, hk, running, _⟩ := guard
    have both (e : Color) : x.Up e := by
      rw [active, Option.some_inj] at standby
      subst standby
      cases eq_or_eq_flip c e with
      | inl same => exact same ▸ ⟨k, hk, running⟩
      | inr same => exact same ▸ up
    cases effect with
    | promote e => exact ⟨e, rfl, both e⟩
    | refuse => exact ⟨a, active, up⟩
  | replace c =>
    have ne : Act.replace c ≠ .replace a := by
      intro same
      cases same
      have standby := guard.1
      rw [active] at standby
      exact ne_flip _ (Option.some_inj.mp standby)
    exact ⟨a, (effect.active nofun).trans active, (effect.up ne).mpr up⟩
  | idle | rewrite | reload =>
    exact ⟨a, (effect.active nofun).trans active, (effect.up nofun).mpr up⟩

/-- The slot traffic is routed to is not taken down, as long as the two records agreed. -/
theorem Step.routed_up (step : Step aligned vetted act x x') (hA : aligned)
    (routed : x.routed = some c) (up : x.Up c) : x'.Up c := by
  refine (step.effect.up ?_).mpr up
  intro same
  have guard := step.guard
  rw [same] at guard
  exact guard.2 hA routed

end Slots

end Codery
