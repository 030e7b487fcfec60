import Codery.Effect.Safety

/-! Operations run one at a time: each is started in the world its predecessor left and runs to
its end before the next one starts. -/

universe u

namespace Codery.Effect

variable {S : Signature.{u}} {W Op R : Type u}

/-- `Serial H perform pre w₀ log w`: from `w₀`, operations each started in a world `pre` admits
have run to their ends and left `w`; `log` holds them with their results, the latest first. -/
inductive Serial (H : StepRel S W) (perform : Op → Prog S R) (pre : Op → W → Prop) (w₀ : W) :
    List (Op × R) → W → Prop
  | nil : Serial H perform pre w₀ [] w₀
  | cons {log w op r w'} : Serial H perform pre w₀ log w → pre op w →
      Finishes H (perform op) w r w' → Serial H perform pre w₀ ((op, r) :: log) w'

variable {H H' : StepRel S W} {perform : Op → Prog S R} {pre : Op → W → Prop} {w₀ w : W}
  {log : List (Op × R)}

/-- The invariant rule for serial runs: an assertion every admitted operation hands on holds
between any two operations. -/
theorem Serial.invariant {J : List (Op × R) → W → Prop} (run : Serial H perform pre w₀ log w)
    (start : J [] w₀)
    (hand : ∀ log w op r w', J log w → pre op w → Finishes H (perform op) w r w' →
      J ((op, r) :: log) w') : J log w := by
  induction run with
  | nil => exact start
  | cons _ admitted finish ih => exact hand _ _ _ _ _ ih admitted finish

theorem Serial.keeps {J : W → Prop} (run : Serial H perform pre w₀ log w) (start : J w₀)
    (keep : ∀ op w r w', J w → pre op w → Finishes H (perform op) w r w' → J w') : J w :=
  run.invariant (J := fun _ w => J w) start fun _ w op r w' => keep op w r w'

theorem Serial.mono {pre' : Op → W → Prop} (run : Serial H perform pre w₀ log w) (hH : H ≤ H')
    (hpre : ∀ op w, pre op w → pre' op w) : Serial H' perform pre' w₀ log w := by
  induction run with
  | nil => exact .nil
  | cons _ admitted finish ih => exact .cons ih (hpre _ _ admitted) (finish.mono hH)

/-- Every step an admitted operation takes, in any serial run from `w₀`, satisfies `I`. -/
def SerialSteps (H : StepRel S W) (perform : Op → Prog S R) (pre : Op → W → Prop)
    (I : StepRel S W) (w₀ : W) : Prop :=
  ∀ log w op, Serial H perform pre w₀ log w → pre op w → EveryStep H I (perform op) w

/-- Every world met while an admitted operation runs, in any serial run from `w₀`, satisfies
`J`. -/
def SerialStates (H : StepRel S W) (perform : Op → Prog S R) (pre : Op → W → Prop)
    (J : W → Prop) (w₀ : W) : Prop :=
  ∀ log w op, Serial H perform pre w₀ log w → pre op w → EveryState H J (perform op) w

theorem serialSteps_of_safe {I : StepRel S W}
    (safe : ∀ op w, pre op w → Safe H I (fun _ _ => True) (perform op) w) :
    SerialSteps H perform pre I w₀ := fun _ w op _ admitted => (safe op w admitted).everyStep

theorem serialStates_of_safe {J : W → Prop} (start : J w₀)
    (safe : ∀ op w, J w → pre op w →
      Safe H (fun _ _ _ w' => J w') (fun _ w' => J w') (perform op) w) :
    SerialStates H perform pre J w₀ := by
  intro log w op run admitted
  have now : J w := run.keeps start fun op w r w' hw admitted finish =>
    (safe op w hw admitted).finishes finish
  exact (safe op w now admitted).everyState now

end Codery.Effect
