import Codery.Effect.Pool
import Codery.Effect.Serial

/-! Scripted runs: operations played one after the other against the environment's choices, so
that a run with a given outcome can be exhibited by evaluation. -/

universe u v

namespace Codery.Effect

variable {S : Signature.{u}} {W O Op R : Type u} {β : Type v}

section

variable (answer : (c : S.Call) → O → W → Option (S.Reply c × W)) (allowed : S.Call → O → Bool)
  (perform : Op → Prog S R)

/-- Play the operations of a script to their ends, the log growing at its head. -/
def playSerial : List (Op × List O) → List (Op × R) × W → Option (List (Op × R) × W)
  | [], x => some x
  | (op, os) :: script, (log, w) =>
    match play answer allowed os (perform op, w) with
    | some (.ret r, w') => playSerial script ((op, r) :: log, w')
    | _ => none

/-- Play a script, and then a further operation up to a call; show that call's step. -/
def playStep (script : List (Op × List O)) (op : Op) (os : List O) (o : O)
    (see : S.Call → W → W → β) (w : W) : Option β :=
  match playSerial answer allowed perform script ([], w) with
  | none => none
  | some (_, w₁) =>
    match play answer allowed os (perform op, w₁) with
    | some (.call c _, w₂) =>
      if allowed c o then (answer c o w₂).map fun x => see c w₂ x.2 else none
    | _ => none

variable {answer allowed perform} {pre : Op → W → Prop}

theorem playSerial_serial {script : List (Op × List O)} {w₀ : W} {x y : List (Op × R) × W}
    (hpre : ∀ x ∈ script, ∀ w, pre x.1 w)
    (before : Serial (handler answer allowed) perform pre w₀ x.1 x.2)
    (played : playSerial answer allowed perform script x = some y) :
    Serial (handler answer allowed) perform pre w₀ y.1 y.2 := by
  induction script generalizing x with
  | nil =>
    cases played
    exact before
  | cons head script ih =>
    obtain ⟨op, os⟩ := head
    obtain ⟨log, w⟩ := x
    simp only [playSerial] at played
    split at played
    · next r w' run =>
      refine ih (x := ((op, r) :: log, w')) (fun x hx => hpre x (by simp [hx])) ?_ played
      exact before.cons (hpre (op, os) (by simp) w) (play_reaches answer allowed run)
    · cases played

/-- The first operation of a script, and what it leaves to the others. -/
theorem playSerial_first {op : Op} {os : List O} {script : List (Op × List O)}
    {log : List (Op × R)} {w : W} {y : List (Op × R) × W}
    (played : playSerial answer allowed perform ((op, os) :: script) (log, w) = some y) :
    ∃ r w', play answer allowed os (perform op, w) = some (.ret r, w') ∧
      playSerial answer allowed perform script ((op, r) :: log, w') = some y := by
  simp only [playSerial] at played
  split at played
  · next r w' run => exact ⟨r, w', run, played⟩
  · cases played

theorem playStep_step {script : List (Op × List O)} {op : Op} {os : List O} {o : O}
    {see : S.Call → W → W → β} {w : W} {b : β} (hpre : ∀ x ∈ script, ∀ w, pre x.1 w)
    (played : playStep answer allowed perform script op os o see w = some b) :
    ∃ log w₁ c k w₂ r w₃, Serial (handler answer allowed) perform pre w log w₁ ∧
      Reaches (handler answer allowed) (perform op, w₁) (.call c k, w₂) ∧
      handler answer allowed c w₂ r w₃ ∧ see c w₂ w₃ = b := by
  unfold playStep at played
  split at played
  case h_1 => cases played
  case h_2 log w₁ script_run =>
    split at played
    case h_1 c k w₂ run =>
      split at played
      case isTrue ok =>
        obtain ⟨x, ans, same⟩ := Option.map_eq_some_iff.mp played
        exact ⟨log, w₁, c, k, w₂, x.1, x.2, playSerial_serial hpre .nil script_run,
          play_reaches answer allowed run, ⟨o, ok, ans⟩, same⟩
      case isFalse => cases played
    case h_2 => cases played

theorem playSerial_ops {script : List (Op × List O)} {x y : List (Op × R) × W}
    (played : playSerial answer allowed perform script x = some y) :
    y.1.map (·.1) = (script.map (·.1)).reverse ++ x.1.map (·.1) := by
  induction script generalizing x with
  | nil =>
    cases played
    rfl
  | cons head script ih =>
    obtain ⟨op, os⟩ := head
    obtain ⟨log, w⟩ := x
    simp only [playSerial] at played
    split at played
    · rw [ih played, List.map_cons, List.map_cons, List.reverse_cons, List.append_assoc]
      rfl
    · cases played

/-- A script is a serial run, and what it shows is so of the world it leaves. -/
theorem playSerial_run (pre : Op → W → Prop) {script : List (Op × List O)} {w : W}
    {see : List (Op × R) × W → β} {b : β} (hpre : ∀ x ∈ script, ∀ w, pre x.1 w)
    (played : (playSerial answer allowed perform script ([], w)).map see = some b) :
    ∃ log w', Serial (handler answer allowed) perform pre w log w' ∧ see (log, w') = b := by
  obtain ⟨x, run, same⟩ := Option.map_eq_some_iff.mp played
  exact ⟨x.1, x.2, playSerial_serial hpre .nil run, same⟩

/-- A scripted step on which `I` fails. -/
theorem not_serialSteps {I : StepRel S W} {script : List (Op × List O)} {op : Op} {os : List O}
    {o : O} {fails : S.Call → W → W → Bool} {w : W} (hpre : ∀ x ∈ script, ∀ w, pre x.1 w)
    (hop : ∀ w, pre op w) (hI : ∀ c w r w', fails c w w' = true → ¬ I c w r w')
    (played : playStep answer allowed perform script op os o fails w = some true) :
    ¬ SerialSteps (handler answer allowed) perform pre I w := by
  intro all
  obtain ⟨log, w₁, c, k, w₂, r, w₃, before, run, step, bad⟩ := playStep_step hpre played
  exact hI c w₂ r w₃ bad (all log w₁ op before (hop w₁) c k w₂ r w₃ run step)

end

section Pool

variable {ι : Type u} [DecidableEq ι] (answer : (c : S.Call) → O → W → Option (S.Reply c × W))
  (allowed : S.Call → O → Bool) (turn : Pool S ι R → ι → Prop)
  [∀ x i, Decidable (turn x i)]

/-- Play a schedule: whose turn it is, and what the environment chooses. -/
def playPool : List (ι × O) → Pool S ι R × W → Option (Pool S ι R × W)
  | [], x => some x
  | (i, o) :: turns, (x, w) =>
    match x.prog i with
    | .ret _ => none
    | .call c k =>
      if turn x i ∧ allowed c o = true then
        match answer c o w with
        | none => none
        | some (r, w') => playPool turns (x.resume i (k r), w')
      else none

variable {answer allowed turn}

theorem playPool_reaches {turns : List (ι × O)} {x y : Pool S ι R × W}
    (played : playPool answer allowed turn turns x = some y) :
    Pool.Reaches (handler answer allowed) turn x y := by
  induction turns generalizing x with
  | nil =>
    cases played
    exact .refl
  | cons head turns ih =>
    obtain ⟨i, o⟩ := head
    obtain ⟨x, w⟩ := x
    simp only [playPool] at played
    split at played
    · cases played
    · next c k prog =>
      split at played
      · next ok =>
        split at played
        · cases played
        · next r w' ans => exact .head (.call prog ok.1 ⟨o, ok.2, ans⟩) (ih played)
      · cases played

end Pool

end Codery.Effect
