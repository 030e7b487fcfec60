import Codery.Deploy
import Mathlib.Algebra.Order.Ring.Rat
import Mathlib.Data.Nat.Cast.Order.Ring

/-! `wait_for_tcp_in_container` against the clock.  A probe takes no time, and a sleep takes just the
time it is given. -/

namespace Codery.TcpWait

open Codery.Effect

inductive Call
  /-- `docker exec` with a connect to the port. -/
  | probe
  | sleep (secs : ℕ)

@[reducible] def Call.Reply : Call → Type
  | .probe => Bool
  | .sleep _ => Unit

abbrev sig : Signature.{0} := ⟨Call, Call.Reply⟩

/-- The loop, from some attempt on. -/
def poll (intervalSecs : ℕ) : ℕ → Prog sig Bool
  | 0 => pure false
  | attempts + 1 => do
    if ← ask (S := sig) .probe then pure true
    else do
      ask (S := sig) (.sleep intervalSecs)
      poll intervalSecs attempts

def waitForTcpInContainer (timeoutSecs intervalSecs : ℕ) : Prog sig Bool :=
  poll intervalSecs (timeoutSecs / max intervalSecs 1)

/-! ### The program without the clock -/

variable {α : Type}

/-- Leave the sleeps out. -/
def timeless (container : String) (port : UInt16) : Prog sig α → Prog Codery.sig α
  | .ret a => .ret a
  | .call .probe k => .call (.docker (.execTcpProbe container port)) fun r =>
      timeless container port (k r)
  | .call (.sleep _) k => timeless container port (k ())

/-- What a deploy does, but for the sleeps. -/
theorem timeless_poll (container : String) (port : UInt16) (intervalSecs attempts : ℕ) :
    timeless container port (poll intervalSecs attempts) >>= (fun r => .ret (.ok r)) =
      (Deploy.waitForTcpInContainer container port attempts).run := by
  induction attempts with
  | zero => rfl
  | succ attempts ih =>
    refine congrArg (Prog.call _) (funext fun r => ?_)
    cases r with
    | true => rfl
    | false => exact ih

/-! ### The program against the clock -/

variable {τ : Type} [Semiring τ]

/-- Run a program from time `now` on, in a container that accepts connections as `accepts` tells:
what it returns, and when. -/
def eval (accepts : τ → Bool) : Prog sig α → τ → α × τ
  | .ret a, now => (a, now)
  | .call .probe k, now => eval accepts (k (accepts now)) now
  | .call (.sleep secs) k, now => eval accepts (k ()) (now + secs)

variable {accepts : τ → Bool} {now r : τ} {timeoutSecs intervalSecs attempts : ℕ}

theorem eval_poll_succ :
    eval accepts (poll intervalSecs (attempts + 1)) now =
      if accepts now then (true, now)
      else eval accepts (poll intervalSecs attempts) (now + intervalSecs) := by
  have probed : eval accepts (poll intervalSecs (attempts + 1)) now =
      eval accepts (if accepts now then pure true else do
        ask (S := sig) (.sleep intervalSecs)
        poll intervalSecs attempts) now := rfl
  rw [probed]
  split
  · rfl
  · rfl

/-- The probes are one interval apart. -/
theorem eval_poll_iff :
    (eval accepts (poll intervalSecs attempts) now).1 = true ↔
      ∃ k < attempts, accepts (now + k * intervalSecs) = true := by
  induction attempts generalizing now with
  | zero => simp [poll, eval]
  | succ attempts ih =>
    rw [eval_poll_succ]
    split
    · next first => exact ⟨fun _ => ⟨0, by simp, by simpa using first⟩, fun _ => rfl⟩
    · next first =>
      rw [ih]
      constructor
      · rintro ⟨k, hk, later⟩
        refine ⟨k + 1, by omega, ?_⟩
        rwa [Nat.cast_succ, add_mul, one_mul, add_comm (_ * _), ← add_assoc]
      · rintro ⟨k, hk, later⟩
        cases k with
        | zero => exact absurd (by simpa using later) first
        | succ k =>
          refine ⟨k, by omega, ?_⟩
          rwa [Nat.cast_succ, add_mul, one_mul, add_comm (_ * _), ← add_assoc] at later

theorem eval_poll_never (never : ∀ t, accepts t = false) :
    eval accepts (poll intervalSecs attempts) now = (false, now + attempts * intervalSecs) := by
  induction attempts generalizing now with
  | zero => simp [poll, eval]
  | succ attempts ih =>
    rw [eval_poll_succ, never, if_neg Bool.false_ne_true, ih, Nat.cast_succ, add_mul, one_mul,
      add_comm (_ * _), ← add_assoc]

variable [LinearOrder τ] [IsStrictOrderedRing τ]

/-- What is expected of a wait of `timeoutSecs` with probes every `intervalSecs`. -/
structure Covers (τ : Type) [Semiring τ] [LinearOrder τ] (timeoutSecs intervalSecs : ℕ) : Prop where
  /-- A container that comes up two intervals before the end, and stays up, is seen. -/
  sees : ∀ (accepts : τ → Bool) (r : τ), 0 ≤ r → r + 2 * intervalSecs ≤ timeoutSecs →
    (∀ t, r ≤ t → accepts t = true) →
      (eval accepts (waitForTcpInContainer timeoutSecs intervalSecs) 0).1 = true
  givesUp : ∀ accepts : τ → Bool, (∀ t, accepts t = false) →
    (eval accepts (waitForTcpInContainer timeoutSecs intervalSecs) 0).1 = false ∧
      (eval accepts (waitForTcpInContainer timeoutSecs intervalSecs) 0).2 ≤ timeoutSecs

theorem attempts_mul_le : timeoutSecs / max intervalSecs 1 * intervalSecs ≤ timeoutSecs :=
  calc timeoutSecs / max intervalSecs 1 * intervalSecs
      ≤ timeoutSecs / max intervalSecs 1 * max intervalSecs 1 :=
        Nat.mul_le_mul_left _ (le_max_left _ _)
    _ ≤ timeoutSecs := Nat.div_mul_le_self _ _

/-- The last probe comes less than two intervals before the end. -/
theorem last_probe (positive : 1 ≤ intervalSecs) (room : 2 * intervalSecs ≤ timeoutSecs) :
    ∃ k < timeoutSecs / max intervalSecs 1, timeoutSecs < k * intervalSecs + 2 * intervalSecs := by
  rw [max_eq_left positive]
  have attempts : 2 ≤ timeoutSecs / intervalSecs := (Nat.le_div_iff_mul_le positive).mpr room
  have next := Nat.lt_mul_div_succ timeoutSecs positive
  obtain ⟨k, same⟩ := Nat.exists_eq_add_of_le' attempts
  rw [same] at next ⊢
  refine ⟨k + 1, by omega, ?_⟩
  calc timeoutSecs < intervalSecs * (k + 2 + 1) := next
    _ = (k + 1 + 2) * intervalSecs := Nat.mul_comm _ _
    _ = (k + 1) * intervalSecs + 2 * intervalSecs := Nat.add_mul _ _ _

theorem sees_of_positive (positive : 1 ≤ intervalSecs) (start : 0 ≤ r)
    (early : r + 2 * intervalSecs ≤ timeoutSecs) (up : ∀ t, r ≤ t → accepts t = true) :
    (eval accepts (waitForTcpInContainer timeoutSecs intervalSecs) 0).1 = true := by
  have room : ((2 * intervalSecs : ℕ) : τ) ≤ (timeoutSecs : ℕ) := by
    push_cast
    exact (le_add_of_nonneg_left start).trans early
  obtain ⟨k, hk, late⟩ := last_probe positive (Nat.cast_le.mp room)
  refine eval_poll_iff.mpr ⟨k, hk, up _ ?_⟩
  have late : (timeoutSecs : τ) < k * intervalSecs + 2 * intervalSecs := by exact_mod_cast late
  rw [zero_add]
  exact (lt_of_add_lt_add_right (early.trans_lt late)).le

theorem gives_up (never : ∀ t, accepts t = false) :
    (eval accepts (waitForTcpInContainer timeoutSecs intervalSecs) 0).1 = false ∧
      (eval accepts (waitForTcpInContainer timeoutSecs intervalSecs) 0).2 ≤ timeoutSecs := by
  rw [waitForTcpInContainer, eval_poll_never never, zero_add]
  refine ⟨rfl, ?_⟩
  show ((timeoutSecs / max intervalSecs 1 : ℕ) : τ) * intervalSecs ≤ timeoutSecs
  rw [← Nat.cast_mul]
  exact Nat.cast_le.mpr attempts_mul_le

/-- Without an interval all probes are made at once. -/
theorem not_covers_zero : ¬ Covers τ timeoutSecs 0 := by
  intro covers
  have seen := covers.sees (fun t => decide ((timeoutSecs : τ) ≤ t)) timeoutSecs (Nat.cast_nonneg _)
    (by simp) fun t up => decide_eq_true up
  obtain ⟨k, hk, up⟩ := eval_poll_iff.mp seen
  have none : timeoutSecs = 0 := by simpa using up
  subst none
  exact absurd hk (by simp)

/-- The wait does what is expected of it exactly if it sleeps between the probes. -/
theorem covers_iff : Covers τ timeoutSecs intervalSecs ↔ 1 ≤ intervalSecs := by
  constructor
  · intro covers
    refine Nat.one_le_iff_ne_zero.mpr ?_
    rintro rfl
    exact not_covers_zero covers
  · intro positive
    exact ⟨fun _ _ => sees_of_positive positive, fun _ => gives_up⟩

theorem covers_sixty : Covers ℚ 60 2 := covers_iff.mpr (by decide)

/-- A container that comes up within the first second is not seen. -/
theorem zero_interval : ¬ ∀ timeoutSecs intervalSecs : ℕ, Covers ℚ timeoutSecs intervalSecs :=
  fun all => not_covers_zero (all 60 0)

end Codery.TcpWait
