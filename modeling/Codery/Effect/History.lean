import Codery.Effect.Ghost

/-! Runs with a record of the calls made and the replies had, the latest first, and its part since
the last call of some kind. -/

universe u

namespace Codery.Effect

variable {S : Signature.{u}} {W : Type u} {α ε : Type u}

abbrev History (S : Signature.{u}) : Type u := List ((c : S.Call) × S.Reply c)

def recorded (H : StepRel S W) : StepRel S (W × History S) :=
  ghost H fun c _ r h => ⟨c, r⟩ :: h

/-- What has happened since the last marked call. -/
def since (marks : S.Call → Bool) (h : History S) : History S := h.takeWhile fun e => !marks e.1

/-- The record goes on from `h` to `h'` without a marked call. -/
def GoesOn (marks : S.Call → Bool) (h h' : History S) : Prop :=
  ∃ l, h' = l ++ h ∧ ∀ e ∈ l, marks e.1 = false

variable {H I : StepRel S W} {marks : S.Call → Bool} {h h' h'' : History S}
  {e : (c : S.Call) × S.Reply c}

namespace GoesOn

theorem refl (h : History S) : GoesOn marks h h := ⟨[], rfl, by simp⟩

theorem trans (first : GoesOn marks h h') (next : GoesOn marks h' h'') : GoesOn marks h h'' := by
  obtain ⟨l, rfl, quiet⟩ := first
  obtain ⟨l', rfl, quiet'⟩ := next
  refine ⟨l' ++ l, (List.append_assoc _ _ _).symm, fun e mem => ?_⟩
  exact (List.mem_append.mp mem).elim (quiet' e) (quiet e)

theorem step {c : S.Call} (quiet : marks c = false) (r : S.Reply c) :
    GoesOn marks h (⟨c, r⟩ :: h) := ⟨[⟨c, r⟩], rfl, by simpa using quiet⟩

theorem mem (goes : GoesOn marks h h') (mem : e ∈ h) : e ∈ h' := by
  obtain ⟨l, rfl, -⟩ := goes
  exact List.mem_append_right l mem

/-- What happened since the mark is still so. -/
theorem since_eq (goes : GoesOn marks h h') :
    ∃ l, h' = l ++ h ∧ since marks h' = l ++ since marks h := by
  obtain ⟨l, rfl, quiet⟩ := goes
  exact ⟨l, rfl, List.takeWhile_append_of_pos fun e mem => by simp [quiet e mem]⟩

theorem since_subset (goes : GoesOn marks h h') : since marks h ⊆ since marks h' := by
  obtain ⟨l, -, same⟩ := goes.since_eq
  exact same ▸ List.subset_append_right l _

end GoesOn

theorem since_step {c : S.Call} (quiet : marks c = false) (r : S.Reply c) :
    since marks (⟨c, r⟩ :: h) = ⟨c, r⟩ :: since marks h := by simp [since, quiet]

theorem mem_since_head {c : S.Call} (quiet : marks c = false) (r : S.Reply c) :
    ⟨c, r⟩ ∈ since marks (⟨c, r⟩ :: h) := by
  rw [since_step quiet]
  exact .head _

theorem since_mark {c : S.Call} (marked : marks c = true) (r : S.Reply c) :
    since marks (⟨c, r⟩ :: h) = [] := by simp [since, marked]

theorem recorded_step {c : S.Call} {x : W × History S} {r : S.Reply c} {x' : W × History S}
    (step : recorded H c x r x') : H c x.1 r x'.1 ∧ x'.2 = ⟨c, r⟩ :: x.2 := step

/-- A program that makes no marked call. -/
theorem Prog.Only.goesOn {p : Prog S α} (only : p.Only fun c => marks c = false)
    (x : W × History S) :
    Safe (recorded H) (fun _ _ _ _ => True) (fun _ x' => GoesOn marks x.2 x'.2) p x := by
  refine (only.keeps (J := fun x' : W × History S => GoesOn marks x.2 x'.2) (.refl _) ?_).mono
    (fun _ _ _ _ _ _ => trivial) fun _ _ after => after
  intro c x₁ r x₂ step quiet before
  rw [(recorded_step step).2]
  exact before.trans (.step quiet r)

end Codery.Effect
