import Codery.Effect.Safety

/-! Runs with a ghost: a record beside the world that notes the steps and that no call reads. -/

universe u

namespace Codery.Effect

variable {S : Signature.{u}} {W O G : Type u} {α : Type u}

/-- The steps of `H`, each of which notes its reply and the world it was issued in. -/
def ghost (H : StepRel S W) (note : (c : S.Call) → W → S.Reply c → G → G) : StepRel S (W × G) :=
  fun c x r x' => H c x.1 r x'.1 ∧ x'.2 = note c x.1 r x.2

variable {H I : StepRel S W} {note : (c : S.Call) → W → S.Reply c → G → G} {p : Prog S α}

/-- Every run can be recorded. -/
theorem Reaches.record {x y : Prog S α × W} (run : Reaches H x y) (g : G) :
    ∃ g', Reaches (ghost H note) (x.1, (x.2, g)) (y.1, (y.2, g')) := by
  induction run with
  | refl => exact ⟨g, .refl⟩
  | tail _ step ih =>
    obtain ⟨g', before⟩ := ih
    cases step with
    | call step => exact ⟨_, before.tail (.call ⟨step, rfl⟩)⟩

/-- The record has no influence on the run. -/
theorem Reaches.erase {x y : Prog S α × (W × G)} (run : Reaches (ghost H note) x y) :
    Reaches H (x.1, x.2.1) (y.1, y.2.1) := by
  induction run with
  | refl => exact .refl
  | tail _ step ih =>
    cases step with
    | call step => exact ih.tail (.call step.1)

/-- What is known of a run is known of its recording. -/
theorem Safe.ghost {Q : α → W → Prop} {w : W} (h : Safe H I Q p w) (g : G) :
    Safe (ghost H note) (fun c x r x' => I c x.1 r x'.1) (fun a x => Q a x.1) p (w, g) := by
  induction p generalizing w g with
  | ret a => exact h
  | call c k ih =>
    rintro r ⟨w', g'⟩ ⟨step, _⟩
    obtain ⟨hc, hk⟩ := h r w' step
    exact ⟨hc, ih r hk g'⟩

/-- A program nothing of which is noted leaves the record as it is. -/
theorem Safe.unnoted {Q : α → W → Prop} {w : W} {g : G} (h : Safe H I Q p w)
    (only : p.Only fun c => ∀ w r g, note c w r g = g) :
    Safe (Effect.ghost H note) (fun _ _ _ _ => True) (fun a x => Q a x.1 ∧ x.2 = g) p (w, g) := by
  have kept := only.keeps (H := Effect.ghost H note) (J := fun x : W × G => x.2 = g) (w := (w, g)) rfl
    fun c x r x' step quiet same => by rw [step.2, quiet, same]
  exact ((h.ghost g).and kept).mono (fun _ _ _ _ _ _ => trivial) fun _ _ both => both

/-- What `answer` does in a world with a record. -/
def noting (answer : (c : S.Call) → O → W → Option (S.Reply c × W))
    (note : (c : S.Call) → W → S.Reply c → G → G) (c : S.Call) (o : O) (x : W × G) :
    Option (S.Reply c × (W × G)) :=
  (answer c o x.1).map fun y => (y.1, (y.2, note c x.1 y.1 x.2))

theorem handler_noting {answer : (c : S.Call) → O → W → Option (S.Reply c × W)}
    {allowed : S.Call → O → Bool} :
    handler (noting answer note) allowed ≤ ghost (handler answer allowed) note := by
  rintro c x r x' ⟨o, ok, ans⟩
  obtain ⟨⟨r', w'⟩, played, same⟩ := Option.map_eq_some_iff.mp ans
  cases same
  exact ⟨⟨o, ok, played⟩, rfl⟩

end Codery.Effect
