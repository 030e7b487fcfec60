import Codery.Effect.Follow
import Codery.Effect.Safety

/-! What the calls of a program keep, and the subprogram it is built around, the program keeps. -/

universe u

namespace Codery.Effect

variable {S : Signature.{u}} {W : Type u} {α β γ : Type u} {H : StepRel S W}
  {P Q : S.Call → Prop} {J : W → Prop} {w : W}

theorem Prog.Only.and {p : Prog S α} (first : p.Only P) (second : p.Only Q) :
    p.Only fun c => P c ∧ Q c := by
  induction p with
  | ret a => trivial
  | call c k ih => exact ⟨⟨first.1, second.1⟩, fun r => ih r (first.2 r) (second.2 r)⟩

/-- What a composition calls, the rest calls that is left of it. -/
theorem Prog.Only.next {p : Prog S α} {f : α → Prog S β} (only : (p >>= f).Only P) (w : W) :
    Safe H (fun _ _ _ _ => True) (fun a _ => (f a).Only P) p w := by
  induction p generalizing w with
  | ret a => exact only
  | call c k ih => exact fun r w' _ => ⟨trivial, ih r (only.2 r) w'⟩

/-- An invariant of the calls and of the whole runs of `b` is one of what uses `b`. -/
theorem Uses.keeps {b : Prog S γ} {p : Prog S α} (uses : Uses P b p) (only : p.Only Q)
    (calls : ∀ c w r w', P c → Q c → H c w r w' → J w → J w')
    (block : ∀ w, J w → Safe H (fun _ _ _ _ => True) (fun _ w' => J w') b w) (start : J w) :
    Safe H (fun _ _ _ _ => True) (fun _ w' => J w') p w := by
  induction uses generalizing w with
  | ret a => exact start
  | call hc _ ih =>
    exact fun r w' step => ⟨trivial, ih r (only.2 r) (calls _ _ _ _ hc only.1 step start)⟩
  | block _ ih =>
    have both := (block w start).and (only.next (H := H) w)
    refine Safe.bind (both.mono (fun _ _ _ _ _ _ => trivial) fun _ _ kept => kept) ?_
    exact fun x w' ⟨kept, rest⟩ => ih x rest kept

end Codery.Effect
