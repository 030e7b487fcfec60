import Codery.Effect.Safety
import Mathlib.Data.Fintype.Defs
import Mathlib.Logic.Function.Basic

/-! Programs that run at once, one step of one of them at a time, and a lock that some of them
take. -/

universe u v

namespace Codery.Effect

variable {S : Signature.{u}} {W R O ι : Type u} {H : StepRel S W}

structure Pool (S : Signature.{u}) (ι R : Type u) where
  prog : ι → Prog S R
  /-- Which programs have taken a step. -/
  begun : ι → Bool

namespace Pool

def start (ps : ι → Prog S R) : Pool S ι R := ⟨ps, fun _ => false⟩

/-- The program has taken a step, and has not returned. -/
def UnderWay (x : Pool S ι R) (i : ι) : Prop :=
  x.begun i = true ∧ (x.prog i).result? = none

def Done (x : Pool S ι R) : Prop := ∀ i, ∃ a, x.prog i = .ret a

instance (x : Pool S ι R) (i : ι) : Decidable (x.UnderWay i) :=
  decidable_of_iff (x.begun i = true ∧ (x.prog i).result?.isNone = true) (by simp [UnderWay])

theorem done_of_results {x : Pool S ι R} (h : ∀ i, (x.prog i).result?.isSome = true) : x.Done := by
  intro i
  have some := h i
  cases prog : x.prog i with
  | ret a => exact ⟨a, rfl⟩
  | call c k =>
    rw [prog] at some
    cases some

variable [DecidableEq ι]

def resume (x : Pool S ι R) (i : ι) (p : Prog S R) : Pool S ι R where
  prog := Function.update x.prog i p
  begun := Function.update x.begun i true

/-- A step of one program, whose turn it may be. -/
inductive Step (H : StepRel S W) (turn : Pool S ι R → ι → Prop) :
    Pool S ι R × W → Pool S ι R × W → Prop
  | call {x w i c k r w'} : x.prog i = .call c k → turn x i → H c w r w' →
      Step H turn (x, w) (x.resume i (k r), w')

abbrev Reaches (H : StepRel S W) (turn : Pool S ι R → ι → Prop) :
    Pool S ι R × W → Pool S ι R × W → Prop := Relation.ReflTransGen (Step H turn)

/-- No step is taken that would overlap a program that is to run alone. -/
def Apart (alone : ι → Prop) (x : Pool S ι R) (i : ι) : Prop :=
  ∀ j, j ≠ i → x.UnderWay j → ¬ alone i ∧ ¬ alone j

instance [Fintype ι] (alone : ι → Prop) [DecidablePred alone] (x : Pool S ι R) (i : ι) :
    Decidable (Apart alone x i) :=
  inferInstanceAs (Decidable (∀ j, j ≠ i → x.UnderWay j → ¬ alone i ∧ ¬ alone j))

section Resume

variable {x : Pool S ι R} {i j : ι} {p : Prog S R}

@[simp] theorem resume_prog_self : (x.resume i p).prog i = p := by simp [resume]

@[simp] theorem resume_prog_of_ne (h : j ≠ i) : (x.resume i p).prog j = x.prog j := by
  simp [resume, h]

@[simp] theorem resume_begun_self : (x.resume i p).begun i = true := by simp [resume]

@[simp] theorem resume_begun_of_ne (h : j ≠ i) : (x.resume i p).begun j = x.begun j := by
  simp [resume, h]

theorem resume_underWay (h : j ≠ i) : (x.resume i p).UnderWay j ↔ x.UnderWay j := by
  simp [UnderWay, h]

end Resume

end Pool

/-- A lock of the world, taken and given back by calls. -/
structure Lock (H : StepRel S W) where
  acquire : S.Call
  release : S.Call
  granted : S.Reply acquire → Bool
  Held : W → Prop
  free : ∀ {w r w'}, H acquire w r w' → granted r = true → ¬ Held w
  held : ∀ {w r w'}, H acquire w r w' → granted r = true → Held w'
  refused : ∀ {w r w'}, H acquire w r w' → granted r = false → w' = w

namespace Lock

variable (L : Lock H)

/-- A call that does not give the lock back. -/
def Spares (c : S.Call) : Prop := ∀ w r w', H c w r w' → L.Held w → L.Held w'

/-- What is left of a program that has the lock: a body, and then the release. -/
def Holds (p : Prog S R) : Prop :=
  ∃ body : Prog S R, body.Only L.Spares ∧ p = body >>= fun a => .call L.release fun _ => .ret a

/-- The program takes the lock first, and does nothing without it. -/
def Guards (p : Prog S R) : Prop :=
  ∃ k, p = .call L.acquire k ∧ ∀ r, if L.granted r then L.Holds (k r) else ∃ a, k r = .ret a

end Lock

namespace Pool

variable {L : Lock H} {J : W → Prop} {alone : ι → Prop} {ps : ι → Prog S R} {x : Pool S ι R} {w : W}

/-- `p`, left to itself, ends in a world of which `J` holds. -/
abbrev Restores (H : StepRel S W) (J : W → Prop) (p : Prog S R) (w : W) : Prop :=
  Safe H (fun _ _ _ _ => True) (fun _ w => J w) p w

/-- Where a pool stands in which overlapping programs share the lock: at rest, or with one program
under way, which runs alone or holds the lock. -/
inductive Phase (L : Lock H) (J : W → Prop) (alone : ι → Prop) (x : Pool S ι R) (w : W) : Prop
  | idle : J w → (∀ i, ¬ x.UnderWay i) → Phase L J alone x w
  | lone (i : ι) : alone i → x.UnderWay i → Restores H J (x.prog i) w →
      (∀ j, j ≠ i → ¬ x.UnderWay j) → Phase L J alone x w
  | held (i : ι) : L.Holds (x.prog i) → x.begun i = true → L.Held w →
      Restores H J (x.prog i) w → (∀ j, j ≠ i → ¬ x.UnderWay j) → Phase L J alone x w

theorem Holds.result {p : Prog S R} (holds : L.Holds p) : p.result? = none := by
  obtain ⟨body, _, rfl⟩ := holds
  cases body <;> rfl

/-- Programs not yet begun are still whole. -/
def Whole (ps : ι → Prog S R) (x : Pool S ι R) : Prop :=
  ∀ i, x.begun i = false → x.prog i = ps i

variable {i : ι} {w' : W} {c : S.Call} {k : S.Reply c → Prog S R} {r : S.Reply c}

/-- A program that can step and is not under way is about to begin. -/
theorem Whole.begin (whole : x.Whole ps) (prog : x.prog i = .call c k) (rest : ¬ x.UnderWay i) :
    ps i = .call c k := by
  rw [← prog]
  refine (whole i ?_).symm
  by_contra begun
  exact rest ⟨by simpa using begun, by rw [prog]; rfl⟩

variable [DecidableEq ι]

theorem resume_quiet {p : Prog S R} (others : ∀ j, j ≠ i → ¬ x.UnderWay j) :
    ∀ j, j ≠ i → ¬ (x.resume i p).UnderWay j :=
  fun j ne under => others j ne ((resume_underWay ne).mp under)

theorem not_underWay_ret {a : R} : ¬ (x.resume i (.ret a)).UnderWay i := by
  rintro ⟨_, none⟩
  rw [resume_prog_self] at none
  cases none

/-- The program that has just taken a step runs alone. -/
theorem phase_lone {p : Prog S R} (ha : alone i) (safe : Restores H J p w')
    (others : ∀ j, j ≠ i → ¬ x.UnderWay j) : Phase L J alone (x.resume i p) w' := by
  cases p with
  | ret a =>
    refine .idle safe fun j under => ?_
    by_cases eq : j = i
    · subst eq
      exact not_underWay_ret under
    · exact resume_quiet others j eq under
  | call c k =>
    refine .lone i ha ⟨resume_begun_self, by rw [resume_prog_self]; rfl⟩ ?_ (resume_quiet others)
    rwa [resume_prog_self]

/-- The program that has just taken a step has returned. -/
theorem phase_idle {a : R} (hJ : J w') (others : ∀ j, j ≠ i → ¬ x.UnderWay j) :
    Phase L J alone (x.resume i (.ret a)) w' := by
  refine .idle hJ fun j under => ?_
  by_cases eq : j = i
  · subst eq
    exact not_underWay_ret under
  · exact resume_quiet others j eq under

/-- The program that has just taken a step holds the lock. -/
theorem phase_held {p : Prog S R} (holds : L.Holds p) (held : L.Held w')
    (safe : Restores H J p w') (others : ∀ j, j ≠ i → ¬ x.UnderWay j) :
    Phase L J alone (x.resume i p) w' := by
  refine .held i ?_ resume_begun_self held ?_ (resume_quiet others)
  · rwa [resume_prog_self]
  · rwa [resume_prog_self]

/-- A program that starts while the pool is at rest. -/
theorem phase_begin (guards : ¬ alone i → L.Guards (.call c k)) (hJ : J w)
    (safe : Restores H J (.call c k) w) (step : H c w r w')
    (others : ∀ j, j ≠ i → ¬ x.UnderWay j) : Phase L J alone (x.resume i (k r)) w' := by
  have rest : Restores H J (k r) w' := (safe r w' step).2
  by_cases ha : alone i
  · exact phase_lone ha rest others
  · obtain ⟨k', same, shape⟩ := guards ha
    cases same
    have shape := shape r
    split at shape
    · next granted => exact phase_held shape (L.held step granted) rest others
    · next refused =>
      obtain ⟨a, ret⟩ := shape
      rw [ret, L.refused step (by simpa using refused)]
      exact phase_idle hJ others

/-- The program that holds the lock goes on. -/
theorem phase_continue (holds : L.Holds (.call c k)) (held : L.Held w)
    (safe : Restores H J (.call c k) w) (step : H c w r w')
    (others : ∀ j, j ≠ i → ¬ x.UnderWay j) : Phase L J alone (x.resume i (k r)) w' := by
  have rest : Restores H J (k r) w' := (safe r w' step).2
  obtain ⟨body, only, same⟩ := holds
  cases body with
  | ret a =>
    cases same
    exact phase_idle rest others
  | call c' k' =>
    cases same
    exact phase_held ⟨k' r, only.2 r, rfl⟩ (only.1 _ _ _ step held) rest others

/-- Another program steps while the lock is held: it finds it taken. -/
theorem phase_wait {j : ι} (guards : L.Guards (.call c k)) (step : H c w r w') (ne : j ≠ i)
    (holds : L.Holds (x.prog j)) (begun : x.begun j = true) (held : L.Held w)
    (safe : Restores H J (x.prog j) w) (others : ∀ i, i ≠ j → ¬ x.UnderWay i) :
    Phase L J alone (x.resume i (k r)) w' := by
  obtain ⟨k', same, shape⟩ := guards
  cases same
  have shape := shape r
  split at shape
  · next granted => exact absurd held (L.free step granted)
  · next refused =>
    obtain ⟨a, ret⟩ := shape
    rw [ret, L.refused step (by simpa using refused)]
    refine .held j ?_ ?_ held ?_ fun i' ne' under => ?_
    · rwa [resume_prog_of_ne ne]
    · rwa [resume_begun_of_ne ne]
    · rwa [resume_prog_of_ne ne]
    · by_cases eq : i' = i
      · subst eq
        exact not_underWay_ret under
      · exact others i' ne' ((resume_underWay eq).mp under)

theorem Whole.resume {p : Prog S R} (whole : x.Whole ps) : (x.resume i p).Whole ps := by
  intro j fresh
  by_cases eq : j = i
  · subst eq
    simp at fresh
  · rw [resume_prog_of_ne eq]
    rw [resume_begun_of_ne eq] at fresh
    exact whole j fresh

theorem Phase.step {y : Pool S ι R × W} (guards : ∀ i, ¬ alone i → L.Guards (ps i))
    (each : ∀ i w, J w → Restores H J (ps i) w) (whole : x.Whole ps)
    (phase : Phase L J alone x w) (step : Step H (Apart alone) (x, w) y) :
    y.1.Whole ps ∧ Phase L J alone y.1 y.2 := by
  cases step with
  | @call _ _ i c k r w' prog apart step =>
    refine ⟨whole.resume, ?_⟩
    cases phase with
    | idle hJ quiet =>
      have begin := whole.begin prog (quiet i)
      have safe := each i w hJ
      rw [begin] at safe
      exact phase_begin (fun ha => begin ▸ guards i ha) hJ safe step fun j _ => quiet j
    | lone j ha under safe others =>
      by_cases eq : i = j
      · subst eq
        rw [prog] at safe
        exact phase_lone ha (safe r w' step).2 others
      · exact absurd ha (apart j (Ne.symm eq) under).2
    | held j holds begun held safe others =>
      by_cases eq : i = j
      · subst eq
        rw [prog] at holds safe
        exact phase_continue holds held safe step others
      · have under : x.UnderWay j := ⟨begun, Holds.result holds⟩
        have begin := whole.begin prog (others i eq)
        have guards := guards i (apart j (Ne.symm eq) under).1
        rw [begin] at guards
        exact phase_wait guards step (Ne.symm eq) holds begun held safe others

/-- Programs that each restore `J` when left to themselves restore it together, as long as those
that overlap all take the lock. -/
theorem restores (guards : ∀ i, ¬ alone i → L.Guards (ps i))
    (each : ∀ i w, J w → Restores H J (ps i) w) {w₀ : W} (hJ : J w₀)
    (run : Reaches H (Apart alone) (Pool.start ps, w₀) (x, w)) (done : x.Done) : J w := by
  have inv : x.Whole ps ∧ Phase L J alone x w := by
    have all {y : Pool S ι R × W} (run : Reaches H (Apart alone) (Pool.start ps, w₀) y) :
        y.1.Whole ps ∧ Phase L J alone y.1 y.2 := by
      induction run with
      | refl => exact ⟨fun _ _ => rfl, .idle hJ fun i under => by cases under.1⟩
      | tail _ step ih => exact ih.2.step guards each ih.1 step
    exact all run
  have none (i : ι) : (x.prog i).result? ≠ none := by
    obtain ⟨a, ret⟩ := done i
    rw [ret]
    nofun
  cases inv.2 with
  | idle hJ _ => exact hJ
  | lone i _ under => exact absurd under.2 (none i)
  | held i holds => exact absurd (Holds.result holds) (none i)

end Pool

end Codery.Effect
