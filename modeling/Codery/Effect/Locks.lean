import Codery.Effect.Rely

/-! Programs that run at once over resources, each of which has its lock: a program works on the
resource whose lock it has taken, and gives the lock back when it is killed. -/

universe u v

namespace Codery.Effect

variable {S : Signature.{u}} {W R ι κ : Type u} {H : StepRel S W}

/-- Resources with their locks; `Same k` relates worlds in which resource `k` is the same. -/
structure Resources (H : StepRel S W) (κ : Type u) where
  lock : κ → Lock H
  Same : κ → W → W → Prop
  refl : ∀ k w, Same k w w
  trans : ∀ {k w₁ w₂ w₃}, Same k w₁ w₂ → Same k w₂ w₃ → Same k w₁ w₃
  held : ∀ {k w w'}, Same k w w' → (lock k).Held w → (lock k).Held w'
  /-- To give a lock back is to do nothing to the other resources. -/
  released : ∀ {k w r w'}, H (lock k).release w r w' → ∀ k', k' ≠ k → Same k' w w'

/-- What is known of the calls for every key is known of them at once. -/
theorem Prog.Only.all {P : κ → S.Call → Prop} {p : Prog S R} (each : ∀ k, p.Only (P k)) :
    p.Only fun c => ∀ k, P k c := by
  induction p with
  | ret a => trivial
  | call c f ih => exact ⟨fun k => (each k).1, fun r => ih r fun k => (each k).2 r⟩

namespace Resources

variable (M : Resources H κ)

/-- A call that does nothing to resource `k`. -/
def Spares (k : κ) (c : S.Call) : Prop := ∀ w r w', H c w r w' → M.Same k w w'

/-- `p` keeps `J` of resource `k`, which nobody else works on, and works on no other one. -/
def Works (J : κ → W → Prop) (k : κ) (p : Prog S R) (w : W) : Prop :=
  Safe (among H (M.Same k)) (fun c _ _ w' => (∀ k', k' ≠ k → M.Spares k' c) ∧ J k w')
    (fun _ _ => True) p w

/-- What a program is known to do that takes the lock of `key`, if there is one. -/
def Orderly (J : κ → W → Prop) (p : Prog S R) : Option κ → Prop
  | none => p.Only fun c => ∀ k, M.Spares k c
  | some k => (M.lock k).Guards p ∧ ∀ w, J k w → M.Works J k p w

/-- A program that has begun and has not returned, in world `w`. -/
def Goes (J : κ → W → Prop) (p : Prog S R) (w : W) : Option κ → Prop
  | none => p.Only fun c => ∀ k, M.Spares k c
  | some k => (M.lock k).Holds p ∧ (M.lock k).Held w ∧ ∀ w', M.Same k w w' → M.Works J k p w'

variable [DecidableEq ι]

/-- A step of one program, or the death of one, whose lock is given back. -/
inductive Step (key : ι → Option κ) : Pool S ι R × W → Pool S ι R × W → Prop
  | call {x y} : Pool.Step H (fun _ _ => True) x y → Step key x y
  | killed {x w i a w'} : x.UnderWay i →
      (∀ k, key i = some k → ∃ r, H (M.lock k).release w r w') → (key i = none → w' = w) →
      Step key (x, w) (x.resume i (.ret a), w')

abbrev Reaches (key : ι → Option κ) : Pool S ι R × W → Pool S ι R × W → Prop :=
  Relation.ReflTransGen (M.Step key)

/-- `J` holds of every resource, each program is where its kind can be, and two that are under way
work on different resources. -/
structure Stands (J : κ → W → Prop) (ps : ι → Prog S R) (key : ι → Option κ)
    (x : Pool S ι R × W) : Prop where
  holds : ∀ k, J k x.2
  whole : x.1.Whole ps
  goes : ∀ i, x.1.UnderWay i → M.Goes J (x.1.prog i) x.2 (key i)
  alone : ∀ i j k, key i = some k → key j = some k → x.1.UnderWay i → x.1.UnderWay j → i = j

end Resources

namespace Resources

variable {M : Resources H κ} {J : κ → W → Prop} {ps : ι → Prog S R} {key : ι → Option κ}
  {x y : Pool S ι R × W} {p q : Prog S R} {w w' : W} {k : κ} {i j : ι}

/-- Who works on a resource goes on when others have done nothing to it. -/
theorem Goes.stays {o : Option κ} (goes : M.Goes J p w o) (same : ∀ k, o = some k → M.Same k w w') :
    M.Goes J p w' o := by
  cases o with
  | none => exact goes
  | some k =>
    have same := same k rfl
    exact ⟨goes.1, M.held same goes.2.1, fun _ later => goes.2.2 _ (M.trans same later)⟩

variable [DecidableEq ι]

/-- A run in which none is killed. -/
theorem reaches_of_calls (run : Pool.Reaches H (fun _ _ => True) x y) : M.Reaches key x y :=
  Relation.ReflTransGen.mono (fun _ _ => Step.call) _ _ run

theorem underWay_resume_self (under : (x.1.resume i p).UnderWay i) : p.result? = none := by
  have none := under.2
  rwa [Pool.resume_prog_self] at none

/-- The pool stands after a program has gone on, if it is where its kind can be, and has done
nothing to the resources of the others under way. -/
theorem Stands.resume (stands : M.Stands J ps key x) (holds : ∀ k, J k w')
    (goes : p.result? = none → M.Goes J p w' (key i))
    (others : ∀ j k, j ≠ i → x.1.UnderWay j → key j = some k → M.Same k x.2 w')
    (alone : p.result? = none → ∀ j k, j ≠ i → x.1.UnderWay j → key i = some k → key j ≠ some k) :
    M.Stands J ps key (x.1.resume i p, w') where
  holds := holds
  whole := stands.whole.resume
  goes j under := by
    by_cases eq : j = i
    · subst eq
      rw [show (x.1.resume j p, w').1.prog j = p from Pool.resume_prog_self]
      exact goes (underWay_resume_self under)
    · have before := (Pool.resume_underWay eq).mp under
      rw [show (x.1.resume i p, w').1.prog j = x.1.prog j from Pool.resume_prog_of_ne eq]
      exact (stands.goes j before).stays fun k keyed => others j k eq before keyed
  alone j₁ j₂ k key₁ key₂ under₁ under₂ := by
    by_cases eq₁ : j₁ = i
    · subst eq₁
      by_cases eq₂ : j₂ = j₁
      · exact eq₂.symm
      · have before := (Pool.resume_underWay eq₂).mp under₂
        exact absurd key₂ (alone (underWay_resume_self under₁) j₂ k eq₂ before key₁)
    · have before₁ := (Pool.resume_underWay eq₁).mp under₁
      by_cases eq₂ : j₂ = i
      · subst eq₂
        exact absurd key₁ (alone (underWay_resume_self under₂) j₁ k eq₁ before₁ key₂)
      · exact stands.alone j₁ j₂ k key₁ key₂ before₁ ((Pool.resume_underWay eq₂).mp under₂)

/-- A program without a resource has taken a step. -/
theorem Stands.loose {c : S.Call} {f : S.Reply c → Prog S R} {r : S.Reply c}
    (stands : M.Stands J ps key x) (stable : ∀ k w w', M.Same k w w' → J k w → J k w')
    (keyless : key i = none) (only : (Prog.call c f).Only fun c => ∀ k, M.Spares k c)
    (step : H c x.2 r w') : M.Stands J ps key (x.1.resume i (f r), w') := by
  have same (k : κ) : M.Same k x.2 w' := only.1 k _ _ _ step
  refine stands.resume (fun k => stable k _ _ (same k) (stands.holds k)) (fun _ => ?_)
    (fun j k _ _ _ => same k) fun _ j k _ _ keyed => ?_
  · rw [keyless]
    exact only.2 r
  · rw [keyless] at keyed
    cases keyed

/-- A step of `k`'s program, in the eyes of the resources. -/
theorem Works.step {c : S.Call} {f : S.Reply c → Prog S R} {r : S.Reply c}
    (works : M.Works J k (.call c f) w) (step : H c w r w') :
    J k w' ∧ (∀ k', k' ≠ k → M.Same k' w w') ∧ ∀ w'', M.Same k w' w'' → M.Works J k (f r) w'' := by
  have now := works r w' ⟨w', step, M.refl k w'⟩
  refine ⟨now.1.2, fun k' ne => now.1.1 k' ne _ _ _ step, fun w'' later => ?_⟩
  exact (works r w'' ⟨w', step, later⟩).2

/-- The program of `k` has taken a step, and goes on with its lock, or has returned. -/
theorem Stands.keyed (stands : M.Stands J ps key x)
    (stable : ∀ k w w', M.Same k w w' → J k w → J k w') (keyed : key i = some k) (holds : J k w')
    (others : ∀ k', k' ≠ k → M.Same k' x.2 w') (free : ∀ j, j ≠ i → x.1.UnderWay j → key j ≠ some k)
    (goes : p.result? = none → M.Goes J p w' (some k)) :
    M.Stands J ps key (x.1.resume i p, w') := by
  refine stands.resume (fun k' => ?_) (fun none => ?_) (fun j k' ne under keyed' => ?_)
    fun _ j k' ne under keyed' => ?_
  · by_cases eq : k' = k
    · exact eq ▸ holds
    · exact stable k' _ _ (others k' eq) (stands.holds k')
  · rw [keyed]
    exact goes none
  · refine others k' fun eq => free j ne under ?_
    rw [keyed', eq]
  · rw [keyed] at keyed'
    cases keyed'
    exact free j ne under

theorem Stands.step (stands : M.Stands J ps key x)
    (stable : ∀ k w w', M.Same k w w' → J k w → J k w')
    (release : ∀ k w r w', H (M.lock k).release w r w' → J k w → J k w')
    (orderly : ∀ i, M.Orderly J (ps i) (key i)) (step : M.Step key x y) : M.Stands J ps key y := by
  cases step with
  | call step =>
    cases step with
    | @call x w i c f r w' prog turn step =>
      cases keyed : key i with
      | none =>
        have only : (Prog.call c f).Only fun c => ∀ k, M.Spares k c := by
          by_cases under : x.UnderWay i
          · have goes := stands.goes i under
            rw [show (x, w).1.prog i = .call c f from prog, keyed] at goes
            exact goes
          · have own := orderly i
            rw [stands.whole.begin prog under, keyed] at own
            exact own
        exact stands.loose stable keyed only step
      | some k =>
        by_cases under : x.UnderWay i
        · -- It holds its lock: its body goes on, or it gives the lock back and returns.
          have goes := stands.goes i under
          rw [show (x, w).1.prog i = .call c f from prog, keyed] at goes
          obtain ⟨holds, held, works⟩ := goes
          obtain ⟨kept, others, rest⟩ := (works w (M.refl k w)).step step
          refine stands.keyed stable keyed kept others ?_ fun unfinished => ?_
          · intro j ne going same
            exact ne (stands.alone j i k same keyed going under)
          · obtain ⟨body, only, same⟩ := holds
            cases body with
            | ret a =>
              cases same
              cases unfinished
            | call c' f' =>
              cases same
              exact ⟨⟨f' r, only.2 r, rfl⟩, only.1 _ _ _ step held, rest⟩
        · -- It asks for its lock.
          have own := orderly i
          rw [stands.whole.begin prog under, keyed] at own
          obtain ⟨⟨f', same, shape⟩, works⟩ := own
          cases same
          obtain ⟨kept, others, rest⟩ := (works w (stands.holds k)).step step
          have shape := shape r
          split at shape
          · next granted =>
            refine stands.keyed stable keyed kept others ?_ fun _ => ?_
            · intro j _ going same
              have goes := stands.goes j going
              rw [same] at goes
              exact (M.lock k).free step granted goes.2.1
            · exact ⟨shape, (M.lock k).held step granted, rest⟩
          · next refused =>
            obtain ⟨a, ret⟩ := shape
            have idle := (M.lock k).refused step (by simpa using refused)
            subst idle
            rw [ret]
            refine stands.resume stands.holds (fun none => by cases none) (fun _ k _ _ _ => M.refl k _)
              fun none => by cases none
  | @killed x w i a w' under given idle =>
    cases keyed : key i with
    | none =>
      cases idle keyed
      exact stands.resume stands.holds (fun none => by cases none) (fun _ k _ _ _ => M.refl k _)
        fun none => by cases none
    | some k =>
      obtain ⟨r, step⟩ := given k keyed
      refine stands.keyed stable keyed (release k _ _ _ step (stands.holds k)) (M.released step) ?_
        fun none => by cases none
      intro j ne going same
      exact ne (stands.alone j i k same keyed going under)

/-- The rule for locks: what each program keeps of its own resource, alone with it, holds of every
resource in every state of a run, and no two programs work on one resource. -/
theorem stands (stable : ∀ k w w', M.Same k w w' → J k w → J k w')
    (release : ∀ k w r w', H (M.lock k).release w r w' → J k w → J k w')
    (orderly : ∀ i, M.Orderly J (ps i) (key i)) {w₀ : W} (start : ∀ k, J k w₀)
    (run : M.Reaches key (Pool.start ps, w₀) x) : M.Stands J ps key x := by
  induction run with
  | refl =>
    refine ⟨start, fun _ _ => rfl, fun i under => ?_, fun i _ _ _ _ under => ?_⟩ <;>
      cases under.1
  | tail _ step ih => exact ih.step stable release orderly step

end Resources

end Codery.Effect
