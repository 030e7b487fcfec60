import Codery.Effect.Pool

/-! Programs that check a key before they act on it, run at once: when a check still holds by the
time of the act. -/

universe u v

namespace Codery.Effect

variable {S : Signature.{u}} {W R ι κ : Type u} {α β γ ε : Type u}

/-- `p.Acts act check`: on some branch, `p` issues an `act` call without a `check` call before
it. -/
def Prog.Acts (act check : S.Call → Prop) : Prog S α → Prop
  | .ret _ => False
  | .call c k => act c ∨ ¬ check c ∧ ∃ r, (k r).Acts act check

/-- `p.Vets act check passed`: `p` acts on a key only after a check whose reply passes that key,
and only once for each check. -/
def Prog.Vets (act : κ → S.Call → Prop) (check : S.Call → Prop)
    (passed : (c : S.Call) → S.Reply c → κ → Prop) : Prog S α → Prop
  | .ret _ => True
  | .call c k =>
    ∀ r, (k r).Vets act check passed ∧ ∀ key, (k r).Acts (act key) check →
      (check c → passed c r key) ∧ ∀ key', ¬ act key' c

namespace Prog

variable {act : κ → S.Call → Prop} {check : S.Call → Prop}
  {passed : (c : S.Call) → S.Reply c → κ → Prop}

section Acts

variable {a : S.Call → Prop} {p : Prog S α}

theorem Acts.of_only {P : Prop} (hp : p.Only fun c => a c → P) (h : p.Acts a check) : P := by
  induction p with
  | ret _ => exact h.elim
  | call c k ih =>
    rcases h with now | ⟨_, r, later⟩
    · exact hp.1 now
    · exact ih r (hp.2 r) later

theorem not_acts (hp : p.Only fun c => ¬ a c) : ¬ p.Acts a check := Acts.of_only hp

theorem acts_bind {f : α → Prog S β} (hp : p.Only fun c => ¬ a c)
    (h : (p >>= f).Acts a check) : ∃ x, (f x).Acts a check := by
  induction p with
  | ret x => exact ⟨x, h⟩
  | call c k ih =>
    rcases h with now | ⟨_, r, later⟩
    · exact absurd now hp.1
    · exact ih r (hp.2 r) later

theorem acts_bindE {x : ExceptT ε (Prog S) α} {f : α → ExceptT ε (Prog S) β}
    (hx : x.run.Only fun c => ¬ a c) (h : (x >>= f).run.Acts a check) :
    ∃ y, (f y).run.Acts a check := by
  rw [ExceptT.run_bind] at h
  obtain ⟨r, later⟩ := acts_bind hx h
  cases r with
  | ok y => exact ⟨y, later⟩
  | error e => exact later.elim

end Acts

/-- A call that neither checks nor acts. -/
def Neutral (act : κ → S.Call → Prop) (check : S.Call → Prop) (c : S.Call) : Prop :=
  ¬ check c ∧ ∀ key, ¬ act key c

theorem Vets.of_neutral {p : Prog S α} (hp : p.Only (Neutral act check)) :
    p.Vets act check passed := by
  induction p with
  | ret _ => trivial
  | call c k ih =>
    refine fun r => ⟨ih r (hp.2 r), fun key acts => ?_⟩
    exact absurd acts (not_acts ((hp.2 r).mono fun _ h => h.2 key))

theorem Vets.bind {p : Prog S α} {f : α → Prog S β} (hp : p.Only (Neutral act check))
    (hf : ∀ a, (f a).Vets act check passed) : (p >>= f).Vets act check passed := by
  induction p with
  | ret a => exact hf a
  | call c k ih =>
    exact fun r => ⟨ih r (hp.2 r), fun key _ => ⟨fun checks => absurd checks hp.1.1, hp.1.2⟩⟩

theorem Vets.bindE {x : ExceptT ε (Prog S) α} {f : α → ExceptT ε (Prog S) β}
    (hx : x.run.Only (Neutral act check)) (hf : ∀ a, (f a).run.Vets act check passed) :
    (x >>= f).run.Vets act check passed := by
  rw [ExceptT.run_bind]
  refine bind hx fun r => ?_
  cases r with
  | ok a => exact hf a
  | error e => trivial

/-- After the act the program neither checks nor acts again. -/
theorem Vets.acting {c : S.Call} {k : S.Reply c → Prog S α}
    (rest : ∀ r, (k r).Only (Neutral act check)) : (Prog.call c k).Vets act check passed := by
  refine fun r => ⟨of_neutral (rest r), fun key acts => ?_⟩
  exact absurd acts (not_acts ((rest r).mono fun _ h => h.2 key))

theorem Vets.checking {c : S.Call} {k : S.Reply c → Prog S α} (idle : ∀ key, ¬ act key c)
    (rest : ∀ r, (k r).Vets act check passed)
    (vetted : ∀ r key, (k r).Acts (act key) check → passed c r key) :
    (Prog.call c k).Vets act check passed :=
  fun r => ⟨rest r, fun key acts => ⟨fun _ => vetted r key acts, idle⟩⟩

end Prog

namespace Pool

variable {act : κ → S.Call → Prop} {check : S.Call → Prop}
  {passed : (c : S.Call) → S.Reply c → κ → Prop} {H : StepRel S W} {Free : κ → W → Prop}
  {J : W → Prop} {ps : ι → Prog S R} {x : Pool S ι R} {w w₀ : W}

/-- Whoever acts on a key does so while no one else is about to. -/
def Spaced (act : κ → S.Call → Prop) (check : S.Call → Prop) (x : Pool S ι R) (i : ι) : Prop :=
  ∀ c k, x.prog i = .call c k → ∀ key, act key c →
    ∀ j, j ≠ i → ¬ (x.prog j).Acts (act key) check

/-- A check that passes a key finds it free, and only an act on a key takes it. -/
structure Keys (H : StepRel S W) (act : κ → S.Call → Prop) (check : S.Call → Prop)
    (passed : (c : S.Call) → S.Reply c → κ → Prop) (Free : κ → W → Prop) : Prop where
  learns : ∀ c w r w' key, check c → H c w r w' → passed c r key → Free key w'
  keeps : ∀ c w r w' key, H c w r w' → ¬ act key c → Free key w → Free key w'

variable [DecidableEq ι]

/-- What every step keeps holds in every world a pool reaches. -/
theorem Reaches.keeps {turn : Pool S ι R → ι → Prop} {a b : Pool S ι R × W}
    (run : Reaches H turn a b) (start : J a.2) (keep : ∀ c w r w', J w → H c w r w' → J w') :
    J b.2 := by
  induction run with
  | refl => exact start
  | tail _ step ih =>
    cases step with
    | call _ _ step => exact keep _ _ _ _ ih step

/-- Programs that act on one key each, no two on the same, are spaced in every run. -/
theorem Reaches.spaced {turn : Pool S ι R → ι → Prop} {own : ι → κ}
    (only : ∀ i, (ps i).Only fun c => ∀ key, act key c → key = own i)
    (apart : ∀ i j, i ≠ j → own i ≠ own j) (run : Reaches H turn (Pool.start ps, w₀) (x, w)) :
    Reaches H (Spaced act check) (Pool.start ps, w₀) (x, w) := by
  suffices both : Reaches H (Spaced act check) (Pool.start ps, w₀) (x, w) ∧
      ∀ i, (x.prog i).Only fun c => ∀ key, act key c → key = own i from both.1
  generalize last : (x, w) = b at run
  induction run generalizing x w with
  | refl =>
    cases last
    exact ⟨.refl, only⟩
  | @tail b _ _ step ih =>
    cases last
    obtain ⟨x₁, w₁⟩ := b
    obtain ⟨before, each⟩ := ih rfl
    cases step with
    | @call _ _ i c k r _ prog _ step =>
      have mine := each i
      rw [prog] at mine
      have spaced : Spaced act check x₁ i := by
        intro c' k' prog' key acts j other later
        cases prog.symm.trans prog'
        have his := Prog.Acts.of_only ((each j).mono fun c all => all key) later
        exact apart j i other (his.symm.trans (mine.1 key acts))
      refine ⟨before.tail (.call prog spaced step), fun j => ?_⟩
      by_cases same : j = i
      · subst same
        rw [resume_prog_self]
        exact mine.2 r
      · rw [resume_prog_of_ne same]
        exact each j

/-- What holds as long as acts are on free keys holds in every run in which they are spaced. -/
theorem Keys.spaced (keys : Keys H act check passed Free) (vets : ∀ i, (ps i).Vets act check passed)
    (fresh : ∀ i key, ¬ (ps i).Acts (act key) check) (start : J w₀)
    (keep : ∀ c w r w', J w → H c w r w' → (∀ key, act key c → Free key w) → J w')
    (run : Reaches H (Spaced act check) (Pool.start ps, w₀) (x, w)) : J w := by
  suffices all : J w ∧ ∀ i, (x.prog i).Vets act check passed ∧
      ∀ key, (x.prog i).Acts (act key) check → Free key w from all.1
  generalize first : (Pool.start ps, w₀) = a at run
  generalize last : (x, w) = b at run
  induction run generalizing x w with
  | refl =>
    cases first
    cases last
    exact ⟨start, fun i => ⟨vets i, fun key acts => absurd acts (fresh i key)⟩⟩
  | @tail b _ _ step ih =>
    cases last
    obtain ⟨x₁, w₁⟩ := b
    obtain ⟨holds, each⟩ := ih rfl
    cases step with
    | @call _ _ i c k r _ prog spaced step =>
      have mine := each i
      rw [prog] at mine
      refine ⟨keep c w₁ r w holds step fun key acts => mine.2 key (.inl acts), fun j => ?_⟩
      by_cases same : j = i
      · subst same
        rw [resume_prog_self]
        refine ⟨(mine.1 r).1, fun key acts => ?_⟩
        obtain ⟨vetted, idle⟩ := (mine.1 r).2 key acts
        by_cases checks : check c
        · exact keys.learns c w₁ r w key checks step (vetted checks)
        · exact keys.keeps c w₁ r w key step (idle key)
            (mine.2 key (.inr ⟨checks, r, acts⟩))
      · rw [resume_prog_of_ne same]
        refine ⟨(each j).1, fun key acts => ?_⟩
        have idle : ¬ act key c := fun now => spaced c k prog key now j same acts
        exact keys.keeps c w₁ r w key step idle ((each j).2 key acts)

end Pool

end Codery.Effect
