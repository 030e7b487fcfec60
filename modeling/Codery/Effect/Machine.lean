import Mathlib.Data.List.Basic

/-! Machines that take step after step, their runs, and what holds in every state of a run. -/

universe u v

namespace Codery.Effect

structure Machine (σ : Type u) (ε : Type v) where
  Start : σ → Prop
  Step : σ → ε → σ → Prop

structure Move (σ : Type u) (ε : Type v) where
  source : σ
  event : ε
  target : σ

namespace Machine

variable {σ : Type u} {ε : Type v}

/-- `M.Run l s`: from a starting state the moves of `l`, the latest first, have led to `s`. -/
inductive Run (M : Machine σ ε) : List (Move σ ε) → σ → Prop
  | start {s} : M.Start s → Run M [] s
  | step {l s e t} : Run M l s → M.Step s e t → Run M (⟨s, e, t⟩ :: l) t

/-- `P` holds in every state of the run whose moves are `l` and whose last state is `s`. -/
def Always (P : σ → Prop) (l : List (Move σ ε)) (s : σ) : Prop :=
  P s ∧ ∀ m ∈ l, P m.source

variable {M : Machine σ ε} {I P : σ → Prop} {C : Move σ ε → Prop} {l : List (Move σ ε)} {s : σ}

theorem always_nil : Always P ([] : List (Move σ ε)) s ↔ P s := by simp [Always]

theorem always_cons {m : Move σ ε} : Always P (m :: l) s ↔ P s ∧ Always P l m.source := by
  simp [Always]

theorem Always.and {Q : σ → Prop} (hP : Always P l s) (hQ : Always Q l s) :
    Always (fun x => P x ∧ Q x) l s :=
  ⟨⟨hP.1, hQ.1⟩, fun m hm => ⟨hP.2 m hm, hQ.2 m hm⟩⟩

theorem Always.imp {Q : σ → Prop} (h : Always P l s) (imp : ∀ x, P x → Q x) : Always Q l s :=
  ⟨imp s h.1, fun m hm => imp m.source (h.2 m hm)⟩

/-- The invariant rule: what holds at the start and is kept by the moves that meet `C` holds in
every state of a run whose moves all meet `C`. -/
theorem Run.always_of (run : M.Run l s) (start : ∀ s, M.Start s → I s)
    (step : ∀ s e t, I s → C ⟨s, e, t⟩ → M.Step s e t → I t) (each : ∀ m ∈ l, C m) :
    Always I l s := by
  induction run with
  | start hs => exact always_nil.mpr (start _ hs)
  | @step l s e t _ hstep ih =>
    have before := ih fun m hm => each m (.tail _ hm)
    exact always_cons.mpr ⟨step s e t before.1 (each _ (.head _)) hstep, before⟩

theorem Run.always (run : M.Run l s) (start : ∀ s, M.Start s → I s)
    (step : ∀ s e t, I s → M.Step s e t → I t) : Always I l s :=
  run.always_of (C := fun _ => True) start (fun s e t hs _ => step s e t hs) fun _ _ => trivial

/-- Where a step that satisfies `D` keeps `P` exactly when it meets `C`, a run of such steps keeps
`P` throughout exactly when all its moves meet `C`. -/
theorem Run.always_iff_of {D : Move σ ε → Prop} (run : M.Run l s) (inv : Always I l s)
    (start : ∀ s, M.Start s → P s) (each : ∀ m ∈ l, D m)
    (step : ∀ s e t, I s → P s → D ⟨s, e, t⟩ → M.Step s e t → (P t ↔ C ⟨s, e, t⟩)) :
    Always P l s ↔ ∀ m ∈ l, C m := by
  induction run with
  | start hs => simp [always_nil, start _ hs]
  | @step l s e t _ hstep ih =>
    obtain ⟨-, before⟩ := always_cons.mp inv
    obtain ⟨now, others⟩ := List.forall_mem_cons.mp each
    have earlier := ih before others
    rw [always_cons, List.forall_mem_cons, earlier]
    constructor
    · rintro ⟨ht, all⟩
      exact ⟨(step s e t before.1 (earlier.mpr all).1 now hstep).mp ht, all⟩
    · rintro ⟨hm, all⟩
      exact ⟨(step s e t before.1 (earlier.mpr all).1 now hstep).mpr hm, all⟩

theorem Run.always_iff (run : M.Run l s) (inv : Always I l s) (start : ∀ s, M.Start s → P s)
    (step : ∀ s e t, I s → P s → M.Step s e t → (P t ↔ C ⟨s, e, t⟩)) :
    Always P l s ↔ ∀ m ∈ l, C m :=
  run.always_iff_of (D := fun _ => True) inv start (fun _ _ => trivial)
    fun s e t hs hP _ => step s e t hs hP

/-- What every move of a run satisfies, when it follows from an invariant of its ends. -/
theorem Run.moves (run : M.Run l s) (inv : Always I l s)
    (step : ∀ s e t, I s → I t → M.Step s e t → C ⟨s, e, t⟩) : ∀ m ∈ l, C m := by
  induction run with
  | start => simp
  | step _ hstep ih =>
    obtain ⟨now, before⟩ := always_cons.mp inv
    exact List.forall_mem_cons.mpr ⟨step _ _ _ before.1 now hstep, ih before⟩

/-- What no step brings about holds throughout a run when it holds at its end. -/
theorem Run.always_back (run : M.Run l s) (back : ∀ s e t, M.Step s e t → P t → P s) (last : P s) :
    Always P l s := by
  induction run with
  | start => exact always_nil.mpr last
  | step _ hstep ih => exact always_cons.mpr ⟨last, ih (back _ _ _ hstep last)⟩

/-- A run up to one of its moves is a run. -/
theorem Run.upTo {m : Move σ ε} {l₂ : List (Move σ ε)} (run : M.Run (l₂ ++ m :: l) s) :
    M.Run (m :: l) m.target := by
  induction l₂ generalizing s with
  | nil =>
    cases run with
    | step before step => exact .step before step
  | cons _ _ ih =>
    cases run with
    | step before _ => exact ih before

/-- The invariant rule for what has happened since a move of the run. -/
theorem Run.since {J : List (Move σ ε) → σ → Prop} {m : Move σ ε} {l₂ : List (Move σ ε)}
    (run : M.Run (l₂ ++ m :: l) s) (start : J [] m.target)
    (step : ∀ l s e t, J l s → M.Step s e t → J (⟨s, e, t⟩ :: l) t) : J l₂ s := by
  induction l₂ generalizing s with
  | nil =>
    cases run with
    | step => exact start
  | cons _ _ ih =>
    cases run with
    | step before last => exact step _ _ _ _ (ih before) last

theorem Run.targets (run : M.Run l s) (h : Always P l s) : ∀ m ∈ l, P m.target := by
  induction run with
  | start => simp
  | step _ _ ih =>
    obtain ⟨now, before⟩ := always_cons.mp h
    exact List.forall_mem_cons.mpr ⟨now, ih before⟩

/-- The machine of a function that says what an event does, if it can happen at all. -/
def ofStep (Start : σ → Prop) (step : σ → ε → Option σ) : Machine σ ε where
  Start := Start
  Step s e t := step s e = some t

theorem run_of_foldlM {Start : σ → Prop} {step : σ → ε → Option σ} {es : List ε} {t : σ}
    (run : (ofStep Start step).Run l s) (played : es.foldlM step s = some t) :
    ∃ l', (ofStep Start step).Run l' t ∧
      l'.map (·.event) = es.reverse ++ l.map (·.event) := by
  induction es generalizing l s with
  | nil =>
    obtain rfl : s = t := by simpa using played
    exact ⟨l, run, rfl⟩
  | cons e es ih =>
    rw [List.foldlM_cons] at played
    obtain ⟨s', hstep, rest⟩ := Option.bind_eq_some_iff.mp played
    obtain ⟨l', run, events⟩ := ih (run.step hstep) rest
    exact ⟨l', run, by simp [events]⟩

/-- A run found by playing events one after the other. -/
theorem exists_run_of {Start : σ → Prop} {step : σ → ε → Option σ} {s₀ : σ} {p : σ → Bool}
    (start : Start s₀) (es : List ε) (played : (es.foldlM step s₀).any p = true) :
    ∃ l t, (ofStep Start step).Run l t ∧ l.map (·.event) = es.reverse ∧ p t = true := by
  obtain ⟨t, final, ok⟩ := (Option.any_eq_true p _).mp played
  obtain ⟨l, run, events⟩ := run_of_foldlM (.start start) final
  exact ⟨l, t, run, by simpa using events, ok⟩

theorem exists_run {Start : σ → Prop} {step : σ → ε → Option σ} {s₀ : σ} {p : σ → Bool}
    (start : Start s₀) (es : List ε) (played : (es.foldlM step s₀).any p = true) :
    ∃ l t, (ofStep Start step).Run l t ∧ p t = true := by
  obtain ⟨l, t, run, -, ok⟩ := exists_run_of start es played
  exact ⟨l, t, run, ok⟩

/-- Play events one after the other, on top of the moves made so far. -/
def playMoves (step : σ → ε → Option σ) :
    List ε → List (Move σ ε) × σ → Option (List (Move σ ε) × σ)
  | [], x => some x
  | e :: es, (l, s) =>
    match step s e with
    | some t => playMoves step es (⟨s, e, t⟩ :: l, t)
    | none => none

theorem run_of_moves {Start : σ → Prop} {step : σ → ε → Option σ} {es : List ε}
    {x y : List (Move σ ε) × σ} (run : (ofStep Start step).Run x.1 x.2)
    (played : playMoves step es x = some y) : (ofStep Start step).Run y.1 y.2 := by
  induction es generalizing x with
  | nil =>
    cases played
    exact run
  | cons e es ih =>
    obtain ⟨l, s⟩ := x
    simp only [playMoves] at played
    split at played
    · next t hstep => exact ih (x := (⟨s, e, t⟩ :: l, t)) (run.step hstep) played
    · cases played

/-- A run found by playing events, with a test of its moves. -/
theorem exists_run_moves {Start : σ → Prop} {step : σ → ε → Option σ} {s₀ : σ}
    {p : List (Move σ ε) → σ → Bool} (start : Start s₀) (es : List ε)
    (played : (playMoves step es ([], s₀)).any (fun x => p x.1 x.2) = true) :
    ∃ l t, (ofStep Start step).Run l t ∧ p l t = true := by
  obtain ⟨x, final, ok⟩ := (Option.any_eq_true _ _).mp played
  exact ⟨x.1, x.2, run_of_moves (.start start) final, ok⟩

end Machine

end Codery.Effect
