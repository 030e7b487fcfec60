import Mathlib.Data.Multiset.DershowitzManna
import Mathlib.Logic.Relation

/-! Loops whose body goes on with a new state or ends with a result, and when they end. -/

universe u v w

namespace Codery.Effect

variable {σ : Type u} {τ : Type v} {ρ : Type w}

/-- The result of the loop, or `none` where the fuel runs out first. -/
def loop (body : σ → σ ⊕ ρ) : ℕ → σ → Option ρ
  | 0, _ => none
  | n + 1, s =>
    match body s with
    | .inl t => loop body n t
    | .inr r => some r

def Halts (body : σ → σ ⊕ ρ) (s : σ) : Prop := ∃ n r, loop body n s = some r

/-- The states the loop passes through on its way from `s`. -/
def Passes (body : σ → σ ⊕ ρ) : σ → σ → Prop := Relation.ReflTransGen fun s t => body s = .inl t

section Loop

variable {body : σ → σ ⊕ ρ} {n m : ℕ} {s t : σ} {r : ρ}

theorem loop_next (next : body s = .inl t) : loop body (n + 1) s = loop body n t := by
  rw [loop, next]

theorem loop_stop (stop : body s = .inr r) : loop body (n + 1) s = some r := by
  rw [loop, stop]

theorem loop_mono (ended : loop body n s = some r) (le : n ≤ m) : loop body m s = some r := by
  induction n generalizing s m with
  | zero => cases ended
  | succ n ih =>
    obtain ⟨m, rfl⟩ := Nat.exists_eq_add_of_le' (Nat.lt_of_lt_of_le n.succ_pos le)
    cases next : body s with
    | inl t =>
      rw [loop_next next] at ended ⊢
      exact ih ended (Nat.le_of_succ_le_succ le)
    | inr r =>
      rw [loop_stop next] at ended ⊢
      exact ended

theorem halts_stop (stop : body s = .inr r) : Halts body s := ⟨1, r, loop_stop stop⟩

theorem halts_next (next : body s = .inl t) : Halts body s ↔ Halts body t := by
  constructor
  · rintro ⟨n, r, ended⟩
    cases n with
    | zero => cases ended
    | succ n => exact ⟨n, r, loop_next next ▸ ended⟩
  · rintro ⟨n, r, ended⟩
    exact ⟨n + 1, r, (loop_next next).trans ended⟩

/-- A loop that only carries something along ends where the loop without it does. -/
theorem halts_carried {body' : τ → τ ⊕ ρ} (f : τ → σ)
    (same : ∀ x, body (f x) = (body' x).map f id) (x : τ) : Halts body' x ↔ Halts body (f x) := by
  suffices fueled : ∀ n x, loop body' n x = loop body n (f x) by simp only [Halts, fueled]
  intro n
  induction n with
  | zero => exact fun _ => rfl
  | succ n ih =>
    intro x
    cases next : body' x with
    | inl y => rw [loop_next next, loop_next ((same x).trans (by rw [next]; rfl)), ih]
    | inr r => rw [loop_stop next, loop_stop ((same x).trans (by rw [next]; rfl))]; rfl

/-- The termination rule: each turn keeps an invariant and goes down a well-founded order. -/
theorem halts_of_wellFounded {lt : τ → τ → Prop} (wf : WellFounded lt) (measure : σ → τ)
    (inv : σ → Prop) (down : ∀ s t, inv s → body s = .inl t → inv t ∧ lt (measure t) (measure s))
    (start : inv s) : Halts body s := by
  have all : ∀ a s, measure s = a → inv s → Halts body s := by
    intro a
    induction a using wf.induction with
    | _ a ih =>
      rintro s rfl hs
      cases next : body s with
      | inl t =>
        obtain ⟨ht, less⟩ := down s t hs next
        exact (halts_next next).mpr (ih _ less t rfl ht)
      | inr r => exact halts_stop next
  exact all _ s rfl start

/-- A loop that ends passes through finitely many states, so they have a bound. -/
theorem bounded_of_halts (halts : Halts body s) (f : σ → ℕ) : ∃ b, ∀ t, Passes body s t → f t < b := by
  obtain ⟨n, r, ended⟩ := halts
  induction n generalizing s with
  | zero => cases ended
  | succ n ih =>
    cases next : body s with
    | inr r =>
      refine ⟨f s + 1, fun t passes => ?_⟩
      cases passes.cases_head with
      | inl same => exact same ▸ Nat.lt_succ_self _
      | inr later =>
        obtain ⟨u, first, -⟩ := later
        cases next.symm.trans first
    | inl u =>
      obtain ⟨b, below⟩ := ih (loop_next next ▸ ended)
      refine ⟨max b (f s + 1), fun t passes => ?_⟩
      cases passes.cases_head with
      | inl same => exact same ▸ lt_max_of_lt_right (Nat.lt_succ_self _)
      | inr later =>
        obtain ⟨u', first, rest⟩ := later
        cases next.symm.trans first
        exact lt_max_of_lt_left (below t rest)

end Loop

/-! ### Loops that put new items in the place of old ones -/

/-- Some of the items in a row are taken out, one of them of depth `d`, and items of the next depth
are put in their place. -/
def Deepens (d : ℕ) (before after : List ℕ) : Prop :=
  ∃ left out right k, before = left ++ out ++ right ∧
    after = left ++ List.replicate k (d + 1) ++ right ∧ d ∈ out

/-- Where the depths stay below a bound, putting deeper items in the place of others comes to an
end. -/
theorem halts_of_shallow {body : σ → σ ⊕ ρ} {depths : σ → List ℕ} {depth : σ → ℕ} {b : ℕ} {s : σ}
    (deepens : ∀ t u, Passes body s t → body t = .inl u →
      Deepens (depth t) (depths t) (depths u))
    (shallow : ∀ t, Passes body s t → depth t < b) : Halts body s := by
  refine halts_of_wellFounded (Multiset.wellFounded_isDershowitzMannaLT (α := ℕ))
    (fun t => ((depths t).map (b - ·) : Multiset ℕ)) (Passes body s) ?_ .refl
  intro t u passes next
  refine ⟨passes.tail next, ?_⟩
  obtain ⟨left, out, right, k, before, after, mem⟩ := deepens t u passes next
  have below := shallow t passes
  refine ⟨((left ++ right).map (b - ·) : Multiset ℕ),
    ((List.replicate k (depth t + 1)).map (b - ·) : Multiset ℕ), (out.map (b - ·) : Multiset ℕ),
    ?_, ?_, ?_, ?_⟩
  · intro none
    simp [List.ne_nil_of_mem mem] at none
  · rw [after, Multiset.coe_add, Multiset.coe_eq_coe]
    simp only [List.map_append, List.append_assoc]
    exact .append_left _ List.perm_append_comm
  · rw [before, Multiset.coe_add, Multiset.coe_eq_coe]
    simp only [List.map_append, List.append_assoc]
    exact .append_left _ List.perm_append_comm
  · intro y hy
    refine ⟨b - depth t, ?_, ?_⟩
    · exact List.mem_map_of_mem mem
    · obtain ⟨z, hz, rfl⟩ := List.mem_map.mp (Multiset.mem_coe.mp hy)
      rw [List.eq_of_mem_replicate hz]
      omega

end Codery.Effect
