import Codery.Scenario
import Codery.Effect.Until

/-! What a deploy, a preview or a cutover that is given up leaves behind: as long as the guard of
`cutover` has not been passed, only the inactive container differs. -/

namespace Codery

open Effect Prog Deploy

variable {site : Site} {P : Part → Prop} {h h' h₀ : Host} {α : Type} {s sha : String} {a c : Color}
  {d : ServiceDef} {shaOpt preview : Option String}

/-- The entry points that start the inactive color or cut over to it. -/
inductive Attempt
  | deploy (service sha : String)
  | startInactive (service sha : String)
  | cutover (service : String) (shaOpt preview : Option String)

def Attempt.service : Attempt → String
  | .deploy service _ => service
  | .startInactive service _ => service
  | .cutover service _ _ => service

def Attempt.perform : Attempt → Prog sig (Except String Unit)
  | .deploy service sha => (Deploy.run service sha).run
  | .startInactive service sha => (discard (runStartInactive service sha)).run
  | .cutover service shaOpt preview => (runCutover service shaOpt preview).run

/-- What is left to do once the guard of `cutover` has let it pass. -/
def GuardPassed (p : Prog sig (Except String Unit)) : Prop :=
  ∃ d sha a, p = (switchOver d sha a (flip a)).run

/-- The record of `s`, what Caddy has loaded and every container but the inactive one are as they
were. -/
structure Kept (s : String) (h h' : Host) : Prop where
  color : h'.state.color s = h.state.color s
  sha : h'.state.sha s = h.state.sha s
  loaded : h'.proxy.loaded = h.proxy.loaded
  active : ∀ a, h.active s = some a → h'.slot s a = h.slot s a
  others : ∀ n, (∀ a, h.active s = some a → n ≠ containerName s (flip a)) →
    h'.docker.containers n = h.docker.containers n

/-- The parts an attempt may change before the guard: quiet ones and the inactive container. -/
def standby (s : String) (h : Host) : Part → Prop := fun p =>
  p.quiet = true ∨ ∃ a, h.active s = some a ∧ p = .container (containerName s (flip a))

theorem Host.SameBut.kept (same : h.SameBut (standby s h) h') : Kept s h h' where
  color := same.color (by simp [standby])
  sha := same.sha (by simp [standby])
  loaded := same.loaded (by simp [standby])
  active a recorded := by
    apply same.slot
    simp [standby, recorded]
  others n other := by
    apply same.container
    rintro (quiet | ⟨a, recorded, named⟩)
    · simp at quiet
    · cases named
      exact other a recorded rfl

/-- Before the guard, `p` keeps to the standby. -/
abbrev Aborts (site : Site) (s : String) (h₀ : Host) (p : Prog sig (Except String Unit)) (h : Host) :
    Prop :=
  Until (steps site) GuardPassed (fun r h' => (∃ e, r = .error e) → h₀.SameBut (standby s h₀) h') p h

theorem standby_of_reads {p : Part} (hp : reads p) : standby s h₀ p := .inl (by simp [hp])

theorem standby_of_touches (recorded : h₀.active s = some a) {p : Part}
    (hp : touches (containerName s (flip a)) p) : standby s h₀ p :=
  hp.imp_right fun named => ⟨a, recorded, named⟩

/-- A program that keeps to the standby, and then another. -/
theorem aborts_bind {R : Except String α → Host → Prop} {x : Result α} {f : α → Result Unit}
    (spec : Spec site P h R x.run) (le : ∀ p, P p → standby s h₀ p)
    (same : h₀.SameBut (standby s h₀) h)
    (next : ∀ r h', h.SameBut P h' → h₀.SameBut (standby s h₀) h' → R (.ok r) h' →
      Aborts site s h₀ (f r).run h') : Aborts site s h₀ (x >>= f).run h := by
  refine Until.bindE spec ?_ ?_
  · intro r h' both
    exact next r h' both.1 (same.trans (both.1.mono le)) both.2
  · intro e h' both _
    exact same.trans (both.1.mono le)

theorem cutover_aborts (same : h₀.SameBut (standby d.service h₀) h) :
    Aborts site d.service h₀ (cutover d sha a (flip a)).run h := by
  refine aborts_bind (Spec.frame (P := reads) containerRunning_only)
    (fun _ => standby_of_reads) same ?_
  intro up h₁ _ same _
  cases up with
  | true => exact .mark ⟨d, sha, a, rfl⟩
  | false => exact fun _ => same

theorem redeploy_aborts (recorded : h₀.active d.service = some a)
    (same : h₀.SameBut (standby d.service h₀) h) :
    Aborts site d.service h₀ (redeploy d sha a).run h := by
  refine aborts_bind (Spec.frame startInactive_only) (fun _ => standby_of_touches recorded) same ?_
  intro _ h₁ _ same _
  exact cutover_aborts same

theorem deployService_aborts : Aborts site d.service h (deployService d sha).run h := by
  refine aborts_bind (Spec.frame (P := reads) preflight_only) (fun _ => standby_of_reads) (.refl h) ?_
  intro _ h₁ kept same _
  cases kept.eq_of_reads
  refine aborts_bind (Spec.frame (P := reads) ensureNetwork_only) (fun _ => standby_of_reads) same ?_
  intro _ h₁ kept same _
  cases kept.eq_of_reads
  refine aborts_bind readActive_spec (fun _ => standby_of_reads) same ?_
  intro a h₁ kept same recorded
  cases kept.eq_of_reads
  have recorded : h.active d.service = some a := recorded.symm
  refine aborts_bind readActiveSha_spec (fun _ => standby_of_reads) same ?_
  intro sha? h₁ kept same _
  split
  · refine aborts_bind (Spec.frame (P := reads) containerRunning_only)
      (fun _ => standby_of_reads) same ?_
    intro up h₂ _ same _
    split
    · rintro ⟨e, failed⟩
      cases failed
    · exact redeploy_aborts recorded same
  · exact redeploy_aborts recorded same

theorem run_aborts : Aborts site s h (Deploy.run s sha).run h := by
  refine aborts_bind loadDef_spec (fun _ => standby_of_reads) (.refl h) ?_
  intro d h₁ kept _ loaded
  cases kept.eq_of_reads
  have service := Services.load_service loaded
  subst service
  exact deployService_aborts

theorem runStartInactive_aborts :
    Aborts site s h (discard (runStartInactive s sha)).run h := by
  simp only [discard, runStartInactive, LawfulMonad.bind_assoc]
  refine aborts_bind loadDef_spec (fun _ => standby_of_reads) (.refl h) ?_
  intro d h₁ kept same loaded
  cases kept.eq_of_reads
  have service := Services.load_service loaded
  subst service
  refine aborts_bind (Spec.frame (P := reads) preflight_only) (fun _ => standby_of_reads) same ?_
  intro _ h₁ kept same _
  cases kept.eq_of_reads
  refine aborts_bind (Spec.frame (P := reads) ensureNetwork_only) (fun _ => standby_of_reads) same ?_
  intro _ h₁ kept same _
  cases kept.eq_of_reads
  refine aborts_bind readActive_spec (fun _ => standby_of_reads) same ?_
  intro a h₁ kept same recorded
  cases kept.eq_of_reads
  refine aborts_bind (Spec.frame startInactive_only)
    (fun _ => standby_of_touches recorded.symm) same ?_
  rintro _ h₁ _ _ _ ⟨e, failed⟩
  cases failed

theorem promote_aborts (recorded : h₀.active d.service = some a)
    (same : h₀.SameBut (standby d.service h₀) h) :
    Aborts site d.service h₀ (promote d sha a).run h := by
  refine aborts_bind (Spec.frame (P := reads) containerRunsImage_only)
    (fun _ => standby_of_reads) same ?_
  intro runs h₁ _ same _
  split
  · exact cutover_aborts same
  · exact redeploy_aborts recorded same

theorem runCutover_aborts : Aborts site s h (runCutover s shaOpt preview).run h := by
  refine aborts_bind loadDef_spec (fun _ => standby_of_reads) (.refl h) ?_
  intro d h₁ kept same loaded
  cases kept.eq_of_reads
  have service := Services.load_service loaded
  subst service
  refine aborts_bind readActive_spec (fun _ => standby_of_reads) same ?_
  intro a h₁ kept same recorded
  cases kept.eq_of_reads
  have recorded : h.active d.service = some a := recorded.symm
  refine aborts_bind (Spec.frame (P := reads) previewStaged_only) (fun _ => standby_of_reads) same ?_
  intro staged h₁ _ same _
  refine aborts_bind (Spec.frame (P := reads) listLocal_only) (fun _ => standby_of_reads) same ?_
  intro images h₂ _ same _
  refine aborts_bind (Spec.frame (P := reads) containerImageTag_only)
    (fun _ => standby_of_reads) same ?_
  intro tag h₃ _ same _
  split
  · exact cutover_aborts same
  · exact promote_aborts recorded same
  · exact fun _ => same
  · exact fun _ => same
  · exact fun _ => same

theorem Attempt.aborts (x : Attempt) : Aborts site x.service h x.perform h := by
  cases x with
  | deploy => exact run_aborts
  | startInactive => exact runStartInactive_aborts
  | cutover => exact runCutover_aborts

/-- An attempt that returns an error before the guard of `cutover` has been passed leaves the
record, the loaded configuration and the active container alone. -/
theorem err_kept {x : Attempt} {e : String}
    (run : FinishesBefore (steps site) GuardPassed x.perform h (.error e) h') : Kept x.service h h' :=
  (x.aborts.finishes run ⟨e, rfl⟩).kept

/-- Past the guard, the color is written next. -/
def writesColor : Prog sig (Except String Unit) → Bool
  | .call (.state (.writeColor _ _)) _ => true
  | _ => false

theorem writesColor_of_passed (p : Prog sig (Except String Unit)) (passed : GuardPassed p) :
    writesColor p = true := by
  obtain ⟨d, sha, a, same⟩ := passed
  subst same
  rfl

/-- A deploy whose health check times out. -/
theorem err_kept_deploy :
    ∃ e h', FinishesBefore (steps Scenario.site) GuardPassed
      (Attempt.deploy "paseo" "v2").perform Scenario.serving (.error e) h' ∧
        Kept "paseo" Scenario.serving h' := by
  have played : (playBefore (Call.answer Scenario.site) anyChoice writesColor
      (Scenario.oks 14 ++ List.replicate 30 .fail ++ [.ok])
      ((Attempt.deploy "paseo" "v2").perform, Scenario.serving)).map (·.1.result?) =
      some (some (.error "paseo health check timed out on container port 3000")) := by decide
  obtain ⟨h', run⟩ := playBefore_finishes writesColor_of_passed played
  exact ⟨_, h', run, err_kept run⟩

end Codery
