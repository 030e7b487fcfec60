import Codery.Scenario

/-! The recorded color and the recorded SHA as one record of what serves, over runs whose writes
to the two files leave no mix of old and new. -/

namespace Codery

open Effect Prog Deploy

variable {site : Site} {P : Part → Prop} {h h' h₀ : Host} {α β : Type} {s sha : String}
  {a c : Color} {d : ServiceDef} {op : Operation}

/-- Where a SHA is recorded, the container of the recorded color, if it exists, has its image. -/
def Recorded (d : ServiceDef) (h : Host) : Prop :=
  ∀ a x k, h.active d.service = some a → h.state.activeSha d.service = some x →
    h.slot d.service a = some k → k.image = d.imageRef x

/-- A failed write leaves the recorded color as it was; a written SHA, whatever became of the
write, is recorded as it stands or not at all. -/
def Tidy (s : String) : StepRel sig Host := fun x h r h' =>
  match x, r with
  | .state (.writeColor s' _), .error _ => s' = s → h'.active s = h.active s
  | .state (.writeSha s' text), _ => s' = s → ∀ x, h'.state.activeSha s = some x → text = x ++ "\n"
  | _, _ => True

/-- The steps of a host whose writes to the state files of `s` are tidy. -/
def tidySteps (site : Site) (s : String) : StepRel sig Host := fun x h r h' =>
  steps site x h r h' ∧ Tidy s x h r h'

theorem tidySteps_le : tidySteps site s ≤ steps site := fun _ _ _ _ both => both.1

/-- Whatever `p` returns, the record holds. -/
abbrev Keeps (site : Site) (d : ServiceDef) (p : Prog sig α) (h : Host) : Prop :=
  Safe (tidySteps site d.service) (fun _ _ _ _ => True) (fun _ h' => Recorded d h') p h

/-- `P` names neither the record of `s` nor the container of its recorded color. -/
structure Spares (P : Part → Prop) (s : String) (h : Host) : Prop where
  color : ¬ P (.color s)
  sha : ¬ P (.sha s)
  slot : ∀ a, h.active s = some a → ¬ P (.container (containerName s a))

theorem Host.SameBut.recorded (same : h.SameBut P h') (spares : Spares P d.service h)
    (recorded : Recorded d h) : Recorded d h' := by
  intro a x k active written slot
  rw [same.active spares.color] at active
  rw [same.activeSha spares.sha] at written
  rw [same.slot (spares.slot a active)] at slot
  exact recorded a x k active written slot

theorem spares_touches (active : h.active s = some a) :
    Spares (touches (containerName s (flip a))) s h where
  color := by simp
  sha := by simp
  slot b hb := by
    rw [active] at hb
    cases hb
    simp

theorem spares_reads : Spares reads s h := ⟨by simp, by simp, by simp⟩

theorem spares_quiets : Spares quiets s h := ⟨by simp, by simp, by simp⟩

theorem spares_reloads : Spares reloads s h := ⟨by simp, by simp, by simp⟩

/-- A program that spares the record, and then another. -/
theorem keeps_bind {R : Except String α → Host → Prop} {x : Result α} {f : α → Result β}
    (spec : Spec site P h R x.run) (spares : Spares P d.service h) (recorded : Recorded d h)
    (next : ∀ a h', h.SameBut P h' → R (.ok a) h' → Recorded d h' → Keeps site d (f a).run h') :
    Keeps site d (x >>= f).run h :=
  spec.keeping tidySteps_le (fun _ same => same.recorded spares recorded) next

/-- A program that spares the record and is run to its end. -/
theorem keeps_frame {x : Result α} (only : x.run.Only fun c : Call => P c.part)
    (spares : Spares P d.service h) (recorded : Recorded d h) : Keeps site d x.run h :=
  ((Spec.frame only).within tidySteps_le).post fun _ _ both => both.1.recorded spares recorded

/-! ### Writing the record -/

theorem writeActive_tidy :
    Safe (tidySteps site s) (fun _ _ _ _ => True)
      (fun r h' => h.SameBut (· = .color s) h' ∧
        (r = .ok () ∧ h'.active s = some c ∨ (∃ e, r = .error e) ∧ h'.active s = h.active s))
      (State.writeActive s c).run h := by
  intro r h₁ step
  obtain ⟨step, tidy⟩ := step
  have same : h.SameBut (· = .color s) h₁ := steps_sameBut step rfl
  refine ⟨trivial, ?_⟩
  cases r with
  | ok =>
    obtain ⟨_, _, ans⟩ := step
    exact ⟨same, .inl ⟨rfl, StateDir.answer_writeColor_ok (answer_state ans).1⟩⟩
  | error e => exact ⟨same, .inr ⟨⟨_, rfl⟩, tidy rfl⟩⟩

theorem writeActiveSha_tidy :
    Safe (tidySteps site s) (fun _ _ _ _ => True)
      (fun _ h' => h.SameBut (· = .sha s) h' ∧ ∀ x, h'.state.activeSha s = some x → x = sha)
      (State.writeActiveSha s sha).run h := by
  intro r h₁ step
  obtain ⟨step, tidy⟩ := step
  have same : h.SameBut (· = .sha s) h₁ := steps_sameBut step rfl
  have written (x : String) (hx : h₁.state.activeSha s = some x) : x = sha := by
    have text := congrArg String.toList (tidy rfl x hx)
    simp only [String.toList_append, List.append_cancel_right_eq, String.toList_inj] at text
    exact text.symm
  refine ⟨trivial, ?_⟩
  cases r <;> exact ⟨same, written⟩

/-- The two writes of a promotion, the container of the new color having the image of the SHA. -/
theorem record_keeps {k : Container} {f : Result Unit} (recorded : Recorded d h)
    (slot : h.slot d.service c = some k) (image : k.image = d.imageRef sha)
    (next : ∀ h', h'.active d.service = some c → Recorded d h' → Keeps site d f.run h') :
    Keeps site d
      (do State.writeActive d.service c
          State.writeActiveSha d.service sha
          f : Result Unit).run h := by
  refine writeActive_tidy.bindE (fun _ h₁ wrote => ?_) fun e h₁ wrote => ?_
  · obtain ⟨same, ⟨_, active⟩ | ⟨⟨_, ok⟩, _⟩⟩ := wrote
    · have both (h₂ : Host) (left : h₁.SameBut (· = .sha d.service) h₂ ∧
          ∀ x, h₂.state.activeSha d.service = some x → x = sha) :
          h₂.active d.service = some c ∧ Recorded d h₂ := by
        have active₂ : h₂.active d.service = some c := (left.1.active (by simp)).trans active
        refine ⟨active₂, fun a x k' ha hx hk => ?_⟩
        cases active₂.symm.trans ha
        rw [left.1.slot (by simp), same.slot (by simp), slot] at hk
        cases hk
        rw [left.2 x hx, image]
      refine writeActiveSha_tidy.bindE (fun _ h₂ left => ?_) fun e h₂ left => ?_
      · exact next h₂ (both h₂ left).1 (both h₂ left).2
      · exact (both h₂ left).2
    · cases ok
  · obtain ⟨same, ⟨ok, _⟩ | ⟨_, active⟩⟩ := wrote
    · cases ok
    · intro a x k' ha hx hk
      rw [active] at ha
      rw [same.activeSha (by simp)] at hx
      rw [same.slot (by simp)] at hk
      exact recorded a x k' ha hx hk

/-! ### The programs -/

theorem switchOver_keeps {k : Container} (recorded : Recorded d h)
    (slot : h.slot d.service (flip a) = some k) (image : k.image = d.imageRef sha) :
    Keeps site d (switchOver d sha a (flip a)).run h := by
  refine record_keeps recorded slot image fun h₁ active recorded => ?_
  refine keeps_bind (Spec.frame (P := reloads) applyAll_only) spares_reloads recorded ?_
  intro _ h₂ same _ recorded
  have spares : Spares (touches (containerName d.service a)) d.service h₂ := by
    have spares := spares_touches ((same.active (by simp)).trans active)
    rwa [flip_flip] at spares
  refine keeps_bind (Spec.frame (P := touches _) stopContainer_only) spares recorded ?_
  intro _ h₃ _ _ recorded
  exact keeps_frame (P := quiets) prune_only spares_quiets recorded

/-- The container about to be promoted, where it exists, has the image of `sha`. -/
def Host.Imaged (h : Host) (d : ServiceDef) (c : Color) (sha : String) : Prop :=
  ∀ k, h.slot d.service c = some k → k.image = d.imageRef sha

theorem cutover_keeps (recorded : Recorded d h) (imaged : h.Imaged d (flip a) sha) :
    Keeps site d (cutover d sha a (flip a)).run h := by
  refine keeps_bind containerRunning_spec spares_reads recorded ?_
  intro up h₁ same inspected recorded
  cases same.eq_of_reads
  obtain ⟨_, seen, hup⟩ := inspected
  cases seen
  cases up with
  | true =>
    obtain ⟨k, slot, _⟩ := hup rfl
    exact switchOver_keeps recorded slot (imaged k slot)
  | false => exact recorded

theorem redeploy_keeps (recorded : Recorded d h) (active : h.active d.service = some a) :
    Keeps site d (redeploy d sha a).run h := by
  refine keeps_bind startInactive_spec (spares_touches active) recorded ?_
  intro _ h₁ _ started recorded
  refine cutover_keeps recorded fun k slot => ?_
  rw [show h₁.slot d.service (flip a) = some (d.healthy sha) from started] at slot
  cases slot
  rfl

theorem deployService_keeps (recorded : Recorded d h) :
    Keeps site d (deployService d sha).run h := by
  refine keeps_bind (Spec.frame (P := reads) preflight_only) spares_reads recorded ?_
  intro _ h₁ _ _ recorded
  refine keeps_bind (Spec.frame (P := reads) ensureNetwork_only) spares_reads recorded ?_
  intro _ h₂ _ _ recorded
  refine keeps_bind readActive_spec spares_reads recorded ?_
  intro a h₃ same active recorded
  have active : h₃.active d.service = some a := (same.active (by simp)).trans active.symm
  refine keeps_bind readActiveSha_spec spares_reads recorded ?_
  intro x h₄ same _ recorded
  have active : h₄.active d.service = some a := (same.active (by simp)).trans active
  split
  · refine keeps_bind containerRunning_spec spares_reads recorded ?_
    intro up h₅ same _ recorded
    have active : h₅.active d.service = some a := (same.active (by simp)).trans active
    split
    · exact recorded
    · exact redeploy_keeps recorded active
  · exact redeploy_keeps recorded active

theorem promote_keeps (recorded : Recorded d h) (active : h.active d.service = some a) :
    Keeps site d (promote d sha a).run h := by
  refine keeps_bind containerRunsImage_spec spares_reads recorded ?_
  intro runs h₁ same inspected recorded
  cases same.eq_of_reads
  obtain ⟨_, seen, hruns⟩ := inspected
  cases seen
  cases runs with
  | true =>
    obtain ⟨k, slot, _, image⟩ := hruns rfl
    refine cutover_keeps recorded fun k' slot' => ?_
    cases slot.symm.trans slot'
    exact image
  | false => exact redeploy_keeps recorded active

section Loaded

variable (loaded : site.services.load d.service = some d)

include loaded

theorem loadDef_keeps {f : ServiceDef → Result α} (recorded : Recorded d h)
    (next : ∀ h', Recorded d h' → Keeps site d (f d).run h') :
    Keeps site d (loadDef d.service >>= f).run h := by
  refine keeps_bind loadDef_spec spares_reads recorded ?_
  intro d' h₁ _ found recorded
  cases loaded.symm.trans found
  exact next h₁ recorded

theorem run_keeps (recorded : Recorded d h) : Keeps site d (Deploy.run d.service sha).run h :=
  loadDef_keeps loaded recorded fun _ => deployService_keeps

theorem runStartInactive_keeps (recorded : Recorded d h) :
    Keeps site d (runStartInactive d.service sha).run h := by
  refine loadDef_keeps loaded recorded fun h₁ recorded => ?_
  refine keeps_bind (Spec.frame (P := reads) preflight_only) spares_reads recorded ?_
  intro _ h₂ _ _ recorded
  refine keeps_bind (Spec.frame (P := reads) ensureNetwork_only) spares_reads recorded ?_
  intro _ h₃ _ _ recorded
  refine keeps_bind readActive_spec spares_reads recorded ?_
  intro a h₄ same active recorded
  have active : h₄.active d.service = some a := (same.active (by simp)).trans active.symm
  refine keeps_bind startInactive_spec (spares_touches active) recorded ?_
  exact fun _ _ _ _ recorded => recorded

theorem runCutover_keeps {shaOpt preview : Option String} (recorded : Recorded d h) :
    Keeps site d (runCutover d.service shaOpt preview).run h := by
  refine loadDef_keeps loaded recorded fun h₁ recorded => ?_
  refine keeps_bind readActive_spec spares_reads recorded ?_
  intro a h₂ same active recorded
  have active : h₂.active d.service = some a := (same.active (by simp)).trans active.symm
  refine keeps_bind previewStaged_spec spares_reads recorded ?_
  intro staged h₃ same inspected recorded
  cases same.eq_of_reads
  obtain ⟨_, seen, hstaged⟩ := inspected
  cases seen
  refine keeps_bind listLocal_spec spares_reads recorded ?_
  intro images h₄ same _ recorded
  cases same.eq_of_reads
  refine keeps_bind containerImageTag_spec spares_reads recorded ?_
  intro tag h₅ same _ recorded
  cases same.eq_of_reads
  split
  · next sha plan =>
    obtain ⟨on, staging, _⟩ := planCutover_staged plan
    obtain ⟨p, was, k, slot, _, image⟩ := hstaged on
    cases staging.symm.trans was
    refine cutover_keeps recorded fun k' slot' => ?_
    cases slot.symm.trans slot'
    exact image
  · exact promote_keeps recorded active
  · exact recorded
  · exact recorded
  · exact recorded

theorem runCancelInactive_keeps (recorded : Recorded d h) :
    Keeps site d (runCancelInactive d.service).run h := by
  refine loadDef_keeps loaded recorded fun h₁ recorded => ?_
  refine keeps_bind readActive_spec spares_reads recorded ?_
  intro a h₂ same active recorded
  have active : h₂.active d.service = some a := (same.active (by simp)).trans active.symm
  refine keeps_bind (Spec.frame (P := touches _) stopContainer_only) (spares_touches active)
    recorded ?_
  intro _ h₃ same _ recorded
  have active : h₃.active d.service = some a := (same.active (by simp)).trans active
  refine keeps_bind (Spec.frame (P := touches _) removeContainerIfExists_only)
    (spares_touches active) recorded ?_
  intro _ h₄ _ _ recorded
  exact keeps_frame (P := quiets) prune_only spares_quiets recorded

end Loaded

/-! ### The operations -/

theorem spares_lock : Spares (· = .lock s) d.service h := ⟨by simp, by simp, by simp⟩

theorem withLock_keeps {body : Result Unit} {refusal : String → String} (recorded : Recorded d h)
    (run : ∀ h₁, Recorded d h₁ → Keeps site d body.run h₁) :
    Keeps site d (withLock s refusal body).run h := by
  intro acquired h₁ step
  have same : h.SameBut (· = .lock s) h₁ := steps_sameBut step.1 rfl
  refine ⟨trivial, ?_⟩
  have recorded := same.recorded spares_lock recorded
  cases acquired with
  | error e => exact recorded
  | ok =>
    refine Safe.liftE (run h₁ recorded) ?_
    intro r h₂ recorded _ h₃ step
    have same : h₂.SameBut (· = .lock s) h₃ := steps_sameBut step.1 rfl
    exact ⟨trivial, same.recorded spares_lock recorded⟩

theorem spares_previews : Spares (· = .previews) s h := ⟨by simp, by simp, by simp⟩

theorem connectInit_keeps {f : Result α} (recorded : Recorded d h)
    (next : ∀ h', Recorded d h' → Keeps site d f.run h') :
    Keeps site d (do Db.connect; Db.init; f : Result α).run h := by
  refine keeps_bind (Spec.frame (P := reads) connect_only) spares_reads recorded ?_
  intro _ h₁ _ _ recorded
  refine keeps_bind (Spec.frame (P := quiets) (quiet_of_migrates init_only)) spares_quiets recorded ?_
  exact fun _ h₂ _ _ recorded => next h₂ recorded

theorem dropPreview_keeps (recorded : Recorded d h) :
    Keeps site d (Cli.dropPreview s).run h := by
  refine keeps_bind deletePreview_spec spares_previews recorded ?_
  intro deleted h₁ _ _ recorded
  split
  · exact keeps_frame (P := reloads) reloadProxies_only spares_reloads recorded
  · exact recorded

theorem deployPreview_keeps {flag : Option String} (loaded : site.services.load d.service = some d)
    (recorded : Recorded d h) : Keeps site d (Cli.deployPreview d.service sha flag).run h := by
  refine withLock_keeps recorded fun h₁ recorded => ?_
  refine keeps_bind loadService_spec spares_reads recorded ?_
  intro d' h₂ _ _ recorded
  refine ofExcept_safe (fun port _ => ?_) fun _ => recorded
  refine Safe.bindE (runStartInactive_keeps loaded recorded) ?_ ?_
  · intro b h₃ recorded
    refine connectInit_keeps recorded fun h₄ recorded => ?_
    refine keeps_bind upsertPreview_spec spares_previews recorded ?_
    intro _ h₅ _ _ recorded
    exact keeps_frame (P := reloads) reloadProxies_only spares_reloads recorded
  · exact fun _ _ recorded => recorded

theorem cutover_op_keeps {shaOpt : Option String} (loaded : site.services.load d.service = some d)
    (recorded : Recorded d h) : Keeps site d (Cli.cutover d.service shaOpt).run h := by
  refine withLock_keeps recorded fun h₁ recorded => ?_
  refine connectInit_keeps recorded fun h₂ recorded => ?_
  refine keeps_bind findPreview_spec spares_reads recorded ?_
  intro preview h₃ _ _ recorded
  refine Safe.bindE (runCutover_keeps loaded recorded) ?_ fun _ _ recorded => recorded
  exact fun _ h₄ recorded => dropPreview_keeps recorded

theorem cancelPreview_keeps (loaded : site.services.load d.service = some d)
    (recorded : Recorded d h) : Keeps site d (Cli.cancelPreview d.service).run h := by
  refine withLock_keeps recorded fun h₁ recorded => ?_
  refine Safe.bindE (runCancelInactive_keeps loaded recorded) ?_ ?_
  · exact fun _ h₂ recorded => connectInit_keeps recorded fun h₃ recorded => dropPreview_keeps recorded
  · exact fun _ _ recorded => recorded

/-- The `codery-ci` commands that hold the lock: all such operations but the dashboard's. -/
def Operation.Commands (s : String) (op : Operation) : Prop :=
  op.Locks s ∧ op ≠ .dashboardRollback s

theorem Operation.keeps (loaded : site.services.load d.service = some d)
    (commands : op.Commands d.service) (recorded : Recorded d h) : Keeps site d op.perform h := by
  obtain ⟨locks, other⟩ := commands
  cases op with
  | deploy =>
    cases locks
    exact withLock_keeps recorded fun _ recorded => run_keeps loaded recorded
  | deployPreview =>
    cases locks
    exact deployPreview_keeps loaded recorded
  | cutover =>
    cases locks
    exact cutover_op_keeps loaded recorded
  | cancelPreview =>
    cases locks
    exact cancelPreview_keeps loaded recorded
  | dashboardRollback =>
    cases locks
    exact absurd rfl other
  | _ => exact locks.elim

/-! ### Runs -/

theorem recorded_kept {log : List (Operation × Except String Unit)}
    (loaded : site.services.load d.service = some d) (start : Recorded d h₀)
    (run : Serial (tidySteps site d.service) Operation.perform (fun op _ => op.Commands d.service)
      h₀ log h) : Recorded d h :=
  run.keeps start fun _ _ _ _ recorded commands finish =>
    (Operation.keeps loaded commands recorded).finishes finish

/-- A write of a color may fail, the old one staying; that of the SHA `v2` succeeds. -/
def clean : Call → Choice → Bool
  | .state (.writeColor _ _), o => o == .ok || o == .fail
  | .state (.writeSha _ text), o => o == .ok && text == "v2\n"
  | _, _ => true

theorem clean_tidy : handler (Call.answer site) clean ≤ tidySteps site s := by
  rintro x h r h' ⟨o, ok, ans⟩
  refine ⟨⟨o, rfl, ans⟩, ?_⟩
  cases x with
  | state c =>
    cases c with
    | writeColor s' text =>
      rcases Bool.or_eq_true_iff.mp ok with done | failed
      · obtain rfl := beq_iff_eq.mp done
        cases ans
        trivial
      · obtain rfl := beq_iff_eq.mp failed
        cases ans
        exact fun _ => rfl
    | writeSha s' text =>
      obtain ⟨done, v2⟩ := Bool.and_eq_true_iff.mp ok
      obtain rfl := beq_iff_eq.mp done
      obtain rfl := beq_iff_eq.mp v2
      cases ans
      rintro rfl x written
      have sha : StateDir.activeSha
          { h.state with sha := Function.update h.state.sha s' (.text "v2\n") } s' = some "v2" := by
        simp only [StateDir.activeSha, Function.update_self]
        decide
      cases sha.symm.trans written
      rfl
    | _ => trivial
  | _ => trivial

/-- A deploy of `v2` that fails at the write of the color, then one that succeeds. -/
def retried : List (Operation × List Choice) :=
  [(.deploy "paseo" "v2", Scenario.oks 17 ++ [.fail, .ok]),
    (.cancelPreview "paseo", Scenario.oks 13), (.deploy "paseo" "v2", Scenario.oks 32)]

theorem recorded_kept_retried :
    ∃ log h, Serial (tidySteps Scenario.site "paseo") Operation.perform
      (fun op _ => op.Commands "paseo") Scenario.serving log h ∧
        log.map (·.2.isOk) = [true, true, false] ∧ h.active "paseo" = some .green ∧
        Recorded Scenario.paseo h := by
  have played : (playSerial (Call.answer Scenario.site) clean Operation.perform
      retried ([], Scenario.serving)).map (fun x => (x.1.map (·.2.isOk), x.2.active "paseo")) =
        some ([true, true, false], some .green) := by
    decide
  obtain ⟨log, h, run, shown⟩ := playSerial_run (fun op _ => op.Commands "paseo") (by
      intro x mem w
      simp only [retried, List.mem_cons, List.not_mem_nil, or_false] at mem
      rcases mem with rfl | rfl | rfl
      · exact ⟨rfl, nofun⟩
      · exact ⟨rfl, nofun⟩
      · exact ⟨rfl, nofun⟩) played
  simp only [Prod.mk.injEq] at shown
  obtain ⟨results, active⟩ := shown
  have tidy : Serial (tidySteps Scenario.site "paseo") Operation.perform
      (fun op _ => op.Commands "paseo") Scenario.serving log h :=
    run.mono clean_tidy fun _ _ commands => commands
  refine ⟨log, h, tidy, results, active, recorded_kept (d := Scenario.paseo) rfl ?_ tidy⟩
  intro a x k active written slot
  cases active
  cases slot
  cases written
  decide

/-- A deploy that fails at the write of the SHA: green is recorded and runs `v2`, next to the SHA
`v1`. -/
theorem recorded_mixed :
    ¬ ∀ log h, Serial (steps Scenario.site) Operation.perform (fun op _ => op.Commands "paseo")
      Scenario.serving log h → Recorded Scenario.paseo h := by
  intro all
  have played : (playSerial (Call.answer Scenario.site) anyChoice Operation.perform
      [Scenario.failedWrite] ([], Scenario.serving)).map
        (fun x => (x.2.active "paseo", x.2.state.activeSha "paseo",
          (x.2.slot "paseo" .green).map (·.image))) =
      some (some .green, some "v1", some (Scenario.paseo.imageRef "v2")) := by decide
  obtain ⟨log, h, run, shown⟩ := playSerial_run (fun op _ => op.Commands "paseo") (by
      intro x hx w
      cases List.mem_singleton.mp hx
      exact ⟨rfl, nofun⟩) played
  simp only [Prod.mk.injEq] at shown
  obtain ⟨active, recorded, image⟩ := shown
  obtain ⟨k, slot, image⟩ := Option.map_eq_some_iff.mp image
  have mixed := all log h run .green "v1" k active recorded slot
  rw [image] at mixed
  exact absurd mixed (by decide)

end Codery
