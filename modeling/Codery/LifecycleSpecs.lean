import Codery.Specs

/-! The specifications of the programs that start, probe and stop containers, record a color or a
SHA, and regenerate the Caddyfile. -/

namespace Codery

open Effect Prog

variable {site : Site} {h h' : Host} {s n sha : String} {c : Color} {d : ServiceDef}

/-! ### Starting a container and awaiting its health -/

theorem docker_step {x : Docker.Call} {r : x.Reply} (step : steps site (.docker x) h r h') :
    ∃ o, x.answer o h.docker = some (r, h'.docker) := by
  obtain ⟨o, _, ans⟩ := step
  exact ⟨o, (answer_docker ans).1⟩

theorem startContainer_spec :
    Spec site (touches (containerName d.service c)) h
      (OnOk fun _ h' => h'.slot d.service c = some { image := d.imageRef sha, running := true })
      (Deploy.startContainer d sha c).run := by
  apply Spec.of_only startContainer_only
  apply call_ends
  intro settings h₁ _
  apply after_ends
  intro _ h₁
  apply call_ends
  intro created h₂ creates
  apply context_ends
  intro _ ok
  subst ok
  obtain ⟨_, creates⟩ := docker_step creates
  apply call_ends
  intro started h₃ starts
  cases started with
  | ok =>
    obtain ⟨_, starts⟩ := docker_step starts
    obtain ⟨k, hk, put⟩ := Docker.answer_startContainer starts
    rw [Docker.answer_createContainer creates, Docker.Daemon.put_same] at hk
    cases hk
    show h₃.slot d.service c = _
    simp [Host.slot, put]
  | error e => trivial

/-- Between `h` and `h'`, the running container `n` has passed a health check. -/
def Passed (n : String) (h h' : Host) : Prop :=
  ∃ k, h.docker.containers n = some k ∧ k.running = true ∧
    h'.docker.containers n = some { k with healthPassed := true }

theorem passed_of_same {h₁ : Host} (same : h₁.docker = h.docker) (passed : Passed n h₁ h') :
    Passed n h h' := by
  unfold Passed at *
  rwa [same] at passed

/-- A wait that says `true` says so because the container has passed. -/
abbrev saysPassed (n : String) (h : Host) : Except String Bool → Host → Prop :=
  OnOk fun passed h' => passed = true → Passed n h h'

theorem saysPassed_of_same {h₁ : Host} {r : Except String Bool} (same : h₁.docker = h.docker)
    (said : saysPassed n h₁ r h') : saysPassed n h r h' :=
  said.mono fun _ passed yes => passed_of_same same (passed yes)

theorem waitForTcpInContainer_ends {port : UInt16} (attempts : Nat) :
    Ends site (saysPassed n h) (Deploy.waitForTcpInContainer n port attempts).run h := by
  induction attempts generalizing h with
  | zero =>
    intro yes
    cases yes
  | succ attempts ih =>
    apply call_ends
    intro r h₁ step
    obtain ⟨_, ans⟩ := docker_step step
    rcases Docker.answer_execTcpProbe ans with ⟨no, same⟩ | ⟨yes, k, hk, up, put⟩
    · subst no
      exact ih.post fun _ _ => saysPassed_of_same same
    · subst yes
      intro _
      exact ⟨k, hk, up, by simp [put]⟩

theorem waitForDockerHealthy_ends (seconds : Nat) :
    Ends site (saysPassed n h) (Deploy.waitForDockerHealthy n seconds).run h := by
  induction seconds generalizing h with
  | zero =>
    intro yes
    cases yes
  | succ seconds ih =>
    apply call_ends
    intro r h₁ step
    obtain ⟨_, ans⟩ := docker_step step
    rcases Docker.answer_inspectHealth ans with ⟨no, same⟩ | ⟨yes, k, hk, up, put⟩
    · cases r with
      | error e => trivial
      | ok status =>
        cases status with
        | none | starting => exact ih.post fun _ _ => saysPassed_of_same same
        | healthy => exact absurd rfl no
        | unhealthy =>
          intro yes
          cases yes
    · subst yes
      intro _
      exact ⟨k, hk, up, by simp [put]⟩

theorem awaitHealth_ends {cleanup : String → Result Unit} :
    Ends site (OnOk fun _ h' => Passed (containerName d.service c) h h')
      (Deploy.awaitHealth cleanup d c).run h := by
  have settle {x : Result Bool} {m : String}
      (hx : Ends site (saysPassed (containerName d.service c) h) x.run h) :
      Ends site (OnOk fun _ h' => Passed (containerName d.service c) h h')
        (x >>= fun passed => if passed then pure () else do
          cleanup (containerName d.service c)
          throw m).run h := by
    apply ok_ends hx
    intro passed h₂ hpassed
    cases passed with
    | true => exact hpassed rfl
    | false => exact after_ends fun _ _ => trivial
  unfold Deploy.awaitHealth
  split
  · cases d.healthContainerPort with
    | ok port => exact settle (waitForTcpInContainer_ends _)
    | error e => trivial
  · exact settle (waitForDockerHealthy_ends _)

theorem healthCheck_spec :
    Spec site (touches (containerName d.service c)) h
      (OnOk fun _ h' => Passed (containerName d.service c) h h') (Deploy.healthCheck d c).run :=
  Spec.of_only healthCheck_only awaitHealth_ends

theorem pollHealth_spec :
    Spec site (touches (containerName d.service c)) h
      (OnOk fun _ h' => Passed (containerName d.service c) h h') (Deploy.pollHealth d c).run :=
  Spec.of_only pollHealth_only awaitHealth_ends

/-- A container of `sha` that runs and has passed its health check. -/
def ServiceDef.healthy (d : ServiceDef) (sha : String) : Container :=
  { image := d.imageRef sha, running := true, healthPassed := true }

theorem startInactive_spec :
    Spec site (touches (containerName d.service c)) h
      (OnOk fun _ h' => h'.slot d.service c = some (d.healthy sha))
      (Deploy.startInactive d sha c).run := by
  apply Spec.of_only startInactive_only
  apply after_ends
  intro _ h₁
  apply after_ends
  intro _ h₂
  apply after_ends
  intro _ h₃
  apply ok_ends startContainer_spec.ends
  intro _ h₄ started
  apply healthCheck_spec.ends.post
  intro r h' passed
  apply passed.mono
  intro _ passed
  obtain ⟨k, hk, _, done⟩ := passed
  rw [show h₄.docker.containers _ = _ from started] at hk
  cases hk
  exact done

/-! ### Recording a color and a SHA -/

theorem writeActive_spec :
    Spec site (· = .color s) h (fun r h' => OnOk (fun _ h' => h'.active s = some c) r h' ∧
        (h'.active s = h.active s ∨ ∃ e, h'.active s = some e))
      (State.writeActive s c).run := by
  apply Spec.of_only writeActive_only
  apply call_ends
  intro r h' step
  obtain ⟨_, _, ans⟩ := step
  have ans := (answer_state ans).1
  have left : h'.active s = h.active s ∨ ∃ e, h'.active s = some e := by
    rcases (StateDir.answer_writeColor ans).2 with ⟨_, same⟩ | ⟨_, same | ⟨t, same⟩⟩
    · exact .inr ⟨c, by simp [Host.active, StateDir.active, same]⟩
    · exact .inl (by simp [Host.active, StateDir.active, same])
    · exact .inr ⟨colorOf t, by simp [Host.active, StateDir.active, same]⟩
  cases r with
  | ok => exact ⟨StateDir.answer_writeColor_ok ans, left⟩
  | error e => exact ⟨trivial, left⟩

theorem writeActiveSha_spec :
    Spec site (· = .sha s) h (OnOk fun _ h' => h'.state.sha s = .text (sha ++ "\n"))
      (State.writeActiveSha s sha).run := by
  apply Spec.of_only writeActiveSha_only
  apply call_ends
  intro r h' step
  obtain ⟨_, _, ans⟩ := step
  cases r with
  | ok =>
    show h'.state.sha s = _
    rw [(StateDir.answer_writeSha (answer_state ans).1).2 rfl, Function.update_self]
  | error e => trivial

/-! ### Regenerating the Caddyfile -/

theorem loadAll_spec :
    Spec site reads h (OnOk fun defs _ => defs = site.services.defs) loadAll.run := by
  apply Spec.of_only loadAll_only
  apply call_ends
  intro r h' step
  obtain ⟨_, _, ans⟩ := step
  rcases Docker.fallible_some ans with same | same <;> cases same
  · rfl
  · trivial

/-- The color a service would be routed to by its state file. -/
def Host.colorOf (h : Host) (s : String) : Color := (h.active s).getD .blue

theorem colorOrBlue_spec :
    Spec site reads h (OnOk fun color _ => color = h.colorOf s) (Caddy.colorOrBlue s).run := by
  apply Spec.of_only colorOrBlue_only
  apply ok_ends (attempt_spec readActive_spec).ends
  intro r h₁ read
  show r.toOption.getD .blue = (h.active s).getD .blue
  rw [read]

/-! ### The check before a deploy -/

theorem portConflicts_spec {active : List UInt16} (ports : List (UInt16 × UInt16)) :
    Spec site reads h (OnOk fun errors _ => errors = [] →
        ∀ q ∈ ports.map (·.1), q ∈ active ∨ h.publishes site q = false)
      (Validate.portConflicts active ports).run := by
  induction ports with
  | nil => exact ⟨.refl h, by simp [OnOk]⟩
  | cons p ports ih =>
    apply Spec.of_only (portConflicts_only _ _)
    simp only [List.map_cons, List.forall_mem_cons]
    unfold Validate.portConflicts
    split
    · next skipped =>
      exact ih.ends.post fun r _ free => free.mono fun _ free none =>
        ⟨.inl (List.contains_iff_mem.mp skipped), free none⟩
    · apply call_ends
      rintro free h₁ ⟨_, _, ans⟩
      obtain ⟨same, granted⟩ := answer_bindHostPort ans
      subst same
      apply ok_ends ih.ends
      intro errors h₂ rest none
      obtain ⟨_, rfl, unheld⟩ | ⟨_, rfl⟩ := granted
      · exact ⟨.inr unheld, rest none⟩
      · cases none

/-- The color's ports that the recorded one does not share are published by no container. -/
def Host.PortsFree (h : Host) (site : Site) (d : ServiceDef) (c : Color) : Prop :=
  ∀ q ∈ d.hostPorts c, q ∈ d.hostPorts (h.colorOf d.service) ∨ h.publishes site q = false

instance : Decidable (h.PortsFree site d c) :=
  List.decidableBAll (fun q => q ∈ d.hostPorts (h.colorOf d.service) ∨ h.publishes site q = false)
    (d.hostPorts c)

theorem Host.SameBut.portsFree {P : Part → Prop} (same : h.SameBut P h')
    (color : ¬ P (.color d.service)) (slots : ∀ n, ¬ P (.container n)) :
    h'.PortsFree site d c ↔ h.PortsFree site d c := by
  simp only [Host.PortsFree, Host.colorOf, same.active color, same.publishes slots]

theorem checkDeploy_spec :
    Spec site quiets h
      (OnOk fun _ _ => d.ports.flatMap Validate.udpErrors = [] ∧ h.PortsFree site d c)
      (Validate.checkDeploy d sha c).run := by
  apply Spec.of_only checkDeploy_only
  apply call_ends
  intro missing h₁ step
  cases reads_step step rfl
  apply call_ends
  intro pulled h₂ step
  have same : h.SameBut quiets h₂ := steps_sameBut step rfl
  refine Spec.read_ends (attempt_spec readActive_spec) fun active read => ?_
  refine Spec.read_ends (portConflicts_spec _) fun conflicts free => ?_
  have read : active.toOption = h₂.active d.service := read
  rw [map_fst_portMappings, map_fst_portMappings, read] at free
  simp only [List.append_eq_nil_iff]
  by_cases none : conflicts = [] ∧ d.ports.flatMap Validate.udpErrors = []
  · exact Safe.post any_ends fun r _ _ => by
      cases r with
      | ok => exact ⟨none.2, (same.portsFree (by simp) (by simp)).mp (free none.1)⟩
      | error e => trivial
  · rw [if_neg fun all => none ⟨all.1.2, all.2⟩]
    trivial

theorem readColors_spec (defs : List ServiceDef) :
    Spec site reads h (OnOk fun colors _ => ∀ d ∈ defs,
        colors.lookup d.service = some (h.colorOf d.service)) (Caddy.readColors defs).run := by
  induction defs with
  | nil => exact ⟨.refl h, by simp [OnOk]⟩
  | cons d defs ih =>
    apply Spec.of_only (readColors_only _)
    refine colorOrBlue_spec.read_ends fun color hcolor => ?_
    subst hcolor
    apply ok_ends ih.ends
    intro rest h₂ hrest d' hd'
    simp only [List.lookup_cons]
    by_cases eq : d'.service = d.service
    · simp [eq]
    · rw [beq_false_of_ne eq]
      exact hrest d' ((List.mem_cons.mp hd').resolve_left fun same => eq (same ▸ rfl))

/-- `cfg` sends every service to the color recorded for it in `h`. -/
def Faithful (site : Site) (h : Host) (cfg : CaddyConfig) : Prop :=
  ∀ d ∈ site.services.defs, cfg.colorOf d.service = h.colorOf d.service

/-- Caddy is only ever asked to reload a Caddyfile that follows the recorded colors. -/
def ReloadsFaithful (site : Site) (h : Host) : StepRel sig Host := fun x h₁ _ _ =>
  x = .proxy .reloadCaddy → ∃ cfg, h₁.proxy.caddyfile = some cfg ∧ Faithful site h cfg

def Regenerated (site : Site) (h : Host) : Except String Unit → Host → Prop
  | .ok _, h' => Faithful site h h'.proxy.loaded
  | .error _, h' => h'.proxy.loaded = h.proxy.loaded

theorem reads_not_reload {x : Call} {r : x.Reply} {h₁ h₂ : Host} (hx : reads x.part) :
    ReloadsFaithful site h x h₁ r h₂ := by
  intro same
  subst same
  cases hx

theorem reloadCaddy_safe {cfg : CaddyConfig} {h₁ : Host} (file : h₁.proxy.caddyfile = some cfg)
    (faithful : Faithful site h cfg) (loaded : h₁.proxy.loaded = h.proxy.loaded) :
    Safe (steps site) (ReloadsFaithful site h) (Regenerated site h) Caddy.reloadCaddy.run h₁ := by
  apply call_safe
  intro r h₂ step
  refine ⟨fun _ => ⟨cfg, file, faithful⟩, ?_⟩
  obtain ⟨_, _, ans⟩ := step
  rcases Proxy.answer_reloadCaddy (answer_proxy ans).1 with ⟨ok, now⟩ | ⟨⟨e, failed⟩, same⟩
  · subst ok
    rw [file] at now
    cases now
    exact faithful
  · subst failed
    show h₂.proxy.loaded = h.proxy.loaded
    rw [same, loaded]

theorem writeAndReload_safe {cfg : CaddyConfig} (faithful : Faithful site h cfg) :
    Safe (steps site) (ReloadsFaithful site h) (Regenerated site h)
      (do context ("failed to write " ++ caddyConfig) (← call (.proxy (.writeCaddyfile cfg)))
          Caddy.reloadCaddy : Result Unit).run h := by
  apply call_safe
  intro r h₁ step
  refine ⟨nofun, ?_⟩
  obtain ⟨_, _, ans⟩ := step
  have loaded := frame_loaded ans (by rintro ⟨⟩)
  cases r with
  | ok => exact reloadCaddy_safe (Proxy.answer_writeCaddyfile (answer_proxy ans).1) faithful loaded
  | error e => exact loaded

theorem applyAll_safe :
    Safe (steps site) (ReloadsFaithful site h) (Regenerated site h) Caddy.applyAll.run h := by
  have step {x : Call} {h₁ h₂ : Host} {r : x.Reply} : steps site x h₁ r h₂ → reads x.part →
      h.SameBut reads h₁ → ReloadsFaithful site h x h₁ r h₂ := fun _ hx _ => reads_not_reload hx
  have stop {fails : Prop} (e : String) (h' : Host) (same : h.SameBut reads h') (_ : fails) :
      Regenerated site h (.error e) h' := by
    cases same.eq_of_reads
    rfl
  refine loadAll_spec.bindE (fun _ _ _ _ => step) (fun defs h₁ same hdefs => ?_) stop
  cases same.eq_of_reads
  subst hdefs
  apply call_safe
  intro domain h₁ read
  refine ⟨reads_not_reload rfl, ?_⟩
  cases reads_step read rfl
  refine (readColors_spec _).bindE (fun _ _ _ _ => step) (fun colors h₁ same hcolors => ?_) stop
  cases same.eq_of_reads
  refine (Spec.frame connect_only).bindE (fun _ _ _ _ => step) (fun _ h₁ same _ => ?_) stop
  cases same.eq_of_reads
  refine (Spec.frame routeMap_only).bindE (fun _ _ _ _ => step) (fun routes h₁ same _ => ?_) stop
  cases same.eq_of_reads
  apply writeAndReload_safe
  intro d hd
  simp [CaddyConfig.colorOf, hcolors d hd]

theorem applyAll_spec :
    Spec site reloads h (Regenerated site h) Caddy.applyAll.run :=
  Spec.of_only applyAll_only (applyAll_safe.mono (fun _ _ _ _ _ _ => trivial) fun _ _ done => done)

/-! ### The previews -/

theorem deletePreview_spec :
    Spec site (· = .previews) h
      (OnOk fun _ h' => h'.db.previewRows = h.db.previewRows.filter (·.service != s))
      (Db.deletePreview s).run := by
  apply Spec.of_only deletePreview_only
  apply call_ends
  intro r h' step
  obtain ⟨_, _, ans⟩ := step
  rcases Database.answer_deletePreview (answer_db ans).1 with ⟨_, failed⟩ | ⟨rows, ok⟩
  · cases r with
    | ok n => exact absurd rfl (failed n)
    | error e => trivial
  · subst ok
    exact rows

theorem upsertPreview_spec {p : PreviewRecord} :
    Spec site (· = .previews) h
      (OnOk fun _ h' => h'.db.previewRows = h.db.previewRows.filter (·.service != p.service) ++ [p])
      (Db.upsertPreview p).run := by
  apply Spec.of_only upsertPreview_only
  apply call_ends
  intro r h' step
  obtain ⟨_, _, ans⟩ := step
  cases r with
  | error e => trivial
  | ok => exact (Database.answer_upsertPreview (answer_db ans).1).resolve_left (absurd rfl)

theorem findPreview_spec :
    Spec site reads h (OnOk fun p _ => p = h.preview s) (Db.findPreview s).run := by
  apply Spec.of_only findPreview_only
  apply call_ends
  intro r h' step
  obtain ⟨_, _, ans⟩ := step
  cases r with
  | error e => trivial
  | ok rows =>
    rw [Database.answer_selectPreviews (answer_db ans).1 rfl]
    rfl

end Codery
