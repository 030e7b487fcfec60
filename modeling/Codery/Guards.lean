import Codery.Refinement

/-! Every step of every operation that holds the deploy lock is allowed by the blue/green pair. -/

namespace Codery

open Effect Prog Deploy

variable {site : Site} {P : Part → Prop} {h h' : Host} {s sha : String} {a b c : Color}
  {d : ServiceDef} {aligned vetted : Prop}

/-- The call is one whose guard holds in the host it is issued in. -/
abbrev Guarded (s : String) (aligned vetted : Prop) : StepRel sig Host := fun x h _ _ =>
  (h.view s).Guard aligned vetted (x.act s)

theorem guard_of_idle {x : Call} {r : x.Reply} (color : ∀ s', x.part ≠ .color s')
    (idle : x.part.act s = .idle) : Guarded s aligned vetted x h r h' := by
  simp only [Guarded, Call.act_of_part color, idle]
  trivial

theorem guard_of_quiet {x : Call} {r : x.Reply} (hx : x.part.quiet = true) :
    Guarded s aligned vetted x h r h' := by
  refine guard_of_idle (fun s' same => ?_) (act_of_quiet hx)
  rw [same] at hx
  cases hx

theorem guard_of_reads {x : Call} {r : x.Reply} (hx : reads x.part) :
    Guarded s aligned vetted x h r h' :=
  guard_of_quiet (by rw [show x.part = .nothing from hx]; rfl)

/-- `a` is recorded as active, and no traffic that relied on that goes to the other color. -/
structure Host.Based (h : Host) (s : String) (a : Color) (aligned : Prop) : Prop where
  active : h.active s = some a
  apart : aligned → h.proxy.loaded.routed s ≠ some (flip a)

theorem Host.Based.keep (based : h.Based s a aligned) (same : h.SameBut P h')
    (color : ¬ P (.color s)) (loaded : ¬ P .loaded) : h'.Based s a aligned where
  active := (same.active color).trans based.active
  apart := same.loaded loaded ▸ based.apart

theorem guard_of_touches {x : Call} {r : x.Reply} (hx : touches (containerName s (flip a)) x.part)
    (based : h.Based s a aligned) : Guarded s aligned vetted x h r h' := by
  cases hx with
  | inl quiet => exact guard_of_quiet quiet
  | inr touched =>
    have color (s' : String) : x.part ≠ .color s' := by simp [touched]
    simp only [Guarded, Call.act_of_part color, touched, act_container]
    exact ⟨by rw [flip_flip]; exact based.active, based.apart⟩

theorem quiet_guarded : ∀ x h₁ r h₂, steps site x h₁ r h₂ → quiets x.part → h.SameBut quiets h₁ →
    Guarded s aligned vetted x h₁ r h₂ := fun _ _ _ _ _ hx _ => guard_of_quiet hx

theorem reads_guarded : ∀ x h₁ r h₂, steps site x h₁ r h₂ → reads x.part → h.SameBut reads h₁ →
    Guarded s aligned vetted x h₁ r h₂ := fun _ _ _ _ _ hx _ => guard_of_reads hx

/-- The guard of the steps that touch the inactive container, wherever they are taken. -/
theorem touches_guarded (based : h.Based s a aligned) (hb : flip a = b) :
    ∀ x h₁ r h₂, steps site x h₁ r h₂ → touches (containerName s b) x.part →
      h.SameBut (touches (containerName s b)) h₁ → Guarded s aligned vetted x h₁ r h₂ := by
  subst hb
  intro x h₁ r h₂ _ hx same
  exact guard_of_touches hx (based.keep same (by simp) (by simp))

theorem reload_of_part {x : Call} (hx : x.part = .loaded) : x = .proxy .reloadCaddy := by
  cases x with
  | proxy d => cases d <;> first | rfl | cases hx
  | docker d => cases d <;> cases hx
  | state d => cases d <;> cases hx
  | db d => cases d <;> cases hx
  | _ => cases hx

theorem applyAll_guarded (hs : ∃ d ∈ site.services.defs, d.service = s) :
    Safe (steps site) (Guarded s aligned vetted)
      (fun r h' => h.SameBut reloads h' ∧ Regenerated site h r h') Caddy.applyAll.run h := by
  refine ((only_sameBut applyAll_only h).and applyAll_safe).mono ?_ fun _ _ both => both
  intro x h₁ r h₂ step both
  obtain ⟨⟨hx, same, _⟩, faithful⟩ := both
  rcases hx with quiet | file | loaded
  · exact guard_of_quiet quiet
  · simp only [Guarded, Call.act_of_part (x := x) (by simp [file]), file]
    trivial
  · have reload := reload_of_part loaded
    subst reload
    obtain ⟨cfg, written, follows⟩ := faithful rfl
    obtain ⟨d, hd, service⟩ := hs
    intro c a filed active
    have filed : cfg.routed s = some c := by simpa [Host.view, written] using filed
    have recorded : h.active s = some a := by
      rw [← same.active (by simp)]
      exact active
    have color : cfg.colorOf s = a := by
      rw [← service, follows d hd, service]
      simp [Host.colorOf, recorded]
    unfold CaddyConfig.routed at filed
    split at filed <;> cases filed
    exact color

theorem reloadProxies_guarded (hs : ∃ d ∈ site.services.defs, d.service = s) :
    Safe (steps site) (Guarded s aligned vetted) (fun _ h' => h.SameBut reloads h')
      reloadProxies.run h := by
  refine Safe.bindE (applyAll_guarded hs) ?_ fun _ _ both => both.1
  intro _ h₁ both
  refine (Spec.frame (P := quiets) generateAndReload_only).safe quiet_guarded ?_
  intro _ h₂ same _
  exact both.1.trans (same.mono fun _ => .inl)

/-! ### Cutting over -/

/-- `b` is recorded and routed to, and holds what it held in `h`. -/
structure Promoted (d : ServiceDef) (b : Color) (h h' : Host) : Prop where
  active : h'.active d.service = some b
  slot : h'.slot d.service b = h.slot d.service b
  routed : h'.proxy.loaded.colorOf d.service = b

theorem Promoted.keep {h₁ h₂ : Host} (promoted : Promoted d b h h₁) (same : h₁.SameBut P h₂)
    (color : ¬ P (.color d.service)) (slot : ¬ P (.container (containerName d.service b)))
    (loaded : ¬ P .loaded) : Promoted d b h h₂ where
  active := (same.active color).trans promoted.active
  slot := (same.slot slot).trans promoted.slot
  routed := by
    rw [same.loaded loaded]
    exact promoted.routed

theorem routed_eq {cfg : CaddyConfig} (hc : cfg.routed s = some c) : cfg.colorOf s = c := by
  unfold CaddyConfig.routed at hc
  split at hc <;> cases hc
  rfl

/-- The old container is stopped only once Caddy routes to the new one. -/
theorem stopOld_guarded (promoted : Promoted d (flip a) h h') :
    Safe (steps site) (Guarded d.service aligned vetted) (OnOk fun _ => Promoted d (flip a) h)
      (stopContainer (containerName d.service a)).run h' := by
  have based : h'.Based d.service (flip a) aligned :=
    ⟨promoted.active, fun _ routed => ne_flip (flip a) (promoted.routed.symm.trans (routed_eq routed))⟩
  refine (Spec.frame (P := touches _) stopContainer_only).safe
    (touches_guarded based (flip_flip a)) ?_
  intro r h₁ same _
  cases r with
  | error e => trivial
  | ok => exact promoted.keep same (by simp) (by simp) (by simp)

theorem retire_guarded (promoted : Promoted d (flip a) h h') :
    Safe (steps site) (Guarded d.service aligned vetted) (OnOk fun _ => Promoted d (flip a) h)
      (do stopContainer (containerName d.service a)
          Images.prune d.service : Result Unit).run h' := by
  refine Safe.bindE (stopOld_guarded promoted) ?_ fun _ _ _ => trivial
  intro _ h₁ promoted
  have promoted : Promoted d (flip a) h h₁ := promoted
  refine (Spec.frame (P := quiets) prune_only).safe quiet_guarded ?_
  intro r h₂ pruned _
  cases r with
  | error e => trivial
  | ok => exact promoted.keep pruned (by simp) (by simp) (by simp)

/-- The only step of `write_active` is the write. -/
theorem writeActive_step :
    Safe (steps site)
      (fun x h₁ _ _ => x = .state (.writeColor s (c.asStr ++ "\n")) ∧ h₁ = h) (fun _ _ => True)
      (State.writeActive s c).run h :=
  fun r _ _ => ⟨⟨rfl, rfl⟩, by cases r <;> trivial⟩

theorem writeActive_guarded (guard : (h.view s).Guard aligned vetted (.promote c)) :
    Safe (steps site) (Guarded s aligned vetted)
      (fun r h' => h.SameBut (· = .color s) h' ∧ OnOk (fun _ h' => h'.active s = some c) r h')
      (State.writeActive s c).run h := by
  refine (writeActive_spec.and writeActive_step).mono ?_ fun _ _ both => ⟨both.1.1, both.1.2.1⟩
  intro x h₁ r h₂ step both
  obtain ⟨_, rfl, rfl⟩ := both
  simpa [Guarded, Call.act] using guard

/-- Recording the promoted color and its SHA. -/
theorem record_guarded (guard : (h.view s).Guard aligned vetted (.promote c)) {f : Result Unit}
    {T : Unit → Host → Prop}
    (next : ∀ h', h.SameBut (fun p => p = .color s ∨ p = .sha s) h' → h'.active s = some c →
      Safe (steps site) (Guarded s aligned vetted) (OnOk T) f.run h') :
    Safe (steps site) (Guarded s aligned vetted) (OnOk T)
      (do State.writeActive s c
          State.writeActiveSha s sha
          f : Result Unit).run h := by
  refine Safe.bindE (writeActive_guarded guard) ?_ fun _ _ _ => trivial
  intro _ h₁ recorded
  obtain ⟨same, active⟩ := recorded
  refine (Spec.frame (P := (· = .sha s)) writeActiveSha_only).bindE ?_ ?_ fun _ _ _ _ => trivial
  · exact fun x _ _ _ _ hx _ => guard_of_idle (by simp [hx]) (by simp [hx, Part.act])
  · intro _ h₂ wrote _
    refine next h₂ ((same.mono fun _ => .inl).trans (wrote.mono fun _ => .inr)) ?_
    rw [wrote.active (by simp)]
    exact active

theorem switchOver_guarded (hd : d ∈ site.services.defs) {k : Container}
    (active : h.active d.service = some a) (slot : h.slot d.service (flip a) = some k)
    (running : k.running = true) (vet : vetted → k.healthPassed = true) :
    Safe (steps site) (Guarded d.service aligned vetted) (OnOk fun _ => Promoted d (flip a) h)
      (switchOver d sha a (flip a)).run h := by
  refine record_guarded ⟨by simpa using active, k, by simpa using slot, running, vet⟩ ?_
  intro h₁ recorded active
  refine Safe.bindE (applyAll_guarded ⟨d, hd, rfl⟩) ?_ fun _ _ _ => trivial
  intro _ h₂ applied
  obtain ⟨same, faithful⟩ := applied
  apply retire_guarded
  refine ⟨(same.active (by simp)).trans active, (same.slot (by simp)).trans ?_, ?_⟩
  · exact recorded.slot (by simp)
  · rw [faithful d hd]
    simp [Host.colorOf, active]

/-- What `cutover` may be started with: the inactive container, if it is up, is fit to serve. -/
def Fit (d : ServiceDef) (c : Color) (vetted : Prop) (h : Host) : Prop :=
  vetted → ∀ k, h.slot d.service c = some k → k.running = true → k.healthPassed = true

theorem cutover_guarded (hd : d ∈ site.services.defs) (active : h.active d.service = some a)
    (fit : Fit d (flip a) vetted h) :
    Safe (steps site) (Guarded d.service aligned vetted)
      (OnOk fun _ h' => h.Up d.service (flip a) ∧ Promoted d (flip a) h h')
      (cutover d sha a (flip a)).run h := by
  refine containerRunning_spec.bindE reads_guarded ?_ fun _ _ _ _ => trivial
  intro up h₁ same inspected
  cases same.eq_of_reads
  obtain ⟨_, seen, hup⟩ := inspected
  cases seen
  cases up with
  | true =>
    have up := hup rfl
    obtain ⟨k, slot, running⟩ := up
    exact (switchOver_guarded hd active slot running fun hv => fit hv k slot running).post
      fun _ _ promoted => promoted.mono fun _ promoted => ⟨⟨k, slot, running⟩, promoted⟩
  | false => trivial

/-- `b` serves a healthy container of `sha`. -/
structure Deployed (d : ServiceDef) (sha : String) (b : Color) (h : Host) : Prop where
  active : h.active d.service = some b
  slot : h.slot d.service b = some (d.healthy sha)
  routed : h.proxy.loaded.colorOf d.service = b

theorem redeploy_guarded (hd : d ∈ site.services.defs) (based : h.Based d.service a aligned) :
    Safe (steps site) (Guarded d.service aligned vetted) (OnOk fun _ => Deployed d sha (flip a))
      (redeploy d sha a).run h := by
  refine startInactive_spec.bindE (touches_guarded based rfl) ?_ fun _ _ _ _ => trivial
  intro _ h₁ same started
  have started : h₁.slot d.service (flip a) = some (d.healthy sha) := started
  have fit : Fit d (flip a) vetted h₁ := by
    intro _ k slot _
    rw [started] at slot
    cases slot
    rfl
  refine (cutover_guarded hd ((same.active (by simp)).trans based.active) fit).post ?_
  intro _ h₂ done
  apply done.mono
  intro _ ⟨_, promoted⟩
  exact ⟨promoted.active, promoted.slot.trans started, promoted.routed⟩

/-- Caddy, where it routes the service at all, routes it to the recorded color. -/
def Host.Aligned (h : Host) (s : String) : Prop := (h.view s).Aligned

theorem Host.Aligned.based (al : aligned → h.Aligned s) (active : h.active s = some a) :
    h.Based s a aligned where
  active := active
  apart hA routed := ne_flip a (Option.some_inj.mp (active.symm.trans (al hA _ routed)))

/-- How a deploy can succeed: there was nothing to do, or the other color serves `sha`. -/
def DeployDone (d : ServiceDef) (sha : String) (h h' : Host) : Prop :=
  ∃ a, h.active d.service = some a ∧
    (h.state.activeSha d.service = some sha ∧ h.Up d.service a ∧ h' = h ∨
      Deployed d sha (flip a) h')

theorem deployService_guarded (hd : d ∈ site.services.defs)
    (al : aligned → h.Aligned d.service) :
    Safe (steps site) (Guarded d.service aligned vetted) (OnOk fun _ => DeployDone d sha h)
      (deployService d sha).run h := by
  refine (Spec.frame (P := reads) preflight_only).bindE reads_guarded ?_ fun _ _ _ _ => trivial
  intro _ h₁ same _
  cases same.eq_of_reads
  refine (Spec.frame (P := reads) ensureNetwork_only).bindE reads_guarded ?_ fun _ _ _ _ => trivial
  intro _ h₁ same _
  cases same.eq_of_reads
  refine readActive_spec.bindE reads_guarded ?_ fun _ _ _ _ => trivial
  intro a h₁ same active
  cases same.eq_of_reads
  have active : h.active d.service = some a := active.symm
  refine readActiveSha_spec.bindE reads_guarded ?_ fun _ _ _ _ => trivial
  intro recorded h₁ same sha_eq
  cases same.eq_of_reads
  cases sha_eq
  have full : Safe (steps site) (Guarded d.service aligned vetted)
      (OnOk fun _ => DeployDone d sha h) (redeploy d sha a).run h :=
    (redeploy_guarded hd (Host.Aligned.based al active)).post
      fun _ _ done => done.mono fun _ done => ⟨a, active, .inr done⟩
  split
  · next same_sha =>
    refine containerRunning_spec.bindE reads_guarded ?_ fun _ _ _ _ => trivial
    intro up h₁ same inspected
    cases same.eq_of_reads
    obtain ⟨_, seen, hup⟩ := inspected
    cases seen
    cases up with
    | true => exact ⟨a, active, .inl ⟨same_sha, hup rfl, rfl⟩⟩
    | false => exact full
  · exact full

theorem run_guarded (al : aligned → h.Aligned s) :
    Safe (steps site) (Guarded s aligned vetted)
      (OnOk fun _ h' => ∃ d, site.services.load s = some d ∧ DeployDone d sha h h')
      (Deploy.run s sha).run h := by
  refine loadDef_spec.bindE reads_guarded ?_ fun _ _ _ _ => trivial
  intro d h₁ same loaded
  cases same.eq_of_reads
  have service := Services.load_service loaded
  subst service
  exact (deployService_guarded (Services.load_mem loaded) al).post
    fun _ _ done => done.mono fun _ done => ⟨d, loaded, done⟩

/-- How `run_start_inactive` succeeds: nothing but the inactive container has changed, and it is
healthy. -/
structure Started (d : ServiceDef) (sha : String) (h : Host) (b : Color) (h' : Host) : Prop where
  active : h.active d.service = some (flip b)
  same : h.SameBut (touches (containerName d.service b)) h'
  slot : h'.slot d.service b = some (d.healthy sha)

theorem runStartInactive_guarded (al : aligned → h.Aligned s) :
    Safe (steps site) (Guarded s aligned vetted)
      (OnOk fun b h' => ∃ d, site.services.load s = some d ∧ Started d sha h b h')
      (runStartInactive s sha).run h := by
  refine loadDef_spec.bindE reads_guarded ?_ fun _ _ _ _ => trivial
  intro d h₁ same loaded
  cases same.eq_of_reads
  have service := Services.load_service loaded
  subst service
  refine (Spec.frame (P := reads) preflight_only).bindE reads_guarded ?_ fun _ _ _ _ => trivial
  intro _ h₁ same _
  cases same.eq_of_reads
  refine (Spec.frame (P := reads) ensureNetwork_only).bindE reads_guarded ?_ fun _ _ _ _ => trivial
  intro _ h₁ same _
  cases same.eq_of_reads
  refine readActive_spec.bindE reads_guarded ?_ fun _ _ _ _ => trivial
  intro a h₁ same active
  cases same.eq_of_reads
  have active : h.active d.service = some a := active.symm
  have based := Host.Aligned.based al active
  refine startInactive_spec.bindE (touches_guarded based rfl) ?_ fun _ _ _ _ => trivial
  intro _ h₁ same started
  exact ⟨d, loaded, by simpa using active, same, started⟩

/-! ### Cutover, cancel and rollback -/

/-- `b` is recorded, up and routed to. -/
structure Switched (s : String) (b : Color) (h : Host) : Prop where
  active : h.active s = some b
  up : h.Up s b
  routed : h.proxy.loaded.colorOf s = b

theorem Promoted.switched (promoted : Promoted d b h h') (up : h.Up d.service b) :
    Switched d.service b h' where
  active := promoted.active
  up := by
    rw [Host.up_iff, promoted.slot]
    exact up
  routed := promoted.routed

theorem Deployed.switched (deployed : Deployed d sha b h) : Switched d.service b h :=
  ⟨deployed.active, ⟨_, deployed.slot, rfl⟩, deployed.routed⟩

/-- If the inactive container already runs `sha`, it has passed its health check. -/
def Host.Vetted (h : Host) (d : ServiceDef) (sha : String) : Prop :=
  ∀ a k, h.active d.service = some a → h.slot d.service (flip a) = some k →
    k.running = true → k.image = d.imageRef sha → k.healthPassed = true

theorem Host.Runs.fit (runs : h.Runs d (flip a) sha) (active : h.active d.service = some a)
    (vet : vetted → h.Vetted d sha) : Fit d (flip a) vetted h := by
  intro hv k slot running
  obtain ⟨k', slot', _, image⟩ := runs
  rw [slot] at slot'
  cases slot'
  exact vet hv a k active slot running image

theorem staged_guarded (hd : d ∈ site.services.defs) (active : h.active d.service = some a)
    (runs : h.Runs d (flip a) sha) (vet : vetted → h.Vetted d sha) :
    Safe (steps site) (Guarded d.service aligned vetted)
      (OnOk fun _ => Switched d.service (flip a)) (cutover d sha a (flip a)).run h :=
  (cutover_guarded hd active (runs.fit active vet)).post
    fun _ _ done => done.mono fun _ done => done.2.switched done.1

theorem promote_guarded (hd : d ∈ site.services.defs) (based : h.Based d.service a aligned)
    (vet : vetted → h.Vetted d sha) :
    Safe (steps site) (Guarded d.service aligned vetted)
      (OnOk fun _ => Switched d.service (flip a)) (promote d sha a).run h := by
  refine containerRunsImage_spec.bindE reads_guarded ?_ fun _ _ _ _ => trivial
  intro runs h₁ same inspected
  cases same.eq_of_reads
  obtain ⟨_, seen, hruns⟩ := inspected
  cases seen
  cases runs with
  | true => exact staged_guarded hd based.active (hruns rfl) vet
  | false =>
    exact (redeploy_guarded hd based).post fun _ _ done => done.mono fun _ done => done.switched

/-- The container of color `a` was made from the newest local image. -/
def Host.Newest (h : Host) (s : String) (a : Color) : Prop :=
  ∃ n k, (h.localImages s).head? = some n ∧ h.slot s a = some k ∧ k.image = n.tag

/-- How a cutover can succeed: there is nothing newer to cut over to, or the other color takes
over. -/
def CutoverDone (d : ServiceDef) (shaOpt preview : Option String) (h h' : Host) : Prop :=
  ∃ a, h.active d.service = some a ∧
    ((shaOpt = none ∧ preview = none ∧ h.Newest d.service a) ∧ h' = h ∨
      Switched d.service (flip a) h')

theorem runCutover_guarded {shaOpt preview : Option String} (al : aligned → h.Aligned s)
    (vet : vetted → ∀ d, site.services.load s = some d →
      ∀ sha, cutoverSha shaOpt preview (h.localImages s).head? = some sha → h.Vetted d sha) :
    Safe (steps site) (Guarded s aligned vetted)
      (OnOk fun _ h' => ∃ d, site.services.load s = some d ∧ CutoverDone d shaOpt preview h h')
      (runCutover s shaOpt preview).run h := by
  refine loadDef_spec.bindE reads_guarded ?_ fun _ _ _ _ => trivial
  intro d h₁ same loaded
  cases same.eq_of_reads
  have vet := fun hv => vet hv d loaded
  have service := Services.load_service loaded
  subst service
  have hd := Services.load_mem loaded
  refine readActive_spec.bindE reads_guarded ?_ fun _ _ _ _ => trivial
  intro a h₁ same active
  cases same.eq_of_reads
  have active : h.active d.service = some a := active.symm
  refine previewStaged_spec.bindE reads_guarded ?_ fun _ _ _ _ => trivial
  intro staged h₁ same inspected
  cases same.eq_of_reads
  obtain ⟨_, seen, hstaged⟩ := inspected
  cases seen
  refine listLocal_spec.bindE reads_guarded ?_ fun _ _ _ _ => trivial
  intro images h₁ same listed
  cases same.eq_of_reads
  have listed : images = h.localImages d.service := listed
  subst listed
  refine containerImageTag_spec.bindE reads_guarded ?_ fun _ _ _ _ => trivial
  intro tag h₁ same inspected
  cases same.eq_of_reads
  obtain ⟨_, seen, htag⟩ := inspected
  cases seen
  have switched {p : Result Unit}
      (hp : Safe (steps site) (Guarded d.service aligned vetted)
        (OnOk fun _ => Switched d.service (flip a)) p.run h) :
      Safe (steps site) (Guarded d.service aligned vetted)
        (OnOk fun _ h' => ∃ d', site.services.load d.service = some d' ∧
          CutoverDone d' shaOpt preview h h') p.run h :=
    hp.post fun _ _ done => done.mono fun _ done => ⟨d, loaded, a, active, .inr done⟩
  split
  · next sha plan =>
    obtain ⟨on, staging, resolved⟩ := planCutover_staged plan
    obtain ⟨p, was, runs⟩ := hstaged on
    cases staging.symm.trans was
    exact switched (staged_guarded hd active runs fun hv => vet hv sha resolved)
  · next sha plan =>
    exact switched (promote_guarded hd (Host.Aligned.based al active)
      fun hv => vet hv sha (planCutover_promote plan))
  · next plan =>
    obtain ⟨noSha, noPreview, n, newest, same⟩ := planCutover_nothingNewer plan
    refine ⟨d, loaded, a, active, .inl ⟨⟨noSha, noPreview, n, ?_⟩, rfl⟩⟩
    cases tag with
    | none =>
      have mem : n ∈ h.localImages d.service := List.mem_of_mem_head? newest
      exact absurd same (Images.localImages_tag_ne mem)
    | some i =>
      obtain ⟨k, slot, image⟩ := htag i rfl
      exact ⟨k, newest, slot, image.trans same.symm⟩
  · trivial
  · trivial

theorem runCancelInactive_guarded (al : aligned → h.Aligned s) :
    Safe (steps site) (Guarded s aligned vetted)
      (OnOk fun _ h' => ∃ d, site.services.load s = some d ∧ h'.active s = h.active s)
      (runCancelInactive s).run h := by
  refine loadDef_spec.bindE reads_guarded ?_ fun _ _ _ _ => trivial
  intro d h₁ same loaded
  cases same.eq_of_reads
  have service := Services.load_service loaded
  subst service
  refine readActive_spec.bindE reads_guarded ?_ fun _ _ _ _ => trivial
  intro a h₁ same active
  cases same.eq_of_reads
  have based := Host.Aligned.based al active.symm
  refine (Spec.frame (P := touches _) stopContainer_only).bindE (touches_guarded based rfl) ?_
    fun _ _ _ _ => trivial
  intro _ h₁ stopped _
  have based := based.keep stopped (by simp) (by simp)
  refine (Spec.frame (P := touches _) removeContainerIfExists_only).bindE
    (touches_guarded based rfl) ?_ fun _ _ _ _ => trivial
  intro _ h₂ removed _
  refine (Spec.frame (P := quiets) prune_only).safe quiet_guarded ?_
  intro r h₃ pruned _
  cases r with
  | error e => trivial
  | ok =>
    have same := (stopped.trans removed).trans (pruned.mono fun _ => .inl)
    exact ⟨d, loaded, same.active (by simp)⟩

theorem finishRollback_guarded (hd : d ∈ site.services.defs)
    (based : h.Based d.service a aligned) :
    Safe (steps site) (Guarded d.service aligned vetted)
      (OnOk fun _ => Switched d.service (flip a))
      (Ui.finishRollback d d.service (flip a) sha).run h := by
  refine (attempt_spec pollHealth_spec).bindE (touches_guarded based rfl) ?_ fun _ _ _ _ => trivial
  intro polled h₁ same passed
  have based := based.keep same (by simp) (by simp)
  cases polled with
  | error e =>
    refine (Spec.frame (P := touches _) (attempt_only stopContainer_only)).bindE
      (touches_guarded based rfl) ?_ fun _ _ _ _ => trivial
    exact fun _ _ _ _ => trivial
  | ok =>
    obtain ⟨k, _, running, slot⟩ := passed
    have slot : h₁.slot d.service (flip a) = some { k with healthPassed := true } := slot
    refine record_guarded ⟨by simpa using based.active, _, slot, running, fun _ => rfl⟩ ?_
    intro h₂ recorded active
    refine Safe.liftE (applyAll_guarded ⟨d, hd, rfl⟩) ?_
    intro applied h₃ both
    obtain ⟨kept, faithful⟩ := both
    cases applied with
    | error e => trivial
    | ok =>
      have up : h₁.Up d.service (flip a) := ⟨_, slot, running⟩
      have promoted : Promoted d (flip a) h₁ h₃ := by
        refine ⟨(kept.active (by simp)).trans active, (kept.slot (by simp)).trans ?_, ?_⟩
        · exact recorded.slot (by simp)
        · rw [faithful d hd]
          simp [Host.colorOf, active]
      rw [flip_flip]
      exact (stopOld_guarded promoted).post
        fun _ _ done => done.mono fun _ done => done.switched up

theorem doRollback_guarded (hd : d ∈ site.services.defs) (based : h.Based d.service a aligned) :
    Safe (steps site) (Guarded d.service aligned vetted)
      (OnOk fun _ => Switched d.service (flip a))
      (Ui.doRollback d d.service (flip a)).run h := by
  apply call_safe
  intro info h₁ step
  refine ⟨guard_of_reads rfl, ?_⟩
  cases reads_step step rfl
  cases info with
  | error e => trivial
  | ok info =>
    dsimp only
    split
    · trivial
    · apply call_safe
      intro started h₁ step
      have same : h.SameBut (touches (containerName d.service (flip a))) h₁ :=
        steps_sameBut step (.inr rfl)
      refine ⟨guard_of_touches (.inr rfl) based, ?_⟩
      cases started with
      | error e => trivial
      | ok => exact finishRollback_guarded hd (based.keep same (by simp) (by simp))

end Codery
