import Codery.Commands
import Codery.Diagnose
import Codery.Effect.Follow

/-! Footprints: which parts of the host each program can change. -/

namespace Codery

open Effect Prog

variable {P : Call → Prop} {α β : Type}

def Reads (c : Call) : Prop := c.part = .nothing

def Quiet (c : Call) : Prop := c.part.quiet = true

/-- A call that changes container `n`, and is quiet otherwise. -/
def Touches (n : String) (c : Call) : Prop := c.part.quiet = true ∨ c.part = .container n

theorem Reads.quiet {c : Call} (h : Reads c) : Quiet c := by
  unfold Quiet
  rw [show c.part = .nothing from h]
  rfl

/-- A call that changes the Caddyfile or what Caddy has loaded, and is quiet otherwise. -/
def Reloads (c : Call) : Prop := c.part.quiet = true ∨ c.part = .caddyfile ∨ c.part = .loaded

theorem quiet_of_reads {p : Prog sig α} (hp : p.Only Reads) : p.Only Quiet :=
  hp.mono fun _ => Reads.quiet

theorem touches_of_quiet {n : String} {p : Prog sig α} (hp : p.Only Quiet) : p.Only (Touches n) :=
  hp.mono fun _ => .inl

theorem reloads_of_quiet {p : Prog sig α} (hp : p.Only Quiet) : p.Only Reloads :=
  hp.mono fun _ => .inl

theorem call_only {c : Call} {f : c.Reply → Result α} (hc : P c) (hf : ∀ r, (f r).run.Only P) :
    (call c >>= f).run.Only P := ⟨hc, hf⟩

@[simp] theorem pure_only (a : α) : (pure a : Result α).run.Only P := trivial

@[simp] theorem throw_only (e : String) : (throw e : Result α).run.Only P := trivial

@[simp] theorem ofExcept_only (x : Except String α) : (ofExcept x).run.Only P := by
  cases x <;> trivial

@[simp] theorem context_only {ε : Type} (message : String) (x : Except ε α) :
    (context message x).run.Only P := by
  cases x <;> trivial

@[simp] theorem tolerate_only (codes : List Nat) (message : String) (r : Except Docker.Error Unit) :
    (Deploy.tolerate codes message r).run.Only P := by
  cases r with
  | ok => trivial
  | error e =>
    simp only [Deploy.tolerate]
    split <;> trivial

theorem attempt_only {x : Result α} (hx : x.run.Only P) : (attempt x).run.Only P := Only.liftE hx

theorem ite_only {p : Prop} [Decidable p] {x y : Result α} (hx : x.run.Only P)
    (hy : y.run.Only P) : (if p then x else y).run.Only P := by
  split
  · exact hx
  · exact hy

theorem ite_uses {γ : Type} {b : Prog sig γ} {p : Prop} [Decidable p] {x y : Result α}
    (hx : Uses P b x.run) (hy : Uses P b y.run) : Uses P b (if p then x else y : Result α).run := by
  split
  · exact hx
  · exact hy

/-! ### Reading the host -/

variable {s : String} {c : Color}

theorem readActive_only : (State.readActive s).run.Only Reads := by
  refine call_only rfl fun r => ?_
  cases r <;> trivial

theorem writeActive_only : (State.writeActive s c).run.Only fun x : Call => x.part = .color s :=
  call_only rfl (context_only _)

theorem writeActiveSha_only {sha : String} :
    (State.writeActiveSha s sha).run.Only fun x : Call => x.part = .sha s :=
  call_only rfl (context_only _)

theorem colorOrBlue_only : (Caddy.colorOrBlue s).run.Only Reads :=
  Only.bindE (attempt_only readActive_only) fun _ => trivial

theorem readActiveSha_only : (State.readActiveSha s).run.Only Reads := by
  refine call_only rfl fun r => ?_
  cases r <;> trivial

theorem loadService_only : (loadService s).run.Only Reads := call_only rfl ofExcept_only

theorem loadAll_only : loadAll.run.Only Reads := call_only rfl ofExcept_only

theorem loadDef_only : (Deploy.loadDef s).run.Only Reads :=
  Only.bindE (attempt_only loadService_only) fun _ => context_only _ _

theorem preflight_only : Deploy.preflight.run.Only Reads := call_only rfl ofExcept_only

theorem ensureNetwork_only {n : String} : (Deploy.ensureNetwork n).run.Only Reads :=
  call_only rfl (tolerate_only _ _)

theorem containerRunning_only {n : String} : (Deploy.containerRunning n).run.Only Reads := by
  refine call_only rfl fun r => ?_
  cases r <;> trivial

theorem containerImageTag_only {n : String} : (Deploy.containerImageTag n).run.Only Reads := by
  refine call_only rfl fun r => ?_
  cases r <;> trivial

theorem containerRunsImage_only {d : ServiceDef} {sha : String} :
    (Deploy.containerRunsImage d c sha).run.Only Reads := by
  refine call_only rfl fun r => ?_
  cases r <;> trivial

theorem previewStaged_only {d : ServiceDef} {preview : Option String} :
    (Deploy.previewStaged d c preview).run.Only Reads := by
  cases preview with
  | none => trivial
  | some p => exact containerRunsImage_only

theorem listImages_only : (Images.listImages s).run.Only Reads := call_only rfl (context_only _)

theorem listLocal_only : (Images.listLocal s).run.Only Reads :=
  Only.bindE listImages_only fun _ => trivial

theorem removeOld_only (images : List Image) : (Images.removeOld images).run.Only Quiet := by
  induction images with
  | nil => trivial
  | cons i images ih => exact call_only rfl fun _ => ih

theorem prune_only : (Images.prune s).run.Only Quiet :=
  Only.bindE (quiet_of_reads listImages_only) fun _ => removeOld_only _

theorem portConflicts_only (active : List UInt16) (ports : List (UInt16 × UInt16)) :
    (Validate.portConflicts active ports).run.Only Reads := by
  induction ports with
  | nil => trivial
  | cons p ports ih =>
    apply ite_only ih
    refine call_only rfl fun r => ?_
    exact Only.bindE ih fun _ => trivial

theorem checkDeploy_only {d : ServiceDef} {sha : String} :
    (Validate.checkDeploy d sha c).run.Only Quiet := by
  refine call_only rfl fun missing => ?_
  refine call_only rfl fun pulled => ?_
  refine Only.bindE (quiet_of_reads (attempt_only readActive_only)) fun active => ?_
  refine Only.bindE (quiet_of_reads (portConflicts_only _ _)) fun conflicts => ?_
  exact ite_only trivial trivial

/-! ### The database and the proxies -/

theorem listApps_only : Db.listApps.run.Only Reads := call_only rfl (context_only _)

theorem listPreviews_only : Db.listPreviews.run.Only Reads := call_only rfl (context_only _)

theorem findPreview_only : (Db.findPreview s).run.Only Reads :=
  Only.bindE listPreviews_only fun _ => trivial

theorem connect_only : Db.connect.run.Only Reads := call_only rfl (context_only _)

/-- A call that changes no more than the tables of the database. -/
def Migrates (c : Call) : Prop := c.part = .nothing ∨ c.part = .tables

theorem quiet_of_migrates {p : Prog sig α} (hp : p.Only Migrates) : p.Only Quiet := by
  refine hp.mono fun c hc => ?_
  unfold Quiet
  rcases hc with same | same <;> simp [same]

theorem init_only : Db.init.run.Only Migrates := by
  refine call_only (.inr rfl) fun r => ?_
  refine Only.bindE (context_only _ _) fun _ => ?_
  refine call_only (.inr rfl) fun _ => ?_
  refine call_only (.inr rfl) fun _ => ?_
  exact call_only (.inr rfl) (context_only _)

theorem deletePreview_only :
    (Db.deletePreview s).run.Only fun x : Call => x.part = .previews :=
  call_only rfl fun _ => Only.bindE (context_only _ _) fun _ => trivial

theorem upsertPreview_only {p : PreviewRecord} :
    (Db.upsertPreview p).run.Only fun x : Call => x.part = .previews :=
  call_only rfl (context_only _)

theorem routeMap_only : Db.routeMap.run.Only Reads := by
  refine Only.bindE loadAll_only fun defs => ?_
  refine call_only rfl fun statics => ?_
  refine Only.bindE listApps_only fun apps => ?_
  exact Only.bindE listPreviews_only fun _ => trivial

theorem readColors_only (defs : List ServiceDef) : (Caddy.readColors defs).run.Only Reads := by
  induction defs with
  | nil => trivial
  | cons d defs ih =>
    refine Only.bindE colorOrBlue_only fun color => ?_
    exact Only.bindE ih fun _ => trivial

theorem reloadInActiveContainer_only : Nginx.reloadInActiveContainer.run.Only Reads := by
  refine Only.bindE (attempt_only readActive_only) fun active => ?_
  cases active with
  | error => trivial
  | ok color =>
    refine call_only rfl fun inspected => ?_
    cases inspected with
    | error => trivial
    | ok i =>
      refine ite_only (call_only rfl fun r => ?_) trivial
      exact Only.bindE (context_only _ _) fun _ => trivial

theorem generateAndReload_only : Nginx.generateAndReload.run.Only Quiet := by
  refine Only.bindE (quiet_of_reads connect_only) fun _ => ?_
  refine Only.bindE (quiet_of_reads routeMap_only) fun routes => ?_
  refine call_only rfl fun domain => ?_
  refine call_only rfl fun written => ?_
  refine Only.bindE (context_only _ _) fun _ => ?_
  exact quiet_of_reads reloadInActiveContainer_only

theorem applyAll_only : Caddy.applyAll.run.Only Reloads := by
  refine Only.bindE (reloads_of_quiet (quiet_of_reads loadAll_only)) fun defs => ?_
  refine call_only (.inl rfl) fun domain => ?_
  refine Only.bindE (reloads_of_quiet (quiet_of_reads (readColors_only defs))) fun colors => ?_
  refine Only.bindE (reloads_of_quiet (quiet_of_reads connect_only)) fun _ => ?_
  refine Only.bindE (reloads_of_quiet (quiet_of_reads routeMap_only)) fun routes => ?_
  refine call_only (.inr (.inl rfl)) fun written => ?_
  refine Only.bindE (context_only _ _) fun _ => ?_
  exact call_only (.inr (.inr rfl)) (context_only _)

theorem reloadProxies_only : reloadProxies.run.Only Reloads :=
  Only.bindE applyAll_only fun _ => reloads_of_quiet generateAndReload_only

/-- The calls of `apply_all` and of `generate_and_reload`. -/
def Routing : Call → Prop
  | .loadAll => True
  | .loadDomain => True
  | .loadStaticRoutes => True
  | .proxy _ => True
  | .state (.readColor _) => True
  | .db .open => True
  | .db .selectApps => True
  | .db .selectPreviews => True
  | .docker (.inspectContainer _) => True
  | .docker (.containerExec _ cmd) => cmd = ["nginx", "-c", "/etc/nginx/nginx.conf", "-s", "reload"]
  | _ => False

theorem readActive_routing : (State.readActive s).run.Only Routing := by
  refine call_only trivial fun r => ?_
  cases r <;> trivial

theorem routeMap_routing : Db.routeMap.run.Only Routing := by
  refine call_only trivial fun loaded => Only.bindE (ofExcept_only loaded) fun defs => ?_
  refine call_only trivial fun statics => ?_
  refine Only.bindE (call_only trivial (context_only _)) fun apps => ?_
  exact Only.bindE (call_only trivial (context_only _)) fun _ => trivial

theorem readColors_routing (defs : List ServiceDef) : (Caddy.readColors defs).run.Only Routing := by
  induction defs with
  | nil => trivial
  | cons d defs ih =>
    refine Only.bindE ?_ fun color => Only.bindE ih fun _ => trivial
    exact Only.bindE (attempt_only readActive_routing) fun _ => trivial

theorem applyAll_routing : Caddy.applyAll.run.Only Routing := by
  refine call_only trivial fun loaded => Only.bindE (ofExcept_only loaded) fun defs => ?_
  refine call_only trivial fun domain => ?_
  refine Only.bindE (readColors_routing defs) fun colors => ?_
  refine call_only trivial fun opened => Only.bindE (context_only _ _) fun _ => ?_
  refine Only.bindE routeMap_routing fun routes => ?_
  refine call_only trivial fun written => Only.bindE (context_only _ _) fun _ => ?_
  exact call_only trivial (context_only _)

theorem reloadInActiveContainer_routing : Nginx.reloadInActiveContainer.run.Only Routing := by
  refine Only.bindE (attempt_only readActive_routing) fun active => ?_
  cases active with
  | error => trivial
  | ok color =>
    refine call_only trivial fun inspected => ?_
    cases inspected with
    | error => trivial
    | ok i =>
      refine ite_only (call_only rfl fun r => ?_) trivial
      exact Only.bindE (context_only _ _) fun _ => trivial

theorem generateAndReload_routing : Nginx.generateAndReload.run.Only Routing := by
  refine call_only trivial fun opened => Only.bindE (context_only _ _) fun _ => ?_
  refine Only.bindE routeMap_routing fun routes => ?_
  refine call_only trivial fun domain => ?_
  refine call_only trivial fun written => ?_
  exact Only.bindE (context_only _ _) fun _ => reloadInActiveContainer_routing

theorem reloadAfter_routing {done : String} : (Mcp.reloadAfter done).run.Only Routing := by
  refine Only.bindE (attempt_only applyAll_routing) fun applied => ?_
  refine Only.bindE (context_only _ _) fun _ => ?_
  exact Only.bindE (attempt_only generateAndReload_routing) fun _ => context_only _ _

theorem inspectContainer_only {n : String} : (Diagnose.inspectContainer n).run.Only Reads := by
  refine call_only rfl fun r => ?_
  cases r <;> trivial

theorem checkServices_only (previews : List PreviewRecord) (defs : List ServiceDef) :
    (Diagnose.checkServices previews defs).run.Only Reads := by
  induction defs with
  | nil => trivial
  | cons d defs ih =>
    refine Only.bindE ?_ fun issue => Only.bindE ih fun _ => trivial
    refine Only.bindE colorOrBlue_only fun color => ?_
    refine Only.bindE inspectContainer_only fun blue => ?_
    exact Only.bindE inspectContainer_only fun green => trivial

theorem routeHostPort_only {target : String} {port : UInt16} :
    (Diagnose.routeHostPort target port c).run.Only Reads := by
  refine ite_only trivial (ite_only ?_ ?_)
  · cases c <;> trivial
  · refine Only.bindE (attempt_only loadService_only) fun loaded => ?_
    cases loaded <;> trivial

theorem checkRoutes_only (services : List Diagnose.ServiceIssue) (domain : String)
    (listening : List UInt16) (routes : List UnifiedRoute) :
    (Diagnose.checkRoutes services domain listening routes).run.Only Reads := by
  induction routes with
  | nil => trivial
  | cons r rest ih =>
    refine Only.bindE routeHostPort_only fun hostPort => ?_
    exact Only.bindE ih fun issues => ite_only trivial trivial

theorem diagnose_only : Diagnose.run.run.Only Quiet := by
  refine Only.bindE (quiet_of_reads (attempt_only loadAll_only)) fun loaded => ?_
  refine Only.bindE (context_only _ _) fun defs => ?_
  refine Only.bindE (quiet_of_reads (attempt_only connect_only)) fun connected => ?_
  refine Only.bindE (context_only _ _) fun _ => ?_
  refine Only.bindE (attempt_only (quiet_of_migrates init_only)) fun migrated => ?_
  refine Only.bindE (context_only _ _) fun _ => ?_
  refine Only.bindE (quiet_of_reads (attempt_only listPreviews_only)) fun listed => ?_
  refine Only.bindE (context_only _ _) fun previews => ?_
  refine Only.bindE (quiet_of_reads (checkServices_only _ _)) fun services => ?_
  refine Only.bindE (quiet_of_reads (attempt_only routeMap_only)) fun mapped => ?_
  refine Only.bindE (context_only _ _) fun unified => ?_
  refine call_only rfl fun domain => ?_
  refine call_only rfl fun listening => ?_
  exact Only.bindE (quiet_of_reads (checkRoutes_only _ _ _ _)) fun _ => trivial

/-! ### Changing one container -/

variable {n : String}

theorem removeContainerIfExists_only : (Deploy.removeContainerIfExists n).run.Only (Touches n) :=
  call_only (.inr rfl) (tolerate_only _ _)

theorem stopContainer_only : (Deploy.stopContainer n).run.Only (Touches n) :=
  call_only (.inr rfl) (tolerate_only _ _)

theorem startContainer_only {d : ServiceDef} {sha : String} :
    (Deploy.startContainer d sha c).run.Only (Touches (containerName d.service c)) := by
  refine call_only (.inl rfl) fun settings => ?_
  refine Only.bindE (ofExcept_only _) fun _ => ?_
  refine call_only (.inr rfl) fun created => ?_
  refine Only.bindE (context_only _ _) fun _ => ?_
  exact call_only (.inr rfl) (context_only _)

theorem ensureNginxConfig_only : Deploy.ensureNginxConfig.run.Only Quiet := by
  refine call_only rfl fun present => ?_
  exact ite_only trivial (call_only rfl ofExcept_only)

theorem waitForTcpInContainer_only {port : UInt16} (attempts : Nat) :
    (Deploy.waitForTcpInContainer n port attempts).run.Only (Touches n) := by
  induction attempts with
  | zero => trivial
  | succ attempts ih => exact call_only (.inr rfl) fun _ => ite_only trivial ih

theorem waitForDockerHealthy_only (seconds : Nat) :
    (Deploy.waitForDockerHealthy n seconds).run.Only (Touches n) := by
  induction seconds with
  | zero => trivial
  | succ seconds ih =>
    refine call_only (.inr rfl) fun r => ?_
    cases r with
    | error => trivial
    | ok status =>
      cases status with
      | none | starting => exact ih
      | healthy | unhealthy => trivial

theorem awaitHealth_only {d : ServiceDef} {cleanup : String → Result Unit}
    (hc : ∀ n, (cleanup n).run.Only (Touches n)) :
    (Deploy.awaitHealth cleanup d c).run.Only (Touches (containerName d.service c)) := by
  unfold Deploy.awaitHealth
  split
  · refine Only.bindE (ofExcept_only _) fun port => ?_
    refine Only.bindE (waitForTcpInContainer_only _) fun passed => ?_
    exact ite_only trivial (Only.bindE (hc _) fun _ => trivial)
  · refine Only.bindE (waitForDockerHealthy_only _) fun passed => ?_
    exact ite_only trivial (Only.bindE (hc _) fun _ => trivial)

theorem healthCheck_only {d : ServiceDef} :
    (Deploy.healthCheck d c).run.Only (Touches (containerName d.service c)) :=
  awaitHealth_only fun _ => removeContainerIfExists_only

theorem pollHealth_only {d : ServiceDef} :
    (Deploy.pollHealth d c).run.Only (Touches (containerName d.service c)) :=
  awaitHealth_only fun _ => trivial

theorem startInactive_only {d : ServiceDef} {sha : String} :
    (Deploy.startInactive d sha c).run.Only (Touches (containerName d.service c)) := by
  refine Only.bindE (touches_of_quiet checkDeploy_only) fun _ => ?_
  refine Only.bindE removeContainerIfExists_only fun _ => ?_
  refine Only.bindE (touches_of_quiet ensureNginxConfig_only) fun _ => ?_
  refine Only.bindE startContainer_only fun _ => ?_
  exact healthCheck_only

/-! ### Deploying: everything but the previews and the locks -/

def Works (c : Call) : Prop := c.part ≠ .previews ∧ ∀ s, c.part ≠ .lock s

/-- A call that leaves the Caddyfile and what Caddy has loaded alone. -/
def SparesCaddy (c : Call) : Prop := c.part ≠ .caddyfile ∧ c.part ≠ .loaded

/-- A call of a deployment, outside `apply_all`. -/
def Labors (c : Call) : Prop := Works c ∧ SparesCaddy c

/-- `x` reaches Caddy through `apply_all` only; its other calls satisfy `P`. -/
abbrev Applies (P : Call → Prop) (x : Result α) : Prop := Uses P Caddy.applyAll.run x.run

theorem labors_of_quiet {p : Prog sig α} (hp : p.Only Quiet) : p.Only Labors := by
  refine hp.mono fun c hc => ⟨⟨fun same => ?_, fun s same => ?_⟩, fun same => ?_, fun same => ?_⟩ <;>
    rw [Quiet, same] at hc <;> cases hc

theorem labors_of_touches {p : Prog sig α} (hp : p.Only (Touches n)) : p.Only Labors := by
  refine hp.mono fun c hc => ⟨⟨fun same => ?_, fun s same => ?_⟩, fun same => ?_, fun same => ?_⟩ <;>
    rcases hc with hc | hc <;> rw [same] at hc <;> cases hc

theorem works_of_reloads {p : Prog sig α} (hp : p.Only Reloads) : p.Only Works := by
  refine hp.mono fun c hc => ⟨fun same => ?_, fun s same => ?_⟩ <;>
    rcases hc with hc | hc | hc <;> rw [same] at hc <;> cases hc

theorem Applies.works {x : Result α} (h : Applies Labors x) : x.run.Only Works :=
  Uses.only (h.mono fun _ both => both.1) (works_of_reloads applyAll_only)

section Works

variable {d : ServiceDef} {sha : String} {a b : Color}

theorem uses_of_reads {b : Prog sig β} {x : Result α} (hx : x.run.Only Reads) :
    Uses Labors b x.run := .of_only (labors_of_quiet (quiet_of_reads hx))

theorem uses_of_quiet {b : Prog sig β} {x : Result α} (hx : x.run.Only Quiet) :
    Uses Labors b x.run := .of_only (labors_of_quiet hx)

theorem uses_of_touches {b : Prog sig β} {x : Result α} (hx : x.run.Only (Touches n)) :
    Uses Labors b x.run := .of_only (labors_of_touches hx)

/-- Recording a color and a SHA, and whatever comes next. -/
theorem record_uses {b : Prog sig β} {f : Result α} (hf : Uses Labors b f.run) :
    Uses Labors b (do
        State.writeActive s c
        State.writeActiveSha s sha
        f : Result α).run := by
  have color : ∀ x : Call, x.part = .color s → Labors x := fun _ hx => by
    simp [Labors, Works, SparesCaddy, hx]
  have recorded : ∀ x : Call, x.part = .sha s → Labors x := fun _ hx => by
    simp [Labors, Works, SparesCaddy, hx]
  refine Uses.bindE (.of_only (writeActive_only.mono color)) fun _ => ?_
  exact Uses.bindE (.of_only (writeActiveSha_only.mono recorded)) fun _ => hf

theorem switchOver_applies : Applies Labors (Deploy.switchOver d sha a b) := by
  apply record_uses
  refine Uses.bindE .self fun _ => ?_
  exact Uses.bindE (uses_of_touches stopContainer_only) fun _ => uses_of_quiet prune_only

theorem cutover_applies : Applies Labors (Deploy.cutover d sha a b) :=
  Uses.bindE (uses_of_reads containerRunning_only) fun _ => ite_uses switchOver_applies (.ret _)

theorem redeploy_applies : Applies Labors (Deploy.redeploy d sha a) :=
  Uses.bindE (uses_of_touches startInactive_only) fun _ => cutover_applies

theorem deployService_applies : Applies Labors (Deploy.deployService d sha) := by
  refine Uses.bindE (uses_of_reads preflight_only) fun _ => ?_
  refine Uses.bindE (uses_of_reads ensureNetwork_only) fun _ => ?_
  refine Uses.bindE (uses_of_reads readActive_only) fun active => ?_
  refine Uses.bindE (uses_of_reads readActiveSha_only) fun recorded => ?_
  refine ite_uses ?_ redeploy_applies
  exact Uses.bindE (uses_of_reads containerRunning_only) fun _ =>
    ite_uses (.ret _) redeploy_applies

theorem run_applies : Applies Labors (Deploy.run s sha) :=
  Uses.bindE (uses_of_reads loadDef_only) fun _ => deployService_applies

theorem finishRollback_applies : Applies Labors (Ui.finishRollback d s c sha) := by
  refine Uses.bindE (uses_of_touches (attempt_only pollHealth_only)) fun polled => ?_
  cases polled with
  | error e =>
    exact Uses.bindE (uses_of_touches (attempt_only stopContainer_only)) fun _ => .ret _
  | ok =>
    apply record_uses
    refine Uses.bindE (Uses.liftE .self) fun applied => ?_
    refine Uses.bindE (.of_only (context_only _ _)) fun _ => ?_
    exact uses_of_touches stopContainer_only

theorem doRollback_applies : Applies Labors (Ui.doRollback d s c) := by
  refine .call (by simp [Labors, Works, SparesCaddy, Call.part, Docker.Call.part]) fun inspected => ?_
  cases inspected with
  | error e => exact .ret _
  | ok info =>
    refine ite_uses (.ret _) ?_
    refine .call (by simp [Labors, Works, SparesCaddy, Call.part, Docker.Call.part]) fun started => ?_
    exact Uses.bindE (.of_only (context_only _ _)) fun _ => finishRollback_applies

theorem rollback_applies :
    Applies Labors (do
        let d ← context ("unknown service: " ++ s) (← attempt (loadService s))
        let active ← State.readActive s
        Ui.doRollback d s (flip active) : Result Unit) := by
  refine Uses.bindE (uses_of_reads (attempt_only loadService_only)) fun loaded => ?_
  refine Uses.bindE (.of_only (context_only _ _)) fun d => ?_
  exact Uses.bindE (uses_of_reads readActive_only) fun _ => doRollback_applies

theorem mcpRollback_applies : Applies Labors (Mcp.rollback s) := by
  refine Uses.bindE (uses_of_reads (attempt_only loadService_only)) fun loaded => ?_
  refine Uses.bindE (.of_only (context_only _ _)) fun d => ?_
  refine Uses.bindE (uses_of_reads readActiveSha_only) fun activeSha => ?_
  refine Uses.bindE (uses_of_reads listLocal_only) fun images => ?_
  split
  · exact .ret _
  · exact run_applies

theorem promote_applies : Applies Labors (Deploy.promote d sha a) :=
  Uses.bindE (uses_of_reads containerRunsImage_only) fun _ =>
    ite_uses cutover_applies redeploy_applies

theorem runCutover_applies {shaOpt preview : Option String} :
    Applies Labors (Deploy.runCutover s shaOpt preview) := by
  refine Uses.bindE (uses_of_reads loadDef_only) fun d => ?_
  refine Uses.bindE (uses_of_reads readActive_only) fun active => ?_
  refine Uses.bindE (uses_of_reads previewStaged_only) fun staged => ?_
  refine Uses.bindE (uses_of_reads listLocal_only) fun images => ?_
  refine Uses.bindE (uses_of_reads containerImageTag_only) fun tag => ?_
  split
  · exact cutover_applies
  · exact promote_applies
  · exact .ret _
  · exact .ret _
  · exact .ret _

theorem runCancelInactive_applies : Applies Labors (Deploy.runCancelInactive s) := by
  refine Uses.bindE (uses_of_reads loadDef_only) fun d => ?_
  refine Uses.bindE (uses_of_reads readActive_only) fun active => ?_
  refine Uses.bindE (uses_of_touches stopContainer_only) fun _ => ?_
  refine Uses.bindE (uses_of_touches removeContainerIfExists_only) fun _ => ?_
  exact uses_of_quiet prune_only

theorem runStartInactive_applies : Applies Labors (Deploy.runStartInactive s sha) := by
  refine Uses.bindE (uses_of_reads loadDef_only) fun d => ?_
  refine Uses.bindE (uses_of_reads preflight_only) fun _ => ?_
  refine Uses.bindE (uses_of_reads ensureNetwork_only) fun _ => ?_
  refine Uses.bindE (uses_of_reads readActive_only) fun active => ?_
  exact Uses.bindE (uses_of_touches startInactive_only) fun _ => .ret _

theorem recreateActiveContainer_applies :
    Applies Labors (Deploy.recreateActiveContainer s) := by
  refine Uses.bindE (uses_of_reads loadService_only) fun d => ?_
  refine Uses.bindE (uses_of_reads colorOrBlue_only) fun color => ?_
  refine Uses.bindE (uses_of_reads readActiveSha_only) fun recorded => ?_
  cases recorded with
  | none => exact .ret _
  | some sha =>
    refine Uses.bindE (uses_of_touches removeContainerIfExists_only) fun _ => ?_
    refine Uses.bindE (uses_of_touches startContainer_only) fun _ => ?_
    refine Uses.bindE (Uses.liftE .self) fun applied => ?_
    exact Uses.bindE (.of_only (context_only _ _)) fun _ => .ret _

/-- A call that leaves the previews alone. -/
def SparesPreviews (c : Call) : Prop := c.part ≠ .previews

theorem Applies.spares {x : Result α} (h : Applies Labors x) : x.run.Only SparesPreviews :=
  h.works.mono fun _ works => works.1

theorem withLock_only {body : Result α} {refusal : String → String} (acquire : P (.tryAcquire s))
    (release : P (.release s)) (hb : body.run.Only P) : (withLock s refusal body).run.Only P := by
  refine call_only acquire fun acquired => ?_
  cases acquired with
  | error e => trivial
  | ok =>
    refine Only.bindE (attempt_only hb) fun r => ?_
    exact call_only release fun _ => ofExcept_only r

theorem runRollback_spares : (Ui.runRollback s).run.Only SparesPreviews :=
  withLock_only nofun nofun rollback_applies.spares

theorem deploy_spares : (Cli.deploy s sha).run.Only SparesPreviews :=
  withLock_only nofun nofun run_applies.spares

end Works

end Codery
