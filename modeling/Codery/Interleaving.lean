import Codery.Availability
import Codery.Effect.Pool

/-! Requests on one service that run at once: the ones that take the deploy lock, and the two MCP
tools that do not. -/

namespace Codery

open Effect Prog Deploy

variable {site : Site} {P : Part → Prop} {h h' h₀ : Host} {α : Type} {s sha n : String} {a : Color}
  {d : ServiceDef} {op : Operation}

/-- Health checks may pass or fail; every other call does its work. -/
def healthOnly : Call → Choice → Bool
  | .docker (.inspectHealth _), _ => true
  | .docker (.execTcpProbe _ _), _ => true
  | .docker (.pullIfMissing _), .pulled _ => true
  | .docker (.containerExec _ _), .output _ => true
  | _, o => o == .ok

abbrev healthSteps (site : Site) : StepRel sig Host := handler (Call.answer site) healthOnly

theorem healthSteps_le : healthSteps site ≤ steps site := by
  rintro x h r h' ⟨o, _, ans⟩
  exact ⟨o, rfl, ans⟩

/-! ### The deploy lock -/

theorem acquire_granted (step : healthSteps site (.tryAcquire s) h (.ok ()) h') :
    h.locks s = false ∧ h'.locks s = true := by
  obtain ⟨_, _, ans⟩ := step
  rcases answer_tryAcquire ans with ⟨⟨e, ok⟩, _⟩ | ⟨_, free, same⟩
  · cases ok
  · exact ⟨free, by simp [same]⟩

theorem acquire_refused {e : String} (step : healthSteps site (.tryAcquire s) h (.error e) h') :
    h' = h := by
  obtain ⟨_, _, ans⟩ := step
  rcases answer_tryAcquire ans with ⟨_, same⟩ | ⟨ok, _⟩
  · exact same
  · cases ok

def deployLock (site : Site) (s : String) : Lock (healthSteps site) where
  acquire := .tryAcquire s
  release := .release s
  granted r := Except.isOk (show Except String Unit from r)
  Held h := h.locks s = true
  free {h r h'} step granted := by
    cases r with
    | ok => simp [(acquire_granted step).1]
    | error e => cases granted
  held {h r h'} step granted := by
    cases r with
    | ok => exact (acquire_granted step).2
    | error e => cases granted
  refused {h r h'} step refused := by
    cases r with
    | ok => cases refused
    | error e => exact acquire_refused step

/-- A call that leaves every lock alone. -/
def Unlocking (c : Call) : Prop := ∀ s, c.part ≠ .lock s

theorem Unlocking.spares {c : Call} (unlocking : Unlocking c) : (deployLock site s).Spares c := by
  intro h r h' step held
  obtain ⟨_, _, ans⟩ := step
  exact (frame_locks ans (unlocking s)).trans held

theorem withLock_guards {body : Result Unit} {refusal : String → String}
    (only : body.run.Only Unlocking) :
    (deployLock site s).Guards (withLock s refusal body).run := by
  refine ⟨_, rfl, fun r => ?_⟩
  cases r with
  | error e => exact ⟨_, rfl⟩
  | ok =>
    exact ⟨body.run, only.mono fun _ => Unlocking.spares, ExceptT.run_bind_lift _ _⟩

theorem unlocking_of_works {p : Prog sig α} (hp : p.Only Works) : p.Only Unlocking :=
  hp.mono fun _ works => works.2

theorem unlocking_of {P : Part → Prop} {p : Prog sig α} (hp : p.Only fun c : Call => P c.part)
    (no : ∀ s, ¬ P (.lock s)) : p.Only Unlocking :=
  hp.mono fun _ hc s same => no s (same ▸ hc)

theorem dropPreview_unlocking : (Cli.dropPreview s).run.Only Unlocking := by
  refine Only.bindE (unlocking_of (P := (· = .previews)) deletePreview_only (by simp)) fun _ => ?_
  exact ite_only (unlocking_of (P := reloads) reloadProxies_only (by simp)) trivial

theorem connectInit_unlocking {f : Result α} (hf : f.run.Only Unlocking) :
    (do Db.connect; Db.init; f : Result α).run.Only Unlocking := by
  refine Only.bindE (unlocking_of (P := reads) connect_only (by simp)) fun _ => ?_
  exact Only.bindE (unlocking_of (P := quiets) (quiet_of_migrates init_only) (by simp)) fun _ => hf

theorem deploy_guards : (deployLock site s).Guards (Cli.deploy s sha).run :=
  withLock_guards (unlocking_of_works run_applies.works)

theorem cutover_guards {shaOpt : Option String} :
    (deployLock site s).Guards (Cli.cutover s shaOpt).run := by
  apply withLock_guards
  apply connectInit_unlocking
  refine Only.bindE (unlocking_of (P := reads) findPreview_only (by simp)) fun preview => ?_
  exact Only.bindE (unlocking_of_works runCutover_applies.works) fun _ => dropPreview_unlocking

theorem cancelPreview_guards : (deployLock site s).Guards (Cli.cancelPreview s).run := by
  apply withLock_guards
  refine Only.bindE (unlocking_of_works runCancelInactive_applies.works) fun _ => ?_
  exact connectInit_unlocking dropPreview_unlocking

/-! ### What a request leaves when nothing overlaps it -/

/-- The requests on `s`, and among them the ones that take no lock. -/
def Operation.Requests (s : String) : Operation → Prop
  | .deploy s' _ => s' = s
  | .cutover s' _ => s' = s
  | .cancelPreview s' => s' = s
  | .mcpRollback s' => s' = s
  | .restartService s' => s' = s
  | _ => False

def Operation.Bypasses : Operation → Bool
  | .mcpRollback _ => true
  | .restartService _ => true
  | _ => false

theorem Operation.guards (request : op.Requests s) (locks : op.Bypasses ≠ true) :
    (deployLock site s).Guards op.perform := by
  cases op with
  | deploy =>
    cases request
    exact deploy_guards
  | cutover =>
    cases request
    exact cutover_guards
  | cancelPreview =>
    cases request
    exact cancelPreview_guards
  | mcpRollback | restartService => exact absurd rfl locks
  | _ => exact request.elim

abbrev Restores (site : Site) (s : String) (p : Prog sig α) (h : Host) : Prop :=
  Safe (healthSteps site) (fun _ _ _ _ => True) (fun _ h' => h'.Live s) p h

theorem restores_of_guarded {Q : α → Host → Prop} {p : Prog sig α} (live : h.Live s)
    (guarded : Safe (steps site) (Guarded s False False) Q p h) : Restores site s p h := by
  refine ((guarded.carry live fun x _ _ _ step guard live => step_live step guard live).mono ?_
    fun _ _ kept => kept.2).restrict healthSteps_le
  exact fun _ _ _ _ _ _ => trivial

theorem rollback_restores (live : h.Live s) : Restores site s (Mcp.rollback s).run h := by
  have guarded : Safe (steps site) (Guarded s False False) (fun _ _ => True)
      (Mcp.rollback s).run h := by
    refine (Spec.frame (P := reads) (attempt_only loadService_only)).bindE reads_guarded ?_
      fun _ _ _ _ => trivial
    intro loaded h₁ _ _
    refine (Spec.frame (P := reads) (context_only _ _)).bindE reads_guarded ?_ fun _ _ _ _ => trivial
    intro d h₂ _ _
    refine (Spec.frame (P := reads) readActiveSha_only).bindE reads_guarded ?_ fun _ _ _ _ => trivial
    intro activeSha h₃ _ _
    refine (Spec.frame (P := reads) listLocal_only).bindE reads_guarded ?_ fun _ _ _ _ => trivial
    intro images h₄ _ _
    split
    · trivial
    · exact (run_guarded False.elim).post fun _ _ _ => trivial
  exact restores_of_guarded live guarded

/-- A lifecycle call, which is no health check, does its work. -/
theorem lifecycle_step {x : Docker.Call} {r : x.Reply} (step : healthSteps site (.docker x) h r h')
    (plain : ∀ o, healthOnly (.docker x) o = true → o = .ok) :
    x.answer .ok h.docker = some (r, h'.docker) ∧ h' = { h with docker := h'.docker } := by
  obtain ⟨o, allowed, ans⟩ := step
  cases plain o allowed
  exact answer_docker ans

theorem removed {r : Except Docker.Error Unit} (up : h.docker.Up n)
    (step : healthSteps site (.docker (.removeContainer n)) h r h') :
    r = .ok () ∧ h' = { h with docker := h.docker.put n none } := by
  obtain ⟨k, hk, _⟩ := up
  obtain ⟨ans, same⟩ := lifecycle_step step (by simp [healthOnly])
  simp only [Docker.Call.answer, Docker.lifecycle, Docker.Daemon.remove, hk, Option.some_inj,
    Prod.mk.injEq] at ans
  exact ⟨ans.1.symm, by rw [same, ans.2]⟩

theorem created {image : String} {r : Except Docker.Error Unit}
    (free : h.docker.containers n = none)
    (step : healthSteps site (.docker (.createContainer n image)) h r h') :
    r = .ok () ∧ h' = { h with docker := h.docker.put n (some { image, running := false }) } := by
  obtain ⟨ans, same⟩ := lifecycle_step step (by simp [healthOnly])
  simp only [Docker.Call.answer, Docker.lifecycle, Docker.Daemon.create, free, Option.some_inj,
    Prod.mk.injEq] at ans
  exact ⟨ans.1.symm, by rw [same, ans.2]⟩

theorem started {k : Container} {r : Except Docker.Error Unit}
    (hk : h.docker.containers n = some k) (down : k.running = false)
    (step : healthSteps site (.docker (.startContainer n)) h r h') :
    r = .ok () ∧ h'.docker.Up n ∧ h'.state = h.state := by
  obtain ⟨ans, same⟩ := lifecycle_step step (by simp [healthOnly])
  simp only [Docker.Call.answer, Docker.lifecycle, Docker.Daemon.start, hk, down, if_false,
    Bool.false_eq_true, Option.some_inj, Prod.mk.injEq] at ans
  refine ⟨ans.1.symm, ⟨{ k with running := true, healthPassed := false }, ?_, rfl⟩, by rw [same]⟩
  rw [← ans.2, Docker.Daemon.put_same]

/-- The recorded container is removed and started afresh. -/
theorem restart_restores {f : Result α} (active : h.active d.service = some a)
    (up : h.Up d.service a)
    (next : ∀ h', h'.Live d.service → Restores site d.service f.run h') :
    Restores site d.service
      (do removeContainerIfExists (containerName d.service a)
          startContainer d sha a
          f : Result α).run h := by
  intro r h₁ step
  refine ⟨trivial, ?_⟩
  obtain ⟨ok, gone⟩ := removed up step
  subst ok gone
  intro r h₁ step
  refine ⟨trivial, ?_⟩
  obtain ⟨o, plain, ans⟩ := step
  cases o <;> cases plain
  cases ans
  intro r h₁ step
  refine ⟨trivial, ?_⟩
  obtain ⟨ok, made⟩ := created (by simp) step
  subst ok made
  intro r h₁ step
  refine ⟨trivial, ?_⟩
  obtain ⟨ok, up, same⟩ :=
    started (k := { image := d.imageRef sha, running := false }) (by simp) rfl step
  subst ok
  refine next h₁ ⟨a, ?_, up⟩
  rw [Host.active, same]
  exact active

theorem Host.SameBut.live (same : h.SameBut P h') (color : ¬ P (.color s))
    (slot : ∀ c, ¬ P (.container (containerName s c))) (live : h.Live s) : h'.Live s := by
  obtain ⟨a, active, up⟩ := live
  exact ⟨a, (same.active color).trans active, (same.up (slot a)).mpr up⟩

/-- A program that leaves the containers and the recorded color alone, and then another. -/
theorem restores_bind {β : Type} {R : Except String α → Host → Prop} {x : Result α}
    {f : α → Result β} (spec : Spec site P h R x.run) (color : ¬ P (.color s))
    (slot : ∀ c, ¬ P (.container (containerName s c))) (live : h.Live s)
    (next : ∀ a h', h.SameBut P h' → R (.ok a) h' → h'.Live s → Restores site s (f a).run h') :
    Restores site s (x >>= f).run h :=
  spec.keeping healthSteps_le (fun _ same => same.live color slot live) next

theorem recreate_restores (live : h.Live s) :
    Restores site s (recreateActiveContainer s).run h := by
  refine restores_bind loadService_spec (by simp) (by simp) live ?_
  intro d h₁ same loaded live
  cases same.eq_of_reads
  have service := Services.load_service loaded
  subst service
  refine restores_bind colorOrBlue_spec (by simp) (by simp) live ?_
  intro color h₁ same recorded live
  cases same.eq_of_reads
  obtain ⟨a, active, up⟩ := live
  have color_eq : a = color := by
    rw [show color = h.colorOf d.service from recorded, Host.colorOf, active, Option.getD_some]
  subst color_eq
  refine restores_bind readActiveSha_spec (by simp) (by simp) ⟨a, active, up⟩ ?_
  intro sha h₁ same _ live
  cases same.eq_of_reads
  cases sha with
  | none => exact live
  | some sha =>
    refine restart_restores active up fun h₂ live => ?_
    refine restores_bind (Spec.frame (P := reloads) (attempt_only applyAll_only)) (by simp) (by simp)
      live ?_
    intro applied h₃ _ _ live
    cases applied with
    | ok => exact live
    | error e => exact live

theorem Operation.restores (request : op.Requests s) (live : h.Live s) :
    Restores site s op.perform h := by
  have locked (locks : op.Locks s) : Restores site s op.perform h :=
    ((Operation.live locks live).mono (fun _ _ _ _ _ _ => trivial) fun _ _ live => live).restrict
      healthSteps_le
  cases op with
  | deploy | cutover | cancelPreview => exact locked request
  | mcpRollback =>
    cases request
    exact rollback_restores live
  | restartService =>
    cases request
    have tried : Restores site s (attempt (recreateActiveContainer s)).run h :=
      Safe.bind (β := Except String (Except String RecreateInfo)) (recreate_restores live)
        fun _ _ live => live
    refine tried.bindE (fun r h₁ live => ?_) fun e h₁ live => live
    cases r with
    | ok => exact live
    | error e => exact live
  | _ => exact request.elim

/-! ### Requests at once -/

/-- Requests on a service whose recorded container is up leave it up when all have returned, as
long as the tools that take no lock overlap nothing. -/
theorem live_when_done {ι : Type} [DecidableEq ι] {ops : ι → Operation}
    {x : Pool sig ι (Except String Unit)} (requests : ∀ i, (ops i).Requests s) (live : h₀.Live s)
    (run : Pool.Reaches (healthSteps site) (Pool.Apart fun i => (ops i).Bypasses = true)
      (Pool.start fun i => (ops i).perform, h₀) (x, h)) (done : x.Done) : h.Live s :=
  Pool.restores (L := deployLock site s) (fun i locks => (ops i).guards (requests i) locks)
    (fun i _ live => (ops i).restores (requests i) live) live run done

/-- A cutover that meets a deploy half-way is refused. -/
theorem live_when_deployed :
    ∃ x h, Pool.Reaches (healthSteps Scenario.site)
        (Pool.Apart fun i => (Scenario.twoCommands i).Bypasses = true)
        (Pool.start fun i => (Scenario.twoCommands i).perform, Scenario.serving) (x, h) ∧
      x.Done ∧ h.Live "paseo" := by
  have played : (playPool (Call.answer Scenario.site) healthOnly
      (Pool.Apart fun i => (Scenario.twoCommands i).Bypasses = true)
      ((false, .ok) :: (true, .ok) :: List.replicate 7 (false, .ok))
      (Pool.start fun i => (Scenario.twoCommands i).perform, Scenario.serving)).map
        (fun y => ((y.1.prog false).result?.isSome, (y.1.prog true).result?.isSome)) =
      some (true, true) := by decide
  obtain ⟨⟨x, h⟩, run, shown⟩ := Option.map_eq_some_iff.mp played
  simp only [Prod.mk.injEq] at shown
  have done : x.Done := Pool.done_of_results (Bool.forall_bool.mpr shown)
  refine ⟨x, h, playPool_reaches run, done, ?_⟩
  refine live_when_done ?_ ⟨.blue, by decide, _, rfl, rfl⟩ (playPool_reaches run) done
  exact Bool.forall_bool.mpr ⟨rfl, rfl⟩

/-- A rollback that has read the color before a deploy flips it removes the new container, and
then its own fails the health check. -/
theorem not_live_when_done :
    ¬ ∀ x h, Pool.Reaches (healthSteps Scenario.site) (fun _ _ => True)
        (Pool.start fun i => (Scenario.deployAndRollback i).perform, Scenario.serving) (x, h) →
      x.Done → h.Live "paseo" := by
  intro all
  have played : (playPool (Call.answer Scenario.site) healthOnly (fun _ _ => True)
      (List.replicate 12 (true, .ok) ++ List.replicate 32 (false, .ok) ++
        List.replicate 5 (true, .ok) ++ List.replicate 30 (true, .fail) ++ [(true, .ok)])
      (Pool.start fun i => (Scenario.deployAndRollback i).perform, Scenario.serving)).map
        (fun y => ((y.1.prog false).result?.isSome, (y.1.prog true).result?.isSome,
          y.2.active "paseo", decide (y.2.Up "paseo" .green))) =
      some (true, true, some .green, false) := by decide +kernel
  obtain ⟨⟨x, h⟩, run, shown⟩ := Option.map_eq_some_iff.mp played
  simp only [Prod.mk.injEq, decide_eq_false_iff_not] at shown
  obtain ⟨first, second, green, down⟩ := shown
  obtain ⟨c, active, up⟩ := all x h (playPool_reaches run)
    (Pool.done_of_results (Bool.forall_bool.mpr ⟨first, second⟩))
  rw [green] at active
  cases active
  exact down up

end Codery
