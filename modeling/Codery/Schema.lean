import Codery.Scenario

/-! The schema of `codery.db`: no operation that migrates it, or that starts once it is migrated,
queries a table or a column that does not exist. -/

namespace Codery

open Effect Prog

namespace Database

variable {d d' : Database} {t : AppsTable} {o : Choice}

theorem answer_createApps (ans : Call.createApps.answer o d = some (.ok (), d')) :
    ∃ t, d'.apps = some t := by
  rcases answer_run ans with ⟨_, ran⟩ | ⟨_, failed, _⟩
  · simp only [Call.run] at ran
    split at ran <;> cases ran
    · exact ⟨_, rfl⟩
    · exact ⟨_, by assumption⟩
  · cases failed

theorem run_addNoCache (ht : d.apps = some t) :
    ∃ t', (Call.addNoCache.run d).2.apps = some t' ∧ t'.hasNoCache = true := by
  simp only [Call.run, ht]
  split
  · exact ⟨t, ht, by assumption⟩
  · exact ⟨t.addNoCache, rfl, rfl⟩

theorem run_addSource (ht : d.apps = some t) (noCache : t.hasNoCache = true) :
    ∃ t', (Call.addSource.run d).2.apps = some t' ∧ t'.Migrated := by
  simp only [Call.run, ht]
  split
  · exact ⟨t, ht, noCache, by assumption⟩
  · exact ⟨t.addSource, rfl, noCache, rfl⟩

theorem answer_createPreviews_ok (ans : Call.createPreviews.answer o d = some (.ok (), d')) :
    d'.apps = d.apps ∧ d'.previews.isSome = true := by
  rcases answer_run ans with ⟨_, ran⟩ | ⟨_, failed, _⟩
  · simp only [Call.run] at ran
    split at ran <;> cases ran
    · exact ⟨rfl, rfl⟩
    · next h => exact ⟨rfl, by simp [h]⟩
  · cases failed

end Database

variable {site : Site} {h h' h₀ : Host} {α β : Type} {s sha n : String} {c : Color}
  {d : ServiceDef} {op : Operation}

/-- A call that reads or changes rows. -/
def Call.Queries : Call → Prop
  | .db q => q.Queries
  | _ => False

/-- No query meets a missing table or column. -/
def QueriesReady : StepRel sig Host := fun x h _ _ => x.Queries → h.db.Complete

/-- Everything may fail but the two `ALTER TABLE`s, whose errors `init` drops: they fail only
where the column exists. -/
def alters : Call → Choice → Bool
  | .db q, o => !(q.Alters && o == .fail)
  | _, _ => true

abbrev alteringSteps (site : Site) : StepRel sig Host := handler (Call.answer site) alters

theorem altering_le : alteringSteps site ≤ steps site := by
  rintro x h r h' ⟨o, _, ans⟩
  exact ⟨o, rfl, ans⟩

/-- Queries find the schema complete throughout `p`. -/
abbrev Ready (site : Site) (p : Prog sig α) (h : Host) : Prop :=
  Safe (alteringSteps site) QueriesReady (fun _ _ => True) p h

theorem complete_step {x : Call} {r : x.Reply} (step : alteringSteps site x h r h')
    (complete : h.db.Complete) : h'.db.Complete := by
  obtain ⟨o, _, ans⟩ := step
  cases x with
  | db q => exact complete.answer (answer_db ans).1
  | _ => rwa [(answer_frame ans).db (by simp)]

/-- Once the schema is complete it stays so. -/
theorem ready_of_complete {p : Prog sig α} (complete : h.db.Complete) : Ready site p h := by
  have any : Safe (alteringSteps site) (fun _ _ _ _ => True) (fun _ _ => True) p h :=
    any_ends.restrict altering_le
  refine (any.carry (J := fun h => h.db.Complete) complete ?_).mono ?_ fun _ _ _ => trivial
  · exact fun _ _ _ _ step _ => complete_step step
  · exact fun _ _ _ _ _ kept _ => kept.2.1

/-- A program without queries. -/
def Unasked (c : Call) : Prop := ¬ c.Queries

theorem ready_of_unasked {p : Prog sig α} (only : p.Only Unasked) : Ready site p h :=
  (only.safe h).mono (fun _ _ _ _ _ unasked asked => absurd asked unasked) fun _ _ _ => trivial

theorem ready_bind {x : Result α} {f : α → Result β} (only : x.run.Only Unasked)
    (next : ∀ a h', Ready site (f a).run h') : Ready site (x >>= f).run h :=
  Safe.bindE (ready_of_unasked only) (fun a h' _ => next a h') fun _ _ _ => trivial

theorem alter_step {q : Database.Call} {r : q.Reply} (hq : q.Alters = true)
    (step : alteringSteps site (.db q) h r h') : h'.db = (q.run h.db).2 := by
  obtain ⟨o, allowed, ans⟩ := step
  rcases Database.answer_run (answer_db ans).1 with ⟨_, ran⟩ | ⟨failed, _⟩
  · exact congrArg Prod.snd ran
  · simp [alters, hq, failed] at allowed

/-- Where `init` succeeds, the schema is complete. -/
theorem init_ready :
    Safe (alteringSteps site) QueriesReady (OnOk fun _ h' => h'.db.Complete) Db.init.run h := by
  intro created h₁ step
  refine ⟨nofun, ?_⟩
  obtain ⟨_, _, ans⟩ := step
  cases created with
  | error e => trivial
  | ok =>
    obtain ⟨t, table⟩ := Database.answer_createApps (answer_db ans).1
    intro _ h₂ step
    refine ⟨nofun, ?_⟩
    obtain ⟨t, table, noCache⟩ := Database.run_addNoCache table
    rw [← alter_step rfl step] at table
    intro _ h₃ step
    refine ⟨nofun, ?_⟩
    obtain ⟨t, table, migrated⟩ := Database.run_addSource table noCache
    rw [← alter_step rfl step] at table
    intro listed h₄ step
    refine ⟨nofun, ?_⟩
    obtain ⟨_, _, ans⟩ := step
    cases listed with
    | error e => trivial
    | ok =>
      obtain ⟨same, previews⟩ := Database.answer_createPreviews_ok (answer_db ans).1
      exact ⟨⟨t, same.trans table, migrated⟩, previews⟩

theorem init_bind {f : Unit → Result β} : Ready site (Db.init >>= f).run h := by
  refine Safe.bindE init_ready ?_ fun _ _ _ => trivial
  exact fun _ h' complete => ready_of_complete complete

/-! ### Programs without queries -/

theorem readActive_unasked : (State.readActive s).run.Only Unasked := by
  refine call_only nofun fun r => ?_
  cases r <;> trivial

theorem loadService_unasked : (loadService s).run.Only Unasked := call_only nofun ofExcept_only

theorem loadAll_unasked : loadAll.run.Only Unasked := call_only nofun ofExcept_only

theorem loadDef_unasked : (Deploy.loadDef s).run.Only Unasked :=
  Only.bindE (attempt_only loadService_unasked) fun _ => context_only _ _

theorem readColors_unasked (defs : List ServiceDef) : (Caddy.readColors defs).run.Only Unasked := by
  induction defs with
  | nil => trivial
  | cons d defs ih =>
    refine Only.bindE (Only.bindE (attempt_only readActive_unasked) fun _ => trivial) fun color => ?_
    exact Only.bindE ih fun _ => trivial

theorem connect_unasked : Db.connect.run.Only Unasked := call_only id (context_only _)

theorem containerExec_unasked {cmd : List String} : (Mcp.containerExec s cmd).run.Only Unasked :=
  Only.bindE readActive_unasked fun _ => call_only nofun ofExcept_only

theorem removeOld_unasked (images : List Image) : (Images.removeOld images).run.Only Unasked := by
  induction images with
  | nil => trivial
  | cons i images ih => exact call_only nofun fun _ => ih

theorem prune_unasked : (Images.prune s).run.Only Unasked :=
  Only.bindE (call_only nofun (context_only _)) fun _ => removeOld_unasked _

theorem portConflicts_unasked (active : List UInt16) (ports : List (UInt16 × UInt16)) :
    (Validate.portConflicts active ports).run.Only Unasked := by
  induction ports with
  | nil => trivial
  | cons p ports ih =>
    refine ite_only ih (call_only nofun fun r => ?_)
    exact Only.bindE ih fun _ => trivial

theorem checkDeploy_unasked : (Validate.checkDeploy d sha c).run.Only Unasked := by
  refine call_only nofun fun missing => ?_
  refine call_only nofun fun pulled => ?_
  refine Only.bindE (attempt_only readActive_unasked) fun active => ?_
  refine Only.bindE (portConflicts_unasked _ _) fun conflicts => ?_
  exact ite_only trivial trivial

theorem removeContainerIfExists_unasked : (Deploy.removeContainerIfExists n).run.Only Unasked :=
  call_only nofun (tolerate_only _ _)

theorem stopContainer_unasked : (Deploy.stopContainer n).run.Only Unasked :=
  call_only nofun (tolerate_only _ _)

theorem startContainer_unasked : (Deploy.startContainer d sha c).run.Only Unasked := by
  refine call_only nofun fun settings => ?_
  refine Only.bindE (ofExcept_only _) fun _ => ?_
  refine call_only nofun fun created => ?_
  refine Only.bindE (context_only _ _) fun _ => ?_
  exact call_only nofun (context_only _)

theorem waitForTcpInContainer_unasked {port : UInt16} (attempts : Nat) :
    (Deploy.waitForTcpInContainer n port attempts).run.Only Unasked := by
  induction attempts with
  | zero => trivial
  | succ attempts ih => exact call_only nofun fun _ => ite_only trivial ih

theorem waitForDockerHealthy_unasked (seconds : Nat) :
    (Deploy.waitForDockerHealthy n seconds).run.Only Unasked := by
  induction seconds with
  | zero => trivial
  | succ seconds ih =>
    refine call_only nofun fun r => ?_
    cases r with
    | error => trivial
    | ok status => cases status <;> first | exact ih | trivial

theorem healthCheck_unasked : (Deploy.healthCheck d c).run.Only Unasked := by
  have settle (n m : String) : (do Deploy.removeContainerIfExists n; throw m : Result Unit).run.Only
      Unasked := Only.bindE removeContainerIfExists_unasked fun _ => trivial
  unfold Deploy.healthCheck Deploy.awaitHealth
  split
  · refine Only.bindE (ofExcept_only _) fun port => ?_
    exact Only.bindE (waitForTcpInContainer_unasked _) fun _ => ite_only trivial (settle _ _)
  · exact Only.bindE (waitForDockerHealthy_unasked _) fun _ => ite_only trivial (settle _ _)

theorem startInactive_unasked : (Deploy.startInactive d sha c).run.Only Unasked := by
  refine Only.bindE checkDeploy_unasked fun _ => ?_
  refine Only.bindE removeContainerIfExists_unasked fun _ => ?_
  refine Only.bindE ?_ fun _ => Only.bindE startContainer_unasked fun _ => healthCheck_unasked
  exact call_only nofun fun present => ite_only trivial (call_only nofun ofExcept_only)

theorem runStartInactive_unasked : (Deploy.runStartInactive s sha).run.Only Unasked := by
  refine Only.bindE loadDef_unasked fun d => ?_
  refine Only.bindE (call_only nofun ofExcept_only) fun _ => ?_
  refine Only.bindE (call_only nofun (tolerate_only _ _)) fun _ => ?_
  refine Only.bindE readActive_unasked fun active => ?_
  exact Only.bindE startInactive_unasked fun _ => trivial

theorem runCancelInactive_unasked : (Deploy.runCancelInactive s).run.Only Unasked := by
  refine Only.bindE loadDef_unasked fun d => ?_
  refine Only.bindE readActive_unasked fun active => ?_
  refine Only.bindE stopContainer_unasked fun _ => ?_
  exact Only.bindE removeContainerIfExists_unasked fun _ => prune_unasked

/-! ### Operations that migrate first -/

theorem connectInit_ready {f : Result β} : Ready site (do Db.connect; Db.init; f : Result β).run h :=
  ready_bind connect_unasked fun _ _ => init_bind

theorem withLock_ready {body : Result Unit} {refusal : String → String}
    (run : ∀ h₁, Ready site body.run h₁) : Ready site (withLock s refusal body).run h := by
  intro acquired h₁ _
  refine ⟨nofun, ?_⟩
  cases acquired with
  | error e => trivial
  | ok =>
    refine Safe.liftE (run h₁) fun r h₂ _ _ h₃ _ => ⟨nofun, ?_⟩
    trivial

theorem discard_ready {x : Result α} (hx : Ready site x.run h) : Ready site (discard x).run h :=
  Safe.bindE hx (fun _ _ _ => trivial) fun _ _ _ => trivial

/-- The operations that call `init` themselves. -/
def Operation.Migrates : Operation → Bool
  | .deployPreview _ _ _ => true
  | .cutover _ _ => true
  | .cancelPreview _ => true
  | .reloadRoutes => true
  | .setAppSource _ _ => true
  | .diagnose => true
  | .getRoutes => true
  | .addApp _ => true
  | .removeApp _ => true
  | .listApps => true
  | .getAppStatus => true
  | _ => false

theorem deployPreview_ready {flag : Option String} :
    Ready site (Cli.deployPreview s sha flag).run h := by
  apply withLock_ready
  intro h₁
  refine ready_bind loadService_unasked fun d h₂ => ?_
  refine ready_bind (ofExcept_only _) fun port h₃ => ?_
  exact ready_bind runStartInactive_unasked fun b h₄ => connectInit_ready

theorem cancelPreview_ready : Ready site (Cli.cancelPreview s).run h :=
  withLock_ready fun _ => ready_bind runCancelInactive_unasked fun _ _ => connectInit_ready

theorem setAppSource_ready {name source : String} :
    Ready site (Cli.setAppSource name source).run h := by
  unfold Cli.setAppSource
  split
  · trivial
  · exact connectInit_ready

theorem diagnose_ready : Ready site Diagnose.run.run h := by
  refine ready_bind (attempt_only loadAll_unasked) fun loaded h₁ => ?_
  refine ready_bind (context_only _ _) fun defs h₂ => ?_
  refine ready_bind (attempt_only connect_unasked) fun connected h₃ => ?_
  refine ready_bind (context_only _ _) fun _ h₄ => ?_
  have tried : Safe (alteringSteps site) QueriesReady (OnOk (OnOk fun _ h' => h'.db.Complete))
      (attempt Db.init).run h₄ :=
    Safe.bind (β := Except String (Except String Unit)) init_ready fun _ _ done => done
  refine Safe.bindE tried (fun migrated h₅ done => ?_) fun _ _ _ => trivial
  cases migrated with
  | error e => trivial
  | ok => exact ready_of_complete done

theorem getRoutes_ready : Ready site Mcp.getRoutes.run h := by
  refine ready_bind loadAll_unasked fun defs h₁ => ?_
  refine ready_bind (call_only nofun fun _ => trivial) fun domain h₂ => ?_
  refine ready_bind (readColors_unasked _) fun colors h₃ => ?_
  exact connectInit_ready

theorem addApp_ready {params : Mcp.AddAppParams} : Ready site (Mcp.addApp params).run h := by
  unfold Mcp.addApp
  split
  · trivial
  · refine ready_bind (attempt_only containerExec_unasked) fun check h₁ => ?_
    refine ready_bind (context_only _ _) fun out h₂ => ?_
    split
    · trivial
    · exact connectInit_ready

theorem Operation.ready (migrates : op.Migrates = true) : Ready site op.perform h := by
  cases op with
  | deployPreview => exact deployPreview_ready
  | cutover => exact withLock_ready fun _ => connectInit_ready
  | cancelPreview => exact cancelPreview_ready
  | reloadRoutes => exact connectInit_ready
  | setAppSource => exact setAppSource_ready
  | diagnose => exact discard_ready diagnose_ready
  | getRoutes => exact discard_ready getRoutes_ready
  | addApp => exact addApp_ready
  | removeApp => exact connectInit_ready
  | listApps => exact discard_ready connectInit_ready
  | getAppStatus => exact discard_ready connectInit_ready
  | _ => cases migrates

theorem queries_ready :
    SerialSteps (alteringSteps site) Operation.perform
      (fun op h => op.Migrates = true ∨ h.db.Complete) QueriesReady h₀ := by
  apply serialSteps_of_safe
  intro op h start
  cases start with
  | inl migrates => exact op.ready migrates
  | inr complete => exact ready_of_complete complete

/-- The first operation on a host is a deploy: `apply_all` queries `apps` before there is one. -/
theorem queries_unready :
    ¬ SerialSteps (alteringSteps Scenario.site) Operation.perform (fun _ _ => True) QueriesReady
      { Scenario.serving with db := {} } := by
  have played : playStep (Call.answer Scenario.site) alters Operation.perform [] (.deploy "paseo" "v2")
      (Scenario.oks 25) .ok
      (fun (x : Call) h _ => match x with
        | .db .selectApps => h.db.apps.isNone && h.active "paseo" == some .green
        | _ => false) { Scenario.serving with db := {} } = some true := by decide
  refine not_serialSteps (by simp) (fun _ => trivial) ?_ played
  intro x h _ _ bad ready
  split at bad
  · obtain ⟨t, table, _⟩ := (ready trivial).1
    simp [table] at bad
  · cases bad

end Codery
