import Codery.AppRoutes
import Codery.Effect.Parts
import Codery.Healthy
import Codery.Isolation
import Codery.Previews
import Codery.Serving

/-! The rows of `apps` over runs of all the operations, and the routes that Caddy serves of them. -/

namespace Codery

open Effect Prog

/-- The statement changes rows of `apps`. -/
def Call.WritesApps : Call → Prop
  | .db (.insertApp _) => True
  | .db (.deleteApp _) => True
  | .db (.updateSource _ _) => True
  | _ => False

/-- `UPDATE apps SET source`, on one row. -/
def AppRecord.mark (name source : String) (r : AppRecord) : AppRecord :=
  if r.name == name then { r with source } else r

/-! ### Single statements -/

namespace Database

variable {d d' : Database} {o : Choice} {t : AppsTable} {app : AppRecord} {name source : String}

theorem appRows_of_table (table : d.apps = some t) : d.appRows = t.migrate.rows := by
  rw [appRows, table]
  rfl

theorem migrate_rows (t : AppsTable) : t.migrate.rows = t.rows.map fun r =>
    { r with
      noCache := if t.hasNoCache then r.noCache else false
      source := if t.hasSource then r.source else "runtime" } := by
  cases noCache : t.hasNoCache <;> cases source : t.hasSource <;>
    simp [AppsTable.migrate, AppsTable.addNoCache, AppsTable.addSource, noCache, source]

theorem migrate_of_lacks (full : t.lacks = none) : t.migrate.rows = t.rows := by
  unfold AppsTable.lacks at full
  rw [migrate_rows]
  cases noCache : t.hasNoCache <;> cases source : t.hasSource <;> simp_all

theorem delete_rows : (t.delete name).2.migrate.rows = t.migrate.rows.filter (·.name != name) := by
  rw [migrate_rows, migrate_rows, List.filter_map]
  rfl

theorem setSource_rows (there : t.hasSource = true) :
    (t.setSource name source).2.migrate.rows = t.migrate.rows.map (AppRecord.mark name source) := by
  rw [migrate_rows, migrate_rows, AppsTable.setSource, List.map_map, List.map_map]
  refine List.map_congr_left fun r _ => ?_
  by_cases same : r.name = name <;> simp [AppRecord.mark, same, there]

theorem answer_insertApp {r : Except String Unit}
    (ans : (Call.insertApp app).answer o d = some (r, d')) :
    d'.appRows = d.appRows ∨ d'.appRows = d.appRows ++ [app] := by
  rcases answer_run ans with ⟨-, ran⟩ | ⟨-, -, rfl⟩
  · simp only [Call.run, onApps] at ran
    split at ran
    · cases ran
      exact .inl rfl
    · next t table =>
      cases full : t.lacks with
      | some column =>
        rw [full] at ran
        cases ran
        exact .inl rfl
      | none =>
        rw [full] at ran
        simp only [Option.map_none, AppsTable.insert] at ran
        split at ran
        · cases ran
          exact .inl ((appRows_of_table rfl).trans (appRows_of_table table).symm)
        · split at ran <;> cases ran
          · exact .inl ((appRows_of_table rfl).trans (appRows_of_table table).symm)
          · refine .inr ?_
            rw [appRows_of_table rfl, migrate_of_lacks (by exact full), appRows_of_table table,
              migrate_of_lacks full]
  · exact .inl rfl

theorem answer_deleteApp {r : Except String ℕ}
    (ans : (Call.deleteApp name).answer o d = some (r, d')) :
    d'.appRows = d.appRows ∨ d'.appRows = d.appRows.filter (·.name != name) := by
  rcases answer_run ans with ⟨-, ran⟩ | ⟨-, -, rfl⟩
  · simp only [Call.run, onApps] at ran
    split at ran <;> cases ran
    · exact .inl rfl
    · next t table => exact .inr (by rw [appRows_of_table rfl, delete_rows, appRows_of_table table])
  · exact .inl rfl

theorem answer_updateSource {r : Except String ℕ}
    (ans : (Call.updateSource name source).answer o d = some (r, d')) :
    d'.appRows = d.appRows ∨ d'.appRows = d.appRows.map (AppRecord.mark name source) := by
  rcases answer_run ans with ⟨-, ran⟩ | ⟨-, -, rfl⟩
  · simp only [Call.run, onApps] at ran
    split at ran
    · cases ran
      exact .inl rfl
    · next t table =>
      split at ran
      · cases ran
        exact .inl rfl
      · next there =>
        have there : t.hasSource = true := by
          by_contra lacks
          rw [if_neg lacks] at there
          cases there
        cases ran
        exact .inr (by rw [appRows_of_table rfl, setSource_rows there, appRows_of_table table])
  · exact .inl rfl

/-- A statement that writes no row of `apps`. -/
theorem answer_keepsApps {c : Call} {r : c.Reply} (ans : c.answer o d = some (r, d'))
    (keeps : ¬ (Codery.Call.db c).WritesApps) : d'.appRows = d.appRows := by
  by_cases queries : c.Queries
  · cases c with
    | selectApps | countPort | selectPreviews => rw [answer_reads ans trivial]
    | upsertPreview | deletePreview =>
      rcases answer_run ans with ⟨-, ran⟩ | ⟨-, -, rfl⟩
      · rw [appRows, show d' = _ from congrArg Prod.snd ran, Call.run, onPreviews_apps, appRows]
      · rfl
    | insertApp | deleteApp | updateSource => exact absurd trivial keeps
    | _ => exact queries.elim
  · exact (answer_rows ans queries).1

end Database

variable {site : Site} {P : Part → Prop} {h h' h₀ : Host} {α β : Type} {s sha name source : String}
  {p : Mcp.AddAppParams} {rows rows' : List AppRecord} {op : Operation}

/-! ### Programs that leave the rows alone -/

/-- A call that writes no row of `apps`. -/
def KeepsApps (c : Call) : Prop := ¬ c.WritesApps

/-- A call that writes no row of either table. -/
def KeepsRows (c : Call) : Prop := KeepsApps c ∧ SparesPreviews c

theorem keepsApps_of_part {c : Call} (part : c.part ≠ .tables) : KeepsApps c := by
  intro writes
  cases c with
  | db q => cases q <;> first | exact part rfl | exact writes
  | _ => exact writes

theorem keepsApps_only {q : Prog sig α} (only : q.Only fun c : Call => P c.part)
    (no : ¬ P .tables) : q.Only KeepsApps :=
  only.mono fun _ part => keepsApps_of_part fun same => no (same ▸ part)

theorem keepsApps_unasked {q : Prog sig α} (only : q.Only Unasked) : q.Only KeepsApps := by
  refine only.mono fun c unasked writes => ?_
  cases c with
  | db q => cases q <;> first | exact writes | exact unasked trivial
  | _ => exact writes

theorem keepsApps_routing {q : Prog sig α} (only : q.Only Routing) : q.Only KeepsApps := by
  refine only.mono fun c routing writes => ?_
  cases c with
  | db q => cases q <;> first | exact writes | exact routing
  | _ => exact writes

theorem appRows_step {c : Call} {r : c.Reply} (step : steps site c h r h') (keeps : KeepsApps c) :
    h'.db.appRows = h.db.appRows := by
  obtain ⟨_, _, ans⟩ := step
  cases c with
  | db q => exact Database.answer_keepsApps (answer_db ans).1 keeps
  | _ => rw [(answer_frame ans).db (by simp)]

theorem keepsApps_ends {q : Prog sig α} (only : q.Only KeepsApps) (start : h.db.appRows = rows) :
    Ends site (fun _ h' => h'.db.appRows = rows) q h :=
  (Only.keeps (J := fun h' : Host => h'.db.appRows = rows) only start
    fun _ _ _ _ step keeps same => (appRows_step step keeps).trans same).mono
      (fun _ _ _ _ _ _ => trivial) fun _ _ kept => kept

section Footprints

variable {d : ServiceDef} {a b c : Color} {shaOpt preview : Option String}

theorem reads_keepsApps {x : Result α} (only : x.run.Only Reads) : x.run.Only KeepsApps :=
  keepsApps_only (P := reads) only (by simp)

theorem applyAll_keepsApps : Caddy.applyAll.run.Only KeepsApps := keepsApps_routing applyAll_routing

theorem reloadProxies_keepsApps : reloadProxies.run.Only KeepsApps :=
  Only.bindE applyAll_keepsApps fun _ => keepsApps_routing generateAndReload_routing

theorem record_keepsApps {f : Result α} (rest : f.run.Only KeepsApps) :
    (do State.writeActive s c
        State.writeActiveSha s sha
        f : Result α).run.Only KeepsApps := by
  refine Only.bindE (keepsApps_only (P := (· = .color s)) writeActive_only (by simp)) fun _ => ?_
  refine Only.bindE (keepsApps_only (P := (· = .sha s)) writeActiveSha_only (by simp)) fun _ => rest

theorem cutover_keepsApps : (Deploy.cutover d sha a b).run.Only KeepsApps := by
  refine Only.bindE (reads_keepsApps containerRunning_only) fun _ => ite_only ?_ trivial
  apply record_keepsApps
  refine Only.bindE applyAll_keepsApps fun _ => ?_
  refine Only.bindE (keepsApps_unasked stopContainer_unasked) fun _ => ?_
  exact keepsApps_unasked prune_unasked

theorem redeploy_keepsApps : (Deploy.redeploy d sha a).run.Only KeepsApps :=
  Only.bindE (keepsApps_unasked startInactive_unasked) fun _ => cutover_keepsApps

theorem run_keepsApps : (Deploy.run s sha).run.Only KeepsApps := by
  refine Only.bindE (reads_keepsApps loadDef_only) fun d => ?_
  refine Only.bindE (reads_keepsApps preflight_only) fun _ => ?_
  refine Only.bindE (reads_keepsApps ensureNetwork_only) fun _ => ?_
  refine Only.bindE (reads_keepsApps readActive_only) fun active => ?_
  refine Only.bindE (reads_keepsApps readActiveSha_only) fun recorded => ?_
  refine ite_only ?_ redeploy_keepsApps
  exact Only.bindE (reads_keepsApps containerRunning_only) fun _ => ite_only trivial redeploy_keepsApps

theorem runCutover_keepsApps : (Deploy.runCutover s shaOpt preview).run.Only KeepsApps := by
  refine Only.bindE (reads_keepsApps loadDef_only) fun d => ?_
  refine Only.bindE (reads_keepsApps readActive_only) fun active => ?_
  refine Only.bindE (reads_keepsApps previewStaged_only) fun staged => ?_
  refine Only.bindE (reads_keepsApps listLocal_only) fun images => ?_
  refine Only.bindE (reads_keepsApps containerImageTag_only) fun tag => ?_
  split
  · exact cutover_keepsApps
  · exact Only.bindE (reads_keepsApps containerRunsImage_only) fun _ =>
      ite_only cutover_keepsApps redeploy_keepsApps
  · trivial
  · trivial
  · trivial

theorem pollHealth_keepsApps : (Deploy.pollHealth d a).run.Only KeepsApps := by
  unfold Deploy.pollHealth Deploy.awaitHealth
  split
  · refine Only.bindE (ofExcept_only _) fun port => ?_
    refine Only.bindE (keepsApps_unasked (waitForTcpInContainer_unasked _)) fun _ => ?_
    exact ite_only trivial trivial
  · refine Only.bindE (keepsApps_unasked (waitForDockerHealthy_unasked _)) fun _ => ?_
    exact ite_only trivial trivial

theorem rollback_keepsApps :
    (do let d ← context ("unknown service: " ++ s) (← attempt (loadService s))
        let active ← State.readActive s
        Ui.doRollback d s (flip active) : Result Unit).run.Only KeepsApps := by
  refine Only.bindE (reads_keepsApps (attempt_only loadService_only)) fun loaded => ?_
  refine Only.bindE (context_only _ _) fun d => ?_
  refine Only.bindE (reads_keepsApps readActive_only) fun active => ?_
  refine call_only (keepsApps_of_part nofun) fun inspected => ?_
  cases inspected with
  | error e => trivial
  | ok info =>
    refine ite_only trivial (call_only (keepsApps_of_part nofun) fun started => ?_)
    refine Only.bindE (context_only _ _) fun _ => ?_
    refine Only.bindE (attempt_only pollHealth_keepsApps) fun polled => ?_
    cases polled with
    | error e =>
      exact Only.bindE (attempt_only (keepsApps_unasked stopContainer_unasked)) fun _ => trivial
    | ok =>
      apply record_keepsApps
      refine Only.bindE (attempt_only applyAll_keepsApps) fun _ => ?_
      refine Only.bindE (context_only _ _) fun _ => ?_
      exact keepsApps_unasked stopContainer_unasked

theorem recreate_keepsApps : (Deploy.recreateActiveContainer s).run.Only KeepsApps := by
  refine Only.bindE (reads_keepsApps loadService_only) fun d => ?_
  refine Only.bindE (reads_keepsApps colorOrBlue_only) fun color => ?_
  refine Only.bindE (reads_keepsApps readActiveSha_only) fun recorded => ?_
  cases recorded with
  | none => trivial
  | some sha =>
    refine Only.bindE (keepsApps_unasked removeContainerIfExists_unasked) fun _ => ?_
    refine Only.bindE (keepsApps_unasked startContainer_unasked) fun _ => ?_
    refine Only.bindE (attempt_only applyAll_keepsApps) fun _ => ?_
    exact Only.bindE (context_only _ _) fun _ => trivial

theorem mcpRollback_keepsApps : (Mcp.rollback s).run.Only KeepsApps := by
  refine Only.bindE (reads_keepsApps (attempt_only loadService_only)) fun loaded => ?_
  refine Only.bindE (context_only _ _) fun _ => ?_
  refine Only.bindE (reads_keepsApps readActiveSha_only) fun activeSha => ?_
  refine Only.bindE (reads_keepsApps listLocal_only) fun images => ?_
  split
  · trivial
  · exact run_keepsApps

theorem connectInit_keepsApps {f : Result α} (rest : f.run.Only KeepsApps) :
    (do Db.connect; Db.init; f : Result α).run.Only KeepsApps :=
  Only.bindE (reads_keepsApps connect_only) fun _ =>
    Only.bindE (keepsApps_unasked Diagnose.init_unasked) fun _ => rest

theorem dropPreview_keepsApps : (Cli.dropPreview s).run.Only KeepsApps := by
  refine Only.bindE (keepsApps_only (P := (· = .previews)) deletePreview_only (by simp)) fun _ => ?_
  exact ite_only reloadProxies_keepsApps trivial

theorem withLock_keepsApps {body : Result α} {refusal : String → String}
    (rest : body.run.Only KeepsApps) : (withLock s refusal body).run.Only KeepsApps :=
  withLock_only (keepsApps_of_part nofun) (keepsApps_of_part nofun) rest

end Footprints

/-- An operation on the rows of `apps`. -/
def Operation.WritesApps : Operation → Bool
  | .addApp _ => true
  | .removeApp _ => true
  | .setAppSource _ _ => true
  | _ => false

/-! ### Programs that leave both tables alone -/

theorem sparesPreviews_of_quiet {q : Prog sig α} (only : q.Only Quiet) : q.Only SparesPreviews :=
  (labors_of_quiet only).mono fun _ labors => labors.1.1

theorem reads_keepsRows {x : Result α} (only : x.run.Only Reads) : x.run.Only KeepsRows :=
  (reads_keepsApps only).and (sparesPreviews_of_quiet (quiet_of_reads only))

theorem init_keepsRows : Db.init.run.Only KeepsRows :=
  (keepsApps_unasked Diagnose.init_unasked).and
    (sparesPreviews_of_quiet (quiet_of_migrates init_only))

theorem connectInit_keepsRows {f : Result α} (rest : f.run.Only KeepsRows) :
    (do Db.connect; Db.init; f : Result α).run.Only KeepsRows :=
  Only.bindE (reads_keepsRows connect_only) fun _ => Only.bindE init_keepsRows fun _ => rest

theorem reloadProxies_keepsRows : reloadProxies.run.Only KeepsRows := by
  refine reloadProxies_keepsApps.and (Only.bindE ?_ fun _ => ?_)
  · exact (works_of_reloads applyAll_only).mono fun _ works => works.1
  · exact sparesPreviews_of_quiet generateAndReload_only

theorem diagnose_keepsRows : Diagnose.run.run.Only KeepsRows := by
  refine Only.bindE (reads_keepsRows (attempt_only loadAll_only)) fun loaded => ?_
  refine Only.bindE (context_only _ _) fun defs => ?_
  refine Only.bindE (reads_keepsRows (attempt_only connect_only)) fun connected => ?_
  refine Only.bindE (context_only _ _) fun _ => ?_
  refine Only.bindE (attempt_only init_keepsRows) fun migrated => ?_
  refine Only.bindE (context_only _ _) fun _ => ?_
  refine Only.bindE (reads_keepsRows (attempt_only listPreviews_only)) fun listed => ?_
  refine Only.bindE (context_only _ _) fun previews => ?_
  refine Only.bindE (reads_keepsRows (checkServices_only _ _)) fun services => ?_
  refine Only.bindE (reads_keepsRows (attempt_only routeMap_only)) fun mapped => ?_
  refine Only.bindE (context_only _ _) fun unified => ?_
  refine call_only ⟨keepsApps_of_part nofun, nofun⟩ fun domain => ?_
  refine call_only ⟨keepsApps_of_part nofun, nofun⟩ fun listening => ?_
  exact Only.bindE (reads_keepsRows (checkRoutes_only _ _ _ _)) fun _ => trivial

theorem getRoutes_keepsRows : Mcp.getRoutes.run.Only KeepsRows := by
  refine Only.bindE (reads_keepsRows loadAll_only) fun defs => ?_
  refine call_only ⟨keepsApps_of_part nofun, nofun⟩ fun domain => ?_
  refine Only.bindE (reads_keepsRows (readColors_only defs)) fun colors => ?_
  apply connectInit_keepsRows
  refine Only.bindE (reads_keepsRows routeMap_only) fun routes => ?_
  exact call_only ⟨keepsApps_of_part nofun, nofun⟩ fun _ => trivial

theorem getAppStatus_keepsRows : Mcp.getAppStatus.run.Only KeepsRows := by
  apply connectInit_keepsRows
  refine Only.bindE (reads_keepsRows listApps_only) fun apps => ?_
  refine Only.bindE (reads_keepsRows (attempt_only containerExec_only)) fun out => ?_
  exact Only.bindE (context_only _ _) fun _ => ite_only trivial trivial

/-- An operation that writes rows of which routes are made. -/
def Operation.Reroutes : Operation → Bool
  | .addApp _ => true
  | .removeApp _ => true
  | .deployPreview _ _ _ => true
  | .cutover _ _ => true
  | .cancelPreview _ => true
  | _ => false

/-- The operations that write neither table. -/
theorem Operation.keepsRows (apps : op.WritesApps = false) (routes : op.Reroutes = false) :
    op.perform.Only KeepsRows := by
  cases op with
  | deploy => exact (withLock_keepsApps run_keepsApps).and deploy_spares
  | dashboardRollback => exact (withLock_keepsApps rollback_keepsApps).and runRollback_spares
  | mcpRollback => exact mcpRollback_keepsApps.and mcpRollback_applies.spares
  | recreate =>
    exact Only.bindE (recreate_keepsApps.and recreateActiveContainer_applies.spares) fun _ => trivial
  | restartService =>
    refine Only.bindE (attempt_only ?_) fun r => Only.bindE (context_only _ _) fun _ => trivial
    exact recreate_keepsApps.and recreateActiveContainer_applies.spares
  | reloadRoutes =>
    apply connectInit_keepsRows
    exact Only.bindE (reads_keepsRows syncS6_only) fun _ => reloadProxies_keepsRows
  | mcpReloadRoutes => exact reloadProxies_keepsRows
  | diagnose => exact Only.bindE diagnose_keepsRows fun _ => trivial
  | getRoutes => exact Only.bindE getRoutes_keepsRows fun _ => trivial
  | listApps =>
    exact Only.bindE (connectInit_keepsRows (reads_keepsRows listApps_only)) fun _ => trivial
  | getAppStatus => exact Only.bindE getAppStatus_keepsRows fun _ => trivial
  | addApp | removeApp | setAppSource => cases apps
  | deployPreview | cutover | cancelPreview => cases routes

theorem Operation.keepsApps (keeps : op.WritesApps = false) : op.perform.Only KeepsApps := by
  cases routes : op.Reroutes with
  | false => exact (op.keepsRows keeps routes).mono fun _ rows => rows.1
  | true =>
    cases op with
    | deployPreview =>
      apply withLock_keepsApps
      refine Only.bindE (reads_keepsApps loadService_only) fun d => ?_
      refine Only.bindE (ofExcept_only _) fun port => ?_
      refine Only.bindE (keepsApps_unasked runStartInactive_unasked) fun b => connectInit_keepsApps ?_
      refine Only.bindE ?_ fun _ => reloadProxies_keepsApps
      exact keepsApps_only (P := (· = .previews)) upsertPreview_only (by simp)
    | cutover =>
      apply withLock_keepsApps
      apply connectInit_keepsApps
      refine Only.bindE (reads_keepsApps findPreview_only) fun preview => ?_
      exact Only.bindE runCutover_keepsApps fun _ => dropPreview_keepsApps
    | cancelPreview =>
      apply withLock_keepsApps
      refine Only.bindE (keepsApps_unasked runCancelInactive_unasked) fun _ => ?_
      exact connectInit_keepsApps dropPreview_keepsApps
    | addApp | removeApp => cases keeps
    | _ => cases routes

/-! ### The registry of apps -/

theorem reloadAfter_keepsApps {done : String} : (Mcp.reloadAfter done).run.Only KeepsApps := by
  refine Only.bindE (attempt_only applyAll_keepsApps) fun _ => Only.bindE (context_only _ _) fun _ => ?_
  refine Only.bindE (attempt_only (keepsApps_routing generateAndReload_routing)) fun _ => ?_
  exact context_only _ _

/-- What an operation may make of the rows. -/
def Operation.Alters (rows : List AppRecord) : Operation → List AppRecord → Prop
  | .addApp p, rows' => rows' = rows ∨ rows' = rows ++ [p.record]
  | .removeApp name, rows' => rows' = rows ∨ (∃ app ∈ rows, app.name = name ∧ app.source ≠ "build") ∧
      rows' = rows.filter (·.name != name)
  | .setAppSource name source, rows' => rows' = rows ∨ rows' = rows.map (AppRecord.mark name source)
  | _, rows' => rows' = rows

section Alters

variable {T : List AppRecord → Prop}

/-- Up to the statement that writes. -/
theorem rows_bind {x : Result α} {f : α → Result β} (only : x.run.Only KeepsApps)
    (start : h.db.appRows = rows) (kept : T rows)
    (next : ∀ a h', h'.db.appRows = rows → Ends site (fun _ h' => T h'.db.appRows) (f a).run h') :
    Ends site (fun _ h' => T h'.db.appRows) (x >>= f).run h := by
  refine bind_ends (keepsApps_ends only start) next fun _ _ same => ?_
  rwa [same]

/-- From the statement that writes on. -/
theorem rows_write {q : Database.Call} {f : (Call.db q).Reply → Result α} {g : α → Result β}
    (write : ∀ r h', steps site (.db q) h r h' → T h'.db.appRows)
    (reply : ∀ r, (f r).run.Only KeepsApps) (rest : ∀ a, (g a).run.Only KeepsApps) :
    Ends site (fun _ h' => T h'.db.appRows) ((call (.db q) >>= f) >>= g).run h := by
  refine bind_ends (R := fun _ h' => T h'.db.appRows) (call_ends fun r h' step => ?_)
    (fun a h' written => ?_) fun _ _ written => written
  · refine (keepsApps_ends (reply r) rfl).post fun _ _ same => ?_
    rw [same]
    exact write r h' step
  · refine (keepsApps_ends (rest a) rfl).post fun _ _ same => ?_
    rwa [same]

theorem addApp_alters :
    Ends site (fun _ h' => (Operation.addApp p).Alters h.db.appRows h'.db.appRows)
      (Mcp.addApp p).run h := by
  have kept : (Operation.addApp p).Alters h.db.appRows h.db.appRows := .inl rfl
  unfold Mcp.addApp
  split
  · exact kept
  refine rows_bind (reads_keepsApps (attempt_only containerExec_only)) rfl kept fun _ h₁ same => ?_
  refine rows_bind (context_only _ _) same kept fun out h₂ same => ?_
  split
  · exact .inl same
  refine rows_bind (reads_keepsApps connect_only) same kept fun _ h₃ same => ?_
  refine rows_bind (keepsApps_unasked Diagnose.init_unasked) same kept fun _ h₄ same => ?_
  unfold Mcp.insertApp
  refine rows_bind ?_ same kept fun claimed h₅ same => ?_
  · exact call_only id fun _ => Only.bindE (context_only _ _) fun _ => trivial
  split
  · exact .inl same
  refine rows_bind (reads_keepsApps findApp_only) same kept fun other h₆ same => ?_
  split
  · exact .inl same
  dsimp only
  split
  · exact .inl same
  refine rows_write (fun r h' step => ?_) (fun _ => context_only _ _) fun _ => ?_
  · obtain ⟨_, _, ans⟩ := step
    rw [← same]
    exact Database.answer_insertApp (answer_db ans).1
  · refine Only.bindE (reads_keepsApps syncS6_only) fun _ => ite_only ?_ reloadAfter_keepsApps
    exact Only.bindE (reads_keepsApps linkApp_only) fun _ => reloadAfter_keepsApps

theorem findAppByName_finds :
    Finds (steps site) h (fun found => ∀ app, found = some app → app ∈ h.db.appRows ∧ app.name = name)
      (Db.findAppByName name) := by
  refine (listApps_finds le_rfl).bind fun apps found => ?_
  subst found
  refine .pure fun app there => ?_
  exact ⟨(List.mem_insertionSort _).mp (List.mem_of_find?_eq_some there),
    by simpa using List.find?_some there⟩

theorem removeApp_alters :
    Ends site (fun _ h' => (Operation.removeApp name).Alters h.db.appRows h'.db.appRows)
      (Mcp.removeApp name).run h := by
  have kept : (Operation.removeApp name).Alters h.db.appRows h.db.appRows := .inl rfl
  refine rows_bind (reads_keepsApps connect_only) rfl kept fun _ h₁ same => ?_
  refine rows_bind (keepsApps_unasked Diagnose.init_unasked) same kept fun _ h₂ same => ?_
  refine findAppByName_finds.ends (fun found there => ?_) fun e => .inl same
  cases found with
  | none => exact .inl same
  | some app =>
    dsimp only
    split
    · exact .inl same
    next runtime =>
      obtain ⟨mem, named⟩ := there app rfl
      rw [same] at mem
      refine rows_bind (reads_keepsApps (attempt_only containerExec_only)) same kept fun _ h₃ same => ?_
      refine rows_write (fun r h' step => ?_) (fun _ => Only.bindE (context_only _ _) fun _ => trivial)
        fun _ => Only.bindE (reads_keepsApps syncS6_only) fun _ => reloadAfter_keepsApps
      obtain ⟨_, _, ans⟩ := step
      rw [← same]
      rw [← same] at mem
      exact (Database.answer_deleteApp (answer_db ans).1).imp id fun rows =>
        ⟨⟨app, mem, named, runtime⟩, rows⟩

theorem setAppSource_alters :
    Ends site (fun _ h' => (Operation.setAppSource name source).Alters h.db.appRows h'.db.appRows)
      (Cli.setAppSource name source).run h := by
  have kept : (Operation.setAppSource name source).Alters h.db.appRows h.db.appRows := .inl rfl
  unfold Cli.setAppSource
  split
  · exact kept
  refine rows_bind (reads_keepsApps connect_only) rfl kept fun _ h₁ same => ?_
  refine rows_bind (keepsApps_unasked Diagnose.init_unasked) same kept fun _ h₂ same => ?_
  refine rows_write (fun r h' step => ?_) (fun _ => Only.bindE (context_only _ _) fun _ => trivial)
    fun _ => ite_only (reads_keepsApps syncS6_only) trivial
  obtain ⟨_, _, ans⟩ := step
  rw [← same]
  exact Database.answer_updateSource (answer_db ans).1

theorem Operation.alters :
    Ends site (fun _ h' => op.Alters h.db.appRows h'.db.appRows) op.perform h := by
  cases writes : op.WritesApps with
  | false =>
    refine (keepsApps_ends (op.keepsApps writes) rfl).post fun _ _ same => ?_
    cases op with
    | addApp | removeApp | setAppSource => cases writes
    | _ => exact same
  | true =>
    cases op with
    | addApp p => exact addApp_alters
    | removeApp name => exact removeApp_alters
    | setAppSource name source => exact setAppSource_alters
    | _ => cases writes

end Alters

/-- The operation may remove the row of `app`, or mark it. -/
def Operation.Withdraws (app : AppRecord) : Operation → Prop
  | .removeApp name => name = app.name ∧ app.source ≠ "build"
  | .setAppSource name _ => name = app.name
  | _ => False

theorem Database.appRows_names (d : Database) : d.appRows.map (·.name) = d.tableRows.map (·.name) := by
  unfold appRows tableRows
  cases table : d.apps with
  | none => rfl
  | some t => simp [migrate_rows]

theorem Operation.Alters.keeps {app : AppRecord} (alters : op.Alters rows rows')
    (names : (rows.map (·.name)).Nodup) (mem : app ∈ rows) (stays : ¬ op.Withdraws app) :
    app ∈ rows' := by
  cases op with
  | addApp p =>
    rcases alters with rfl | rfl
    · exact mem
    · exact List.mem_append_left _ mem
  | removeApp name =>
    rcases alters with rfl | ⟨⟨row, there, rfl, runtime⟩, rfl⟩
    · exact mem
    · refine List.mem_filter.mpr ⟨mem, ?_⟩
      rw [bne_iff_ne]
      intro same
      cases List.inj_on_of_nodup_map names mem there same
      exact stays ⟨rfl, runtime⟩
  | setAppSource name source =>
    rcases alters with rfl | rfl
    · exact mem
    · refine List.mem_map.mpr ⟨app, mem, if_neg ?_⟩
      rw [beq_iff_eq]
      exact fun same => stays same.symm
  | _ => exact (show rows' = rows from alters) ▸ mem

/-- `app` is a row of `rows`, or that of a request in the run, up to what its source was set to. -/
def Registered (rows : List AppRecord) (ops : List Operation) (app : AppRecord) : Prop :=
  ∃ origin, (origin ∈ rows ∨ ∃ p, .addApp p ∈ ops ∧ p.record = origin) ∧
    (app = origin ∨ ∃ source, .setAppSource origin.name source ∈ ops ∧ app = { origin with source })

theorem Registered.later {app : AppRecord} {ops : List Operation} (was : Registered rows ops app) :
    Registered rows (op :: ops) app := by
  obtain ⟨origin, come, now⟩ := was
  exact ⟨origin, come.imp id fun ⟨p, mem, same⟩ => ⟨p, .tail _ mem, same⟩,
    now.imp id fun ⟨source, mem, same⟩ => ⟨source, .tail _ mem, same⟩⟩

theorem Operation.Alters.registered {app : AppRecord} {ops : List Operation} {start : List AppRecord}
    (alters : op.Alters rows rows') (was : ∀ row ∈ rows, Registered start ops row)
    (mem : app ∈ rows') : Registered start (op :: ops) app := by
  cases op with
  | addApp p =>
    rcases alters with rfl | rfl
    · exact (was app mem).later
    · rcases List.mem_append.mp mem with old | new
      · exact (was app old).later
      · exact ⟨p.record, .inr ⟨p, .head _, rfl⟩, .inl (List.mem_singleton.mp new)⟩
  | removeApp name =>
    rcases alters with rfl | ⟨-, rfl⟩
    · exact (was app mem).later
    · exact (was app (List.mem_of_mem_filter mem)).later
  | setAppSource name source =>
    rcases alters with rfl | rfl
    · exact (was app mem).later
    · obtain ⟨row, there, rfl⟩ := List.mem_map.mp mem
      unfold AppRecord.mark
      split
      · next same =>
        obtain ⟨origin, come, now⟩ := (was row there).later
        rw [beq_iff_eq] at same
        refine ⟨origin, come, .inr ⟨source, ?_, ?_⟩⟩
        · rcases now with rfl | ⟨_, _, rfl⟩ <;> exact same ▸ .head _
        · rcases now with rfl | ⟨_, _, rfl⟩ <;> rfl
      · exact (was row there).later
  | _ => exact (was app ((show rows' = rows from alters) ▸ mem)).later

/-- Whatever runs one after the other, and wherever it fails: the rows of the table keep distinct names
and subdomains, a row stays as it is while no operation on its app removes or marks it (which
`remove_app` cannot do to a build app), and none comes from anywhere but a request. -/
theorem apps_accounted {log : List (Operation × Except String Unit)} (named : Named h₀)
    (run : Serial (steps site) Operation.perform (fun _ _ => True) h₀ log h) :
    Named h ∧
      (∀ app ∈ h₀.db.appRows, (∀ e ∈ log, ¬ e.1.Withdraws app) → app ∈ h.db.appRows) ∧
      ∀ app ∈ h.db.appRows, Registered h₀.db.appRows (log.map (·.1)) app := by
  induction run with
  | nil => exact ⟨named, fun _ mem _ => mem, fun app mem => ⟨app, .inl mem, .inl rfl⟩⟩
  | @cons log h₁ op r h₂ _ _ last ih =>
    obtain ⟨named₁, stays, registered⟩ := ih
    have alters : op.Alters h₁.db.appRows h₂.db.appRows := op.alters.finishes last
    refine ⟨last.keeps (fun _ _ _ _ step named => named_step named step) named₁, ?_, ?_⟩
    · intro app mem others
      have there := stays app mem fun e mem => others e (.tail _ mem)
      refine alters.keeps ?_ there (others _ (.head _))
      rw [Database.appRows_names]
      exact named₁.1
    · exact fun app mem => alters.registered registered mem

/-- An app that is baked into the image. -/
def bakedApp : AppRecord := { startedApp.record with source := "build" }

def bakedHost : Host :=
  { appsHost with
    db :=
      { apps := some { hasNoCache := true, hasSource := true, rows := [bakedApp] }
        previews := some [] } }

/-- It cannot be removed. -/
theorem apps_accounted_baked :
    ∃ (log : List (Operation × Except String Unit)) (h : Host),
      log.map (·.1) = [.removeApp "web"] ∧ Named h ∧ bakedApp ∈ h.db.appRows := by
  have played : (playSerial (Call.answer appsSite) anyChoice Operation.perform
      [(.removeApp "web", Scenario.oks 6)] ([], bakedHost)).map (fun x => x.1.map (·.2.isOk)) =
      some [false] := by decide
  obtain ⟨⟨log, h⟩, ran, -⟩ := Option.map_eq_some_iff.mp played
  have ops : log.map (·.1) = [.removeApp "web"] := playSerial_ops ran
  have run : Serial (steps appsSite) Operation.perform (fun _ _ => True) bakedHost log h :=
    playSerial_serial (fun _ _ _ => trivial) .nil ran
  have named : Named bakedHost := ⟨List.nodup_singleton _, List.nodup_singleton _⟩
  obtain ⟨named, stays, -⟩ := apps_accounted named run
  refine ⟨log, h, ops, named, stays bakedApp (List.mem_singleton_self _) fun e mem withdraws => ?_⟩
  have same : e.1 = .removeApp "web" := by
    rw [← List.mem_singleton, ← ops]
    exact List.mem_map_of_mem mem
  rw [same] at withdraws
  exact withdraws.2 rfl

/-! ### What Caddy serves of the tables -/

/-- Caddy serves the routes of the tables, over some static routes. -/
def Host.CaddyCurrent (h : Host) (site : Site) : Prop :=
  ∃ statics, h.proxy.loaded.routes = h.routesOver site statics

theorem Host.CaddyCurrent.same (current : h.CaddyCurrent site)
    (loaded : h'.proxy.loaded = h.proxy.loaded) (apps : h'.db.appRows = h.db.appRows)
    (previews : h'.db.previewRows = h.db.previewRows) : h'.CaddyCurrent site := by
  obtain ⟨statics, routes⟩ := current
  refine ⟨statics, ?_⟩
  rw [loaded, routes, Host.routesOver, Host.routesOver, apps, previews]

/-- A call that changes neither the rows nor what Caddy has loaded. -/
def Aside (c : Call) : Prop := SparesCaddy c ∧ KeepsApps c ∧ SparesPreviews c

theorem Aside.step {c : Call} {r : c.Reply} (aside : Aside c) (step : steps site c h r h')
    (current : h.CaddyCurrent site) : h'.CaddyCurrent site := by
  have same : h.SameBut (· = c.part) h' := steps_sameBut step rfl
  exact current.same (same.loaded (Ne.symm aside.1.2)) (appRows_step step aside.2.1)
    (same.previews (Ne.symm aside.2.2))

/-- When `apply_all` fails Caddy goes on with what it had. -/
theorem applyAll_failed :
    Ends site (fun r h' => r = .ok () ∨ h'.proxy.loaded = h.proxy.loaded) Caddy.applyAll.run h := by
  refine (Finds.of_only loadAll_only).ends (fun defs _ => ?_) fun e => .inr rfl
  intro domain h' read
  refine ⟨trivial, ?_⟩
  obtain ⟨rfl, rfl⟩ := loadDomain_step read
  refine (Finds.of_only (readColors_only defs)).ends (fun colors _ => ?_) fun e => .inr rfl
  refine (Finds.of_only connect_only).ends (fun _ _ => ?_) fun e => .inr rfl
  refine (Finds.of_only routeMap_only).ends (fun routes _ => ?_) fun e => .inr rfl
  refine fun written h₁ write => ⟨trivial, ?_⟩
  obtain ⟨o, wrote, -⟩ := proxy_step write
  have loaded := Proxy.answer_loaded wrote nofun
  cases written with
  | error e => exact .inr loaded
  | ok =>
    refine fun reloaded h₂ reload => ⟨trivial, ?_⟩
    obtain ⟨o', served, -⟩ := proxy_step reload
    rcases Proxy.answer_reloadCaddy served with ⟨rfl, -⟩ | ⟨⟨e, rfl⟩, same⟩
    · exact .inl rfl
    · exact .inr (by rw [same, loaded])

theorem applyAll_keeps (current : h.CaddyCurrent site) :
    Ends site (fun _ h' => h'.CaddyCurrent site) Caddy.applyAll.run h := by
  refine (applyAll_current.and applyAll_failed).mono (fun _ _ _ _ _ _ => trivial) ?_
  rintro r h' ⟨⟨db, served⟩, rfl | loaded⟩
  · exact served _ rfl
  · exact current.same loaded (by rw [db]) (by rw [db])

theorem applies_keeps {x : Result α} (applies : Applies SparesCaddy x) (rows : x.run.Only KeepsRows)
    (current : h.CaddyCurrent site) : Ends site (fun _ h' => h'.CaddyCurrent site) x.run h :=
  applies.keeps rows (fun _ _ _ _ spares keeps step => Aside.step ⟨spares, keeps⟩ step)
    (fun _ => applyAll_keeps) current

theorem reads_keeps {x : Result α} (reads : x.run.Only Reads) (current : h.CaddyCurrent site) :
    Ends site (fun _ h' => h'.CaddyCurrent site) x.run h :=
  applies_keeps (spares_of_quiet (quiet_of_reads reads)) (reads_keepsRows reads) current

theorem init_keeps (current : h.CaddyCurrent site) :
    Ends site (fun _ h' => h'.CaddyCurrent site) Db.init.run h :=
  applies_keeps (spares_of_quiet (quiet_of_migrates init_only)) init_keepsRows current

/-! ### The source of an app -/

/-- The source of an app is no part of its route. -/
theorem routesOver_mark {statics : List StaticRoute}
    (apps : h'.db.appRows = h.db.appRows.map (AppRecord.mark name source))
    (previews : h'.db.previewRows = h.db.previewRows) :
    h'.routesOver site statics = h.routesOver site statics := by
  have named (r : AppRecord) : (r.mark name source).name = r.name := by
    unfold AppRecord.mark
    split <;> rfl
  have routes : appRoute ∘ AppRecord.mark name source = appRoute := by
    funext r
    unfold Function.comp AppRecord.mark
    split <;> rfl
  have sorted : (h.db.appRows.map (AppRecord.mark name source)).insertionSort (·.name ≤ ·.name) =
      (h.db.appRows.insertionSort (·.name ≤ ·.name)).map (AppRecord.mark name source) := by
    refine (List.map_insertionSort (r := fun a b : AppRecord => a.name ≤ b.name)
      (s := fun a b : AppRecord => a.name ≤ b.name) _ _ ?_).symm
    intro a _ b _
    rw [named, named]
  rw [Host.routesOver, Host.routesOver, apps, previews, sorted, buildRouteMap, buildRouteMap,
    List.map_map, routes]

theorem setAppSource_keeps (current : h.CaddyCurrent site) :
    Ends site (fun _ h' => h'.CaddyCurrent site) (Cli.setAppSource name source).run h := by
  unfold Cli.setAppSource
  split
  · exact current
  refine bind_ends (reads_keeps connect_only current) (fun _ h₁ current => ?_) fun _ _ kept => kept
  refine bind_ends (init_keeps current) (fun _ h₂ current => ?_) fun _ _ kept => kept
  refine bind_ends (R := fun _ h' => h'.CaddyCurrent site) ?_ (fun changed h₃ current => ?_)
    fun _ _ kept => kept
  · refine call_ends fun r h' step => ?_
    have same : h₂.SameBut (· = .tables) h' := steps_sameBut step rfl
    have marked : h'.CaddyCurrent site := by
      obtain ⟨_, _, ans⟩ := step
      rcases Database.answer_updateSource (answer_db ans).1 with rows | rows
      · exact current.same (same.loaded (by simp)) rows (same.previews (by simp))
      · obtain ⟨statics, routes⟩ := current
        refine ⟨statics, ?_⟩
        rw [same.loaded (by simp), routes, routesOver_mark rows (same.previews (by simp))]
    cases r <;> exact marked
  · split
    · exact reads_keeps syncS6_only current
    · exact current

theorem Operation.keepsCaddy (keeps : op.Reroutes = false) (current : h.CaddyCurrent site) :
    Ends site (fun _ h' => h'.CaddyCurrent site) op.perform h := by
  cases writes : op.WritesApps with
  | false => exact applies_keeps op.applies (op.keepsRows writes keeps) current
  | true =>
    cases op with
    | setAppSource name source => exact setAppSource_keeps current
    | addApp | removeApp => cases keeps
    | _ => cases writes

/-! ### Operations that write rows and reload -/

abbrev Lands (site : Site) (x : Result Unit) (h : Host) : Prop :=
  Ends site (OnOk fun _ h' => h'.CaddyCurrent site) x.run h

theorem reloadProxies_lands : Lands site reloadProxies h := by
  refine bind_ends applyAll_current (fun u h₁ ⟨_, served⟩ => ?_) fun _ _ _ => trivial
  refine generateAndReload_current.post fun r h₂ ⟨db, loaded, _⟩ => ?_
  cases r with
  | error e => trivial
  | ok => exact Host.CaddyCurrent.same (served u rfl) loaded (by rw [db]) (by rw [db])

theorem reloadAfter_lands {done : String} : Lands site (Mcp.reloadAfter done) h := by
  refine Safe.liftE applyAll_current fun applied h₁ ⟨_, served⟩ => ?_
  cases applied with
  | error e => trivial
  | ok u =>
    refine Safe.liftE generateAndReload_current fun generated h₂ ⟨db, loaded, _⟩ => ?_
    cases generated with
    | error e => trivial
    | ok => exact Host.CaddyCurrent.same (served u rfl) loaded (by rw [db]) (by rw [db])

theorem dropPreview_lands (current : h.CaddyCurrent site) : Lands site (Cli.dropPreview s) h := by
  refine bind_ends (R := fun r h' => r = .ok false → h'.CaddyCurrent site) ?_
    (fun dropped h₁ kept => ?_) fun _ _ _ => trivial
  · refine call_ends fun r h' step => ?_
    have same : h.SameBut (· = .previews) h' := steps_sameBut step rfl
    have apps : h'.db.appRows = h.db.appRows := appRows_step step id
    obtain ⟨_, _, ans⟩ := step
    rcases Database.answer_deletePreview (answer_db ans).1 with ⟨-, failed⟩ | ⟨rows, rfl⟩
    · cases r with
      | error e => exact nofun
      | ok n => exact absurd rfl (failed n)
    · intro none
      have none : h.db.previewRows.countP (·.service == s) = 0 := by
        simpa using Except.ok.inj none
      refine current.same (same.loaded (by simp)) apps ?_
      rw [rows, List.filter_eq_self]
      intro q mem
      simpa using List.countP_eq_zero.mp none q mem
  · cases dropped with
    | true => exact reloadProxies_lands
    | false => exact kept rfl

theorem withLock_lands {body : Result Unit} {refusal : String → String}
    (current : h.CaddyCurrent site)
    (lands : ∀ h', h'.CaddyCurrent site → Lands site body h') :
    Lands site (withLock s refusal body) h := by
  have locks (c : Call) (part : c.part = .lock s) : Aside c :=
    ⟨⟨by simp [part], by simp [part]⟩, keepsApps_of_part (by simp [part]),
      by simp [SparesPreviews, part]⟩
  refine call_ends fun acquired h₁ step => ?_
  have current := (locks _ rfl).step step current
  cases acquired with
  | error e => trivial
  | ok =>
    refine Safe.liftE (lands h₁ current) fun r h₂ landed => ?_
    refine call_ends fun _ h₃ released => ?_
    cases r with
    | error e => trivial
    | ok => exact (locks _ rfl).step released landed

theorem keeps_lands {x : Result α} {f : α → Result Unit}
    (keeps : Ends site (fun _ h' => h'.CaddyCurrent site) x.run h)
    (next : ∀ a h', h'.CaddyCurrent site → Lands site (f a) h') : Lands site (x >>= f) h :=
  bind_ends keeps next fun _ _ _ => trivial

theorem connectInit_lands {f : Result Unit} (current : h.CaddyCurrent site)
    (next : ∀ h', h'.CaddyCurrent site → Lands site f h') :
    Lands site (do Db.connect; Db.init; f) h := by
  refine keeps_lands (reads_keeps connect_only current) fun _ h₁ current => ?_
  exact keeps_lands (init_keeps current) fun _ => next

theorem addApp_lands : Lands site (Mcp.addApp p) h := by
  unfold Mcp.addApp
  split
  · trivial
  refine after_ends fun check h₁ => after_ends fun out h₂ => ?_
  split
  · trivial
  refine after_ends fun _ h₃ => after_ends fun _ h₄ => ?_
  unfold Mcp.insertApp
  refine after_ends fun claimed h₅ => ?_
  split
  · trivial
  refine after_ends fun other h₆ => ?_
  split
  · trivial
  dsimp only
  split
  · trivial
  refine after_ends fun _ h₇ => after_ends fun _ h₈ => ?_
  split
  · exact after_ends fun _ h₉ => reloadAfter_lands
  · exact reloadAfter_lands

theorem removeApp_lands : Lands site (Mcp.removeApp name) h := by
  refine after_ends fun _ h₁ => after_ends fun _ h₂ => after_ends fun found h₃ => ?_
  cases found with
  | none => trivial
  | some app =>
    dsimp only
    split
    · trivial
    · exact after_ends fun _ h₄ => after_ends fun _ h₅ => after_ends fun _ h₆ => reloadAfter_lands

theorem Operation.lands (reroutes : op.Reroutes = true) (current : h.CaddyCurrent site) :
    Lands site op.result h := by
  cases op with
  | addApp => exact addApp_lands
  | removeApp => exact removeApp_lands
  | deployPreview =>
    refine withLock_lands current fun h₁ _ => ?_
    refine after_ends fun d h₂ => after_ends fun port h₃ => after_ends fun b h₄ => ?_
    exact after_ends fun _ h₅ => after_ends fun _ h₆ => after_ends fun _ h₇ => reloadProxies_lands
  | cutover =>
    refine withLock_lands current fun h₁ current => connectInit_lands current fun h₂ current => ?_
    refine keeps_lands (reads_keeps findPreview_only current) fun preview h₃ current => ?_
    refine keeps_lands (applies_keeps runCutover_applies.sparing
      (runCutover_keepsApps.and runCutover_applies.spares) current) ?_
    exact fun _ h₄ => dropPreview_lands
  | cancelPreview service =>
    refine withLock_lands current fun h₁ current => ?_
    have apps := keepsApps_unasked (@runCancelInactive_unasked service)
    refine keeps_lands (applies_keeps runCancelInactive_applies.sparing
      (apps.and runCancelInactive_applies.spares) current) ?_
    exact fun _ h₂ current => connectInit_lands current fun h₃ => dropPreview_lands
  | _ => cases reroutes

/-- Whatever runs one after the other, and whatever else fails: as long as each operation that adds or
removes an app or a preview succeeds, Caddy serves the routes of the tables. -/
theorem caddy_current (start : h₀.CaddyCurrent site)
    {log : List (Operation × Except String Unit)}
    (run : Serial (steps site) Operation.perform (fun _ _ => True) h₀ log h)
    (ok : ∀ e ∈ log, e.1.Reroutes = true → e.2 = .ok ()) : h.CaddyCurrent site := by
  induction run with
  | nil => exact start
  | @cons log h₁ op r h₂ _ _ last ih =>
    have current : h₁.CaddyCurrent site := ih fun e mem => ok e (.tail _ mem)
    cases reroutes : op.Reroutes with
    | false => exact (op.keepsCaddy reroutes current).finishes last
    | true =>
      have done : r = .ok () := ok _ (.head _) reroutes
      subst done
      exact (op.lands reroutes current).finishes last

/-- An app is added, and a reload fails after it. -/
theorem caddy_current_started :
    ∃ (log : List (Operation × Except String Unit)) (h : Host), log.map (·.2.isOk) = [false, true] ∧
      appRoute startedApp.record ∈ h.proxy.loaded.routes ∧ h.CaddyCurrent appsSite := by
  have played : (playSerial (Call.answer appsSite) anyChoice Operation.perform
      [(.addApp startedApp, toPolls ++ poll true ++ Scenario.oks 18 ++ [.output ""]),
        (.mcpReloadRoutes, [.fail])] ([], appsHost)).map
        (fun x => (x.1.map (·.2.isOk), decide (appRoute startedApp.record ∈ x.2.proxy.loaded.routes))) =
      some ([false, true], true) := by decide
  obtain ⟨⟨log, h⟩, ran, shown⟩ := Option.map_eq_some_iff.mp played
  obtain ⟨results, served⟩ := Prod.mk.inj shown
  have ops : log.map (·.1) = [.mcpReloadRoutes, .addApp startedApp] := playSerial_ops ran
  have run : Serial (steps appsSite) Operation.perform (fun _ _ => True) appsHost log h :=
    playSerial_serial (fun _ _ _ => trivial) .nil ran
  refine ⟨log, h, results, of_decide_eq_true served, caddy_current ⟨[], rfl⟩ run ?_⟩
  obtain ⟨⟨_, _⟩, _, rfl, rfl, first⟩ := List.map_eq_cons_iff.mp ops
  obtain ⟨⟨_, added⟩, rest, rfl, rfl, none⟩ := List.map_eq_cons_iff.mp first
  cases List.map_eq_nil_iff.mp none
  rintro e mem reroutes
  rcases List.mem_cons.mp mem with rfl | mem
  · cases reroutes
  · cases List.mem_singleton.mp mem
    cases added with
    | ok => rfl
    | error => simp [Except.isOk, Except.toBool] at results

end Codery
