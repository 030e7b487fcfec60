import Codery.Servers

/-! The Caddyfile on disk and the configuration Caddy serves: `apply_all` writes the one before
Caddy has judged it. -/

namespace Codery

open Effect Prog

/-- The Caddyfile is what Caddy serves, so that a restart of Caddy changes nothing. -/
def Proxy.Synced (p : Proxy) : Prop := p.caddyfile = some p.loaded

instance (p : Proxy) : Decidable p.Synced :=
  inferInstanceAs (Decidable (p.caddyfile = some p.loaded))

/-- The call has written the Caddyfile. -/
def Wrote : (c : Call) → c.Reply → Prop
  | .proxy (.writeCaddyfile _), r => r = .ok ()
  | _, _ => False

def IsReload (c : Call) : Prop := c = .proxy .reloadCaddy

/-- Caddy rejects no Caddyfile but one it serves already, and a write of the Caddyfile that fails
leaves it as it was. -/
def Heeded : StepRel sig Host
  | .proxy .reloadCaddy, h, r, _ => r = .ok () ∨ h.proxy.Synced
  | .proxy (.writeCaddyfile _), h, r, h' => r = .ok () ∨ h'.proxy.caddyfile = h.proxy.caddyfile
  | _, _, _, _ => True

/-- The steps of the host, as long as they are heeded. -/
def heedingSteps (site : Site) : StepRel sig Host :=
  fun c h r h' => steps site c h r h' ∧ Heeded c h r h'

variable {site : Site} {h h' h₀ : Host} {α β γ : Type} {s sha n name : String} {c : Color}
  {d : ServiceDef} {op : Operation}

/-! ### Every operation reloads directly after it writes -/

theorem neither_of_spares {c : Call} (spares : SparesCaddy c) :
    ¬ IsReload c ∧ ∀ r, ¬ Wrote c r := by
  constructor
  · rintro rfl
    exact spares.2 rfl
  · intro r wrote
    cases c with
    | proxy q =>
      cases q with
      | writeCaddyfile cfg => exact spares.1 rfl
      | _ => exact wrote
    | _ => exact wrote

theorem follows_of_reads {x : Result α} (hx : x.run.Only Reads) :
    x.run.Follows Wrote IsReload False := by
  refine Follows.of_only (hx.mono fun c hc => ?_) fun _ => neither_of_spares
  rw [SparesCaddy, show c.part = .nothing from hc]
  constructor
  · rintro ⟨⟩
  · rintro ⟨⟩

theorem applyAll_follows : Caddy.applyAll.run.Follows Wrote IsReload False := by
  refine Follows.bindE (follows_of_reads loadAll_only) fun defs => ?_
  refine ⟨iff_of_false nofun id, fun domain => ?_⟩
  refine Follows.bindE (follows_of_reads (readColors_only defs)) fun colors => ?_
  refine Follows.bindE (follows_of_reads connect_only) fun _ => ?_
  refine Follows.bindE (follows_of_reads routeMap_only) fun routes => ?_
  refine ⟨iff_of_false nofun id, fun written => ?_⟩
  cases written with
  | error e => exact nofun
  | ok =>
    refine ⟨iff_of_true rfl rfl, fun reloaded => ?_⟩
    cases reloaded <;> exact not_false

theorem spares_db (q : Database.Call) : SparesCaddy (.db q) := by
  cases q <;> exact ⟨nofun, nofun⟩

theorem db_uses {b : Prog sig γ} {q : Database.Call} {f : (Call.db q).Reply → Result α}
    (hf : ∀ r, Uses SparesCaddy b (f r).run) : Uses SparesCaddy b (call (.db q) >>= f).run :=
  .call (spares_db q) hf

theorem spares_of_quiet {b : Prog sig γ} {x : Result α} (hx : x.run.Only Quiet) :
    Uses SparesCaddy b x.run := (uses_of_quiet hx).mono fun _ both => both.2

theorem Applies.sparing {x : Result α} (h : Applies Labors x) : Applies SparesCaddy x :=
  h.mono fun _ both => both.2

theorem connectInit_uses {b : Prog sig γ} {f : Result α} (hf : Uses SparesCaddy b f.run) :
    Uses SparesCaddy b (do Db.connect; Db.init; f : Result α).run := by
  refine Uses.bindE (spares_of_quiet (quiet_of_reads connect_only)) fun _ => ?_
  exact Uses.bindE (spares_of_quiet (quiet_of_migrates init_only)) fun _ => hf

theorem withLock_uses {b : Prog sig γ} {body : Result α} {refusal : String → String}
    (hb : Uses SparesCaddy b body.run) : Uses SparesCaddy b (withLock s refusal body).run := by
  refine .call ⟨nofun, nofun⟩ fun acquired => ?_
  cases acquired with
  | error e => exact .ret _
  | ok =>
    refine Uses.bindE (Uses.liftE hb) fun r => ?_
    exact .call ⟨nofun, nofun⟩ fun _ => .of_only (ofExcept_only r)

theorem discard_uses {b : Prog sig γ} {x : Result α} (hx : Uses SparesCaddy b x.run) :
    Uses SparesCaddy b (discard x).run := Uses.bindE hx fun _ => .ret _

theorem reloadProxies_applies : Applies SparesCaddy reloadProxies :=
  Uses.bindE .self fun _ => spares_of_quiet generateAndReload_only

theorem dropPreview_applies : Applies SparesCaddy (Cli.dropPreview s) := by
  refine Uses.bindE ?_ fun dropped => ite_uses reloadProxies_applies (.ret _)
  exact db_uses fun r => Uses.bindE (.of_only (context_only _ _)) fun _ => .ret _

theorem syncS6_uses {b : Prog sig γ} : Uses SparesCaddy b Db.syncS6.run :=
  Uses.bindE (spares_of_quiet (quiet_of_reads listApps_only)) fun _ =>
    .call ⟨nofun, nofun⟩ fun _ => .of_only (ofExcept_only _)

theorem containerExec_uses {b : Prog sig γ} {cmd : List String} :
    Uses SparesCaddy b (Mcp.containerExec s cmd).run :=
  Uses.bindE (spares_of_quiet (quiet_of_reads readActive_only)) fun _ =>
    .call ⟨nofun, nofun⟩ fun _ => .of_only (ofExcept_only _)

theorem awaitUp_uses {b : Prog sig γ} (polls : ℕ) : Uses SparesCaddy b (Mcp.awaitUp s polls).run := by
  induction polls with
  | zero => exact .ret _
  | succ polls ih => exact Uses.bindE (Uses.liftE containerExec_uses) fun _ => ite_uses (.ret _) ih

theorem linkApp_uses {b : Prog sig γ} : Uses SparesCaddy b (Mcp.linkApp name).run := by
  refine Uses.bindE (Uses.liftE containerExec_uses) fun linked => ?_
  refine Uses.bindE (.of_only (context_only _ _)) fun _ => ?_
  exact Uses.bindE (awaitUp_uses 10) fun up => ite_uses (.ret _) (.ret _)

theorem reloadAfter_applies {done : String} : Applies SparesCaddy (Mcp.reloadAfter done) := by
  refine Uses.bindE (Uses.liftE .self) fun applied => ?_
  refine Uses.bindE (.of_only (context_only _ _)) fun _ => ?_
  refine Uses.bindE (spares_of_quiet (attempt_only generateAndReload_only)) fun _ => ?_
  exact .of_only (context_only _ _)

theorem insertApp_applies {p : Mcp.AddAppParams} : Applies SparesCaddy (Mcp.insertApp p) := by
  refine Uses.bindE ?_ fun claimed => ite_uses (.ret _) ?_
  · exact db_uses fun r => Uses.bindE (.of_only (context_only _ _)) fun _ => .ret _
  · refine Uses.bindE ?_ fun other => ite_uses (.ret _) (ite_uses (.ret _) ?_)
    · exact spares_of_quiet (Only.bindE (quiet_of_reads listApps_only) fun _ => trivial)
    · refine Uses.bindE (db_uses fun r => .of_only (context_only _ _)) fun _ => ?_
      refine Uses.bindE syncS6_uses fun _ => ?_
      exact ite_uses (Uses.bindE linkApp_uses fun _ => reloadAfter_applies) reloadAfter_applies

theorem addApp_applies {p : Mcp.AddAppParams} : Applies SparesCaddy (Mcp.addApp p) := by
  refine ite_uses (.ret _) ?_
  refine Uses.bindE (Uses.liftE containerExec_uses) fun check => ?_
  refine Uses.bindE (.of_only (context_only _ _)) fun out => ite_uses (.ret _) ?_
  exact connectInit_uses insertApp_applies

theorem removeApp_applies : Applies SparesCaddy (Mcp.removeApp name) := by
  apply connectInit_uses
  refine Uses.bindE ?_ fun found => ?_
  · exact spares_of_quiet (Only.bindE (quiet_of_reads listApps_only) fun _ => trivial)
  · cases found with
    | none => exact .ret _
    | some app =>
      refine ite_uses (.ret _) ?_
      refine Uses.bindE (Uses.liftE containerExec_uses) fun _ => ?_
      refine Uses.bindE ?_ fun _ => Uses.bindE syncS6_uses fun _ => reloadAfter_applies
      exact db_uses fun r => Uses.bindE (.of_only (context_only _ _)) fun _ => .ret _

theorem deployPreview_applies {flag : Option String} :
    Applies SparesCaddy (Cli.deployPreview s sha flag) := by
  apply withLock_uses
  refine Uses.bindE (spares_of_quiet (quiet_of_reads loadService_only)) fun d => ?_
  refine Uses.bindE (.of_only (ofExcept_only _)) fun port => ?_
  refine Uses.bindE (Applies.sparing runStartInactive_applies) fun b => ?_
  apply connectInit_uses
  refine Uses.bindE (db_uses fun r => .of_only (context_only _ _)) fun _ => ?_
  exact reloadProxies_applies

theorem setAppSource_applies {source : String} :
    Applies SparesCaddy (Cli.setAppSource name source) := by
  refine ite_uses (.ret _) (connectInit_uses ?_)
  refine Uses.bindE ?_ fun changed => ite_uses syncS6_uses (.ret _)
  exact db_uses fun r => Uses.bindE (.of_only (context_only _ _)) fun _ => .ret _

theorem getRoutes_uses {b : Prog sig γ} : Uses SparesCaddy b Mcp.getRoutes.run := by
  refine Uses.bindE (spares_of_quiet (quiet_of_reads loadAll_only)) fun defs => ?_
  refine .call ⟨nofun, nofun⟩ fun domain => ?_
  refine Uses.bindE (spares_of_quiet (quiet_of_reads (readColors_only defs))) fun colors => ?_
  apply connectInit_uses
  refine Uses.bindE (spares_of_quiet (quiet_of_reads routeMap_only)) fun routes => ?_
  exact .call ⟨nofun, nofun⟩ fun _ => .ret _

theorem getAppStatus_uses {b : Prog sig γ} : Uses SparesCaddy b Mcp.getAppStatus.run := by
  apply connectInit_uses
  refine Uses.bindE (spares_of_quiet (quiet_of_reads listApps_only)) fun apps => ?_
  refine Uses.bindE (Uses.liftE containerExec_uses) fun out => ?_
  exact Uses.bindE (.of_only (context_only _ _)) fun _ => ite_uses (.ret _) (.ret _)

/-- Every operation reaches Caddy through `apply_all` only. -/
theorem Operation.applies : Applies SparesCaddy op.result := by
  cases op with
  | deploy => exact withLock_uses run_applies.sparing
  | deployPreview => exact deployPreview_applies
  | cutover =>
    apply withLock_uses
    apply connectInit_uses
    refine Uses.bindE (spares_of_quiet (quiet_of_reads findPreview_only)) fun preview => ?_
    exact Uses.bindE runCutover_applies.sparing fun _ => dropPreview_applies
  | cancelPreview =>
    apply withLock_uses
    refine Uses.bindE runCancelInactive_applies.sparing fun _ => ?_
    exact connectInit_uses dropPreview_applies
  | recreate => exact Uses.bindE recreateActiveContainer_applies.sparing fun _ => .ret _
  | reloadRoutes => exact connectInit_uses (Uses.bindE syncS6_uses fun _ => reloadProxies_applies)
  | setAppSource => exact setAppSource_applies
  | diagnose => exact discard_uses (spares_of_quiet diagnose_only)
  | dashboardRollback => exact withLock_uses rollback_applies.sparing
  | mcpRollback => exact mcpRollback_applies.sparing
  | restartService =>
    refine Uses.bindE (Uses.liftE recreateActiveContainer_applies.sparing) fun r => ?_
    exact Uses.bindE (.of_only (context_only _ _)) fun _ => .ret _
  | mcpReloadRoutes => exact reloadProxies_applies
  | getRoutes => exact discard_uses getRoutes_uses
  | addApp => exact addApp_applies
  | removeApp => exact removeApp_applies
  | listApps =>
    exact discard_uses (connectInit_uses (spares_of_quiet (quiet_of_reads listApps_only)))
  | getAppStatus => exact discard_uses getAppStatus_uses

theorem Operation.follows : op.perform.Follows Wrote IsReload False :=
  Follows.of_uses op.applies applyAll_follows fun _ => neither_of_spares

/-! ### What the steps keep -/

/-- Between a write and its reload the Caddyfile is ahead of Caddy; otherwise the two agree. -/
def InStep (due : Prop) (h : Host) : Prop := due ∨ h.proxy.Synced

theorem synced_frame {x : Call} {r : x.Reply} (step : steps site x h r h') (spares : SparesCaddy x)
    (synced : h.proxy.Synced) : h'.proxy.Synced := by
  have same := steps_sameBut step rfl
  rw [Proxy.Synced, same.caddyfile spares.1, same.loaded spares.2]
  exact synced

theorem inStep_reload {r : Except String Unit} (step : steps site (.proxy .reloadCaddy) h r h')
    (heeded : r = .ok () ∨ h.proxy.Synced) : h'.proxy.Synced := by
  obtain ⟨_, _, ans⟩ := step
  have asked := (answer_proxy ans).1
  have file := Proxy.answer_caddyfile asked nofun
  rcases Proxy.answer_reloadCaddy asked with ⟨_, served⟩ | ⟨⟨e, rejected⟩, same⟩
  · rw [Proxy.Synced, file, served]
  · rw [same]
    refine heeded.resolve_left ?_
    rw [rejected]
    nofun

theorem inStep_write {cfg : CaddyConfig} {r : Except String Unit}
    (step : steps site (.proxy (.writeCaddyfile cfg)) h r h')
    (heeded : r = .ok () ∨ h'.proxy.caddyfile = h.proxy.caddyfile) (synced : h.proxy.Synced) :
    r = .ok () ∨ h'.proxy.Synced := by
  obtain ⟨_, _, ans⟩ := step
  have loaded := Proxy.answer_loaded (answer_proxy ans).1 nofun
  refine heeded.imp id fun file => ?_
  rw [Proxy.Synced, file, loaded]
  exact synced

theorem inStep_step : ∀ (x : Call) (h : Host) (r : x.Reply) (h' : Host), InStep (IsReload x) h →
    heedingSteps site x h r h' → InStep (Wrote x r) h' := by
  rintro x h r h' before ⟨step, heeded⟩
  by_cases spares : SparesCaddy x
  · have synced : h.proxy.Synced := before.resolve_left (neither_of_spares spares).1
    exact .inr (synced_frame step spares synced)
  · cases x with
    | proxy q =>
      cases q with
      | writeCaddyfile cfg => exact inStep_write step heeded (before.resolve_left nofun)
      | reloadCaddy => exact .inr (inStep_reload step heeded)
      | _ => exact absurd ⟨nofun, nofun⟩ spares
    | db q => exact absurd (spares_db q) spares
    | docker q => cases q <;> exact absurd ⟨nofun, nofun⟩ spares
    | state q => cases q <;> exact absurd ⟨nofun, nofun⟩ spares
    | _ => exact absurd ⟨nofun, nofun⟩ spares

/-- Whatever the operations, the Caddyfile is what Caddy serves between any two of them, and at
any moment of one but that between a write and its reload. -/
theorem synced_serial {log : List (Operation × Except String Unit)}
    (run : Serial (heedingSteps site) Operation.perform (fun _ _ => True) h₀ log h)
    (start : h₀.proxy.Synced) :
    h.proxy.Synced ∧ ∀ (op : Operation) p h',
      Reaches (heedingSteps site) (op.perform, h) (p, h') →
      (∀ k, p ≠ .call (.proxy .reloadCaddy) k) → h'.proxy.Synced := by
  have now : h.proxy.Synced := by
    refine run.keeps (J := fun h => h.proxy.Synced) start fun op h r h' synced _ finish => ?_
    have after := Follows.finishes (J := InStep) inStep_step finish op.follows (.inr synced)
    exact after.resolve_left id
  refine ⟨now, fun op p h' reached between => ?_⟩
  obtain ⟨due, follows, after⟩ :=
    Follows.reaches (J := InStep) inStep_step reached op.follows (.inr now)
  refine after.resolve_left fun due => ?_
  cases p with
  | ret a => exact follows due
  | call c k =>
    have reload : c = .proxy .reloadCaddy := follows.1.mpr due
    subst reload
    exact between k rfl

/-- A host whose container of apps is up in blue, and whose Caddy serves nothing. -/
def bareHost : Host := { appsHost with proxy := { caddyfile := some {}, loaded := {} } }

def bareSite : Site := { services := ⟨[], .nil⟩, domain := "example.com" }

/-- An app whose subdomain makes no site address. -/
def misnamed : Mcp.AddAppParams where
  name := "api"
  subdomain := "api:v2"
  internalPort := 3001
  command := "bun run start"
  directory := "/home/gem/projects/api"
  source := some "build"

/-- Caddy accepts what it is given, and no write of the Caddyfile is cut short. -/
def accepting : Call → Choice → Bool
  | .proxy .reloadCaddy, .fail => false
  | .proxy (.writeCaddyfile _), .torn _ => false
  | _, _ => true

theorem accepting_le : handler (Call.answer site) accepting ≤ heedingSteps site := by
  rintro c h r h' ⟨o, allowed, ans⟩
  refine ⟨⟨o, rfl, ans⟩, ?_⟩
  cases c with
  | proxy q =>
    have asked := (answer_proxy ans).1
    cases q with
    | reloadCaddy =>
      rcases Proxy.answer_reloadCaddy asked with ⟨accepted, _⟩ | ⟨⟨e, rejected⟩, _⟩
      · exact .inl accepted
      · cases o with
        | ok =>
          obtain ⟨_, _, same⟩ := Option.map_eq_some_iff.mp asked
          exact .inl (Prod.mk.inj same).1.symm
        | fail => cases allowed
        | _ => cases asked
    | writeCaddyfile cfg =>
      cases o with
      | ok => exact .inl (Prod.mk.inj (Option.some.inj asked)).1.symm
      | fail => exact .inr (congrArg Proxy.caddyfile (Prod.mk.inj (Option.some.inj asked)).2.symm)
      | torn => cases allowed
      | _ => cases asked
    | _ => trivial
  | _ => trivial

/-- An app is added, the next write of the Caddyfile fails, and what is on disk is served. -/
theorem synced_serial_apps : ∃ log h,
    Serial (heedingSteps bareSite) Operation.perform (fun _ _ => True) bareHost log h ∧
      log.map Prod.snd = [.error "failed to write /etc/caddy/Caddyfile", .ok ()] ∧
      h.proxy.Synced := by
  have played : (playSerial (Call.answer bareSite) accepting Operation.perform
      [(.addApp { misnamed with subdomain := "api" },
        .ok :: .output "" :: Scenario.oks 28 ++ [.output ""]),
        (.mcpReloadRoutes, Scenario.oks 7 ++ [.fail])] ([], bareHost)).map
        (fun x => x.1.map Prod.snd) =
      some [.error "failed to write /etc/caddy/Caddyfile", .ok ()] := by
    decide
  obtain ⟨log, h, run, results⟩ := playSerial_run (fun _ _ => True) (fun _ _ _ => trivial) played
  have run := run.mono accepting_le fun _ _ => id
  exact ⟨log, h, run, results, (synced_serial run rfl).1⟩

/-- Caddy rejects the site of the app, and goes on serving what it has. -/
theorem not_always_synced :
    ¬ ∀ (site : Site) (h₀ h : Host) (log : List (Operation × Except String Unit)),
      Serial (steps site) Operation.perform (fun _ _ => True) h₀ log h → h₀.proxy.Synced →
      h.proxy.Synced := by
  intro always
  have played : (playSerial (Call.answer bareSite) anyChoice Operation.perform
      [(.addApp misnamed, .ok :: .output "" :: Scenario.oks 18 ++ [.fail])] ([], bareHost)).map
        (fun x => (x.1.length, decide x.2.proxy.Synced)) = some (1, false) := by
    decide
  obtain ⟨log, h, run, shown⟩ := playSerial_run (fun _ _ => True) (fun _ _ _ => trivial) played
  exact of_decide_eq_false (congrArg Prod.snd shown) (always _ _ h log run rfl)

end Codery
