import Codery.Deploy

/-! What an operator or an agent can ask for: the `codery-ci` commands (`main.rs`), the MCP tools
(`mcp.rs`) and the dashboard's rollback (`ui.rs`). -/

namespace Codery

/-- Hold the deploy lock of `service` while `body` runs. -/
def withLock (service : String) (refusal : String → String) (body : Result α) : Result α := do
  match ← call (.tryAcquire service) with
  | .error e => throw (refusal e)
  | .ok _ => do
    let r ← attempt body
    call (.release service)
    ofExcept r

def reloadProxies : Result Unit := do
  Caddy.applyAll
  Nginx.generateAndReload

namespace Ui

def shaFromImageTag (service image : String) : Option String :=
  stripPrefix (Images.tagPrefix service) image

/-- The tail of `do_rollback`, from the health check of the restarted container on. -/
def finishRollback (d : ServiceDef) (service : String) (prevColor : Color) (prevSha : String) :
    Result Unit := do
  let prevContainer := containerName service prevColor
  match ← attempt (Deploy.pollHealth d prevColor) with
  | .error e => do
    let _ ← attempt (Deploy.stopContainer prevContainer)
    throw ("health check failed after restart: " ++ e)
  | .ok _ => do
    State.writeActive service prevColor
    State.writeActiveSha service prevSha
    context "caddy reload failed after state write" (← attempt Caddy.applyAll)
    Deploy.stopContainer (containerName service (flip prevColor))

def doRollback (d : ServiceDef) (service : String) (prevColor : Color) : Result Unit := do
  let prevContainer := containerName service prevColor
  match ← call (.docker (.inspectContainer prevContainer)) with
  | .error _ => throw ("no stopped container for " ++ service)
  | .ok info =>
    if info.running then throw "container is already running — no rollback needed"
    else do
      let prevSha := (shaFromImageTag service info.image).getD "unknown"
      context ("failed to start " ++ prevContainer)
        (← call (.docker (.startContainer prevContainer)))
      finishRollback d service prevColor prevSha

def runRollback (service : String) : Result Unit :=
  withLock service (fun _ => "deploy already in progress for " ++ service) do
    let d ← context ("unknown service: " ++ service) (← attempt (loadService service))
    let active ← State.readActive service
    doRollback d service (flip active)

end Ui

namespace Cli

def lockRefused (command service e : String) : String :=
  "[" ++ command ++ "] ERROR (" ++ service ++ "): " ++ e

def deploy (service sha : String) : Result Unit :=
  withLock service (lockRefused "deploy" service) (Deploy.run service sha)

def resolvePreviewPort (d : ServiceDef) : Except String UInt16 :=
  match d.ports.find? (·.subdomain.isSome) with
  | some p => .ok p.containerPort
  | none =>
    if d.portRange.any fun r => r.containerStart ≤ 8080 && 8080 ≤ r.containerEnd then .ok 8080
    else .error ("no preview port could be auto-resolved for service '" ++ d.service ++
      "'. Pass --port <container_port> explicitly.")

def previewPort (d : ServiceDef) (portFlag : Option String) : Except String UInt16 :=
  match portFlag with
  | some p =>
    match parseU16 p with
    | some n => .ok n
    | none => .error "--port must be a number"
  | none => resolvePreviewPort d

/-- The row `deploy-preview` registers for the color it has started. -/
def previewRecord (d : ServiceDef) (service sha : String) (port : UInt16) (inactive : Color) :
    PreviewRecord :=
  { service, sha, subdomain := previewSubdomain service,
    hostPort := d.portScheme.hostPort inactive port, color := inactive.asStr }

def deployPreview (service sha : String) (portFlag : Option String) : Result Unit :=
  withLock service (lockRefused "deploy-preview" service) do
    let d ← loadService service
    let port ← ofExcept (previewPort d portFlag)
    let inactive ← Deploy.runStartInactive service sha
    Db.connect
    Db.init
    Db.upsertPreview (previewRecord d service sha port inactive)
    reloadProxies

/-- Delete the preview row, and reload the proxies if there was one. -/
def dropPreview (service : String) : Result Unit := do
  if ← Db.deletePreview service then reloadProxies else pure ()

def cutover (service : String) (shaOpt : Option String) : Result Unit :=
  withLock service (lockRefused "cutover" service) do
    Db.connect
    Db.init
    let preview ← Db.findPreview service
    Deploy.runCutover service shaOpt (preview.map (·.sha))
    dropPreview service

def cancelPreview (service : String) : Result Unit :=
  withLock service (lockRefused "cancel-preview" service) do
    Deploy.runCancelInactive service
    Db.connect
    Db.init
    dropPreview service

def recreate (service : String) : Result Unit := do
  let _ ← Deploy.recreateActiveContainer service
  pure ()

def reloadRoutes : Result Unit := do
  Db.connect
  Db.init
  Db.syncS6
  reloadProxies

def setAppSource (name source : String) : Result Unit :=
  if name = "" ∨ (source ≠ "build" ∧ source ≠ "runtime") then
    throw "usage: codery-ci set-app-source <name> <build|runtime>"
  else do
    Db.connect
    Db.init
    if ← Db.setAppSource name source then Db.syncS6 else throw ("app '" ++ name ++ "' not found")

end Cli

namespace Mcp

/-- The MCP `rollback` tool; it takes no deploy lock. -/
def rollback (service : String) : Result Unit := do
  let unknown := "unknown service '" ++ service ++ "' — no service definition found"
  let _ ← context unknown (← attempt (loadService service))
  let activeSha ← State.readActiveSha service
  let images ← Images.listLocal service
  match images.find? fun i => activeSha ≠ some i.sha with
  | none => throw ("no rollback image available for " ++ service ++ " (active=" ++
      activeSha.getD "unknown" ++ ", total cached=" ++ toString images.length ++ ")")
  | some image => Deploy.run service image.sha

/-- The MCP `restart_service` tool; it takes no deploy lock either. -/
def restartService (service : String) : Result Unit := do
  let r ← attempt (Deploy.recreateActiveContainer service)
  let _ ← context ("recreate failed for '" ++ service ++ "'") r
  pure ()

/-- The MCP `reload_routes` tool; unlike the command it does not call `init`. -/
def reloadRoutes : Result Unit := reloadProxies

def getRoutes : Result (List UnifiedRoute) := do
  let defs ← loadAll
  let _ ← call .loadDomain
  let _ ← Caddy.readColors defs
  Db.connect
  Db.init
  let routes ← Db.routeMap
  let _ ← call .listeningPorts
  pure routes

structure AddAppParams where
  name : String
  subdomain : String
  internalPort : UInt16
  command : String
  directory : String
  env : Option (List (String × String)) := none
  noCache : Option Bool := none
  source : Option String := none
  deriving DecidableEq

def AddAppParams.record (p : AddAppParams) : AppRecord :=
  { name := p.name, subdomain := p.subdomain, internalPort := p.internalPort,
    command := p.command, directory := p.directory,
    env := match p.env with
      | some [] => none
      | e => e
    noCache := p.noCache.getD false, source := p.source.getD "runtime" }

def containerExec (service : String) (cmd : List String) : Result String := do
  let color ← State.readActive service
  ofExcept (← call (.docker (.containerExec (containerName service color) cmd)))

/-- Poll until the service reports up. -/
def awaitUp (svc : String) : Nat → Result Bool
  | 0 => pure false
  | n + 1 => do
    let out ← attempt (containerExec "apps" ["/command/s6-svstat", "-o", "up", svc])
    if out.toOption.any (trim · = "true") then pure true else awaitUp svc n

/-- Link the bundle of a runtime app into supervision and wait for it to come up. -/
def linkApp (name : String) : Result Unit := do
  let bundle := "/etc/s6-overlay/apps.d/" ++ name
  let linked ← attempt (containerExec "apps" ["/command/s6-svlink", "/run/service", bundle])
  let _ ← context "failed to link s6 service" linked
  if ← awaitUp ("/run/service/" ++ name) 10 then pure ()
  else throw ("App '" ++ name ++ "' config written and route added, but service did not come up. " ++
    "Service output goes to container stdout — inspect with get_container_info service='apps'.")

def reloadAfter (done : String) : Result Unit := do
  context (done ++ " but Caddy reload failed") (← attempt Caddy.applyAll)
  context (done ++ " but Nginx reload failed") (← attempt Nginx.generateAndReload)

def exited (out : String) : Bool := "[exited".toList.isPrefixOf out.toList

/-- `add_app` from the port check on. -/
def insertApp (p : AddAppParams) : Result Unit := do
  if ← Db.portClaimed p.internalPort then
    throw ("port " ++ toString p.internalPort ++ " already claimed by another app")
  else do
    let other ← Db.findAppByName p.name
    if other.isSome then throw ("app '" ++ p.name ++ "' already exists")
    else
      let source := p.source.getD "runtime"
      if source ≠ "runtime" ∧ source ≠ "build" then
        throw ("invalid source '" ++ source ++ "' — must be 'runtime' or 'build'")
      else do
        Db.insertApp p.record
        Db.syncS6
        if source = "runtime" then do
          linkApp p.name
          reloadAfter "app added"
        else reloadAfter "app added"

def addApp (p : AddAppParams) : Result Unit :=
  if p.name.toList.any fun c => c = ' ' ∨ c = '/' ∨ c = '.' then
    throw "app name must not contain spaces, slashes, or dots"
  else do
    let check ← attempt (containerExec "apps" ["test", "-d", p.directory])
    let out ← context "failed to check directory" check
    if exited out then throw ("directory '" ++ p.directory ++ "' does not exist in apps container")
    else do
      Db.connect
      Db.init
      insertApp p

def removeApp (name : String) : Result Unit := do
  Db.connect
  Db.init
  match ← Db.findAppByName name with
  | none => throw ("app '" ++ name ++ "' not found in database")
  | some app =>
    if app.source = "build" then
      throw ("'" ++ name ++ "' is image-baked (source=build); " ++
        "its process is not orchestrator-managed. Row left untouched. To fully remove it: " ++
        "delete its bundle from containers/apps/s6-overlay/s6-rc.d + user-bundles.d, rebuild " ++
        "the apps image, then run `codery-ci set-app-source " ++ name ++
        " runtime` on the host and retry remove_app.")
    else do
      let _ ← attempt (containerExec "apps" ["/command/s6-svunlink", "/run/service", name])
      let _ ← Db.deleteApp name
      Db.syncS6
      reloadAfter "app removed"

def listApps : Result (List AppRecord) := do
  Db.connect
  Db.init
  Db.listApps

def s6InternalServices : List String :=
  ["s6-linux-init-shutdownd", "s6rc-fdholder", "s6rc-oneshot-runner"]

def svstatBatchCmd : String :=
  "for d in /run/service/*/; do n=$(basename \"$d\"); case \"$n\" in " ++
    "|".intercalate s6InternalServices ++
    ") continue;; esac; echo \"$n|$(/command/s6-svstat -o up,pid,updownfor \"$d\")\"; done"

/-- The rows and the raw service report that `get_app_status` joins by name. -/
def getAppStatus : Result (List AppRecord × String) := do
  Db.connect
  Db.init
  let apps ← Db.listApps
  let out ← context "failed to read s6 service status"
    (← attempt (containerExec "apps" ["bash", "-c", svstatBatchCmd]))
  if exited out then throw ("failed to read s6 service status: s6 status read failed: " ++ out)
  else pure (apps, out)

end Mcp

end Codery
