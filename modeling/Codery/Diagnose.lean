import Codery.Commands

/-! `diagnose.rs`: cross-check recorded colors, running containers, routes and previews, and name
the command that fixes each mismatch. -/

namespace Codery.Diagnose

inductive Severity
  | ok
  | mismatch
  | dead
  | stale
  | info
  deriving DecidableEq

structure ServiceIssue where
  service : String
  severity : Severity
  stateColor : String
  runningColor : Option String
  runningContainer : Option String
  image : Option String
  fix : List String
  deriving DecidableEq

structure RouteIssue where
  subdomain : String
  hostPort : UInt16
  listening : Bool
  fix : List String
  deriving DecidableEq

structure PreviewIssue where
  service : String
  sha : String
  color : String
  fix : List String
  deriving DecidableEq

structure DiagnoseReport where
  services : List ServiceIssue
  routes : List RouteIssue
  previews : List PreviewIssue
  allHealthy : Bool
  issueCount : Nat
  deriving DecidableEq

def classifyService (stateColor : Color) : List Color → Severity
  | [] => .dead
  | [c] => if c = stateColor then .ok else .mismatch
  | _ => .info

def serviceFix (service : String) : Severity → List String
  | .ok => []
  | .info => []
  | .mismatch => ["codery-ci cutover " ++ service]
  | .dead =>
    ["restart_service service='" ++ service ++ "'  # via MCP",
     "codery-ci deploy " ++ service ++ " <sha>      # full deploy"]
  | .stale => ["codery-ci cutover " ++ service, "codery-ci cancel-preview " ++ service]

def routeFix (subdomain service : String) : List String :=
  if service = "host" then
    ["# host-layer route " ++ subdomain ++ " — check supervisord (run_preflight)"]
  else ["codery-ci cutover " ++ service]

/-- A pending preview overrides what the containers say. -/
def severityOf (pending : Bool) (stateColor : Color) (running : List Color) : Severity :=
  if pending then .stale else classifyService stateColor running

structure ContainerState where
  running : Bool
  image : Option String
  deriving DecidableEq

def inspectContainer (name : String) : Result (Option ContainerState) := do
  match ← call (.docker (.inspectContainer name)) with
  | .error _ => pure none
  | .ok i => pure (some { running := i.running, image := if i.image = "" then none else some i.image })

def runningColors (blue green : Option ContainerState) : List Color :=
  (if blue.any (·.running) then [Color.blue] else []) ++
    (if green.any (·.running) then [Color.green] else [])

def serviceIssue (service : String) (pending : Bool) (stateColor : Color)
    (blue green : Option ContainerState) : ServiceIssue :=
  let running := runningColors blue green
  let severity := severityOf pending stateColor running
  let shown : Option Color := match severity with
    | .ok => running.head?
    | .mismatch => running.head?
    | _ => none
  { service, severity,
    stateColor := stateColor.asStr
    runningColor := running.head?.map Color.asStr
    runningContainer := shown.map (containerName service)
    image := shown.bind fun c => match c with
      | .blue => blue.bind (·.image)
      | .green => green.bind (·.image)
    fix := serviceFix service severity }

def checkService (previews : List PreviewRecord) (service : String) : Result ServiceIssue := do
  let stateColor ← Caddy.colorOrBlue service
  let blue ← inspectContainer (containerName service .blue)
  let green ← inspectContainer (containerName service .green)
  pure (serviceIssue service (previews.any (·.service == service)) stateColor blue green)

def checkServices (previews : List PreviewRecord) : List ServiceDef → Result (List ServiceIssue)
  | [] => pure []
  | d :: defs => do
    let issue ← checkService previews d.service
    let rest ← checkServices previews defs
    pure (issue :: rest)

def routeHostPort (target : String) (containerPort : UInt16) (stateColor : Color) :
    Result UInt16 :=
  if target = "host" then pure containerPort
  else if target = "paseo" then
    match stateColor with
    | .blue => pure (containerPort + 10000)
    | .green => pure (containerPort + 20000)
  else do
    match ← attempt (loadService target) with
    | .ok d => pure (d.portScheme.hostPort stateColor containerPort)
    | .error _ => pure containerPort

def checkRoutes (services : List ServiceIssue) (domain : String) (listening : List UInt16) :
    List UnifiedRoute → Result (List RouteIssue)
  | [] => pure []
  | r :: rest => do
    let issue? := services.find? (·.service == r.target)
    let color := (issue?.bind fun i => Color.parse i.stateColor).getD .blue
    let hostPort ← routeHostPort r.target r.port color
    let issues ← checkRoutes services domain listening rest
    if listening.contains hostPort then pure issues
    else pure ({ subdomain := Nginx.fqdn domain r.subdomain, hostPort, listening := false,
                 fix := routeFix r.subdomain r.target } :: issues)

def previewIssue (p : PreviewRecord) : PreviewIssue :=
  { service := p.service, sha := p.sha, color := p.color,
    fix := ["codery-ci cutover " ++ p.service, "codery-ci cancel-preview " ++ p.service] }

def Severity.unhealthy : Severity → Bool
  | .mismatch => true
  | .dead => true
  | .stale => true
  | _ => false

def report (services : List ServiceIssue) (routes : List RouteIssue)
    (previews : List PreviewIssue) : DiagnoseReport :=
  { services, routes, previews,
    allHealthy := !services.any (·.severity.unhealthy) && routes.isEmpty && previews.isEmpty
    issueCount := services.countP (fun s => s.severity != .ok && s.severity != .info) +
      routes.length + previews.length }

def run : Result DiagnoseReport := do
  let defs ← context "failed to load service definitions" (← attempt loadAll)
  context "failed to open codery.db" (← attempt Db.connect)
  context "failed to init codery.db" (← attempt Db.init)
  let previews ← context "failed to list previews" (← attempt Db.listPreviews)
  let services ← checkServices previews defs
  let unified ← context "failed to build route map" (← attempt Db.routeMap)
  let domain ← call .loadDomain
  let listening ← call .listeningPorts
  let routes ← checkRoutes services domain listening unified
  pure (report services routes (previews.map previewIssue))

end Codery.Diagnose
