import Codery.State

/-! `caddy.rs` and `nginx.rs`: regenerate a proxy's configuration and reload it. -/

namespace Codery

namespace Caddy

/-- `state::read_active(&d.service).unwrap_or(Color::Blue)`. -/
def colorOrBlue (service : String) : Result Color := do
  let r ← attempt (State.readActive service)
  pure (r.toOption.getD .blue)

/-- The colors of the definitions, read one after the other. -/
def readColors : List ServiceDef → Result (List (String × Color))
  | [] => pure []
  | d :: defs => do
    let color ← colorOrBlue d.service
    let rest ← readColors defs
    pure ((d.service, color) :: rest)

def reloadCaddy : Result Unit := do
  context "caddy reload failed" (← call (.proxy .reloadCaddy))

def applyAll : Result Unit := do
  let defs ← loadAll
  let domain ← call .loadDomain
  let colors ← readColors defs
  Db.connect
  let routes ← Db.routeMap
  let written ← call (.proxy (.writeCaddyfile { routes, colors, domain }))
  context ("failed to write " ++ caddyConfig) written
  reloadCaddy

end Caddy

namespace Nginx

def fqdn (domain subdomain : String) : String :=
  if subdomain.toList.contains '.' then subdomain else subdomain ++ "." ++ domain

def server (domain : String) (r : UnifiedRoute) : Option NginxServer :=
  match r.internalPort with
  | none => none
  | some p =>
    if r.target ≠ "apps" then none
    else some { serverName := fqdn domain r.subdomain, internalPort := p, noCache := r.noCache }

def generateConfig (routes : List UnifiedRoute) (domain : String) : NginxConfig :=
  .servers (routes.filterMap (server domain))

def reloadInActiveContainer : Result Unit := do
  match ← attempt (State.readActive "apps") with
  | .error _ => pure ()
  | .ok color =>
    let container := containerName "apps" color
    match ← call (.docker (.inspectContainer container)) with
    | .error _ => pure ()
    | .ok i =>
      if i.running then
        let r ← call (.docker (.containerExec container
          ["nginx", "-c", "/etc/nginx/nginx.conf", "-s", "reload"]))
        let _ ← context ("failed to create exec in " ++ container) r
        pure ()
      else pure ()

def generateAndReload : Result Unit := do
  Db.connect
  let routes ← Db.routeMap
  let domain ← call .loadDomain
  context ("failed to write " ++ nginxConfig)
    (← call (.proxy (.writeNginx (generateConfig routes domain))))
  reloadInActiveContainer

end Nginx

end Codery
