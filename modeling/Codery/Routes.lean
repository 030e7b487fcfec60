import Codery.ServiceDef
import Mathlib.Data.List.Sort

/-! The rows, static routes and definitions that routing is computed from (`db.rs`), and the
Caddy configuration computed from them (`caddy.rs`). -/

namespace Codery

/-- A row of `apps`.  `env` is the map whose JSON text the column holds. -/
structure AppRecord where
  name : String
  subdomain : String
  internalPort : UInt16
  command : String
  directory : String
  env : Option (List (String × String)) := none
  priority : Int := 100
  user : String := "gem"
  restart : String := "always"
  noCache : Bool := false
  source : String := "runtime"
  deriving DecidableEq

structure PreviewRecord where
  service : String
  subdomain : String
  hostPort : UInt16
  sha : String
  color : String
  deriving DecidableEq

structure StaticRoute where
  subdomain : String
  port : UInt16
  target : String
  deriving DecidableEq

structure UnifiedRoute where
  subdomain : String
  port : UInt16
  target : String
  internalPort : Option UInt16 := none
  noCache : Bool := false
  authEnv : Option String := none
  deriving DecidableEq

def previewSubdomain (service : String) : String := service ++ "-preview"

/-- What `routes.yaml` holds, or `default_static_routes` where it cannot be parsed, is part of the
host; so are the definitions and the domain read from `.env`. -/
structure Site where
  services : Services
  staticRoutes : List StaticRoute := []
  domain : String := "example.com"

/-- The `HashMap` keyed by subdomain that `build_route_map` fills: its values, in no order that
matters. -/
abbrev RouteTable := List UnifiedRoute

/-- `map.entry(subdomain).or_insert(route)`. -/
def RouteTable.orInsert (m : RouteTable) (r : UnifiedRoute) : RouteTable :=
  if m.any (·.subdomain == r.subdomain) then m else m ++ [r]

/-- `map.insert(subdomain, route)`. -/
def RouteTable.insert (m : RouteTable) (r : UnifiedRoute) : RouteTable :=
  m.filter (·.subdomain != r.subdomain) ++ [r]

def portRoute (d : ServiceDef) (p : NamedPort) : Option UnifiedRoute :=
  if p.protocol = .udp then none
  else p.subdomain.map fun s =>
    { subdomain := s, port := p.containerPort, target := d.service, authEnv := p.auth }

def staticRoute (r : StaticRoute) : UnifiedRoute :=
  { subdomain := r.subdomain, port := r.port, target := r.target }

def appRoute (a : AppRecord) : UnifiedRoute :=
  { subdomain := a.subdomain, port := 8080, target := "apps", internalPort := some a.internalPort,
    noCache := a.noCache }

def previewRoute (p : PreviewRecord) : UnifiedRoute :=
  { subdomain := p.subdomain, port := p.hostPort, target := "host", noCache := true }

/-- `build_route_map`, once the definitions, static routes and rows are at hand. -/
def buildRouteMap (defs : List ServiceDef) (statics : List StaticRoute) (apps : List AppRecord)
    (previews : List PreviewRecord) : List UnifiedRoute :=
  let ports := defs.flatMap fun d => d.ports.filterMap (portRoute d)
  let services := ports.foldl RouteTable.orInsert []
  let withStatics := (statics.map staticRoute).foldl RouteTable.insert services
  let withApps := (apps.map appRoute).foldl RouteTable.insert withStatics
  let all := (previews.map previewRoute).foldl RouteTable.insert withApps
  all.insertionSort (·.subdomain ≤ ·.subdomain)

/-- What `generate_from_routes` renders: the routes, the color of each service and the domain. -/
structure CaddyConfig where
  routes : List UnifiedRoute := []
  colors : List (String × Color) := []
  domain : String := "example.com"
  deriving DecidableEq

/-- `colors.get(target).copied().unwrap_or(Color::Blue)`. -/
def CaddyConfig.colorOf (cfg : CaddyConfig) (target : String) : Color :=
  (cfg.colors.lookup target).getD .blue

/-- The color of the containers the sites of `service` are proxied to, if it has any. -/
def CaddyConfig.routed (cfg : CaddyConfig) (service : String) : Option Color :=
  if cfg.routes.any (·.target == service) then some (cfg.colorOf service) else none

/-- Some site of `cfg` proxies to the container of `service` with color `c`. -/
def CaddyConfig.RoutesTo (cfg : CaddyConfig) (service : String) (c : Color) : Prop :=
  cfg.routed service = some c

instance (cfg : CaddyConfig) (service : String) (c : Color) :
    Decidable (cfg.RoutesTo service c) := inferInstanceAs (Decidable (_ = _))

end Codery
