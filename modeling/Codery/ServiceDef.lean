import Codery.Config

/-! `service_def.rs`: the service declarations the orchestrator is driven by. -/

namespace Codery

structure PortScheme where
  blueOffset : UInt16
  greenOffset : UInt16
  deriving DecidableEq

/-- The sum wraps at 2^16, as it does in a release build. -/
def PortScheme.hostPort (s : PortScheme) (color : Color) (containerPort : UInt16) : UInt16 :=
  let offset := match color with
    | .blue => s.blueOffset
    | .green => s.greenOffset
  containerPort + offset

inductive PortBind
  | any
  | loopback
  | tailnet
  deriving DecidableEq

inductive PortProtocol
  | tcp
  | udp
  deriving DecidableEq

structure NamedPort where
  name : String
  containerPort : UInt16
  subdomain : Option String := none
  fixedPort : Option UInt16 := none
  protocol : PortProtocol := .tcp
  bind : PortBind := .any
  /-- The env var of a `BasicAuth`. -/
  auth : Option String := none
  deriving DecidableEq

structure PortRange where
  containerStart : UInt16
  containerEnd : UInt16
  bind : PortBind := .any
  deriving DecidableEq

structure PortBindingSpec where
  host : UInt16
  container : UInt16
  bind : PortBind
  deriving DecidableEq

inductive HealthCheck
  | tcp (port : String) (timeoutSecs intervalSecs : Nat)
  | docker (timeoutSecs : Nat)
  deriving DecidableEq

structure ServiceDef where
  service : String
  image : String
  portScheme : PortScheme
  ports : List NamedPort := []
  portRange : Option PortRange := none
  healthCheck : HealthCheck
  network : String
  deriving DecidableEq

/-- `image.replace("{sha}", sha)`, on the characters of the template. -/
def replaceSha (sha : List Char) : List Char → List Char
  | '{' :: 's' :: 'h' :: 'a' :: '}' :: rest => sha ++ replaceSha sha rest
  | c :: rest => c :: replaceSha sha rest
  | [] => []

def ServiceDef.imageRef (d : ServiceDef) (sha : String) : String :=
  String.ofList (replaceSha sha.toList d.image.toList)

/-- The ports `start..=stop`. -/
def PortRange.containerPorts (r : PortRange) : List UInt16 :=
  (List.range (r.containerEnd.toNat + 1 - r.containerStart.toNat)).map fun i =>
    r.containerStart + UInt16.ofNat i

def ServiceDef.portBindingSpecs (d : ServiceDef) (color : Color) : List PortBindingSpec :=
  let named := d.ports.filter fun p => !(p.protocol == .udp && p.fixedPort.isSome)
  let spec (bind : PortBind) (c : UInt16) : PortBindingSpec :=
    { host := d.portScheme.hostPort color c, container := c, bind }
  named.map (fun p => spec p.bind p.containerPort) ++
    match d.portRange with
    | none => []
    | some r => r.containerPorts.map (spec r.bind)

def ServiceDef.portMappings (d : ServiceDef) (color : Color) : List (UInt16 × UInt16) :=
  (d.portBindingSpecs color).map fun s => (s.host, s.container)

/-- The host ports `start_container` publishes for `color`. -/
def ServiceDef.hostPorts (d : ServiceDef) (color : Color) : List UInt16 :=
  (d.portBindingSpecs color).map (·.host)

theorem map_fst_portMappings {d : ServiceDef} {c : Color} :
    (d.portMappings c).map (·.1) = d.hostPorts c := by
  simp [ServiceDef.portMappings, ServiceDef.hostPorts]

def ServiceDef.healthContainerPort (d : ServiceDef) : Except String UInt16 :=
  match d.healthCheck with
  | .tcp name _ _ =>
    match d.ports.find? (·.name == name) with
    | some p => .ok p.containerPort
    | none => .error ("health_check.port '" ++ name ++ "' not found in ports[] for service '" ++
        d.service ++ "'")
  | .docker _ => .ok 0

/-- The definitions on the host, in the order the directory enumerates them.  Each file is named
after its service (`upsert_service` enforces it), so no two of them declare the same one. -/
structure Services where
  defs : List ServiceDef
  nodup : (defs.map (·.service)).Nodup

/-- `ServiceDef::load`. -/
def Services.load (s : Services) (service : String) : Option ServiceDef :=
  s.defs.find? (·.service == service)

theorem Services.load_service {s : Services} {service : String} {d : ServiceDef}
    (h : s.load service = some d) : d.service = service := by
  simpa using List.find?_some h

theorem Services.load_mem {s : Services} {service : String} {d : ServiceDef}
    (h : s.load service = some d) : d ∈ s.defs := List.mem_of_find?_eq_some h

end Codery
