import Codery.PortBindings

/-! The named ports with a fixed port: the targets of the TCP proxy (`tcp_proxy.rs`) and of the UDP
relay (`udp_proxy.rs`), and what Docker publishes for the proxy to dial. -/

namespace Codery

open Validate

structure ProxyTarget where
  service : String
  fixedPort : UInt16
  containerPort : UInt16
  scheme : PortScheme
  bind : PortBind
  deriving DecidableEq

structure UdpTarget where
  service : String
  network : String
  fixedPort : UInt16
  containerPort : UInt16
  bind : PortBind
  deriving DecidableEq

/-- The turn of `def` in `collect_proxy_targets`. -/
def ServiceDef.proxyTargets (d : ServiceDef) : List ProxyTarget :=
  d.ports.filterMap fun port =>
    if port.protocol = .udp then none
    else port.fixedPort.map fun fixedPort =>
      { service := d.service
        fixedPort
        containerPort := port.containerPort
        scheme := d.portScheme
        bind := port.bind }

def collectProxyTargets (defs : List ServiceDef) : List ProxyTarget :=
  defs.flatMap (·.proxyTargets)

/-- The turn of `def` in `collect_udp_targets`. -/
def ServiceDef.udpTargets (d : ServiceDef) : List UdpTarget :=
  d.ports.filterMap fun port =>
    if port.protocol = .udp then
      port.fixedPort.map fun fixedPort =>
        { service := d.service
          network := d.network
          fixedPort
          containerPort := port.containerPort
          bind := port.bind }
    else none

def collectUdpTargets (defs : List ServiceDef) : List UdpTarget :=
  defs.flatMap (·.udpTargets)

/-- The port `proxy_connection` dials while `color` is active. -/
def ProxyTarget.targetPort (t : ProxyTarget) (color : Color) : UInt16 :=
  t.scheme.hostPort color t.containerPort

variable {d : ServiceDef} {defs : List ServiceDef} {color : Color} {p : NamedPort}

/-! ### One target for each fixed port -/

/-- The named ports with a fixed one, each with its definition. -/
def fixedPorts (defs : List ServiceDef) : List (ServiceDef × NamedPort × UInt16) :=
  defs.flatMap fun d => d.ports.filterMap fun p => p.fixedPort.map fun f => (d, p, f)

/-- The target a fixed port is for: the proxy's, unless it is a UDP port. -/
def targetOf : ServiceDef × NamedPort × UInt16 → ProxyTarget ⊕ UdpTarget
  | (d, p, f) =>
    match p.protocol with
    | .tcp => .inl ⟨d.service, f, p.containerPort, d.portScheme, p.bind⟩
    | .udp => .inr ⟨d.service, d.network, f, p.containerPort, p.bind⟩

/-- A list with two kinds of entries is one list of each, put together. -/
theorem perm_lefts_rights {α β : Type} (l : List (α ⊕ β)) :
    ((l.filterMap Sum.getLeft?).map Sum.inl ++ (l.filterMap Sum.getRight?).map Sum.inr).Perm l := by
  induction l with
  | nil => exact .nil
  | cons x l ih =>
    cases x with
    | inl a => exact ih.cons _
    | inr b => exact List.perm_middle.trans (ih.cons _)

theorem collectProxyTargets_eq :
    collectProxyTargets defs = ((fixedPorts defs).map targetOf).filterMap Sum.getLeft? := by
  simp only [collectProxyTargets, fixedPorts, List.filterMap_map, List.filterMap_flatMap,
    List.filterMap_filterMap, ServiceDef.proxyTargets]
  refine List.flatMap_congr fun d _ => List.filterMap_congr fun p _ => ?_
  cases fixed : p.fixedPort with
  | none => simp
  | some f => cases protocol : p.protocol <;> simp [targetOf, protocol]

theorem collectUdpTargets_eq :
    collectUdpTargets defs = ((fixedPorts defs).map targetOf).filterMap Sum.getRight? := by
  simp only [collectUdpTargets, fixedPorts, List.filterMap_map, List.filterMap_flatMap,
    List.filterMap_filterMap, ServiceDef.udpTargets]
  refine List.flatMap_congr fun d _ => List.filterMap_congr fun p _ => ?_
  cases fixed : p.fixedPort with
  | none => simp
  | some f => cases protocol : p.protocol <;> simp [targetOf, protocol]

theorem targets_perm :
    ((collectProxyTargets defs).map Sum.inl ++ (collectUdpTargets defs).map Sum.inr).Perm
      ((fixedPorts defs).map targetOf) := by
  rw [collectProxyTargets_eq, collectUdpTargets_eq]
  exact perm_lefts_rights _

/-! ### What Docker publishes -/

theorem bindingSpec_mem_of_tcp (mem : p ∈ d.ports) (tcp : p.protocol ≠ .udp) :
    d.bindingSpec color p.bind p.containerPort ∈ d.portBindingSpecs color := by
  refine mem_portBindingSpecs.mpr (.inl ⟨p, List.mem_filter.mpr ⟨mem, ?_⟩, rfl⟩)
  simp [tcp]

/-- What the proxy dials for a target is published for it. -/
theorem proxyTarget_published {t : ProxyTarget} (mem : t ∈ d.proxyTargets) :
    t.service = d.service ∧
      ⟨t.targetPort color, t.containerPort, t.bind⟩ ∈ d.portBindingSpecs color := by
  obtain ⟨p, named, made⟩ := List.mem_filterMap.mp mem
  split at made
  case isTrue => cases made
  case isFalse tcp =>
    obtain ⟨f, _, rfl⟩ := Option.map_eq_some_iff.mp made
    exact ⟨rfl, bindingSpec_mem_of_tcp named tcp⟩

theorem udpErrors_eq_nil :
    udpErrors p = [] ↔ (p.protocol = .udp → p.fixedPort.isSome = true ∧ p.subdomain = none) := by
  unfold udpErrors
  by_cases udp : p.protocol = .udp
  · cases p.fixedPort <;> cases p.subdomain <;> simp [udp]
  · simp [udp]

theorem published_of_checked (checked : d.ports.flatMap udpErrors = []) :
    d.published = d.ports.filter (·.protocol == .tcp) := by
  refine List.filter_congr fun p mem => ?_
  have sane := udpErrors_eq_nil.mp (List.flatMap_eq_nil_iff.mp checked p mem)
  cases protocol : p.protocol with
  | tcp => rfl
  | udp =>
    rw [(sane protocol).1]
    rfl

/-- The specs of the ports of the range, one for each. -/
def ServiceDef.rangeSpecs (d : ServiceDef) (color : Color) : List PortBindingSpec :=
  d.portRange.elim [] fun r =>
    (List.range' r.containerStart.toNat (r.containerEnd.toNat + 1 - r.containerStart.toNat)).map
      fun n => d.bindingSpec color r.bind (UInt16.ofNat n)

theorem portBindingSpecs_eq :
    d.portBindingSpecs color =
      (d.published.map fun p => d.bindingSpec color p.bind p.containerPort) ++
        d.rangeSpecs color := by
  unfold ServiceDef.portBindingSpecs ServiceDef.rangeSpecs
  refine congrArg _ ?_
  cases d.portRange with
  | none => rfl
  | some r =>
    simp only [Option.elim_some, PortRange.containerPorts, List.map_map, List.range'_eq_map_range]
    refine List.map_congr_left fun i _ => ?_
    have port : r.containerStart + UInt16.ofNat i = UInt16.ofNat (r.containerStart.toNat + i) := by
      rw [UInt16.ofNat_add, UInt16.ofNat_toNat]
    simp only [Function.comp_apply, port]
    rfl

/-- The ports with a fixed port, sorted into targets, and the ports that are published. -/
structure Partitioned (defs : List ServiceDef) (color : Color) : Prop where
  /-- Each fixed port has one target, in one of the lists. -/
  targets : ((collectProxyTargets defs).map Sum.inl ++ (collectUdpTargets defs).map Sum.inr).Perm
    ((fixedPorts defs).map targetOf)
  dialed : ∀ d ∈ defs, ∀ t ∈ d.proxyTargets, t.service = d.service ∧
    ⟨t.targetPort color, t.containerPort, t.bind⟩ ∈ d.portBindingSpecs color
  /-- One spec for each TCP port and for each port of the range, and no other. -/
  specs : ∀ d ∈ defs, d.portBindingSpecs color =
    ((d.ports.filter (·.protocol == .tcp)).map fun p =>
      d.bindingSpec color p.bind p.containerPort) ++ d.rangeSpecs color

theorem fixed_ports_partitioned (checked : ∀ d ∈ defs, d.ports.flatMap udpErrors = []) :
    Partitioned defs color where
  targets := targets_perm
  dialed _ _ _ mem := proxyTarget_published mem
  specs d mem := by rw [portBindingSpecs_eq, published_of_checked (checked d mem)]

/-- A service with a TCP and a UDP port that are relayed, and one that is not. -/
def relayed : ServiceDef where
  service := "devbox"
  image := "ghcr.io/coderyoss/codery:devbox-{sha}"
  portScheme := ⟨10000, 20000⟩
  ports :=
    [{ name := "ssh", containerPort := 22, fixedPort := some 2222, bind := .tailnet },
      { name := "mosh", containerPort := 60001, fixedPort := some 60001, protocol := .udp },
      { name := "web", containerPort := 3000, subdomain := some "devbox" }]
  portRange := some ⟨8000, 8002, .loopback⟩
  healthCheck := .docker 60
  network := "codery-net"

theorem fixed_ports_partitioned_relayed : Partitioned [relayed, Scenario.paseo] .green :=
  fixed_ports_partitioned (by decide)

/-- Where each spec is bound on its own interface, what the proxy dials is what Docker publishes. -/
theorem proxyTarget_bound {ip : Option String} {m : PortMap} {t : ProxyTarget}
    (bound : EachBound (fun _ => ip) (d.portBindingSpecs color) m) (mem : t ∈ d.proxyTargets) :
    ∃ address, t.bind.resolve ip = .ok address ∧
      m.get? (toString t.containerPort ++ "/tcp") =
        some (some [⟨some address, some (toString (t.targetPort color))⟩]) := by
  have published : ⟨t.targetPort color, t.containerPort, t.bind⟩ ∈ d.portBindingSpecs color :=
    (proxyTarget_published mem).2
  obtain ⟨i, here⟩ := List.mem_iff_getElem?.mp published
  exact bound i _ here

end Codery
