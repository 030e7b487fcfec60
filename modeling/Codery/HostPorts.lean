import Codery.RouteMap
import Codery.Caddyfile
import Codery.Scenario

/-! The port a site is proxied to against the port `docker` publishes. -/

namespace Codery

variable {services : Services} {statics : List StaticRoute} {apps : List AppRecord}
  {previews : List PreviewRecord} {d : ServiceDef} {p : NamedPort} {k : String} {color : Color}
  {cfg : CaddyConfig} {r : UnifiedRoute}

def PortScheme.offset (s : PortScheme) : Color → UInt16
  | .blue => s.blueOffset
  | .green => s.greenOffset

theorem hostPort_eq (s : PortScheme) (container : UInt16) :
    s.hostPort color container = container + s.offset color := by
  cases color <;> rfl

/-- `host` is a host port that the container of `color` publishes for the port `container`. -/
def ServiceDef.Publishes (d : ServiceDef) (color : Color) (container host : UInt16) : Prop :=
  ∃ s ∈ d.portBindingSpecs color, s.container = container ∧ s.host = host

theorem portBindingSpecs_host {s : PortBindingSpec} (mem : s ∈ d.portBindingSpecs color) :
    s.host = d.portScheme.hostPort color s.container := by
  unfold ServiceDef.portBindingSpecs at mem
  cases range : d.portRange with
  | none =>
    simp only [range, List.append_nil, List.mem_map] at mem
    obtain ⟨_, _, rfl⟩ := mem
    rfl
  | some r =>
    simp only [range, List.mem_append, List.mem_map] at mem
    obtain ⟨_, _, rfl⟩ | ⟨_, _, rfl⟩ := mem
    · rfl
    · rfl

/-- A TCP port is published, at its offset. -/
theorem publishes_iff (mem : p ∈ d.ports) (tcp : p.protocol = .tcp) (host : UInt16) :
    d.Publishes color p.containerPort host ↔ host = p.containerPort + d.portScheme.offset color := by
  constructor
  · rintro ⟨s, hs, container, rfl⟩
    rw [portBindingSpecs_host hs, container, hostPort_eq]
  · rintro rfl
    refine ⟨⟨d.portScheme.hostPort color p.containerPort, p.containerPort, p.bind⟩, ?_, rfl,
      hostPort_eq _ _⟩
    unfold ServiceDef.portBindingSpecs
    refine List.mem_append_left _ (List.mem_map.mpr ⟨p, ?_, rfl⟩)
    simp [mem, tcp]

namespace Caddy

/-- The offsets `generate_from_routes` has for the service names it knows itself. -/
def knownOffset (service : String) (color : Color) : Option UInt16 :=
  if service = "host" then some 0
  else if service = "paseo" then some (PortScheme.offset ⟨10000, 20000⟩ color)
  else if service = "apps" then some (PortScheme.offset ⟨0, 10000⟩ color)
  else none

/-- The offset of the site of a service: the service's own, unless the name is a known one. -/
def siteOffset (d : ServiceDef) (color : Color) : UInt16 :=
  (knownOffset d.service color).getD (d.portScheme.offset color)

theorem hostPort_site {load : String → Option ServiceDef} (loaded : load d.service = some d)
    (target : r.target = d.service) (active : cfg.colorOf d.service = color) :
    hostPort load cfg r = r.port + siteOffset d color := by
  subst active
  unfold hostPort siteOffset knownOffset
  rw [target]
  by_cases host : d.service = "host"
  · simp [host]
  by_cases paseo : d.service = "paseo"
  · simp only [paseo, if_neg (show ¬ "paseo" = "host" by decide), if_pos]
    cases cfg.colorOf "paseo" <;> rfl
  by_cases apps : d.service = "apps"
  · simp only [apps, if_neg (show ¬ "apps" = "host" by decide),
      if_neg (show ¬ "apps" = "paseo" by decide), if_pos]
    cases cfg.colorOf "apps" <;> rfl
  · simp only [if_neg host, if_neg paseo, if_neg apps, loaded, hostPort_eq, Option.getD_none]

end Caddy

theorem Services.load_of_mem (mem : d ∈ services.defs) : services.load d.service = some d := by
  obtain ⟨defs, nodup⟩ := services
  unfold Services.load
  induction defs with
  | nil => cases mem
  | cons e defs ih =>
    simp only [List.map_cons, List.nodup_cons, List.mem_map, not_exists, not_and] at nodup
    rw [List.find?_cons]
    cases List.mem_cons.mp mem with
    | inl same =>
      subst same
      simp
    | inr mem =>
      have ne : e.service ≠ d.service := fun same => nodup.1 d mem same.symm
      rw [show (e.service == d.service) = false by simpa using ne]
      exact ih nodup.2 mem

/-- No other definition, and no static route, app or preview, has the subdomain `k`. -/
structure ClaimedOnlyBy (defs : List ServiceDef) (statics : List StaticRoute)
    (apps : List AppRecord) (previews : List PreviewRecord) (d : ServiceDef) (k : String) : Prop where
  others : ∀ d' ∈ defs, d' ≠ d → ∀ p ∈ d'.ports, ¬ (p.protocol = .tcp ∧ p.subdomain = some k)
  statics : ∀ r ∈ statics, r.subdomain ≠ k
  apps : ∀ a ∈ apps, a.subdomain ≠ k
  previews : ∀ p ∈ previews, p.subdomain ≠ k

variable {defs : List ServiceDef}

/-- The route of a subdomain that one definition claims is the one of its first port. -/
theorem ClaimedOnlyBy.winner (only : ClaimedOnlyBy defs statics apps previews d k) (mem : d ∈ defs) :
    winner defs statics apps previews k = d.firstRoute k := by
  have free : override statics apps previews k = none := by
    simp only [override, Option.or_eq_none_iff, Option.map_eq_none_iff, Layers.last?_eq_none]
    exact ⟨only.previews, only.apps, only.statics⟩
  rw [Codery.winner, free, Option.none_or]
  cases first : d.firstRoute k with
  | none =>
    rw [List.findSome?_eq_none_iff]
    intro d' mem'
    by_cases same : d' = d
    · rw [same, first]
    · exact firstRoute_eq_none.mpr (only.others d' mem' same)
  | some r =>
    cases found : defs.findSome? (·.firstRoute k) with
    | none =>
      rw [List.findSome?_eq_none_iff.mp found d mem] at first
      cases first
    | some r' =>
      obtain ⟨d', mem', first'⟩ := List.exists_of_findSome?_eq_some found
      by_cases same : d' = d
      · rw [same, first] at first'
        exact first'.symm
      · rw [firstRoute_eq_none.mpr (only.others d' mem' same)] at first'
        cases first'

/-- The site of a port's subdomain is proxied to the host port published for it exactly when the
first port with that subdomain, at the offset Caddy takes, is this one, at the offset of the
definition. -/
theorem site_port_published_iff (mem : d ∈ services.defs) (port : p ∈ d.ports)
    (tcp : p.protocol = .tcp) (sub : p.subdomain = some k)
    (only : ClaimedOnlyBy services.defs statics apps previews d k)
    (routes : cfg.routes = buildRouteMap services.defs statics apps previews)
    (active : cfg.colorOf d.service = color) :
    (∃ r ∈ cfg.routes, r.subdomain = k ∧
        ∀ host, d.Publishes color p.containerPort host ↔
          host = Caddy.hostPort services.load cfg r) ↔
      ∃ first, d.ports.find? (·.claims k) = some first ∧
        first.containerPort + Caddy.siteOffset d color =
          p.containerPort + d.portScheme.offset color := by
  have claims : p.claims k = true := by simp [NamedPort.claims, tcp, sub]
  obtain ⟨first, found⟩ : ∃ first, d.ports.find? (·.claims k) = some first := by
    cases found : d.ports.find? (·.claims k) with
    | none => exact absurd claims (List.find?_eq_none.mp found p port)
    | some first => exact ⟨first, rfl⟩
  have won : winner services.defs statics apps previews k = some (d.routeOf k first) := by
    rw [only.winner mem, ServiceDef.firstRoute, found, Option.map_some]
  have proxied : Caddy.hostPort services.load cfg (d.routeOf k first) =
      first.containerPort + Caddy.siteOffset d color :=
    Caddy.hostPort_site (Services.load_of_mem mem) rfl active
  constructor
  · rintro ⟨r, inMap, same, all⟩
    rw [routes] at inMap
    have route := mem_buildRouteMap.mp ⟨inMap, same⟩
    rw [won, Option.some_inj] at route
    rw [← route, proxied] at all
    exact ⟨first, found, ((publishes_iff port tcp _).mp ((all _).mpr rfl))⟩
  · rintro ⟨first', found', agree⟩
    rw [found, Option.some_inj] at found'
    subst found'
    obtain ⟨inMap, same⟩ := mem_buildRouteMap.mpr won
    refine ⟨d.routeOf k first, routes ▸ inMap, same, fun host => ?_⟩
    rw [publishes_iff port tcp, proxied, agree]

theorem site_port_published_paseo :
    ∃ r ∈ (Scenario.routedTo .green).routes, r.subdomain = "opencode" ∧
      ∀ host, Scenario.paseo.Publishes .green 3000 host ↔
        host = Caddy.hostPort Scenario.site.services.load (Scenario.routedTo .green) r :=
  (@site_port_published_iff Scenario.site.services [] [] [] Scenario.paseo
    (Scenario.paseo.ports.head (by decide)) "opencode" .green (Scenario.routedTo .green)
    (List.mem_singleton_self _) (List.head_mem _) rfl rfl
    ⟨fun _ mem ne => absurd (List.mem_singleton.mp mem) ne, nofun, nofun, nofun⟩
    (by decide) (by decide)).mpr ⟨Scenario.paseo.ports.head (by decide), by decide, by decide⟩

/-- The service with offsets of its own. -/
def movedPaseo : ServiceDef := { Scenario.paseo with portScheme := ⟨30000, 40000⟩ }

def movedServices : Services := ⟨[movedPaseo], by decide⟩

def movedConfig : CaddyConfig where
  routes := buildRouteMap movedServices.defs [] [] []
  colors := [("paseo", .blue)]

/-- Its container is published at 33000, and its site still proxied to 13000. -/
theorem moved_site_port :
    ClaimedOnlyBy movedServices.defs [] [] [] movedPaseo "opencode" ∧
      ¬ ∃ r ∈ movedConfig.routes, r.subdomain = "opencode" ∧
        ∀ host, movedPaseo.Publishes .blue 3000 host ↔
          host = Caddy.hostPort movedServices.load movedConfig r := by
  refine ⟨⟨fun _ mem ne => absurd (List.mem_singleton.mp mem) ne, nofun, nofun, nofun⟩, ?_⟩
  rintro ⟨r, mem, _, all⟩
  have route : r = movedPaseo.routeOf "opencode" (movedPaseo.ports.head (by decide)) :=
    List.mem_singleton.mp mem
  subst route
  have published := (all 33000).mp ⟨⟨33000, 3000, .any⟩, by decide, rfl, rfl⟩
  exact absurd published (by decide)

end Codery
