import Codery.Blocks
import Codery.HostPorts
import Codery.Scenario

/-! The password of a port: the site of the port asks for it, and a preview of the port does not. -/

namespace Codery

open Effect

variable {load : String → Option ServiceDef} {env : List (String × String)} {cfg : CaddyConfig}
  {defs : List ServiceDef} {statics : List StaticRoute} {apps : List AppRecord}
  {previews : List PreviewRecord} {row : PreviewRecord} {r : UnifiedRoute} {d : ServiceDef}
  {p : NamedPort} {e : String}

/-- The site of a port, or of a preview of the service. -/
def SiteOf (previews : List PreviewRecord) (d : ServiceDef) (p : NamedPort) (r : UnifiedRoute) :
    Prop :=
  (∃ k, p.claims k = true ∧ r = d.routeOf k p) ∨
    ∃ row ∈ previews, row.service = d.service ∧ r = previewRoute row

namespace Caddy

/-- The directive for `e` stands in the block of the route. -/
def Asks (load : String → Option ServiceDef) (env : List (String × String)) (cfg : CaddyConfig)
    (e : String) (r : UnifiedRoute) : Prop :=
  List.IsInfix (basicAuth e).toList (siteBody load env cfg r).toList

/-- Every site of the port or of a preview asks for the password `e`, if it is proxied to the blue
or the green host port of that port. -/
def Guarded (load : String → Option ServiceDef) (env : List (String × String)) (cfg : CaddyConfig)
    (previews : List PreviewRecord) (d : ServiceDef) (p : NamedPort) (e : String) : Prop :=
  ∀ r ∈ cfg.routes, SiteOf previews d p r →
    (∃ c, hostPort load cfg r = d.portScheme.hostPort c p.containerPort) → Asks load env cfg e r

theorem asks_of_auth (asked : authOf env r = some e) : Asks load env cfg e r := by
  unfold Asks
  rw [siteBody_text, asked]
  exact ⟨_, _, by
    simp only [Option.map_some, Option.getD_some, List.append_assoc]
    rfl⟩

/-- The only `b` of a block without a password is that of `bind`. -/
theorem siteBody_open (none : authOf env r = none) : ∃ t, 'b' ∉ t ∧
    (siteBody load env cfg r).toList = "\n    ".toList ++ 'b' :: 'i' :: t := by
  have bind : "\n    bind \x7b$TAILSCALE_IP\x7d\n".toList =
      "\n    ".toList ++ 'b' :: 'i' :: "nd \x7b$TAILSCALE_IP\x7d\n".toList := by
    rw [toList_lit rfl, toList_lit rfl, toList_lit rfl]
    rfl
  have free : 'b' ∉ "nd \x7b$TAILSCALE_IP\x7d\n".toList := absent_lit rfl (by decide)
  have proxy : 'b' ∉ "    reverse_proxy localhost:".toList := absent_lit rfl (by decide)
  have cache : 'b' ∉ (cacheHeaders r.noCache).toList := by
    cases r.noCache with
    | false => exact List.not_mem_nil
    | true =>
      simp only [cacheHeaders, if_pos, String.toList_append]
      rw [toList_lit rfl, toList_lit rfl]
      decide
  have last : 'b' ∉ "\n".toList := absent_lit rfl (by decide)
  refine ⟨"nd \x7b$TAILSCALE_IP\x7d\n".toList ++ ("    reverse_proxy localhost:".toList ++
    ((toString (hostPort load cfg r)).toList ++ ((cacheHeaders r.noCache).toList ++ "\n".toList))),
    ?_, ?_⟩
  · simp only [List.mem_append, not_or]
    exact ⟨free, proxy, digits_ne rfl, cache, last⟩
  · rw [siteBody_text, none, bind]
    simp

theorem basicAuth_text : ∃ t, (basicAuth e).toList = "    ".toList ++ 'b' :: 'a' :: t := by
  have opening : "    basic_auth \x7b\n        \x7b$".toList =
      "    ".toList ++ 'b' :: 'a' :: "sic_auth \x7b\n        \x7b$".toList := by
    rw [toList_lit rfl, toList_lit rfl, toList_lit rfl]
    rfl
  refine ⟨"sic_auth \x7b\n        \x7b$".toList ++ (e.toList ++ "\x7d\n    \x7d\n".toList), ?_⟩
  unfold basicAuth
  rw [String.toList_append, String.toList_append, opening]
  simp

theorem not_asks (none : authOf env r = none) : ¬ Asks load env cfg e r := by
  rintro ⟨before, after, whole⟩
  obtain ⟨t, free, text⟩ : ∃ t, 'b' ∉ t ∧
      (siteBody load env cfg r).toList = "\n    ".toList ++ 'b' :: 'i' :: t := siteBody_open none
  obtain ⟨t', directive⟩ := basicAuth_text
  have twice : "\n    ".toList ++ 'b' :: ('i' :: t) =
      before ++ "    ".toList ++ 'b' :: ('a' :: t' ++ after) := by
    rw [← text, ← whole, directive]
    simp
  have indent : 'b' ∉ "\n    ".toList := absent_lit rfl (by decide)
  have later : 'b' ∉ 'i' :: t := by
    rw [List.mem_cons, not_or]
    exact ⟨by decide, free⟩
  obtain ⟨_, _, same⟩ := (List.append_cons_inj_of_notMem indent later).mp twice
  cases same

end Caddy

theorem authOf_previewRoute : Caddy.authOf env (previewRoute row) = none := rfl

theorem authOf_routeOf {k : String} (auth : p.auth = some e) (set : env.any (·.1 == e) = true) :
    Caddy.authOf env (d.routeOf k p) = some e := by
  unfold Caddy.authOf
  have asked : (d.routeOf k p).authEnv = some e := auth
  rw [asked, Option.filter_some, if_pos set]

/-- A preview has its site: nothing lies above it. -/
theorem previewRoute_routed (unique : (previews.map (·.subdomain)).Nodup) (mem : row ∈ previews) :
    previewRoute row ∈ buildRouteMap defs statics apps previews := by
  have distinct : Layers.Distinct PreviewRecord.subdomain previews := unique
  have won : winner defs statics apps previews row.subdomain = some (previewRoute row) := by
    rw [winner, override, distinct.last? mem]
    rfl
  exact (mem_buildRouteMap.mpr won).1

theorem hostPort_previewRoute : Caddy.hostPort load cfg (previewRoute row) = row.hostPort := rfl

/-- Every site of a port that wants a password asks for it, exactly when no preview of the service
goes to a host port of that port. -/
theorem guarded_iff (auth : p.auth = some e) (set : env.any (·.1 == e) = true)
    (unique : (previews.map (·.subdomain)).Nodup)
    (routes : cfg.routes = buildRouteMap defs statics apps previews) :
    Caddy.Guarded load env cfg previews d p e ↔
      ∀ row ∈ previews, row.service = d.service →
        ∀ c, row.hostPort ≠ d.portScheme.hostPort c p.containerPort := by
  constructor
  · intro guarded row mem own c same
    have routed : previewRoute row ∈ cfg.routes := routes ▸ previewRoute_routed unique mem
    have asks := guarded _ routed (.inr ⟨row, mem, own, rfl⟩) ⟨c, hostPort_previewRoute.trans same⟩
    exact Caddy.not_asks authOf_previewRoute asks
  · rintro apart r - (⟨k, _, rfl⟩ | ⟨row, mem, own, rfl⟩) ⟨c, same⟩
    · exact Caddy.asks_of_auth (authOf_routeOf auth set)
    · exact absurd (hostPort_previewRoute.symm.trans same) (apart row mem own c)

/-- The service `opendesign`, with its port behind a password. -/
def opendesign : ServiceDef where
  service := "opendesign"
  image := "ghcr.io/coderyoss/codery:opendesign-{sha}"
  portScheme := ⟨10000, 20000⟩
  ports := [{ name := "web", containerPort := 7456, subdomain := some "opendesign",
              auth := some "OPENDESIGN_BASIC_AUTH" }]
  healthCheck := .tcp "web" 60 2
  network := "codery-net"

def webPort : NamedPort := opendesign.ports.head (by decide)

def opendesignSite : Site where
  services := ⟨[opendesign], by decide⟩

/-- What the host writes to the Caddyfile with these previews, and blue active. -/
def opendesignConfig (previews : List PreviewRecord) : CaddyConfig where
  routes := buildRouteMap [opendesign] [] [] previews
  colors := [("opendesign", .blue)]

/-- A preview of another port, as with `--port 8080`. -/
def otherPort : PreviewRecord := Cli.previewRecord opendesign "opendesign" "v2" 8080 .green

theorem guarded_otherPort :
    Caddy.Guarded opendesignSite.services.load [("OPENDESIGN_BASIC_AUTH", "user hash")]
        (opendesignConfig [otherPort]) [otherPort] opendesign webPort "OPENDESIGN_BASIC_AUTH" ↔
      ∀ row ∈ [otherPort], row.service = opendesign.service →
        ∀ c, row.hostPort ≠ opendesign.portScheme.hostPort c webPort.containerPort :=
  guarded_iff rfl (by decide) (by decide) rfl

/-- Blue serves `v1`. -/
def opendesignHost : Host where
  docker :=
    { containers := fun n =>
        if n = "codery-opendesign-blue" then some (opendesign.healthy "v1") else none
      images := [{ id := "sha256:v2", repoTags := [opendesign.imageRef "v2"], created := 2 }] }
  state :=
    { color := fun s => if s = "opendesign" then .text "blue\n" else .missing
      sha := fun s => if s = "opendesign" then .text "v1\n" else .missing }
  db := Scenario.migrated []
  proxy :=
    { caddyfile := some (opendesignConfig []), loaded := opendesignConfig []
      nginx := some .empty }

/-- The preview `deploy-preview` registers of its own accord. -/
def webPreview : PreviewRecord := Cli.previewRecord opendesign "opendesign" "v2" 7456 .green

/-- After `deploy-preview`, the site of the preview does not ask for the password. -/
theorem preview_unguarded :
    ∃ h', Finishes (steps opendesignSite) (Cli.deployPreview "opendesign" "v2" none).run
        opendesignHost (.ok ()) h' ∧
      h'.db.previews = some [webPreview] ∧
      h'.proxy.caddyfile = some (opendesignConfig [webPreview]) ∧
      ¬ Caddy.Guarded opendesignSite.services.load [("OPENDESIGN_BASIC_AUTH", "user hash")]
        (opendesignConfig [webPreview]) [webPreview] opendesign webPort "OPENDESIGN_BASIC_AUTH" := by
  have shown : playShow (Call.answer opendesignSite) anyChoice
      (fun h => (h.db.previews, h.proxy.caddyfile)) (Scenario.oks 42)
      (Cli.deployPreview "opendesign" "v2" none).run opendesignHost =
      some (some (.ok ()), some [webPreview], some (opendesignConfig [webPreview])) := by
    decide
  obtain ⟨h', run, same⟩ := playShow_finishes _ _ shown
  refine ⟨h', run, congrArg Prod.fst same, congrArg Prod.snd same, fun guarded => ?_⟩
  have routed : previewRoute webPreview ∈ (opendesignConfig [webPreview]).routes :=
    previewRoute_routed (by decide) (List.mem_singleton_self _)
  exact Caddy.not_asks authOf_previewRoute
    (guarded _ routed (.inr ⟨webPreview, List.mem_singleton_self _, rfl, rfl⟩) ⟨.green, rfl⟩)

end Codery
