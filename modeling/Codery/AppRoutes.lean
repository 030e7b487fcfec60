import Codery.AppClaims
import Codery.Effect.Ghost

/-! The routes of the apps after `add_app`: the row is in the table before the link, the polls and
the reloads that can fail. -/

namespace Codery

open Effect Prog

variable {site : Site} {h h' : Host} {α β : Type}

/-! ### Proxies that are up to date with the table -/

/-- Caddy serves the route of the app, and Nginx has a server for it. -/
def Host.Serves (h : Host) (site : Site) (app : AppRecord) : Prop :=
  appRoute app ∈ h.proxy.loaded.routes ∧
    ∃ servers, h.proxy.nginx = some (.servers servers) ∧
      ∃ server ∈ servers, Nginx.server site.domain (appRoute app) = some server

/-- Both configurations are the ones of the tables, over some static routes each. -/
structure Host.Current (h : Host) (site : Site) : Prop where
  caddy : ∃ statics, h.proxy.loaded.routes = h.routesOver site statics
  nginx : ∃ statics, h.proxy.nginx =
    some (Nginx.generateConfig (h.routesOver site statics) site.domain)

theorem Database.appRows_subdomains (d : Database) :
    d.appRows.map (·.subdomain) = d.tableRows.map (·.subdomain) := by
  unfold appRows tableRows
  cases d.apps with
  | none => rfl
  | some t =>
    cases noCache : t.hasNoCache <;> cases source : t.hasSource <;>
      simp [AppsTable.migrate, AppsTable.addNoCache, AppsTable.addSource, noCache, source]

section RouteMap

variable {defs : List ServiceDef} {statics : List StaticRoute} {apps : List AppRecord}
  {previews : List PreviewRecord} {app : AppRecord}

/-- The route of an app is in the map unless a preview has taken its subdomain. -/
theorem appRoute_mem (distinct : (apps.map (·.subdomain)).Nodup) (mem : app ∈ apps) :
    appRoute app ∈ buildRouteMap defs statics apps previews ↔
      ∀ q ∈ previews, q.subdomain ≠ app.subdomain := by
  have won : appRoute app ∈ buildRouteMap defs statics apps previews ↔
      winner defs statics apps previews app.subdomain = some (appRoute app) := by
    rw [← mem_buildRouteMap]
    exact (and_iff_left rfl).symm
  have last : Layers.last? AppRecord.subdomain apps app.subdomain = some app :=
    Layers.Distinct.last? distinct mem
  rw [won, winner, override, last]
  cases staged : Layers.last? PreviewRecord.subdomain previews app.subdomain with
  | none => exact iff_of_true rfl (Layers.last?_eq_none.mp staged)
  | some q =>
    refine iff_of_false (by simp [previewRoute, appRoute]) fun none => ?_
    rw [Layers.last?_eq_none.mpr none] at staged
    cases staged

end RouteMap

theorem routesOver_congr {statics : List StaticRoute} (same : h'.db = h.db) :
    h'.routesOver site statics = h.routesOver site statics := by
  rw [Host.routesOver, Host.routesOver, same]

theorem Host.Current.serves_iff {app : AppRecord} (current : h.Current site) (named : Named h)
    (mem : app ∈ h.db.appRows) :
    h.Serves site app ↔ ∀ q ∈ h.db.previewRows, q.subdomain ≠ app.subdomain := by
  have perm := List.perm_insertionSort (α := AppRecord) (·.name ≤ ·.name) h.db.appRows
  have distinct : ((h.db.appRows.insertionSort (·.name ≤ ·.name)).map (·.subdomain)).Nodup := by
    rw [(perm.map _).nodup_iff, Database.appRows_subdomains]
    exact named.2
  have routed (statics : List StaticRoute) : appRoute app ∈ h.routesOver site statics ↔
      ∀ q ∈ h.db.previewRows, q.subdomain ≠ app.subdomain := by
    rw [Host.routesOver, appRoute_mem distinct (perm.mem_iff.mpr mem)]
    simp only [List.mem_insertionSort]
  obtain ⟨⟨statics, caddy⟩, ⟨statics', nginx⟩⟩ := current
  rw [Host.Serves, caddy, nginx, routed statics]
  refine and_iff_left_of_imp fun free => ⟨_, rfl, ?_⟩
  have server : Nginx.server site.domain (appRoute app) = some
      { serverName := Nginx.fqdn site.domain app.subdomain, internalPort := app.internalPort,
        noCache := app.noCache } := rfl
  exact ⟨_, List.mem_filterMap.mpr ⟨_, (routed statics').mpr free, server⟩, server⟩

/-! ### Reloading both proxies -/

theorem Finds.of_only {x : Result α} (only : x.run.Only Reads) :
    Finds (steps site) h (fun _ => True) x :=
  .of_spec le_rfl ((Spec.frame only).post fun r _ _ _ => by cases r <;> trivial)

theorem Finds.ends {T : α → Prop} {Q : Except String β → Host → Prop} {x : Result α}
    {f : α → Result β} (finds : Finds (steps site) h T x)
    (next : ∀ a, T a → Ends site Q (f a).run h) (error : ∀ e, Q (.error e) h) :
    Ends site Q (x >>= f).run h := finds.safe (fun _ _ _ _ _ => trivial) next error

theorem loadDomain_step {r : String} (step : steps site .loadDomain h r h') :
    r = site.domain ∧ h' = h := by
  obtain ⟨o, _, ans⟩ := step
  cases o <;> cases ans
  exact ⟨rfl, rfl⟩

theorem proxy_step {q : Proxy.Call} {r : q.Reply} (step : steps site (.proxy q) h r h') :
    ∃ o, q.answer o h.proxy = some (r, h'.proxy) ∧ h' = { h with proxy := h'.proxy } := by
  obtain ⟨o, _, ans⟩ := step
  exact ⟨o, answer_proxy ans⟩

/-- Once `apply_all` has succeeded, Caddy serves the routes of the tables. -/
theorem applyAll_current :
    Ends site (fun r h' => h'.db = h.db ∧ ∀ u, r = .ok u →
      ∃ statics, h'.proxy.loaded.routes = h'.routesOver site statics) Caddy.applyAll.run h := by
  refine (Finds.of_spec le_rfl loadAll_spec).ends (fun defs loaded => ?_) fun e => ⟨rfl, nofun⟩
  intro domain h' read
  refine ⟨trivial, ?_⟩
  obtain ⟨rfl, rfl⟩ := loadDomain_step read
  refine (Finds.of_only (readColors_only defs)).ends (fun colors _ => ?_) fun e => ⟨rfl, nofun⟩
  refine (connect_finds le_rfl).ends (fun _ _ => ?_) fun e => ⟨rfl, nofun⟩
  refine (routeMap_reads le_rfl).ends (fun routes found => ?_) fun e => ⟨rfl, nofun⟩
  obtain ⟨statics, -, -, rfl⟩ := found
  refine fun written h₁ write => ⟨trivial, ?_⟩
  obtain ⟨o, wrote, same⟩ := proxy_step write
  cases written with
  | error e =>
    rw [same]
    exact ⟨rfl, nofun⟩
  | ok =>
    have file := Proxy.answer_writeCaddyfile wrote
    refine fun reloaded h₂ reload => ⟨trivial, ?_⟩
    obtain ⟨o', served, same'⟩ := proxy_step reload
    have db : h₂.db = h'.db := by rw [same', same]
    cases reloaded with
    | error e => exact ⟨db, nofun⟩
    | ok =>
      refine ⟨db, fun _ _ => ⟨statics.toOption.getD defaultStaticRoutes, ?_⟩⟩
      rcases Proxy.answer_reloadCaddy served with ⟨_, loaded⟩ | ⟨⟨e, failed⟩, _⟩
      · rw [file] at loaded
        rw [← Option.some.inj loaded, routesOver_congr db]
      · cases failed

/-- Once `generate_and_reload` has succeeded, Nginx has a server for every app of the tables. -/
theorem generateAndReload_current :
    Ends site (fun r h' => h'.db = h.db ∧ h'.proxy.loaded = h.proxy.loaded ∧ ∀ u, r = .ok u →
      ∃ statics, h'.proxy.nginx = some (Nginx.generateConfig (h'.routesOver site statics) site.domain))
      Nginx.generateAndReload.run h := by
  refine (connect_finds le_rfl).ends (fun _ _ => ?_) fun e => ⟨rfl, rfl, nofun⟩
  refine (routeMap_reads le_rfl).ends (fun routes found => ?_) fun e => ⟨rfl, rfl, nofun⟩
  obtain ⟨statics, -, -, rfl⟩ := found
  refine fun domain h₁ read => ⟨trivial, ?_⟩
  obtain ⟨rfl, rfl⟩ := loadDomain_step read
  refine fun written h₂ write => ⟨trivial, ?_⟩
  obtain ⟨o, wrote, same⟩ := proxy_step write
  have loaded := Proxy.answer_loaded wrote nofun
  have db : h₂.db = h₁.db := by rw [same]
  cases written with
  | error e => exact ⟨db, loaded, nofun⟩
  | ok =>
    have file : h₂.proxy.nginx = some (Nginx.generateConfig (h₁.routesOver site _) site.domain) :=
      Proxy.answer_writeNginx wrote
    refine ((Finds.of_only reloadInActiveContainer_only).mono (fun _ _ _ _ _ _ => trivial) ?_)
    rintro r h₃ ⟨rfl, _⟩
    refine ⟨db, loaded, fun _ _ => ⟨statics.toOption.getD defaultStaticRoutes, ?_⟩⟩
    rw [file, routesOver_congr db]

def Mcp.caddyFailed : String := "app added but Caddy reload failed"
def Mcp.nginxFailed : String := "app added but Nginx reload failed"

theorem reloadAfter_current :
    Ends site (fun r h' => h'.db = h.db ∧
        (h'.Current site ∨ r = .error Mcp.caddyFailed ∨ r = .error Mcp.nginxFailed))
      (Mcp.reloadAfter "app added").run h := by
  refine Safe.liftE applyAll_current fun applied h₁ ⟨db, caddy⟩ => ?_
  cases applied with
  | error e => exact ⟨db, .inr (.inl rfl)⟩
  | ok =>
    obtain ⟨statics, routes⟩ := caddy _ rfl
    refine Safe.liftE generateAndReload_current fun generated h₂ ⟨db', loaded, nginx⟩ => ?_
    cases generated with
    | error e => exact ⟨db'.trans db, .inr (.inr rfl)⟩
    | ok =>
      refine ⟨db'.trans db, .inl ⟨⟨statics, ?_⟩, nginx _ rfl⟩⟩
      rw [loaded, routes, routesOver_congr db']

/-! ### How far a request gets -/

namespace Mcp

/-- What the sync of the bundles, the link and the polls have answered. -/
structure Progress where
  synced : Bool := false
  linked : Bool := false
  up : Bool := false
  deriving DecidableEq

def svlink (name : String) : List String :=
  ["/command/s6-svlink", "/run/service", "/etc/s6-overlay/apps.d/" ++ name]

def svstat (name : String) : List String := ["/command/s6-svstat", "-o", "up", "/run/service/" ++ name]

variable {name : String} {g : Progress}

def Progress.sync (g : Progress) : Except String Unit → Progress
  | .ok _ => { g with synced := true }
  | .error _ => g

def Progress.exec (name : String) (cmd : List String) (g : Progress) : Except String String → Progress
  | .ok out =>
    if cmd = svlink name then { g with linked := true }
    else if cmd = svstat name ∧ trim out = "true" then { g with up := true }
    else g
  | .error _ => g

def Progress.note (name : String) : (c : Call) → c.Reply → Progress → Progress
  | .syncS6 _, r, g => g.sync r
  | .docker (.containerExec _ cmd), r, g => g.exec name cmd r
  | _, _, g => g

/-- The bundles are in sync; for a runtime app the link is made and a poll has seen it up. -/
def Progress.Started (g : Progress) (p : AddAppParams) : Prop :=
  g.synced = true ∧ (p.record.source = "runtime" → g.linked = true ∧ g.up = true)

/-- The steps of the host, beside the progress of a request for the app `name`. -/
abbrev noted (site : Site) (name : String) : StepRel sig (Host × Progress) :=
  ghost (steps site) fun c _ => Progress.note name c

abbrev Notes (site : Site) (name : String) (Q : α → Host × Progress → Prop) (p : Prog sig α)
    (x : Host × Progress) : Prop :=
  Safe (noted site name) (fun _ _ _ _ => True) Q p x

/-- The proxies and the previews are those of `h`, and the progress is `g`. -/
structure At (h : Host) (g : Progress) (x : Host × Progress) : Prop where
  proxy : x.1.proxy = h.proxy
  previews : x.1.db.previewRows = h.db.previewRows
  progress : x.2 = g

/-- A call that changes no more than the tables, and nothing of which is noted. -/
def Prepares (name : String) (c : Call) : Prop := Migrates c ∧ ∀ r g, Progress.note name c r g = g

variable {x : Host × Progress} {p : AddAppParams} {Q : Except String β → Host × Progress → Prop}

theorem proxy_of_sameBut {P : Part → Prop} (same : h.SameBut P h') (caddyfile : ¬ P .caddyfile)
    (loaded : ¬ P .loaded) (nginx : ¬ P .nginx) : h'.proxy = h.proxy := by
  have c := same.caddyfile caddyfile
  have l := same.loaded loaded
  have n := same.nginx nginx
  cases hp : h.proxy
  cases hp' : h'.proxy
  simp_all

theorem At.step {c : Call} {r : c.Reply} {y : Host × Progress} (start : At h g x)
    (step : noted site name c x r y) (migrates : Migrates c) :
    At h (Progress.note name c r g) y := by
  obtain ⟨step, noted⟩ := step
  have same := steps_sameBut (P := fun p => p = .nothing ∨ p = .tables) step migrates
  refine ⟨?_, ?_, ?_⟩
  · rw [← start.proxy]
    exact proxy_of_sameBut same (by simp) (by simp) (by simp)
  · rw [← start.previews, same.previews (by simp)]
  · rw [noted, start.progress]

theorem prepares_at {p : Prog sig α} (only : p.Only (Prepares name)) (start : At h g x) :
    Notes site name (fun _ y => At h g y) p x := by
  refine (only.keeps start ?_).mono (fun _ _ _ _ _ _ => trivial) fun _ _ kept => kept
  rintro c x r y step ⟨migrates, quiet⟩ before
  have after := before.step step migrates
  rwa [quiet r g] at after

theorem prepares_bind {x' : Result α} {f : α → Result β} (only : x'.run.Only (Prepares name))
    (start : At h g x) (next : ∀ a y, At h g y → Notes site name Q (f a).run y)
    (error : ∀ e y, At h g y → Q (.error e) y) : Notes site name Q (x' >>= f).run x :=
  Safe.bindE (prepares_at only start) next error

theorem context_bind {m a : String} {f : String → Result β} (next : Notes site name Q (f a).run x) :
    Notes site name Q (context m (.ok a : Except String String) >>= f).run x := next

theorem listApps_prepares : Db.listApps.run.Only (Prepares name) :=
  call_only ⟨.inl rfl, fun _ _ => rfl⟩ (context_only _)

theorem readActive_prepares {s : String} : (State.readActive s).run.Only (Prepares name) := by
  refine call_only ⟨.inl rfl, fun _ _ => rfl⟩ fun r => ?_
  cases r <;> trivial

theorem containerExec_at {cmd : List String} (start : At h g x) :
    Notes site name (fun r y => At h (g.exec name cmd r) y) (containerExec "apps" cmd).run x := by
  refine prepares_bind readActive_prepares start (fun color y before => ?_) fun _ _ before => before
  intro r y' step
  exact ⟨trivial, before.step step (.inl rfl)⟩

theorem syncS6_at (start : At h g x) :
    Notes site name (fun r y => At h (g.sync r) y) Db.syncS6.run x := by
  refine prepares_bind listApps_prepares start (fun apps y before => ?_) fun _ _ before => before
  intro r y' step
  exact ⟨trivial, before.step step (.inl rfl)⟩

theorem svstat_ne_svlink : svstat name ≠ svlink name := by simp [svstat, svlink]

theorem exec_svlink {out : String} : g.exec name (svlink name) (.ok out) = { g with linked := true } :=
  if_pos rfl

theorem exec_svstat (out : String) :
    g.exec name (svstat name) (.ok out) = if trim out = "true" then { g with up := true } else g := by
  simp [Progress.exec, svstat_ne_svlink]

/-- The polls end with what is noted of them. -/
theorem awaitUp_at (polls : ℕ) (down : g.up = false) (start : At h g x) :
    Notes site name (fun r y => ∃ up, r = .ok up ∧ At h { g with up } y)
      (awaitUp ("/run/service/" ++ name) polls).run x := by
  induction polls generalizing x with
  | zero =>
    refine ⟨false, rfl, ?_⟩
    rwa [← down]
  | succ polls ih =>
    refine Safe.liftE (containerExec_at start) fun out y after => ?_
    cases out with
    | error e => exact ih after
    | ok out =>
      rw [show ["/command/s6-svstat", "-o", "up", "/run/service/" ++ name] = svstat name from rfl,
        exec_svstat] at after
      split at after
      · next seen => simpa [Except.toOption, seen, Safe] using after
      · next unseen => simpa [Except.toOption, unseen] using ih after

/-- The link and the polls succeed if and only if both are noted. -/
theorem linkApp_at (down : g.up = false) (unlinked : g.linked = false) (start : At h g x) :
    Notes site name (fun r y => ∃ linked up, At h { g with linked, up } y ∧
        ((∃ u, r = .ok u) ↔ linked = true ∧ up = true)) (linkApp name).run x := by
  refine Safe.liftE (containerExec_at start) fun out y after => ?_
  cases out with
  | error e =>
    have same : { g with linked := false, up := false } = g := by
      cases g
      simp_all
    exact ⟨false, false, same ▸ after, by simp⟩
  | ok out =>
    rw [show ["/command/s6-svlink", "/run/service", "/etc/s6-overlay/apps.d/" ++ name] = svlink name
      from rfl, exec_svlink] at after
    have down' : ({ g with linked := true } : Progress).up = false := down
    refine context_bind (Safe.bindE (awaitUp_at 10 down' after) ?_ ?_)
    · rintro up z ⟨_, same, seen⟩
      cases same
      cases up with
      | true => exact ⟨true, true, seen, by simp⟩
      | false => exact ⟨true, false, seen, by simp⟩
    · rintro e z ⟨_, same, _⟩
      cases same

theorem unnoted_of_routing {c : Call} (routing : Routing c) (r : c.Reply) (g : Progress) :
    Progress.note name c r g = g := by
  cases c with
  | docker q =>
    cases q with
    | containerExec n cmd =>
      subst routing
      cases r <;> simp [Progress.note, Progress.exec, svlink, svstat]
    | _ => rfl
  | syncS6 apps => exact routing.elim
  | _ => rfl

/-- What `add_app` leaves: proxies as they were unless the app is started, and proxies that are
current if it is. -/
def Left (site : Site) (h : Host) (p : AddAppParams) (r : Except String Unit) (x : Host × Progress) :
    Prop :=
  x.1.db.previewRows = h.db.previewRows ∧
    (¬ x.2.Started p ∧ x.1.proxy = h.proxy ∨ x.2.Started p ∧ x.1.Current site ∨
      r = .error caddyFailed ∨ r = .error nginxFailed)

theorem At.left {r : Except String Unit} (start : At h g x) (stopped : ¬ g.Started p) :
    Left site h p r x := ⟨start.previews, .inl ⟨start.progress ▸ stopped, start.proxy⟩⟩

theorem reloadAfter_left (start : At h g x) (started : g.Started p) :
    Notes site name (Left site h p) (reloadAfter "app added").run x := by
  obtain ⟨h₁, g₁⟩ := x
  obtain ⟨-, previews, rfl⟩ := start
  have only := (@reloadAfter_routing "app added").mono
    fun c routing (_ : Host) => @unnoted_of_routing name c routing
  refine (reloadAfter_current.unnoted only).post ?_
  rintro r ⟨h₂, g₂⟩ ⟨⟨db, current⟩, rfl⟩
  refine ⟨?_, .inr (current.imp (fun both => ⟨started, both⟩) id)⟩
  rw [← previews, db]

section Prepares

theorem findAppByName_prepares {n : String} : (Db.findAppByName n).run.Only (Prepares name) :=
  Only.bindE listApps_prepares fun _ => trivial

theorem portClaimed_prepares {q : UInt16} : (Db.portClaimed q).run.Only (Prepares name) :=
  call_only ⟨.inl rfl, fun _ _ => rfl⟩ fun _ => Only.bindE (context_only _ _) fun _ => trivial

theorem insertApp_prepares {app : AppRecord} : (Db.insertApp app).run.Only (Prepares name) :=
  call_only ⟨.inr rfl, fun _ _ => rfl⟩ (context_only _)

theorem connect_prepares : Db.connect.run.Only (Prepares name) :=
  call_only ⟨.inl rfl, fun _ _ => rfl⟩ (context_only _)

theorem init_prepares : Db.init.run.Only (Prepares name) := by
  refine call_only ⟨.inr rfl, fun _ _ => rfl⟩ fun r => Only.bindE (context_only _ _) fun _ => ?_
  refine call_only ⟨.inr rfl, fun _ _ => rfl⟩ fun _ => ?_
  refine call_only ⟨.inr rfl, fun _ _ => rfl⟩ fun _ => ?_
  exact call_only ⟨.inr rfl, fun _ _ => rfl⟩ (context_only _)

end Prepares

theorem not_started : ¬ ({} : Progress).Started p := fun started => Bool.noConfusion started.1

/-- From the insert on: the bundles are synced, and a runtime app is linked and polled. -/
theorem started_left (start : At h {} x) :
    Notes site p.name (Left site h p) (do
        Db.insertApp p.record
        Db.syncS6
        if p.source.getD "runtime" = "runtime" then do
          linkApp p.name
          reloadAfter "app added"
        else reloadAfter "app added" : Result Unit).run x := by
  refine prepares_bind insertApp_prepares start (fun _ y inserted => ?_) fun _ _ at_ =>
    at_.left not_started
  refine Safe.bindE (syncS6_at inserted) (fun _ z synced => ?_) fun _ _ at_ => at_.left not_started
  split
  · next runtime =>
    refine Safe.bindE (linkApp_at rfl rfl synced) ?_ ?_
    · rintro u w ⟨linked, up, after, done⟩
      exact reloadAfter_left after ⟨rfl, fun _ => done.mp ⟨u, rfl⟩⟩
    · rintro e w ⟨linked, up, after, done⟩
      refine after.left fun started => ?_
      obtain ⟨u, same⟩ := done.mpr (started.2 runtime)
      cases same
  · next build => exact reloadAfter_left synced ⟨rfl, fun runtime => absurd runtime build⟩

theorem insertApp_left (start : At h {} x) :
    Notes site p.name (Left site h p) (insertApp p).run x := by
  refine prepares_bind portClaimed_prepares start (fun claimed y counted => ?_) fun _ _ at_ =>
    at_.left not_started
  split
  · exact counted.left not_started
  · refine prepares_bind findAppByName_prepares counted (fun other z found => ?_) fun _ _ at_ =>
      at_.left not_started
    split
    · exact found.left not_started
    · dsimp only
      split
      · exact found.left not_started
      · exact started_left found

theorem addApp_left (start : At h {} x) :
    Notes site p.name (Left site h p) (addApp p).run x := by
  unfold addApp
  split
  · exact start.left not_started
  · refine Safe.liftE (containerExec_at start) fun check y checked => ?_
    have same : ({} : Progress).exec p.name ["test", "-d", p.directory] check = {} := by
      cases check <;> simp [Progress.exec, svlink, svstat]
    rw [same] at checked
    cases check with
    | error e => exact checked.left not_started
    | ok out =>
      refine context_bind ?_
      split
      · exact checked.left not_started
      · refine prepares_bind connect_prepares checked (fun _ w opened => ?_) fun _ _ at_ =>
          at_.left not_started
        refine prepares_bind init_prepares opened (fun _ v migrated => ?_) fun _ _ at_ =>
          at_.left not_started
        exact insertApp_left migrated

end Mcp

/-- When `add_app` returns and the proxies did not fail, the two configurations have the route of a
row of the table if the request has started its app and no preview has taken the subdomain;
otherwise, if they had it before. -/
theorem addApp_routes_iff {p : Mcp.AddAppParams} {r : Except String Unit} {g : Mcp.Progress}
    (named : Named h)
    (run : Finishes (Mcp.noted site p.name) (Mcp.addApp p).run (h, {}) r (h', g))
    (caddy : r ≠ .error "app added but Caddy reload failed")
    (nginx : r ≠ .error "app added but Nginx reload failed") :
    ∀ app ∈ h'.db.appRows, h'.Serves site app ↔
      g.Started p ∧ (∀ q ∈ h.db.previewRows, q.subdomain ≠ app.subdomain) ∨
        ¬ g.Started p ∧ h.Serves site app := by
  intro app mem
  have start : Mcp.At h {} (h, {}) := ⟨rfl, rfl, rfl⟩
  obtain ⟨previews, stopped | started | failed | failed⟩ := (Mcp.addApp_left start).finishes run
  · have same : h'.proxy = h.proxy := stopped.2
    simp only [Host.Serves, stopped.1, same, false_and, not_false_eq_true, true_and, false_or]
  · have named' : Named h' :=
      run.erase.keeps (fun _ _ _ _ step named => named_step named step) named
    simp only [started.1, true_and, not_true_eq_false, false_and, or_false]
    rw [started.2.serves_iff named' mem, previews]
  · exact absurd failed caddy
  · exact absurd failed nginx

/-- A runtime app, and a host whose proxies have no route yet. -/
def startedApp : Mcp.AddAppParams where
  name := "web"
  subdomain := "web"
  internalPort := 3001
  command := "bun run start"
  directory := "/home/gem/projects/web"

/-- What the environment answers up to the first poll: the directory is there and the link is
made. -/
def toPolls : List Choice := .ok :: .output "" :: Scenario.oks 10 ++ [.ok, .output ""]

def poll (up : Bool) : List Choice := [.ok, .output (if up then "true\n" else "false\n")]

/-- The second poll finds the app up, and both proxies have its route. -/
theorem addApp_routes_iff_started : ∃ h' g,
    Finishes (Mcp.noted appsSite startedApp.name) (Mcp.addApp startedApp).run (appsHost, {})
      (.ok ()) (h', g) ∧ startedApp.record ∈ h'.db.appRows ∧ h'.Serves appsSite startedApp.record := by
  have shown : playShow (noting (Call.answer appsSite) fun c _ => Mcp.Progress.note startedApp.name c) anyChoice
      (fun x => (x.1.db.appRows, x.2))
      (toPolls ++ poll false ++ poll true ++ Scenario.oks 18 ++ [.output ""])
      (Mcp.addApp startedApp).run (appsHost, {}) =
        some (some (.ok ()), [startedApp.record], ⟨true, true, true⟩) := by
    decide
  obtain ⟨⟨h', g⟩, run, seen⟩ := playShow_finishes _ _ shown
  have run := Reaches.mono handler_noting run
  have mem : startedApp.record ∈ h'.db.appRows := by
    rw [show h'.db.appRows = [startedApp.record] from congrArg Prod.fst seen]
    exact List.mem_singleton_self _
  have started : g = ⟨true, true, true⟩ := congrArg Prod.snd seen
  have named : Named appsHost := ⟨List.nodup_nil, List.nodup_nil⟩
  refine ⟨h', g, run, mem, ?_⟩
  refine (addApp_routes_iff named run nofun nofun _ mem).mpr (.inl ⟨?_, nofun⟩)
  subst started
  exact ⟨rfl, fun _ => ⟨rfl, rfl⟩⟩

/-- The app never comes up: its row is in the table, and Caddy has no route for it. -/
theorem not_always_routed :
    ¬ ∀ (site : Site) (h h' : Host) (p : Mcp.AddAppParams) (r : Except String Unit), Named h →
      Finishes (steps site) (Mcp.addApp p).run h r h' →
      r ≠ .error "app added but Caddy reload failed" →
      r ≠ .error "app added but Nginx reload failed" →
      ∀ app ∈ h'.db.appRows, app.name = p.name → h'.Serves site app := by
  intro always
  have shown : playShow (Call.answer appsSite) anyChoice
      (fun h => (h.db.appRows, h.proxy.loaded.routes))
      (toPolls ++ (List.replicate 10 (poll false)).flatten) (Mcp.addApp startedApp).run appsHost =
        some (some (.error ("App 'web' config written and route added, but service did not come up. " ++
          "Service output goes to container stdout — inspect with get_container_info " ++
          "service='apps'.")), [startedApp.record], []) := by
    decide +kernel
  obtain ⟨h', run, seen⟩ := playShow_finishes _ _ shown
  have rows : h'.db.appRows = [startedApp.record] := congrArg Prod.fst seen
  have routes : h'.proxy.loaded.routes = [] := congrArg Prod.snd seen
  have named : Named appsHost := ⟨List.nodup_nil, List.nodup_nil⟩
  have served := always appsSite appsHost h' startedApp _ named run (by decide) (by decide)
    startedApp.record (rows ▸ List.mem_singleton_self _) rfl
  rw [Host.Serves, routes] at served
  exact List.not_mem_nil served.1

end Codery
