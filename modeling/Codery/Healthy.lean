import Codery.HostPorts
import Codery.Reading

/-! What a report of `diagnose` says when it finds nothing: the recorded containers run, and the
ports the Caddyfile names are listened on. -/

namespace Codery.Diagnose

open Effect Prog

variable {site : Site} {listing : String} {h h' : Host} {α β : Type} {s n t : String}
  {defs : List ServiceDef} {issue : ServiceIssue}

/-! ### The services -/

theorem inspectContainer_finds :
    Finds (steadily site listing) h (fun x => x.any (·.running) = true → h.docker.Up n)
      (inspectContainer n) := by
  refine Finds.call steadily_le rfl fun r ⟨h', step⟩ => ?_
  cases r with
  | error e => exact .pure nofun
  | ok i =>
    obtain ⟨k, hk, rfl⟩ := inspect_step_ok (steadily_le _ _ _ _ step)
    exact .pure fun up => ⟨k, hk, up⟩

/-- Whatever holds of the containers seen running holds of the colors listed. -/
theorem runningColors_all {blue green : Option ContainerState} {P : Color → Prop} {c : Color}
    (onBlue : blue.any (·.running) = true → P .blue)
    (onGreen : green.any (·.running) = true → P .green) (mem : c ∈ runningColors blue green) :
    P c := by
  rcases List.mem_append.mp mem with mem | mem
  · split at mem
    · cases List.mem_singleton.mp mem
      exact onBlue ‹_›
    · cases mem
  · split at mem
    · cases List.mem_singleton.mp mem
      exact onGreen ‹_›
    · cases mem

/-- A service that is not reported as unhealthy runs the recorded color, alone or not. -/
theorem classifyService_healthy {blue green : Option ContainerState} {c : Color}
    (healthy : (classifyService c (runningColors blue green)).unhealthy = false) :
    c ∈ runningColors blue green := by
  unfold runningColors at healthy ⊢
  revert healthy
  cases blue.any (·.running) <;> cases green.any (·.running) <;> cases c <;> decide

theorem severityOf_healthy {pending : Bool} {c : Color} {running : List Color}
    (healthy : (severityOf pending c running).unhealthy = false) :
    (classifyService c running).unhealthy = false := by
  cases pending with
  | true => cases healthy
  | false => exact healthy

/-- The issue names the color recorded, and says when its container does not run. -/
structure Sound (h : Host) (s : String) (issue : ServiceIssue) : Prop where
  service : issue.service = s
  color : Color.parse issue.stateColor = some (h.colorOf s)
  healthy : issue.severity.unhealthy = false → h.Up s (h.colorOf s)

theorem parse_asStr (c : Color) : Color.parse c.asStr = some c := by cases c <;> rfl

theorem checkService_finds {previews : List PreviewRecord} :
    Finds (steadily site listing) h (Sound h s) (checkService previews s) := by
  refine (Finds.of_spec steadily_le colorOrBlue_spec).bind fun c recorded => ?_
  subst recorded
  refine inspectContainer_finds.bind fun blue onBlue => ?_
  refine inspectContainer_finds.bind fun green onGreen => ?_
  refine .pure ⟨rfl, parse_asStr _, fun healthy => ?_⟩
  have listed := classifyService_healthy (severityOf_healthy healthy)
  exact runningColors_all (P := h.Up s) onBlue onGreen listed

theorem checkServices_finds {previews : List PreviewRecord} :
    Finds (steadily site listing) h (fun issues => List.Forall₂ (fun d => Sound h d.service) defs issues)
      (checkServices previews defs) := by
  induction defs with
  | nil => exact .pure .nil
  | cons d defs ih =>
    refine checkService_finds.bind fun issue sound => ?_
    exact ih.bind fun issues all => .pure (.cons sound all)

/-! ### The routes -/

/-- What `run` takes for the color of a route's target, and what the Caddyfile takes. -/
theorem colorOf_target {issues : List ServiceIssue} (cfg : CaddyConfig)
    (colors : cfg.colors = defs.map fun d => (d.service, h.colorOf d.service))
    (all : List.Forall₂ (fun d => Sound h d.service) defs issues) :
    ((issues.find? (·.service == t)).bind fun i => Color.parse i.stateColor).getD .blue =
      cfg.colorOf t := by
  rw [CaddyConfig.colorOf, colors]
  congr 1
  clear colors
  induction all with
  | nil => rfl
  | @cons d issue defs issues sound all ih =>
    simp only [List.find?_cons, List.map_cons, List.lookup_cons, sound.service]
    by_cases same : d.service = t
    · subst same
      simp only [beq_self_eq_true, Option.bind_some]
      exact sound.color
    · rw [beq_false_of_ne same, beq_false_of_ne (Ne.symm same)]
      exact ih

/-- The port `routeHostPort` returns, from the definition it loads, if any. -/
def portOf (load : String → Option ServiceDef) (target : String) (containerPort : UInt16)
    (color : Color) : UInt16 :=
  if target = "host" then containerPort
  else if target = "paseo" then Caddy.paseoHostPort color containerPort
  else ((load target).map fun d => d.portScheme.hostPort color containerPort).getD containerPort

theorem loadService_finds :
    Finds (steadily site listing) h (fun r => r.toOption = site.services.load s)
      (attempt (loadService s)) := by
  refine Safe.bind (β := Except String (Except String ServiceDef))
    (R := fun r h' => h' = h ∧ r.toOption = site.services.load s) ?_ fun r h' ⟨same, loaded⟩ => ?_
  · rintro r h' ⟨o, ok, ans⟩
    have same : o = .ok := by simpa [steady] using ok
    subst same
    cases ans
    refine ⟨rfl, rfl, ?_⟩
    unfold Site.load
    cases site.services.load s <;> rfl
  · exact ⟨same, fun r' ok => by cases ok; exact loaded⟩

theorem routeHostPort_finds {port : UInt16} {c : Color} :
    Finds (steadily site listing) h (· = portOf site.services.load t port c)
      (routeHostPort t port c) := by
  unfold routeHostPort portOf
  by_cases host : t = "host"
  · simp only [if_pos host]
    exact .pure rfl
  simp only [if_neg host]
  by_cases paseo : t = "paseo"
  · simp only [if_pos paseo]
    cases c <;> exact .pure rfl
  simp only [if_neg paseo]
  refine loadService_finds.bind fun r loaded => ?_
  rw [← loaded]
  cases r with
  | ok d => exact .pure rfl
  | error e => exact .pure rfl

/-- A run that reports no route has found a listener for each. -/
theorem checkRoutes_finds {issues : List ServiceIssue} {domain : String} {listening : List UInt16}
    {port : UnifiedRoute → UInt16} {routes : List UnifiedRoute}
    (ports : ∀ r ∈ routes, portOf site.services.load r.target r.port
      (((issues.find? (·.service == r.target)).bind fun i => Color.parse i.stateColor).getD .blue) =
        port r) :
    Finds (steadily site listing) h (fun found => found = [] → ∀ r ∈ routes, port r ∈ listening)
      (checkRoutes issues domain listening routes) := by
  induction routes with
  | nil => exact .pure nofun
  | cons r routes ih =>
    refine routeHostPort_finds.bind fun hostPort same => ?_
    rw [ports r List.mem_cons_self] at same
    subst same
    refine (ih fun r mem => ports r (List.mem_cons_of_mem _ mem)).bind fun found all => ?_
    split
    · next heard =>
      refine .pure fun none => ?_
      exact List.forall_mem_cons.mpr ⟨by simpa using heard, all none⟩
    · exact .pure nofun

/-! ### The report -/

/-- The offsets the documentation gives for `apps`. -/
def documentedApps : PortScheme := ⟨0, 10000⟩

/-- Both computations of a route's port agree, as long as `apps` has its documented offsets. -/
theorem portOf_target {cfg : CaddyConfig} {r : UnifiedRoute}
    (apps : ∀ d ∈ site.services.defs, d.service = "apps" → d.portScheme = documentedApps)
    (colors : cfg.colors = site.services.defs.map fun d => (d.service, h.colorOf d.service)) :
    portOf site.services.load r.target r.port (cfg.colorOf r.target) =
      Caddy.hostPort site.services.load cfg r := by
  unfold portOf Caddy.hostPort
  by_cases host : r.target = "host"
  · simp only [if_pos host]
  by_cases paseo : r.target = "paseo"
  · simp only [paseo, if_neg (show ¬ "paseo" = "host" by decide), if_pos]
  by_cases isApps : r.target = "apps"
  · simp only [isApps, if_neg (show ¬ "apps" = "host" by decide),
      if_neg (show ¬ "apps" = "paseo" by decide), if_pos]
    cases loaded : site.services.load "apps" with
    | some d =>
      have scheme := apps d (Services.load_mem loaded) (Services.load_service loaded)
      simp only [Option.map_some, Option.getD_some, scheme]
      cases cfg.colorOf "apps" <;> rfl
    | none =>
      -- Without a definition no color is read, and the two fallbacks are both blue.
      have uncolored : cfg.colorOf "apps" = .blue := by
        rw [CaddyConfig.colorOf, colors, List.lookup_eq_none_iff.mpr]
        · rfl
        · intro pair mem
          obtain ⟨d, hd, rfl⟩ := List.mem_map.mp mem
          have other : d.service ≠ "apps" := by simpa using List.find?_eq_none.mp loaded d hd
          simpa using other.symm
      simp [uncolored]
  · simp only [if_neg host, if_neg paseo, if_neg isApps]
    cases site.services.load r.target with
    | some d => rfl
    | none => rfl

/-- Every recorded container runs, and every port the Caddyfile names has a listener. -/
structure Healthy (site : Site) (listing : String) (h : Host) : Prop where
  up : ∀ d ∈ site.services.defs, h.Up d.service (h.colorOf d.service)
  listening : ∀ r ∈ h.routeMap site,
    Caddy.hostPort site.services.load (h.caddyConfig site) r ∈ parseListeningPorts listing

theorem report_healthy {services : List ServiceIssue} {routes : List RouteIssue}
    {previews : List PreviewIssue} (healthy : (report services routes previews).allHealthy = true) :
    (∀ issue ∈ services, issue.severity.unhealthy = false) ∧ routes = [] := by
  simp only [report, Bool.and_eq_true, Bool.not_eq_true', List.any_eq_false,
    List.isEmpty_iff] at healthy
  exact ⟨fun issue mem => by simpa using healthy.1.1 issue mem, healthy.1.2⟩

theorem sound_up {issues : List ServiceIssue}
    (all : List.Forall₂ (fun d => Sound h d.service) defs issues)
    (healthy : ∀ issue ∈ issues, issue.severity.unhealthy = false) :
    ∀ d ∈ defs, h.Up d.service (h.colorOf d.service) := by
  induction all with
  | nil => exact nofun
  | cons sound all ih =>
    refine List.forall_mem_cons.mpr ⟨sound.healthy (healthy _ List.mem_cons_self), ?_⟩
    exact ih fun issue mem => healthy issue (List.mem_cons_of_mem _ mem)

/-- `run` from the services on. -/
theorem checks_finds {previews : List PreviewRecord}
    (apps : ∀ d ∈ site.services.defs, d.service = "apps" → d.portScheme = documentedApps) :
    Finds (steadily site listing) h (fun found => found.allHealthy = true → Healthy site listing h) (do
      let services ← checkServices previews site.services.defs
      let unified ← context "failed to build route map" (← attempt Db.routeMap)
      let domain ← call .loadDomain
      let listening ← call .listeningPorts
      let routes ← checkRoutes services domain listening unified
      pure (report services routes (previews.map previewIssue))) := by
  refine checkServices_finds.bind fun services sound => ?_
  refine routeMap_finds.attempt.bind fun mapped found => ?_
  refine (Finds.context found).bind fun unified found => ?_
  subst found
  refine Finds.call steadily_le rfl fun domain _ => ?_
  refine Finds.call steadily_le rfl fun listening ⟨h', o, ok, ans⟩ => ?_
  have same : o = .bound (parseListeningPorts listing) := by simpa [steady] using ok
  subst same
  cases ans
  have ports (r : UnifiedRoute) (_ : r ∈ h.routeMap site) :
      portOf site.services.load r.target r.port
        (((services.find? (·.service == r.target)).bind fun i => Color.parse i.stateColor).getD .blue) =
          Caddy.hostPort site.services.load (h.caddyConfig site) r := by
    rw [colorOf_target (h.caddyConfig site) rfl sound, portOf_target apps rfl]
  refine (checkRoutes_finds ports).bind fun routes heard => ?_
  refine .pure fun healthy => ?_
  obtain ⟨fine, none⟩ := report_healthy healthy
  exact ⟨sound_up sound fine, heard none⟩

theorem init_unasked : Db.init.run.Only Unasked := by
  refine call_only id fun r => ?_
  refine Only.bindE (context_only _ _) fun _ => ?_
  refine call_only id fun _ => ?_
  refine call_only id fun _ => ?_
  exact call_only id (context_only _)

/-- `init` changes nothing that a healthy host is told by. -/
theorem init_healthy {I : StepRel sig Host} {Q : Except String β → Host → Prop} {m : String}
    {f : Unit → Result β} (hI : ∀ c h₁ r h₂, I c h₁ r h₂) (error : ∀ e h', Q (.error e) h')
    (next : ∀ h', (Healthy site listing h' → Healthy site listing h) →
      Safe (steadily site listing) I Q (f ()).run h') :
    Safe (steadily site listing) I Q
      (attempt Db.init >>= fun r => context m r >>= f).run h := by
  have steady : steadily site listing ≤ steps site := steadily_le
  have kept := (Safe.and (H := steps site)
    (only_sameBut (P := fun p => p = .nothing ∨ p = .tables) init_only h)
    (unasked_rows init_unasked)).restrict steady
  refine Safe.liftE (kept.mono (fun c h₁ r h₂ _ _ => hI c h₁ r h₂) fun _ _ both => both) ?_
  rintro r h' ⟨same, apps, previews⟩
  cases r with
  | error e => exact error _ _
  | ok =>
    refine next h' fun healthy => ?_
    have colorOf (s : String) : h'.colorOf s = h.colorOf s := by
      simp only [Host.colorOf, same.active (by simp)]
    have routeMap : h'.routeMap site = h.routeMap site := by
      simp only [Host.routeMap, apps, previews]
    have config : h'.caddyConfig site = h.caddyConfig site := by
      simp only [Host.caddyConfig, routeMap, colorOf]
    constructor
    · intro d mem
      have up := healthy.up d mem
      rwa [same.up (by simp), colorOf] at up
    · have listening := healthy.listening
      rwa [routeMap, config] at listening

/-- A report without a finding is right. -/
def Reported (site : Site) (listing : String) (h : Host) : Except String DiagnoseReport → Host → Prop
  | .ok found, _ => found.allHealthy = true → Healthy site listing h
  | .error _, _ => True

theorem run_safe
    (apps : ∀ d ∈ site.services.defs, d.service = "apps" → d.portScheme = documentedApps) :
    Safe (steadily site listing) (fun _ _ _ _ => True) (Reported site listing h)
      Diagnose.run.run h := by
  have any (c : Call) (h₁ : Host) (r : c.Reply) (h₂ : Host) (_ : reads c.part) : True := trivial
  refine (Finds.of_spec steadily_le loadAll_spec).attempt.safe any ?_ fun _ => trivial
  intro loaded found
  refine (Finds.context found).safe any ?_ fun _ => trivial
  intro defs found
  subst found
  refine (connect_finds steadily_le).attempt.safe any (fun connected _ => ?_) fun _ => trivial
  refine (Finds.context fun _ _ => trivial).safe any (fun _ (_ : True) => ?_) fun _ => trivial
  refine init_healthy (Q := Reported site listing h) (fun _ _ _ _ => trivial) (fun _ _ => trivial) ?_
  intro h' healthy
  refine (listPreviews_finds steadily_le).attempt.safe any (fun listed _ => ?_) fun _ => trivial
  refine (Finds.context fun _ _ => trivial).safe any (fun previews (_ : True) => ?_) fun _ => trivial
  refine (checks_finds apps).mono (fun _ _ _ _ _ _ => trivial) ?_
  rintro r h₁ ⟨_, holds⟩
  cases r with
  | ok found => exact fun sound => healthy (holds found rfl sound)
  | error e => trivial

/-- Where `diagnose` finds nothing, the recorded containers run, and what the Caddyfile sends
the routes to has a listener. -/
theorem allHealthy_sound {found : DiagnoseReport}
    (apps : ∀ d ∈ site.services.defs, d.service = "apps" → d.portScheme = documentedApps)
    (run : Finishes (steadily site listing) Diagnose.run.run h (.ok found) h')
    (healthy : found.allHealthy = true) :
    (∀ d ∈ site.services.defs, h.Up d.service (h.colorOf d.service)) ∧
      ∀ r ∈ h.routeMap site, Caddy.hostPort site.services.load (h.caddyConfig site) r ∈
        parseListeningPorts listing := by
  have sound : Healthy site listing h := (run_safe apps).finishes run healthy
  exact ⟨sound.up, sound.listening⟩

/-- What `ss` prints on a host where blue serves. -/
def servingListing : String := "State Local Address:Port\nLISTEN 0.0.0.0:13000\n"

theorem allHealthy_sound_serving :
    ∃ found h', Finishes (steadily Scenario.site servingListing) Diagnose.run.run Scenario.serving
        (.ok found) h' ∧
      (∀ d ∈ Scenario.site.services.defs, Scenario.serving.Up d.service
        (Scenario.serving.colorOf d.service)) ∧
      ∀ r ∈ Scenario.serving.routeMap Scenario.site, Caddy.hostPort Scenario.site.services.load
        (Scenario.serving.caddyConfig Scenario.site) r ∈ parseListeningPorts servingListing := by
  have played : (playShow (Call.answer Scenario.site) (steady servingListing) (fun _ => ())
      (Scenario.oks 15 ++ [.bound [13000]]) Diagnose.run.run Scenario.serving).map
        (fun x => x.1.map fun r => r.toOption.map (·.allHealthy)) = some (some (some true)) := by
    decide
  obtain ⟨⟨r?, _⟩, shown, reported⟩ := Option.map_eq_some_iff.mp played
  obtain ⟨r, rfl, healthy⟩ := Option.map_eq_some_iff.mp reported
  obtain ⟨h', run, _⟩ := playShow_finishes _ _ shown
  cases r with
  | error e => cases healthy
  | ok found => exact ⟨found, h', run, allHealthy_sound (by decide) run (Option.some_inj.mp healthy)⟩

end Codery.Diagnose
