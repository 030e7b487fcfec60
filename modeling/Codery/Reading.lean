import Codery.Caddyfile
import Codery.Diagnose
import Codery.LifecycleSpecs
import Codery.Schema

/-! What programs that only read the host find there, while its files stay as they are. -/

namespace Codery

open Effect Prog

/-- `str::split_whitespace`. -/
def splitWhitespace (s : String) : List String :=
  ((s.toList.splitOnP isWhitespace).filter (· ≠ [])).map String.ofList

/-- The port a field of `ss` ends in, after its last colon. -/
def portField (field : String) : Option UInt16 :=
  if ':' ∈ field.toList then
    parseU16 (String.ofList (field.toList.reverse.takeWhile (· ≠ ':')).reverse)
  else none

def parseListeningPorts (ss : String) : List UInt16 :=
  (lines ss).tail.flatMap fun line => (splitWhitespace line).filterMap portField

/-- The definitions and `routes.yaml` stay readable, and `ss` prints `listing`. -/
def steady (listing : String) : Call → Choice → Bool
  | .loadService _, o => o == .ok
  | .loadStaticRoutes, o => o == .ok
  | .listeningPorts, o => o == .bound (parseListeningPorts listing)
  | _, _ => true

abbrev steadily (site : Site) (listing : String) : StepRel sig Host :=
  handler (Call.answer site) (steady listing)

variable {site : Site} {listing : String} {h h' : Host} {α β ε : Type} {s n : String}
  {defs : List ServiceDef}

theorem steadily_le : steadily site listing ≤ steps site := by
  rintro c h r h' ⟨o, _, ans⟩
  exact ⟨o, rfl, ans⟩

/-- `x` changes nothing, and `T` holds of what it returns. -/
def Finds (H : StepRel sig Host) (h : Host) (T : α → Prop) (x : Result α) : Prop :=
  Safe H (fun c _ _ _ => reads c.part) (fun r h' => h' = h ∧ ∀ a, r = .ok a → T a) x.run h

namespace Finds

variable {H : StepRel sig Host} {T : α → Prop}

theorem pure {a : α} (holds : T a) : Finds H h T (pure a) := by
  refine ⟨rfl, fun b same => ?_⟩
  cases same
  exact holds

theorem throw {e : String} : Finds H h T (throw e) := ⟨rfl, nofun⟩

theorem bind {U : β → Prop} {x : Result α} {f : α → Result β} (finds : Finds H h T x)
    (next : ∀ a, T a → Finds H h U (f a)) : Finds H h U (x >>= f) := by
  refine Safe.bindE finds (fun a h' ⟨same, holds⟩ => ?_) fun e h' ⟨same, _⟩ => ⟨same, nofun⟩
  subst same
  exact next a (holds a rfl)

theorem attempt {x : Result α} (finds : Finds H h T x) :
    Finds H h (fun r => ∀ a, r = .ok a → T a) (attempt x) := by
  refine Safe.bind (β := Except String (Except String α)) finds fun r h' ⟨same, holds⟩ => ?_
  refine ⟨same, fun r' ok => ?_⟩
  cases ok
  exact holds

theorem imp {U : α → Prop} {x : Result α} (finds : Finds H h T x) (le : ∀ a, T a → U a) :
    Finds H h U x := by
  refine Safe.post finds ?_
  rintro r h' ⟨same, holds⟩
  exact ⟨same, fun a ok => le a (holds a ok)⟩

theorem context {m : String} {x : Except ε α} (holds : ∀ a, x = .ok a → T a) :
    Finds H h T (context m x) := by
  cases x with
  | ok a => exact .pure (holds a rfl)
  | error e => exact .throw

variable (le : H ≤ steps site)
include le

/-- A program that only reads finds what its specification says. -/
theorem of_spec {x : Result α} (spec : Spec site reads h (OnOk fun a _ => T a) x.run) :
    Finds H h T x := by
  refine (Safe.restrict spec le).mono (fun _ _ _ _ _ step => step.1) ?_
  intro r h' ⟨same, holds⟩
  refine ⟨same.eq_of_reads, fun a ok => ?_⟩
  subst ok
  exact holds

theorem call {c : Call} {f : c.Reply → Result α} (hc : reads c.part)
    (next : ∀ r, (∃ h', H c h r h') → Finds H h T (f r)) : Finds H h T (call c >>= f) := by
  intro r h' step
  have same := reads_step (le _ _ _ _ step) hc
  refine ⟨hc, ?_⟩
  subst same
  exact next r ⟨_, step⟩

omit le

/-- What is found decides how a program goes on that changes the host. -/
theorem safe {I : StepRel sig Host} {Q : Except String β → Host → Prop} {x : Result α}
    {f : α → Result β} (finds : Finds H h T x) (step : ∀ c h₁ r h₂, reads c.part → I c h₁ r h₂)
    (next : ∀ a, T a → Safe H I Q (f a).run h) (error : ∀ e, Q (.error e) h) :
    Safe H I Q (x >>= f).run h := by
  refine Safe.bindE (finds.mono (fun c h₁ r h₂ _ hc => step c h₁ r h₂ hc) fun _ _ found => found) ?_ ?_
  · rintro a h' ⟨same, holds⟩
    subst same
    exact next a (holds a rfl)
  · rintro e h' ⟨same, _⟩
    subst same
    exact error e

end Finds

/-! ### The tables -/

/-- The table as the two `ALTER TABLE`s of `init` leave it. -/
def AppsTable.migrate (t : AppsTable) : AppsTable :=
  let t := if t.hasNoCache then t else t.addNoCache
  if t.hasSource then t else t.addSource

/-- The rows of `apps` that a query meets, once it does not fail. -/
def Database.appRows (d : Database) : List AppRecord :=
  (d.apps.map (·.migrate.rows)).getD []

namespace Database

variable {d d' : Database} {o : Choice} {t : AppsTable}

theorem migrate_addNoCache (lacks : t.hasNoCache = false) : t.addNoCache.migrate = t.migrate := by
  simp [AppsTable.migrate, AppsTable.addNoCache, lacks]

theorem migrate_addSource (lacks : t.hasSource = false) : t.addSource.migrate = t.migrate := by
  cases noCache : t.hasNoCache <;>
    simp [AppsTable.migrate, AppsTable.addSource, AppsTable.addNoCache, lacks, noCache]

/-- The schema's statements keep the rows. -/
theorem answer_rows {c : Call} {r : c.Reply} (ans : c.answer o d = some (r, d'))
    (hc : ¬ c.Queries) : d'.appRows = d.appRows ∧ d'.previewRows = d.previewRows := by
  rcases answer_run ans with ⟨_, ran⟩ | ⟨_, _, rfl⟩
  · rw [show d' = (c.run d).2 from congrArg Prod.snd ran]
    cases c with
    | «open» => exact ⟨rfl, rfl⟩
    | createApps =>
      simp only [Call.run]
      split
      · next none => exact ⟨by simp [appRows, none, AppsTable.migrate, AppsTable.created,
          AppsTable.addNoCache, AppsTable.addSource], rfl⟩
      · exact ⟨rfl, rfl⟩
    | addNoCache =>
      simp only [Call.run]
      split
      · exact ⟨rfl, rfl⟩
      · next t ht =>
        split
        · exact ⟨rfl, rfl⟩
        · next lacks =>
          refine ⟨?_, rfl⟩
          simp only [appRows, ht, Option.map_some, migrate_addNoCache (Bool.not_eq_true _ ▸ lacks)]
    | addSource =>
      simp only [Call.run]
      split
      · exact ⟨rfl, rfl⟩
      · next t ht =>
        split
        · exact ⟨rfl, rfl⟩
        · next lacks =>
          refine ⟨?_, rfl⟩
          simp only [appRows, ht, Option.map_some, migrate_addSource (Bool.not_eq_true _ ▸ lacks)]
    | createPreviews =>
      simp only [Call.run]
      split
      · next none => exact ⟨rfl, by simp [previewRows, none]⟩
      · exact ⟨rfl, rfl⟩
    | _ => exact absurd trivial hc
  · exact ⟨rfl, rfl⟩

theorem answer_selectApps {r : Except String (List AppRecord)}
    (ans : Call.selectApps.answer o d = some (r, d')) {rows : List AppRecord} (ok : r = .ok rows) :
    rows = d.appRows.insertionSort (·.name ≤ ·.name) := by
  subst ok
  rcases answer_run ans with ⟨_, ran⟩ | ⟨_, failed, _⟩
  · simp only [Call.run, onApps] at ran
    split at ran
    · cases ran
    · next t ht =>
      cases full : t.lacks with
      | some column =>
        rw [full] at ran
        cases ran
      | none =>
        rw [full] at ran
        cases ran
        unfold AppsTable.lacks at full
        split at full
        · cases full
        · split at full
          · cases full
          · next noCache source =>
            simp only [appRows, ht, Option.map_some, AppsTable.migrate,
              if_pos (Bool.not_eq_false _ ▸ noCache), if_pos (Bool.not_eq_false _ ▸ source)]
            rfl
  · cases failed

end Database

/-- Nothing that asks no query changes the rows. -/
theorem unasked_rows {p : Prog sig α} (only : p.Only Unasked) :
    Safe (steps site) (fun _ _ _ _ => True)
      (fun _ h' => h'.db.appRows = h.db.appRows ∧ h'.db.previewRows = h.db.previewRows) p h := by
  refine (Prog.Only.keeps (J := fun h' : Host => h'.db.appRows = h.db.appRows ∧
    h'.db.previewRows = h.db.previewRows) only ⟨rfl, rfl⟩ ?_).mono (fun _ _ _ _ _ _ => trivial)
      fun _ _ kept => kept
  rintro c h₁ r h₂ ⟨o, _, ans⟩ unasked ⟨apps, previews⟩
  cases c with
  | db q =>
    obtain ⟨apps', previews'⟩ := Database.answer_rows (answer_db ans).1 unasked
    exact ⟨apps'.trans apps, previews'.trans previews⟩
  | _ =>
    rw [(answer_frame ans).db (by simp)]
    exact ⟨apps, previews⟩

/-! ### The route map and the Caddyfile -/

namespace Host

/-- What `build_route_map` makes of the tables and of static routes. -/
def routesOver (site : Site) (statics : List StaticRoute) (h : Host) : List UnifiedRoute :=
  buildRouteMap site.services.defs statics (h.db.appRows.insertionSort (·.name ≤ ·.name))
    (h.db.previewRows.insertionSort (·.service ≤ ·.service))

/-- What `build_route_map` makes of the tables. -/
def routeMap (site : Site) (h : Host) : List UnifiedRoute :=
  buildRouteMap site.services.defs site.staticRoutes (h.db.appRows.insertionSort (·.name ≤ ·.name))
    (h.db.previewRows.insertionSort (·.service ≤ ·.service))

/-- What `apply_all` renders. -/
def caddyConfig (site : Site) (h : Host) : CaddyConfig where
  routes := h.routeMap site
  colors := site.services.defs.map fun d => (d.service, h.colorOf d.service)
  domain := site.domain

end Host

section Tables

variable {H : StepRel sig Host} (le : H ≤ steps site)
include le

theorem listApps_finds :
    Finds H h (· = h.db.appRows.insertionSort (·.name ≤ ·.name)) Db.listApps := by
  refine Finds.call le rfl fun r ⟨h', step⟩ => ?_
  obtain ⟨_, _, ans⟩ := le _ _ _ _ step
  exact Finds.context fun rows ok => Database.answer_selectApps (answer_db ans).1 ok

theorem listPreviews_finds :
    Finds H h (· = h.db.previewRows.insertionSort (·.service ≤ ·.service)) Db.listPreviews := by
  refine Finds.call le rfl fun r ⟨h', step⟩ => ?_
  obtain ⟨_, _, ans⟩ := le _ _ _ _ step
  exact Finds.context fun rows ok => Database.answer_selectPreviews (answer_db ans).1 ok

theorem connect_finds : Finds H h (fun _ => True) Db.connect :=
  Finds.call le rfl fun _ _ => Finds.context fun _ _ => trivial

/-- The route map is that of the tables, over the static routes that were read. -/
theorem routeMap_reads :
    Finds H h (fun routes => ∃ r h', H .loadStaticRoutes h r h' ∧
        routes = h.routesOver site (r.toOption.getD defaultStaticRoutes)) Db.routeMap := by
  refine (Finds.of_spec le loadAll_spec).bind fun defs loaded => ?_
  subst loaded
  refine Finds.call le rfl fun statics ⟨h', read⟩ => ?_
  refine (listApps_finds le).bind fun apps found => ?_
  subst found
  refine (listPreviews_finds le).bind fun previews found => ?_
  subst found
  exact .pure ⟨statics, h', read, rfl⟩

end Tables

theorem routeMap_finds : Finds (steadily site listing) h (· = h.routeMap site) Db.routeMap := by
  refine (routeMap_reads steadily_le).imp ?_
  rintro routes ⟨r, h', ⟨o, ok, ans⟩, rfl⟩
  have same : o = .ok := by simpa [steady] using ok
  subst same
  cases ans
  rfl

theorem readColors_finds : Finds (steadily site listing) h
    (· = defs.map fun d => (d.service, h.colorOf d.service)) (Caddy.readColors defs) := by
  induction defs with
  | nil => exact .pure rfl
  | cons d defs ih =>
    refine (Finds.of_spec steadily_le colorOrBlue_spec).bind fun color found => ?_
    subst found
    refine ih.bind fun rest found => ?_
    subst found
    exact .pure rfl

/-- `apply_all` writes what the definitions, the records and the tables say, and nothing else. -/
theorem applyAll_writes :
    Safe (steadily site listing)
      (fun c _ _ _ => ∀ cfg, c = .proxy (.writeCaddyfile cfg) → cfg = h.caddyConfig site)
      (fun _ _ => True) Caddy.applyAll.run h := by
  have step (c : Call) (h₁ : Host) (r : c.Reply) (h₂ : Host) (hc : reads c.part) (cfg : CaddyConfig)
      (same : c = .proxy (.writeCaddyfile cfg)) : cfg = h.caddyConfig site := by
    subst same
    cases hc
  refine (Finds.of_spec steadily_le loadAll_spec).safe step (fun defs loaded => ?_) fun _ => trivial
  subst loaded
  intro domain h' read
  refine ⟨nofun, ?_⟩
  have same := reads_step (steadily_le _ _ _ _ read) rfl
  obtain ⟨o, _, ans⟩ := read
  subst same
  have domain : domain = site.domain := by
    cases o <;> cases ans
    rfl
  subst domain
  refine readColors_finds.safe step (fun colors found => ?_) fun _ => trivial
  subst found
  refine (connect_finds steadily_le).safe step (fun _ _ => ?_) fun _ => trivial
  refine routeMap_finds.safe step (fun routes found => ?_) fun _ => trivial
  subst found
  intro r h₁ _
  refine ⟨?_, ?_⟩
  · intro cfg same
    cases same
    rfl
  · have rest : (do context ("failed to write " ++ Codery.caddyConfig) r
                    Caddy.reloadCaddy : Result Unit).run.Only fun c : Call => c = .proxy .reloadCaddy :=
      Only.bindE (context_only _ _) fun _ => call_only rfl (context_only _)
    refine (rest.safe h₁).mono (fun c _ _ _ _ reload cfg same => ?_) fun _ _ _ => trivial
    rw [reload] at same
    cases same

end Codery
