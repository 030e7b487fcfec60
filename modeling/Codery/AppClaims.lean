import Codery.Effect.Vet
import Codery.Healthy
import Codery.Servers

/-! The rows of `apps` under concurrent `add_app` and `remove_app` requests: names and subdomains
are unique in the table, ports by a check that runs before the insert. -/

namespace Codery

open Effect Prog

/-- What no two rows may share. -/
def AppRecord.claims (r : AppRecord) : String × String × UInt16 :=
  (r.name, r.subdomain, r.internalPort)

theorem eq_sublist {β : Type} {l l' : List β} (same : l = l') : l.Sublist l' := same ▸ .refl _

namespace Database

/-- The rows of `apps`, none as long as there is no such table. -/
def tableRows (d : Database) : List AppRecord := (d.apps.map (·.rows)).getD []

def claims (d : Database) : List (String × String × UInt16) := d.tableRows.map AppRecord.claims

variable {o : Choice} {d d' : Database} {q : UInt16} {app : AppRecord}

theorem onApps_claims {α : Type} {missing : AppsTable → Option String}
    {f : AppsTable → Except String α × AppsTable}
    (hf : ∀ t, ((f t).2.rows.map AppRecord.claims).Sublist (t.rows.map AppRecord.claims)) :
    (onApps d missing f).2.claims.Sublist d.claims := by
  unfold onApps
  split
  · exact .refl _
  · next t ht =>
    split
    · exact .refl _
    · simpa [claims, tableRows, ht] using hf t

theorem setSource_claims (t : AppsTable) (name source : String) :
    (t.setSource name source).2.rows.map AppRecord.claims = t.rows.map AppRecord.claims := by
  simp only [AppsTable.setSource, List.map_map]
  refine List.map_congr_left fun r _ => ?_
  dsimp only [Function.comp]
  split <;> rfl

/-- Only an insert adds a claim. -/
theorem run_claims (c : Call) (hc : ∀ app, c ≠ .insertApp app) :
    (c.run d).2.claims.Sublist d.claims := by
  cases c with
  | insertApp app => exact absurd rfl (hc app)
  | createApps =>
    simp only [Call.run]
    split
    · exact List.nil_sublist _
    · exact .refl _
  | addNoCache =>
    simp only [Call.run]
    split
    · exact .refl _
    · next t ht =>
      split
      · exact .refl _
      · exact eq_sublist (by simp [claims, tableRows, ht, AppsTable.addNoCache, AppRecord.claims])
  | addSource =>
    simp only [Call.run]
    split
    · exact .refl _
    · next t ht =>
      split
      · exact .refl _
      · exact eq_sublist (by simp [claims, tableRows, ht, AppsTable.addSource, AppRecord.claims])
  | deleteApp name => exact onApps_claims fun t => List.filter_sublist.map _
  | updateSource name source => exact onApps_claims fun t => eq_sublist (setSource_claims t name source)
  | selectApps => exact onApps_claims fun _ => .refl _
  | countPort => exact onApps_claims fun _ => .refl _
  | createPreviews =>
    simp only [Call.run]
    split <;> exact .refl _
  | «open» => exact .refl _
  | upsertPreview | deletePreview | selectPreviews => simp [claims, tableRows, Call.run]

/-- An insert adds its row, unless the name or the subdomain is taken. -/
theorem run_insertApp :
    ((Call.insertApp app).run d).2.tableRows = d.tableRows ∨
      ((Call.insertApp app).run d).2.tableRows = d.tableRows ++ [app] ∧
        (∀ r ∈ d.tableRows, r.name ≠ app.name) ∧ ∀ r ∈ d.tableRows, r.subdomain ≠ app.subdomain := by
  simp only [Call.run, onApps]
  split
  · exact .inl rfl
  · next t ht =>
    have rows : d.tableRows = t.rows := by simp [tableRows, ht]
    split
    · exact .inl rfl
    · simp only [AppsTable.insert]
      split
      · exact .inl rows.symm
      · next names =>
        split
        · exact .inl rows.symm
        · next subdomains =>
          refine .inr ⟨by simp [tableRows, ht], ?_, ?_⟩
          · simpa [rows] using names
          · simpa [rows] using subdomains

theorem answer_countPort_zero (ans : (Call.countPort q).answer o d = some (.ok 0, d')) :
    ∀ r ∈ d'.tableRows, r.internalPort ≠ q := by
  rcases answer_run ans with ⟨_, ran⟩ | ⟨_, failed, _⟩
  · have same : d' = d := answer_reads ans trivial
    subst same
    simp only [Call.run, onApps] at ran
    split at ran
    · cases ran
    · next t ht =>
      have none : t.rows.countP (·.internalPort == q) = 0 :=
        (Except.ok.inj (congrArg Prod.fst ran)).symm
      intro r mem same
      rw [show d'.tableRows = t.rows by simp [tableRows, ht]] at mem
      exact List.countP_eq_zero.mp none r mem (by simpa using same)
  · cases failed

end Database

variable {site : Site} {h h' h₀ : Host} {α : Type} {q : UInt16}

/-- The statement adds a row with the port. -/
def Inserts (q : UInt16) (c : Call) : Prop := ∃ app, c = .db (.insertApp app) ∧ app.internalPort = q

def Counts (c : Call) : Prop := ∃ q, c = .db (.countPort q)

/-- The port check has found no row with the port. -/
def Unclaimed : (c : Call) → c.Reply → UInt16 → Prop
  | .db (.countPort p), r, q => r = .ok 0 ∧ p = q
  | _, _, _ => False

def PortFree (q : UInt16) (h : Host) : Prop := ∀ r ∈ h.db.tableRows, r.internalPort ≠ q

/-- What a step can do to the claims: none but an insert adds one. -/
theorem claims_step {c : Call} {r : c.Reply} (step : steps site c h r h') :
    h'.db.claims.Sublist h.db.claims ∨
      ∃ app, c = .db (.insertApp app) ∧ h'.db.tableRows = h.db.tableRows ++ [app] ∧
        (∀ r ∈ h.db.tableRows, r.name ≠ app.name) ∧
        ∀ r ∈ h.db.tableRows, r.subdomain ≠ app.subdomain := by
  obtain ⟨o, _, ans⟩ := step
  cases c with
  | db c =>
    rcases Database.answer_run (answer_db ans).1 with ⟨_, ran⟩ | ⟨_, _, same⟩
    · have after : h'.db = (c.run h.db).2 := congrArg Prod.snd ran
      rw [after]
      by_cases insert : ∃ app, c = .insertApp app
      · obtain ⟨app, rfl⟩ := insert
        rcases @Database.run_insertApp h.db app with kept | added
        · exact .inl (eq_sublist (congrArg (List.map _) kept))
        · exact .inr ⟨app, rfl, added⟩
      · exact .inl (Database.run_claims c fun app same => insert ⟨app, same⟩)
    · exact .inl (eq_sublist (congrArg Database.claims same))
  | _ => exact .inl (eq_sublist (congrArg Database.claims ((answer_frame ans).db (by simp))))

theorem portKeys : Pool.Keys (steps site) Inserts Counts Unclaimed PortFree where
  learns := by
    rintro c h r h' q ⟨p, rfl⟩ ⟨o, _, ans⟩ ⟨zero, rfl⟩
    cases (show r = .ok 0 from zero)
    exact Database.answer_countPort_zero (answer_db ans).1
  keeps := by
    intro c h r h' q step idle free row mem
    rcases claims_step step with fewer | ⟨app, rfl, rows, _⟩
    · obtain ⟨old, hold, same⟩ :=
        List.mem_map.mp (fewer.subset (List.mem_map.mpr ⟨row, mem, rfl⟩))
      rw [show row.internalPort = old.internalPort from congrArg (·.2.2) same.symm]
      exact free old hold
    · rw [rows] at mem
      rcases List.mem_append.mp mem with old | new
      · exact free row old
      · obtain rfl := List.mem_singleton.mp new
        exact fun same => idle ⟨row, rfl, same⟩

/-! ### `add_app` checks the port before it inserts -/

/-- A call that neither counts a port nor inserts a row. -/
abbrev Idle (c : Call) : Prop := Neutral (S := sig) Inserts Counts c

section Idle

variable {s name : String}

theorem idle_of_unasked {x : Result α} (hx : x.run.Only Unasked) : x.run.Only Idle := by
  refine hx.mono fun c unasked => ⟨?_, ?_⟩
  · rintro ⟨q, rfl⟩
    exact unasked trivial
  · rintro q ⟨app, rfl, _⟩
    exact unasked trivial

theorem listApps_idle : Db.listApps.run.Only Idle :=
  call_only ⟨nofun, fun _ => nofun⟩ (context_only _)

theorem findAppByName_idle : (Db.findAppByName name).run.Only Idle :=
  Only.bindE listApps_idle fun _ => trivial

theorem idle_of_routing {c : Call} (routing : Routing c) : Idle c := by
  constructor
  · rintro ⟨q, rfl⟩
    exact routing
  · rintro q ⟨app, rfl, _⟩
    exact routing

theorem reloadAfter_idle {done : String} : (Mcp.reloadAfter done).run.Only Idle :=
  reloadAfter_routing.mono fun _ => idle_of_routing

theorem syncS6_idle : Db.syncS6.run.Only Idle :=
  Only.bindE listApps_idle fun _ => call_only ⟨nofun, fun _ => nofun⟩ ofExcept_only

theorem containerExec_idle {cmd : List String} : (Mcp.containerExec s cmd).run.Only Idle :=
  idle_of_unasked containerExec_unasked

theorem awaitUp_idle (polls : ℕ) : (Mcp.awaitUp s polls).run.Only Idle := by
  induction polls with
  | zero => trivial
  | succ polls ih =>
    exact Only.bindE (attempt_only containerExec_idle) fun _ => ite_only trivial ih

theorem linkApp_idle : (Mcp.linkApp name).run.Only Idle := by
  refine Only.bindE (attempt_only containerExec_idle) fun linked => ?_
  refine Only.bindE (context_only _ _) fun _ => ?_
  exact Only.bindE (awaitUp_idle 10) fun _ => ite_only trivial trivial

theorem connectInit_idle {f : Result α} (hf : f.run.Only Idle) :
    (do Db.connect; Db.init; f : Result α).run.Only Idle :=
  Only.bindE (idle_of_unasked connect_unasked) fun _ =>
    Only.bindE (idle_of_unasked Diagnose.init_unasked) fun _ => hf

theorem removeApp_idle : (Mcp.removeApp name).run.Only Idle := by
  refine connectInit_idle (Only.bindE findAppByName_idle fun found => ?_)
  cases found with
  | none => trivial
  | some app =>
    refine ite_only trivial ?_
    refine Only.bindE (attempt_only containerExec_idle) fun _ => ?_
    refine Only.bindE ?_ fun _ => Only.bindE syncS6_idle fun _ => reloadAfter_idle
    refine call_only ⟨nofun, fun _ => nofun⟩ fun r => ?_
    exact Only.bindE (context_only _ _) fun _ => trivial

end Idle

section Vets

variable {p : Mcp.AddAppParams}

/-- `add_app` once the port check has passed. -/
def enterApp (p : Mcp.AddAppParams) : Result Unit := do
  let other ← Db.findAppByName p.name
  if other.isSome then throw ("app '" ++ p.name ++ "' already exists")
  else
    let source := p.source.getD "runtime"
    if source ≠ "runtime" ∧ source ≠ "build" then
      throw ("invalid source '" ++ source ++ "' — must be 'runtime' or 'build'")
    else do
      Db.insertApp p.record
      Db.syncS6
      if source = "runtime" then do
        Mcp.linkApp p.name
        Mcp.reloadAfter "app added"
      else Mcp.reloadAfter "app added"

theorem insertApp_run : (Mcp.insertApp p).run =
    .call (.db (.countPort p.internalPort)) fun r => (do
      let count ← context "failed to check port" r
      if decide (0 < count) = true then
        throw ("port " ++ toString p.internalPort ++ " already claimed by another app")
      else enterApp p : Result Unit).run := by
  change Prog.call _ _ = _
  congr 1
  funext r
  cases r <;> rfl

/-- The rows `enterApp` can insert have the port of the request. -/
theorem enterApp_inserts :
    (enterApp p).run.Only fun c => ∀ q, Inserts q c → q = p.internalPort := by
  have idle {β : Type} {x : Result β} (hx : x.run.Only Idle) :
      x.run.Only fun c => ∀ q, Inserts q c → q = p.internalPort :=
    hx.mono fun c idle q acts => absurd acts (idle.2 q)
  refine Only.bindE (idle findAppByName_idle) fun other => ?_
  refine ite_only trivial (ite_only trivial ?_)
  refine Only.bindE (call_only ?_ (context_only _)) fun _ => ?_
  · rintro q ⟨app, same, rfl⟩
    cases same
    rfl
  · refine idle (Only.bindE syncS6_idle fun _ => ite_only ?_ reloadAfter_idle)
    exact Only.bindE linkApp_idle fun _ => reloadAfter_idle

theorem enterApp_vets : (enterApp p).run.Vets Inserts Counts Unclaimed := by
  refine Vets.bindE findAppByName_idle fun other => ?_
  split
  · trivial
  · dsimp only
    split
    · trivial
    · refine Vets.acting (S := sig) (c := Call.db (.insertApp p.record)) fun r => ?_
      refine Only.bindE (context_only _ _) fun _ => Only.bindE syncS6_idle fun _ => ?_
      exact ite_only (Only.bindE linkApp_idle fun _ => reloadAfter_idle) reloadAfter_idle

theorem insertApp_vets : (Mcp.insertApp p).run.Vets Inserts Counts Unclaimed := by
  rw [insertApp_run]
  refine Vets.checking (fun q => nofun) (fun r => ?_) fun r q acts => ?_
  · cases r with
    | error e => trivial
    | ok n =>
      refine Vets.bindE (context_only _ _) fun count => ?_
      split
      · trivial
      · exact enterApp_vets
  · cases r with
    | error e => exact acts.elim
    | ok n =>
      change (if decide (0 < n) = true then throw _ else enterApp p : Result Unit).run.Acts _ _ at acts
      split at acts
      · exact acts.elim
      · next zero =>
        have none : n = 0 := by simpa using zero
        subst none
        have inserts := Only.mono (fun c all => all q) (enterApp_inserts (p := p))
        exact ⟨rfl, (Acts.of_only inserts acts).symm⟩

theorem connectInit_vets {f : Result α} (hf : f.run.Vets Inserts Counts Unclaimed) :
    (do Db.connect; Db.init; f : Result α).run.Vets Inserts Counts Unclaimed :=
  Vets.bindE (idle_of_unasked connect_unasked) fun _ =>
    Vets.bindE (idle_of_unasked Diagnose.init_unasked) fun _ => hf

theorem addApp_vets : (Mcp.addApp p).run.Vets Inserts Counts Unclaimed := by
  unfold Mcp.addApp
  split
  · trivial
  · refine Vets.bindE (attempt_only containerExec_idle) fun check => ?_
    refine Vets.bindE (context_only _ _) fun out => ?_
    split
    · trivial
    · exact connectInit_vets insertApp_vets

/-- The rows a request can insert have its port. -/
theorem addApp_inserts : (Mcp.addApp p).run.Only fun c => ∀ q, Inserts q c → q = p.internalPort := by
  have idle {β : Type} {x : Result β} (hx : x.run.Only Idle) :
      x.run.Only fun c => ∀ q, Inserts q c → q = p.internalPort :=
    hx.mono fun c idle q acts => absurd acts (idle.2 q)
  unfold Mcp.addApp
  refine ite_only trivial (Only.bindE (idle (attempt_only containerExec_idle)) fun check => ?_)
  refine Only.bindE (context_only _ _) fun out => ite_only trivial ?_
  refine Only.bindE (idle (idle_of_unasked connect_unasked)) fun _ => ?_
  refine Only.bindE (idle (idle_of_unasked Diagnose.init_unasked)) fun _ => ?_
  rw [insertApp_run]
  refine ⟨fun q => nofun, fun r => ?_⟩
  refine Only.bindE (context_only _ _) fun count => ite_only trivial ?_
  exact enterApp_inserts

/-- Before its check, a request is not about to insert. -/
theorem addApp_fresh : ¬ (Mcp.addApp p).run.Acts (Inserts q) Counts := by
  have spared {β : Type} {x : Result β} (hx : x.run.Only Idle) : x.run.Only fun c => ¬ Inserts q c :=
    hx.mono fun c idle => idle.2 q
  unfold Mcp.addApp
  split
  · exact id
  · intro acts
    obtain ⟨check, acts⟩ := acts_bindE (spared (attempt_only containerExec_idle)) acts
    obtain ⟨out, acts⟩ := acts_bindE (context_only _ _) acts
    split at acts
    · exact acts
    · obtain ⟨_, acts⟩ := acts_bindE (spared (idle_of_unasked connect_unasked)) acts
      obtain ⟨_, acts⟩ := acts_bindE (spared (idle_of_unasked Diagnose.init_unasked)) acts
      rw [insertApp_run] at acts
      rcases acts with ⟨app, same, _⟩ | ⟨unchecked, _⟩
      · cases same
      · exact unchecked ⟨_, rfl⟩

end Vets

/-- An `add_app` or a `remove_app` request. -/
def Operation.Registers : Operation → Prop
  | .addApp _ => True
  | .removeApp _ => True
  | _ => False

theorem Operation.vets {op : Operation} (registers : op.Registers) :
    op.perform.Vets Inserts Counts Unclaimed := by
  cases op with
  | addApp p => exact addApp_vets
  | removeApp name => exact Vets.of_neutral removeApp_idle
  | _ => exact registers.elim

theorem Operation.fresh {op : Operation} (registers : op.Registers) :
    ¬ op.perform.Acts (Inserts q) Counts := by
  cases op with
  | addApp p => exact addApp_fresh
  | removeApp name => exact not_acts (removeApp_idle.mono fun c idle => idle.2 q)
  | _ => exact registers.elim

/-! ### What holds between any two statements -/

/-- No two rows share a name, and no two a subdomain. -/
def Named (h : Host) : Prop :=
  (h.db.tableRows.map (·.name)).Nodup ∧ (h.db.tableRows.map (·.subdomain)).Nodup

def PortsDistinct (h : Host) : Prop := (h.db.tableRows.map (·.internalPort)).Nodup

theorem sublist_field {β : Type} (f : String × String × UInt16 → β)
    (fewer : h'.db.claims.Sublist h.db.claims) :
    (h'.db.tableRows.map fun r => f r.claims).Sublist (h.db.tableRows.map fun r => f r.claims) := by
  have mapped := fewer.map f
  rwa [Database.claims, Database.claims, List.map_map, List.map_map] at mapped

theorem nodup_concat {β : Type} {rows : List AppRecord} {app : AppRecord} {f : AppRecord → β}
    (nodup : (rows.map f).Nodup) (fresh : ∀ r ∈ rows, f r ≠ f app) :
    ((rows ++ [app]).map f).Nodup := by
  rw [List.map_append, List.map_singleton, List.nodup_append]
  refine ⟨nodup, List.nodup_singleton _, ?_⟩
  rintro a ha b hb rfl
  obtain ⟨r, mem, same⟩ := List.mem_map.mp ha
  exact fresh r mem (same.trans (List.mem_singleton.mp hb))

theorem named_step {c : Call} {r : c.Reply} (named : Named h) (step : steps site c h r h') :
    Named h' := by
  rcases claims_step step with fewer | ⟨app, _, rows, names, subdomains⟩
  · exact ⟨named.1.sublist (sublist_field (·.1) fewer),
      named.2.sublist (sublist_field (·.2.1) fewer)⟩
  · rw [Named, rows]
    exact ⟨nodup_concat named.1 names, nodup_concat named.2 subdomains⟩

theorem portsDistinct_step {c : Call} {r : c.Reply} (distinct : PortsDistinct h)
    (step : steps site c h r h') (free : ∀ q, Inserts q c → PortFree q h) : PortsDistinct h' := by
  rcases claims_step step with fewer | ⟨app, inserts, rows, _⟩
  · exact distinct.sublist (sublist_field (·.2.2) fewer)
  · rw [PortsDistinct, rows]
    exact nodup_concat distinct (free app.internalPort ⟨app, inserts, rfl⟩)

/-- Requests at once on an empty table: names and subdomains stay distinct whatever the order of
their statements; ports do, as long as no request inserts a row while another one that has passed
its check for the same port has yet to insert. -/
theorem claims_distinct {ι : Type} [DecidableEq ι] (ops : ι → Operation)
    (registers : ∀ i, (ops i).Registers) (empty : h₀.db.tableRows = [])
    (x : Pool sig ι (Except String Unit)) (h : Host) :
    (Pool.Reaches (steps site) (fun _ _ => True)
        (Pool.start fun i => (ops i).perform, h₀) (x, h) → Named h) ∧
      (Pool.Reaches (steps site) (Pool.Spaced Inserts Counts)
        (Pool.start fun i => (ops i).perform, h₀) (x, h) → Named h ∧ PortsDistinct h) := by
  have named : Named h₀ := by simp [Named, empty]
  have distinct : PortsDistinct h₀ := by simp [PortsDistinct, empty]
  constructor
  · exact fun run => run.keeps named fun _ _ _ _ => named_step
  · intro run
    refine portKeys.spaced (J := fun h => Named h ∧ PortsDistinct h) (fun i => (ops i).vets (registers i))
      (fun i q => (ops i).fresh (registers i)) ⟨named, distinct⟩ ?_ run
    rintro c h r h' ⟨named, distinct⟩ step free
    exact ⟨named_step named step, portsDistinct_step distinct step free⟩

/-- A request under a name of its own. -/
def webApp (name : String) (internalPort : UInt16 := 3001) : Mcp.AddAppParams where
  name
  subdomain := name
  internalPort
  command := "bun run start"
  directory := "/home/gem/projects/" ++ name
  source := some "build"

def appsSite : Site := { services := ⟨[], by decide⟩, domain := "example.com" }

/-- What the environment answers to a request up to its port check, and from there to its row. -/
def toCheck : List Choice := .ok :: .output "" :: Scenario.oks 6

def toRow : List Choice := Scenario.oks 2

/-- Both requests are past their checks before either inserts its row. -/
def checksFirst : List (Bool × Choice) :=
  toCheck.map (fun o => (false, o)) ++ toCheck.map (fun o => (true, o)) ++
    toRow.map (fun o => (false, o)) ++ toRow.map (fun o => (true, o))

def webAndShop : Bool → Mcp.AddAppParams
  | false => webApp "web"
  | true => webApp "shop" 3002

/-- Two requests for different ports, at once. -/
theorem claims_distinct_overlapping : ∃ x h,
    Pool.Reaches (steps appsSite) (Pool.Spaced Inserts Counts)
      (Pool.start fun i => (Operation.addApp (webAndShop i)).perform, appsHost) (x, h) ∧
      h.db.tableRows.map (·.name) = ["web", "shop"] ∧ Named h ∧ PortsDistinct h := by
  have played : (playPool (Call.answer appsSite) anyChoice (fun _ _ => True) checksFirst
      (Pool.start fun i => (Operation.addApp (webAndShop i)).perform, appsHost)).map
        (fun y => y.2.db.tableRows.map (·.name)) = some ["web", "shop"] := by
    decide
  obtain ⟨⟨x, h⟩, run, rows⟩ := Option.map_eq_some_iff.mp played
  have ports : ∀ i j, i ≠ j → (webAndShop i).internalPort ≠ (webAndShop j).internalPort := by decide
  have spaced : Pool.Reaches (steps appsSite) (Pool.Spaced Inserts Counts)
      (Pool.start fun i => (Operation.addApp (webAndShop i)).perform, appsHost) (x, h) :=
    Pool.Reaches.spaced (fun _ => addApp_inserts) ports (playPool_reaches run)
  have both := (claims_distinct (fun i => .addApp (webAndShop i)) (fun _ => trivial) rfl x h).2 spaced
  exact ⟨x, h, spaced, rows, both⟩

/-- Two requests count the rows of port 3001 before either has inserted its own. -/
theorem not_always_claimed :
    ¬ ∀ (site : Site) (h₀ : Host) (ops : Bool → Operation), (∀ i, (ops i).Registers) →
      h₀.db.tableRows = [] → ∀ (x : Pool sig Bool (Except String Unit)) (h : Host),
      Pool.Reaches (steps site) (fun _ _ => True)
        (Pool.start fun i => (ops i).perform, h₀) (x, h) → Named h ∧ PortsDistinct h := by
  intro always
  have played : (playPool (Call.answer appsSite) anyChoice (fun _ _ => True) checksFirst
      (Pool.start fun i => (Operation.addApp (webApp (if i then "shop" else "web"))).perform, appsHost)).map
        (fun y => y.2.db.tableRows.map (·.internalPort)) = some [3001, 3001] := by
    decide
  obtain ⟨⟨x, h⟩, run, ports⟩ := Option.map_eq_some_iff.mp played
  have distinct := (always appsSite appsHost (fun i => .addApp (webApp (if i then "shop" else "web")))
    (fun _ => trivial) rfl x h (playPool_reaches run)).2
  rw [PortsDistinct, show h.db.tableRows.map (·.internalPort) = [3001, 3001] from ports] at distinct
  exact absurd distinct (by decide)

end Codery
