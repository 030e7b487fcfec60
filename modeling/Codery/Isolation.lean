import Codery.Effect.Rely
import Codery.Schema

/-! What belongs to one service on the host: operations on other services leave it alone, in
whatever order their calls come. -/

namespace Codery

open Effect Prog

/-- The part belongs to service `t`. -/
def Part.Of (t : String) : Part → Prop
  | .container n => ∃ c, n = containerName t c
  | .color s => s = t
  | .sha s => s = t
  | .lock s => s = t
  | _ => False

/-- The service whose preview row a call writes. -/
def Call.row : Call → Option String
  | .db (.upsertPreview p) => some p.service
  | .db (.deletePreview s) => some s
  | _ => none

/-- A call that writes nothing that belongs to service `t`. -/
def Call.Spares (t : String) (c : Call) : Prop := ¬ c.part.Of t ∧ c.row ≠ some t

namespace Host

/-- The preview rows of a service. -/
def rows (h : Host) (t : String) : List PreviewRecord := h.db.previewRows.filter (·.service == t)

/-- What belongs to service `t` is the same in both hosts. -/
structure Same (t : String) (h h' : Host) : Prop where
  slot : ∀ c, h'.slot t c = h.slot t c
  color : h'.state.color t = h.state.color t
  sha : h'.state.sha t = h.state.sha t
  lock : h'.locks t = h.locks t
  rows : h'.rows t = h.rows t

variable {t : String} {h h₁ h₂ h₃ : Host}

theorem Same.refl (t : String) (h : Host) : h.Same t h := ⟨fun _ => rfl, rfl, rfl, rfl, rfl⟩

theorem Same.trans (first : h₁.Same t h₂) (second : h₂.Same t h₃) : h₁.Same t h₃ where
  slot c := (second.slot c).trans (first.slot c)
  color := second.color.trans first.color
  sha := second.sha.trans first.sha
  lock := second.lock.trans first.lock
  rows := second.rows.trans first.rows

theorem Same.active (same : h.Same t h₁) : h₁.active t = h.active t := by
  simp only [Host.active, StateDir.active, same.color]

theorem Same.up {c : Color} (same : h.Same t h₁) : h₁.Up t c ↔ h.Up t c := by
  simp only [up_iff, same.slot]

end Host

variable {site : Site} {h h' : Host} {s t sha : String} {c : Call} {a b : Color} {d : ServiceDef}
  {α β : Type}

/-! ### Single calls -/

theorem filter_upsert {rows : List PreviewRecord} {p : PreviewRecord} (ne : p.service ≠ t) :
    (Database.upsert rows p).2.filter (·.service == t) = rows.filter (·.service == t) := by
  have own (r : PreviewRecord) : (r.service == t && r.service != p.service) = (r.service == t) := by
    by_cases eq : r.service = t <;> simp [eq, Ne.symm ne]
  unfold Database.upsert
  split
  · rfl
  · simp [List.filter_append, ne, own]

theorem filter_delete {rows : List PreviewRecord} (ne : s ≠ t) :
    (Database.delete rows s).2.filter (·.service == t) = rows.filter (·.service == t) := by
  have own (r : PreviewRecord) : (r.service == t && r.service != s) = (r.service == t) := by
    by_cases eq : r.service = t <;> simp [eq, Ne.symm ne]
  simp [Database.delete, own]

/-- The rows of a service after a statement on the rows of another one. -/
theorem onPreviews_rows {db : Database} {γ : Type}
    {f : List PreviewRecord → Except String γ × List PreviewRecord}
    (kept : ∀ rows, (f rows).2.filter (·.service == t) = rows.filter (·.service == t)) :
    (Database.onPreviews db f).2.previewRows.filter (·.service == t) =
      db.previewRows.filter (·.service == t) := by
  unfold Database.onPreviews
  split
  · rfl
  · next rows there => simp [Database.previewRows, there, kept]

theorem step_rows {r : c.Reply} (step : steps site c h r h') (other : c.row ≠ some t) :
    h'.rows t = h.rows t := by
  by_cases previews : c.part = .previews
  · cases c with
    | db q =>
      obtain ⟨_, _, ans⟩ := step
      rcases Database.answer_run (answer_db ans).1 with ⟨_, ran⟩ | ⟨_, _, same⟩
      · have left : h'.db = (q.run h.db).2 := congrArg Prod.snd ran
        unfold Host.rows
        rw [left]
        cases q with
        | upsertPreview p =>
          exact onPreviews_rows fun _ => filter_upsert fun eq => other (by simp [Call.row, eq])
        | deletePreview s =>
          exact onPreviews_rows fun _ => filter_delete fun eq => other (by simp [Call.row, eq])
        | _ => cases previews
      · rw [Host.rows, same, Host.rows]
    | docker q => cases q <;> cases previews
    | state q => cases q <;> cases previews
    | proxy q => cases q <;> cases previews
    | _ => cases previews
  · obtain ⟨_, _, ans⟩ := step
    rw [Host.rows, frame_previews ans previews, Host.rows]

theorem Call.Spares.same {r : c.Reply} (spares : c.Spares t) (step : steps site c h r h') :
    h.Same t h' := by
  have frame : h.SameBut (· = c.part) h' := steps_sameBut step rfl
  have other {p : Part} (of : p.Of t) : p ≠ c.part := fun eq => spares.1 (eq ▸ of)
  exact ⟨fun a => frame.slot (other ⟨a, rfl⟩), frame.color (other rfl), frame.sha (other rfl),
    frame.locks (other rfl), step_rows step spares.2⟩

/-- A part of no service. -/
def Part.Shared (p : Part) : Prop := p.quiet = true ∨ p = .caddyfile ∨ p = .loaded

theorem row_of_part (other : c.part ≠ .previews) : c.row = none := by
  cases c with
  | db q => cases q <;> first | rfl | exact absurd rfl other
  | _ => rfl

theorem spares_of_part (notOf : ¬ c.part.Of t) (other : c.part ≠ .previews) : c.Spares t :=
  ⟨notOf, by rw [row_of_part other]; exact nofun⟩

theorem spares_of_shared (shared : c.part.Shared) : c.Spares t := by
  refine spares_of_part (fun of => ?_) fun previews => ?_
  · rcases shared with quiet | file | loaded
    · cases part : c.part <;> rw [part] at of quiet <;> first | exact of | cases quiet
    · rw [file] at of
      exact of
    · rw [loaded] at of
      exact of
  · rw [previews] at shared
    rcases shared with quiet | file | loaded
    · cases quiet
    · cases file
    · cases loaded

theorem spares_of_container (ne : s ≠ t) (container : c.part = .container (containerName s a)) :
    c.Spares t := by
  refine spares_of_part ?_ (by simp [container])
  rw [container]
  rintro ⟨b, same⟩
  exact ne (containerName_inj.mp same).1

/-! ### Programs -/

variable {p : Prog sig α}

theorem shared_spares (only : p.Only fun c : Call => c.part.Shared) : p.Only (Call.Spares t) :=
  only.mono fun _ => spares_of_shared

theorem quiet_spares (only : p.Only Quiet) : p.Only (Call.Spares t) :=
  only.mono fun _ quiet => spares_of_shared (.inl quiet)

theorem reads_spares (only : p.Only Reads) : p.Only (Call.Spares t) :=
  quiet_spares (quiet_of_reads only)

theorem reloads_spares (only : p.Only Reloads) : p.Only (Call.Spares t) := shared_spares only

theorem touches_spares (ne : s ≠ t) (only : p.Only (Touches (containerName s a))) :
    p.Only (Call.Spares t) := by
  refine only.mono fun c touches => ?_
  rcases touches with quiet | container
  · exact spares_of_shared (.inl quiet)
  · exact spares_of_container ne container

/-- Recording a color and a SHA of another service. -/
theorem record_spares (ne : s ≠ t) {f : Result α} (rest : f.run.Only (Call.Spares t)) :
    (do State.writeActive s a
        State.writeActiveSha s sha
        f : Result α).run.Only (Call.Spares t) := by
  refine Only.bindE (writeActive_only.mono fun c part => ?_) fun _ => ?_
  · exact spares_of_part (by rw [part]; exact ne) (by simp [part])
  refine Only.bindE (writeActiveSha_only.mono fun c part => ?_) fun _ => rest
  exact spares_of_part (by rw [part]; exact ne) (by simp [part])

theorem cutover_spares (ne : d.service ≠ t) : (Deploy.cutover d sha a b).run.Only (Call.Spares t) := by
  refine Only.bindE (reads_spares containerRunning_only) fun _ => ite_only ?_ trivial
  apply record_spares ne
  refine Only.bindE (reloads_spares applyAll_only) fun _ => ?_
  exact Only.bindE (touches_spares ne stopContainer_only) fun _ => quiet_spares prune_only

theorem redeploy_spares (ne : d.service ≠ t) : (Deploy.redeploy d sha a).run.Only (Call.Spares t) :=
  Only.bindE (touches_spares ne startInactive_only) fun _ => cutover_spares ne

theorem deployService_spares (ne : d.service ≠ t) :
    (Deploy.deployService d sha).run.Only (Call.Spares t) := by
  refine Only.bindE (reads_spares preflight_only) fun _ => ?_
  refine Only.bindE (reads_spares ensureNetwork_only) fun _ => ?_
  refine Only.bindE (reads_spares readActive_only) fun _ => ?_
  refine Only.bindE (reads_spares readActiveSha_only) fun _ => ?_
  refine ite_only ?_ (redeploy_spares ne)
  exact Only.bindE (reads_spares containerRunning_only) fun _ =>
    ite_only trivial (redeploy_spares ne)

theorem promote_spares (ne : d.service ≠ t) : (Deploy.promote d sha a).run.Only (Call.Spares t) :=
  Only.bindE (reads_spares containerRunsImage_only) fun _ =>
    ite_only (cutover_spares ne) (redeploy_spares ne)

theorem finishRollback_spares (ne : d.service ≠ t) :
    (Ui.finishRollback d d.service a sha).run.Only (Call.Spares t) := by
  refine Only.bindE (touches_spares ne (attempt_only pollHealth_only)) fun polled => ?_
  cases polled with
  | error e =>
    exact Only.bindE (touches_spares ne (attempt_only stopContainer_only)) fun _ => trivial
  | ok =>
    apply record_spares ne
    refine Only.bindE (reloads_spares (attempt_only applyAll_only)) fun _ => ?_
    refine Only.bindE (context_only _ _) fun _ => ?_
    exact touches_spares ne stopContainer_only

theorem doRollback_spares (ne : d.service ≠ t) :
    (Ui.doRollback d d.service a).run.Only (Call.Spares t) := by
  refine call_only (spares_of_shared (.inl rfl)) fun inspected => ?_
  cases inspected with
  | error e => trivial
  | ok info =>
    refine ite_only trivial (call_only (spares_of_container ne rfl) fun _ => ?_)
    exact Only.bindE (context_only _ _) fun _ => finishRollback_spares ne

theorem dropPreview_spares (ne : s ≠ t) : (Cli.dropPreview s).run.Only (Call.Spares t) := by
  refine Only.bindE (call_only ⟨id, fun same => ne (Option.some.inj same)⟩ fun _ => ?_) fun _ => ?_
  · exact Only.bindE (context_only _ _) fun _ => trivial
  · exact ite_only (reloads_spares reloadProxies_only) trivial

theorem upsertPreview_spares {p : PreviewRecord} (ne : p.service ≠ t) :
    (Db.upsertPreview p).run.Only (Call.Spares t) :=
  call_only ⟨id, fun same => ne (Option.some.inj same)⟩ (context_only _)

theorem connectInit_spares {f : Result α} (rest : f.run.Only (Call.Spares t)) :
    (do Db.connect; Db.init; f : Result α).run.Only (Call.Spares t) := by
  refine Only.bindE (reads_spares connect_only) fun _ => ?_
  exact Only.bindE (quiet_spares (quiet_of_migrates init_only)) fun _ => rest

/-! ### Operations

A definition that is loaded bears the name it is loaded under, whatever else happens on the host. -/

/-- Among others that may do anything, `p` spares service `t`. -/
abbrev KeepsOff (site : Site) (t : String) (Q : α → Host → Prop) (p : Prog sig α) (h : Host) : Prop :=
  Safe (among (steps site) fun _ _ => True) (fun c _ _ _ => c.Spares t) Q p h

theorem keepsOff_of_only (only : p.Only (Call.Spares t)) : KeepsOff site t (fun _ _ => True) p h :=
  only.safe h

theorem keepsOff_bindE {x : Result α} {f : α → Result β} (only : x.run.Only (Call.Spares t))
    (next : ∀ a h, KeepsOff site t (fun _ _ => True) (f a).run h) :
    KeepsOff site t (fun _ _ => True) (x >>= f).run h :=
  Safe.bindE (keepsOff_of_only only) (fun a h _ => next a h) fun _ _ _ => trivial

theorem call_keepsOff {Q : Except String β → Host → Prop} {f : c.Reply → Result β}
    (spares : c.Spares t)
    (next : ∀ r h₁ h', steps site c h r h₁ → KeepsOff site t Q (f r).run h') :
    KeepsOff site t Q (call c >>= f).run h := by
  rintro r h' ⟨h₁, step, -⟩
  exact ⟨spares, next r h₁ h' step⟩

/-- Every definition in the reply is one of service `s`. -/
abbrev OfService (s : String) (r : Except String ServiceDef) : Prop := ∀ d, r = .ok d → d.service = s

theorem loadService_keepsOff :
    KeepsOff site t (fun r _ => OfService s r) (loadService s).run h := by
  refine call_keepsOff (spares_of_shared (.inl rfl)) fun r h₁ h' step d ok => ?_
  subst ok
  obtain ⟨_, _, ans⟩ := step
  rcases Docker.fallible_some ans with same | same
  · have loaded : .ok d = site.load s := congrArg Prod.fst same
    unfold Site.load at loaded
    split at loaded <;> cases loaded
    next there => exact Services.load_service there
  · cases same

/-- What is done with the definition of another service. -/
theorem loaded_keepsOff {f : ServiceDef → Result α}
    (next : ∀ d h, d.service = s → KeepsOff site t (fun _ _ => True) (f d).run h) :
    KeepsOff site t (fun _ _ => True) (loadService s >>= f).run h :=
  Safe.bindE loadService_keepsOff (fun d h loaded => next d h (loaded d rfl)) fun _ _ _ => trivial

theorem loadedDef_keepsOff {m : String} {f : ServiceDef → Result α}
    (next : ∀ d h, d.service = s → KeepsOff site t (fun _ _ => True) (f d).run h) :
    KeepsOff site t (fun _ _ => True)
      (do let d ← context m (← attempt (loadService s))
          f d : Result α).run h := by
  refine Safe.liftE loadService_keepsOff fun r h loaded => ?_
  cases r with
  | error e => trivial
  | ok d => exact next d h (loaded d rfl)

theorem loadDef_ofService :
    KeepsOff site t (fun r _ => OfService s r) (Deploy.loadDef s).run h := by
  refine Safe.liftE loadService_keepsOff fun r h loaded => ?_
  cases r with
  | error e => exact nofun
  | ok d => exact loaded

theorem loadDef_keepsOff {f : ServiceDef → Result α}
    (next : ∀ d h, d.service = s → KeepsOff site t (fun _ _ => True) (f d).run h) :
    KeepsOff site t (fun _ _ => True) (Deploy.loadDef s >>= f).run h :=
  Safe.bindE loadDef_ofService (fun d h loaded => next d h (loaded d rfl)) fun _ _ _ => trivial

theorem run_keepsOff (ne : s ≠ t) : KeepsOff site t (fun _ _ => True) (Deploy.run s sha).run h :=
  loadDef_keepsOff fun _ _ loaded => keepsOff_of_only (deployService_spares (loaded ▸ ne))

theorem runStartInactive_keepsOff (ne : s ≠ t) :
    KeepsOff site t (fun _ _ => True) (Deploy.runStartInactive s sha).run h := by
  refine loadDef_keepsOff fun d h loaded => keepsOff_of_only ?_
  refine Only.bindE (reads_spares preflight_only) fun _ => ?_
  refine Only.bindE (reads_spares ensureNetwork_only) fun _ => ?_
  refine Only.bindE (reads_spares readActive_only) fun _ => ?_
  exact Only.bindE (touches_spares (loaded ▸ ne) startInactive_only) fun _ => trivial

theorem runCutover_keepsOff {shaOpt preview : Option String} (ne : s ≠ t) :
    KeepsOff site t (fun _ _ => True) (Deploy.runCutover s shaOpt preview).run h := by
  refine loadDef_keepsOff fun d h loaded => keepsOff_of_only ?_
  refine Only.bindE (reads_spares readActive_only) fun active => ?_
  refine Only.bindE (reads_spares previewStaged_only) fun staged => ?_
  refine Only.bindE (reads_spares listLocal_only) fun images => ?_
  refine Only.bindE (reads_spares containerImageTag_only) fun tag => ?_
  split
  · exact cutover_spares (loaded ▸ ne)
  · exact promote_spares (loaded ▸ ne)
  · trivial
  · trivial
  · trivial

theorem runCancelInactive_keepsOff (ne : s ≠ t) :
    KeepsOff site t (fun _ _ => True) (Deploy.runCancelInactive s).run h := by
  refine loadDef_keepsOff fun d h loaded => keepsOff_of_only ?_
  refine Only.bindE (reads_spares readActive_only) fun active => ?_
  refine Only.bindE (touches_spares (loaded ▸ ne) stopContainer_only) fun _ => ?_
  refine Only.bindE (touches_spares (loaded ▸ ne) removeContainerIfExists_only) fun _ => ?_
  exact quiet_spares prune_only

theorem recreate_keepsOff (ne : s ≠ t) :
    KeepsOff site t (fun _ _ => True) (Deploy.recreateActiveContainer s).run h := by
  refine loaded_keepsOff fun d h loaded => keepsOff_of_only ?_
  subst loaded
  refine Only.bindE (reads_spares colorOrBlue_only) fun color => ?_
  refine Only.bindE (reads_spares readActiveSha_only) fun sha => ?_
  cases sha with
  | none => trivial
  | some sha =>
    refine Only.bindE (touches_spares ne removeContainerIfExists_only) fun _ => ?_
    refine Only.bindE (touches_spares ne startContainer_only) fun _ => ?_
    refine Only.bindE (reloads_spares (attempt_only applyAll_only)) fun _ => ?_
    exact Only.bindE (context_only _ _) fun _ => trivial

/-- The lock of a service belongs to it. -/
theorem withLock_keepsOff {refusal : String → String} {body : Result Unit} (ne : s ≠ t)
    (run : ∀ h, KeepsOff site t (fun _ _ => True) body.run h) :
    KeepsOff site t (fun _ _ => True) (withLock s refusal body).run h := by
  refine call_keepsOff (spares_of_part (fun same => ne same) (by simp [Call.part])) fun r _ h _ => ?_
  cases r with
  | error e => trivial
  | ok =>
    refine Safe.liftE (run h) fun r h _ => ?_
    exact call_keepsOff (spares_of_part (fun same => ne same) (by simp [Call.part])) fun _ _ _ _ =>
      keepsOff_of_only (ofExcept_only r)

/-! The requests about apps and routes write no part of a service. -/

variable {name : String}

theorem containerExec_only {cmd : List String} : (Mcp.containerExec s cmd).run.Only Reads :=
  Only.bindE readActive_only fun _ => call_only rfl fun _ => ofExcept_only _

theorem syncS6_only : Db.syncS6.run.Only Reads :=
  Only.bindE listApps_only fun _ => call_only rfl fun _ => ofExcept_only _

theorem awaitUp_only (polls : ℕ) : (Mcp.awaitUp name polls).run.Only Reads := by
  induction polls with
  | zero => trivial
  | succ polls ih => exact Only.bindE (attempt_only containerExec_only) fun _ => ite_only trivial ih

theorem linkApp_only : (Mcp.linkApp name).run.Only Reads := by
  refine Only.bindE (attempt_only containerExec_only) fun _ => ?_
  refine Only.bindE (context_only _ _) fun _ => ?_
  exact Only.bindE (awaitUp_only 10) fun _ => ite_only trivial trivial

theorem findApp_only : (Db.findAppByName name).run.Only Reads :=
  Only.bindE listApps_only fun _ => trivial

theorem reloadAfter_spares {done : String} : (Mcp.reloadAfter done).run.Only (Call.Spares t) := by
  refine Only.bindE (reloads_spares (attempt_only applyAll_only)) fun _ => ?_
  refine Only.bindE (context_only _ _) fun _ => ?_
  refine Only.bindE (quiet_spares (attempt_only generateAndReload_only)) fun _ => ?_
  exact context_only _ _

/-- A statement on the apps table. -/
theorem apps_spares {q : Database.Call} {f : (Call.db q).Reply → Result α}
    (tables : (Call.db q).part = .tables ∨ (Call.db q).part = .nothing)
    (rest : ∀ r, (f r).run.Only (Call.Spares t)) : (call (.db q) >>= f).run.Only (Call.Spares t) := by
  refine call_only (spares_of_shared (.inl ?_)) rest
  rcases tables with part | part <;> rw [part] <;> rfl

theorem insertApp_spares {params : Mcp.AddAppParams} :
    (Mcp.insertApp params).run.Only (Call.Spares t) := by
  refine Only.bindE ?_ fun claimed => ite_only trivial ?_
  · exact apps_spares (.inr rfl) fun _ => Only.bindE (context_only _ _) fun _ => trivial
  refine Only.bindE (reads_spares findApp_only) fun other => ite_only trivial (ite_only trivial ?_)
  refine Only.bindE (apps_spares (.inl rfl) fun _ => context_only _ _) fun _ => ?_
  refine Only.bindE (reads_spares syncS6_only) fun _ => ite_only ?_ reloadAfter_spares
  exact Only.bindE (reads_spares linkApp_only) fun _ => reloadAfter_spares

theorem addApp_spares {params : Mcp.AddAppParams} :
    (Mcp.addApp params).run.Only (Call.Spares t) := by
  refine ite_only trivial ?_
  refine Only.bindE (reads_spares (attempt_only containerExec_only)) fun check => ?_
  refine Only.bindE (context_only _ _) fun out => ite_only trivial ?_
  exact connectInit_spares insertApp_spares

theorem removeApp_spares : (Mcp.removeApp name).run.Only (Call.Spares t) := by
  apply connectInit_spares
  refine Only.bindE (reads_spares findApp_only) fun found => ?_
  cases found with
  | none => trivial
  | some app =>
    refine ite_only trivial ?_
    refine Only.bindE (reads_spares (attempt_only containerExec_only)) fun _ => ?_
    refine Only.bindE ?_ fun _ => ?_
    · exact apps_spares (.inl rfl) fun _ => Only.bindE (context_only _ _) fun _ => trivial
    exact Only.bindE (reads_spares syncS6_only) fun _ => reloadAfter_spares

theorem setAppSource_spares {source : String} :
    (Cli.setAppSource name source).run.Only (Call.Spares t) := by
  refine ite_only trivial (connectInit_spares ?_)
  refine Only.bindE ?_ fun changed => ite_only (reads_spares syncS6_only) trivial
  exact apps_spares (.inl rfl) fun _ => Only.bindE (context_only _ _) fun _ => trivial

theorem getRoutes_spares : Mcp.getRoutes.run.Only (Call.Spares t) := by
  refine Only.bindE (reads_spares loadAll_only) fun defs => ?_
  refine call_only (spares_of_shared (.inl rfl)) fun domain => ?_
  refine Only.bindE (reads_spares (readColors_only defs)) fun colors => ?_
  apply connectInit_spares
  refine Only.bindE (reads_spares routeMap_only) fun routes => ?_
  exact call_only (spares_of_shared (.inl rfl)) fun _ => trivial

theorem getAppStatus_spares : Mcp.getAppStatus.run.Only (Call.Spares t) := by
  apply connectInit_spares
  refine Only.bindE (reads_spares listApps_only) fun apps => ?_
  refine Only.bindE (reads_spares (attempt_only containerExec_only)) fun out => ?_
  exact Only.bindE (context_only _ _) fun _ => ite_only trivial trivial

namespace Operation

/-- The service an operation names. -/
def service : Operation → Option String
  | .deploy s _ | .deployPreview s _ _ | .cutover s _ | .cancelPreview s | .recreate s
  | .dashboardRollback s | .mcpRollback s | .restartService s => some s
  | _ => none

variable {op : Operation}

/-- The operations that name no service. -/
theorem unnamed_spares (unnamed : op.service = none) : op.perform.Only (Call.Spares t) := by
  cases op with
  | reloadRoutes =>
    apply connectInit_spares
    exact Only.bindE (reads_spares syncS6_only) fun _ => reloads_spares reloadProxies_only
  | setAppSource => exact setAppSource_spares
  | diagnose => exact Only.bindE (quiet_spares diagnose_only) fun _ => trivial
  | mcpReloadRoutes => exact reloads_spares reloadProxies_only
  | getRoutes => exact Only.bindE getRoutes_spares fun _ => trivial
  | addApp => exact addApp_spares
  | removeApp => exact removeApp_spares
  | listApps =>
    refine Only.bindE (connectInit_spares ?_) fun _ => trivial
    exact reads_spares listApps_only
  | getAppStatus => exact Only.bindE getAppStatus_spares fun _ => trivial
  | _ => cases unnamed

theorem keepsOff (other : op.service ≠ some t) : KeepsOff site t (fun _ _ => True) op.perform h := by
  have ne {s : String} (named : op.service = some s) : s ≠ t := fun eq => other (eq ▸ named)
  cases op with
  | deploy => exact withLock_keepsOff (ne rfl) fun _ => run_keepsOff (ne rfl)
  | deployPreview service sha port =>
    refine withLock_keepsOff (ne rfl) fun h => ?_
    refine keepsOff_bindE (reads_spares loadService_only) fun d h => ?_
    refine keepsOff_bindE (ofExcept_only _) fun port h => ?_
    refine Safe.bindE (runStartInactive_keepsOff (ne rfl)) (fun inactive h _ => ?_) fun _ _ _ => trivial
    refine keepsOff_of_only (connectInit_spares ?_)
    refine Only.bindE (upsertPreview_spares (ne rfl)) fun _ => ?_
    exact reloads_spares reloadProxies_only
  | cutover =>
    refine withLock_keepsOff (ne rfl) fun h => ?_
    refine keepsOff_bindE (reads_spares connect_only) fun _ h => ?_
    refine keepsOff_bindE (quiet_spares (quiet_of_migrates init_only)) fun _ h => ?_
    refine keepsOff_bindE (reads_spares findPreview_only) fun preview h => ?_
    refine Safe.bindE (runCutover_keepsOff (ne rfl)) (fun _ h _ => ?_) fun _ _ _ => trivial
    exact keepsOff_of_only (dropPreview_spares (ne rfl))
  | cancelPreview =>
    refine withLock_keepsOff (ne rfl) fun h => ?_
    refine Safe.bindE (runCancelInactive_keepsOff (ne rfl)) (fun _ h _ => ?_) fun _ _ _ => trivial
    exact keepsOff_of_only (connectInit_spares (dropPreview_spares (ne rfl)))
  | recreate =>
    exact Safe.bindE (recreate_keepsOff (ne rfl)) (fun _ _ _ => trivial) fun _ _ _ => trivial
  | dashboardRollback =>
    refine withLock_keepsOff (ne rfl) fun h => loadedDef_keepsOff fun d h loaded => keepsOff_of_only ?_
    subst loaded
    exact Only.bindE (reads_spares readActive_only) fun _ => doRollback_spares (ne rfl)
  | mcpRollback =>
    refine loadedDef_keepsOff fun _ h _ => ?_
    refine keepsOff_bindE (reads_spares readActiveSha_only) fun activeSha h => ?_
    refine keepsOff_bindE (reads_spares listLocal_only) fun images h => ?_
    split
    · trivial
    · exact run_keepsOff (ne rfl)
  | restartService =>
    refine Safe.liftE (recreate_keepsOff (ne rfl)) fun r h _ => keepsOff_of_only ?_
    exact Only.bindE (context_only _ _) fun _ => trivial
  | _ => exact keepsOff_of_only (unnamed_spares rfl)

end Operation

/-! ### Many operations -/

/-- Whatever runs at once on other services, in whatever order, and wherever it fails or stops:
what belongs to a service stays as it was. -/
theorem untouched_at_once {ι : Type} [DecidableEq ι] {ops : ι → Operation} {h₀ : Host}
    {x : Pool sig ι (Except String Unit)} (others : ∀ i, (ops i).service ≠ some t)
    (run : Pool.Reaches (steps site) (fun _ _ => True)
      (Pool.start fun i => (ops i).perform, h₀) (x, h)) : h₀.Same t h := by
  have anything : Interferes (steps site) (fun (_ : ι) _ _ => True) fun _ c _ => c.Spares t :=
    ⟨fun _ _ => trivial, fun _ _ _ _ _ _ => trivial, fun _ _ _ _ _ _ _ _ _ => trivial⟩
  refine Pool.relies_keeps (J := h₀.Same t) (Q := fun _ _ _ => True) anything
    (fun i h _ => (ops i).keepsOff (others i)) ?_ (.refl t h₀) run
  exact fun i c h r h' step spares same => same.trans (spares.same step)

/-- A deploy of `paseo` and a cutover that meets it half-way leave `apps` alone. -/
theorem untouched_at_once_apps :
    ∃ x h, Pool.Reaches (steps Scenario.site) (fun _ _ => True)
        (Pool.start fun i => (Scenario.twoCommands i).perform, Scenario.serving) (x, h) ∧
      x.Done ∧ Scenario.serving.Same "apps" h := by
  have played : (playPool (Call.answer Scenario.site) anyChoice (fun _ _ => True)
      ((false, .ok) :: (true, .ok) :: List.replicate 7 (false, .ok))
      (Pool.start fun i => (Scenario.twoCommands i).perform, Scenario.serving)).map
        (fun y => ((y.1.prog false).result?.isSome, (y.1.prog true).result?.isSome)) =
      some (true, true) := by decide
  obtain ⟨⟨x, h⟩, run, shown⟩ := Option.map_eq_some_iff.mp played
  simp only [Prod.mk.injEq] at shown
  refine ⟨x, h, playPool_reaches run, Pool.done_of_results (Bool.forall_bool.mpr shown), ?_⟩
  exact untouched_at_once (Bool.forall_bool.mpr ⟨by decide, by decide⟩) (playPool_reaches run)

end Codery
