import Codery.Diagnose
import Codery.Guards

/-! The requests a host receives, and the ones on a service that hold its deploy lock. -/

namespace Codery

open Effect Prog

inductive Operation
  | deploy (service sha : String)
  | deployPreview (service sha : String) (port : Option String)
  | cutover (service : String) (sha : Option String)
  | cancelPreview (service : String)
  | recreate (service : String)
  | reloadRoutes
  | setAppSource (name source : String)
  | diagnose
  | dashboardRollback (service : String)
  | mcpRollback (service : String)
  | restartService (service : String)
  | mcpReloadRoutes
  | getRoutes
  | addApp (params : Mcp.AddAppParams)
  | removeApp (name : String)
  | listApps
  | getAppStatus

def discard {α : Type} (x : Result α) : Result Unit := do
  let _ ← x
  pure ()

def Operation.result : Operation → Result Unit
  | .deploy service sha => Cli.deploy service sha
  | .deployPreview service sha port => Cli.deployPreview service sha port
  | .cutover service sha => Cli.cutover service sha
  | .cancelPreview service => Cli.cancelPreview service
  | .recreate service => Cli.recreate service
  | .reloadRoutes => Cli.reloadRoutes
  | .setAppSource name source => Cli.setAppSource name source
  | .diagnose => discard Diagnose.run
  | .dashboardRollback service => Ui.runRollback service
  | .mcpRollback service => Mcp.rollback service
  | .restartService service => Mcp.restartService service
  | .mcpReloadRoutes => Mcp.reloadRoutes
  | .getRoutes => discard Mcp.getRoutes
  | .addApp params => Mcp.addApp params
  | .removeApp name => Mcp.removeApp name
  | .listApps => discard Mcp.listApps
  | .getAppStatus => discard Mcp.getAppStatus

def Operation.perform (op : Operation) : Prog sig (Except String Unit) := op.result.run

/-- The operations on `service` that hold its deploy lock. -/
def Operation.Locks (service : String) : Operation → Prop
  | .deploy s _ => s = service
  | .deployPreview s _ _ => s = service
  | .cutover s _ => s = service
  | .cancelPreview s => s = service
  | .dashboardRollback s => s = service
  | _ => False

section

variable {site : Site} {P : Part → Prop} {h h' : Host} {s sha : String} {d : ServiceDef} {α : Type}

theorem Host.SameBut.aligned (same : h.SameBut P h') (color : ¬ P (.color s))
    (loaded : ¬ P .loaded) (al : h.Aligned s) : h'.Aligned s := by
  intro c routed
  rw [view_routed, same.loaded loaded] at routed
  rw [view_active, same.active color]
  exact al c routed

theorem Host.SameBut.vetted (same : h.SameBut P h') (color : ¬ P (.color d.service))
    (slot : ∀ c, ¬ P (.container (containerName d.service c))) (vet : h.Vetted d sha) :
    h'.Vetted d sha := by
  intro a k active hk
  rw [same.active color] at active
  rw [same.slot (slot _)] at hk
  exact vet a k active hk

/-- The lock itself does not matter to what a locked program does. -/
theorem withLock_safe {I : StepRel sig Host} {R Q : Except String α → Host → Prop}
    {body : Result α} {refusal : String → String}
    (lock : ∀ x h₁ r h₂, steps site x h₁ r h₂ → x.part = .lock s → I x h₁ r h₂)
    (refused : ∀ e h₁, h.SameBut (· = .lock s) h₁ → Q (.error e) h₁)
    (run : ∀ h₁, h.SameBut (· = .lock s) h₁ → Safe (steps site) I R body.run h₁)
    (done : ∀ r h₁ h₂, R r h₁ → h₁.SameBut (· = .lock s) h₂ → Q r h₂) :
    Safe (steps site) I Q (withLock s refusal body).run h := by
  apply call_safe
  intro acquired h₁ step
  have same : h.SameBut (· = .lock s) h₁ := steps_sameBut step rfl
  refine ⟨lock _ _ _ _ step rfl, ?_⟩
  cases acquired with
  | error e => exact refused _ h₁ same
  | ok =>
    refine Safe.liftE (run h₁ same) ?_
    intro r h₂ hr
    apply call_safe
    intro _ h₃ step
    exact ⟨lock _ _ _ _ step rfl, done r h₂ h₃ hr (steps_sameBut step rfl)⟩

/-- Whatever `cutover` would promote without starting it has passed its health check. -/
def Operation.Vetted (site : Site) (h : Host) : Operation → Prop
  | .cutover s shaOpt => ∀ d, site.services.load s = some d → ∀ sha,
      Deploy.cutoverSha shaOpt ((h.preview s).map (·.sha)) (h.localImages s).head? = some sha →
        h.Vetted d sha
  | _ => True

end

section Guarded

variable {site : Site} {P : Part → Prop} {h h' : Host} {s sha : String} {d : ServiceDef}
  {aligned vetted : Prop}

theorem withLock_guarded {body : Result Unit} {refusal : String → String}
    (run : ∀ h₁, h.SameBut (· = .lock s) h₁ →
      Safe (steps site) (Guarded s aligned vetted) (fun _ _ => True) body.run h₁) :
    Safe (steps site) (Guarded s aligned vetted) (fun _ _ => True)
      (withLock s refusal body).run h :=
  withLock_safe (fun _ _ _ _ _ hx => guard_of_idle (by simp [hx]) (by simp [hx, Part.act]))
    (fun _ _ _ => trivial) run fun _ _ _ _ _ => trivial

theorem previews_guarded : ∀ x h₁ r h₂, steps site x h₁ r h₂ → x.part = .previews →
    h.SameBut (· = .previews) h₁ → Guarded s aligned vetted x h₁ r h₂ :=
  fun _ _ _ _ _ hx _ => guard_of_idle (by simp [hx]) (by simp [hx, Part.act])

theorem migrates_guarded : ∀ x h₁ r h₂, steps site x h₁ r h₂ →
    (x.part = .nothing ∨ x.part = .tables) → h.SameBut (fun p => p = .nothing ∨ p = .tables) h₁ →
    Guarded s aligned vetted x h₁ r h₂ := by
  intro x _ _ _ _ hx _
  rcases hx with hx | hx <;> exact guard_of_quiet (by simp [hx])

theorem reloadProxies_any (hs : ∃ d ∈ site.services.defs, d.service = s) :
    Safe (steps site) (Guarded s aligned vetted) (fun _ _ => True) reloadProxies.run h :=
  (reloadProxies_guarded hs).post fun _ _ _ => trivial

theorem dropPreview_guarded (hs : ∃ d ∈ site.services.defs, d.service = s) :
    Safe (steps site) (Guarded s aligned vetted) (fun _ _ => True) (Cli.dropPreview s).run h := by
  refine deletePreview_spec.bindE previews_guarded ?_ fun _ _ _ _ => trivial
  intro deleted h₁ _ _
  split
  · exact reloadProxies_any hs
  · trivial

theorem connect_guarded {f : Unit → Result Unit}
    (next : Safe (steps site) (Guarded s aligned vetted) (fun _ _ => True) (f ()).run h) :
    Safe (steps site) (Guarded s aligned vetted) (fun _ _ => True) (Db.connect >>= f).run h := by
  refine (Spec.frame (P := reads) connect_only).bindE reads_guarded ?_ fun _ _ _ _ => trivial
  intro _ h₁ same _
  cases same.eq_of_reads
  exact next

theorem init_guarded {f : Unit → Result Unit}
    (next : ∀ h', h.SameBut (fun p => p = .nothing ∨ p = .tables) h' →
      Safe (steps site) (Guarded s aligned vetted) (fun _ _ => True) (f ()).run h') :
    Safe (steps site) (Guarded s aligned vetted) (fun _ _ => True) (Db.init >>= f).run h :=
  (Spec.frame (P := fun p => p = .nothing ∨ p = .tables) init_only).bindE migrates_guarded
    (fun _ h₁ same _ => next h₁ same) fun _ _ _ _ => trivial

theorem deploy_guarded (al : aligned → h.Aligned s) :
    Safe (steps site) (Guarded s aligned vetted) (fun _ _ => True) (Cli.deploy s sha).run h :=
  withLock_guarded fun _ same =>
    (run_guarded fun hA => same.aligned (by simp) (by simp) (al hA)).post fun _ _ _ => trivial

theorem deployPreview_guarded {port : Option String} (al : aligned → h.Aligned s) :
    Safe (steps site) (Guarded s aligned vetted) (fun _ _ => True)
      (Cli.deployPreview s sha port).run h := by
  apply withLock_guarded
  intro h₁ same
  have al := fun hA => same.aligned (by simp) (by simp) (al hA)
  refine loadService_spec.bindE reads_guarded ?_ fun _ _ _ _ => trivial
  intro d h₂ same loaded
  cases same.eq_of_reads
  have service := Services.load_service loaded
  have hs : ∃ d ∈ site.services.defs, d.service = s := ⟨d, Services.load_mem loaded, service⟩
  refine ofExcept_safe ?_ fun _ => trivial
  intro p _
  refine Safe.bindE (runStartInactive_guarded al) ?_ fun _ _ _ => trivial
  intro b h₂ _
  apply connect_guarded
  apply init_guarded
  intro h₃ _
  refine upsertPreview_spec.bindE previews_guarded ?_ fun _ _ _ _ => trivial
  exact fun _ _ _ _ => reloadProxies_any hs

theorem cutover_op_guarded {shaOpt : Option String} (al : aligned → h.Aligned s)
    (vet : vetted → (Operation.cutover s shaOpt).Vetted site h) :
    Safe (steps site) (Guarded s aligned vetted) (fun _ _ => True)
      (Cli.cutover s shaOpt).run h := by
  apply withLock_guarded
  intro h₁ same
  apply connect_guarded
  apply init_guarded
  intro h₂ migrated
  have same : h.SameBut (fun p => p = .lock s ∨ p = .nothing ∨ p = .tables) h₂ :=
    (same.mono fun _ => .inl).trans (migrated.mono fun _ => .inr)
  refine findPreview_spec.bindE reads_guarded ?_ fun _ _ _ _ => trivial
  intro preview h₃ read found
  cases read.eq_of_reads
  have found : preview = h.preview s := Eq.trans found (same.preview (by simp))
  subst found
  refine Safe.bindE (runCutover_guarded (fun hA => same.aligned (by simp) (by simp) (al hA)) ?_) ?_
    fun _ _ _ => trivial
  · intro hv d loaded sha resolved
    rw [same.localImages (by simp)] at resolved
    exact same.vetted (by simp) (by simp) (vet hv d loaded sha resolved)
  · intro _ h₃ done
    obtain ⟨d, loaded, _⟩ := done
    exact dropPreview_guarded ⟨d, Services.load_mem loaded, Services.load_service loaded⟩

theorem cancelPreview_guarded (al : aligned → h.Aligned s) :
    Safe (steps site) (Guarded s aligned vetted) (fun _ _ => True) (Cli.cancelPreview s).run h := by
  apply withLock_guarded
  intro h₁ same
  refine Safe.bindE
    (runCancelInactive_guarded fun hA => same.aligned (by simp) (by simp) (al hA)) ?_
    fun _ _ _ => trivial
  intro _ h₂ done
  obtain ⟨d, loaded, _⟩ := done
  apply connect_guarded
  apply init_guarded
  intro h₃ _
  exact dropPreview_guarded ⟨d, Services.load_mem loaded, Services.load_service loaded⟩

theorem runRollback_guarded (al : aligned → h.Aligned s) :
    Safe (steps site) (Guarded s aligned vetted) (fun _ _ => True) (Ui.runRollback s).run h := by
  apply withLock_guarded
  intro h₁ same
  have al := fun hA => same.aligned (by simp) (by simp) (al hA)
  refine (attempt_spec loadService_spec).bindE reads_guarded ?_ fun _ _ _ _ => trivial
  intro loaded h₂ same done
  cases same.eq_of_reads
  cases loaded with
  | error e => trivial
  | ok d =>
    have loaded : site.services.load s = some d := done
    have service := Services.load_service loaded
    subst service
    refine readActive_spec.bindE reads_guarded ?_ fun _ _ _ _ => trivial
    intro a h₂ same active
    cases same.eq_of_reads
    exact (doRollback_guarded (Services.load_mem loaded) (Host.Aligned.based al active.symm)).post
      fun _ _ _ => trivial

/-- Every step of an operation that holds the deploy lock is one of the blue/green pair. -/
theorem Operation.guarded {op : Operation} (hop : op.Locks s) (al : aligned → h.Aligned s)
    (vet : vetted → op.Vetted site h) :
    Safe (steps site) (Guarded s aligned vetted) (fun _ _ => True) op.perform h := by
  cases op with
  | deploy => cases hop; exact deploy_guarded al
  | deployPreview => cases hop; exact deployPreview_guarded al
  | cutover => cases hop; exact cutover_op_guarded al vet
  | cancelPreview => cases hop; exact cancelPreview_guarded al
  | dashboardRollback => cases hop; exact runRollback_guarded al
  | _ => exact hop.elim

end Guarded

end Codery
