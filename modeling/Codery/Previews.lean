import Codery.Scenario

/-! The preview row of a service and the color it names, over runs of successful operations. -/

namespace Codery

open Effect Prog

variable {site : Site} {P : Part → Prop} {h h' h₀ : Host} {α : Type} {s sha : String}
  {flag : Option String} {op : Operation} {log : List (Operation × Except String Unit)}

/-- `row` is a row of `previews` for the service. -/
def Host.Staged (h : Host) (s : String) (row : PreviewRecord) : Prop :=
  row ∈ h.db.previewRows ∧ row.service = s

def Host.Unstaged (h : Host) (s : String) : Prop := ∀ row, ¬ h.Staged s row

theorem Host.SameBut.staged {row : PreviewRecord} (same : h.SameBut P h') (no : ¬ P .previews) :
    h'.Staged s row ↔ h.Staged s row := by
  unfold Host.Staged
  rw [same.previews no]

theorem Host.SameBut.unstaged (same : h.SameBut P h') (no : ¬ P .previews)
    (none : h.Unstaged s) : h'.Unstaged s := fun row staged => none row ((same.staged no).mp staged)

/-! ### One operation -/

theorem withLock_ends {T : α → Host → Prop} {body : Result α} {refusal : String → String}
    (run : ∀ h₁, h.SameBut (· = .lock s) h₁ → Ends site (OnOk T) body.run h₁)
    (keep : ∀ a h₁ h₂, h₁.SameBut (· = .lock s) h₂ → T a h₁ → T a h₂) :
    Ends site (OnOk T) (withLock s refusal body).run h := by
  refine withLock_safe (fun _ _ _ _ _ _ => trivial) (fun _ _ _ => trivial) run ?_
  intro r h₁ h₂ done same
  cases r with
  | ok a => exact keep a h₁ h₂ same done
  | error e => trivial

/-- Once `delete_preview` has succeeded there is no row, and reloading the proxies adds none. -/
theorem dropPreview_ends :
    Ends site (OnOk fun _ h' => h'.Unstaged s) (Cli.dropPreview s).run h := by
  apply ok_ends deletePreview_spec.ends
  intro deleted h₁ rows
  have none : h₁.Unstaged s := by
    rintro row ⟨mem, service⟩
    simp [rows, service] at mem
  split
  · exact frame_ends (P := reloads) reloadProxies_only fun h₂ same => same.unstaged (by simp) none
  · exact none

theorem cutover_ends :
    Ends site (OnOk fun _ h' => h'.Unstaged s) (Cli.cutover s flag).run h := by
  refine withLock_ends (fun h₁ _ => ?_) fun _ _ _ same => same.unstaged (by simp)
  apply after_ends
  intro _ h₂
  apply after_ends
  intro _ h₃
  apply after_ends
  intro preview h₄
  apply after_ends
  exact fun _ _ => dropPreview_ends

theorem cancelPreview_ends :
    Ends site (OnOk fun _ h' => h'.Unstaged s) (Cli.cancelPreview s).run h := by
  refine withLock_ends (fun h₁ _ => ?_) fun _ _ _ same => same.unstaged (by simp)
  apply after_ends
  intro _ h₂
  apply after_ends
  intro _ h₃
  apply after_ends
  exact fun _ _ => dropPreview_ends

/-- The only row of the service, if there is one, is the one `deploy-preview` makes for the
inactive color. -/
def PreviewOf (site : Site) (s sha : String) (flag : Option String) (h : Host) : Prop :=
  ∃ d a port, site.services.load s = some d ∧ h.active s = some a ∧
    Cli.previewPort d flag = .ok port ∧
    ∀ row, h.Staged s row → row = Cli.previewRecord d s sha port (flip a)

theorem PreviewOf.keep (of : PreviewOf site s sha flag h) (same : h.SameBut P h')
    (color : ¬ P (.color s)) (previews : ¬ P .previews) : PreviewOf site s sha flag h' := by
  obtain ⟨d, a, port, loaded, active, resolved, rows⟩ := of
  refine ⟨d, a, port, loaded, (same.active color).trans active, resolved, fun row staged => ?_⟩
  exact rows row ((same.staged previews).mp staged)

theorem deployPreview_ends :
    Ends site (OnOk fun _ h' => PreviewOf site s sha flag h') (Cli.deployPreview s sha flag).run h := by
  refine withLock_ends (fun h₁ _ => ?_) fun _ _ _ same of => of.keep same (by simp) (by simp)
  apply ok_ends loadService_spec.ends
  intro d h₂ loaded
  refine ofExcept_safe ?_ fun _ => trivial
  intro port resolved
  have started : Ends site (OnOk fun b h' => ∃ d, site.services.load s = some d ∧
      Started d sha h₂ b h') (Deploy.runStartInactive s sha).run h₂ :=
    Safe.mono (show Safe (steps site) (Guarded s False False) _ _ h₂ from
      runStartInactive_guarded False.elim) (fun _ _ _ _ _ _ => trivial) fun _ _ done => done
  apply ok_ends started
  rintro b h₃ ⟨d', loaded', started⟩
  have loaded : site.services.load s = some d := loaded
  cases loaded.symm.trans loaded'
  have service := Services.load_service loaded
  have active : h₃.active s = some (flip b) := by
    rw [← service, started.same.active (by simp)]
    exact started.active
  apply ok_ends (frame_ends (P := reads) connect_only fun h₄ same => same.eq_of_reads)
  intro _ h₄ same
  subst same
  apply ok_ends (frame_ends (P := fun p => p = .nothing ∨ p = .tables) init_only
    fun h₅ same => (same.active (by simp)).trans active)
  intro _ h₅ active
  apply ok_ends ((upsertPreview_spec.post fun r h₆ same rows =>
    rows.mono fun _ rows => And.intro ((same.active (by simp)).trans active) rows).ends)
  rintro _ h₆ ⟨active, rows⟩
  refine frame_ends (P := reloads) reloadProxies_only fun h₇ same => ?_
  refine PreviewOf.keep ⟨d, flip b, port, loaded, active, resolved, ?_⟩ same (by simp) (by simp)
  rintro row ⟨mem, service⟩
  rw [rows, List.mem_append] at mem
  rw [flip_flip]
  cases mem with
  | inl old => simp [Cli.previewRecord, service] at old
  | inr new => exact List.mem_singleton.mp new

/-! ### Runs -/

/-- The operations on `s` that stage, promote, replace or cancel. -/
def Operation.On (s : String) (op : Operation) : Prop := op.Locks s ∨ op = .mcpRollback s

/-- A deploy or a rollback: it may flip the color, and leaves the previews alone. -/
def Operation.Flips : Operation → Bool
  | .deploy _ _ => true
  | .dashboardRollback _ => true
  | .mcpRollback _ => true
  | _ => false

theorem Operation.spares (on : op.On s) (flips : op.Flips = true) :
    op.perform.Only SparesPreviews := by
  cases op with
  | deploy => exact deploy_spares
  | dashboardRollback => exact runRollback_spares
  | mcpRollback => exact mcpRollback_applies.spares
  | _ => cases flips

/-- The SHA and the port flag of the latest `deploy-preview`. -/
def lastPreview : List (Operation × Except String Unit) → Option (String × Option String)
  | [] => none
  | (.deployPreview _ sha flag, _) :: _ => some (sha, flag)
  | _ :: log => lastPreview log

/-- A row of `s` names the inactive color, and the host port that the port asked for has there. -/
def PreviewInactive (site : Site) (s : String) (log : List (Operation × Except String Unit))
    (h : Host) : Prop :=
  ∀ row, h.Staged s row → ∃ d a sha flag port, site.services.load s = some d ∧
    h.active s = some a ∧ lastPreview log = some (sha, flag) ∧
    Cli.previewPort d flag = .ok port ∧ row.color = (flip a).asStr ∧
    row.hostPort = d.portScheme.hostPort (flip a) port

theorem Host.Unstaged.inactive (none : h.Unstaged s) : PreviewInactive site s log h :=
  fun row staged => absurd staged (none row)

theorem PreviewOf.inactive (of : PreviewOf site s sha flag h)
    (last : lastPreview log = some (sha, flag)) : PreviewInactive site s log h := by
  obtain ⟨d, a, port, loaded, active, resolved, rows⟩ := of
  intro row staged
  rw [rows row staged]
  exact ⟨d, a, sha, flag, port, loaded, active, last, resolved, rfl, rfl⟩

/-! ### Operations that cannot flip the color -/

/-- Next to the container that runs, no other can be started: the rollback of the dashboard finds
it running, and a deploy does not get past the check. -/
def Operation.Barred (site : Site) (s : String) (h : Host) : Operation → Prop
  | .dashboardRollback _ => ∀ a, h.active s = some a → h.Up s (flip a)
  | _ => ∀ d a, site.services.load s = some d → h.active s = some a →
      d.ports.flatMap Validate.udpErrors = [] → ¬ h.PortsFree site d (flip a)

theorem redeploy_barred {d : ServiceDef} {a : Color}
    (barred : d.ports.flatMap Validate.udpErrors = [] → ¬ h.PortsFree site d (flip a)) :
    Ends site (OnOk fun _ _ => False) (Deploy.redeploy d sha a).run h := by
  have checked : Ends site (OnOk fun _ _ => False) (Deploy.startInactive d sha (flip a)).run h :=
    checkDeploy_spec.ok_ends fun _ _ _ ⟨udp, free⟩ => absurd free (barred udp)
  exact ok_ends checked fun _ _ => False.elim

theorem run_barred (barred : (Operation.deploy s sha).Barred site s h) :
    Ends site (OnOk fun _ h' => h' = h) (Deploy.run s sha).run h := by
  refine loadDef_spec.read_ends fun d loaded => ?_
  have service := Services.load_service loaded
  subst service
  refine (Spec.frame (P := reads) preflight_only).read_ends fun _ _ => ?_
  refine (Spec.frame (P := reads) ensureNetwork_only).read_ends fun _ _ => ?_
  refine readActive_spec.read_ends fun a active => ?_
  refine readActiveSha_spec.read_ends fun recorded _ => ?_
  have never : Ends site (OnOk fun _ h' => h' = h) (Deploy.redeploy d sha a).run h :=
    (redeploy_barred (barred d a loaded active.symm)).post fun r _ none => none.mono fun _ => False.elim
  split
  · refine containerRunning_spec.read_ends fun up _ => ?_
    split
    · rfl
    · exact never
  · exact never

theorem doRollback_barred {d : ServiceDef} {a : Color} (up : h.Up s (flip a)) :
    Ends site (OnOk fun _ _ => False) (Ui.doRollback d s (flip a)).run h := by
  apply call_ends
  intro r h₁ step
  cases r with
  | error e => trivial
  | ok info =>
    obtain ⟨k, found, rfl⟩ := inspect_step_ok step
    obtain ⟨k', found', running⟩ := up
    cases found.symm.trans found'
    simp only [running, if_true]
    trivial

theorem withLock_barred {body : Result Unit} {refusal : String → String}
    (run : ∀ h₁, h.SameBut (· = .lock s) h₁ → Ends site (OnOk fun _ h' => h' = h₁) body.run h₁) :
    Ends site (OnOk fun _ h' => h.SameBut (· = .lock s) h') (withLock s refusal body).run h := by
  refine withLock_ends (fun h₁ same => ?_) fun _ _ _ locked same => same.trans locked
  refine (run h₁ same).post fun r h₂ done => done.mono fun _ kept => ?_
  subst kept
  exact same

/-- What is barred changes nothing but the lock, if it succeeds. -/
theorem Operation.barred_ends (on : op.On s) (flips : op.Flips = true)
    (barred : op.Barred site s h) :
    Ends site (OnOk fun _ h' => h.SameBut (· = .lock s) h') op.perform h := by
  cases op with
  | deploy s' sha =>
    obtain locks | same := on
    · cases locks
      refine withLock_barred fun h₁ same => run_barred fun d a loaded active udp => ?_
      rw [same.portsFree (by simp) (by simp)]
      exact barred d a loaded ((same.active (by simp)).symm.trans active) udp
    · cases same
  | dashboardRollback s' =>
    obtain locks | same := on
    · cases locks
      refine withLock_barred fun h₁ same => ?_
      refine (attempt_spec loadService_spec).read_ends fun loaded _ => ?_
      refine context_ends fun d _ => ?_
      refine readActive_spec.read_ends fun a active => ?_
      have up : h₁.Up s (flip a) :=
        (same.up (by simp)).mpr (barred a ((same.active (by simp)).symm.trans active.symm))
      exact (doRollback_barred up).post fun r _ none => none.mono fun _ => False.elim
    · cases same
  | mcpRollback s' =>
    obtain locks | same := on
    · exact locks.elim
    · cases same
      refine (attempt_spec loadService_spec).read_ends fun loaded _ => ?_
      refine context_ends fun d _ => ?_
      refine readActiveSha_spec.read_ends fun recorded _ => ?_
      refine listLocal_spec.read_ends fun images _ => ?_
      split
      · trivial
      · refine (run_barred barred).post fun r h' done => done.mono fun _ kept => ?_
        subst kept
        exact .refl _
  | _ => cases flips

theorem PreviewInactive.skip (before : PreviewInactive site s log h) (flips : op.Flips = true)
    (same : h.SameBut (· = .lock s) h') {r : Except String Unit} :
    PreviewInactive site s ((op, r) :: log) h' := by
  have skipped : lastPreview ((op, r) :: log) = lastPreview log := by
    cases op with
    | deployPreview => cases flips
    | _ => rfl
  intro row staged
  obtain ⟨d, a, sha, flag, port, loaded, active, last, rest⟩ :=
    before row ((same.staged (by simp)).mp staged)
  exact ⟨d, a, sha, flag, port, loaded, (same.active (by simp)).trans active, skipped.trans last,
    rest⟩

/-- Whatever ran before, staging, promoting and cancelling leave no row that names the active
color, and the others flip it with no row, or not at all. -/
theorem Operation.inactive (on : op.On s)
    (start : op.Flips = true → h.Unstaged s ∨ op.Barred site s h)
    (before : op.Flips = true → PreviewInactive site s log h)
    (run : Finishes (steps site) op.perform h (.ok ()) h') :
    PreviewInactive site s ((op, .ok ()) :: log) h' := by
  cases flips : op.Flips with
  | true =>
    cases start flips with
    | inl none =>
      have same : h.SameBut (· ≠ .previews) h' := (only_sameBut (op.spares on flips) h).finishes run
      exact (same.unstaged (by simp) none).inactive
    | inr barred =>
      have same : h.SameBut (· = .lock s) h' := (Operation.barred_ends on flips barred).finishes run
      exact (before flips).skip flips same
  | false =>
    cases on with
    | inl locks =>
      cases op with
      | deployPreview s' sha flag =>
        cases locks
        have of : PreviewOf site s sha flag h' := deployPreview_ends.finishes run
        exact of.inactive rfl
      | cutover s' sha =>
        cases locks
        have none : h'.Unstaged s := cutover_ends.finishes run
        exact none.inactive
      | cancelPreview s' =>
        cases locks
        have none : h'.Unstaged s := cancelPreview_ends.finishes run
        exact none.inactive
      | deploy | dashboardRollback => cases flips
      | _ => exact locks.elim
    | inr same =>
      subst same
      cases flips

/-- An operation that may flip the color starts with no row, or cannot flip it. -/
def Operation.LeavesPreviews (site : Site) (s : String) (op : Operation) (h : Host) : Prop :=
  op.On s ∧ (op.Flips = true → h.Unstaged s ∨ op.Barred site s h)

theorem previews_inactive
    (run : Serial (steps site) Operation.perform (Operation.LeavesPreviews site s) h₀ log h)
    (started : h₀.Unstaged s ∨ ∃ e ∈ log, e.1.Flips = false) (ok : ∀ e ∈ log, e.2 = .ok ()) :
    PreviewInactive site s log h := by
  induction run with
  | nil => exact (started.resolve_right (by simp)).inactive
  | @cons log w op r w' before start finish ih =>
    have done := ok _ List.mem_cons_self
    subst done
    refine Operation.inactive start.1 start.2 (fun flips => ?_) finish
    refine ih (started.imp_right ?_) fun e he => ok e (List.mem_cons_of_mem _ he)
    rintro ⟨e, mem, still⟩
    obtain rfl | mem := List.mem_cons.mp mem
    · cases flips.symm.trans still
    · exact ⟨e, mem, still⟩

theorem all_ok (shown : log.all (·.2.isOk) = true) : ∀ e ∈ log, e.2 = .ok () := by
  rintro ⟨op, r⟩ he
  have ok : r.isOk = true := List.all_eq_true.mp shown _ he
  cases r with
  | ok => rfl
  | error e => cases ok

theorem log_of_ok {ops : List Operation} (same : log.map (·.1) = ops)
    (shown : log.all (·.2.isOk) = true) : log = ops.map fun op => (op, .ok ()) := by
  rw [← same, List.map_map]
  conv_lhs => rw [← List.map_id log]
  refine List.map_congr_left fun e he => ?_
  exact Prod.ext rfl (all_ok shown e he)

/-- A script whose operations succeed. -/
theorem script_run {site : Site} {w : Host} {script : List (Operation × List Choice)} {β : Type}
    (see : Host → β) {b : β}
    (played : (playSerial (Call.answer site) anyChoice Operation.perform script ([], w)).map
      (fun x => (x.1.all (·.2.isOk), see x.2)) = some (true, b)) :
    ∃ h, Serial (steps site) Operation.perform (fun _ _ => True) w
      ((script.map (·.1)).reverse.map fun op => (op, .ok ())) h ∧ see h = b := by
  obtain ⟨x, ran, shown⟩ := Option.map_eq_some_iff.mp played
  obtain ⟨ok, seen⟩ := Prod.mk.inj shown
  have log := log_of_ok (playSerial_ops ran) ok
  rw [List.map_nil, List.append_nil] at log
  have run : Serial (steps site) Operation.perform (fun _ _ => True) w x.1 x.2 :=
    playSerial_serial (fun _ _ _ => trivial) .nil ran
  exact ⟨x.2, log ▸ run, seen⟩

/-- `v2` is staged, and then `v1`, which is served, is deployed once more, next to the row. -/
theorem previews_inactive_staged :
    ∃ log h row, (∃ e ∈ log, e.1.Flips = true) ∧ h.Staged "paseo" row ∧
      PreviewInactive Scenario.site "paseo" log h := by
  have staged : (playSerial (Call.answer Scenario.site) anyChoice Operation.perform
      [Scenario.preview] ([], Scenario.serving)).map
        (fun x => (x.2.active "paseo", decide (x.2.PortsFree Scenario.site Scenario.paseo .green))) =
      some (some .blue, false) := by decide
  have played : (playSerial (Call.answer Scenario.site) anyChoice Operation.perform
      [Scenario.preview, (.deploy "paseo" "v1", Scenario.oks 8)] ([], Scenario.serving)).map
        (fun x => (x.1.map (·.1.Flips), x.1.all (·.2.isOk), x.2.db.previewRows.map (·.service))) =
      some ([true, false], true, ["paseo"]) := by decide
  obtain ⟨⟨log, h⟩, ran, shown⟩ := Option.map_eq_some_iff.mp played
  obtain ⟨r, w, first, rest⟩ := playSerial_first ran
  obtain ⟨r', w', second, rest⟩ := playSerial_first rest
  cases rest
  simp only [playSerial, Scenario.preview, first, Option.map_some, Option.some.injEq,
    Prod.mk.injEq, decide_eq_false_iff_not] at staged
  simp only [Prod.mk.injEq] at shown
  obtain ⟨_, ok, rows⟩ := shown
  have stages : Operation.LeavesPreviews Scenario.site "paseo" (.deployPreview "paseo" "v2" none)
      Scenario.serving := ⟨.inl rfl, fun flips => by cases flips⟩
  have barred : Operation.LeavesPreviews Scenario.site "paseo" (.deploy "paseo" "v1") w := by
    refine ⟨.inl rfl, fun _ => .inr ?_⟩
    intro d a loaded active _
    cases loaded
    cases staged.1.symm.trans active
    exact staged.2
  have run := (Serial.nil.cons stages (play_reaches _ _ first)).cons barred (play_reaches _ _ second)
  obtain ⟨row, mem, service⟩ := List.mem_map.mp (rows ▸ List.mem_singleton_self "paseo")
  exact ⟨_, h, row, ⟨_, List.mem_cons_self, rfl⟩, ⟨mem, service⟩,
    previews_inactive run (.inr ⟨_, List.mem_cons_of_mem _ List.mem_cons_self, rfl⟩) (all_ok ok)⟩

/-- The relayed service publishes no port that the check would find taken: a preview of green, and
then a deploy, which replaces green and flips to it.  The row names the live color. -/
theorem previews_active :
    ¬ ∀ log h, Serial (steps Scenario.relayedSite) Operation.perform (fun op _ => op.On "paseo")
        Scenario.serving log h →
      (∀ e ∈ log, e.2 = .ok ()) → PreviewInactive Scenario.relayedSite "paseo" log h := by
  intro all
  have played : (playSerial (Call.answer Scenario.relayedSite) anyChoice Operation.perform
      [(.deployPreview "paseo" "v2" (some "3000"),
          Scenario.oks 14 ++ [.health .healthy] ++ Scenario.oks 26),
        (.deploy "paseo" "v2", Scenario.oks 14 ++ [.health .healthy] ++ Scenario.oks 16)]
      ([], Scenario.serving)).map
        (fun x => (x.1.all (·.2.isOk), x.2.active "paseo",
          x.2.db.previewRows.map fun r => (r.service, r.color))) =
      some (true, some .green, [("paseo", "green")]) := by decide
  obtain ⟨log, h, run, shown⟩ := playSerial_run (fun op _ => op.On "paseo") (by
      intro x hx w
      simp only [List.mem_cons, List.not_mem_nil, or_false] at hx
      rcases hx with rfl | rfl <;> exact .inl rfl) played
  simp only [Prod.mk.injEq] at shown
  obtain ⟨ok, green, rows⟩ := shown
  obtain ⟨row, mem, same⟩ := List.mem_map.mp (rows ▸ List.mem_singleton_self ("paseo", "green"))
  simp only [Prod.mk.injEq] at same
  obtain ⟨_, a, _, _, _, _, active, _, _, color, _⟩ := all log h run (all_ok ok) row ⟨mem, same.1⟩
  rw [green] at active
  cases active
  rw [same.2] at color
  exact absurd color (by decide)

end Codery
