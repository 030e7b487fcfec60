import Codery.Stages

/-! What one operation undoes of another, and what holds of a service after any run. -/

namespace Codery

open Effect Prog

variable {site : Site} {P : Part → Prop} {h h' h₀ : Host} {s sha : String} {d : ServiceDef}
  {x x' x₀ : Stage} {k : Container} {op : Operation} {images : List LocalImage} {α : Type}
  {log mid : List (Operation × Except String Unit)} {flag : Option String}

namespace Stage

/-! ### Containers beside the live one -/

/-- A container that runs beside the live one is on record as a preview. -/
def Accounted (x : Stage) (d : ServiceDef) : Prop :=
  ∀ k, x.spare = some k → k.running = true →
    ∃ row ∈ x.rows, row.color = (flip x.active).asStr ∧ k.image = d.imageRef row.sha

theorem accounted_of_down (down : ∀ k, x.spare = some k → k.running = false) : x.Accounted d := by
  intro k spare up
  rw [down k spare] at up
  cases up

theorem stopped_down {old : Option Container} :
    ∀ k, old.map Container.stopped = some k → k.running = false := by
  intro k spare
  obtain ⟨_, -, rfl⟩ := Option.map_eq_some_iff.mp spare
  rfl

theorem Cuts.accounted {shaOpt : Option String} (cuts : x.Cuts d images shaOpt x')
    (accounted : x.Accounted d) : x'.Accounted d := by
  cases cuts with
  | promoted | replaced => exact accounted_of_down stopped_down
  | current => exact accounted

theorem Moves.accounted (moves : x.Moves d images x' op) (accounted : x.Accounted d) :
    x'.Accounted d := by
  cases op with
  | deploy =>
    rcases moves with new | ⟨-, same⟩
    · exact new ▸ accounted_of_down stopped_down
    · exact same ▸ accounted
  | deployPreview =>
    obtain ⟨port, -, rfl⟩ := moves
    intro k spare _
    cases spare
    exact ⟨_, List.mem_singleton_self _, rfl, rfl⟩
  | cutover => exact moves.accounted accounted
  | cancelPreview =>
    cases moves
    exact accounted_of_down nofun
  | recreate | restartService =>
    obtain ⟨sha, -, rfl⟩ := moves
    exact accounted
  | dashboardRollback =>
    obtain ⟨k, -, -, rfl⟩ := moves
    exact accounted_of_down stopped_down
  | mcpRollback =>
    obtain ⟨i, -, -, rfl⟩ := moves
    exact accounted_of_down stopped_down
  | _ => exact moves.elim

theorem Follows.accounted (follows : Follows d x₀ log x) (start : x₀.Accounted d) :
    x.Accounted d := by
  induction follows with
  | nil => exact start
  | own before named moves ih => exact moves.accounted ih
  | other before unnamed ih => exact ih

/-- Turning back after a replacement. -/
theorem back {sha' : String} : ((x.replace d sha).start k).switch sha' =
    { x with
      sha := .text (sha' ++ "\n")
      live := some k
      spare := some (d.healthy sha).stopped } := by
  simp only [switch, turn, start, replace, flip_flip, Option.map_some]

end Stage

/-- A container that runs beside that of the recorded color has a preview row. -/
def Host.Accounted (h : Host) (d : ServiceDef) : Prop :=
  ∀ a k, h.active d.service = some a → h.slot d.service (flip a) = some k → k.running = true →
    ∃ row, h.Staged d.service row ∧ row.color = (flip a).asStr ∧ k.image = d.imageRef row.sha

namespace Host.Shows

theorem mem_rows (shows : h.Shows s x) {row : PreviewRecord} : row ∈ x.rows ↔ h.Staged s row := by
  rw [← shows.rows, Host.rows, List.mem_filter, beq_iff_eq, Host.Staged]

theorem accounted_iff (shows : h.Shows d.service x) : x.Accounted d ↔ h.Accounted d := by
  constructor
  · intro accounted a k active slot up
    cases shows.active.symm.trans active
    obtain ⟨row, mem, fits⟩ := accounted k (shows.spare.symm.trans slot) up
    exact ⟨row, shows.mem_rows.mp mem, fits⟩
  · intro accounted k spare up
    obtain ⟨row, staged, fits⟩ := accounted x.active k shows.active (shows.spare.trans spare) up
    exact ⟨row, shows.mem_rows.mpr staged, fits⟩

end Host.Shows

/-- In a run where every operation on a service succeeds, whatever the others do, the host goes from
stage to stage as the operations say, and no container is left running beside the live one without
a preview row of its color and SHA. -/
theorem stages_accounted (loaded : site.services.load d.service = some d)
    (shows : h₀.Shows d.service x₀) (start : h₀.Accounted d)
    (run : Serial (steps site) Operation.perform (fun _ _ => True) h₀ log h)
    (ok : ∀ e ∈ log, e.1.service = some d.service → e.2 = .ok ()) :
    (∃ x, h.Shows d.service x ∧ Stage.Follows d x₀ log x) ∧ h.Accounted d := by
  obtain ⟨x, shows', follows⟩ := serial_follows loaded shows run ok
  refine ⟨⟨x, shows', follows⟩, shows'.accounted_iff.mp ?_⟩
  exact follows.accounted (shows.accounted_iff.mpr start)

/-- What `Scenario.serving` shows. -/
def Scenario.stage : Stage where
  active := .blue
  sha := .text "v1\n"
  live := some (Scenario.paseo.healthy "v1")
  spare := none
  rows := []

theorem serving_shows : Scenario.serving.Shows "paseo" Scenario.stage := ⟨rfl, rfl, rfl, rfl, rfl⟩

theorem stages_accounted_preview :
    ∃ log, ∃ h : Host, h.Up "paseo" .blue ∧ h.Up "paseo" .green ∧
      (∃ x, h.Shows "paseo" x ∧ Stage.Follows Scenario.paseo Scenario.stage log x) ∧
        h.Accounted Scenario.paseo := by
  have played : (playSerial (Call.answer Scenario.site) anyChoice Operation.perform
      [Scenario.preview] ([], Scenario.serving)).map (fun x =>
        (x.1.all (·.2.isOk), decide (x.2.Up "paseo" .blue), decide (x.2.Up "paseo" .green))) =
      some (true, true, true) := by decide
  obtain ⟨h, run, up⟩ := script_run
    (fun h => (decide (h.Up "paseo" .blue), decide (h.Up "paseo" .green))) played
  simp only [Prod.mk.injEq, decide_eq_true_eq] at up
  have start : Scenario.serving.Accounted Scenario.paseo :=
    (serving_shows.accounted_iff (d := Scenario.paseo)).mp (Stage.accounted_of_down nofun)
  refine ⟨_, h, up.1, up.2, stages_accounted (d := Scenario.paseo) rfl serving_shows start run ?_⟩
  rintro e he -
  cases List.mem_singleton.mp he
  rfl

/-! ### One operation after the other -/

/-- Two operations on a service that succeed, with none on it between them. -/
theorem serial_pair {first last : Operation} (loaded : site.services.load d.service = some d)
    (shows : h₀.Shows d.service x₀) (named : first.service = some d.service)
    (named' : last.service = some d.service) (others : ∀ e ∈ mid, e.1.service ≠ some d.service)
    (run : Serial (steps site) Operation.perform (fun _ _ => True) h₀
      ((last, .ok ()) :: (mid ++ [(first, .ok ())])) h) :
    ∃ x x' images images', x₀.Moves d images x first ∧ x.Moves d images' x' last ∧
      h.Shows d.service x' ∧ (x'.active ≠ x.active → h.Settles d.service x') := by
  have ok : ∀ e ∈ mid ++ [(first, .ok ())], e.1.service = some d.service → e.2 = .ok () := by
    intro e mem own
    rcases List.mem_append.mp mem with between | start
    · exact absurd own (others e between)
    · rw [List.mem_singleton.mp start]
  cases run with
  | cons before _ finish =>
    obtain ⟨x, shows, follows⟩ := serial_follows loaded shows before ok
    obtain ⟨y, images, nothing, moves⟩ := (follows.skip others).last named
    cases nothing.start
    obtain ⟨x', shows', moves', turned⟩ := (last.moves loaded shows named').finishes finish
    exact ⟨x, x', images, _, moves, moves', shows', turned⟩

/-- A deploy that has replaced a container, then anything that does not name the service, and then
the dashboard's rollback: the old container is live again and routed to, and that of the deploy is
stopped beside it. -/
theorem rollback_undoes (loaded : site.services.load d.service = some d)
    (shows : h₀.Shows d.service x₀) (due : ¬ x₀.Serves sha)
    (mid : List (Operation × Except String Unit))
    (others : ∀ e ∈ mid, e.1.service ≠ some d.service)
    (run : Serial (steps site) Operation.perform (fun _ _ => True) h₀
      ((.dashboardRollback d.service, .ok ()) :: (mid ++ [(.deploy d.service sha, .ok ())])) h) :
    ∃ k, x₀.live = some k ∧ h.Settles d.service
      { x₀ with
        sha := .text (Ui.prevSha d.service k.image ++ "\n")
        live := some k.restarted
        spare := some (d.healthy sha).stopped } := by
  obtain ⟨x, x', images, _, deployed, rolledBack, shows', turned⟩ :=
    serial_pair loaded shows rfl rfl others run
  obtain ⟨k, spare, -, rfl⟩ := rolledBack
  rcases deployed with rfl | ⟨serves, -⟩
  · obtain ⟨old, live, rfl⟩ := Option.map_eq_some_iff.mp spare
    refine ⟨old, live, ?_⟩
    have settles := turned (Ne.symm (ne_flip _))
    rwa [Stage.back] at settles
  · exact absurd serves due

theorem rollback_undoes_paseo :
    ∃ h : Host, h.Up "paseo" .blue ∧ ∃ k, Scenario.stage.live = some k ∧ h.Settles "paseo"
      { Scenario.stage with
        sha := .text (Ui.prevSha "paseo" k.image ++ "\n")
        live := some k.restarted
        spare := some (Scenario.paseo.healthy "v2").stopped } := by
  have played : (playSerial (Call.answer Scenario.site) anyChoice Operation.perform
      [(.deploy "paseo" "v2", Scenario.oks 32), (.mcpReloadRoutes, Scenario.oks 19),
        (.dashboardRollback "paseo", Scenario.oks 20)] ([], Scenario.serving)).map (fun x =>
        (x.1.all (·.2.isOk), decide (x.2.Up "paseo" .blue))) = some (true, true) := by decide
  obtain ⟨h, run, up⟩ := script_run (fun h => decide (h.Up "paseo" .blue)) played
  refine ⟨h, of_decide_eq_true up, ?_⟩
  exact rollback_undoes (d := Scenario.paseo) rfl serving_shows (by decide)
    [(.mcpReloadRoutes, .ok ())] (by simp [Operation.service]) run

/-- A preview and its cutover leave the service as a deploy of the same SHA would, and no preview
row. -/
theorem staged_deploys (loaded : site.services.load d.service = some d)
    (shows : h₀.Shows d.service x₀) (due : ¬ x₀.Serves sha)
    (mid : List (Operation × Except String Unit))
    (others : ∀ e ∈ mid, e.1.service ≠ some d.service)
    (staged : Serial (steps site) Operation.perform (fun _ _ => True) h₀
      ((.cutover d.service none, .ok ()) ::
        (mid ++ [(.deployPreview d.service sha flag, .ok ())])) h)
    (direct : Finishes (steps site) (Operation.deploy d.service sha).perform h₀ (.ok ()) h') :
    ∃ y, h'.Settles d.service y ∧ h.Settles d.service y.unstage := by
  obtain ⟨x, x', images, _, previewed, cuts, shows', turned⟩ :=
    serial_pair loaded shows rfl rfl others staged
  obtain ⟨port, -, rfl⟩ := previewed
  have started : x' = (x₀.replace d sha).unstage := by
    cases cuts with
    | @promoted row sha' picks resolved runs =>
      cases row with
      | none => cases picks
      | some row =>
        cases List.mem_singleton.mp picks
        cases resolved
        rfl
    | @replaced row sha' picks fresh resolved =>
      cases fresh rfl
      cases picks
    | current noSha none => cases none
  subst started
  obtain ⟨y, deployed, moves, turned'⟩ := (Operation.moves loaded shows rfl).finishes direct
  rcases moves with rfl | ⟨serves, -⟩
  · exact ⟨_, turned' (Ne.symm (ne_flip _)), turned (Ne.symm (ne_flip _))⟩
  · exact absurd serves due

theorem staged_deploys_paseo :
    ∃ h h' : Host, ∃ y, h'.Settles "paseo" y ∧ h.Settles "paseo" y.unstage := by
  have played : (playSerial (Call.answer Scenario.site) anyChoice Operation.perform
      [Scenario.preview, (.cutover "paseo" none, Scenario.oks 48)] ([], Scenario.serving)).map
        (fun x => (x.1.all (·.2.isOk), x.2.active "paseo")) = some (true, some .green) := by decide
  obtain ⟨h, run, -⟩ := script_run (fun h => h.active "paseo") played
  have deployed : playShow (Call.answer Scenario.site) anyChoice (fun h => h.active "paseo")
      (Scenario.oks 32) (Operation.deploy "paseo" "v2").perform Scenario.serving =
      some (some (.ok ()), some .green) := by decide
  obtain ⟨h', direct, -⟩ := playShow_finishes _ _ deployed
  exact ⟨h, h', staged_deploys (d := Scenario.paseo) rfl serving_shows (by decide) [] nofun run direct⟩

/-! ### Previews that may fail -/

/-- What is on record of the service, and the container of that color. -/
structure Host.Heads (h : Host) (s : String) (x : Stage) : Prop where
  active : h.active s = some x.active
  sha : h.state.sha s = x.sha
  live : h.slot s x.active = x.live

theorem Host.Shows.heads (shows : h.Shows s x) : h.Heads s x := ⟨shows.active, shows.sha, shows.live⟩

theorem Host.Heads.keep (heads : h.Heads s x) (same : h.SameBut P h') (color : ¬ P (.color s))
    (sha : ¬ P (.sha s)) (slot : ¬ P (.container (containerName s x.active))) : h'.Heads s x where
  active := (same.active color).trans heads.active
  sha := (same.sha sha).trans heads.sha
  live := (same.slot slot).trans heads.live

abbrev KeepsHead (site : Site) (s : String) (x : Stage) (p : Result α) (h : Host) : Prop :=
  Ends site (fun _ h' => h'.Heads s x) p.run h

theorem keepsHead_bind {β : Type} {p : Result α} {f : α → Result β} (first : KeepsHead site s x p h)
    (next : ∀ a h', h'.Heads s x → KeepsHead site s x (f a) h') : KeepsHead site s x (p >>= f) h :=
  bind_ends first next fun _ _ heads => heads

theorem keepsHead_of_only {p : Result α} (only : p.run.Only fun c : Call => P c.part)
    (heads : h.Heads s x) (color : ¬ P (.color s)) (sha : ¬ P (.sha s))
    (slot : ¬ P (.container (containerName s x.active))) : KeepsHead site s x p h :=
  (Spec.frame only).safe (fun _ _ _ _ _ _ _ => trivial) fun _ _ same _ =>
    heads.keep same color sha slot

/-- Past a program that reads. -/
theorem keepsHead_read {β : Type} {R : Except String α → Host → Prop} {p : Result α}
    {f : α → Result β} (spec : Spec site reads h R p.run) (heads : h.Heads s x)
    (next : ∀ a, R (.ok a) h → KeepsHead site s x (f a) h) : KeepsHead site s x (p >>= f) h := by
  refine spec.bindE (fun _ _ _ _ _ _ _ => trivial) (fun a h' same read => ?_) fun e h' same _ => ?_
  · cases same.eq_of_reads
    exact next a read
  · exact heads.keep same (by simp) (by simp) (by simp)

theorem keepsHead_readActive (heads : h.Heads s x) {f : Color → Result α}
    (next : KeepsHead site s x (f x.active) h) :
    KeepsHead site s x (State.readActive s >>= f) h := by
  refine keepsHead_read readActive_spec heads fun a active => ?_
  rw [heads.active] at active
  cases active
  exact next

theorem keepsHead_loadDef (heads : h.Heads d.service x) {f : ServiceDef → Result α}
    (loaded : site.services.load d.service = some d) (next : KeepsHead site d.service x (f d) h) :
    KeepsHead site d.service x (Deploy.loadDef d.service >>= f) h := by
  refine keepsHead_read loadDef_spec heads fun d' loaded' => ?_
  cases loaded.symm.trans loaded'
  exact next

theorem keepsHead_connectInit (heads : h.Heads s x) {f : Result α}
    (next : ∀ h', h'.Heads s x → KeepsHead site s x f h') :
    KeepsHead site s x (do Db.connect; Db.init; f : Result α) h := by
  refine keepsHead_read (Spec.frame connect_only) heads fun _ _ => ?_
  refine keepsHead_bind (keepsHead_of_only (P := fun p => p = .nothing ∨ p = .tables) init_only heads
    (by simp) (by simp) (by simp)) fun _ h₁ heads => next h₁ heads

theorem keepsHead_withLock {body : Result Unit} {refusal : String → String} (heads : h.Heads s x)
    (run : ∀ h', h'.Heads s x → KeepsHead site s x body h') :
    KeepsHead site s x (withLock s refusal body) h := by
  have keep {h₁ h₂ : Host} (heads : h₁.Heads s x) (same : h₁.SameBut (· = .lock s) h₂) :
      h₂.Heads s x := heads.keep same (by simp) (by simp) (by simp)
  exact withLock_safe (fun _ _ _ _ _ _ => trivial) (fun _ _ same => keep heads same)
    (fun h₁ same => run h₁ (keep heads same)) fun _ _ _ heads same => keep heads same

theorem deployPreview_keepsHead (loaded : site.services.load d.service = some d)
    (heads : h.Heads d.service x) :
    KeepsHead site d.service x (Cli.deployPreview d.service sha flag) h := by
  refine keepsHead_withLock heads fun h₁ heads => ?_
  refine keepsHead_read loadService_spec heads fun d' loaded' => ?_
  cases loaded.symm.trans loaded'
  refine ofExcept_safe (fun port _ => ?_) fun _ => heads
  refine keepsHead_bind ?_ fun b h₂ heads => ?_
  · refine keepsHead_loadDef heads loaded ?_
    refine keepsHead_read (Spec.frame preflight_only) heads fun _ _ => ?_
    refine keepsHead_read (Spec.frame ensureNetwork_only) heads fun _ _ => ?_
    refine keepsHead_readActive heads ?_
    refine keepsHead_bind (keepsHead_of_only (P := touches _) startInactive_only heads (by simp)
      (by simp) (by simp)) fun _ h₂ heads => heads
  refine keepsHead_connectInit heads fun h₃ heads => ?_
  refine keepsHead_bind (keepsHead_of_only (P := (· = .previews)) upsertPreview_only heads (by simp)
    (by simp) (by simp)) fun _ h₄ heads => ?_
  exact keepsHead_of_only (P := reloads) reloadProxies_only heads (by simp) (by simp) (by simp)

theorem cancelPreview_keepsHead (loaded : site.services.load d.service = some d)
    (heads : h.Heads d.service x) :
    KeepsHead site d.service x (Cli.cancelPreview d.service) h := by
  refine keepsHead_withLock heads fun h₁ heads => ?_
  refine keepsHead_bind ?_ fun _ h₂ heads => ?_
  · refine keepsHead_loadDef heads loaded ?_
    refine keepsHead_readActive heads ?_
    refine keepsHead_bind (keepsHead_of_only (P := touches _) stopContainer_only heads (by simp)
      (by simp) (by simp)) fun _ h₂ heads => ?_
    refine keepsHead_bind (keepsHead_of_only (P := touches _) removeContainerIfExists_only heads
      (by simp) (by simp) (by simp)) fun _ h₃ heads => ?_
    exact keepsHead_of_only (P := quiets) prune_only heads (by simp) (by simp) (by simp)
  refine keepsHead_connectInit heads fun h₃ heads => ?_
  refine keepsHead_bind (keepsHead_of_only (P := (· = .previews)) deletePreview_only heads (by simp)
    (by simp) (by simp)) fun deleted h₄ heads => ?_
  split
  · exact keepsHead_of_only (P := reloads) reloadProxies_only heads (by simp) (by simp) (by simp)
  · exact heads

/-- Staging a preview, or cancelling one. -/
def Operation.Previews : Operation → Bool
  | .deployPreview _ _ _ => true
  | .cancelPreview _ => true
  | _ => false

theorem Operation.keepsHead (loaded : site.services.load d.service = some d)
    (heads : h.Heads d.service x) (named : op.service = some d.service)
    (previews : op.Previews = true) :
    Ends site (fun _ h' => h'.Heads d.service x) op.perform h := by
  cases op with
  | deployPreview => cases named; exact deployPreview_keepsHead loaded heads
  | cancelPreview => cases named; exact cancelPreview_keepsHead loaded heads
  | _ => cases previews

theorem serial_keepsHead (loaded : site.services.load d.service = some d)
    (heads : h₀.Heads d.service x)
    (run : Serial (steps site) Operation.perform (fun _ _ => True) h₀ log h)
    (previews : ∀ e ∈ log, e.1.service = some d.service → e.1.Previews = true) :
    h.Heads d.service x := by
  induction run with
  | nil => exact heads
  | @cons log h₁ op r h₂ before _ last ih =>
    have heads := ih fun e he => previews e (List.mem_cons_of_mem _ he)
    by_cases named : op.service = some d.service
    · have stages := previews _ List.mem_cons_self named
      exact (op.keepsHead loaded heads named stages).finishes last
    · have same := op.leaves named last
      exact ⟨same.active.trans heads.active, same.sha.trans heads.sha,
        (same.slot _).trans heads.live⟩

/-- However many previews of a service have been staged or cancelled, whether that succeeded or not,
and whatever has run on the others: a `cancel-preview` that succeeds leaves what is live as it was at
the start, and nothing else of the service. -/
theorem cancel_clears (loaded : site.services.load d.service = some d)
    (shows : h₀.Shows d.service x₀)
    (previews : ∀ e ∈ log, e.1.service = some d.service → e.1.Previews = true)
    (run : Serial (steps site) Operation.perform (fun _ _ => True) h₀
      ((.cancelPreview d.service, .ok ()) :: log) h) :
    h.Shows d.service { x₀ with spare := none, rows := [] } := by
  cases run with
  | @cons _ h₁ _ _ _ before _ last =>
    have heads := serial_keepsHead loaded shows.heads before previews
    have shows₁ : h₁.Shows d.service
        { x₀ with spare := h₁.slot d.service (flip x₀.active), rows := h₁.rows d.service } :=
      ⟨heads.active, heads.sha, heads.live, rfl, rfl⟩
    obtain ⟨x', shows', moves, -⟩ :=
      ((Operation.cancelPreview d.service).moves loaded shows₁ rfl).finishes last
    cases moves
    exact shows'

/-- The preview fails once its container is there. -/
theorem cancel_clears_paseo :
    ∃ (log : List (Operation × Except String Unit)) (h : Host),
      log.map (·.1) = [.deployPreview "paseo" "v2" none] ∧ log.map (·.2.isOk) = [false] ∧
        h.Shows "paseo" { Scenario.stage with spare := none, rows := [] } := by
  have played : (playSerial (Call.answer Scenario.site) anyChoice Operation.perform
      [(.deployPreview "paseo" "v2" none, Scenario.oks 14 ++ [.fail, .ok]),
        (.cancelPreview "paseo", Scenario.oks 13)] ([], Scenario.serving)).map
        (fun x => x.1.map (·.2.isOk)) = some [true, false] := by decide
  obtain ⟨⟨log, h⟩, ran, shown⟩ := Option.map_eq_some_iff.mp played
  have ops : log.map (·.1) = [.cancelPreview "paseo", .deployPreview "paseo" "v2" none] :=
    playSerial_ops ran
  have run : Serial (steps Scenario.site) Operation.perform (fun _ _ => True) Scenario.serving
      log h := playSerial_serial (fun _ _ _ => trivial) .nil ran
  obtain ⟨⟨op, r⟩, log, rfl, same, staged⟩ := List.map_eq_cons_iff.mp ops
  have same : op = .cancelPreview "paseo" := same
  subst same
  obtain ⟨ok, failed⟩ := List.cons_eq_cons.mp shown
  cases r with
  | error e => cases ok
  | ok =>
    refine ⟨log, h, staged, failed, cancel_clears (d := Scenario.paseo) rfl serving_shows ?_ run⟩
    intro e mem _
    have listed := List.mem_map_of_mem (f := (·.1)) mem
    rw [staged, List.mem_singleton] at listed
    rw [listed, Operation.Previews]

end Codery
