import Codery.Effect.Locks
import Codery.Interleaving
import Codery.Isolation

/-! Operations on any services at once, whatever fails and wherever one is killed: those that take
the deploy lock of their service keep every service up. -/

namespace Codery

open Effect Prog Deploy

variable {site : Site} {h h' h₀ : Host} {s t sha n : String} {a c : Color} {d : ServiceDef}
  {α β : Type} {op : Operation}

/-! ### The locks -/

/-- The lock of a service on a host on which any call may fail. -/
def fileLock (site : Site) (s : String) : Lock (steps site) where
  acquire := .tryAcquire s
  release := .release s
  granted r := Except.isOk (show Except String Unit from r)
  Held h := h.locks s = true
  free {h r h'} step granted := by
    obtain ⟨_, _, ans⟩ := step
    rcases answer_tryAcquire ans with ⟨⟨e, refused⟩, _⟩ | ⟨_, free, _⟩
    · subst refused
      cases granted
    · simp [free]
  held {h r h'} step granted := by
    obtain ⟨_, _, ans⟩ := step
    rcases answer_tryAcquire ans with ⟨⟨e, refused⟩, _⟩ | ⟨_, _, taken⟩
    · subst refused
      cases granted
    · simp [taken]
  refused {h r h'} step refused := by
    obtain ⟨_, _, ans⟩ := step
    rcases answer_tryAcquire ans with ⟨_, same⟩ | ⟨ok, _⟩
    · exact same
    · subst ok
      cases refused

/-- The services of a host, each with its lock. -/
def services (site : Site) : Resources (steps site) String where
  lock := fileLock site
  Same := Host.Same
  refl := .refl
  trans := .trans
  held same held := same.lock.trans held
  released {s h r h'} step t ne := by
    have spares : (Call.release s).Spares t :=
      spares_of_part (fun same => ne same.symm) (by simp [Call.part])
    exact spares.same step

theorem Call.Spares.resource {x : Call} (spares : x.Spares t) : (services site).Spares t x :=
  fun _ _ _ step => spares.same step

theorem withLock_takes {body : Result Unit} {refusal : String → String}
    (only : body.run.Only Unlocking) :
    (fileLock site s).Guards (withLock s refusal body).run := by
  refine ⟨_, rfl, fun r => ?_⟩
  cases r with
  | error e => exact ⟨_, rfl⟩
  | ok =>
    refine ⟨body.run, only.mono fun x unlocking h r h' step held => ?_, ExceptT.run_bind_lift _ _⟩
    obtain ⟨_, _, ans⟩ := step
    exact (frame_locks ans (unlocking s)).trans held

theorem deployPreview_unlocking {port : Option String} :
    (do let d ← loadService s
        let port ← ofExcept (Cli.previewPort d port)
        let inactive ← runStartInactive s sha
        Db.connect
        Db.init
        Db.upsertPreview (Cli.previewRecord d s sha port inactive)
        reloadProxies : Result Unit).run.Only Unlocking := by
  refine Only.bindE (unlocking_of (P := reads) loadService_only (by simp)) fun d => ?_
  refine Only.bindE (ofExcept_only _) fun port => ?_
  refine Only.bindE (unlocking_of_works runStartInactive_applies.works) fun inactive => ?_
  apply connectInit_unlocking
  refine Only.bindE (unlocking_of (P := (· = .previews)) upsertPreview_only (by simp)) fun _ => ?_
  exact unlocking_of (P := reloads) reloadProxies_only (by simp)

theorem Operation.takes (locks : op.Locks s) : (fileLock site s).Guards op.perform := by
  cases op with
  | deploy =>
    cases locks
    exact withLock_takes (unlocking_of_works run_applies.works)
  | deployPreview =>
    cases locks
    exact withLock_takes deployPreview_unlocking
  | cutover =>
    cases locks
    apply withLock_takes
    apply connectInit_unlocking
    refine Only.bindE (unlocking_of (P := reads) findPreview_only (by simp)) fun preview => ?_
    exact Only.bindE (unlocking_of_works runCutover_applies.works) fun _ => dropPreview_unlocking
  | cancelPreview =>
    cases locks
    apply withLock_takes
    refine Only.bindE (unlocking_of_works runCancelInactive_applies.works) fun _ => ?_
    exact connectInit_unlocking dropPreview_unlocking
  | dashboardRollback =>
    cases locks
    exact withLock_takes (unlocking_of_works rollback_applies.works)
  | _ => exact locks.elim

/-! ### What the holder of a lock keeps up

The others do nothing to its service, but anything else. -/

/-- Color `a` is recorded, and its container is up. -/
structure Host.LiveIn (h : Host) (s : String) (a : Color) : Prop where
  active : h.active s = some a
  up : h.Up s a

theorem Host.LiveIn.live (serves : h.LiveIn s a) : h.Live s := ⟨a, serves.active, serves.up⟩

theorem Host.LiveIn.same (serves : h.LiveIn s a) (same : h.Same s h') : h'.LiveIn s a :=
  ⟨same.active.trans serves.active, same.up.mpr serves.up⟩

theorem Host.Same.live (same : h.Same s h') (live : h.Live s) : h'.Live s := by
  obtain ⟨a, active, up⟩ := live
  exact ⟨a, same.active.trans active, same.up.mpr up⟩

theorem Host.LiveIn.frame {P : Part → Prop} (serves : h.LiveIn s a) (same : h.SameBut P h')
    (color : ¬ P (.color s)) (slot : ¬ P (.container (containerName s a))) : h'.LiveIn s a :=
  ⟨(same.active color).trans serves.active, (same.up slot).mpr serves.up⟩

/-- `p` keeps `s` live, among others that do nothing to `s`. -/
abbrev StaysLive (site : Site) (s : String) (Q : α → Host → Prop) (p : Prog sig α) (h : Host) : Prop :=
  Safe (among (steps site) (Host.Same s)) (fun _ _ _ h' => h'.Live s) Q p h

theorem among_le {R : Host → Host → Prop} : among (steps site) R ≤ among (steps site) fun _ _ => True :=
  fun _ _ _ _ ⟨h₁, step, _⟩ => ⟨h₁, step, trivial⟩

theorem stays_frame {P : Part → Prop} {J : Host → Prop} {p : Prog sig α}
    (only : p.Only fun x : Call => P x.part) (start : J h)
    (frame : ∀ h h', h.SameBut P h' → J h → J h') (stable : ∀ h h', h.Same s h' → J h → J h')
    (live : ∀ h, J h → h.Live s) : StaysLive site s (fun _ h' => J h') p h := by
  refine (Only.keeps only start ?_).mono (fun _ _ _ _ _ kept => live _ kept.2.2) fun _ _ kept => kept
  rintro x h r h' ⟨h₁, step, same⟩ part holds
  exact stable _ _ same (frame _ _ (steps_sameBut step part) holds)

/-- A program that touches neither container, while nothing is known of the color. -/
theorem stays_aside {P : Part → Prop} {p : Prog sig α} (only : p.Only fun x : Call => P x.part)
    (color : ¬ P (.color s)) (slot : ∀ c, ¬ P (.container (containerName s c)))
    (live : h.Live s) : StaysLive site s (fun _ h' => h'.Live s) p h :=
  stays_frame only live (fun _ _ same live => same.live color slot live)
    (fun _ _ same live => same.live live) fun _ live => live

/-- A program that leaves the recorded color and its container alone. -/
theorem stays_serving {P : Part → Prop} {p : Prog sig α} (only : p.Only fun x : Call => P x.part)
    (color : ¬ P (.color s)) (slot : ¬ P (.container (containerName s a)))
    (serves : h.LiveIn s a) : StaysLive site s (fun _ h' => h'.LiveIn s a) p h :=
  stays_frame only serves (fun _ _ same serves => serves.frame same color slot)
    (fun _ _ same serves => serves.same same) fun _ serves => serves.live

theorem stays_reads {p : Prog sig α} (only : p.Only Reads) (live : h.Live s) :
    StaysLive site s (fun _ h' => h'.Live s) p h :=
  stays_aside (P := reads) only (by simp) (by simp) live

theorem serving_reads {p : Prog sig α} (only : p.Only Reads) (serves : h.LiveIn s a) :
    StaysLive site s (fun _ h' => h'.LiveIn s a) p h :=
  stays_serving (P := reads) only (by simp) (by simp) serves

/-- Work on the other container. -/
theorem serving_touches {p : Prog sig α} (only : p.Only (Touches (containerName s c))) (ne : c ≠ a)
    (serves : h.LiveIn s a) : StaysLive site s (fun _ h' => h'.LiveIn s a) p h :=
  stays_serving (P := touches (containerName s c)) only (by simp) (by simpa using Ne.symm ne) serves

theorem call_stays {x : Call} {Q : Except String β → Host → Prop} {f : x.Reply → Result β}
    (next : ∀ r h₁ h', steps site x h r h₁ → h₁.Same s h' →
      h'.Live s ∧ StaysLive site s Q (f r).run h') : StaysLive site s Q (call x >>= f).run h :=
  fun r h' ⟨h₁, step, same⟩ => next r h₁ h' step same

theorem stays_bindE {x : Result α} {f : α → Result β} {J : Host → Prop}
    (hx : StaysLive site s (fun _ h' => J h') x.run h) (live : ∀ h, J h → h.Live s)
    (next : ∀ a h, J h → StaysLive site s (fun _ h' => h'.Live s) (f a).run h) :
    StaysLive site s (fun _ h' => h'.Live s) (x >>= f).run h :=
  Safe.bindE hx next fun _ _ holds => live _ holds

/-! ### The parts of an operation -/

theorem readActive_stays (live : h.Live s) :
    StaysLive site s (fun r h' => h'.Live s ∧ ∀ a, r = .ok a → h'.LiveIn s a)
      (State.readActive s).run h := by
  rintro r h' ⟨h₁, step, same⟩
  have read := (readActive_spec r h₁ step).2
  cases reads_step step rfl
  refine ⟨same.live live, ?_⟩
  obtain ⟨a, active, up⟩ := live
  cases r with
  | missing | text =>
    refine ⟨same.live ⟨a, active, up⟩, fun b ok => ?_⟩
    cases ok
    have seen : some _ = h.active s := read.2
    cases seen.trans active
    exact Host.LiveIn.same ⟨active, up⟩ same
  | unreadable =>
    exact ⟨same.live ⟨a, active, up⟩, nofun⟩

theorem containerRunning_stays (serves : h.LiveIn s a) :
    StaysLive site s (fun r h' => h'.LiveIn s a ∧ (r = .ok true → h'.Up s (flip a)))
      (containerRunning (containerName s (flip a))).run h := by
  rintro r h' ⟨h₁, step, same⟩
  have inspected := (containerRunning_spec r h₁ step).2
  cases reads_step step rfl
  have serves := serves.same same
  refine ⟨serves.live, ?_⟩
  cases r with
  | error e => exact ⟨serves, nofun⟩
  | ok i =>
    obtain ⟨_, up, seen, running⟩ := inspected
    refine ⟨serves, fun ok => ?_⟩
    rw [ok] at seen
    cases seen
    exact same.up.mpr (running rfl)

/-- Where both containers are up, it does not matter which color a failed write leaves. -/
theorem writeActive_stays (serves : h.LiveIn s a) (up : h.Up s (flip a)) :
    StaysLive site s (fun r h' => h'.Live s ∧ (r = .ok () → h'.LiveIn s (flip a)))
      (State.writeActive s (flip a)).run h := by
  have both (c : Color) : h.Up s c := by
    rcases eq_or_eq_flip a c with rfl | rfl
    · exact serves.up
    · exact up
  rintro r h' ⟨h₁, step, same⟩
  have wrote := (writeActive_spec r h₁ step).2
  have others : h.SameBut (· = .color s) h₁ := steps_sameBut step rfl
  have up₁ (c : Color) : h₁.Up s c := (others.up (by simp)).mpr (both c)
  have live₁ (left : h₁.active s = h.active s ∨ ∃ e, h₁.active s = some e) : h₁.Live s := by
    rcases left with kept | ⟨e, written⟩
    · exact ⟨a, kept.trans serves.active, up₁ a⟩
    · exact ⟨e, written, up₁ e⟩
  cases r with
  | error e =>
    have live := same.live (live₁ wrote.2.2)
    exact ⟨live, live, nofun⟩
  | ok =>
    have live := same.live (live₁ wrote.2.2)
    exact ⟨live, live, fun _ => Host.LiveIn.same ⟨wrote.2.1, up₁ _⟩ same⟩

/-- A wait that says `true` has seen the container up. -/
theorem waitForTcp_sees {port : UInt16} (attempts : ℕ) :
    Safe (among (steps site) (Host.Same s)) (fun _ _ _ _ => True)
      (fun r h' => r = .ok true → h'.Up s c)
      (waitForTcpInContainer (containerName s c) port attempts).run h := by
  induction attempts generalizing h with
  | zero => exact nofun
  | succ attempts ih =>
    rintro r h' ⟨h₁, step, same⟩
    refine ⟨trivial, ?_⟩
    obtain ⟨_, ans⟩ := docker_step step
    rcases Docker.answer_execTcpProbe ans with ⟨no, _⟩ | ⟨yes, k, _, up, put⟩
    · subst no
      exact ih
    · subst yes
      exact fun _ =>
        same.up.mpr ⟨{ k with healthPassed := true }, by rw [put, Docker.Daemon.put_same], up⟩

theorem waitForDockerHealthy_sees (seconds : ℕ) :
    Safe (among (steps site) (Host.Same s)) (fun _ _ _ _ => True)
      (fun r h' => r = .ok true → h'.Up s c)
      (waitForDockerHealthy (containerName s c) seconds).run h := by
  induction seconds generalizing h with
  | zero => exact nofun
  | succ seconds ih =>
    rintro r h' ⟨h₁, step, same⟩
    refine ⟨trivial, ?_⟩
    obtain ⟨_, ans⟩ := docker_step step
    rcases Docker.answer_inspectHealth ans with ⟨no, _⟩ | ⟨yes, k, _, up, put⟩
    · cases r with
      | error e => exact nofun
      | ok status =>
        cases status with
        | none | starting => exact ih
        | healthy => exact absurd rfl no
        | unhealthy => exact nofun
    · subst yes
      exact fun _ =>
        same.up.mpr ⟨{ k with healthPassed := true }, by rw [put, Docker.Daemon.put_same], up⟩

theorem pollHealth_sees :
    Safe (among (steps site) (Host.Same d.service)) (fun _ _ _ _ => True)
      (fun r h' => r = .ok () → h'.Up d.service c) (pollHealth d c).run h := by
  have settle {x : Result Bool} {m : String}
      (sees : Safe (among (steps site) (Host.Same d.service)) (fun _ _ _ _ => True)
        (fun r h' => r = .ok true → h'.Up d.service c) x.run h) :
      Safe (among (steps site) (Host.Same d.service)) (fun _ _ _ _ => True)
        (fun r h' => r = .ok () → h'.Up d.service c)
        (x >>= fun passed => if passed then pure () else do
          (fun _ => pure () : String → Result Unit) (containerName d.service c)
          throw m).run h := by
    refine Safe.bindE sees (fun passed h₁ up => ?_) fun _ _ _ => nofun
    cases passed with
    | true => exact fun _ => up rfl
    | false => exact nofun
  unfold pollHealth awaitHealth
  split
  · cases d.healthContainerPort with
    | ok port => exact settle (waitForTcp_sees _)
    | error e => exact nofun
  · exact settle (waitForDockerHealthy_sees _)

theorem pollHealth_stays (serves : h.LiveIn d.service a) :
    StaysLive site d.service
      (fun r h' => h'.LiveIn d.service a ∧ (r = .ok () → h'.Up d.service (flip a)))
      (pollHealth d (flip a)).run h :=
  ((serving_touches pollHealth_only (flip_ne a) serves).and pollHealth_sees).mono
    (fun _ _ _ _ _ both => both.1) fun _ _ both => both

/-- Recording the other color once both containers are up, and what comes next. -/
theorem record_stays {f : Result Unit} (serves : h.LiveIn s a) (up : h.Up s (flip a))
    (next : ∀ h, h.LiveIn s (flip a) → StaysLive site s (fun _ h' => h'.Live s) f.run h) :
    StaysLive site s (fun _ h' => h'.Live s)
      (do State.writeActive s (flip a)
          State.writeActiveSha s sha
          f : Result Unit).run h := by
  refine Safe.bindE (writeActive_stays serves up) (fun _ h₁ wrote => ?_) fun _ _ wrote => wrote.1
  have recorded : StaysLive site s (fun _ h' => h'.LiveIn s (flip a))
      (State.writeActiveSha s sha).run h₁ :=
    stays_serving (P := (· = .sha s)) writeActiveSha_only (by simp) (by simp) (wrote.2 rfl)
  exact stays_bindE recorded (fun _ => Host.LiveIn.live) fun _ h₂ serves => next h₂ serves

theorem switchOver_stays (serves : h.LiveIn d.service a) (up : h.Up d.service (flip a)) :
    StaysLive site d.service (fun _ h' => h'.Live d.service)
      (switchOver d sha a (flip a)).run h := by
  refine record_stays serves up fun h₁ serves => ?_
  refine stays_bindE (stays_serving (P := reloads) applyAll_only (by simp) (by simp) serves)
    (fun _ => Host.LiveIn.live) fun _ h₂ serves => ?_
  refine stays_bindE (serving_touches stopContainer_only (ne_flip a) serves)
    (fun _ => Host.LiveIn.live) fun _ h₃ serves => ?_
  exact stays_aside (P := quiets) prune_only (by simp) (by simp) serves.live

theorem cutover_stays (serves : h.LiveIn d.service a) :
    StaysLive site d.service (fun _ h' => h'.Live d.service) (cutover d sha a (flip a)).run h := by
  refine Safe.bindE (containerRunning_stays serves) (fun running h₁ seen => ?_)
    fun _ _ seen => seen.1.live
  cases running with
  | true => exact switchOver_stays seen.1 (seen.2 rfl)
  | false => exact seen.1.live

theorem redeploy_stays (serves : h.LiveIn d.service a) :
    StaysLive site d.service (fun _ h' => h'.Live d.service) (redeploy d sha a).run h :=
  stays_bindE (serving_touches startInactive_only (flip_ne a) serves) (fun _ => Host.LiveIn.live)
    fun _ _ serves => cutover_stays serves

theorem deployService_stays (live : h.Live d.service) :
    StaysLive site d.service (fun _ h' => h'.Live d.service) (deployService d sha).run h := by
  refine stays_bindE (stays_reads preflight_only live) (fun _ => id) fun _ h live => ?_
  refine stays_bindE (stays_reads ensureNetwork_only live) (fun _ => id) fun _ h live => ?_
  refine Safe.bindE (readActive_stays live) (fun a h read => ?_) fun _ _ read => read.1
  refine stays_bindE (serving_reads readActiveSha_only (read.2 a rfl)) (fun _ => Host.LiveIn.live)
    fun recorded h serves => ?_
  split
  · refine stays_bindE (serving_reads containerRunning_only serves) (fun _ => Host.LiveIn.live)
      fun running h serves => ?_
    split
    · exact serves.live
    · exact redeploy_stays serves
  · exact redeploy_stays serves

/-- A definition is loaded, and the service stays live. -/
theorem stays_ofService {x : Result ServiceDef} (only : x.run.Only Reads)
    (loads : KeepsOff site s (fun r _ => OfService s r) x.run h) (live : h.Live s) :
    StaysLive site s (fun r h' => h'.Live s ∧ OfService s r) x.run h :=
  ((stays_reads only live).and (loads.restrict among_le)).mono (fun _ _ _ _ _ both => both.1)
    fun _ _ both => both

theorem loadDef_stays {f : ServiceDef → Result α} (live : h.Live s)
    (next : ∀ d h, d.service = s → h.Live s → StaysLive site s (fun _ h' => h'.Live s) (f d).run h) :
    StaysLive site s (fun _ h' => h'.Live s) (loadDef s >>= f).run h :=
  Safe.bindE (stays_ofService loadDef_only loadDef_ofService live)
    (fun d h both => next d h (both.2 d rfl) both.1) fun _ _ both => both.1

theorem run_stays (live : h.Live s) :
    StaysLive site s (fun _ h' => h'.Live s) (Deploy.run s sha).run h := by
  refine loadDef_stays live fun d h loaded live => ?_
  subst loaded
  exact deployService_stays live

theorem runStartInactive_stays (live : h.Live s) :
    StaysLive site s (fun _ h' => h'.Live s) (runStartInactive s sha).run h := by
  refine loadDef_stays live fun d h loaded live => ?_
  subst loaded
  refine Safe.bindE (stays_reads preflight_only live) (fun _ h live => ?_) fun _ _ live => live
  refine Safe.bindE (stays_reads ensureNetwork_only live) (fun _ h live => ?_) fun _ _ live => live
  refine Safe.bindE (readActive_stays live) (fun a h read => ?_) fun _ _ read => read.1
  exact Safe.bindE (serving_touches startInactive_only (flip_ne a) (read.2 a rfl))
    (fun _ _ serves => serves.live) fun _ _ serves => serves.live

theorem promote_stays (serves : h.LiveIn d.service a) :
    StaysLive site d.service (fun _ h' => h'.Live d.service) (promote d sha a).run h := by
  refine stays_bindE (serving_reads containerRunsImage_only serves) (fun _ => Host.LiveIn.live)
    fun runs h serves => ?_
  split
  · exact cutover_stays serves
  · exact redeploy_stays serves

theorem runCutover_stays {shaOpt preview : Option String} (live : h.Live s) :
    StaysLive site s (fun _ h' => h'.Live s) (runCutover s shaOpt preview).run h := by
  refine loadDef_stays live fun d h loaded live => ?_
  subst loaded
  refine Safe.bindE (readActive_stays live) (fun a h read => ?_) fun _ _ read => read.1
  refine stays_bindE (serving_reads previewStaged_only (read.2 a rfl)) (fun _ => Host.LiveIn.live)
    fun staged h serves => ?_
  refine stays_bindE (serving_reads listLocal_only serves) (fun _ => Host.LiveIn.live)
    fun images h serves => ?_
  refine stays_bindE (serving_reads containerImageTag_only serves) (fun _ => Host.LiveIn.live)
    fun tag h serves => ?_
  split
  · exact cutover_stays serves
  · exact promote_stays serves
  · exact serves.live
  · exact serves.live
  · exact serves.live

theorem runCancelInactive_stays (live : h.Live s) :
    StaysLive site s (fun _ h' => h'.Live s) (runCancelInactive s).run h := by
  refine loadDef_stays live fun d h loaded live => ?_
  subst loaded
  refine Safe.bindE (readActive_stays live) (fun a h read => ?_) fun _ _ read => read.1
  refine stays_bindE (serving_touches stopContainer_only (flip_ne a) (read.2 a rfl))
    (fun _ => Host.LiveIn.live) fun _ h serves => ?_
  refine stays_bindE (serving_touches removeContainerIfExists_only (flip_ne a) serves)
    (fun _ => Host.LiveIn.live) fun _ h serves => ?_
  exact stays_aside (P := quiets) prune_only (by simp) (by simp) serves.live

theorem finishRollback_stays (serves : h.LiveIn d.service a) :
    StaysLive site d.service (fun _ h' => h'.Live d.service)
      (Ui.finishRollback d d.service (flip a) sha).run h := by
  refine Safe.liftE (pollHealth_stays serves) fun polled h₁ polls => ?_
  cases polled with
  | error e =>
    refine stays_bindE (serving_touches (attempt_only stopContainer_only) (flip_ne a) polls.1)
      (fun _ => Host.LiveIn.live) fun _ h serves => ?_
    exact serves.live
  | ok =>
    refine record_stays polls.1 (polls.2 rfl) fun h serves => ?_
    refine stays_bindE
      (stays_serving (P := reloads) (attempt_only applyAll_only) (by simp) (by simp) serves)
      (fun _ => Host.LiveIn.live) fun applied h serves => ?_
    refine stays_bindE (serving_reads (context_only _ _) serves) (fun _ => Host.LiveIn.live)
      fun _ h serves => ?_
    rw [flip_flip]
    exact (serving_touches stopContainer_only (ne_flip a) serves).post fun _ _ serves => serves.live

theorem doRollback_stays (serves : h.LiveIn d.service a) :
    StaysLive site d.service (fun _ h' => h'.Live d.service)
      (Ui.doRollback d d.service (flip a)).run h := by
  refine call_stays fun info _ h₁ step same => ?_
  cases reads_step step rfl
  have serves := serves.same same
  refine ⟨serves.live, ?_⟩
  cases info with
  | error e => exact serves.live
  | ok info =>
    dsimp only
    split
    · exact serves.live
    · have started : StaysLive site d.service (fun _ h' => h'.LiveIn d.service a)
          (call (.docker (.startContainer (containerName d.service (flip a))))).run h₁ :=
        serving_touches (call_only (.inr rfl) fun _ => trivial) (flip_ne a) serves
      refine stays_bindE started (fun _ => Host.LiveIn.live) fun r h serves => ?_
      refine stays_bindE (serving_reads (context_only _ _) serves) (fun _ => Host.LiveIn.live)
        fun _ h serves => ?_
      exact finishRollback_stays serves

/-! ### The operations -/

theorem withLock_stays {refusal : String → String} {body : Result Unit} (live : h.Live s)
    (run : ∀ h, h.Live s → StaysLive site s (fun _ h' => h'.Live s) body.run h) :
    StaysLive site s (fun _ h' => h'.Live s) (withLock s refusal body).run h := by
  have asks {x : Call} {r : x.Reply} {h h₁ h' : Host} (lock : x.part = .lock s) (live : h.Live s)
      (step : steps site x h r h₁) (same : h₁.Same s h') : h'.Live s := by
    have others : h.SameBut (· = .lock s) h₁ := steps_sameBut step lock
    exact same.live (others.live (by simp) (by simp) live)
  refine call_stays fun acquired _ h₁ step same => ?_
  have live := asks rfl live step same
  refine ⟨live, ?_⟩
  cases acquired with
  | error e => exact live
  | ok =>
    refine Safe.liftE (run h₁ live) fun r h₂ live => ?_
    refine call_stays fun _ _ h₃ step same => ?_
    have live := asks rfl live step same
    exact ⟨live, stays_reads (ofExcept_only r) live⟩

theorem connectInit_stays {f : Result α} (live : h.Live s)
    (next : ∀ h, h.Live s → StaysLive site s (fun _ h' => h'.Live s) f.run h) :
    StaysLive site s (fun _ h' => h'.Live s) (do Db.connect; Db.init; f : Result α).run h := by
  refine stays_bindE (stays_reads connect_only live) (fun _ => id) fun _ h live => ?_
  refine stays_bindE ?_ (fun _ => id) fun _ h live => next h live
  exact stays_aside (P := quiets) (quiet_of_migrates init_only) (by simp) (by simp) live

theorem dropPreview_stays (live : h.Live s) :
    StaysLive site s (fun _ h' => h'.Live s) (Cli.dropPreview s).run h := by
  refine stays_bindE (stays_aside (P := (· = .previews)) deletePreview_only (by simp) (by simp) live)
    (fun _ => id) fun dropped h live => ?_
  split
  · exact stays_aside (P := reloads) reloadProxies_only (by simp) (by simp) live
  · exact live

theorem Operation.stays (locks : op.Locks s) (live : h.Live s) :
    StaysLive site s (fun _ h' => h'.Live s) op.perform h := by
  cases op with
  | deploy =>
    cases locks
    exact withLock_stays live fun _ live => run_stays live
  | deployPreview service sha port =>
    cases locks
    refine withLock_stays live fun h live => ?_
    refine stays_bindE (stays_reads loadService_only live) (fun _ => id) fun d h live => ?_
    refine stays_bindE (stays_reads (ofExcept_only _) live) (fun _ => id) fun port h live => ?_
    refine stays_bindE (runStartInactive_stays live) (fun _ => id) fun inactive h live => ?_
    refine connectInit_stays live fun h live => ?_
    refine stays_bindE (stays_aside (P := (· = .previews)) upsertPreview_only (by simp) (by simp) live)
      (fun _ => id) fun _ h live => ?_
    exact stays_aside (P := reloads) reloadProxies_only (by simp) (by simp) live
  | cutover =>
    cases locks
    refine withLock_stays live fun h live => connectInit_stays live fun h live => ?_
    refine stays_bindE (stays_reads findPreview_only live) (fun _ => id) fun preview h live => ?_
    exact stays_bindE (runCutover_stays live) (fun _ => id) fun _ h live => dropPreview_stays live
  | cancelPreview =>
    cases locks
    refine withLock_stays live fun h live => ?_
    refine stays_bindE (runCancelInactive_stays live) (fun _ => id) fun _ h live => ?_
    exact connectInit_stays live fun h live => dropPreview_stays live
  | dashboardRollback =>
    cases locks
    refine withLock_stays live fun h live => ?_
    refine Safe.liftE (stays_ofService loadService_only loadService_keepsOff live) fun r h both => ?_
    cases r with
    | error e => exact both.1
    | ok d =>
      cases both.2 d rfl
      change StaysLive site d.service _ (do let active ← State.readActive d.service
                                            Ui.doRollback d d.service (flip active)).run h
      refine Safe.bindE (readActive_stays both.1) (fun a h read => ?_) fun _ _ read => read.1
      exact doRollback_stays (read.2 a rfl)
  | _ => exact locks.elim

/-- A service that was live at the start is live. -/
def StillLive (h₀ : Host) (s : String) (h : Host) : Prop := h₀.Live s → h.Live s

theorem Operation.works (locks : op.Locks s) (still : StillLive h₀ s h) :
    (services site).Works (StillLive h₀) s op.perform h := by
  have others (t : String) (ne : t ≠ s) : Safe (among (steps site) (Host.Same s))
      (fun c _ _ _ => c.Spares t) (fun _ _ => True) op.perform h := by
    refine Safe.restrict (op.keepsOff fun named => ne ?_) among_le
    cases op <;> cases locks <;> cases named <;> rfl
  have keeps : Safe (among (steps site) (Host.Same s)) (fun _ _ _ h' => StillLive h₀ s h')
      (fun _ _ => True) op.perform h := by
    by_cases live : h₀.Live s
    · exact (op.stays locks (still live)).mono (fun _ _ _ _ _ live _ => live) fun _ _ _ => trivial
    · refine Safe.of_runs (fun _ _ _ _ _ _ _ was => absurd was live) fun _ _ _ => trivial
  refine Safe.of_runs (fun c k h₁ r h₂ run step => ⟨fun t ne => ?_, ?_⟩) fun _ _ _ => trivial
  · exact ((others t ne).everyStep c k h₁ r h₂ run step).resource
  · exact keeps.everyStep c k h₁ r h₂ run step

namespace Operation

/-- The service whose deploy lock the operation takes. -/
def key : Operation → Option String
  | .deploy s _ | .deployPreview s _ _ | .cutover s _ | .cancelPreview s
  | .dashboardRollback s => some s
  | _ => none

/-- The operation takes the lock of the service it names, if it names one. -/
def Careful (op : Operation) : Prop := op.service = op.key

instance (op : Operation) : Decidable op.Careful := inferInstanceAs (Decidable (op.service = op.key))

theorem locks_of_key (keyed : op.key = some s) : op.Locks s := by
  cases op <;> cases keyed <;> rfl

theorem orderly (careful : op.Careful) :
    (services site).Orderly (StillLive h₀) op.perform op.key := by
  cases keyed : op.key with
  | none =>
    have unnamed : op.service = none := careful.trans keyed
    exact (Only.all fun t => op.unnamed_spares unnamed).mono fun c spares t => (spares t).resource
  | some s => exact ⟨op.takes (locks_of_key keyed), fun h still => op.works (locks_of_key keyed) still⟩

end Operation

/-- Operations on any services run at once, each of which takes the lock of the service it names; any
call may fail, and any of them may be killed.  Whatever was live stays live, and no two of them are
at work on one service. -/
theorem live_at_once {ι : Type} [DecidableEq ι] {ops : ι → Operation}
    {x : Pool sig ι (Except String Unit)} (careful : ∀ i, (ops i).Careful)
    (run : (services site).Reaches (fun i => (ops i).key)
      (Pool.start fun i => (ops i).perform, h₀) (x, h)) :
    (∀ s, h₀.Live s → h.Live s) ∧
      ∀ i j s, (ops i).key = some s → (ops j).key = some s → x.UnderWay i → x.UnderWay j → i = j := by
  have stands := Resources.stands (J := StillLive h₀)
    (fun s h h' (same : h.Same s h') still was => same.live (still was)) ?_
    (fun i => (ops i).orderly (careful i)) (fun _ => id) run
  · exact ⟨stands.holds, fun i j s => stands.alone i j s⟩
  · intro s h r h' step still was
    have others : h.SameBut (· = .lock s) h' := steps_sameBut step rfl
    exact others.live (by simp) (by simp) (still was)

/-- The two commands once the cutover has taken the lock. -/
def Scenario.cutoverBegun : Pool sig Bool (Except String Unit) × Host :=
  ((playPool (Call.answer Scenario.site) anyChoice (fun _ _ => True) [(true, .ok)]
    (Pool.start fun i => (Scenario.twoCommands i).perform, Scenario.serving)).getD
      (Pool.start fun i => (Scenario.twoCommands i).perform, Scenario.serving))

/-- The cutover has been killed. -/
def Scenario.cutoverKilled : Pool sig Bool (Except String Unit) × Host :=
  (Scenario.cutoverBegun.1.resume true (.ret (.error "killed")),
    { Scenario.cutoverBegun.2 with
      locks := Function.update Scenario.cutoverBegun.2.locks "paseo" false })

/-- A cutover is killed once it has taken the lock, and a deploy takes it then. -/
theorem live_at_once_killed :
    ∃ x h, (services Scenario.site).Reaches (fun i => (Scenario.twoCommands i).key)
        (Pool.start fun i => (Scenario.twoCommands i).perform, Scenario.serving) (x, h) ∧
      x.Done ∧ h.Live "paseo" := by
  have begun : playPool (Call.answer Scenario.site) anyChoice (fun _ _ => True) [(true, .ok)]
      (Pool.start fun i => (Scenario.twoCommands i).perform, Scenario.serving) =
        some Scenario.cutoverBegun := rfl
  have killed : (services Scenario.site).Step (fun i => (Scenario.twoCommands i).key)
      Scenario.cutoverBegun Scenario.cutoverKilled := by
    refine .killed ⟨rfl, rfl⟩ (fun s key => ?_) nofun
    cases key
    exact ⟨(), .ok, rfl, rfl⟩
  have played : (playPool (Call.answer Scenario.site) anyChoice (fun _ _ => True)
      (List.replicate 8 (false, .ok)) Scenario.cutoverKilled).map
        (fun y => ((y.1.prog false).result?.isSome, (y.1.prog true).result?.isSome)) =
      some (true, true) := by decide
  obtain ⟨⟨x, h⟩, ran, shown⟩ := Option.map_eq_some_iff.mp played
  simp only [Prod.mk.injEq] at shown
  have run := (Relation.ReflTransGen.tail (Resources.reaches_of_calls (playPool_reaches begun))
    killed).trans (Resources.reaches_of_calls (playPool_reaches ran))
  refine ⟨x, h, run, Pool.done_of_results (Bool.forall_bool.mpr shown), ?_⟩
  have careful : ∀ i, (Scenario.twoCommands i).Careful := Bool.forall_bool.mpr ⟨rfl, rfl⟩
  exact (live_at_once careful run).1 "paseo" ⟨.blue, by decide, _, rfl, rfl⟩

end Codery
