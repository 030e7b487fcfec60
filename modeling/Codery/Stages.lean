import Codery.Isolation
import Codery.Previews
import Codery.RollbackRecord

/-! What an operator sees of a service, and what an operation that succeeds makes of it. -/

namespace Codery

open Effect Prog

/-- What a service has: a color and a SHA on record, the container of that color and the other
one, and preview rows. -/
structure Stage where
  active : Color
  sha : File
  live : Option Container
  spare : Option Container
  rows : List PreviewRecord

def Container.stopped (k : Container) : Container := { k with running := false }

def Container.restarted (k : Container) : Container :=
  { k with running := true, healthPassed := true }

namespace Stage

def recorded (x : Stage) : Option String :=
  match x.sha with
  | .text s => if trim s = "" then none else some (trim s)
  | _ => none

/-- There is nothing for a deploy of `sha` to do. -/
def Serves (x : Stage) (sha : String) : Prop :=
  x.recorded = some sha ∧ x.live.any (·.running) = true

instance (x : Stage) (sha : String) : Decidable (x.Serves sha) :=
  inferInstanceAs (Decidable (_ ∧ _))

/-- The spare container runs the image of `sha`. -/
def SpareRuns (x : Stage) (d : ServiceDef) (sha : String) : Prop :=
  ∃ k, x.spare = some k ∧ k.running = true ∧ k.image = d.imageRef sha

/-- What `find_preview` may pick. -/
def Picks (x : Stage) : Option PreviewRecord → Prop
  | some row => row ∈ x.rows
  | none => x.rows = []

def start (x : Stage) (k : Container) : Stage := { x with spare := some k }

/-- The other color goes on record, with its SHA. -/
def turn (x : Stage) (sha : String) : Stage where
  active := flip x.active
  sha := .text (sha ++ "\n")
  live := x.spare
  spare := x.live
  rows := x.rows

/-- The spare container takes over, and the old one is stopped. -/
def switch (x : Stage) (sha : String) : Stage :=
  { x.turn sha with spare := x.live.map Container.stopped }

/-- A new container takes over. -/
def replace (x : Stage) (d : ServiceDef) (sha : String) : Stage :=
  (x.start (d.healthy sha)).switch sha

def unstage (x : Stage) : Stage := { x with rows := [] }

/-- A new container is started beside the live one, and registered. -/
def stage (x : Stage) (d : ServiceDef) (sha : String) (port : UInt16) : Stage :=
  { x.start (d.healthy sha) with
    rows := [Cli.previewRecord d d.service sha port (flip x.active)] }

/-- What a cutover makes of a stage, with `images` the local ones. -/
inductive Cuts (d : ServiceDef) (images : List LocalImage) (x : Stage) (shaOpt : Option String) :
    Stage → Prop
  | promoted {row sha} : x.Picks row →
      Deploy.cutoverSha shaOpt (row.map (·.sha)) images.head? = some sha → x.SpareRuns d sha →
      Cuts d images x shaOpt (x.switch sha).unstage
  | replaced {row sha} : x.Picks row → (shaOpt = none → row = none) →
      Deploy.cutoverSha shaOpt (row.map (·.sha)) images.head? = some sha →
      Cuts d images x shaOpt (x.replace d sha).unstage
  | current {newest k} : shaOpt = none → x.rows = [] → images.head? = some newest →
      x.live = some k → k.image = newest.tag → Cuts d images x shaOpt x

/-- What an operation on the service makes of a stage when it succeeds. -/
def Moves (d : ServiceDef) (images : List LocalImage) (x x' : Stage) : Operation → Prop
  | .deploy _ sha => x' = x.replace d sha ∨ x.Serves sha ∧ x' = x
  | .deployPreview _ sha flag => ∃ port, Cli.previewPort d flag = .ok port ∧ x' = x.stage d sha port
  | .cutover _ shaOpt => Cuts d images x shaOpt x'
  | .cancelPreview _ => x' = { x with spare := none, rows := [] }
  | .recreate _ | .restartService _ => ∃ sha, x.recorded = some sha ∧
      x' = { x with live := some { image := d.imageRef sha, running := true } }
  | .dashboardRollback _ => ∃ k, x.spare = some k ∧ k.running = false ∧
      x' = (x.start k.restarted).switch (Ui.prevSha d.service k.image)
  | .mcpRollback _ => ∃ i ∈ images, x.recorded ≠ some i.sha ∧ x' = x.replace d i.sha
  | _ => False

/-- The operations of a log take the service from one stage to another; those that do not name it
leave it alone. -/
inductive Follows (d : ServiceDef) (x₀ : Stage) :
    List (Operation × Except String Unit) → Stage → Prop
  | nil : Follows d x₀ [] x₀
  | own {log x op r images x'} : Follows d x₀ log x → op.service = some d.service →
      x.Moves d images x' op → Follows d x₀ ((op, r) :: log) x'
  | other {log x op r} : Follows d x₀ log x → op.service ≠ some d.service →
      Follows d x₀ ((op, r) :: log) x

end Stage

/-- What is there of the service on the host. -/
structure Host.Shows (h : Host) (s : String) (x : Stage) : Prop where
  active : h.active s = some x.active
  sha : h.state.sha s = x.sha
  live : h.slot s x.active = x.live
  spare : h.slot s (flip x.active) = x.spare
  rows : h.rows s = x.rows

/-- Caddy routes to the color on record, too. -/
structure Host.Settles (h : Host) (s : String) (x : Stage) : Prop extends h.Shows s x where
  routed : h.proxy.loaded.colorOf s = x.active

variable {site : Site} {P : Part → Prop} {h h' h₀ : Host} {s n sha : String} {c : Color}
  {d : ServiceDef} {x x₀ : Stage} {k : Container} {α : Type}
  {log : List (Operation × Except String Unit)}

theorem Host.SameBut.routed (same : h.SameBut P h') (no : ¬ P .loaded) :
    h'.proxy.loaded.colorOf s = h.proxy.loaded.colorOf s := by
  rw [same.loaded no]

namespace Host.Shows

theorem recorded (shows : h.Shows s x) : h.state.activeSha s = x.recorded := by
  rw [StateDir.activeSha, shows.sha]
  cases x with
  | mk active sha => cases sha <;> rfl

theorem same (shows : h.Shows s x) (same : h.Same s h') : h'.Shows s x where
  active := same.active.trans shows.active
  sha := same.sha.trans shows.sha
  live := (same.slot _).trans shows.live
  spare := (same.slot _).trans shows.spare
  rows := same.rows.trans shows.rows

theorem keep (shows : h.Shows s x) (same : h.SameBut P h') (color : ¬ P (.color s))
    (sha : ¬ P (.sha s)) (slot : ∀ c, ¬ P (.container (containerName s c)))
    (previews : ¬ P .previews) : h'.Shows s x where
  active := (same.active color).trans shows.active
  sha := (same.sha sha).trans shows.sha
  live := (same.slot (slot _)).trans shows.live
  spare := (same.slot (slot _)).trans shows.spare
  rows := by rw [Host.rows, same.previews previews, ← shows.rows, Host.rows]

theorem withSpare (shows : h.Shows s x)
    (same : h.SameBut (touches (containerName s (flip x.active))) h') :
    h'.Shows s { x with spare := h'.slot s (flip x.active) } where
  active := (same.active (by simp)).trans shows.active
  sha := (same.sha (by simp)).trans shows.sha
  live := (same.slot (by simp)).trans shows.live
  spare := rfl
  rows := by rw [Host.rows, same.previews (by simp), ← shows.rows, Host.rows]

theorem withLive (shows : h.Shows s x) (same : h.SameBut (touches (containerName s x.active)) h') :
    h'.Shows s { x with live := h'.slot s x.active } where
  active := (same.active (by simp)).trans shows.active
  sha := (same.sha (by simp)).trans shows.sha
  live := rfl
  spare := (same.slot (by simp)).trans shows.spare
  rows := by rw [Host.rows, same.previews (by simp), ← shows.rows, Host.rows]

end Host.Shows

/-! ### Stopping and removing -/

theorem answer_stopContainer {o : Choice} {w w' : Docker.Daemon} {r : Except Docker.Error Unit}
    (ans : (Docker.Call.stopContainer n).answer o w = some (r, w')) :
    r = .error Docker.serverError ∨ w'.containers n = (w.containers n).map Container.stopped := by
  rcases Docker.lifecycle_some ans with done | ⟨failed, -⟩
  · right
    unfold Docker.Daemon.stop at done
    split at done
    · next none =>
      cases done
      rw [none]
      rfl
    · next k found =>
      split at done <;> cases done
      · rw [Docker.Daemon.put_same, found]
        rfl
      · next down =>
        rw [found, Option.map_some, Container.stopped, ← Bool.eq_false_of_not_eq_true down]
  · exact .inl failed

theorem answer_removeContainer {o : Choice} {w w' : Docker.Daemon} {r : Except Docker.Error Unit}
    (ans : (Docker.Call.removeContainer n).answer o w = some (r, w')) :
    r = .error Docker.serverError ∨ w'.containers n = none := by
  rcases Docker.lifecycle_some ans with done | ⟨failed, -⟩
  · right
    unfold Docker.Daemon.remove at done
    split at done <;> cases done
    · assumption
    · exact Docker.Daemon.put_same _ _ _
  · exact .inl failed

/-- A reply that is tolerated is not a server error. -/
theorem tolerate_ends {codes : List Nat} {m : String} {r : Except Docker.Error Unit}
    {T : Host → Prop} (refused : 500 ∉ codes) (done : r = .error Docker.serverError ∨ T h) :
    Ends site (OnOk fun _ h' => T h') (Deploy.tolerate codes m r).run h := by
  rcases done with rfl | done
  · rw [Deploy.tolerate, if_neg (show Docker.serverError.statusCode ∉ codes from refused)]
    trivial
  · cases r with
    | ok => exact done
    | error e =>
      unfold Deploy.tolerate
      dsimp only
      split
      · exact done
      · trivial

theorem stopContainer_spec :
    Spec site (touches n) h
      (OnOk fun _ h' => h'.docker.containers n = (h.docker.containers n).map Container.stopped)
      (Deploy.stopContainer n).run := by
  apply Spec.of_only stopContainer_only
  apply call_ends
  intro r h₁ step
  obtain ⟨_, ans⟩ := docker_step step
  exact tolerate_ends (by decide) (answer_stopContainer ans)

theorem removeContainerIfExists_spec :
    Spec site (touches n) h (OnOk fun _ h' => h'.docker.containers n = none)
      (Deploy.removeContainerIfExists n).run := by
  apply Spec.of_only removeContainerIfExists_only
  apply call_ends
  intro r h₁ step
  obtain ⟨_, ans⟩ := docker_step step
  exact tolerate_ends (by decide) (answer_removeContainer ans)

/-! ### One color after the other -/

open Deploy

theorem startInactive_starts (shows : h.Shows d.service x) :
    Ends site (OnOk fun _ h' => h'.Shows d.service (x.start (d.healthy sha)))
      (startInactive d sha (flip x.active)).run h := by
  refine startInactive_spec.safe (fun _ _ _ _ _ _ _ => trivial) fun r h' same started => ?_
  refine OnOk.mono started fun _ started => ?_
  rw [Stage.start, ← show h'.slot d.service (flip x.active) = _ from started]
  exact shows.withSpare same

/-- Recording the other color and its SHA. -/
theorem record_turns (shows : h.Shows s x) {f : Result Unit} {T : Unit → Host → Prop}
    (next : ∀ h', h'.Shows s (x.turn sha) → Ends site (OnOk T) f.run h') :
    Ends site (OnOk T)
      (do State.writeActive s (flip x.active)
          State.writeActiveSha s sha
          f : Result Unit).run h := by
  refine writeActive_spec.ok_ends fun _ h₁ same active => ?_
  refine writeActiveSha_spec.ok_ends fun _ h₂ same' recorded => next h₂ ?_
  have same : h.SameBut (fun p => p = .color s ∨ p = .sha s) h₂ :=
    (same.mono fun _ => .inl).trans (same'.mono fun _ => .inr)
  exact {
    active := (same'.active (by simp)).trans active.1
    sha := recorded
    live := (same.slot (by simp)).trans shows.spare
    spare := by
      rw [Stage.turn, flip_flip, same.slot (by simp)]
      exact shows.live
    rows := by rw [Host.rows, same.previews (by simp), ← Host.rows, shows.rows, Stage.turn] }

/-- Stopping the container of the color that was live. -/
theorem stopOld_switches (shows : h.Settles s (x.turn sha)) :
    Ends site (OnOk fun _ h' => h'.Settles s (x.switch sha))
      (stopContainer (containerName s x.active)).run h := by
  have old : flip (x.turn sha).active = x.active := flip_flip x.active
  refine stopContainer_spec.safe (fun _ _ _ _ _ _ _ => trivial) fun r h' same stopped => ?_
  refine OnOk.mono stopped fun _ stopped => ?_
  have spare : h'.slot s x.active = x.live.map Container.stopped := by
    rw [Host.slot, stopped, ← Host.slot, ← old, shows.spare]
    rfl
  refine ⟨?_, (same.routed (by simp)).trans shows.routed⟩
  rw [Stage.switch, ← spare, ← old]
  exact shows.toShows.withSpare (by rwa [old])

/-- The Caddyfile follows what is on record. -/
theorem applyAll_settles (hd : d ∈ site.services.defs) (shows : h.Shows d.service x) :
    Ends site (OnOk fun _ h' => h'.Settles d.service x) Caddy.applyAll.run h := by
  refine applyAll_spec.safe (fun _ _ _ _ _ _ _ => trivial) fun r h' same faithful => ?_
  cases r with
  | error e => trivial
  | ok =>
    refine ⟨shows.keep same (by simp) (by simp) (by simp) (by simp), ?_⟩
    rw [faithful d hd, Host.colorOf, shows.active, Option.getD_some]

theorem Host.Settles.keep (settles : h.Settles s x) (same : h.SameBut P h') (color : ¬ P (.color s))
    (sha : ¬ P (.sha s)) (slot : ∀ c, ¬ P (.container (containerName s c)))
    (previews : ¬ P .previews) (loaded : ¬ P .loaded) : h'.Settles s x where
  toShows := settles.toShows.keep same color sha slot previews
  routed := (same.routed loaded).trans settles.routed

theorem cutover_switches (hd : d ∈ site.services.defs) (shows : h.Shows d.service x) :
    Ends site (OnOk fun _ h' => h'.Settles d.service (x.switch sha))
      (cutover d sha x.active (flip x.active)).run h := by
  refine containerRunning_spec.read_ends fun up _ => ?_
  cases up with
  | false => trivial
  | true =>
    refine record_turns shows fun h₁ shows => ?_
    refine ok_ends (applyAll_settles hd shows) fun _ h₂ settles => ?_
    refine ok_ends (stopOld_switches settles) fun _ h₃ settles => ?_
    refine frame_ends (P := quiets) prune_only fun h₄ same => ?_
    exact settles.keep same (by simp) (by simp) (by simp) (by simp) (by simp)

theorem redeploy_replaces (hd : d ∈ site.services.defs) (shows : h.Shows d.service x) :
    Ends site (OnOk fun _ h' => h'.Settles d.service (x.replace d sha))
      (redeploy d sha x.active).run h :=
  ok_ends (startInactive_starts shows) fun _ _ started => cutover_switches hd started

theorem readActive_reads (shows : h.Shows s x) {f : Color → Result α} {T : α → Host → Prop}
    (next : Ends site (OnOk T) (f x.active).run h) :
    Ends site (OnOk T) (State.readActive s >>= f).run h := by
  refine readActive_spec.read_ends fun a active => ?_
  rw [shows.active] at active
  cases active
  exact next

/-- How a deploy ends: a new container has taken over, or there was nothing to do. -/
def Deploys (d : ServiceDef) (sha : String) (x : Stage) (h h' : Host) : Prop :=
  h'.Settles d.service (x.replace d sha) ∨ x.Serves sha ∧ h' = h

theorem deployService_deploys (hd : d ∈ site.services.defs) (shows : h.Shows d.service x) :
    Ends site (OnOk fun _ => Deploys d sha x h) (deployService d sha).run h := by
  have replaces : Ends site (OnOk fun _ => Deploys d sha x h) (redeploy d sha x.active).run h :=
    (redeploy_replaces hd shows).post fun _ _ done => done.mono fun _ settles => .inl settles
  refine (Spec.frame (P := reads) preflight_only).read_ends fun _ _ => ?_
  refine (Spec.frame (P := reads) ensureNetwork_only).read_ends fun _ _ => ?_
  refine readActive_reads shows ?_
  refine readActiveSha_spec.read_ends fun recorded read => ?_
  cases read
  split
  · next same =>
    refine containerRunning_spec.read_ends fun up inspected => ?_
    obtain ⟨_, seen, running⟩ := inspected
    cases seen
    cases up with
    | false => exact replaces
    | true =>
      refine .inr ⟨⟨shows.recorded.symm.trans same, ?_⟩, rfl⟩
      rw [← shows.live]
      exact Host.up_any.mp (running rfl)
  · exact replaces

theorem run_deploys (loaded : site.services.load d.service = some d)
    (shows : h.Shows d.service x) :
    Ends site (OnOk fun _ => Deploys d sha x h) (Deploy.run d.service sha).run h := by
  refine loadDef_spec.read_ends fun d' loaded' => ?_
  cases loaded.symm.trans loaded'
  exact deployService_deploys (Services.load_mem loaded) shows

theorem runStartInactive_starts (loaded : site.services.load d.service = some d)
    (shows : h.Shows d.service x) :
    Ends site (OnOk fun b h' => b = flip x.active ∧ h'.Shows d.service (x.start (d.healthy sha)))
      (runStartInactive d.service sha).run h := by
  refine loadDef_spec.read_ends fun d' loaded' => ?_
  cases loaded.symm.trans loaded'
  refine (Spec.frame (P := reads) preflight_only).read_ends fun _ _ => ?_
  refine (Spec.frame (P := reads) ensureNetwork_only).read_ends fun _ _ => ?_
  refine readActive_reads shows ?_
  exact ok_ends (startInactive_starts shows) fun _ _ started => ⟨rfl, started⟩

theorem promote_takes (hd : d ∈ site.services.defs) (shows : h.Shows d.service x) :
    Ends site (OnOk fun _ h' => h'.Settles d.service (x.replace d sha) ∨
        x.SpareRuns d sha ∧ h'.Settles d.service (x.switch sha))
      (promote d sha x.active).run h := by
  refine containerRunsImage_spec.read_ends fun runs inspected => ?_
  obtain ⟨_, seen, spare⟩ := inspected
  cases seen
  cases runs with
  | true =>
    obtain ⟨k, slot, fits⟩ := spare rfl
    refine (cutover_switches hd shows).post fun _ _ done => done.mono fun _ settles => ?_
    exact .inr ⟨⟨k, shows.spare.symm.trans slot, fits⟩, settles⟩
  | false => exact (redeploy_replaces hd shows).post fun _ _ done => done.mono fun _ => .inl

/-! ### The previews of a service -/

theorem Host.Shows.picks (shows : h.Shows s x) : x.Picks (h.preview s) := by
  cases found : h.preview s with
  | none =>
    show x.rows = []
    rw [← shows.rows, Host.rows, List.filter_eq_nil_iff]
    intro row mem
    exact List.find?_eq_none.mp found row ((List.mem_insertionSort _).mpr mem)
  | some row =>
    show row ∈ x.rows
    rw [← shows.rows]
    have listed : (h.db.previewRows.insertionSort (·.service ≤ ·.service)).find?
        (·.service == s) = some row := found
    have own := List.find?_some listed
    refine List.mem_filter.mpr ⟨?_, own⟩
    exact (List.mem_insertionSort _).mp (List.mem_of_find?_eq_some listed)

theorem reloadProxies_settles (hd : d ∈ site.services.defs) (shows : h.Shows d.service x) :
    Ends site (OnOk fun _ h' => h'.Settles d.service x) reloadProxies.run h := by
  refine ok_ends (applyAll_settles hd shows) fun _ h₁ settles => ?_
  refine frame_ends (P := quiets) generateAndReload_only fun h₂ same => ?_
  exact settles.keep same (by simp) (by simp) (by simp) (by simp) (by simp)

theorem dropPreview_unstages (hd : d ∈ site.services.defs) (shows : h.Shows d.service x) :
    Ends site (OnOk fun _ h' => h'.Shows d.service x.unstage ∧
        (h.Settles d.service x → h'.Settles d.service x.unstage))
      (Cli.dropPreview d.service).run h := by
  refine deletePreview_spec.ok_ends fun deleted h₁ same rows => ?_
  have shows₁ : h₁.Shows d.service x.unstage := {
    active := (same.active (by simp)).trans shows.active
    sha := (same.sha (by simp)).trans shows.sha
    live := (same.slot (by simp)).trans shows.live
    spare := (same.slot (by simp)).trans shows.spare
    rows := by
      rw [Host.rows, show h₁.db.previewRows = _ from rows, List.filter_filter]
      exact List.filter_eq_nil_iff.mpr (by simp) }
  split
  · exact (reloadProxies_settles hd shows₁).post
      fun _ _ done => done.mono fun _ settles => ⟨settles.toShows, fun _ => settles⟩
  · exact ⟨shows₁, fun settles =>
      ⟨shows₁, (same.routed (by simp)).trans settles.routed⟩⟩

/-! ### The operations -/

/-- The operation has done its move, and if it has changed the color, Caddy follows it. -/
def Moved (d : ServiceDef) (images : List LocalImage) (x : Stage) (op : Operation) (h' : Host) :
    Prop :=
  ∃ x', h'.Shows d.service x' ∧ x.Moves d images x' op ∧
    (x'.active ≠ x.active → h'.Settles d.service x')

variable {images : List LocalImage} {op : Operation} {x' : Stage}

theorem Host.Settles.moved (settles : h.Settles d.service x') (moves : x.Moves d images x' op) :
    Moved d images x op h := ⟨x', settles.toShows, moves, fun _ => settles⟩

theorem Host.Shows.moved (shows : h.Shows d.service x') (moves : x.Moves d images x' op)
    (kept : x'.active = x.active) : Moved d images x op h :=
  ⟨x', shows, moves, fun turned => absurd kept turned⟩

theorem Moved.keep (moved : Moved d images x op h) (same : h.SameBut P h')
    (color : ¬ P (.color d.service)) (sha : ¬ P (.sha d.service))
    (slot : ∀ c, ¬ P (.container (containerName d.service c))) (previews : ¬ P .previews)
    (loaded : ¬ P .loaded) : Moved d images x op h' := by
  obtain ⟨x', shows, moves, turned⟩ := moved
  refine ⟨x', shows.keep same color sha slot previews, moves, fun ne => ?_⟩
  exact (turned ne).keep same color sha slot previews loaded

theorem withLock_moves {body : Result Unit} {refusal : String → String}
    (shows : h.Shows d.service x)
    (run : ∀ h₁, h₁.Shows d.service x → h₁.localImages d.service = h.localImages d.service →
      Ends site (OnOk fun _ => Moved d (h.localImages d.service) x op) body.run h₁) :
    Ends site (OnOk fun _ => Moved d (h.localImages d.service) x op)
      (withLock d.service refusal body).run h := by
  refine withLock_ends (fun h₁ same => run h₁ ?_ (same.localImages (by simp))) ?_
  · exact shows.keep same (by simp) (by simp) (by simp) (by simp)
  · exact fun _ _ _ same moved => moved.keep same (by simp) (by simp) (by simp) (by simp) (by simp)

theorem deploy_moves (loaded : site.services.load d.service = some d) (shows : h.Shows d.service x) :
    Ends site (OnOk fun _ => Moved d (h.localImages d.service) x (.deploy d.service sha))
      (Cli.deploy d.service sha).run h := by
  refine withLock_moves shows fun h₁ shows _ => (run_deploys loaded shows).post fun _ h₂ done => ?_
  refine done.mono fun _ done => ?_
  rcases done with settles | ⟨serves, left⟩
  · exact settles.moved (.inl rfl)
  · rw [left]
    exact shows.moved (.inr ⟨serves, rfl⟩) rfl

theorem deployPreview_moves {flag : Option String} (loaded : site.services.load d.service = some d)
    (shows : h.Shows d.service x) :
    Ends site (OnOk fun _ => Moved d (h.localImages d.service) x (.deployPreview d.service sha flag))
      (Cli.deployPreview d.service sha flag).run h := by
  refine withLock_moves shows fun h₁ shows _ => ?_
  refine loadService_spec.read_ends fun d' loaded' => ?_
  cases loaded.symm.trans loaded'
  refine ofExcept_safe (fun port resolved => ?_) fun _ => trivial
  refine ok_ends (runStartInactive_starts loaded shows) fun b h₂ started => ?_
  obtain ⟨rfl, shows⟩ := started
  refine (Spec.frame (P := reads) connect_only).read_ends fun _ _ => ?_
  refine (Spec.frame (P := fun p => p = .nothing ∨ p = .tables) init_only).ok_ends
    fun _ h₃ same _ => ?_
  have shows := shows.keep same (by simp) (by simp) (by simp) (by simp)
  refine upsertPreview_spec.ok_ends fun _ h₄ same rows => ?_
  refine (reloadProxies_settles (x := x.stage d sha port) (Services.load_mem loaded) {
    active := (same.active (by simp)).trans shows.active
    sha := (same.sha (by simp)).trans shows.sha
    live := (same.slot (by simp)).trans shows.live
    spare := (same.slot (by simp)).trans shows.spare
    rows := ?_ }).post ?_
  · rw [Host.rows, show h₄.db.previewRows = _ from rows, List.filter_append, List.filter_filter,
      List.filter_eq_nil_iff.mpr (by simp [Cli.previewRecord])]
    simp [Cli.previewRecord, Stage.stage]
  · exact fun _ _ done => done.mono fun _ settles => settles.moved ⟨port, resolved, rfl⟩

theorem runCutover_cuts {shaOpt : Option String} {row : Option PreviewRecord}
    (loaded : site.services.load d.service = some d) (shows : h.Shows d.service x)
    (picks : x.Picks row) :
    Ends site (OnOk fun _ h' => ∃ y,
        Stage.Cuts d (h.localImages d.service) x shaOpt y.unstage ∧ h'.Shows d.service y ∧
          (y.active ≠ x.active → h'.Settles d.service y))
      (runCutover d.service shaOpt (row.map (·.sha))).run h := by
  have hd := Services.load_mem loaded
  refine loadDef_spec.read_ends fun d' loaded' => ?_
  cases loaded.symm.trans loaded'
  refine readActive_reads shows ?_
  refine previewStaged_spec.read_ends fun staged inspected => ?_
  obtain ⟨_, seen, spare⟩ := inspected
  cases seen
  refine listLocal_spec.read_ends fun listed same => ?_
  cases (show listed = _ from same)
  refine containerImageTag_spec.read_ends fun tag inspected => ?_
  obtain ⟨_, seen, live⟩ := inspected
  cases seen
  split
  · next sha plan =>
    obtain ⟨on, staging, resolved⟩ := planCutover_staged plan
    obtain ⟨p, was, k, slot, fits⟩ := spare on
    cases staging.symm.trans was
    refine (cutover_switches hd shows).post fun _ _ done => done.mono fun _ settles => ?_
    refine ⟨_, ?_, settles.toShows, fun _ => settles⟩
    exact .promoted picks resolved ⟨k, shows.spare.symm.trans slot, fits⟩
  · next sha plan =>
    have resolved := planCutover_promote plan
    refine (promote_takes hd shows).post fun _ _ done => done.mono fun _ taken => ?_
    rcases taken with settles | ⟨runs, settles⟩
    · refine ⟨_, .replaced picks ?_ resolved, settles.toShows, fun _ => settles⟩
      rintro rfl
      exact Option.map_eq_none_iff.mp (planCutover_newest plan).1
    · exact ⟨_, .promoted picks resolved runs, settles.toShows, fun _ => settles⟩
  · next plan =>
    obtain ⟨noSha, noPreview, newest, first, same⟩ := planCutover_nothingNewer plan
    cases Option.map_eq_none_iff.mp noPreview
    have none : x.rows = [] := picks
    refine ⟨x, ?_, shows, fun turned => absurd rfl turned⟩
    have kept : x.unstage = x := by rw [Stage.unstage, ← none]
    rw [kept]
    cases tag with
    | none => exact absurd same (Images.localImages_tag_ne (List.mem_of_mem_head? first))
    | some i =>
      obtain ⟨k, slot, image⟩ := live i rfl
      exact .current noSha none first (shows.live.symm.trans slot) (image.trans same.symm)
  · trivial
  · trivial

theorem cutover_moves {shaOpt : Option String} (loaded : site.services.load d.service = some d)
    (shows : h.Shows d.service x) :
    Ends site (OnOk fun _ => Moved d (h.localImages d.service) x (.cutover d.service shaOpt))
      (Cli.cutover d.service shaOpt).run h := by
  refine withLock_moves shows fun h₁ shows images => ?_
  refine (Spec.frame (P := reads) connect_only).read_ends fun _ _ => ?_
  refine (Spec.frame (P := fun p => p = .nothing ∨ p = .tables) init_only).ok_ends
    fun _ h₂ same _ => ?_
  have shows := shows.keep same (by simp) (by simp) (by simp) (by simp)
  rw [← images, ← same.localImages (by simp)]
  refine findPreview_spec.read_ends fun row found => ?_
  cases (show row = _ from found)
  refine ok_ends (runCutover_cuts loaded shows shows.picks) fun _ h₃ done => ?_
  obtain ⟨y, cuts, shows, turned⟩ := done
  refine (dropPreview_unstages (Services.load_mem loaded) shows).post
    fun _ h₄ dropped => dropped.mono fun _ dropped => ?_
  exact ⟨_, dropped.1, cuts, fun ne => dropped.2 (turned ne)⟩

theorem runCancelInactive_clears (loaded : site.services.load d.service = some d)
    (shows : h.Shows d.service x) :
    Ends site (OnOk fun _ h' => h'.Shows d.service { x with spare := none })
      (runCancelInactive d.service).run h := by
  refine loadDef_spec.read_ends fun d' loaded' => ?_
  cases loaded.symm.trans loaded'
  refine readActive_reads shows ?_
  refine (Spec.frame (P := touches _) stopContainer_only).ok_ends fun _ h₁ stopped _ => ?_
  refine removeContainerIfExists_spec.ok_ends fun _ h₂ removed gone => ?_
  refine frame_ends (P := quiets) prune_only fun h₃ pruned => ?_
  have gone : h₂.slot d.service (flip x.active) = none := gone
  rw [← gone]
  exact (shows.withSpare (stopped.trans removed)).keep pruned (by simp) (by simp) (by simp) (by simp)

theorem cancelPreview_moves (loaded : site.services.load d.service = some d)
    (shows : h.Shows d.service x) :
    Ends site (OnOk fun _ => Moved d (h.localImages d.service) x (.cancelPreview d.service))
      (Cli.cancelPreview d.service).run h := by
  refine withLock_moves shows fun h₁ shows _ => ?_
  refine ok_ends (runCancelInactive_clears loaded shows) fun _ h₂ shows => ?_
  refine (Spec.frame (P := reads) connect_only).read_ends fun _ _ => ?_
  refine (Spec.frame (P := fun p => p = .nothing ∨ p = .tables) init_only).ok_ends
    fun _ h₃ same _ => ?_
  have shows := shows.keep same (by simp) (by simp) (by simp) (by simp)
  exact (dropPreview_unstages (Services.load_mem loaded) shows).post
    fun _ _ dropped => dropped.mono fun _ dropped => dropped.1.moved rfl rfl

theorem recreate_renews (loaded : site.services.load d.service = some d)
    (shows : h.Shows d.service x) :
    Ends site (OnOk fun _ h' => ∃ sha, x.recorded = some sha ∧ h'.Shows d.service
        { x with live := some { image := d.imageRef sha, running := true } })
      (recreateActiveContainer d.service).run h := by
  refine loadService_spec.read_ends fun d' loaded' => ?_
  cases loaded.symm.trans loaded'
  refine colorOrBlue_spec.read_ends fun color same => ?_
  have color : color = x.active := by
    rw [show color = _ from same, Host.colorOf, shows.active, Option.getD_some]
  subst color
  refine readActiveSha_spec.read_ends fun recorded read => ?_
  cases read
  split
  · trivial
  · next sha recorded =>
    refine (Spec.frame (P := touches _) removeContainerIfExists_only).ok_ends fun _ h₁ removed _ => ?_
    refine startContainer_spec.ok_ends fun _ h₂ started up => ?_
    have up : h₂.slot d.service x.active = some { image := d.imageRef sha, running := true } := up
    have renewed := shows.withLive (removed.trans started)
    rw [up] at renewed
    refine (Spec.frame (P := reloads) (attempt_only applyAll_only)).ok_ends fun _ h₃ same _ => ?_
    refine context_ends fun _ _ => ⟨sha, shows.recorded.symm.trans recorded, ?_⟩
    exact renewed.keep same (by simp) (by simp) (by simp) (by simp)

theorem finishRollback_switches (hd : d ∈ site.services.defs) (shows : h.Shows d.service x)
    (spare : x.spare = some k) :
    Ends site (OnOk fun _ h' =>
        h'.Settles d.service ((x.start { k with healthPassed := true }).switch sha))
      (Ui.finishRollback d d.service (flip x.active) sha).run h := by
  refine (attempt_spec pollHealth_spec).ok_ends fun polled h₁ same passed => ?_
  cases polled with
  | error e => exact after_ends fun _ _ => trivial
  | ok =>
    obtain ⟨k', found, -, left⟩ := passed
    cases (shows.spare.trans spare).symm.trans found
    have left : h₁.slot d.service (flip x.active) = some { k with healthPassed := true } := left
    have started := shows.withSpare same
    rw [left] at started
    refine record_turns started fun h₂ shows => ?_
    refine Safe.liftE (applyAll_settles hd shows) fun applied h₃ settles => ?_
    cases applied with
    | error e => trivial
    | ok =>
      rw [flip_flip]
      exact stopOld_switches settles

theorem doRollback_switches (hd : d ∈ site.services.defs) (shows : h.Shows d.service x) :
    Ends site (OnOk fun _ h' => ∃ k, x.spare = some k ∧ k.running = false ∧
        h'.Settles d.service ((x.start k.restarted).switch (Ui.prevSha d.service k.image)))
      (Ui.doRollback d d.service (flip x.active)).run h := by
  refine call_ends fun info h₁ step => ?_
  cases reads_step step rfl
  cases info with
  | error e => trivial
  | ok info =>
    obtain ⟨k, found, rfl⟩ := inspect_step_ok step
    have spare : x.spare = some k := shows.spare.symm.trans found
    dsimp only
    split
    · trivial
    · next down =>
      refine call_ends fun started h₂ step => context_ends fun _ ok => ?_
      subst ok
      have same : h.SameBut (touches (containerName d.service (flip x.active))) h₂ :=
        steps_sameBut step (.inr rfl)
      obtain ⟨_, ans⟩ := docker_step step
      obtain ⟨k', found', put⟩ := Docker.answer_startContainer ans
      cases found.symm.trans found'
      have up : h₂.slot d.service (flip x.active) =
          some { k with running := true, healthPassed := false } := by
        rw [Host.slot, put, Docker.Daemon.put_same]
      have started := shows.withSpare same
      rw [up] at started
      refine (finishRollback_switches hd started rfl).post fun _ _ done =>
        done.mono fun _ settles => ⟨k, spare, Bool.eq_false_of_not_eq_true down, settles⟩

theorem runRollback_moves (loaded : site.services.load d.service = some d)
    (shows : h.Shows d.service x) :
    Ends site (OnOk fun _ => Moved d (h.localImages d.service) x (.dashboardRollback d.service))
      (Ui.runRollback d.service).run h := by
  refine withLock_moves shows fun h₁ shows _ => ?_
  refine (attempt_spec loadService_spec).read_ends fun found loaded' => ?_
  refine context_ends fun d' same => ?_
  subst same
  cases loaded.symm.trans loaded'
  refine readActive_reads shows ?_
  refine (doRollback_switches (Services.load_mem loaded) shows).post
    fun _ _ done => done.mono fun _ done => ?_
  obtain ⟨k, spare, down, settles⟩ := done
  exact settles.moved ⟨k, spare, down, rfl⟩

theorem mcpRollback_moves (loaded : site.services.load d.service = some d)
    (shows : h.Shows d.service x) :
    Ends site (OnOk fun _ => Moved d (h.localImages d.service) x (.mcpRollback d.service))
      (Mcp.rollback d.service).run h := by
  refine (attempt_spec loadService_spec).read_ends fun found _ => ?_
  refine context_ends fun _ _ => ?_
  refine readActiveSha_spec.read_ends fun recorded read => ?_
  cases read
  refine listLocal_spec.read_ends fun listed same => ?_
  cases (show listed = _ from same)
  split
  · trivial
  · next i found =>
    have mem : i ∈ h.localImages d.service := List.mem_of_find?_eq_some found
    have other : x.recorded ≠ some i.sha := by
      have differs := List.find?_some found
      rwa [shows.recorded, decide_eq_true_eq] at differs
    refine (run_deploys loaded shows).post fun _ _ done => done.mono fun _ done => ?_
    rcases done with settles | ⟨serves, -⟩
    · exact settles.moved ⟨i, mem, other, rfl⟩
    · exact absurd serves.1 other

theorem recreate_moves (loaded : site.services.load d.service = some d)
    (shows : h.Shows d.service x) :
    Ends site (OnOk fun _ => Moved d (h.localImages d.service) x (.recreate d.service))
      (Cli.recreate d.service).run h := by
  refine ok_ends (recreate_renews loaded shows) fun _ h₁ renewed => ?_
  obtain ⟨sha, recorded, shows⟩ := renewed
  exact shows.moved ⟨sha, recorded, rfl⟩ rfl

theorem restartService_moves (loaded : site.services.load d.service = some d)
    (shows : h.Shows d.service x) :
    Ends site (OnOk fun _ => Moved d (h.localImages d.service) x (.restartService d.service))
      (Mcp.restartService d.service).run h := by
  refine Safe.liftE (recreate_renews loaded shows) fun r h₁ renewed => ?_
  cases r with
  | error e => trivial
  | ok =>
    obtain ⟨sha, recorded, shows⟩ := renewed
    exact shows.moved ⟨sha, recorded, rfl⟩ rfl

theorem Operation.moves (loaded : site.services.load d.service = some d)
    (shows : h.Shows d.service x) (named : op.service = some d.service) :
    Ends site (OnOk fun _ => Moved d (h.localImages d.service) x op) op.perform h := by
  cases op with
  | deploy => cases named; exact deploy_moves loaded shows
  | deployPreview => cases named; exact deployPreview_moves loaded shows
  | cutover => cases named; exact cutover_moves loaded shows
  | cancelPreview => cases named; exact cancelPreview_moves loaded shows
  | recreate => cases named; exact recreate_moves loaded shows
  | dashboardRollback => cases named; exact runRollback_moves loaded shows
  | mcpRollback => cases named; exact mcpRollback_moves loaded shows
  | restartService => cases named; exact restartService_moves loaded shows
  | _ => cases named

/-! ### Runs -/

namespace Stage

/-- The operations of the log that name the service. -/
theorem Follows.skip {mid : List (Operation × Except String Unit)}
    (others : ∀ e ∈ mid, e.1.service ≠ some d.service) (follows : Follows d x₀ (mid ++ log) x) :
    Follows d x₀ log x := by
  induction mid with
  | nil => exact follows
  | cons e mid ih =>
    cases follows with
    | own before named moves => exact absurd named (others _ List.mem_cons_self)
    | other before unnamed => exact ih (fun e he => others e (List.mem_cons_of_mem _ he)) before

/-- The last operation of a log. -/
theorem Follows.last {r : Except String Unit} (named : op.service = some d.service)
    (follows : Follows d x₀ ((op, r) :: log) x) :
    ∃ y images, Follows d x₀ log y ∧ y.Moves d images x op := by
  cases follows with
  | own before named moves => exact ⟨_, _, before, moves⟩
  | other before unnamed => exact absurd named unnamed

theorem Follows.start (follows : Follows d x₀ [] x) : x = x₀ := by
  cases follows
  rfl

end Stage

theorem Operation.leaves {r : Except String Unit} (unnamed : op.service ≠ some s)
    (run : Finishes (steps site) op.perform h r h') : h.Same s h' := by
  have spares : Safe (steps site) (fun c _ _ _ => c.Spares s) (fun _ _ => True) op.perform h :=
    (op.keepsOff unnamed).restrict (le_among fun _ => trivial)
  exact ((spares.carry (Host.Same.refl s h) fun _ _ _ _ step spares same =>
    same.trans (spares.same step)).finishes run).2

/-- The host follows the moves of the operations on a service that succeed; those that do not name
it may fail. -/
theorem serial_follows (loaded : site.services.load d.service = some d)
    (shows : h₀.Shows d.service x₀)
    (run : Serial (steps site) Operation.perform (fun _ _ => True) h₀ log h)
    (ok : ∀ e ∈ log, e.1.service = some d.service → e.2 = .ok ()) :
    ∃ x, h.Shows d.service x ∧ Stage.Follows d x₀ log x := by
  induction run with
  | nil => exact ⟨x₀, shows, .nil⟩
  | @cons log h₁ op r h₂ before _ last ih =>
    obtain ⟨x, shows, follows⟩ := ih fun e he => ok e (List.mem_cons_of_mem _ he)
    by_cases named : op.service = some d.service
    · have done := ok _ List.mem_cons_self named
      subst done
      obtain ⟨x', shows', moves, -⟩ := (op.moves loaded shows named).finishes last
      exact ⟨x', shows', follows.own named moves⟩
    · exact ⟨x, shows.same (op.leaves named last), follows.other named⟩

end Codery
