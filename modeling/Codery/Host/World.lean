import Codery.Effect.Safety
import Codery.Host.StateDir
import Codery.Host.Database
import Codery.Host.Proxy

/-! The host the orchestrator runs on, and every call it can make on it. -/

namespace Codery

open Effect

structure Host where
  docker : Docker.Daemon
  state : StateDir
  db : Database := {}
  proxy : Proxy := {}
  /-- The services whose deploy lock is held. -/
  locks : String → Bool := fun _ => false

inductive Call
  | docker (c : Docker.Call)
  | state (c : StateDir.Call)
  | db (c : Database.Call)
  | proxy (c : Proxy.Call)
  | tryAcquire (service : String)
  | release (service : String)
  | preflight
  | loadService (service : String)
  | loadAll
  | loadStaticRoutes
  | loadDomain
  /-- The env variables, bind mounts and volumes `check_deploy` looks at. -/
  | checkHost (d : ServiceDef)
  | bindHostPort (port : UInt16)
  /-- The environment, port bindings and mounts `start_container` computes. -/
  | containerSettings (d : ServiceDef) (color : Color)
  | syncS6 (apps : List AppRecord)
  | listeningPorts

@[reducible] def Call.Reply : Call → Type
  | .docker c => c.Reply
  | .state c => c.Reply
  | .db c => c.Reply
  | .proxy c => c.Reply
  | .tryAcquire _ => Except String Unit
  | .release _ => Unit
  | .preflight => Except String Unit
  | .loadService _ => Except String ServiceDef
  | .loadAll => Except String (List ServiceDef)
  | .loadStaticRoutes => Except String (List StaticRoute)
  | .loadDomain => String
  | .checkHost _ => List String
  | .bindHostPort _ => Bool
  | .containerSettings _ _ => Except String Unit
  | .syncS6 _ => Except String Unit
  | .listeningPorts => List UInt16

/-- The names `try_acquire` accepts.  Which characters beyond ASCII are alphanumeric is left open:
there the call may succeed or fail. -/
def lockName (service : String) : Bool :=
  service != "" && service.toList.all fun c =>
    128 ≤ c.toNat || c.isAlphanum || c == '-' || c == '_'

def Host.acquire (h : Host) (service : String) : Except String Unit × Host :=
  if lockName service = false then
    (.error ("invalid service name for lock: \"" ++ service ++ "\""), h)
  else if h.locks service then (.error "deploy already in progress", h)
  else (.ok (), { h with locks := Function.update h.locks service true })

def Site.load (site : Site) (service : String) : Except String ServiceDef :=
  match site.services.load service with
  | some d => .ok d
  | none => .error ("failed to read service definition at " ++ servicesDir ++ "/" ++ service ++ ".yml")

/-- A running container of the site's services publishes the port. -/
def Host.publishes (h : Host) (site : Site) (q : UInt16) : Bool :=
  site.services.defs.any fun d => [Color.blue, .green].any fun c =>
    (h.docker.containers (containerName d.service c)).any (·.running) && (d.hostPorts c).contains q

def Call.answer (site : Site) : (c : Call) → Choice → Host → Option (c.Reply × Host)
  | .docker c, o, h => (c.answer o h.docker).map fun x => (x.1, { h with docker := x.2 })
  | .state c, o, h => (c.answer o h.state).map fun x => (x.1, { h with state := x.2 })
  | .db c, o, h => (c.answer o h.db).map fun x => (x.1, { h with db := x.2 })
  | .proxy c, o, h => (c.answer o h.proxy).map fun x => (x.1, { h with proxy := x.2 })
  | .tryAcquire s, o, h => o.fallible (h.acquire s) (.error "failed to open lock file", h)
  | .release s, .ok, h => some ((), { h with locks := Function.update h.locks s false })
  | .release _, _, _ => none
  | .preflight, o, h => o.fallible (.ok (), h) (.error "[preflight] failed", h)
  | .loadService s, o, h => o.fallible (site.load s, h) (.error "failed to parse", h)
  | .loadAll, o, h => o.fallible (.ok site.services.defs, h) (.error "failed to read", h)
  | .loadStaticRoutes, o, h => o.fallible (.ok site.staticRoutes, h) (.error "failed to parse", h)
  | .loadDomain, .ok, h => some (site.domain, h)
  | .loadDomain, _, _ => none
  | .checkHost _, .ok, h => some ([], h)
  | .checkHost _, .output e, h => some ([e], h)
  | .checkHost _, _, _ => none
  -- nothing else can listen where a container does
  | .bindHostPort q, .ok, h => if h.publishes site q then none else some (true, h)
  | .bindHostPort _, .fail, h => some (false, h)
  | .bindHostPort _, _, _ => none
  | .containerSettings _ _, o, h => o.fallible (.ok (), h) (.error "failed to read .env", h)
  | .syncS6 _, o, h => o.fallible (.ok (), h) (.error "failed to create", h)
  | .listeningPorts, .bound ports, h => some (ports, h)
  | .listeningPorts, _, _ => none

abbrev sig : Signature.{0} := ⟨Call, Call.Reply⟩

/-- Every choice is open to the environment. -/
def anyChoice : Call → Choice → Bool := fun _ _ => true

abbrev steps (site : Site) : StepRel sig Host := handler (Call.answer site) anyChoice

/-- A fallible program of the orchestrator: `anyhow::Result`, with the outermost message. -/
abbrev Result (α : Type) := ExceptT String (Prog sig) α

def call (c : Call) : Result c.Reply := ExceptT.lift (ask (S := sig) c)

/-- Run `x` and return what it returned, an error included. -/
def attempt (x : Result α) : Result (Except String α) := ExceptT.lift x.run

/-- `?`, on a result already at hand. -/
def ofExcept : Except String α → Result α := fun x => ExceptT.mk (pure x)

/-- `.with_context(..)?`. -/
def context (message : String) : Except ε α → Result α
  | .ok a => pure a
  | .error _ => throw message

/-! ### The part of the host a call may change -/

inductive Part
  | nothing
  | container (name : String)
  | images
  | color (service : String)
  | sha (service : String)
  | tables
  | previews
  | caddyfile
  | loaded
  | nginx
  | lock (service : String)
  deriving DecidableEq

def Docker.Call.part : Docker.Call → Part
  | .inspectHealth n => .container n
  | .execTcpProbe n _ => .container n
  | .createContainer n _ => .container n
  | .startContainer n => .container n
  | .stopContainer n => .container n
  | .removeContainer n => .container n
  | .pullIfMissing _ => .images
  | .removeImage _ => .images
  | _ => .nothing

def StateDir.Call.part : StateDir.Call → Part
  | .writeColor s _ => .color s
  | .writeSha s _ => .sha s
  | _ => .nothing

def Database.Call.part : Database.Call → Part
  | .open => .nothing
  | .selectApps => .nothing
  | .countPort _ => .nothing
  | .selectPreviews => .nothing
  | .upsertPreview _ => .previews
  | .deletePreview _ => .previews
  | _ => .tables

def Proxy.Call.part : Proxy.Call → Part
  | .writeCaddyfile _ => .caddyfile
  | .reloadCaddy => .loaded
  | .nginxExists => .nothing
  | .writeNginx _ => .nginx

def Call.part : Call → Part
  | .docker c => c.part
  | .state c => c.part
  | .db c => c.part
  | .proxy c => c.part
  | .tryAcquire s => .lock s
  | .release s => .lock s
  | _ => .nothing

/-- Parts no recorded state, container, preview or route depends on. -/
@[simp] def Part.quiet : Part → Bool
  | .nothing => true
  | .images => true
  | .tables => true
  | .nginx => true
  | _ => false

/-! ### Frames: everything else is unchanged -/

section Frames

variable {site : Site} {o : Choice} {h h' : Host}

/-- A call changes at most the component it is addressed to, and otherwise the locks. -/
structure Frame (c : Call) (h h' : Host) : Prop where
  docker : (∀ d, c ≠ .docker d) → h'.docker = h.docker
  state : (∀ d, c ≠ .state d) → h'.state = h.state
  db : (∀ d, c ≠ .db d) → h'.db = h.db
  proxy : (∀ d, c ≠ .proxy d) → h'.proxy = h.proxy
  locks : (∀ s, c ≠ .tryAcquire s ∧ c ≠ .release s) → h'.locks = h.locks

theorem Frame.refl (c : Call) (h : Host) : Frame c h h :=
  ⟨fun _ => rfl, fun _ => rfl, fun _ => rfl, fun _ => rfl, fun _ => rfl⟩

theorem acquire_some {s : String} {x : Except String Unit × Host} (hx : h.acquire s = x) :
    (∃ e, x = (.error e, h)) ∨
      h.locks s = false ∧ x = (.ok (), { h with locks := Function.update h.locks s true }) := by
  subst hx
  unfold Host.acquire
  split
  · exact .inl ⟨_, rfl⟩
  · split
    · exact .inl ⟨_, rfl⟩
    · next free => exact .inr ⟨by simpa using free, rfl⟩

theorem answer_tryAcquire {s : String} {r : Except String Unit}
    (ans : (Call.tryAcquire s).answer site o h = some (r, h')) :
    (∃ e, r = .error e) ∧ h' = h ∨ r = .ok () ∧ h.locks s = false ∧
      h' = { h with locks := Function.update h.locks s true } := by
  rcases Docker.fallible_some ans with same | same
  · rcases acquire_some same.symm with ⟨e, eq⟩ | ⟨free, eq⟩ <;> cases eq
    · exact .inl ⟨⟨e, rfl⟩, rfl⟩
    · exact .inr ⟨rfl, free, rfl⟩
  · cases same
    exact .inl ⟨⟨_, rfl⟩, rfl⟩

theorem answer_bindHostPort {q : UInt16} {free : Bool}
    (ans : (Call.bindHostPort q).answer site o h = some (free, h')) :
    h' = h ∧ (o = .ok ∧ free = true ∧ h.publishes site q = false ∨ o = .fail ∧ free = false) := by
  cases o with
  | ok =>
    simp only [Call.answer, Option.ite_none_left_eq_some, Option.some.injEq, Prod.mk.injEq] at ans
    exact ⟨ans.2.2.symm, .inl ⟨rfl, ans.2.1.symm, Bool.eq_false_iff.mpr ans.1⟩⟩
  | fail =>
    cases ans
    exact ⟨rfl, .inr ⟨rfl, rfl⟩⟩
  | _ => cases ans

theorem answer_frame {c : Call} {r : c.Reply} (ans : c.answer site o h = some (r, h')) :
    Frame c h h' := by
  cases c with
  | docker d =>
    obtain ⟨x, _, same⟩ := Option.map_eq_some_iff.mp ans
    cases same
    exact ⟨fun no => absurd rfl (no d), fun _ => rfl, fun _ => rfl, fun _ => rfl, fun _ => rfl⟩
  | state d =>
    obtain ⟨x, _, same⟩ := Option.map_eq_some_iff.mp ans
    cases same
    exact ⟨fun _ => rfl, fun no => absurd rfl (no d), fun _ => rfl, fun _ => rfl, fun _ => rfl⟩
  | db d =>
    obtain ⟨x, _, same⟩ := Option.map_eq_some_iff.mp ans
    cases same
    exact ⟨fun _ => rfl, fun _ => rfl, fun no => absurd rfl (no d), fun _ => rfl, fun _ => rfl⟩
  | proxy d =>
    obtain ⟨x, _, same⟩ := Option.map_eq_some_iff.mp ans
    cases same
    exact ⟨fun _ => rfl, fun _ => rfl, fun _ => rfl, fun no => absurd rfl (no d), fun _ => rfl⟩
  | tryAcquire s =>
    rcases answer_tryAcquire ans with ⟨_, same⟩ | ⟨_, _, same⟩ <;> subst same
    · exact .refl _ _
    · exact ⟨fun _ => rfl, fun _ => rfl, fun _ => rfl, fun _ => rfl,
        fun no => absurd rfl (no s).1⟩
  | release s =>
    cases o <;> cases ans
    exact ⟨fun _ => rfl, fun _ => rfl, fun _ => rfl, fun _ => rfl, fun no => absurd rfl (no s).2⟩
  | preflight | loadService | loadAll | loadStaticRoutes | containerSettings | syncS6 =>
    rcases Docker.fallible_some ans with same | same <;> cases same <;> exact .refl _ _
  | bindHostPort =>
    rw [(answer_bindHostPort ans).1]
    exact .refl _ _
  | loadDomain | checkHost | listeningPorts => cases o <;> cases ans <;> exact .refl _ _

/-- The answer of a component, behind the call addressed to it. -/
theorem answer_docker {d : Docker.Call} {r : d.Reply}
    (ans : (Call.docker d).answer site o h = some (r, h')) :
    d.answer o h.docker = some (r, h'.docker) ∧ h' = { h with docker := h'.docker } := by
  obtain ⟨x, hx, same⟩ := Option.map_eq_some_iff.mp ans
  cases same
  exact ⟨hx, rfl⟩

theorem answer_state {d : StateDir.Call} {r : d.Reply}
    (ans : (Call.state d).answer site o h = some (r, h')) :
    d.answer o h.state = some (r, h'.state) ∧ h' = { h with state := h'.state } := by
  obtain ⟨x, hx, same⟩ := Option.map_eq_some_iff.mp ans
  cases same
  exact ⟨hx, rfl⟩

theorem answer_db {d : Database.Call} {r : d.Reply}
    (ans : (Call.db d).answer site o h = some (r, h')) :
    d.answer o h.db = some (r, h'.db) ∧ h' = { h with db := h'.db } := by
  obtain ⟨x, hx, same⟩ := Option.map_eq_some_iff.mp ans
  cases same
  exact ⟨hx, rfl⟩

theorem answer_proxy {d : Proxy.Call} {r : d.Reply}
    (ans : (Call.proxy d).answer site o h = some (r, h')) :
    d.answer o h.proxy = some (r, h'.proxy) ∧ h' = { h with proxy := h'.proxy } := by
  obtain ⟨x, hx, same⟩ := Option.map_eq_some_iff.mp ans
  cases same
  exact ⟨hx, rfl⟩

theorem part_docker {c : Docker.Call} {n : String} :
    c.part = .container n ↔ c.target = some n := by
  cases c <;> simp [Docker.Call.part, Docker.Call.target]

theorem frame_container {c : Call} {r : c.Reply} (ans : c.answer site o h = some (r, h'))
    {n : String} (hc : c.part ≠ .container n) :
    h'.docker.containers n = h.docker.containers n := by
  cases c with
  | docker d => exact Docker.answer_other (answer_docker ans).1 (mt part_docker.mpr hc)
  | _ => rw [(answer_frame ans).docker (by simp)]

theorem frame_color {c : Call} {r : c.Reply} (ans : c.answer site o h = some (r, h'))
    {s : String} (hc : c.part ≠ .color s) : h'.state.color s = h.state.color s := by
  cases c with
  | state d =>
    have ans := (answer_state ans).1
    cases d with
    | writeColor s' text =>
      have ne : s ≠ s' := fun same => hc (by rw [same]; rfl)
      rcases (StateDir.answer_writeColor ans).2 with ⟨_, same⟩ | ⟨_, same | ⟨t, same⟩⟩ <;>
        simp [same, ne]
    | writeSha s' text => rw [(StateDir.answer_writeSha ans).1]
    | readColor | readSha => rw [StateDir.answer_quiet ans (by exact id)]
  | _ => rw [(answer_frame ans).state (by simp)]

theorem frame_sha {c : Call} {r : c.Reply} (ans : c.answer site o h = some (r, h'))
    {s : String} (hc : c.part ≠ .sha s) : h'.state.sha s = h.state.sha s := by
  cases c with
  | state d =>
    have ans := (answer_state ans).1
    cases d with
    | writeColor s' text => rw [(StateDir.answer_writeColor ans).1]
    | writeSha s' text =>
      have ne : s ≠ s' := fun same => hc (by rw [same]; rfl)
      exact StateDir.answer_writeSha_other ans ne
    | readColor | readSha => rw [StateDir.answer_quiet ans (by exact id)]
  | _ => rw [(answer_frame ans).state (by simp)]

theorem frame_previews {c : Call} {r : c.Reply} (ans : c.answer site o h = some (r, h'))
    (hc : c.part ≠ .previews) : h'.db.previewRows = h.db.previewRows := by
  cases c with
  | db d =>
    have ans := (answer_db ans).1
    cases d with
    | createPreviews => exact Database.answer_createPreviews ans
    | upsertPreview | deletePreview => exact absurd rfl hc
    | _ => rw [Database.previewRows, Database.answer_previews ans (by exact id), Database.previewRows]
  | _ => rw [(answer_frame ans).db (by simp)]

theorem frame_loaded {c : Call} {r : c.Reply} (ans : c.answer site o h = some (r, h'))
    (hc : c.part ≠ .loaded) : h'.proxy.loaded = h.proxy.loaded := by
  cases c with
  | proxy d =>
    refine Proxy.answer_loaded (answer_proxy ans).1 fun same => hc ?_
    rw [same]
    rfl
  | _ => rw [(answer_frame ans).proxy (by simp)]

theorem frame_caddyfile {c : Call} {r : c.Reply} (ans : c.answer site o h = some (r, h'))
    (hc : c.part ≠ .caddyfile) : h'.proxy.caddyfile = h.proxy.caddyfile := by
  cases c with
  | proxy d =>
    refine Proxy.answer_caddyfile (answer_proxy ans).1 fun cfg same => hc ?_
    rw [same]
    rfl
  | _ => rw [(answer_frame ans).proxy (by simp)]

theorem frame_nginx {c : Call} {r : c.Reply} (ans : c.answer site o h = some (r, h'))
    (hc : c.part ≠ .nginx) : h'.proxy.nginx = h.proxy.nginx := by
  cases c with
  | proxy d =>
    refine Proxy.answer_nginx (answer_proxy ans).1 fun cfg same => hc ?_
    rw [same]
    rfl
  | _ => rw [(answer_frame ans).proxy (by simp)]

theorem frame_images {c : Call} {r : c.Reply} (ans : c.answer site o h = some (r, h'))
    (hc : c.part ≠ .images) : h'.docker.images = h.docker.images := by
  cases c with
  | docker d =>
    refine Docker.answer_images (answer_docker ans).1 (fun i same => hc ?_) fun i same => hc ?_
    · rw [same]
      rfl
    · rw [same]
      rfl
  | _ => rw [(answer_frame ans).docker (by simp)]

theorem frame_db {c : Call} {r : c.Reply} (ans : c.answer site o h = some (r, h'))
    (tables : c.part ≠ .tables) (previews : c.part ≠ .previews) : h'.db = h.db := by
  cases c with
  | db d =>
    cases d with
    | «open» | selectApps | countPort | selectPreviews =>
      exact Database.answer_reads (answer_db ans).1 trivial
    | upsertPreview | deletePreview => exact absurd rfl previews
    | _ => exact absurd rfl tables
  | _ => rw [(answer_frame ans).db (by simp)]

theorem frame_locks {c : Call} {r : c.Reply} (ans : c.answer site o h = some (r, h'))
    {s : String} (hc : c.part ≠ .lock s) : h'.locks s = h.locks s := by
  cases c with
  | tryAcquire s' =>
    have ne : s ≠ s' := fun same => hc (by rw [same]; rfl)
    rcases answer_tryAcquire ans with ⟨_, same⟩ | ⟨_, _, same⟩ <;> simp [same, ne]
  | release s' =>
    have ne : s ≠ s' := fun same => hc (by rw [same]; rfl)
    cases o <;> cases ans
    simp [ne]
  | _ => rw [(answer_frame ans).locks (by simp)]

/-- The two hosts differ at most in the parts `P` names. -/
structure Host.SameBut (P : Part → Prop) (h h' : Host) : Prop where
  container : ∀ {n}, ¬ P (.container n) → h'.docker.containers n = h.docker.containers n
  color : ∀ {s}, ¬ P (.color s) → h'.state.color s = h.state.color s
  sha : ∀ {s}, ¬ P (.sha s) → h'.state.sha s = h.state.sha s
  previews : ¬ P .previews → h'.db.previewRows = h.db.previewRows
  caddyfile : ¬ P .caddyfile → h'.proxy.caddyfile = h.proxy.caddyfile
  loaded : ¬ P .loaded → h'.proxy.loaded = h.proxy.loaded
  nginx : ¬ P .nginx → h'.proxy.nginx = h.proxy.nginx
  images : ¬ P .images → h'.docker.images = h.docker.images
  db : ¬ P .tables → ¬ P .previews → h'.db = h.db
  locks : ∀ {s}, ¬ P (.lock s) → h'.locks s = h.locks s

variable {P : Part → Prop}

theorem Host.SameBut.refl (h : Host) : h.SameBut P h :=
  ⟨fun _ => rfl, fun _ => rfl, fun _ => rfl, fun _ => rfl, fun _ => rfl, fun _ => rfl,
    fun _ => rfl, fun _ => rfl, fun _ _ => rfl, fun _ => rfl⟩

theorem Host.SameBut.trans {h₁ h₂ h₃ : Host} (a : h₁.SameBut P h₂) (b : h₂.SameBut P h₃) :
    h₁.SameBut P h₃ where
  container no := (b.container no).trans (a.container no)
  color no := (b.color no).trans (a.color no)
  sha no := (b.sha no).trans (a.sha no)
  previews no := (b.previews no).trans (a.previews no)
  caddyfile no := (b.caddyfile no).trans (a.caddyfile no)
  loaded no := (b.loaded no).trans (a.loaded no)
  nginx no := (b.nginx no).trans (a.nginx no)
  images no := (b.images no).trans (a.images no)
  db no no' := (b.db no no').trans (a.db no no')
  locks no := (b.locks no).trans (a.locks no)

theorem Host.SameBut.mono {Q : Part → Prop} (a : h.SameBut P h') (hPQ : ∀ p, P p → Q p) :
    h.SameBut Q h' where
  container no := a.container (mt (hPQ _) no)
  color no := a.color (mt (hPQ _) no)
  sha no := a.sha (mt (hPQ _) no)
  previews no := a.previews (mt (hPQ _) no)
  caddyfile no := a.caddyfile (mt (hPQ _) no)
  loaded no := a.loaded (mt (hPQ _) no)
  nginx no := a.nginx (mt (hPQ _) no)
  images no := a.images (mt (hPQ _) no)
  db no no' := a.db (mt (hPQ _) no) (mt (hPQ _) no')
  locks no := a.locks (mt (hPQ _) no)

/-- What changes in no part is the same host. -/
theorem Host.SameBut.eq (a : h.SameBut P h') (none : ∀ p, P p → p = .nothing) : h' = h := by
  have no {p : Part} (hp : p ≠ .nothing) : ¬ P p := fun h => hp (none p h)
  obtain ⟨⟨containers, images⟩, ⟨color, sha⟩, db, ⟨caddyfile, loaded, nginx⟩, locks⟩ := h'
  have e₁ := funext fun n => a.container (n := n) (no (by simp))
  have e₂ := funext fun s => a.color (s := s) (no (by simp))
  have e₃ := funext fun s => a.sha (s := s) (no (by simp))
  have e₄ := funext fun s => a.locks (s := s) (no (by simp))
  have e₅ := a.images (no (by simp))
  have e₆ := a.caddyfile (no (by simp))
  have e₇ := a.loaded (no (by simp))
  have e₈ := a.nginx (no (by simp))
  have e₉ := a.db (no (by simp)) (no (by simp))
  simp only at e₁ e₂ e₃ e₄ e₅ e₆ e₇ e₈ e₉
  subst e₁ e₂ e₃ e₄ e₅ e₆ e₇ e₈ e₉
  rfl

theorem steps_sameBut {c : Call} {r : c.Reply} (step : steps site c h r h') (hc : P c.part) :
    h.SameBut P h' := by
  obtain ⟨o, _, ans⟩ := step
  have ne {p : Part} (no : ¬ P p) : c.part ≠ p := fun same => no (same ▸ hc)
  exact ⟨fun no => frame_container ans (ne no), fun no => frame_color ans (ne no),
    fun no => frame_sha ans (ne no), fun no => frame_previews ans (ne no),
    fun no => frame_caddyfile ans (ne no), fun no => frame_loaded ans (ne no),
    fun no => frame_nginx ans (ne no), fun no => frame_images ans (ne no),
    fun no no' => frame_db ans (ne no) (ne no'), fun no => frame_locks ans (ne no)⟩

/-- The frame rule: a program leaves alone every part outside its footprint. -/
theorem only_sameBut {α : Type} {p : Prog sig α} (hp : p.Only fun c : Call => P c.part) (h : Host) :
    Safe (steps site) (fun c h₁ _ h₂ => P c.part ∧ h.SameBut P h₁ ∧ h.SameBut P h₂)
      (fun _ h' => h.SameBut P h') p h :=
  Prog.Only.keeps hp (Host.SameBut.refl h) fun _ _ _ _ step hc same =>
    same.trans (steps_sameBut step hc)

end Frames

end Codery
