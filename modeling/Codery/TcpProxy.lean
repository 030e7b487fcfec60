import Mathlib.Algebra.GroupWithZero.Nat
import Codery.Effect.Machine
import Codery.ProxyTargets

/-! The TCP proxy (`tcp_proxy.rs`): its listeners, and connections that are accepted, dialed and
copied while other processes write the recorded colors. -/

namespace Codery.TcpProxy

open Codery.Effect

/-- The task of `run_listener` for a target. -/
inductive Listener
  | starting
  | listening (bindIp : String)
  | failed (error : String)
  /-- Its `JoinSet` has been dropped. -/
  | aborted
  deriving DecidableEq

/-- How far `proxy_connection` is. -/
inductive Phase
  | accepted
  | resolved (targetPort : UInt16)
  | connected (targetPort : UInt16)
  | ended
  deriving DecidableEq

structure Connection where
  target : ProxyTarget
  bindIp : String
  phase : Phase := .accepted
  deriving DecidableEq

structure Proxy where
  files : StateDir
  listeners : List (ProxyTarget × Listener)
  connections : List Connection := []
  /-- The error `serve` has returned with. -/
  returned : Option String := none

/-- `run_listener` up to its loop.  `free` is whether the system grants the address. -/
def listen (t : ProxyTarget) (tailscaleIp : Option String) (free : String → Bool) : Listener :=
  if t.fixedPort = 0 then
    .failed ("tcp-proxy: fixed_port 0 is invalid for service '" ++ t.service ++ "'")
  else
    match t.bind.resolve tailscaleIp with
    | .error _ => .failed ("tcp-proxy: resolving bind for service '" ++ t.service ++ "'")
    | .ok bindIp =>
      if free bindIp then .listening bindIp
      else .failed ("tcp-proxy: failed to bind " ++ bindIp ++ ":" ++ toString t.fixedPort)

/-- Another listener of the process has the address already. -/
def Proxy.taken (s : Proxy) (port : UInt16) (bindIp : String) : Bool :=
  s.listeners.any fun x => x.2 == .listening bindIp && x.1.fixedPort == port

inductive Event
  /-- A state file is written by another process. -/
  | record (service : String) (file : File)
  | bind (k : ℕ) (tailscaleIp : Option String) (granted : Bool)
  | accept (k : ℕ)
  /-- `accept` fails, and ends the task. -/
  | stop (k : ℕ) (error : String)
  | readActive (i : ℕ)
  | connect (i : ℕ) (granted : Bool)
  | finish (i : ℕ)
  /-- `serve` returns with the error of a task. -/
  | join (k : ℕ)
  /-- A task that `serve` has left behind ends. -/
  | abort (k : ℕ)
  deriving DecidableEq

def Proxy.setListener (s : Proxy) (k : ℕ) (f : ProxyTarget → Listener → Option Listener) :
    Option Proxy :=
  match s.listeners[k]? with
  | some (t, l) => (f t l).map fun l => { s with listeners := s.listeners.set k (t, l) }
  | none => none

def Proxy.setConnection (s : Proxy) (i : ℕ) (f : Connection → Option Phase) : Option Proxy :=
  match s.connections[i]? with
  | some c => (f c).map fun phase => { s with connections := s.connections.set i { c with phase } }
  | none => none

/-- What `proxy_connection` goes on to when it has read the color. -/
def Connection.read (active : Option Color) (c : Connection) : Option Phase :=
  match c.phase with
  | .accepted => some (active.elim .ended fun color => .resolved (c.target.targetPort color))
  | _ => none

def Connection.dial (granted : Bool) (c : Connection) : Option Phase :=
  match c.phase with
  | .resolved port => some (if granted then .connected port else .ended)
  | _ => none

def Connection.close (c : Connection) : Option Phase :=
  match c.phase with
  | .connected _ => some .ended
  | _ => none

def Listener.abort : Listener → Option Listener
  | .starting => some .aborted
  | .listening _ => some .aborted
  | _ => none

/-- A step of `serve`, of one of its listeners or of a connection.  Connections are tasks of their
own: they go on when `serve` has returned. -/
def step (s : Proxy) : Event → Option Proxy
  | .record service file =>
    some { s with files := { s.files with color := Function.update s.files.color service file } }
  | .bind k tailscaleIp granted =>
    s.setListener k fun t l =>
      if l = .starting then
        some (listen t tailscaleIp fun ip => granted && !s.taken t.fixedPort ip)
      else none
  | .accept k =>
    match s.listeners[k]? with
    | some (target, .listening bindIp) =>
      some { s with connections := s.connections ++ [{ target, bindIp }] }
    | _ => none
  | .stop k error =>
    s.setListener k fun _ l => match l with
      | .listening _ => some (.failed error)
      | _ => none
  | .readActive i => s.setConnection i fun c => c.read (s.files.active c.target.service)
  | .connect i granted => s.setConnection i (·.dial granted)
  | .finish i => s.setConnection i (·.close)
  | .join k =>
    match s.returned, s.listeners[k]? with
    | none, some (_, .failed error) => some { s with returned := some error }
    | _, _ => none
  | .abort k => if s.returned.isSome then s.setListener k fun _ l => l.abort else none

/-- `serve` spawns a task for each target of the definitions it has loaded. -/
def serve (defs : List ServiceDef) (files : StateDir) : Proxy where
  files := files
  listeners := (collectProxyTargets defs).map fun t => (t, .starting)

abbrev machine (defs : List ServiceDef) : Machine Proxy Event :=
  .ofStep (fun s => ∃ files, s = serve defs files) step

/-- What a step can do to a connection: nothing, or one turn of its own. -/
inductive Turn (s : Proxy) (i : ℕ) (c : Connection) : Event → Phase → Prop
  | idle {e} : e ≠ .readActive i → Turn s i c e c.phase
  | read {phase} : c.read (s.files.active c.target.service) = some phase →
      Turn s i c (.readActive i) phase
  | dial {granted phase} : c.dial granted = some phase → Turn s i c (.connect i granted) phase
  | closed : Turn s i c (.finish i) .ended

section Steps

variable {s t : Proxy} {e : Event} {i k : ℕ} {c c' : Connection}

theorem setListener_some {f : ProxyTarget → Listener → Option Listener}
    (made : s.setListener k f = some t) :
    ∃ x l', s.listeners[k]? = some x ∧ f x.1 x.2 = some l' ∧
      t = { s with listeners := s.listeners.set k (x.1, l') } := by
  unfold Proxy.setListener at made
  split at made
  case h_1 t l there =>
    obtain ⟨l', ran, rfl⟩ := Option.map_eq_some_iff.mp made
    exact ⟨(t, l), l', there, ran, rfl⟩
  case h_2 => cases made

theorem setConnection_some {f : Connection → Option Phase} (made : s.setConnection i f = some t) :
    ∃ c phase, s.connections[i]? = some c ∧ f c = some phase ∧
      t = { s with connections := s.connections.set i { c with phase } } := by
  unfold Proxy.setConnection at made
  split at made
  case h_1 c there =>
    obtain ⟨phase, ran, rfl⟩ := Option.map_eq_some_iff.mp made
    exact ⟨c, phase, there, ran, rfl⟩
  case h_2 => cases made

/-- `serve` returns with the error of a listener that has failed. -/
theorem join_some (stepped : step s (.join k) = some t) :
    ∃ target error, s.returned = none ∧ s.listeners[k]? = some (target, .failed error) ∧
      t = { s with returned := some error } := by
  simp only [step] at stepped
  split at stepped
  case h_1 target error running there =>
    cases stepped
    exact ⟨target, error, running, there, rfl⟩
  case h_2 => cases stepped

theorem accept_some (stepped : step s (.accept k) = some t) :
    ∃ target bindIp, s.listeners[k]? = some (target, .listening bindIp) ∧
      t = { s with connections := s.connections ++ [{ target, bindIp }] } := by
  simp only [step] at stepped
  split at stepped
  case h_1 target bindIp there =>
    cases stepped
    exact ⟨target, bindIp, there, rfl⟩
  case h_2 => cases stepped

theorem abort_some (stepped : step s (.abort k) = some t) :
    ∃ x, s.returned.isSome = true ∧ s.listeners[k]? = some x ∧ x.2.abort = some .aborted ∧
      t = { s with listeners := s.listeners.set k (x.1, .aborted) } := by
  simp only [step, Option.ite_none_right_eq_some] at stepped
  obtain ⟨returned, made⟩ := stepped
  obtain ⟨x, l, there, ran, rfl⟩ := setListener_some made
  have gone : l = .aborted := by
    unfold Listener.abort at ran
    split at ran <;> cases ran <;> rfl
  subst gone
  exact ⟨x, returned, there, ran, rfl⟩

theorem step_connection (stepped : step s e = some t) (there : s.connections[i]? = some c) :
    ∃ phase, t.connections[i]? = some { c with phase } ∧ Turn s i c e phase := by
  have below := (List.getElem?_eq_some_iff.mp there).1
  have kept (other : e ≠ .readActive i) (same : t.connections = s.connections) :
      ∃ phase, t.connections[i]? = some { c with phase } ∧ Turn s i c e phase :=
    ⟨c.phase, by rw [same, there], .idle other⟩
  -- A turn of the connection itself, or of another one.
  have single {j : ℕ} {f : Connection → Option Phase} (made : s.setConnection j f = some t)
      (turn : j = i → ∀ phase, f c = some phase → Turn s i c e phase)
      (other : j ≠ i → e ≠ .readActive i) :
      ∃ phase, t.connections[i]? = some { c with phase } ∧ Turn s i c e phase := by
    obtain ⟨c₀, phase, at_j, ran, rfl⟩ := setConnection_some made
    by_cases same : j = i
    · subst same
      cases there.symm.trans at_j
      exact ⟨phase, by simp [below], turn rfl phase ran⟩
    · exact ⟨c.phase, by rw [List.getElem?_set_ne same, there], .idle (other same)⟩
  cases e with
  | record =>
    cases stepped
    exact kept (by simp) rfl
  | bind | stop =>
    obtain ⟨_, _, _, _, rfl⟩ := setListener_some stepped
    exact kept (by simp) rfl
  | accept k =>
    obtain ⟨_, _, _, rfl⟩ := accept_some stepped
    exact ⟨c.phase, by rw [List.getElem?_append_left below, there], .idle (by simp)⟩
  | readActive j =>
    refine single stepped ?_ fun ne => by simpa using ne
    rintro rfl phase ran
    exact .read ran
  | connect j granted =>
    refine single stepped ?_ fun _ => by simp
    rintro rfl phase ran
    exact .dial ran
  | finish j =>
    refine single stepped ?_ fun _ => by simp
    rintro rfl phase ran
    have gone : phase = .ended := by
      unfold Connection.close at ran
      split at ran <;> cases ran
      rfl
    rw [gone]
    exact .closed
  | join k =>
    obtain ⟨_, _, _, _, rfl⟩ := join_some stepped
    exact kept (by simp) rfl
  | abort k =>
    obtain ⟨_, _, _, _, rfl⟩ := abort_some stepped
    exact kept (by simp) rfl

section

variable {target : ProxyTarget} {tailscaleIp : Option String} {free : String → Bool} {bindIp : String}

/-- A listener fails, or has the address of its target. -/
theorem listen_cases (target : ProxyTarget) (tailscaleIp : Option String) (free : String → Bool) :
    (∃ error, listen target tailscaleIp free = .failed error) ∨
    ∃ ip, listen target tailscaleIp free = .listening ip ∧ target.fixedPort ≠ 0 ∧
      target.bind.resolve tailscaleIp = .ok ip ∧ free ip = true := by
  unfold listen
  split
  case isTrue => exact .inl ⟨_, rfl⟩
  case isFalse port =>
    split
    case h_1 => exact .inl ⟨_, rfl⟩
    case h_2 ip resolved =>
      split
      case isTrue granted => exact .inr ⟨ip, rfl, port, resolved, granted⟩
      case isFalse => exact .inl ⟨_, rfl⟩

theorem listen_listening (bound : listen target tailscaleIp free = .listening bindIp) :
    target.fixedPort ≠ 0 ∧ target.bind.resolve tailscaleIp = .ok bindIp ∧ free bindIp = true := by
  obtain ⟨error, failed⟩ | ⟨ip, at_ip, rest⟩ := listen_cases target tailscaleIp free
  · cases failed.symm.trans bound
  · cases at_ip.symm.trans bound
    exact rest

theorem listen_ne_aborted : listen target tailscaleIp free ≠ .aborted := by
  intro gone
  obtain ⟨error, other⟩ | ⟨ip, other, -⟩ := listen_cases target tailscaleIp free
  · cases other.symm.trans gone
  · cases other.symm.trans gone

end

def Proxy.Failed (s : Proxy) (error : String) : Prop :=
  ∃ (k : ℕ) (x : ProxyTarget × Listener), s.listeners[k]? = some x ∧ x.2 = .failed error

/-- What holds of the listeners of `serve`. -/
structure Sound (defs : List ServiceDef) (s : Proxy) : Prop where
  targets : s.listeners.map (·.1) = collectProxyTargets defs
  /-- A listener has the address of its target. -/
  address (k : ℕ) (x : ProxyTarget × Listener) (ip : String) : s.listeners[k]? = some x →
    x.2 = .listening ip → x.1.fixedPort ≠ 0 ∧ ∃ file, x.1.bind.resolve file = .ok ip
  apart (j k : ℕ) (x y : ProxyTarget × Listener) (ip : String) : j ≠ k → s.listeners[j]? = some x →
    s.listeners[k]? = some y → x.2 = .listening ip → y.2 = .listening ip →
      x.1.fixedPort ≠ y.1.fixedPort
  returned (error : String) : s.returned = some error → s.Failed error
  aborted (k : ℕ) (x : ProxyTarget × Listener) : s.listeners[k]? = some x → x.2 = .aborted →
    s.returned.isSome = true

variable {defs : List ServiceDef}

theorem Sound.of_listeners (sound : Sound defs s) (same : t.listeners = s.listeners)
    (returned : ∀ error, t.returned = some error → s.Failed error)
    (still : s.returned.isSome = true → t.returned.isSome = true) : Sound defs t := by
  obtain ⟨targets, address, apart, -, aborted⟩ := sound
  refine ⟨by rwa [same], by rwa [same], by rwa [same], by simpa only [Proxy.Failed, same], ?_⟩
  intro k x there gone
  rw [same] at there
  exact still (aborted k x there gone)

/-- A listener that goes on: to no address, or to one of its own. -/
theorem Sound.set (sound : Sound defs s) {x : ProxyTarget × Listener}
    {l : Listener} (there : s.listeners[k]? = some x) (running : ∀ error, x.2 ≠ .failed error)
    (address : ∀ ip, l = .listening ip → x.1.fixedPort ≠ 0 ∧
      (∃ file, x.1.bind.resolve file = .ok ip) ∧ s.taken x.1.fixedPort ip = false)
    (left : l = .aborted → s.returned.isSome = true) :
    Sound defs { s with listeners := s.listeners.set k (x.1, l) } := by
  have below := (List.getElem?_eq_some_iff.mp there).1
  have before {j : ℕ} {y : ProxyTarget × Listener} (here : (s.listeners.set k (x.1, l))[j]? = some y) :
      j = k ∧ y = (x.1, l) ∨ j ≠ k ∧ s.listeners[j]? = some y := by
    by_cases same : j = k
    · subst same
      rw [List.getElem?_set_self below] at here
      exact .inl ⟨rfl, (Option.some.inj here).symm⟩
    · rw [List.getElem?_set_ne (Ne.symm same)] at here
      exact .inr ⟨same, here⟩
  -- The address the listener goes on to is that of no other one.
  have new {j : ℕ} {y : ProxyTarget × Listener} {ip : String} (here : s.listeners[j]? = some y)
      (at_ip : y.2 = .listening ip) (to_ip : l = .listening ip) : x.1.fixedPort ≠ y.1.fixedPort := by
    intro same
    have free := (address ip to_ip).2.2
    rw [Proxy.taken, List.any_eq_false] at free
    exact free y (List.mem_of_getElem? here) (by simp [at_ip, same])
  refine ⟨?_, ?_, ?_, ?_, ?_⟩
  · rw [List.map_set, ← sound.targets]
    refine List.ext_getElem? fun j => ?_
    by_cases at_k : j = k
    · rw [at_k, List.getElem?_set_self (by simpa using below), List.getElem?_map, there]
      rfl
    · rw [List.getElem?_set_ne (Ne.symm at_k)]
  · intro j y ip here at_ip
    rcases before here with ⟨-, rfl⟩ | ⟨-, here⟩
    · exact ⟨(address ip at_ip).1, (address ip at_ip).2.1⟩
    · exact sound.address j y ip here at_ip
  · intro i j y z ip ne hy hz at_y at_z
    rcases before hy with ⟨at_i, rfl⟩ | ⟨-, y_else⟩ <;>
      rcases before hz with ⟨at_j, rfl⟩ | ⟨-, z_else⟩
    · exact absurd (at_i.trans at_j.symm) ne
    · exact new z_else at_z at_y
    · exact (new y_else at_y at_z).symm
    · exact sound.apart i j y z ip ne y_else z_else at_y at_z
  · intro error returned
    obtain ⟨j, y, here, failed⟩ := sound.returned error returned
    have other : k ≠ j := by
      rintro rfl
      cases there.symm.trans here
      exact running error failed
    exact ⟨j, y, (List.getElem?_set_ne other).trans here, failed⟩
  · intro j y here gone
    rcases before here with ⟨-, rfl⟩ | ⟨-, here⟩
    · exact left gone
    · exact sound.aborted j y here gone

theorem sound_step (sound : Sound defs s) (stepped : step s e = some t) : Sound defs t := by
  cases e with
  | record =>
    cases stepped
    exact sound.of_listeners rfl sound.returned id
  | bind k tailscaleIp granted =>
    obtain ⟨x, l, there, ran, rfl⟩ := setListener_some stepped
    split at ran <;> cases ran
    next starting =>
      refine sound.set there (by simp [starting]) (fun ip at_ip => ?_) fun gone => ?_
      · obtain ⟨port, resolved, free⟩ := listen_listening at_ip
        exact ⟨port, ⟨_, resolved⟩, by simpa using (Bool.and_eq_true_iff.mp free).2⟩
      · exact absurd gone listen_ne_aborted
  | stop k error =>
    obtain ⟨x, l, there, ran, rfl⟩ := setListener_some stepped
    split at ran <;> cases ran
    next ip listening => exact sound.set there (by simp [listening]) nofun nofun
  | readActive | connect | finish =>
    obtain ⟨_, _, _, _, rfl⟩ := setConnection_some stepped
    exact sound.of_listeners rfl sound.returned id
  | accept k =>
    obtain ⟨_, _, _, rfl⟩ := accept_some stepped
    exact sound.of_listeners rfl sound.returned id
  | join k =>
    obtain ⟨target, error, _, there, rfl⟩ := join_some stepped
    refine sound.of_listeners rfl (fun e same => ?_) fun _ => rfl
    cases same
    exact ⟨k, _, there, rfl⟩
  | abort k =>
    obtain ⟨x, returned, there, ran, rfl⟩ := abort_some stepped
    refine sound.set there (fun error failed => ?_) nofun fun _ => returned
    rw [failed] at ran
    cases ran

end Steps

section Runs

variable {defs : List ServiceDef} {l l₁ l₂ : List (Move Proxy Event)} {s s₀ s₁ t : Proxy}
  {e : Event} {i k : ℕ} {c : Connection} {port : UInt16}

theorem run_sound (run : (machine defs).Run l s) : Sound defs s := by
  refine (run.always (I := Sound defs) ?_ fun s e t => sound_step).1
  rintro _ ⟨files, rfl⟩
  have starting {k : ℕ} {x : ProxyTarget × Listener}
      (there : (serve defs files).listeners[k]? = some x) : x.2 = .starting := by
    obtain ⟨_, _, rfl⟩ := Option.map_eq_some_iff.mp (List.getElem?_map.symm.trans there)
    rfl
  refine ⟨by simp [serve, Function.comp_def], ?_, ?_, nofun, ?_⟩
  · intro k x ip there at_ip
    rw [starting there] at at_ip
    cases at_ip
  · intro j k x y ip _ there _ at_ip
    rw [starting there] at at_ip
    cases at_ip
  · intro k x there gone
    rw [starting there] at gone
    cases gone

/-- In the moves `l` connection `i` has read the recorded color of its service once, and `port` is
the one its target has for that color. -/
def ReadOnce (i : ℕ) (t : ProxyTarget) (port : UInt16) (l : List (Move Proxy Event)) : Prop :=
  ∃ after m before color, l = after ++ m :: before ∧ m.event = .readActive i ∧
    (∀ x ∈ after ++ before, x.event ≠ .readActive i) ∧
    m.source.files.active t.service = some color ∧ port = t.targetPort color

theorem ReadOnce.later {t : ProxyTarget} {m : Move Proxy Event} (read : ReadOnce i t port l)
    (other : m.event ≠ .readActive i) : ReadOnce i t port (m :: l) := by
  obtain ⟨after, m', before, color, rfl, event, once, active, same⟩ := read
  refine ⟨m :: after, m', before, color, rfl, event, ?_, active, same⟩
  exact List.forall_mem_cons.mpr ⟨other, once⟩

/-- A connection of a target, after the moves `l` since it was accepted. -/
def Since (i : ℕ) (target : ProxyTarget) (bindIp : String) (l : List (Move Proxy Event))
    (s : Proxy) : Prop :=
  ∃ phase, s.connections[i]? = some ⟨target, bindIp, phase⟩ ∧
    match phase with
    | .accepted => ∀ x ∈ l, x.event ≠ .readActive i
    | .resolved port => ReadOnce i target port l
    | .connected port => ReadOnce i target port l
    | .ended => True

theorem since_step {target : ProxyTarget} {bindIp : String} (since : Since i target bindIp l s)
    (stepped : step s e = some t) : Since i target bindIp (⟨s, e, t⟩ :: l) t := by
  obtain ⟨phase, there, since⟩ := since
  obtain ⟨phase', now, turn⟩ := step_connection stepped there
  refine ⟨phase', now, ?_⟩
  cases turn with
  | idle other =>
    cases phase with
    | accepted => exact List.forall_mem_cons.mpr ⟨other, since⟩
    | resolved | connected => exact since.later other
    | ended => trivial
  | read ran =>
    simp only [Connection.read] at ran
    split at ran
    case h_1 =>
      cases ran
      cases active : s.files.active target.service with
      | none => trivial
      | some color => exact ⟨[], _, l, color, rfl, rfl, since, active, rfl⟩
    case h_2 => cases ran
  | @dial granted _ ran =>
    simp only [Connection.dial] at ran
    split at ran
    case h_1 =>
      cases ran
      cases granted with
      | true => exact since.later (by simp)
      | false => trivial
    case h_2 => cases ran
  | closed => trivial

/-- A connection is dialed, whether or not that succeeds, for a target of a definition, at the port
Docker publishes for the color that was recorded at one moment since it was accepted; it reads no
color before or after. -/
theorem connection_follows_record
    (run : (machine defs).Run (l₂ ++ ⟨s₀, .accept k, s₁⟩ :: l₁) s)
    (there : s.connections[s₀.connections.length]? = some c)
    (dialed : c.phase = .resolved port ∨ c.phase = .connected port) :
    ∃ d ∈ defs, c.target ∈ d.proxyTargets ∧ (∃ file, c.target.bind.resolve file = .ok c.bindIp) ∧
      ∃ after m before color, l₂ = after ++ m :: before ∧
        m.event = .readActive s₀.connections.length ∧
        (∀ x ∈ after ++ before, x.event ≠ .readActive s₀.connections.length) ∧
        m.source.files.active d.service = some color ∧
        ⟨port, c.target.containerPort, c.target.bind⟩ ∈ d.portBindingSpecs color := by
  obtain ⟨target, bindIp, listener, since⟩ : ∃ target bindIp,
      s₀.listeners[k]? = some (target, .listening bindIp) ∧
        Since s₀.connections.length target bindIp l₂ s := by
    have early := run.upTo
    cases early with
    | step _ accepts =>
      obtain ⟨target, bindIp, listener, rfl⟩ := accept_some accepts
      refine ⟨target, bindIp, listener, run.since ?_ fun l s e t => since_step⟩
      exact ⟨.accepted, by simp, nofun⟩
  have sound : Sound defs s₀ := by
    cases run.upTo with
    | step before _ => exact run_sound before
  obtain ⟨phase, there', since⟩ := since
  cases there.symm.trans there'
  have read : ReadOnce s₀.connections.length target port l₂ := by
    rcases dialed with same | same <;> cases same <;> exact since
  obtain ⟨after, m, before, color, moves, event, once, active, rfl⟩ := read
  have mem : target ∈ collectProxyTargets defs := by
    rw [← sound.targets]
    exact List.mem_map_of_mem (List.mem_of_getElem? listener)
  obtain ⟨d, loaded, mem⟩ := List.mem_flatMap.mp mem
  have published := @proxyTarget_published _ color _ mem
  exact ⟨d, loaded, mem, (sound.address k _ bindIp listener rfl).2, after, m, before, color, moves,
    event, once, published.1 ▸ active, published.2⟩

/-- The listener of `relayed`'s SSH port, before a connection and after it has been dialed. -/
def sshListener : ProxyTarget × Listener :=
  (⟨"devbox", 2222, 22, ⟨10000, 20000⟩, .tailnet⟩, .listening "100.64.0.1")

def listening : Proxy where
  files := { color := fun _ => .text "green\n", sha := fun _ => .missing }
  listeners := [sshListener]

/-- With one connection, which is in `phase`. -/
def connectedAt (phase : Phase) : Proxy :=
  { listening with connections := [⟨sshListener.1, "100.64.0.1", phase⟩] }

theorem dialed_run : (machine [relayed]).Run
    [⟨connectedAt (.resolved 20022), .connect 0 true, connectedAt (.connected 20022)⟩,
      ⟨connectedAt .accepted, .readActive 0, connectedAt (.resolved 20022)⟩,
      ⟨listening, .accept 0, connectedAt .accepted⟩,
      ⟨serve [relayed] listening.files, .bind 0 (some "100.64.0.1\n") true, listening⟩]
    (connectedAt (.connected 20022)) :=
  .step (.step (.step (.step (.start ⟨_, rfl⟩) rfl) rfl) rfl) rfl

theorem connection_follows_record_devbox : ∃ d ∈ [relayed], ∃ color,
    (⟨20022, 22, .tailnet⟩ : PortBindingSpec) ∈ d.portBindingSpecs color := by
  obtain ⟨d, mem, -, -, -, -, -, color, -, -, -, -, published⟩ :=
    @connection_follows_record [relayed] [_] [_, _] (connectedAt (.connected 20022)) listening _ 0 _
      20022 dialed_run rfl (.inr rfl)
  exact ⟨d, mem, color, published⟩

/-- What `serve` and its listeners come to by themselves. -/
def Event.prompt : Event → Bool
  | .bind _ _ _ => true
  | .join _ => true
  | .abort _ => true
  | _ => false

/-- Nothing of that is left to be done. -/
def Proxy.Resting (s : Proxy) : Prop := ∀ e : Event, e.prompt = true → step s e = none

/-- `serve` has returned with the error of a listener, and nothing listens any more. -/
def Proxy.Down (s : Proxy) : Prop :=
  ∃ error, s.returned = some error ∧ s.Failed error ∧ ∀ x ∈ s.listeners, ∀ ip, x.2 ≠ .listening ip

/-- Each target of the definitions has a listener at an address of its own. -/
structure Serving (defs : List ServiceDef) (s : Proxy) : Prop where
  up : s.returned = none
  targets : s.listeners.map (·.1) = collectProxyTargets defs
  each : ∀ x ∈ s.listeners, ∃ ip file, x.2 = .listening ip ∧ x.1.bind.resolve file = .ok ip
  apart (j k : ℕ) (x y : ProxyTarget × Listener) : j ≠ k → s.listeners[j]? = some x →
    s.listeners[k]? = some y → x.2 = y.2 → x.1.fixedPort ≠ y.1.fixedPort
  ports : ∀ t ∈ collectProxyTargets defs, t.fixedPort ≠ 0
  unshared (j k : ℕ) (t u : ProxyTarget) : j ≠ k → (collectProxyTargets defs)[j]? = some t →
    (collectProxyTargets defs)[k]? = some u → t.fixedPort = u.fixedPort → t.bind = u.bind →
      t.bind = .tailnet

theorem resolve_file {bind : PortBind} {file file' : Option String} {ip ip' : String}
    (fixed : bind ≠ .tailnet) (resolved : bind.resolve file = .ok ip)
    (resolved' : bind.resolve file' = .ok ip') : ip = ip' := by
  cases bind with
  | any | loopback =>
    cases resolved
    cases resolved'
    rfl
  | tailnet => exact absurd rfl fixed

theorem resting_cases (resting : s.Resting) {x : ProxyTarget × Listener} (mem : x ∈ s.listeners) :
    s.returned = none ∧ ((∃ ip, x.2 = .listening ip) ∨ x.2 = .aborted) ∨
      s.returned.isSome = true ∧ ((∃ error, x.2 = .failed error) ∨ x.2 = .aborted) := by
  obtain ⟨k, there⟩ := List.mem_iff_getElem?.mp mem
  obtain ⟨target, l⟩ := x
  cases l with
  | starting =>
    have none := resting (.bind k none false) rfl
    simp [step, Proxy.setListener, there] at none
  | listening ip =>
    cases returned : s.returned with
    | none => exact .inl ⟨rfl, .inl ⟨ip, rfl⟩⟩
    | some =>
      have none := resting (.abort k) rfl
      simp [step, Proxy.setListener, there, returned, Listener.abort] at none
  | failed error =>
    cases returned : s.returned with
    | none =>
      have none := resting (.join k) rfl
      simp [step, there, returned] at none
    | some => exact .inr ⟨rfl, .inl ⟨error, rfl⟩⟩
  | aborted =>
    cases s.returned with
    | none => exact .inl ⟨rfl, .inr rfl⟩
    | some => exact .inr ⟨rfl, .inr rfl⟩

theorem Sound.down (sound : Sound defs s) (resting : s.Resting)
    (returned : s.returned.isSome = true) : s.Down := by
  obtain ⟨error, same⟩ := Option.isSome_iff_exists.mp returned
  refine ⟨error, same, sound.returned error same, fun x mem ip at_ip => ?_⟩
  rcases resting_cases resting mem with ⟨up, -⟩ | ⟨-, ⟨_, failed⟩ | gone⟩
  · cases same.symm.trans up
  · cases at_ip.symm.trans failed
  · cases at_ip.symm.trans gone

theorem Sound.serving (sound : Sound defs s) (resting : s.Resting) (up : s.returned = none) :
    Serving defs s := by
  have each {k : ℕ} {x : ProxyTarget × Listener} (there : s.listeners[k]? = some x) :
      ∃ ip file, x.2 = .listening ip ∧ x.1.fixedPort ≠ 0 ∧ x.1.bind.resolve file = .ok ip := by
    obtain ⟨ip, at_ip⟩ : ∃ ip, x.2 = .listening ip := by
      rcases resting_cases resting (List.mem_of_getElem? there) with ⟨-, listens | gone⟩ | ⟨down, -⟩
      · exact listens
      · have down := sound.aborted k x there gone
        simp [up] at down
      · simp [up] at down
    obtain ⟨port, file, resolved⟩ := sound.address k x ip there at_ip
    exact ⟨ip, file, at_ip, port, resolved⟩
  -- A target, seen at its place among the listeners.
  have target {k : ℕ} {t : ProxyTarget} (there : (collectProxyTargets defs)[k]? = some t) :
      ∃ l, s.listeners[k]? = some (t, l) := by
    rw [← sound.targets, List.getElem?_map] at there
    obtain ⟨⟨_, l⟩, here, rfl⟩ := Option.map_eq_some_iff.mp there
    exact ⟨l, here⟩
  refine ⟨up, sound.targets, fun x mem => ?_, fun j k x y ne hx hy same => ?_, fun t mem => ?_,
    fun j k t u ne ht hu port bind => ?_⟩
  · obtain ⟨k, there⟩ := List.mem_iff_getElem?.mp mem
    obtain ⟨ip, file, at_ip, -, resolved⟩ := each there
    exact ⟨ip, file, at_ip, resolved⟩
  · obtain ⟨ip, _, at_ip, _⟩ := each hx
    exact sound.apart j k x y ip ne hx hy at_ip (same ▸ at_ip)
  · obtain ⟨k, there⟩ := List.mem_iff_getElem?.mp mem
    obtain ⟨l, here⟩ := target there
    obtain ⟨_, _, _, port, _⟩ := each here
    exact port
  · by_contra fixed
    obtain ⟨l, hx⟩ := target ht
    obtain ⟨l', hy⟩ := target hu
    obtain ⟨ip, _, at_ip, -, resolved⟩ := each hx
    obtain ⟨ip', _, at_ip', -, resolved'⟩ := each hy
    cases resolve_file fixed resolved (bind ▸ resolved')
    exact sound.apart j k _ _ ip ne hx hy at_ip at_ip' port

/-! ### How soon it comes to rest -/

/-- The steps a listener has left, at most. -/
def Listener.left : Listener → ℕ
  | .starting => 2
  | .listening _ => 1
  | _ => 0

def Proxy.left (s : Proxy) : ℕ :=
  (s.listeners.map (·.2.left)).sum + if s.returned.isSome then 0 else 1

/-- The address of the SSH port is not granted, and `serve` has returned. -/
def refused : Proxy where
  files := listening.files
  listeners := [(sshListener.1, .failed "tcp-proxy: failed to bind 100.64.0.1:2222")]
  returned := some "tcp-proxy: failed to bind 100.64.0.1:2222"

end Runs

end Codery.TcpProxy
