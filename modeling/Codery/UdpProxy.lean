import Codery.Effect.Machine
import Mathlib.Data.List.AList

/-! The UDP relay of one port (`udp_proxy.rs`): a client table, an outbound socket and a reply
forwarder for each client, and a loop that receives and sweeps. -/

namespace Codery.UdpProxy

open Codery.Effect

/-- Instants and durations are in nanoseconds. -/
def secs (n : ℕ) : ℕ := n * 1000000000

def clientIdleSecs : ℕ := 300

def sweepIntervalSecs : ℕ := 30

def forwarderIdleSecs : ℕ := 300

def resolveTtlSecs : ℕ := 2

def maxClients : ℕ := 16

structure ClientEntry where
  /-- An outbound socket by its place in the order of binding. -/
  outbound : ℕ
  lastSeen : ℕ
  deriving DecidableEq

structure Resolved (Addr : Type) where
  addr : Addr
  fetchedAt : ℕ

/-- A running `forward_replies`. -/
structure Forwarder (Peer : Type) where
  outbound : ℕ
  client : Peer
  /-- When it began to wait for the next reply. -/
  since : ℕ

/-- A datagram of `peer`, with the socket it leaves through. -/
structure Outgoing (Peer Payload : Type) where
  peer : Peer
  outbound : ℕ
  data : Payload

structure Reply (Peer Payload : Type) where
  /-- The socket the reply arrived on. -/
  outbound : ℕ
  client : Peer
  data : Payload

structure Relay (Peer Payload Addr : Type) where
  now : ℕ
  clients : AList fun _ : Peer => ClientEntry
  resolved : Option (Resolved Addr)
  /-- The peers that the outbound sockets were bound for, in the order of binding. -/
  sockets : List Peer
  forwarders : List (Forwarder Peer)
  /-- The datagram the loop has a socket for and has not sent on. -/
  sending : Option (Outgoing Peer Payload)
  sent : List (Outgoing Peer Payload × Addr)
  delivered : List (Reply Peer Payload)

/-- What happens to a relay. The sweeper, the forwarders' timers and the clock are free. -/
inductive Event (Peer Payload Addr : Type)
  /-- A datagram arrives; `bound` says whether a socket can be bound for a new peer. -/
  | received (peer : Peer) (data : Payload) (bound : Bool)
  | recvError
  /-- The loop sends the datagram on; `found` is what `resolve_server` gives if it is asked. -/
  | forwarded (found : Option Addr) (ok : Bool)
  | sweep
  | tick (nanos : ℕ)
  /-- A server's datagram arrives on an outbound socket; `ok` is the send to the client. -/
  | reply (outbound : ℕ) (data : Payload) (ok : Bool)
  | timeout (outbound : ℕ)
  /-- The receive of a forwarder fails. -/
  | failed (outbound : ℕ)

/-- The socket whose forwarder leaves its loop: on a timeout, a failed receive or a failed send. -/
def Event.stops {Peer Payload Addr : Type} : Event Peer Payload Addr → Option ℕ
  | .reply outbound _ false => some outbound
  | .timeout outbound => some outbound
  | .failed outbound => some outbound
  | _ => none

variable {Peer Payload Addr : Type} [DecidableEq Peer]

namespace Relay

def initial : Relay Peer Payload Addr := ⟨0, ∅, none, [], [], none, [], []⟩

variable (s : Relay Peer Payload Addr)

def refresh (peer : Peer) (entry : ClientEntry) : Relay Peer Payload Addr :=
  { s with clients := s.clients.insert peer { entry with lastSeen := s.now } }

/-- A socket is bound for the peer, its forwarder is spawned and the peer enters the table. -/
def register (peer : Peer) : Relay Peer Payload Addr :=
  { s with
    sockets := s.sockets ++ [peer]
    forwarders := ⟨s.sockets.length, peer, s.now⟩ :: s.forwarders
    clients := s.clients.insert peer ⟨s.sockets.length, s.now⟩ }

def outboundFor (peer : Peer) (bound : Bool) : Relay Peer Payload Addr × Option ℕ :=
  match s.clients.lookup peer with
  | some entry => (s.refresh peer entry, some entry.outbound)
  | none =>
    if maxClients ≤ s.clients.entries.length then (s, none)
    else if bound then (s.register peer, some s.sockets.length)
    else (s, none)

def serverAddr (found : Option Addr) : Option (Resolved Addr) :=
  if s.resolved.all fun r => secs resolveTtlSecs < s.now - r.fetchedAt then
    match found with
    | some addr => some ⟨addr, s.now⟩
    | none => s.resolved
  else s.resolved

def send (out : Outgoing Peer Payload) (found : Option Addr) (ok : Bool) :
    Relay Peer Payload Addr :=
  match s.serverAddr found with
  | none => { s with sending := none }
  | some server =>
    { s with
      resolved := some server
      sending := none
      sent := if ok then (out, server.addr) :: s.sent else s.sent }

def retain (keep : ClientEntry → Bool) (clients : AList fun _ : Peer => ClientEntry) :
    AList fun _ : Peer => ClientEntry where
  entries := clients.entries.filter fun c => keep c.2
  nodupKeys := List.NodupKeys.sublist List.filter_sublist clients.nodupKeys

def sweep : Relay Peer Payload Addr :=
  { s with clients := retain (fun c => s.now - c.lastSeen < secs clientIdleSecs) s.clients }

def forwarder? (outbound : ℕ) : Option (Forwarder Peer) :=
  s.forwarders.find? fun f => f.outbound = outbound

/-- The forwarder of the socket leaves its loop. -/
def stop (outbound : ℕ) : Relay Peer Payload Addr :=
  { s with forwarders := s.forwarders.filter fun f => f.outbound ≠ outbound }

def deliver (f : Forwarder Peer) (data : Payload) : Relay Peer Payload Addr :=
  { s with
    forwarders := s.forwarders.map fun g =>
      if g.outbound = f.outbound then { g with since := s.now } else g
    delivered := ⟨f.outbound, f.client, data⟩ :: s.delivered }

/-- The loop handles one arm of its `select!` at a time, so it neither receives nor sweeps while
it has a datagram to send on. -/
def step (s : Relay Peer Payload Addr) : Event Peer Payload Addr → Option (Relay Peer Payload Addr)
  | .received peer data bound =>
    if s.sending.isSome then none
    else
      let (s', outbound) := s.outboundFor peer bound
      some { s' with sending := outbound.map fun o => ⟨peer, o, data⟩ }
  | .recvError => if s.sending.isSome then none else some s
  | .forwarded found ok => s.sending.map fun out => s.send out found ok
  | .sweep => if s.sending.isSome then none else some s.sweep
  | .tick nanos => some { s with now := s.now + nanos }
  | .reply outbound data ok =>
    match s.forwarder? outbound with
    | none => some s
    | some f => if ok then some (s.deliver f data) else some (s.stop outbound)
  | .timeout outbound =>
    match s.forwarder? outbound with
    | none => none
    | some f =>
      if secs forwarderIdleSecs ≤ s.now - f.since then some (s.stop outbound) else none
  | .failed outbound => (s.forwarder? outbound).map fun _ => s.stop outbound

/-- What an event does, each way through `step` with what it found. -/
inductive Happens (s : Relay Peer Payload Addr) :
    Event Peer Payload Addr → Relay Peer Payload Addr → Prop
  | refreshed {peer data bound entry} : s.clients.lookup peer = some entry →
      s.Happens (.received peer data bound)
        { s.refresh peer entry with sending := some ⟨peer, entry.outbound, data⟩ }
  | registered {peer data} : s.sending = none → peer ∉ s.clients →
      s.clients.entries.length < maxClients →
      s.Happens (.received peer data true)
        { s.register peer with sending := some ⟨peer, s.sockets.length, data⟩ }
  | refused {peer data bound} : s.sending = none → peer ∉ s.clients →
      (maxClients ≤ s.clients.entries.length ∨ bound = false) →
      s.Happens (.received peer data bound) { s with sending := none }
  | recvError : s.Happens .recvError s
  | forwarded {found ok out} : s.sending = some out →
      s.Happens (.forwarded found ok) (s.send out found ok)
  | swept : s.Happens .sweep s.sweep
  | ticked {nanos} : s.Happens (.tick nanos) { s with now := s.now + nanos }
  | lost {outbound data ok} : s.forwarder? outbound = none →
      s.Happens (.reply outbound data ok) s
  | replied {outbound data f} : s.forwarder? outbound = some f →
      s.Happens (.reply outbound data true) (s.deliver f data)
  | stopped {e outbound f} : e.stops = some outbound → s.forwarder? outbound = some f →
      s.Happens e (s.stop outbound)

variable {s t : Relay Peer Payload Addr} {e : Event Peer Payload Addr}

theorem step_cases (h : s.step e = some t) : s.Happens e t := by
  cases e with
  | received peer data bound =>
    simp only [step, outboundFor] at h
    split at h
    · cases h
    · next idle =>
      have idle : s.sending = none := by simpa using idle
      cases found : s.clients.lookup peer with
      | some entry =>
        rw [found] at h
        cases h
        exact .refreshed found
      | none =>
        rw [found] at h
        have unknown : peer ∉ s.clients := AList.lookup_eq_none.mp found
        dsimp only at h
        split at h
        · next full =>
          cases h
          exact .refused idle unknown (.inl full)
        · next free =>
          cases bound with
          | true =>
            cases h
            exact .registered idle unknown (not_le.mp free)
          | false =>
            cases h
            exact .refused idle unknown (.inr rfl)
  | recvError =>
    simp only [step] at h
    split at h
    · cases h
    · cases h
      exact .recvError
  | forwarded found ok =>
    obtain ⟨out, pending, rfl⟩ := Option.map_eq_some_iff.mp h
    exact .forwarded pending
  | sweep =>
    simp only [step] at h
    split at h
    · cases h
    · cases h
      exact .swept
  | tick nanos =>
    cases h
    exact .ticked
  | reply outbound data ok =>
    cases running : s.forwarder? outbound with
    | none =>
      rw [step, running] at h
      cases h
      exact .lost running
    | some f =>
      rw [step, running] at h
      cases ok with
      | true =>
        cases h
        exact .replied running
      | false =>
        cases h
        exact .stopped rfl running
  | timeout outbound =>
    cases running : s.forwarder? outbound with
    | none =>
      rw [step, running] at h
      cases h
    | some f =>
      rw [step, running] at h
      dsimp only at h
      split at h
      · cases h
        exact .stopped rfl running
      · cases h
  | failed outbound =>
    obtain ⟨f, running, rfl⟩ := Option.map_eq_some_iff.mp h
    exact .stopped rfl running

end Relay

/-- `run_relay`, with the forwarders it spawns. -/
def runRelay : Machine (Relay Peer Payload Addr) (Event Peer Payload Addr) :=
  .ofStep (· = .initial) Relay.step

end Codery.UdpProxy
