import Codery.UdpProxy
import Mathlib.Data.Finset.Card

/-! What the relay keeps for each client: the sockets it uses, the forwarder that answers it and
the number of sessions. -/

namespace Codery.UdpProxy

open Codery.Effect

variable {Peer Payload Addr : Type}

namespace Relay

/-- The outbound socket was bound for the peer. -/
def MadeFor (s : Relay Peer Payload Addr) (outbound : ℕ) (peer : Peer) : Prop :=
  s.sockets[outbound]? = some peer

section Sockets

variable {s : Relay Peer Payload Addr} {o : ℕ} {p q : Peer}

theorem MadeFor.unique (hp : s.MadeFor o p) (hq : s.MadeFor o q) : p = q :=
  Option.some.inj (hp.symm.trans hq)

theorem MadeFor.lt (h : s.MadeFor o p) : o < s.sockets.length :=
  (List.getElem?_eq_some_iff.mp h).1

theorem forwarder?_some {f : Forwarder Peer} (h : s.forwarder? o = some f) :
    f ∈ s.forwarders ∧ f.outbound = o :=
  ⟨List.mem_of_find?_eq_some h, by simpa using List.find?_some h⟩

theorem outbounds_deliver {f : Forwarder Peer} {data : Payload} :
    (s.deliver f data).forwarders.map (·.outbound) = s.forwarders.map (·.outbound) := by
  simp only [Relay.deliver, List.map_map]
  refine List.map_congr_left fun g _ => ?_
  dsimp only [Function.comp]
  split <;> rfl

theorem mem_deliver {f g : Forwarder Peer} {data : Payload}
    (h : g ∈ (s.deliver f data).forwarders) :
    ∃ g' ∈ s.forwarders, g'.outbound = g.outbound ∧ g'.client = g.client := by
  obtain ⟨g', hg', rfl⟩ := List.mem_map.mp h
  refine ⟨g', hg', ?_⟩
  split <;> exact ⟨rfl, rfl⟩

end Sockets

variable [DecidableEq Peer] {s t : Relay Peer Payload Addr} {e : Event Peer Payload Addr}

/-- Whatever holds a socket for a peer holds one that was bound for that peer. -/
structure Isolated (s : Relay Peer Payload Addr) : Prop where
  clients : ∀ p c, s.clients.lookup p = some c → s.MadeFor c.outbound p
  forwarders : ∀ f ∈ s.forwarders, s.MadeFor f.outbound f.client
  each : (s.forwarders.map (·.outbound)).Nodup
  sending : ∀ out, s.sending = some out → s.MadeFor out.outbound out.peer
  sent : ∀ x ∈ s.sent, s.MadeFor x.1.outbound x.1.peer
  delivered : ∀ r ∈ s.delivered, s.MadeFor r.outbound r.client
  bounded : s.clients.entries.length ≤ maxClients

theorem MadeFor.register {o : ℕ} {p q : Peer} (h : s.MadeFor o p) : (s.register q).MadeFor o p := by
  have old := h.lt
  simpa [MadeFor, Relay.register, List.getElem?_append_left old] using h

theorem madeFor_register (p : Peer) : (s.register p).MadeFor s.sockets.length p := by
  simp [MadeFor, Relay.register]

theorem lookup_register {p q : Peer} :
    (s.register p).clients.lookup q =
      if q = p then some ⟨s.sockets.length, s.now⟩ else s.clients.lookup q := by
  split
  · next h => rw [h, Relay.register, AList.lookup_insert]
  · next h => rw [Relay.register, AList.lookup_insert_ne h]

theorem lookup_refresh {p q : Peer} {c : ClientEntry} :
    (s.refresh p c).clients.lookup q =
      if q = p then some { c with lastSeen := s.now } else s.clients.lookup q := by
  split
  · next h => rw [h, Relay.refresh, AList.lookup_insert]
  · next h => rw [Relay.refresh, AList.lookup_insert_ne h]

theorem lookup_sweep {p : Peer} {c : ClientEntry} (h : s.sweep.clients.lookup p = some c) :
    s.clients.lookup p = some c := by
  have kept := AList.mem_lookup_iff.mp (Option.mem_def.mpr h)
  exact AList.mem_lookup_iff.mpr (List.mem_of_mem_filter kept)

theorem length_insert_of_mem {m : AList fun _ : Peer => ClientEntry} {p : Peer} {c : ClientEntry}
    (h : p ∈ m) : (m.insert p c).entries.length = m.entries.length := by
  have present := AList.mem_keys.mp h
  have positive := List.length_pos_of_mem present
  have keys : (m.insert p c).keys.length = m.keys.length := by
    rw [AList.keys_insert, List.length_cons, List.length_erase_of_mem present]
    omega
  simpa [AList.keys, List.keys] using keys

theorem isolated_initial : (initial : Relay Peer Payload Addr).Isolated := by
  constructor <;> simp [initial]

/-- What the loop holds to send on does not matter to the rest. -/
theorem Isolated.hold (h : s.Isolated) {out : Option (Outgoing Peer Payload)}
    (made : ∀ x, out = some x → s.MadeFor x.outbound x.peer) :
    ({ s with sending := out } : Relay Peer Payload Addr).Isolated :=
  { h with sending := made }

theorem Isolated.refresh {p : Peer} {c : ClientEntry} (h : s.Isolated)
    (found : s.clients.lookup p = some c) : (s.refresh p c).Isolated :=
  { h with
    clients := by
      intro q d hd
      rw [lookup_refresh] at hd
      split at hd
      · next same =>
        subst same
        obtain rfl := Option.some.inj hd
        exact h.clients q c found
      · exact h.clients q d hd
    bounded := by
      have present : p ∈ s.clients := AList.lookup_isSome.mp (Option.isSome_of_eq_some found)
      exact (length_insert_of_mem present).trans_le h.bounded }

theorem Isolated.register {p : Peer} (h : s.Isolated) (unknown : p ∉ s.clients)
    (free : s.clients.entries.length < maxClients) : (s.register p).Isolated where
  clients := by
    intro q d hd
    rw [lookup_register] at hd
    split at hd
    · next same =>
      subst same
      obtain rfl := Option.some.inj hd
      exact madeFor_register q
    · exact (h.clients q d hd).register
  forwarders := by
    intro f hf
    rcases List.mem_cons.mp hf with rfl | hf
    · exact madeFor_register p
    · exact (h.forwarders f hf).register
  each := by
    have fresh : s.sockets.length ∉ s.forwarders.map (·.outbound) := by
      intro used
      obtain ⟨f, hf, same⟩ := List.mem_map.mp used
      exact (h.forwarders f hf).lt.ne same
    exact List.nodup_cons.mpr ⟨fresh, h.each⟩
  sending out hout := (h.sending out hout).register
  sent x hx := (h.sent x hx).register
  delivered r hr := (h.delivered r hr).register
  bounded := by
    have grown : (s.register p).clients.entries.length = s.clients.entries.length + 1 := by
      rw [Relay.register, AList.entries_insert_of_notMem unknown, List.length_cons]
    omega

theorem Isolated.stop {o : ℕ} (h : s.Isolated) : (s.stop o).Isolated :=
  { h with
    forwarders := fun f hf => h.forwarders f (List.mem_of_mem_filter hf)
    each := h.each.sublist (List.filter_sublist.map _) }

theorem Isolated.deliver {f : Forwarder Peer} {data : Payload} (h : s.Isolated)
    (running : f ∈ s.forwarders) : (s.deliver f data).Isolated :=
  { h with
    forwarders := by
      intro g hg
      obtain ⟨g', hg', same, whose⟩ := mem_deliver hg
      exact same ▸ whose ▸ h.forwarders g' hg'
    each := by
      rw [outbounds_deliver]
      exact h.each
    delivered := by
      intro r hr
      rcases List.mem_cons.mp hr with rfl | hr
      · exact h.forwarders f running
      · exact h.delivered r hr }

theorem Isolated.sweep (h : s.Isolated) : s.sweep.Isolated :=
  { h with
    clients := fun p c hc => h.clients p c (lookup_sweep hc)
    bounded := (List.length_filter_le _ _).trans h.bounded }

theorem Isolated.send {out : Outgoing Peer Payload} {found : Option Addr} {ok : Bool}
    (h : s.Isolated) (pending : s.sending = some out) : (s.send out found ok).Isolated := by
  rw [Relay.send]
  split
  · exact h.hold nofun
  · next server _ =>
    refine { h with sending := nofun, sent := ?_ }
    intro x hx
    cases ok with
    | false => exact h.sent x hx
    | true =>
      rcases List.mem_cons.mp hx with rfl | hx
      · exact h.sending out pending
      · exact h.sent x hx

theorem Isolated.step (h : s.Isolated) (hstep : s.step e = some t) : t.Isolated := by
  cases step_cases hstep with
  | refreshed found =>
    refine (h.refresh found).hold ?_
    intro x hx
    obtain rfl := Option.some.inj hx
    exact h.clients _ _ found
  | registered _ unknown free =>
    refine (h.register unknown free).hold ?_
    intro x hx
    obtain rfl := Option.some.inj hx
    exact madeFor_register _
  | refused => exact h.hold nofun
  | recvError => exact h
  | forwarded pending => exact h.send pending
  | swept => exact h.sweep
  | ticked => exact { h with }
  | lost => exact h
  | replied running => exact h.deliver (forwarder?_some running).1
  | stopped => exact h.stop

/-- What has been sent on was received, and what has been delivered arrived. -/
structure Logged (l : List (Move (Relay Peer Payload Addr) (Event Peer Payload Addr)))
    (s : Relay Peer Payload Addr) : Prop where
  sending : ∀ out, s.sending = some out →
    ∃ m ∈ l, ∃ bound, m.event = .received out.peer out.data bound
  sent : ∀ x ∈ s.sent, ∃ m ∈ l, ∃ bound, m.event = .received x.1.peer x.1.data bound
  delivered : ∀ r ∈ s.delivered, ∃ m ∈ l, m.event = .reply r.outbound r.data true

variable {s : Relay Peer Payload Addr}
  {l : List (Move (Relay Peer Payload Addr) (Event Peer Payload Addr))}

omit [DecidableEq Peer] in
theorem Logged.later {m : Move (Relay Peer Payload Addr) (Event Peer Payload Addr)}
    (h : s.Logged l) : s.Logged (m :: l) := by
  constructor
  · intro out hout
    obtain ⟨m, hm, found⟩ := h.sending out hout
    exact ⟨m, .tail _ hm, found⟩
  · intro x hx
    obtain ⟨m, hm, found⟩ := h.sent x hx
    exact ⟨m, .tail _ hm, found⟩
  · intro r hr
    obtain ⟨m, hm, found⟩ := h.delivered r hr
    exact ⟨m, .tail _ hm, found⟩

end Relay

variable [DecidableEq Peer] {s : Relay Peer Payload Addr}
  {l : List (Move (Relay Peer Payload Addr) (Event Peer Payload Addr))}

theorem isolated_run (run : runRelay.Run l s) : Machine.Always Relay.Isolated l s := by
  refine run.always ?_ fun s e t hs hstep => hs.step hstep
  rintro s rfl
  exact Relay.isolated_initial

theorem logged_run (run : runRelay.Run l s) : s.Logged l := by
  induction run with
  | start hs =>
    subst hs
    constructor <;> simp [Relay.initial]
  | @step l s e t _ hstep ih =>
    have earlier := ih.later (m := ⟨s, e, t⟩)
    have latest : (⟨s, e, t⟩ : Move _ _).event = e := rfl
    generalize (⟨s, e, t⟩ : Move _ _) = m at earlier latest ⊢
    cases Relay.step_cases hstep with
    | @refreshed peer data bound entry =>
      refine { earlier with sending := ?_ }
      intro out hout
      obtain rfl := Option.some.inj hout
      exact ⟨m, .head _, bound, latest⟩
    | registered =>
      refine { earlier with sending := ?_ }
      intro out hout
      obtain rfl := Option.some.inj hout
      exact ⟨m, .head _, true, latest⟩
    | refused => exact { earlier with sending := nofun }
    | recvError => exact earlier
    | @forwarded found ok out pending =>
      rw [Relay.send]
      split
      · exact { earlier with sending := nofun }
      · refine { earlier with sending := nofun, sent := ?_ }
        intro x hx
        cases ok with
        | false => exact earlier.sent x hx
        | true =>
          rcases List.mem_cons.mp hx with rfl | hx
          · exact earlier.sending out pending
          · exact earlier.sent x hx
    | swept => exact { earlier with }
    | ticked => exact { earlier with }
    | lost => exact earlier
    | @replied outbound data f running =>
      refine { earlier with delivered := ?_ }
      intro r hr
      rcases List.mem_cons.mp hr with rfl | hr
      · obtain ⟨-, rfl⟩ := Relay.forwarder?_some running
        exact ⟨m, .head _, latest⟩
      · exact earlier.delivered r hr
    | stopped => exact { earlier with }

/-- The table stays within its cap and shares no socket; a peer's datagrams leave through the
socket bound for that peer; what a client is sent arrived on a socket bound for that client, and
on no other's. -/
theorem relay_isolates (run : runRelay.Run l s) :
    s.clients.entries.length ≤ maxClients ∧
    (∀ p q c d, s.clients.lookup p = some c → s.clients.lookup q = some d →
      c.outbound = d.outbound → p = q) ∧
    (∀ x ∈ s.sent, s.MadeFor x.1.outbound x.1.peer ∧
      ∃ m ∈ l, ∃ bound, m.event = .received x.1.peer x.1.data bound) ∧
    (∀ r ∈ s.delivered, s.MadeFor r.outbound r.client ∧
      ∃ m ∈ l, m.event = .reply r.outbound r.data true) ∧
    ∀ r ∈ s.delivered, ∀ p, s.MadeFor r.outbound p → p = r.client := by
  have now := (isolated_run run).1
  have logged := logged_run run
  refine ⟨now.bounded, ?_, ?_, ?_, ?_⟩
  · intro p q c d hc hd same
    have madeP := now.clients p c hc
    have madeQ := now.clients q d hd
    rw [← same] at madeQ
    exact madeP.unique madeQ
  · exact fun x hx => ⟨now.sent x hx, logged.sent x hx⟩
  · exact fun r hr => ⟨now.delivered r hr, logged.delivered r hr⟩
  · exact fun r hr p hp => hp.unique (now.delivered r hr)

/-- A client is evicted, comes back, and gets a reply on its old socket and one on its new. -/
theorem relay_isolates_returning : ∃ s : Relay ℕ ℕ ℕ,
    s.delivered.map (fun r => (r.outbound, r.client)) = [(1, 7), (0, 7), (0, 7)] ∧
    s.clients.entries.length ≤ maxClients ∧
    ∀ r ∈ s.delivered, ∀ p, s.MadeFor r.outbound p → p = r.client := by
  have played : ∃ l s, (runRelay : Machine (Relay ℕ ℕ ℕ) _).Run l s ∧
      decide (s.delivered.map (fun r => (r.outbound, r.client)) = [(1, 7), (0, 7), (0, 7)]) = true :=
    Machine.exists_run rfl
      [.received 7 0 true, .forwarded (some 1) true, .tick (secs 200), .reply 0 5 true,
        .tick (secs 100), .sweep, .received 7 0 true, .forwarded none true, .reply 0 5 true,
        .reply 1 6 true] (by decide)
  obtain ⟨l, s, run, seen⟩ := played
  have isolated := relay_isolates run
  exact ⟨s, of_decide_eq_true seen, isolated.1, isolated.2.2.2.2⟩

end Codery.UdpProxy
