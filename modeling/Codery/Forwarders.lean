import Codery.Sessions

/-! How long the reply forwarders live beside the client table: which clients they leave without
replies, and how many sessions they keep open. -/

namespace Codery.UdpProxy

open Codery.Effect

variable {Peer Payload Addr : Type} [DecidableEq Peer]

namespace Relay

/-- A forwarder runs for the client, on its current outbound socket. -/
def Attended (s : Relay Peer Payload Addr) : Prop :=
  ∀ p c, s.clients.lookup p = some c → ∃ f ∈ s.forwarders, f.outbound = c.outbound ∧ f.client = p

/-- Every client in the table is attended, and a reply that arrives on its outbound socket is
forwarded to it. -/
def Served (s : Relay Peer Payload Addr) : Prop :=
  s.Attended ∧ ∀ p c data, s.clients.lookup p = some c →
    ∃ t, s.step (.reply c.outbound data true) = some t ∧
      t.delivered = ⟨c.outbound, p, data⟩ :: s.delivered

/-- The sockets of the clients in the table. -/
def held (s : Relay Peer Payload Addr) : List ℕ := s.clients.entries.map (·.2.outbound)

variable {s t : Relay Peer Payload Addr} {e : Event Peer Payload Addr}

omit [DecidableEq Peer] in
theorem exists_forwarder? {f : Forwarder Peer} (h : f ∈ s.forwarders) :
    ∃ g, s.forwarder? f.outbound = some g := by
  apply Option.isSome_iff_exists.mp
  rw [forwarder?, List.find?_isSome]
  exact ⟨f, h, by simp⟩

theorem mem_held {o : ℕ} :
    o ∈ s.held ↔ ∃ p c, s.clients.lookup p = some c ∧ c.outbound = o := by
  constructor
  · intro h
    obtain ⟨⟨p, c⟩, hc, same⟩ := List.mem_map.mp h
    exact ⟨p, c, AList.mem_lookup_iff.mpr hc, same⟩
  · rintro ⟨p, c, hc, rfl⟩
    exact List.mem_map.mpr ⟨⟨p, c⟩, AList.mem_lookup_iff.mp hc, rfl⟩

theorem Isolated.served_iff_attended (h : s.Isolated) : s.Served ↔ s.Attended := by
  constructor
  · exact fun served => served.1
  · intro attended
    refine ⟨attended, fun p c data hc => ?_⟩
    obtain ⟨f, hf, same, -⟩ := attended p c hc
    obtain ⟨g, running⟩ := exists_forwarder? hf
    obtain ⟨hg, socket⟩ := forwarder?_some running
    have whose : g.client = p := by
      have made := h.forwarders g hg
      rw [socket, same] at made
      exact made.unique (h.clients p c hc)
    refine ⟨s.deliver g data, ?_, ?_⟩
    · rw [← same, Relay.step, running]
      rfl
    · simp [Relay.deliver, socket, same, whose]

theorem attended_initial : (initial : Relay Peer Payload Addr).Attended := by
  simp [Attended, initial]

theorem Attended.refresh {p : Peer} {c : ClientEntry} (h : s.Attended)
    (found : s.clients.lookup p = some c) : (s.refresh p c).Attended := by
  intro q d hd
  rw [lookup_refresh] at hd
  split at hd
  · next same =>
    subst same
    obtain rfl := Option.some.inj hd
    exact h q c found
  · exact h q d hd

theorem Attended.register {p : Peer} (h : s.Attended) : (s.register p).Attended := by
  intro q d hd
  rw [lookup_register] at hd
  split at hd
  · next same =>
    subst same
    obtain rfl := Option.some.inj hd
    exact ⟨_, .head _, rfl, rfl⟩
  · obtain ⟨f, hf, reads⟩ := h q d hd
    exact ⟨f, .tail _ hf, reads⟩

theorem Attended.send {out : Outgoing Peer Payload} {found : Option Addr} {ok : Bool}
    (h : s.Attended) : (s.send out found ok).Attended := by
  rw [Relay.send]
  split <;> exact h

theorem Attended.deliver {f : Forwarder Peer} {data : Payload} (h : s.Attended) :
    (s.deliver f data).Attended := by
  intro p c hc
  obtain ⟨g, hg, reads⟩ := h p c hc
  refine ⟨_, List.mem_map.mpr ⟨g, hg, rfl⟩, ?_⟩
  split <;> exact reads

/-- A forwarder that ends leaves a client alone exactly when its socket is still in the table. -/
theorem Attended.stop_iff {o : ℕ} (h : s.Attended) : (s.stop o).Attended ↔ o ∉ s.held := by
  rw [mem_held]
  constructor
  · rintro attended ⟨p, c, hc, rfl⟩
    obtain ⟨f, hf, same, -⟩ := attended p c hc
    simp [stop, same] at hf
  · intro free p c hc
    obtain ⟨f, hf, same, whose⟩ := h p c hc
    have other : f.outbound ≠ o := fun hit => free ⟨p, c, hc, same ▸ hit⟩
    exact ⟨f, by simp [stop, hf, other], same, whose⟩

end Relay

/-- The event ends the forwarder of a socket. -/
def Ends (m : Move (Relay Peer Payload Addr) (Event Peer Payload Addr)) (o : ℕ) : Prop :=
  m.event.stops = some o ∧ (m.source.forwarder? o).isSome

open Relay in
theorem attended_step_iff {s t : Relay Peer Payload Addr} {e : Event Peer Payload Addr}
    (h : s.Attended) (hstep : s.step e = some t) :
    t.Attended ↔ ∀ o, Ends ⟨s, e, t⟩ o → o ∉ s.held := by
  have nothing {e : Event Peer Payload Addr} (none : e.stops = none) :
      ∀ o, Ends ⟨s, e, t⟩ o → o ∉ s.held := by
    rintro o ⟨ends, -⟩
    rw [none] at ends
    cases ends
  cases step_cases hstep with
  | refreshed found => exact iff_of_true (h.refresh found) (nothing rfl)
  | registered => exact iff_of_true h.register (nothing rfl)
  | refused => exact iff_of_true h (nothing rfl)
  | recvError => exact iff_of_true h (nothing rfl)
  | forwarded => exact iff_of_true h.send (nothing rfl)
  | swept => exact iff_of_true (fun p c hc => h p c (lookup_sweep hc)) (nothing rfl)
  | ticked => exact iff_of_true h (nothing rfl)
  | @lost o data ok none =>
    refine iff_of_true h fun o' ⟨ends, running⟩ => ?_
    cases ok with
    | true => cases ends
    | false =>
      obtain rfl := Option.some.inj ends
      simp [none] at running
  | replied => exact iff_of_true h.deliver (nothing rfl)
  | @stopped _ o f stops running =>
    rw [h.stop_iff]
    constructor
    · rintro free o' ⟨ends, -⟩
      obtain rfl := Option.some.inj (stops.symm.trans ends)
      exact free
    · intro free
      exact free o ⟨stops, by simp [running]⟩

variable {s : Relay Peer Payload Addr}
  {l : List (Move (Relay Peer Payload Addr) (Event Peer Payload Addr))}

/-- The clock runs on in steps of the sweeper's interval, and the sweeper ticks. -/
def idle (intervals : ℕ) : List (Event Peer Payload Addr) :=
  (List.replicate intervals [.tick (secs sweepIntervalSecs), .sweep]).flatten

/-- Every client in the table is served throughout a run exactly when no forwarder ends while its
socket is in the table. -/
theorem served_iff (run : runRelay.Run l s) :
    Machine.Always Relay.Served l s ↔ ∀ m ∈ l, ∀ o, Ends m o → o ∉ m.source.held := by
  have isolated := isolated_run run
  have attended : Machine.Always Relay.Attended l s ↔ ∀ m ∈ l, ∀ o, Ends m o → o ∉ m.source.held := by
    refine run.always_iff isolated ?_ fun s e t _ hs hstep => attended_step_iff hs hstep
    rintro s rfl
    exact Relay.attended_initial
  rw [← attended]
  constructor
  · exact fun h => h.imp fun x hx => hx.1
  · rintro ⟨now, before⟩
    refine ⟨isolated.1.served_iff_attended.mpr now, fun m hm => ?_⟩
    exact (isolated.2 m hm).served_iff_attended.mpr (before m hm)

/-- A client sends for five minutes to a server that does not answer: its forwarder gives up, and
it stays in the table. -/
theorem silent_run : ∃ l s, (runRelay : Machine (Relay ℕ ℕ ℕ) (Event ℕ ℕ ℕ)).Run l s ∧
    ¬ s.Served := by
  have played : ∃ l s, (runRelay : Machine (Relay ℕ ℕ ℕ) (Event ℕ ℕ ℕ)).Run l s ∧
      ((s.clients.lookup 7).isSome && s.forwarders.isEmpty) = true :=
    Machine.exists_run rfl
      ([.received 7 0 true, .forwarded (some 1) true] ++ idle 6 ++
        [.received 7 0 true, .forwarded none true] ++ idle 4 ++ [.timeout 0])
      (by decide)
  obtain ⟨l, s, run, seen⟩ := played
  obtain ⟨known, none⟩ := Bool.and_eq_true_iff.mp seen
  obtain ⟨c, found⟩ := Option.isSome_iff_exists.mp known
  refine ⟨l, s, run, fun served => ?_⟩
  obtain ⟨f, hf, -⟩ := served.1 7 c found
  rw [List.isEmpty_iff.mp none] at hf
  cases hf

theorem not_always_served : ¬ ∀ (l : List (Move (Relay ℕ ℕ ℕ) (Event ℕ ℕ ℕ))) (s : Relay ℕ ℕ ℕ),
    runRelay.Run l s → Machine.Always Relay.Served l s := by
  intro always
  obtain ⟨l, s, run, left⟩ := silent_run
  exact left (always l s run).1

/-- A client is answered once and then falls silent: it is evicted, and its forwarder gives up
later. -/
theorem answered_run : ∃ l s, (runRelay : Machine (Relay ℕ ℕ ℕ) (Event ℕ ℕ ℕ)).Run l s ∧
    (7 ∉ s.clients ∧ s.delivered ≠ [] ∧ s.forwarders = []) ∧
    ∀ m ∈ l, ∀ o, Ends m o → o ∉ m.source.held := by
  have played : ∃ l s, (runRelay : Machine (Relay ℕ ℕ ℕ) (Event ℕ ℕ ℕ)).Run l s ∧
      ((s.clients.lookup 7).isNone && !s.delivered.isEmpty && s.forwarders.isEmpty &&
        l.all fun m => m.event.stops.all fun o => decide (o ∉ m.source.held)) = true :=
    Machine.exists_run_moves rfl
      ([.received 7 0 true, .forwarded (some 1) true, .tick (secs 200), .reply 0 5 true] ++ idle 4 ++
        [.tick (secs 300), .timeout 0])
      (by decide)
  obtain ⟨l, s, run, seen⟩ := played
  simp only [Bool.and_eq_true, Bool.not_eq_true', List.isEmpty_iff, List.isEmpty_eq_false_iff,
    Option.isNone_iff_eq_none, List.all_eq_true] at seen
  obtain ⟨⟨⟨gone, answered⟩, ended⟩, stops⟩ := seen
  refine ⟨l, s, run, ⟨AList.lookup_eq_none.mp gone, answered, ended⟩, ?_⟩
  rintro m hm o ⟨ends, -⟩
  have free := stops m hm
  rw [ends] at free
  exact of_decide_eq_true free

theorem served_iff_silent :
    (∃ (l : List (Move (Relay ℕ ℕ ℕ) (Event ℕ ℕ ℕ))) (s : Relay ℕ ℕ ℕ),
      runRelay.Run l s ∧ ¬ ∀ m ∈ l, ∀ o, Ends m o → o ∉ m.source.held) ∧
    ∃ (l : List (Move (Relay ℕ ℕ ℕ) (Event ℕ ℕ ℕ))) (s : Relay ℕ ℕ ℕ),
      (7 ∉ s.clients ∧ s.delivered ≠ [] ∧ s.forwarders = []) ∧
        Machine.Always Relay.Served l s := by
  constructor
  · obtain ⟨l, s, run, left⟩ := silent_run
    exact ⟨l, s, run, fun met => left ((served_iff run).mpr met).1⟩
  · obtain ⟨l, s, run, seen, met⟩ := answered_run
    exact ⟨l, s, seen, (served_iff run).mpr met⟩

/-- The sessions that are live: the outbound sockets with a running forwarder. -/
def Relay.sessions (s : Relay Peer Payload Addr) : Finset ℕ :=
  (s.forwarders.map (·.outbound)).toFinset

/-- The forwarders of the clients in the table. -/
def Relay.serving (s : Relay Peer Payload Addr) : List (Forwarder Peer) :=
  s.forwarders.filter fun f => f.outbound ∈ s.held

/-- The forwarders that outlive the eviction of their clients. -/
def Relay.lingering (s : Relay Peer Payload Addr) : List (Forwarder Peer) :=
  s.forwarders.filter fun f => f.outbound ∉ s.held

/-- The event gives a peer that is not in the table a session. -/
def Admits (m : Move (Relay Peer Payload Addr) (Event Peer Payload Addr)) : Prop :=
  ∃ p data, m.event = .received p data true ∧ p ∉ m.source.clients ∧
    m.source.clients.entries.length < maxClients

theorem Relay.Isolated.card_sessions (h : s.Isolated) :
    s.sessions.card = s.forwarders.length := by
  rw [sessions, List.toFinset_card_of_nodup h.each, List.length_map]

omit [DecidableEq Peer] in
theorem Relay.serving_add_lingering :
    s.serving.length + s.lingering.length = s.forwarders.length := by
  simpa [serving, lingering] using
    (List.length_eq_length_filter_add (l := s.forwarders) fun f => f.outbound ∈ s.held).symm

open Relay in
theorem capped_step_iff {s t : Relay Peer Payload Addr} {e : Event Peer Payload Addr}
    (isolated : s.Isolated) (h : s.sessions.card ≤ maxClients) (hstep : s.step e = some t) :
    t.sessions.card ≤ maxClients ↔
      (Admits ⟨s, e, t⟩ → s.serving.length + s.lingering.length < maxClients) := by
  rw [(isolated.step hstep).card_sessions, serving_add_lingering]
  rw [isolated.card_sessions] at h
  have nothing {e : Event Peer Payload Addr} (other : ∀ p data, e ≠ .received p data true) :
      Admits ⟨s, e, t⟩ → s.forwarders.length < maxClients := by
    rintro ⟨p, data, hit, -⟩
    exact absurd hit (other p data)
  cases step_cases hstep with
  | refreshed found =>
    refine iff_of_true h ?_
    rintro ⟨p, data, hit, unknown, -⟩
    cases hit
    exact absurd (AList.lookup_isSome.mp (Option.isSome_of_eq_some found)) unknown
  | @registered p data _ unknown free =>
    change s.forwarders.length + 1 ≤ maxClients ↔ _
    constructor
    · exact fun capped _ => Nat.lt_of_succ_le capped
    · exact fun below => Nat.succ_le_of_lt (below ⟨p, data, rfl, unknown, free⟩)
  | @refused p data bound _ _ why =>
    refine iff_of_true h ?_
    rintro ⟨q, data, hit, -, free⟩
    cases hit
    rcases why with full | unbound
    · exact absurd free (not_lt.mpr full)
    · cases unbound
  | recvError => exact iff_of_true h (nothing (by rintro p data ⟨⟩))
  | forwarded =>
    refine iff_of_true ?_ (nothing (by rintro p data ⟨⟩))
    rw [Relay.send]
    split <;> exact h
  | swept => exact iff_of_true h (nothing (by rintro p data ⟨⟩))
  | ticked => exact iff_of_true h (nothing (by rintro p data ⟨⟩))
  | lost => exact iff_of_true h (nothing (by rintro p data ⟨⟩))
  | replied =>
    refine iff_of_true ?_ (nothing (by rintro p data ⟨⟩))
    rw [Relay.deliver, List.length_map]
    exact h
  | stopped stops =>
    refine iff_of_true ((List.length_filter_le _ _).trans h) (nothing ?_)
    rintro p data rfl
    cases stops

/-- The live sessions stay within the cap throughout a run exactly when each peer is admitted at
a moment when the forwarders of the table's clients and those of evicted ones are fewer. -/
theorem sessions_capped_iff (run : runRelay.Run l s) :
    Machine.Always (fun x : Relay Peer Payload Addr => x.sessions.card ≤ maxClients) l s ↔
      ∀ m ∈ l, Admits m → m.source.serving.length + m.source.lingering.length < maxClients := by
  refine run.always_iff (isolated_run run) ?_ fun s e t hs h hstep => capped_step_iff hs h hstep
  rintro s rfl
  exact Nat.zero_le _

/-- The forwarders of the table's clients are no more than the table has entries. -/
theorem Relay.Isolated.length_serving (h : s.Isolated) :
    s.serving.length ≤ s.clients.entries.length := by
  have nodup : (s.serving.map (·.outbound)).Nodup := h.each.sublist (List.filter_sublist.map _)
  have within : s.serving.map (·.outbound) ⊆ s.held := by
    intro o ho
    obtain ⟨f, hf, rfl⟩ := List.mem_map.mp ho
    exact of_decide_eq_true (List.mem_filter.mp hf).2
  simpa [Relay.held] using (List.subperm_of_subset nodup within).length_le

/-- No forwarder outlives the eviction of its client. -/
def Relay.Accounted (s : Relay Peer Payload Addr) : Prop := ∀ f ∈ s.forwarders, f.outbound ∈ s.held

omit [DecidableEq Peer] in
theorem Relay.Accounted.lingering (h : s.Accounted) : s.lingering = [] := by
  simpa [Relay.lingering, Relay.Accounted, List.filter_eq_nil_iff] using h

/-- Where peers are admitted only while no forwarder outlives the eviction of its client, the test
of the table is one of the sessions, and they stay within the cap. -/
theorem sessions_capped (run : runRelay.Run l s)
    (accounted : ∀ m ∈ l, Admits m → m.source.Accounted) :
    Machine.Always (fun x : Relay Peer Payload Addr => x.sessions.card ≤ maxClients) l s := by
  refine (sessions_capped_iff run).mpr fun m hm admits => ?_
  have isolated := (isolated_run run).2 m hm
  have free : m.source.clients.entries.length < maxClients := admits.choose_spec.choose_spec.2.2
  rw [(accounted m hm admits).lingering, List.length_nil, Nat.add_zero]
  exact isolated.length_serving.trans_lt free

/-- The sweep evicts no client whose forwarder runs. -/
def SparesRunning (m : Move (Relay Peer Payload Addr) (Event Peer Payload Addr)) : Prop :=
  m.event = .sweep → ∀ f ∈ m.source.forwarders, f.outbound ∈ m.source.held →
    f.outbound ∈ m.source.sweep.held

open Relay in
theorem Relay.Accounted.step {s t : Relay Peer Payload Addr} {e : Event Peer Payload Addr}
    (h : s.Accounted) (spares : SparesRunning ⟨s, e, t⟩) (hstep : s.step e = some t) :
    t.Accounted := by
  cases step_cases hstep with
  | @refreshed p _ _ c found =>
    intro f hf
    obtain ⟨q, d, hd, same⟩ := mem_held.mp (h f hf)
    refine mem_held.mpr ?_
    by_cases whose : q = p
    · subst whose
      obtain rfl := Option.some.inj (found.symm.trans hd)
      exact ⟨q, _, lookup_refresh.trans (if_pos rfl), same⟩
    · exact ⟨q, d, lookup_refresh.trans ((if_neg whose).trans hd), same⟩
  | @registered p _ _ unknown _ =>
    intro f hf
    refine mem_held.mpr ?_
    cases hf with
    | head => exact ⟨p, _, lookup_register.trans (if_pos rfl), rfl⟩
    | tail _ hf =>
      obtain ⟨q, d, hd, same⟩ := mem_held.mp (h f hf)
      have other : q ≠ p := by
        rintro rfl
        exact unknown (AList.lookup_isSome.mp (Option.isSome_of_eq_some hd))
      exact ⟨q, d, lookup_register.trans ((if_neg other).trans hd), same⟩
  | forwarded =>
    rw [Relay.send]
    split <;> exact h
  | swept => exact fun f hf => spares rfl f hf (h f hf)
  | replied =>
    intro f hf
    obtain ⟨g, hg, same, -⟩ := mem_deliver hf
    exact same ▸ h g hg
  | stopped => exact fun f hf => h f (List.mem_of_mem_filter hf)
  | refused | recvError | ticked | lost => exact h

/-- It is enough that no sweep evicts a client whose forwarder runs. -/
theorem accounted_run (run : runRelay.Run l s) (spares : ∀ m ∈ l, SparesRunning m) :
    Machine.Always Relay.Accounted l s := by
  refine run.always_of ?_ (fun s e t hs hm hstep => hs.step hm hstep) spares
  rintro s rfl f hf
  cases hf

/-- Sixteen clients fall silent and are evicted while the server goes on sending to them; a
seventeenth is admitted. -/
theorem lingering_run : ∃ l s, (runRelay : Machine (Relay ℕ ℕ ℕ) (Event ℕ ℕ ℕ)).Run l s ∧
    ¬ s.sessions.card ≤ maxClients := by
  have played : ∃ l s, (runRelay : Machine (Relay ℕ ℕ ℕ) (Event ℕ ℕ ℕ)).Run l s ∧
      decide (s.sessions.card = 17) = true :=
    Machine.exists_run rfl
      ((List.range 16).flatMap (fun p => [.received p 0 true, .forwarded (some 1) true]) ++
        idle 5 ++ (List.range 16).map (fun p => .reply p 0 true) ++ idle 5 ++
        [.received 16 0 true, .forwarded (some 1) true])
      (by decide)
  obtain ⟨l, s, run, seen⟩ := played
  exact ⟨l, s, run, by rw [of_decide_eq_true seen]; decide⟩

theorem not_always_capped :
    ¬ ∀ (l : List (Move (Relay ℕ ℕ ℕ) (Event ℕ ℕ ℕ))) (s : Relay ℕ ℕ ℕ),
      runRelay.Run l s → Machine.Always (fun x => x.sessions.card ≤ maxClients) l s := by
  intro always
  obtain ⟨l, s, run, exceeded⟩ := lingering_run
  exact exceeded (always l s run).1

/-- A silent client's forwarder gives up, the client is evicted, and another one is admitted. -/
theorem sessions_capped_evicted : ∃ (l : List (Move (Relay ℕ ℕ ℕ) (Event ℕ ℕ ℕ))) (s : Relay ℕ ℕ ℕ),
    (7 ∉ s.clients ∧ 8 ∈ s.clients) ∧
      Machine.Always (fun x => x.sessions.card ≤ maxClients) l s := by
  have played : ∃ l s, (runRelay : Machine (Relay ℕ ℕ ℕ) (Event ℕ ℕ ℕ)).Run l s ∧
      ((s.clients.lookup 7).isNone && (s.clients.lookup 8).isSome && l.all fun m =>
        match m.event with
        | .sweep => m.source.forwarders.all fun f => decide (f.outbound ∈ m.source.sweep.held)
        | _ => true) = true :=
    Machine.exists_run_moves rfl
      ([.received 7 0 true, .forwarded (some 1) true] ++ idle 9 ++
        [.tick (secs 30), .timeout 0, .sweep, .received 8 0 true])
      (by decide)
  obtain ⟨l, s, run, seen⟩ := played
  simp only [Bool.and_eq_true, Option.isNone_iff_eq_none, List.all_eq_true] at seen
  obtain ⟨⟨gone, known⟩, spares⟩ := seen
  refine ⟨l, s, ⟨AList.lookup_eq_none.mp gone, AList.lookup_isSome.mp known⟩, ?_⟩
  have accounted : Machine.Always Relay.Accounted l s := by
    refine accounted_run run fun m hm swept f hf _ => ?_
    have kept := spares m hm
    rw [swept] at kept
    exact of_decide_eq_true (List.all_eq_true.mp kept f hf)
  exact sessions_capped run fun m hm _ => accounted.2 m hm

end Codery.UdpProxy
