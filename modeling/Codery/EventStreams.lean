import Codery.Effect.Broadcast
import Codery.Effect.Machine

/-! The event streams of the dashboard (`ui.rs`).  `get_events` and `get_metrics_stream` subscribe to
a broadcast channel, build a first message, and then pass on what they receive. -/

namespace Codery.EventStreams

open Codery.Effect

inductive Feed
  | events
  | metrics

/-- The capacity the channel of a feed is made with. -/
def Feed.capacity : Feed → ℕ
  | .events => 64
  | .metrics => 32

theorem Feed.capacity_pos (feed : Feed) : 0 < feed.capacity := by cases feed <;> decide

variable {μ : Type}

/-- Where a handler stands: it builds its first message, or returns it next, or receives; or the
client is gone. -/
inductive Stage (μ : Type)
  | building
  | initial (m : μ)
  | live
  | closed
  deriving DecidableEq

structure Stream (μ : Type) where
  next : ℕ
  stage : Stage μ
  /-- What the client has been sent. -/
  sent : List μ

structure Server (μ : Type) where
  channel : Channel μ := .empty
  streams : List (Stream μ) := []

inductive Event (μ : Type)
  | publish (m : μ)
  | connect
  | built (i : ℕ) (m : μ)
  | poll (i : ℕ)
  | close (i : ℕ)

def Stream.listens (st : Stream μ) : Bool :=
  match st.stage with
  | .closed => false
  | _ => true

def subscribe (c : Channel μ) : Stream μ := ⟨c.tail, .building, []⟩

def Stream.built (m : μ) (st : Stream μ) : Option (Stream μ) :=
  match st.stage with
  | .building => some { st with stage := .initial m }
  | _ => none

/-- One turn of the stream's closure: the first message, or one `recv`. -/
def Stream.poll (c : Channel μ) (st : Stream μ) : Option (Stream μ) :=
  match st.stage with
  | .initial m => some { st with stage := .live, sent := st.sent ++ [m] }
  | .live =>
    match c.recv st.next with
    | (.message m, next) => some { st with next, sent := st.sent ++ [m] }
    | (.lagged _, next) => some { st with next }
    | (.empty, next) => some { st with next }
  | _ => none

def Server.update (s : Server μ) (i : ℕ) (f : Stream μ → Option (Stream μ)) : Option (Server μ) :=
  (s.streams[i]?.bind f).map fun st => { s with streams := s.streams.set i st }

/-- A message is stored only while someone listens. -/
def step (feed : Feed) (s : Server μ) : Event μ → Option (Server μ)
  | .publish m =>
    some (if s.streams.any (·.listens) then { s with channel := s.channel.send feed.capacity m } else s)
  | .connect => some { s with streams := s.streams ++ [subscribe s.channel] }
  | .built i m => s.update i (Stream.built m)
  | .poll i => s.update i (Stream.poll s.channel)
  | .close i => s.update i fun st => some { st with stage := .closed }

abbrev machine (feed : Feed) : Machine (Server μ) (Event μ) := .ofStep (· = {}) (step feed)

/-- The messages published in the moves `l`, the latest first, in the order in which they were. -/
def published (l : List (Move (Server μ) (Event μ))) : List μ :=
  l.reverse.filterMap fun m => match m.event with
    | .publish msg => some msg
    | _ => none

/-- How often stream `i` is polled in the moves `l`. -/
def polls (i : ℕ) (l : List (Move (Server μ) (Event μ))) : ℕ :=
  l.countP fun m => match m.event with
    | .poll j => j == i
    | _ => false

/-- A receive of stream `i` lags behind what the channel still holds. -/
def Lags (i : ℕ) (m : Move (Server μ) (Event μ)) : Prop :=
  m.event = .poll i ∧ ∃ st missed, m.source.streams[i]? = some st ∧ st.stage = .live ∧
    (m.source.channel.recv st.next).1 = .lagged missed

/-- No receive of stream `i` has lagged in the moves `l`. -/
def Unlagged (i : ℕ) (l : List (Move (Server μ) (Event μ))) : Prop := ∀ m ∈ l, ¬ Lags i m

section Steps

variable {feed : Feed} {l : List (Move (Server μ) (Event μ))} {s t : Server μ} {e : Event μ}
  {i : ℕ} {st st' : Stream μ} {m : μ} {f : Stream μ → Option (Stream μ)}

theorem published_publish : published (⟨s, .publish m, t⟩ :: l) = published l ++ [m] := by
  simp [published]

theorem published_cons (other : ∀ m, e ≠ .publish m) : published (⟨s, e, t⟩ :: l) = published l := by
  cases e with
  | publish m => exact absurd rfl (other m)
  | _ => simp [published]

theorem polls_poll : polls i (⟨s, .poll i, t⟩ :: l) = polls i l + 1 := by simp [polls]

theorem polls_cons (other : e ≠ .poll i) : polls i (⟨s, e, t⟩ :: l) = polls i l := by
  cases e with
  | poll j =>
    have ne : j ≠ i := fun same => other (by rw [same])
    simp [polls, ne]
  | _ => simp [polls]

theorem unlagged_cons {mv : Move (Server μ) (Event μ)} (calm : ¬ Lags i mv) :
    Unlagged i (mv :: l) ↔ Unlagged i l := by
  simp [Unlagged, calm]

theorem update_some (made : s.update i f = some t) :
    ∃ st st', s.streams[i]? = some st ∧ f st = some st' ∧ t.channel = s.channel ∧
      t.streams[i]? = some st' ∧ ∀ j, j ≠ i → t.streams[j]? = s.streams[j]? := by
  obtain ⟨st', ran, rfl⟩ := Option.map_eq_some_iff.mp made
  obtain ⟨st, there, ran⟩ := Option.bind_eq_some_iff.mp ran
  have below := (List.getElem?_eq_some_iff.mp there).1
  exact ⟨st, st', there, ran, rfl, by simp [below], fun j ne => List.getElem?_set_ne ne.symm⟩

theorem poll_some {c : Channel μ} (polled : st.poll c = some st') :
    (∃ m, st.stage = .initial m ∧ st' = { st with stage := .live, sent := st.sent ++ [m] }) ∨
    st.stage = .live ∧
      ((∃ m, c.recv st.next = (.message m, st'.next) ∧
          st' = { st with next := st'.next, sent := st.sent ++ [m] }) ∨
        (∃ missed, c.recv st.next = (.lagged missed, st'.next) ∧ st' = { st with next := st'.next }) ∨
        c.recv st.next = (.empty, st'.next) ∧ st' = { st with next := st'.next }) := by
  unfold Stream.poll at polled
  split at polled
  case h_1 m stage =>
    cases polled
    exact .inl ⟨m, stage, rfl⟩
  case h_2 stage =>
    refine .inr ⟨stage, ?_⟩
    split at polled
    case h_1 m next got =>
      cases polled
      exact .inl ⟨m, got, rfl⟩
    case h_2 missed next got =>
      cases polled
      exact .inr (.inl ⟨missed, got, rfl⟩)
    case h_3 next got =>
      cases polled
      exact .inr (.inr ⟨got, rfl⟩)
  case h_3 => cases polled

/-- A stream goes through a step untouched, or is built, polled or closed. -/
theorem step_stream (stepped : step feed s e = some t) (there : s.streams[i]? = some st) :
    ∃ st', t.streams[i]? = some st' ∧
      (e ≠ .poll i ∧ st' = st ∨
        (∃ m, e = .built i m ∧ st.stage = .building ∧ st' = { st with stage := .initial m }) ∨
        e = .poll i ∧ st.poll s.channel = some st' ∨ e = .close i ∧ st'.stage = .closed) := by
  have below := (List.getElem?_eq_some_iff.mp there).1
  -- An event for another stream leaves this one alone.
  have single {j : ℕ} {f : Stream μ → Option (Stream μ)} (made : s.update j f = some t) :
      ∃ st', t.streams[i]? = some st' ∧ (j ≠ i ∧ st' = st ∨ j = i ∧ f st = some st') := by
    obtain ⟨st₀, st', at_j, ran, -, now, others⟩ := update_some made
    by_cases same : i = j
    · subst same
      cases there.symm.trans at_j
      exact ⟨st', now, .inr ⟨rfl, ran⟩⟩
    · exact ⟨st, (others i same).trans there, .inl ⟨Ne.symm same, rfl⟩⟩
  cases e with
  | publish m =>
    cases stepped
    refine ⟨st, ?_, .inl ⟨by simp, rfl⟩⟩
    split <;> exact there
  | connect =>
    cases stepped
    exact ⟨st, by rw [List.getElem?_append_left below, there], .inl ⟨by simp, rfl⟩⟩
  | built j m =>
    obtain ⟨st', now, ⟨-, same⟩ | ⟨rfl, ran⟩⟩ := single stepped
    · exact ⟨st', now, .inl ⟨by simp, same⟩⟩
    · refine ⟨st', now, .inr (.inl ⟨m, rfl, ?_⟩)⟩
      unfold Stream.built at ran
      split at ran
      · next stage =>
        cases ran
        exact ⟨stage, rfl⟩
      · cases ran
  | poll j =>
    obtain ⟨st', now, ⟨ne, same⟩ | ⟨rfl, ran⟩⟩ := single stepped
    · exact ⟨st', now, .inl ⟨by simpa using ne, same⟩⟩
    · exact ⟨st', now, .inr (.inr (.inl ⟨rfl, ran⟩))⟩
  | close j =>
    obtain ⟨st', now, ⟨-, same⟩ | ⟨rfl, ran⟩⟩ := single stepped
    · exact ⟨st', now, .inl ⟨by simp, same⟩⟩
    · cases ran
      exact ⟨_, now, .inr (.inr (.inr ⟨rfl, rfl⟩))⟩

/-- A closed stream stays closed. -/
theorem step_open (stepped : step feed s e = some t) (there : s.streams[i]? = some st)
    (now : t.streams[i]? = some st') (stays : st'.stage ≠ .closed) : st.stage ≠ .closed := by
  intro closed
  obtain ⟨st'', now', how⟩ := step_stream stepped there
  cases now.symm.trans now'
  rcases how with ⟨-, rfl⟩ | ⟨m, -, building, -⟩ | ⟨-, polled⟩ | ⟨-, gone⟩
  · exact stays closed
  · rw [closed] at building
    cases building
  · rw [Stream.poll, closed] at polled
    cases polled
  · exact stays gone

theorem step_channel (stepped : step feed s e = some t) :
    t.channel = s.channel ∨ ∃ m, e = .publish m ∧ t.channel = s.channel.send feed.capacity m := by
  cases e with
  | publish m =>
    cases stepped
    split
    · exact .inr ⟨m, rfl, rfl⟩
    · exact .inl rfl
  | connect =>
    cases stepped
    exact .inl rfl
  | built | poll | close =>
    obtain ⟨_, _, _, _, same, _⟩ := update_some stepped
    exact .inl same

/-- What is published while a stream listens is stored. -/
theorem publish_stored (stepped : step feed s (.publish m) = some t)
    (there : s.streams[i]? = some st) (stays : st.stage ≠ .closed) :
    t.channel = s.channel.send feed.capacity m := by
  have listens : s.streams.any (·.listens) = true := by
    refine List.any_eq_true.mpr ⟨st, List.mem_of_getElem? there, ?_⟩
    unfold Stream.listens
    split
    · next closed => exact absurd closed stays
    · rfl
  cases stepped
  rw [if_pos listens]

end Steps

section Runs

variable {feed : Feed} {l l₁ l₂ l₃ : List (Move (Server μ) (Event μ))} {s s₀ s₁ t : Server μ}
  {i : ℕ} {st : Stream μ}

theorem run_holds (run : (machine feed).Run l s) :
    ∃ log, s.channel.Holds feed.capacity log := by
  refine (run.always (I := fun s => ∃ log, s.channel.Holds feed.capacity log) ?_ ?_).1
  · rintro _ rfl
    exact ⟨[], Channel.holds_empty⟩
  · rintro s e t ⟨log, holds⟩ stepped
    rcases step_channel stepped with same | ⟨m, -, same⟩
    · exact ⟨log, by rwa [same]⟩
    · exact ⟨log ++ [m], by rw [same]; exact holds.send m⟩

/-- What a stream has sent, when `log` is what was published since it subscribed at `start`, and
`l` the moves since then. -/
def Stream.Faithful (feed : Feed) (i : ℕ) (l : List (Move (Server μ) (Event μ))) (log : List μ)
    (start : ℕ) (st : Stream μ) : Prop :=
  match st.stage with
  | .building => st.sent = [] ∧ Heard feed.capacity log start st.next (Unlagged i l) []
  | .initial m => st.sent = [] ∧ Heard feed.capacity log start st.next (Unlagged i l) [] ∧
      ∃ s t, ⟨s, .built i m, t⟩ ∈ l
  | .live => ∃ m heard, st.sent = m :: heard ∧
      Heard feed.capacity log start st.next (Unlagged i l) heard ∧ ∃ s t, ⟨s, .built i m, t⟩ ∈ l
  | .closed => True

variable {log : List μ} {start : ℕ} {e : Event μ} {st' : Stream μ}

theorem Stream.Faithful.later {mv : Move (Server μ) (Event μ)}
    (h : st.Faithful feed i l log start) (calm : ¬ Lags i mv) :
    st.Faithful feed i (mv :: l) log start := by
  unfold Stream.Faithful at h ⊢
  split
  · next stage =>
    simp only [stage] at h
    exact ⟨h.1, h.2.congr (unlagged_cons calm)⟩
  · next m stage =>
    simp only [stage] at h
    obtain ⟨none, heard, s, t, mem⟩ := h
    exact ⟨none, heard.congr (unlagged_cons calm), s, t, .tail _ mem⟩
  · next stage =>
    simp only [stage] at h
    obtain ⟨m, heard, sent, hears, s, t, mem⟩ := h
    exact ⟨m, heard, sent, hears.congr (unlagged_cons calm), s, t, .tail _ mem⟩
  · trivial

theorem Stream.Faithful.send (h : st.Faithful feed i l log start) (m : μ) :
    st.Faithful feed i l (log ++ [m]) start := by
  unfold Stream.Faithful at h ⊢
  split
  · next stage =>
    simp only [stage] at h
    exact ⟨h.1, h.2.send m⟩
  · next first stage =>
    simp only [stage] at h
    exact ⟨h.1, h.2.1.send m, h.2.2⟩
  · next stage =>
    simp only [stage] at h
    obtain ⟨first, heard, sent, hears, built⟩ := h
    exact ⟨first, heard, sent, hears.send m, built⟩
  · trivial

theorem Stream.Faithful.poll (holds : s.channel.Holds feed.capacity log)
    (there : s.streams[i]? = some st) (h : st.Faithful feed i l log start)
    (polled : st.poll s.channel = some st') :
    st'.Faithful feed i (⟨s, .poll i, t⟩ :: l) log start := by
  -- What the poll receives says whether it lags.
  have calm (other : ∀ missed, st.stage = .live → (s.channel.recv st.next).1 ≠ .lagged missed) :
      ¬ Lags i ⟨s, .poll i, t⟩ := by
    rintro ⟨-, st₀, missed, there₀, live, lags⟩
    cases there.symm.trans there₀
    exact other missed live lags
  rcases poll_some polled with ⟨m, stage, rfl⟩ | ⟨stage, got⟩
  · have calm := calm fun _ live => by simp [stage] at live
    simp only [Stream.Faithful, stage] at h ⊢
    obtain ⟨none, heard, u, v, mem⟩ := h
    exact ⟨m, [], by rw [none]; rfl, heard.congr (unlagged_cons calm), u, v, .tail _ mem⟩
  · simp only [Stream.Faithful, stage] at h
    obtain ⟨first, heard, sent, hears, u, v, mem⟩ := h
    rcases got with ⟨m, got, same⟩ | ⟨missed, got, same⟩ | ⟨got, same⟩
    · have calm := calm fun _ _ => by simp [got]
      obtain ⟨on, found, -⟩ := holds.message got
      rw [same]
      simp only [Stream.Faithful, stage]
      refine ⟨first, heard ++ [m], by rw [sent]; rfl, ?_, u, v, .tail _ mem⟩
      rw [on]
      exact (hears.congr (unlagged_cons calm)).message found
    · have lags : Lags i ⟨s, .poll i, t⟩ := ⟨rfl, st, missed, there, stage, by rw [got]⟩
      obtain ⟨ahead, oldest, -⟩ := holds.lagged got
      rw [same]
      simp only [Stream.Faithful, stage]
      refine ⟨first, heard, sent, hears.lagged ahead oldest ?_, u, v, .tail _ mem⟩
      exact fun unlagged => unlagged _ (.head _) lags
    · have calm := calm fun _ _ => by simp [got]
      rw [same]
      simp only [Stream.Faithful, stage, (holds.caught_up got).1]
      exact ⟨first, heard, sent, hears.congr (unlagged_cons calm), u, v, .tail _ mem⟩

/-- The stream `connect` has opened, and the channel, after the moves `l`. -/
def Follows (feed : Feed) (i : ℕ) (old : List μ) (l : List (Move (Server μ) (Event μ)))
    (s : Server μ) : Prop :=
  ∃ st, s.streams[i]? = some st ∧ (st.stage ≠ .closed →
    s.channel.Holds feed.capacity (old ++ published l) ∧
      st.Faithful feed i l (old ++ published l) old.length)

theorem follows_step {old : List μ} (follows : Follows feed i old l s)
    (stepped : step feed s e = some t) : Follows feed i old (⟨s, e, t⟩ :: l) t := by
  obtain ⟨st, there, faithful⟩ := follows
  obtain ⟨st', now, how⟩ := step_stream stepped there
  refine ⟨st', now, fun stays => ?_⟩
  have before := step_open stepped there now stays
  obtain ⟨holds, faithful⟩ := faithful before
  by_cases publishes : ∃ m, e = .publish m
  · obtain ⟨m, rfl⟩ := publishes
    rw [published_publish, ← List.append_assoc, publish_stored stepped there before]
    refine ⟨holds.send m, ?_⟩
    rcases how with ⟨-, rfl⟩ | ⟨_, ne, _⟩ | ⟨ne, _⟩ | ⟨ne, _⟩
    · exact (faithful.send m).later (by simp [Lags])
    · cases ne
    · cases ne
    · cases ne
  · have quiet : ∀ m, e ≠ .publish m := not_exists.mp publishes
    rw [published_cons quiet]
    have same : t.channel = s.channel := by
      rcases step_channel stepped with same | ⟨m, publishes, -⟩
      · exact same
      · exact absurd publishes (quiet m)
    refine ⟨by rwa [same], ?_⟩
    rcases how with ⟨other, rfl⟩ | ⟨m, rfl, building, rfl⟩ | ⟨rfl, polled⟩ | ⟨-, gone⟩
    · exact faithful.later fun lags => other lags.1
    · simp only [Stream.Faithful, building] at faithful ⊢
      exact ⟨faithful.1, faithful.2.congr (unlagged_cons (by simp [Lags])), s, t, .head _⟩
    · exact faithful.poll holds there polled
    · exact absurd gone stays

/-- A stream opened in the run, from then on. -/
theorem run_follows (run : (machine feed).Run (l₂ ++ ⟨s₀, .connect, s₁⟩ :: l₁) s) :
    ∃ old, Follows feed s₀.streams.length old l₂ s := by
  have early := run.upTo
  obtain ⟨old, holds⟩ := run_holds early
  refine ⟨old, run.since ?_ fun l s e t => follows_step⟩
  cases early with
  | step _ stepped =>
    cases stepped
    refine ⟨subscribe s₀.channel, by simp, fun _ => ⟨by simpa [published] using holds, ?_⟩⟩
    have tail : s₀.channel.tail = old.length := holds.tail
    have none : Unlagged s₀.streams.length ([] : List (Move (Server μ) (Event μ))) := by simp [Unlagged]
    have nothing : Heard feed.capacity old old.length old.length _ [] := .nothing old none
    simpa [Stream.Faithful, subscribe, published, tail] using nothing

/-- A client gets a first message that was built for its own request, and then messages that have
been published since it subscribed: each at most once and in the order of publication.  Unless a
receive has lagged behind what the channel holds, none is left out.  Whenever a receive finds
nothing, the client has had the latest one. -/
theorem stream_faithful (run : (machine feed).Run (l₂ ++ ⟨s₀, .connect, s₁⟩ :: l₁) s)
    (there : s.streams[s₀.streams.length]? = some st) (stays : st.stage ≠ .closed) :
    st.sent = [] ∨ ∃ first heard, st.sent = first :: heard ∧
      (∃ s t, ⟨s, .built s₀.streams.length first, t⟩ ∈ l₂) ∧ heard.Sublist (published l₂) ∧
      ((published l₂).length ≤ feed.capacity → Unlagged s₀.streams.length l₂) ∧
      (Unlagged s₀.streams.length l₂ → heard <+: published l₂ ∧
        ((s.channel.recv st.next).1 = .empty → heard = published l₂)) ∧
      ((s.channel.recv st.next).1 = .empty → published l₂ ≠ [] →
        heard.getLast? = (published l₂).getLast?) := by
  obtain ⟨old, st', there', follows⟩ := run_follows run
  cases there.symm.trans there'
  obtain ⟨holds, faithful⟩ := follows stays
  unfold Stream.Faithful at faithful
  split at faithful
  case h_1 => exact .inl faithful.1
  case h_2 => exact .inl faithful.1
  case h_4 closed => exact absurd closed stays
  case h_3 =>
    obtain ⟨first, heard, sent, hears, built⟩ := faithful
    -- What the receiver has passed of the messages published since.
    have passed : ((old ++ published l₂).take st.next).drop old.length =
        (published l₂).take (st.next - old.length) := by
      rw [List.drop_take, List.drop_left]
    have caught_up (none : (s.channel.recv st.next).1 = .empty) :
        (old ++ published l₂).length ≤ st.next := by
      have got : s.channel.recv st.next = (.empty, (s.channel.recv st.next).2) := by rw [← none]
      exact (holds.caught_up got).2.1
    refine .inr ⟨first, heard, sent, built, ?_, fun room => ?_, fun still => ⟨?_, fun none => ?_⟩,
      fun none some => ?_⟩
    · have order := hears.order
      rw [passed] at order
      exact order.trans (List.take_sublist _ _)
    · exact hears.room (by rw [List.length_append]; omega)
    · rw [hears.whole still, passed]
      exact List.take_prefix _ _
    · rw [hears.all still (caught_up none), List.drop_left]
    · have more : 0 < (published l₂).length := List.length_pos_iff.mpr some
      rw [hears.last feed.capacity_pos (caught_up none) (by rw [List.length_append]; omega),
        List.getLast?_append_of_ne_nil _ some]

/-- A stream whose client has been sent a first message and the one published since. -/
def caughtUp : Server ℕ := ⟨⟨[5], 1⟩, [⟨1, .live, [9, 5]⟩]⟩

theorem caughtUp_run : (machine .metrics).Run
    [⟨⟨⟨[5], 1⟩, [⟨0, .live, [9]⟩]⟩, .poll 0, caughtUp⟩,
      ⟨⟨⟨[5], 1⟩, [⟨0, .initial 9, []⟩]⟩, .poll 0, ⟨⟨[5], 1⟩, [⟨0, .live, [9]⟩]⟩⟩,
      ⟨⟨⟨[5], 1⟩, [⟨0, .building, []⟩]⟩, .built 0 9, ⟨⟨[5], 1⟩, [⟨0, .initial 9, []⟩]⟩⟩,
      ⟨⟨.empty, [⟨0, .building, []⟩]⟩, .publish 5, ⟨⟨[5], 1⟩, [⟨0, .building, []⟩]⟩⟩,
      ⟨{}, .connect, ⟨.empty, [⟨0, .building, []⟩]⟩⟩] caughtUp :=
  .step (.step (.step (.step (.step (.start rfl) rfl) rfl) rfl) rfl) rfl

theorem stream_faithful_metrics : ∃ first heard, [9, 5] = first :: heard ∧ heard = [5] := by
  have faithful := @stream_faithful ℕ .metrics [] [_, _, _, _] caughtUp {} _ _ caughtUp_run rfl
    (by decide)
  rcases faithful with none | ⟨first, heard, sent, -, -, room, whole, -⟩
  · cases none
  · exact ⟨first, heard, sent, (whole (room (by decide))).2 (by decide)⟩

/-- The turns after which a stream that is polled has sent all there is. -/
def Stream.due (c : Channel μ) (st : Stream μ) : ℕ :=
  match st.stage with
  | .live => c.due st.next
  | _ => c.due st.next + 1

theorem Stream.due_poll {c : Channel μ} (holds : c.Holds feed.capacity log)
    (polled : st.poll c = some st') : st.due c = st'.due c + 1 ∨ st'.due c = 0 := by
  rcases poll_some polled with ⟨m, stage, rfl⟩ | ⟨stage, got⟩
  · simp [Stream.due, stage]
  · rcases got with ⟨m, got, same⟩ | ⟨missed, got, same⟩ | ⟨got, same⟩
    · left
      rw [same]
      simp only [Stream.due, stage]
      exact (holds.message got).2.2
    · left
      rw [same]
      simp only [Stream.due, stage]
      exact (holds.lagged got).2.2
    · right
      obtain ⟨stays, -, none⟩ := holds.caught_up got
      rw [same]
      simp only [Stream.due, stage, stays]
      exact none

/-- Stream `i` has been polled at most as often as it takes, or has sent all there is. -/
def Nears (feed : Feed) (i : ℕ) (l : List (Move (Server μ) (Event μ))) (s : Server μ) : Prop :=
  (∃ log, s.channel.Holds feed.capacity log) ∧ ∃ st, s.streams[i]? = some st ∧
    (st.stage ≠ .closed → st.due s.channel + polls i l ≤ feed.capacity + 2 ∨ st.due s.channel = 0)

theorem nears_step (nears : Nears feed i l s) (stepped : step feed s e = some t)
    (quiet : ∀ m, e ≠ .publish m) : Nears feed i (⟨s, e, t⟩ :: l) t := by
  obtain ⟨⟨log, holds⟩, st, there, nears⟩ := nears
  have same : t.channel = s.channel := by
    rcases step_channel stepped with same | ⟨m, publishes, -⟩
    · exact same
    · exact absurd publishes (quiet m)
  obtain ⟨st', now, how⟩ := step_stream stepped there
  refine ⟨⟨log, by rwa [same]⟩, st', now, fun stays => ?_⟩
  have nears := nears (step_open stepped there now stays)
  rw [same]
  rcases how with ⟨other, rfl⟩ | ⟨m, rfl, building, rfl⟩ | ⟨rfl, polled⟩ | ⟨-, gone⟩
  · rwa [polls_cons other]
  · rw [polls_cons (by simp)]
    simpa only [Stream.due, building] using nears
  · rw [polls_poll]
    rcases Stream.due_poll holds polled with nearer | all
    · left
      omega
    · exact .inr all
  · exact absurd gone stays

theorem published_append : published (l₂ ++ l) = published l ++ published l₂ := by
  simp [published, List.filterMap_append]

theorem Stream.due_le {c : Channel μ} (holds : c.Holds feed.capacity log) :
    st.due c ≤ feed.capacity + 2 := by
  have bound : c.due st.next ≤ feed.capacity + 1 := holds.due_le
  unfold Stream.due
  split <;> omega

/-- From any state on, while nothing is published. -/
theorem run_nears {mv : Move (Server μ) (Event μ)} (run : (machine feed).Run (l₃ ++ mv :: l) s)
    (there : ∃ st, mv.target.streams[i]? = some st) (quiet : published l₃ = []) :
    Nears feed i l₃ s := by
  refine run.since (J := fun l s => published l = [] → Nears feed i l s) (fun _ => ?_) ?_ quiet
  · obtain ⟨log, holds⟩ := run_holds run.upTo
    obtain ⟨st, there⟩ := there
    exact ⟨⟨log, holds⟩, st, there, fun _ => .inl (Stream.due_le holds)⟩
  · intro l s e t nears stepped quiet
    have other : ∀ m, e ≠ .publish m := by
      rintro m rfl
      simp [published_publish] at quiet
    rw [published_cons other] at quiet
    exact nears_step (nears quiet) stepped other

/-- A client that is polled often enough while nothing is published has the latest message. -/
theorem stream_catches_up
    (run : (machine feed).Run (l₃ ++ (l₂ ++ ⟨s₀, .connect, s₁⟩ :: l₁)) s)
    (there : s.streams[s₀.streams.length]? = some st) (stays : st.stage ≠ .closed)
    (quiet : published l₃ = []) (often : feed.capacity + 2 ≤ polls s₀.streams.length l₃)
    (some : published l₂ ≠ []) : st.sent.getLast? = (published l₂).getLast? := by
  cases l₂ with
  | nil => exact absurd rfl some
  | cons mv l₂ =>
    -- The turns since the last message have brought the stream to the end of the channel.
    have early : (machine feed).Run ((mv :: l₂) ++ ⟨s₀, .connect, s₁⟩ :: l₁) mv.target := run.upTo
    obtain ⟨_, st₀, opened, -⟩ := run_follows early
    obtain ⟨-, st', there', nears⟩ := run_nears run ⟨st₀, opened⟩ quiet
    cases there.symm.trans there'
    have none : st.due s.channel = 0 := by
      rcases nears stays with few | none
      · omega
      · exact none
    rw [← List.append_assoc] at run
    obtain ⟨old, st', there', follows⟩ := run_follows run
    cases there.symm.trans there'
    obtain ⟨holds, faithful⟩ := follows stays
    rw [published_append, quiet, List.append_nil] at holds faithful
    have more : 0 < (published (mv :: l₂)).length := List.length_pos_iff.mpr some
    unfold Stream.due at none
    unfold Stream.Faithful at faithful
    split at none
    case h_1 live =>
      simp only [live] at faithful
      obtain ⟨first, heard, sent, hears, -⟩ := faithful
      have last := hears.last feed.capacity_pos (holds.of_due none)
        (by rw [List.length_append]; omega)
      rw [List.getLast?_append_of_ne_nil _ some] at last
      rw [sent, List.getLast?_cons, last, List.getLast?_eq_some_getLast some, Option.getD_some]
    case h_2 => omega

/-- Polls that find nothing can go on. -/
theorem run_idle (run : (machine feed).Run l s) (idle : step feed s (.poll i) = some s) (n : ℕ) :
    (machine feed).Run (List.replicate n ⟨s, .poll i, s⟩ ++ l) s := by
  induction n with
  | zero => exact run
  | succ n ih => exact .step ih idle

theorem stream_catches_up_metrics : [9, 5].getLast? = [5].getLast? := by
  have run := run_idle caughtUp_run (i := 0) rfl 34
  exact @stream_catches_up ℕ .metrics [] [_, _, _, _] (List.replicate 34 _) caughtUp {} _ _ run rfl
    (by decide) (by decide) (by decide) (by decide)

end Runs

end Codery.EventStreams
