import Codery.HostMetrics

/-! OOM alarms over runs: the timer and the requests share one baseline, and a read of the counter
may fail. -/

namespace Codery.Metrics

open Codery.Effect

/-- The kernel's counter and what the collectors share; besides, the counts read so far and the
snapshots broadcast, the latest first. -/
structure Monitor where
  oom : ℕ := 0
  state : MetricsState := {}
  reads : List (Option ℕ) := []
  sent : List HostMetrics := []
  deriving DecidableEq

inductive Event
  /-- The kernel counts `n` further OOM kills. -/
  | kill (n : ℕ)
  /-- `metrics_task` wakes up; without Docker it goes back to sleep. -/
  | tick (connected : Bool) (memoryEvents : Option String) (load : Load)
  /-- A client asks for a snapshot, or subscribes to the stream and gets one. -/
  | request (memoryEvents : Option String) (load : Load)

/-- A read of `memory.events` fails or has the counter. -/
def Monitor.Reads (s : Monitor) (memoryEvents : Option String) : Prop :=
  ∀ text ∈ memoryEvents, parseMemoryEvents text = s.oom

instance (s : Monitor) (memoryEvents : Option String) : Decidable (s.Reads memoryEvents) :=
  inferInstanceAs (Decidable (∀ text ∈ memoryEvents, parseMemoryEvents text = s.oom))

def Monitor.collected (s : Monitor) (memoryEvents : Option String) (load : Load) : Monitor :=
  { s with
    state := (collect s.state memoryEvents load).2
    reads := memoryEvents.map parseMemoryEvents :: s.reads }

def Monitor.step (s : Monitor) : Event → Option Monitor
  | .kill n => some { s with oom := s.oom + n }
  | .tick false _ _ => some s
  | .tick true memoryEvents load =>
    if s.Reads memoryEvents then
      some { s.collected memoryEvents load with
        sent := (collect s.state memoryEvents load).1 :: s.sent }
    else none
  | .request memoryEvents load =>
    if s.Reads memoryEvents then some (s.collected memoryEvents load) else none

/-- The counter may have any value when the daemon starts. -/
def monitor : Machine Monitor Event := .ofStep (fun s => s = { oom := s.oom }) Monitor.step

inductive Stepped (s : Monitor) : Event → Monitor → Prop
  | killed {n} : Stepped s (.kill n) { s with oom := s.oom + n }
  | idle {file load} : Stepped s (.tick false file load) s
  | broadcast {file load} (reads : s.Reads file) :
    Stepped s (.tick true file load)
      { s.collected file load with sent := (collect s.state file load).1 :: s.sent }
  | answered {file load} (reads : s.Reads file) :
    Stepped s (.request file load) (s.collected file load)

variable {s t : Monitor} {e : Event} {l : List (Move Monitor Event)} {m : Move Monitor Event}
  {file : Option String} {load : Load}

theorem step_cases (hstep : s.step e = some t) : Stepped s e t := by
  cases e with
  | kill n =>
    cases hstep
    exact .killed
  | tick connected file load =>
    cases connected with
    | false =>
      cases hstep
      exact .idle
    | true =>
      simp only [Monitor.step] at hstep
      split at hstep
      · cases hstep
        exact .broadcast (by assumption)
      · cases hstep
  | request file load =>
    simp only [Monitor.step] at hstep
    split at hstep
    · cases hstep
      exact .answered (by assumption)
    · cases hstep

theorem step_kill {n : ℕ} : s.step (.kill n) = some { s with oom := s.oom + n } := rfl

theorem step_tick (file : Option String) (load : Load) (reads : s.Reads file) :
    s.step (.tick true file load) =
      some { s.collected file load with sent := (collect s.state file load).1 :: s.sent } :=
  if_pos reads

theorem step_request (file : Option String) (load : Load) (reads : s.Reads file) :
    s.step (.request file load) = some (s.collected file load) :=
  if_pos reads

/-! ### One baseline for all who ask -/

/-- Each broadcast that counts more kills than the one before is an alarm. -/
def Heard (sent : List HostMetrics) : Prop :=
  sent.IsChain fun later earlier => earlier.oomKills < later.oomKills → later.Alarms

/-- The counter is read without failure. -/
def Event.Succeeds : Event → Prop
  | .tick true memoryEvents _ => memoryEvents.isSome
  | .request memoryEvents _ => memoryEvents.isSome
  | _ => True

/-- The timer broadcasts after a rise that a request has read before it. -/
def Swallowed (m : Move Monitor Event) : Prop :=
  ∃ file load earlier, m.event = .tick true file load ∧ m.source.sent.head? = some earlier ∧
    earlier.oomKills < m.source.oom ∧ m.source.state.prevOom = some m.source.oom

/-- The baseline is no higher than the counter, and there is one once there was a broadcast. -/
structure Baseline (s : Monitor) : Prop where
  le : ∀ p, s.state.prevOom = some p → p ≤ s.oom
  known : s.sent ≠ [] → s.state.prevOom.isSome

theorem oomKills_eq (load : Load) (reads : s.Reads file) (succeeds : file.isSome) :
    (collect s.state file load).1.oomKills = s.oom := by
  obtain ⟨text, rfl⟩ := Option.isSome_iff_exists.mp succeeds
  exact reads text rfl

theorem Baseline.step (base : Baseline s) (succeeds : e.Succeeds) (hstep : s.step e = some t) :
    Baseline t := by
  have collected {file : Option String} (load : Load) (reads : s.Reads file)
      (succeeds : file.isSome) (p : ℕ) (baseline : (collect s.state file load).2.prevOom = some p) :
      p ≤ s.oom := by
    cases baseline
    exact (oomKills_eq load reads succeeds).le
  cases step_cases hstep with
  | killed => exact ⟨fun p prev => (base.le p prev).trans (Nat.le_add_right _ _), base.known⟩
  | idle => exact base
  | @broadcast _ load reads => exact ⟨collected load reads succeeds, fun _ => rfl⟩
  | @answered _ load reads => exact ⟨collected load reads succeeds, fun _ => rfl⟩

theorem baseline_always (run : monitor.Run l s) (succeed : ∀ m ∈ l, m.event.Succeeds) :
    Machine.Always Baseline l s := by
  refine run.always_of (fun s start => ?_) (fun s e t base ok hstep => base.step ok hstep) succeed
  rw [show s = { oom := s.oom } from start]
  exact ⟨nofun, nofun⟩

theorem oom_le (run : monitor.Run l s) : ∀ m ∈ l, m.source.oom ≤ s.oom := by
  induction run with
  | start => exact List.forall_mem_nil _
  | step _ hstep ih =>
    refine List.forall_mem_cons.mpr ?_
    cases step_cases hstep with
    | killed => exact ⟨Nat.le_add_right _ _, fun m mem => (ih m mem).trans (Nat.le_add_right _ _)⟩
    | idle | broadcast | answered => exact ⟨le_rfl, ih⟩

/-- Since the last broadcast a request has read the counter as it is now. -/
def Forestalled (l : List (Move Monitor Event)) (s : Monitor) : Prop :=
  ∃ m ∈ l, (∃ file load, m.event = .request file load) ∧ m.source.sent = s.sent ∧
    m.source.oom = s.oom

/-- After a rise the baseline is level with the counter exactly where a request has read it. -/
theorem prevOom_eq_iff (run : monitor.Run l s) (succeed : ∀ m ∈ l, m.event.Succeeds)
    {earlier : HostMetrics} (last : s.sent.head? = some earlier) (above : earlier.oomKills < s.oom) :
    s.state.prevOom = some s.oom ↔ Forestalled l s := by
  induction run with
  | @start s start =>
    rw [show s = { oom := s.oom } from start] at last
    cases last
  | @step l s e t before hstep ih =>
    obtain ⟨ok, others⟩ := List.forall_mem_cons.mp succeed
    have base := (baseline_always before others).1
    have other (quiet : ∀ file load, e ≠ .request file load) (sent : t.sent = s.sent)
        (oom : t.oom = s.oom) : Forestalled (⟨s, e, t⟩ :: l) t ↔ Forestalled l s := by
      rw [Forestalled, List.exists_mem_cons_iff, sent, oom]
      refine or_iff_right ?_
      rintro ⟨⟨file, load, asks⟩, -⟩
      exact quiet file load asks
    cases step_cases hstep with
    | @killed n =>
      obtain rfl | more := Nat.eq_zero_or_pos n
      · rw [other nofun rfl rfl]
        exact ih others last above
      · -- neither the baseline nor a read is as high as the new counter
        refine iff_of_false (fun same => ?_) ?_
        · have := base.le _ same
          simp at this
          omega
        · rintro ⟨m, mem, -, -, same⟩
          have le : m.source.oom ≤ s.oom := by
            cases mem with
            | head => exact le_rfl
            | tail _ mem => exact oom_le before m mem
          simp only at same
          omega
    | idle =>
      rw [other nofun rfl rfl]
      exact ih others last above
    | broadcast reads =>
      cases last
      exact absurd above (oomKills_eq _ reads ok).ge.not_gt
    | @answered file load reads =>
      refine iff_of_true ?_ ⟨_, .head _, ⟨file, load, rfl⟩, rfl, rfl⟩
      exact congrArg some (oomKills_eq load reads ok)

/-- A rise is swallowed when the timer broadcasts after a request that has read it. -/
theorem swallowed_iff (run : monitor.Run l s) (succeed : ∀ m ∈ l, m.event.Succeeds) :
    Swallowed ⟨s, e, t⟩ ↔ ∃ file load earlier, e = .tick true file load ∧
      s.sent.head? = some earlier ∧ earlier.oomKills < s.oom ∧ Forestalled l s := by
  refine exists_congr fun file => exists_congr fun load => exists_congr fun earlier => ?_
  refine and_congr_right fun _ => and_congr_right fun last => and_congr_right fun above => ?_
  exact prevOom_eq_iff run succeed last above

theorem heard_step_iff (base : Baseline s) (heard : Heard s.sent) (succeeds : e.Succeeds)
    (hstep : s.step e = some t) : Heard t.sent ↔ ¬ Swallowed ⟨s, e, t⟩ := by
  have silent (other : ∀ file load, e ≠ .tick true file load) : ¬ Swallowed ⟨s, e, t⟩ := by
    rintro ⟨file, load, -, ticks, -⟩
    exact other file load ticks
  cases step_cases hstep with
  | killed => exact iff_of_true heard (silent (by rintro _ _ ⟨⟩))
  | idle => exact iff_of_true heard (silent (by rintro _ _ ⟨⟩))
  | answered => exact iff_of_true heard (silent (by rintro _ _ ⟨⟩))
  | @broadcast file load reads =>
    have count := oomKills_eq load reads succeeds
    cases before : s.sent with
    | nil =>
      refine iff_of_true (List.IsChain.singleton _) ?_
      rintro ⟨_, _, earlier, -, last, -⟩
      rw [before] at last
      cases last
    | cons earlier sent =>
      obtain ⟨p, prev⟩ := Option.isSome_iff_exists.mp (base.known (by simp [before]))
      have le := base.le p prev
      have alarms : (collect s.state file load).1.Alarms ↔ p < s.oom := by
        rw [collect_alarms_iff, count]
        simp [prev]
      have chain : Heard ((collect s.state file load).1 :: earlier :: sent) ↔
          (earlier.oomKills < s.oom → p < s.oom) := by
        rw [Heard, List.isChain_cons_cons, count, alarms]
        exact and_iff_left (before ▸ heard)
      have swallowed (t : Monitor) : Swallowed ⟨s, .tick true file load, t⟩ ↔
          earlier.oomKills < s.oom ∧ p = s.oom := by
        simp [Swallowed, before, prev]
      rw [swallowed, chain]
      omega

/-- No kill goes unheard exactly where no request reads a rise before the timer does. -/
theorem heard_iff (run : monitor.Run l s) (succeed : ∀ m ∈ l, m.event.Succeeds) :
    Machine.Always (fun x => Heard x.sent) l s ↔ ∀ m ∈ l, ¬ Swallowed m := by
  refine run.always_iff_of (baseline_always run succeed) (fun s start => ?_) succeed
    fun s e t base heard ok hstep => heard_step_iff base heard ok hstep
  rw [show s = { oom := s.oom } from start]
  exact .nil

/-- Two kills between two broadcasts, and no request. -/
theorem heard_undisturbed : ∃ l s, monitor.Run l s ∧ s.sent.map (·.oomKills) = [2, 0] ∧
    Machine.Always (fun x => Heard x.sent) l s := by
  have run := (((Machine.Run.start (M := monitor) (s := {}) rfl).step
    (step_tick (some "oom_kill 0\n") {} (by decide))).step
    (step_kill (n := 2))).step (step_tick (some "oom_kill 2\n") {} (by decide))
  have heard := (heard_iff run (by simp [Event.Succeeds])).mpr <| by
    simp only [List.forall_mem_cons]
    refine ⟨?_, ?_, ?_, List.forall_mem_nil _⟩
    · rintro ⟨-, -, -, -, -, -, same⟩
      revert same
      decide
    · rintro ⟨-, -, -, ⟨⟩, -⟩
    · rintro ⟨-, -, -, -, ⟨⟩, -⟩
  have counts : (some "oom_kill 2\n").map parseMemoryEvents = some 2 ∧
      (some "oom_kill 0\n").map parseMemoryEvents = some 0 := by decide
  refine ⟨_, _, run, ?_, heard⟩
  simp only [List.map_cons, collect, counts]
  rfl

/-- A client asks between a kill and the broadcast, which does not report it then. -/
theorem kill_unheard : ¬ ∀ l s, monitor.Run l s → (∀ m ∈ l, m.event.Succeeds) →
    Machine.Always (fun x => Heard x.sent) l s := by
  intro all
  have run := ((((Machine.Run.start (M := monitor) (s := {}) rfl).step
    (step_tick (some "oom_kill 0\n") {} (by decide))).step
    (step_kill (n := 1))).step (step_request (some "oom_kill 1\n") {} (by decide))).step
    (step_tick (some "oom_kill 1\n") {} (by decide))
  have heard := (all _ _ run (by simp [Event.Succeeds])).1
  have alarms := (List.isChain_cons_cons.mp heard).1 (by decide)
  obtain ⟨p, baseline, above⟩ := collect_alarms_iff.mp alarms
  have same : p = 1 := (Option.some.inj (baseline.symm.trans (by decide)))
  subst same
  revert above
  decide

/-! ### Failed reads -/

/-- The last count that was read. -/
def lastRead (reads : List (Option ℕ)) : Option ℕ := reads.findSome? id

/-- What a collection reads. -/
def Event.collects : Event → Option (Option String × Load)
  | .tick true memoryEvents load => some (memoryEvents, load)
  | .request memoryEvents load => some (memoryEvents, load)
  | _ => none

/-- The snapshot is an alarm only if the counter is above the last count that was read. -/
def Honest (m : Move Monitor Event) : Prop :=
  ∀ file load, m.event.collects = some (file, load) → (collect m.source.state file load).1.Alarms →
    ∃ text k, file = some text ∧ lastRead m.source.reads = some k ∧ k < parseMemoryEvents text

/-- After a read that failed, a positive counter is read that is not above the last count read. -/
def Relapse (m : Move Monitor Event) : Prop :=
  ∃ text load, m.event.collects = some (some text, load) ∧ m.source.reads.head? = some none ∧
    0 < parseMemoryEvents text ∧ ∀ k, lastRead m.source.reads = some k → parseMemoryEvents text ≤ k

/-- The baseline is what the last read came to. -/
def Follows (s : Monitor) : Prop := s.state.prevOom = s.reads.head?.map (·.getD 0)

theorem Follows.step (follows : Follows s) (hstep : s.step e = some t) : Follows t := by
  cases step_cases hstep with
  | killed => exact follows
  | idle => exact follows
  | broadcast => rfl
  | answered => rfl

theorem honest_step_iff (follows : Follows m.source) : Honest m ↔ ¬ Relapse m := by
  rw [Follows] at follows
  constructor
  · rintro honest ⟨text, load, reads, failed, positive, stale⟩
    have alarms : (collect m.source.state (some text) load).1.Alarms :=
      collect_alarms_iff.mpr ⟨0, by rw [follows, failed]; rfl, positive⟩
    obtain ⟨text', k, ⟨⟩, last, above⟩ := honest _ _ reads alarms
    exact absurd above (Nat.not_lt_of_le (stale k last))
  · intro steady file load reads alarms
    obtain ⟨p, baseline, above⟩ := collect_alarms_iff.mp alarms
    cases file with
    | none => cases above
    | some text =>
      refine ⟨text, ?_⟩
      cases before : m.source.reads with
      | nil =>
        rw [follows, before] at baseline
        cases baseline
      | cons last rest =>
        rw [follows, before] at baseline
        cases baseline
        cases last with
        | some k => exact ⟨k, rfl, rfl, above⟩
        | none =>
          by_contra stale
          refine steady ⟨text, load, reads, by rw [before]; rfl, above, fun k last => ?_⟩
          exact Nat.not_lt.mp fun less => stale ⟨k, rfl, before ▸ last, less⟩

/-- Alarms come from kills alone exactly where no counter is read after a failure that is not above
the last count read. -/
theorem honest_iff (run : monitor.Run l s) : (∀ m ∈ l, Honest m) ↔ ∀ m ∈ l, ¬ Relapse m := by
  have follows : Machine.Always Follows l s := by
    refine run.always (fun s start => ?_) fun s e t follows hstep => follows.step hstep
    rw [show s = { oom := s.oom } from start]
    rfl
  exact forall₂_congr fun m mem => honest_step_iff (follows.2 m mem)

/-- A kill is reported once. -/
theorem honest_unfailing : ∃ l s, monitor.Run l s ∧ s.reads = [some 3, some 3, some 0] ∧
    ∀ m ∈ l, Honest m := by
  have run := ((((Machine.Run.start (M := monitor) (s := {}) rfl).step
    (step_request (some "oom_kill 0\n") {} (by decide))).step
    (step_kill (n := 3))).step (step_request (some "oom_kill 3\n") {} (by decide))).step
    (step_request (some "oom_kill 3\n") {} (by decide))
  have honest := (honest_iff run).mpr <| by
    simp only [List.forall_mem_cons]
    refine ⟨?_, ?_, ?_, ?_, List.forall_mem_nil _⟩ <;> rintro ⟨-, -, -, ⟨⟩, -⟩
  have counts : (some "oom_kill 3\n").map parseMemoryEvents = some 3 ∧
      (some "oom_kill 0\n").map parseMemoryEvents = some 0 := by decide
  refine ⟨_, _, run, ?_, honest⟩
  simp only [Monitor.collected, counts]

/-- The old count is read again after a failure, and reported as a kill. -/
theorem kill_reported_again : ¬ ∀ l s, monitor.Run l s → ∀ m ∈ l, Honest m := by
  intro all
  have run := (((Machine.Run.start (M := monitor) (s := { oom := 3 }) rfl).step
    (step_request (some "oom_kill 3\n") {} (by decide))).step
    (step_request none {} (by decide))).step
    (step_request (some "oom_kill 3\n") {} (by decide))
  have honest := all _ _ run _ (List.mem_cons_self ..)
  obtain ⟨text, k, ⟨⟩, last, above⟩ := honest _ _ rfl (collect_alarms_iff.mpr ⟨0, rfl, by decide⟩)
  have same : k = 3 := Option.some.inj (last.symm.trans (by decide))
  subst same
  revert above
  decide

end Codery.Metrics
