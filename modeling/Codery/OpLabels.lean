import Codery.Dashboard

/-! The labels of the operations that the dashboard started (`ops` in `ui.rs`), between the requests,
the timers of their tasks and Docker's events. -/

namespace Codery.OpLabels

open Codery.Effect Dashboard

/-- What asks for a label: one of the buttons, or a rollback. -/
inductive Kind
  | button (b : Button)
  | rollback
  deriving DecidableEq

def Kind.op : Kind → Op
  | .button b => b.op
  | .rollback => .rollingBack

inductive Stage
  /-- The label is set; the request has its status broadcast, or rolls back. -/
  | labelled
  /-- The task of the request is spawned. -/
  | dispatched
  /-- The command is spawned, and the task sleeps. -/
  | sleeping (since : ℕ)
  | done
  deriving DecidableEq

structure Job where
  kind : Kind
  container : String
  stage : Stage
  deriving DecidableEq

/-- The map has only the operation; `owner` is the request that set it, which no step looks at. -/
structure Label where
  op : Op
  owner : ℕ
  deriving DecidableEq

structure Board where
  now : ℕ := 0
  jobs : ℕ → Option Job := fun _ => none
  next : ℕ := 0
  labels : String → Option Label := fun _ => none

def Board.ops (s : Board) : String → Option Op := fun c => (s.labels c).map Label.op

inductive Event
  | request (kind : Kind) (container : String)
  /-- `tokio::spawn` of a button's task. -/
  | dispatch (i : ℕ)
  /-- The client disconnects while its request waits. -/
  | drop (i : ℕ)
  | launch (i : ℕ)
  /-- `docker` could not be spawned. -/
  | fail (i : ℕ)
  /-- The five minutes of a task are over. -/
  | wake (i : ℕ)
  /-- `do_rollback` has returned. -/
  | finish (i : ℕ)
  | docker (action : Action) (container : String)
  | tick (secs : ℕ)

/-- The job whose task or request removes the label of its container. -/
def Event.ends : Event → Option ℕ
  | .fail i => some i
  | .wake i => some i
  | .finish i => some i
  | _ => none

def Board.request (s : Board) (kind : Kind) (container : String) : Board :=
  { s with
    jobs := Function.update s.jobs s.next (some ⟨kind, container, .labelled⟩)
    next := s.next + 1
    labels := Function.update s.labels container (some ⟨kind.op, s.next⟩) }

def Board.stage (s : Board) (i : ℕ) (job : Job) (stage : Stage) : Board :=
  { s with jobs := Function.update s.jobs i (some { job with stage }) }

/-- The label of a container is removed, whoever has set it. -/
def Board.remove (s : Board) (container : String) : Board :=
  { s with labels := Function.update s.labels container none }

/-- What the event watcher does. -/
def Board.docker (s : Board) (action : Action) (container : String) : Board :=
  if action.update container s.ops container = none then s.remove container else s

def Board.step (s : Board) : Event → Option Board
  | .request kind container => some (s.request kind container)
  | .docker action container => some (s.docker action container)
  | .tick secs => some { s with now := s.now + secs }
  | .dispatch i =>
    match s.jobs i with
    | some ⟨.button b, c, .labelled⟩ => some (s.stage i ⟨.button b, c, .labelled⟩ .dispatched)
    | _ => none
  | .drop i =>
    match s.jobs i with
    | some ⟨k, c, .labelled⟩ => some (s.stage i ⟨k, c, .labelled⟩ .done)
    | _ => none
  | .launch i =>
    match s.jobs i with
    | some ⟨k, c, .dispatched⟩ => some (s.stage i ⟨k, c, .dispatched⟩ (.sleeping s.now))
    | _ => none
  | .fail i =>
    match s.jobs i with
    | some ⟨k, c, .dispatched⟩ => some ((s.stage i ⟨k, c, .dispatched⟩ .done).remove c)
    | _ => none
  | .wake i =>
    match s.jobs i with
    | some ⟨k, c, .sleeping since⟩ =>
      if since + 300 ≤ s.now then some ((s.stage i ⟨k, c, .sleeping since⟩ .done).remove c) else none
    | _ => none
  | .finish i =>
    match s.jobs i with
    | some ⟨.rollback, c, .labelled⟩ => some ((s.stage i ⟨.rollback, c, .labelled⟩ .done).remove c)
    | _ => none

def board : Machine Board Event := .ofStep (· = {}) Board.step

/-- The ways a job goes on without touching the labels. -/
inductive Proceeds (now : ℕ) : Event → ℕ → Job → Stage → Prop
  | dispatch {i : ℕ} {b : Button} {c : String} :
    Proceeds now (.dispatch i) i ⟨.button b, c, .labelled⟩ .dispatched
  | drop {i : ℕ} {k : Kind} {c : String} : Proceeds now (.drop i) i ⟨k, c, .labelled⟩ .done
  | launch {i : ℕ} {k : Kind} {c : String} :
    Proceeds now (.launch i) i ⟨k, c, .dispatched⟩ (.sleeping now)

/-- The ways a job ends. -/
inductive Ends (now : ℕ) : Event → ℕ → Job → Prop
  | fail {i : ℕ} {k : Kind} {c : String} : Ends now (.fail i) i ⟨k, c, .dispatched⟩
  | wake {i : ℕ} {k : Kind} {c : String} {since : ℕ} (due : since + 300 ≤ now) :
    Ends now (.wake i) i ⟨k, c, .sleeping since⟩
  | finish {i : ℕ} {c : String} : Ends now (.finish i) i ⟨.rollback, c, .labelled⟩

inductive Stepped (s : Board) : Event → Board → Prop
  | requested {kind container} : Stepped s (.request kind container) (s.request kind container)
  | reported {action container} : Stepped s (.docker action container) (s.docker action container)
  | waited {secs} : Stepped s (.tick secs) { s with now := s.now + secs }
  | proceeded {e i job stage} (found : s.jobs i = some job) (how : Proceeds s.now e i job stage) :
    Stepped s e (s.stage i job stage)
  | ended {e i job} (found : s.jobs i = some job) (how : Ends s.now e i job) :
    Stepped s e ((s.stage i job .done).remove job.container)

variable {s t : Board} {e : Event} {l : List (Move Board Event)} {c : String} {i k : ℕ}
  {job : Job} {stage : Stage} {action : Action} {kind : Kind}

theorem step_cases (hstep : s.step e = some t) : Stepped s e t := by
  cases e with
  | request kind container =>
    cases hstep
    exact .requested
  | docker action container =>
    cases hstep
    exact .reported
  | tick secs =>
    cases hstep
    exact .waited
  | dispatch i =>
    simp only [Board.step] at hstep
    split at hstep
    next found =>
      cases hstep
      exact .proceeded found .dispatch
    · cases hstep
  | drop i =>
    simp only [Board.step] at hstep
    split at hstep
    next found =>
      cases hstep
      exact .proceeded found .drop
    · cases hstep
  | launch i =>
    simp only [Board.step] at hstep
    split at hstep
    next found =>
      cases hstep
      exact .proceeded found .launch
    · cases hstep
  | fail i =>
    simp only [Board.step] at hstep
    split at hstep
    next found =>
      cases hstep
      exact .ended found .fail
    · cases hstep
  | wake i =>
    simp only [Board.step] at hstep
    split at hstep
    next found =>
      split at hstep
      next due =>
        cases hstep
        exact .ended found (.wake due)
      · cases hstep
    · cases hstep
  | finish i =>
    simp only [Board.step] at hstep
    split at hstep
    next found =>
      cases hstep
      exact .ended found .finish
    · cases hstep

theorem update_cases (action : Action) (c : String) (ops : String → Option Op) :
    action.update c ops = ops ∨ action.update c ops = Function.update ops c none := by
  have told : (if ops c = some .stopping ∨ ops c = some .killing then Function.update ops c none
      else ops) = ops ∨ (if ops c = some .stopping ∨ ops c = some .killing then
        Function.update ops c none else ops) = Function.update ops c none := by
    split
    · exact .inr rfl
    · exact .inl rfl
  cases action with
  | start => exact .inr rfl
  | other => exact .inl rfl
  | die => exact told
  | stop => exact told

/-- The map of the board changes as the one of the server does. -/
theorem docker_ops : (s.docker action c).ops = action.update c s.ops := by
  have removed : (s.remove c).ops = Function.update s.ops c none := by
    funext d
    by_cases same : d = c
    · subst same
      simp [Board.ops, Board.remove]
    · simp [Board.ops, Board.remove, same]
  unfold Board.docker
  rcases update_cases action c s.ops with kept | cleared
  · rw [kept]
    split
    · rename_i none
      rw [removed, ← none, Function.update_eq_self]
    · rfl
  · rw [cleared, if_pos (Function.update_self c none s.ops), removed]

/-! ### Whose label is removed -/

/-- The last that asked for a label of the container. -/
def Board.Newest (s : Board) (c : String) (i : ℕ) (job : Job) : Prop :=
  s.jobs i = some job ∧ job.container = c ∧
    ∀ k other, s.jobs k = some other → other.container = c → k ≤ i

/-- Where the label that a button has set is removed, a Docker event for the container has come since,
or the command of the button has failed, or its five minutes are over. -/
def Rightly (m : Move Board Event) : Prop :=
  ∀ c label job b, m.source.labels c = some label → m.source.jobs label.owner = some job →
    job.kind = .button b → m.target.labels c = none →
      (∃ action, m.event = .docker action c) ∨ m.event = .fail label.owner ∨
        m.event = .wake label.owner ∧
          ∃ since, job.stage = .sleeping since ∧ since + 300 ≤ m.source.now

/-- A job that ends finds no label on its container, or no button has been pressed for the container
after it. -/
def Undisturbed (m : Move Board Event) : Prop :=
  ∀ i job, m.event.ends = some i → m.source.jobs i = some job →
    m.source.labels job.container = none ∨
      ∀ k newest, m.source.Newest job.container k newest → k = i ∨ newest.kind = .rollback

/-- A label is the one of the last that asked for it. -/
structure Tidy (s : Board) : Prop where
  owned : ∀ c label, s.labels c = some label → ∃ job, s.Newest c label.owner job
  fresh : ∀ i job, s.jobs i = some job → i < s.next

theorem Board.Newest.unique {j : ℕ} {other : Job} (newest : s.Newest c i job)
    (newest' : s.Newest c j other) : i = j ∧ job = other := by
  have same : i = j := Nat.le_antisymm (newest'.2.2 i job newest.1 newest.2.1)
    (newest.2.2 j other newest'.1 newest'.2.1)
  subst same
  exact ⟨rfl, Option.some.inj (newest.1.symm.trans newest'.1)⟩

theorem Tidy.remove (tidy : Tidy s) : Tidy (s.remove c) where
  owned d label set := by
    by_cases same : d = c
    · subst same
      simp [Board.remove] at set
    · exact tidy.owned d label (by simpa [Board.remove, same] using set)
  fresh := tidy.fresh

theorem Tidy.staged (tidy : Tidy s) (found : s.jobs i = some job) : Tidy (s.stage i job stage) where
  owned d label set := by
    obtain ⟨owner, there, here, last⟩ := tidy.owned d label set
    have others : ∀ k other, (s.stage i job stage).jobs k = some other → other.container = d →
        k ≤ label.owner := by
      intro k other known same
      by_cases this : k = i
      · subst this
        obtain rfl : { job with stage } = other := by simpa [Board.stage] using known
        exact last k job found same
      · exact last k other (by simpa [Board.stage, this] using known) same
    by_cases this : label.owner = i
    · subst this
      obtain rfl : job = owner := Option.some.inj (found.symm.trans there)
      exact ⟨{ job with stage }, by simp [Board.stage], here, others⟩
    · exact ⟨owner, by simpa [Board.stage, this] using there, here, others⟩
  fresh k other known := by
    by_cases this : k = i
    · subst this
      exact tidy.fresh k job found
    · exact tidy.fresh k other (by simpa [Board.stage, this] using known)

theorem Tidy.request (tidy : Tidy s) : Tidy (s.request kind c) where
  owned d label set := by
    by_cases same : d = c
    · subst same
      obtain rfl : ⟨kind.op, s.next⟩ = label := by simpa [Board.request] using set
      refine ⟨⟨kind, d, .labelled⟩, by simp [Board.request], rfl, fun k other known _ => ?_⟩
      by_cases this : k = s.next
      · exact this.le
      · exact (tidy.fresh k other (by simpa [Board.request, this] using known)).le
    · obtain ⟨owner, there, here, last⟩ :=
        tidy.owned d label (by simpa [Board.request, same] using set)
      have before : label.owner ≠ s.next := (tidy.fresh _ _ there).ne
      refine ⟨owner, by simpa [Board.request, before] using there, here, fun k other known at_ => ?_⟩
      by_cases this : k = s.next
      · subst this
        obtain rfl : ⟨kind, c, .labelled⟩ = other := by simpa [Board.request] using known
        exact absurd at_.symm same
      · exact last k other (by simpa [Board.request, this] using known) at_
  fresh k other known := by
    by_cases this : k = s.next
    · exact this ▸ Nat.lt_succ_self _
    · exact (tidy.fresh k other (by simpa [Board.request, this] using known)).trans (Nat.lt_succ_self _)

theorem Tidy.step (tidy : Tidy s) (hstep : s.step e = some t) : Tidy t := by
  cases step_cases hstep with
  | requested => exact tidy.request
  | reported =>
    unfold Board.docker
    split
    · exact tidy.remove
    · exact tidy
  | waited => exact ⟨tidy.owned, tidy.fresh⟩
  | proceeded found => exact tidy.staged found
  | ended found => exact (tidy.staged found).remove

theorem always_tidy (run : board.Run l s) : Machine.Always Tidy l s := by
  refine run.always (fun s start => ?_) fun s e t tidy hstep => tidy.step hstep
  rw [show s = {} from start]
  exact { owned := fun c label set => (nomatch set), fresh := fun i job known => (nomatch known) }

theorem rightly_of_kept
    (kept : ∀ c, t.labels c = s.labels c ∨ t.labels c ≠ none ∨ ∃ action, e = .docker action c) :
    Rightly ⟨s, e, t⟩ := by
  intro c label job b set known button gone
  rcases kept c with same | there | told
  · cases set.symm.trans (same.symm.trans gone)
  · exact absurd gone there
  · exact .inl told

/-- A step removes the label of a button rightly exactly where it is not disturbed. -/
theorem rightly_iff (tidy : Tidy s) (hstep : s.step e = some t) :
    Rightly ⟨s, e, t⟩ ↔ Undisturbed ⟨s, e, t⟩ := by
  have silent (none : e.ends = none) : Undisturbed ⟨s, e, t⟩ := by
    intro i job ends
    cases none.symm.trans ends
  cases step_cases hstep with
  | @requested kind container =>
    refine iff_of_true (rightly_of_kept fun c => ?_) (silent rfl)
    by_cases same : c = container
    · exact .inr (.inl (by simp [Board.request, same]))
    · exact .inl (by simp [Board.request, same])
  | @reported action container =>
    refine iff_of_true (rightly_of_kept fun c => ?_) (silent rfl)
    by_cases same : c = container
    · exact .inr (.inr ⟨action, by rw [same]⟩)
    · left
      unfold Board.docker
      split
      · simp [Board.remove, same]
      · rfl
  | waited => exact iff_of_true (rightly_of_kept fun c => .inl rfl) (silent rfl)
  | proceeded found how =>
    exact iff_of_true (rightly_of_kept fun c => .inl rfl) (silent (by cases how <;> rfl))
  | @ended _ i job found how =>
    have ends : e.ends = some i := by cases how <;> rfl
    have gone : ((s.stage i job .done).remove job.container).labels job.container = none :=
      Function.update_self ..
    constructor
    · intro rightly i' job' ends' found'
      cases ends.symm.trans ends'
      cases found.symm.trans found'
      cases set : s.labels job.container with
      | none => exact .inl rfl
      | some label =>
        refine .inr fun k newest last => ?_
        obtain ⟨owner, latest⟩ := tidy.owned _ _ set
        obtain ⟨same, rfl⟩ := latest.unique last
        cases kind : owner.kind with
        | rollback => exact .inr rfl
        | button b =>
          left
          rw [← same]
          rcases rightly _ label owner b set latest.1 kind gone with ⟨action, told⟩ | failed | ⟨woken, -⟩
          · cases how <;> cases told
          · rw [show e = _ from failed] at ends
            exact Option.some.inj ends
          · rw [show e = _ from woken] at ends
            exact Option.some.inj ends
    · intro calm c label owner b set known button removed
      by_cases here : c = job.container
      · subst here
        obtain ⟨_, latest⟩ := tidy.owned _ _ set
        cases known.symm.trans latest.1
        rcases calm i job ends found with none | last
        · cases set.symm.trans none
        · rcases last _ owner latest with same | rollback
          · subst same
            cases found.symm.trans known
            cases how with
            | fail => exact .inr (.inl rfl)
            | wake due => exact .inr (.inr ⟨rfl, _, rfl, due⟩)
            | finish => cases button
          · cases button.symm.trans rollback
      · have kept : ((s.stage i job .done).remove job.container).labels c = s.labels c :=
          Function.update_of_ne here ..
        cases set.symm.trans (kept.symm.trans removed)

/-- Throughout a run the labels of the buttons are removed rightly exactly where no job that ends
disturbs a later one. -/
theorem labels_removed_iff (run : board.Run l s) :
    (∀ m ∈ l, Rightly m) ↔ ∀ m ∈ l, Undisturbed m := by
  have each : ∀ m ∈ l, Rightly m ↔ Undisturbed m :=
    run.moves (always_tidy run) fun s e t tidy _ hstep => rightly_iff tidy hstep
  exact forall₂_congr each

/-! ### One job at a time -/

/-- Nothing asks for a label while a job for the container is not over. -/
def Alone (m : Move Board Event) : Prop :=
  ∀ kind c, m.event = .request kind c →
    ∀ i job, m.source.jobs i = some job → job.container = c → job.stage = .done

/-- All jobs but the last for a container are over. -/
def Settled (s : Board) : Prop :=
  ∀ i job k later, s.jobs i = some job → s.jobs k = some later → later.container = job.container →
    i < k → job.stage = .done

theorem Settled.staged (settled : Settled s) (found : s.jobs i = some job)
    (running : job.stage ≠ .done) :
    Settled (s.stage i job stage) := by
  intro j first k later known known' same less
  have before {k : ℕ} {x : Job} (known : (s.stage i job stage).jobs k = some x) :
      ∃ y, s.jobs k = some y ∧ y.container = x.container ∧ (k ≠ i → y = x) := by
    by_cases this : k = i
    · subst this
      obtain rfl : { job with stage } = x := by simpa [Board.stage] using known
      exact ⟨job, found, rfl, fun other => absurd rfl other⟩
    · exact ⟨x, by simpa [Board.stage, this] using known, rfl, fun _ => rfl⟩
  obtain ⟨a, there, container, kept⟩ := before known
  obtain ⟨b, there', container', -⟩ := before known'
  have ended := settled j a k b there there' (by rw [container', same, container]) less
  by_cases this : j = i
  · subst this
    cases found.symm.trans there
    exact absurd ended running
  · rw [← kept this]
    exact ended

theorem Settled.request (settled : Settled s) (tidy : Tidy s)
    (alone : ∀ i job, s.jobs i = some job → job.container = c → job.stage = .done) :
    Settled (s.request kind c) := by
  intro j first k later known known' same less
  have old {k : ℕ} {x : Job} (known : (s.request kind c).jobs k = some x) (other : k ≠ s.next) :
      s.jobs k = some x := by
    simpa [Board.request, other] using known
  by_cases last : k = s.next
  · subst last
    obtain rfl : ⟨kind, c, .labelled⟩ = later := by simpa [Board.request] using known'
    exact alone j first (old known less.ne) same.symm
  · have there := old known' last
    have before : j ≠ s.next := (less.trans (tidy.fresh k later there)).ne
    exact settled j first k later (old known before) there same less

theorem Settled.step (settled : Settled s) (tidy : Tidy s) (alone : Alone ⟨s, e, t⟩)
    (hstep : s.step e = some t) : Settled t := by
  cases step_cases hstep with
  | requested => exact settled.request tidy (alone _ _ rfl)
  | reported =>
    unfold Board.docker
    split
    · exact settled
    · exact settled
  | waited => exact settled
  | proceeded found how => exact settled.staged found (by cases how <;> (rintro ⟨⟩))
  | ended found how => exact settled.staged found (by cases how <;> (rintro ⟨⟩))

/-- One job at a time for a container disturbs none. -/
theorem undisturbed_of_alone (run : board.Run l s) (alone : ∀ m ∈ l, Alone m) :
    ∀ m ∈ l, Undisturbed m := by
  have inv : Machine.Always (fun s => Tidy s ∧ Settled s) l s := by
    refine run.always_of (C := Alone) (fun s start => ?_) (fun s e t inv alone hstep => ?_) alone
    · rw [show s = {} from start]
      exact ⟨(always_tidy (.start rfl)).1, fun i job k later known => (nomatch known)⟩
    · exact ⟨inv.1.step hstep, inv.2.step inv.1 alone hstep⟩
  refine run.moves inv fun s e t ⟨_, settled⟩ _ hstep i job ends found => .inr fun k newest last => ?_
  left
  have running : job.stage ≠ .done := by
    cases step_cases hstep with
    | requested => cases ends
    | reported => cases ends
    | waited => cases ends
    | proceeded _ how => cases how <;> cases ends
    | ended there how =>
      cases how <;> cases ends <;> cases there.symm.trans found <;> rintro ⟨⟩
  rcases Nat.lt_or_eq_of_le (last.2.2 i job found rfl) with less | same
  · exact absurd (settled i job k newest found last.1 last.2.1 less) running
  · exact same.symm

theorem wakes {since : ℕ} (sleeping : s.jobs i = some ⟨kind, c, .sleeping since⟩)
    (due : since + 300 ≤ s.now) : ∃ t, s.step (.wake i) = some t ∧ t.labels c = none := by
  refine ⟨(s.stage i ⟨kind, c, .sleeping since⟩ .done).remove c, ?_, ?_⟩
  · simp only [Board.step, sleeping]
    exact if_pos due
  · exact Function.update_self ..

/-- A container is stopped, and the five minutes pass. -/
def stopped : List Event := [.request (.button .stop) "web", .dispatch 0, .launch 0, .tick 300]

/-- The timer of the request removes the label. -/
theorem labels_removed_stopped : ∃ l s, board.Run l s ∧ s.labels "web" = none ∧
    l.map (·.event) = .wake 0 :: stopped.reverse ∧
    ∀ m ∈ l, Rightly m := by
  have played : (stopped.foldlM Board.step {}).any (fun s => s.next == 1 &&
      s.jobs 0 == some ⟨.button .stop, "web", .sleeping 0⟩ && s.now == 300) = true := by decide
  have start : ({} : Board) = {} := rfl
  obtain ⟨l, s, run, events, last⟩ :=
    @Machine.exists_run_of _ _ (· = {}) _ _ _ start stopped played
  simp only [Bool.and_eq_true, beq_iff_eq] at last
  obtain ⟨⟨next, job⟩, now⟩ := last
  have only : ∀ k other, s.jobs k = some other → k = 0 := by
    intro k other known
    have fresh := (always_tidy run).1.fresh k other known
    omega
  obtain ⟨t, woken, gone⟩ := wakes job (by omega)
  have longer := run.step woken
  refine ⟨_, _, longer, gone, congrArg (List.cons _) events,
    (labels_removed_iff longer).mpr (List.forall_mem_cons.mpr ⟨?_, fun m mem i job ends => ?_⟩)⟩
  · rintro i job ⟨⟩ -
    exact .inr fun k newest last => .inl (only k newest last.1)
  · have event := List.mem_map_of_mem (f := Move.event) mem
    rw [events] at event
    have none : m.event.ends = none := by
      simp only [stopped, List.reverse_cons, List.reverse_nil, List.nil_append, List.cons_append,
        List.mem_cons, List.not_mem_nil, or_false] at event
      rcases event with event | event | event | event <;> rw [event] <;> rfl
    cases none.symm.trans ends

/-- A container is stopped, is reported as gone, and is restarted; the first timer is over. -/
def restarted : List Event :=
  [.request (.button .stop) "web", .dispatch 0, .launch 0, .docker .die "web", .tick 200,
    .request (.button .restart) "web", .tick 100]

/-- The timer of the stop removes the label of the restart. -/
theorem timer_clears_newer : ¬ ∀ l s, board.Run l s → ∀ m ∈ l, Rightly m := by
  intro rightly
  obtain ⟨l, s, run, played⟩ : ∃ l s, board.Run l s ∧
      (s.labels "web" == some ⟨.restarting, 1⟩ &&
        s.jobs 1 == some ⟨.button .restart, "web", .labelled⟩ &&
        s.jobs 0 == some ⟨.button .stop, "web", .sleeping 0⟩ && s.now == 300) = true :=
    Machine.exists_run rfl restarted (by decide)
  simp only [Bool.and_eq_true, beq_iff_eq] at played
  obtain ⟨⟨⟨label, newer⟩, older⟩, now⟩ := played
  obtain ⟨t, woken, gone⟩ := wakes older (by omega)
  rcases rightly _ _ (run.step woken) _ (.head _) "web" _ _ .restart label newer rfl gone with
    ⟨action, told⟩ | failed | ⟨other, -⟩
  · cases told
  · cases failed
  · cases other

end Codery.OpLabels
