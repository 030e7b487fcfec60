import Codery.Dashboard

/-! The status messages of the event watcher and of the handlers (`ui.rs`): each of Docker's events
starts a task that builds a status, each operation set or cleared by a handler comes with a
`broadcast_status`, and they send what they have built in no particular order. -/

namespace Codery.StatusFeed

open Codery.Effect

abbrev Ops := String → Option Dashboard.Op

/-- A container as Docker lists it. -/
structure ContainerSummary where
  names : List String
  image : String := ""
  status : String := ""
  state : String := ""

structure ServiceStatus where
  name : String
  image : String
  status : String
  state : String
  service : Option String
  rollbackAvailable : Bool
  prevContainer : Option String
  operation : Option Dashboard.Op
  serving : Bool

/-- What a task is told while it builds a status: the containers, the colors recorded of services,
and which containers are stopped. -/
structure View where
  containers : List ContainerSummary
  active : String → Option Color := fun _ => none
  stopped : String → Bool := fun _ => false

/-- `str::strip_suffix`. -/
def stripSuffix (suf s : String) : Option String :=
  if suf.toList.isSuffixOf s.toList then some (String.ofList (s.toList.take (s.length - suf.length)))
  else none

theorem stripSuffix_iff {suf s rest : String} : stripSuffix suf s = some rest ↔ s = rest ++ suf := by
  constructor
  · intro stripped
    unfold stripSuffix at stripped
    split at stripped
    case isTrue ends =>
      obtain ⟨cs, same⟩ := List.isSuffixOf_iff_suffix.mp ends
      cases stripped
      have size : s.length - suf.length = cs.length := by
        rw [← String.length_toList, ← same, List.length_append, String.length_toList,
          Nat.add_sub_cancel]
      apply String.toList_inj.mp
      rw [size, ← same, String.toList_append, String.toList_ofList, List.take_left]
    case isFalse => cases stripped
  · rintro rfl
    have ends : suf.toList.isSuffixOf (rest ++ suf).toList = true := by
      simp [List.isSuffixOf_iff_suffix]
    rw [stripSuffix, if_pos ends, String.length_append, Nat.add_sub_cancel, String.toList_append,
      ← String.length_toList, List.take_left, String.ofList_toList]

def parseServiceContainer (name : String) : Option (String × Color) :=
  match stripPrefix "codery-" name with
  | none => none
  | some rest =>
    match stripSuffix "-blue" rest with
    | some svc => some (svc, .blue)
    | none => (stripSuffix "-green" rest).map fun svc => (svc, .green)

theorem containerName_of_parse {name service : String} {color : Color}
    (parsed : parseServiceContainer name = some (service, color)) :
    containerName service color = name := by
  unfold parseServiceContainer at parsed
  split at parsed
  case h_1 => cases parsed
  case h_2 rest stripped =>
    have whole := stripPrefix_iff.mp stripped
    rw [containerName, String.append_assoc, String.append_assoc, whole]
    split at parsed
    case h_1 svc blue =>
      cases parsed
      rw [stripSuffix_iff.mp blue]
      rfl
    case h_2 =>
      obtain ⟨svc, green, same⟩ := Option.map_eq_some_iff.mp parsed
      cases same
      rw [stripSuffix_iff.mp green]
      rfl

@[simp] theorem parseServiceContainer_containerName (service : String) (color : Color) :
    parseServiceContainer (containerName service color) = some (service, color) := by
  have rest : stripPrefix "codery-" (containerName service color) =
      some (service ++ ("-" ++ color.asStr)) :=
    stripPrefix_iff.mpr (by rw [containerName, String.append_assoc, String.append_assoc])
  have ends : stripSuffix ("-" ++ color.asStr) (service ++ ("-" ++ color.asStr)) = some service :=
    stripSuffix_iff.mpr rfl
  -- One of the two suffixes is found, and what is read names the same container.
  obtain ⟨⟨svc, found⟩, parsed⟩ :
      ∃ read, parseServiceContainer (containerName service color) = some read := by
    rw [parseServiceContainer, rest]
    dsimp only
    split
    case h_1 svc blue => exact ⟨(svc, .blue), rfl⟩
    case h_2 none =>
      cases color with
      | blue => exact absurd (ends.symm.trans none) (Option.some_ne_none service)
      | green => exact ⟨(service, .green), congrArg (Option.map _) ends⟩
  obtain ⟨rfl, rfl⟩ := containerName_inj.mp (containerName_of_parse parsed)
  exact parsed

/-- The names and the pairs of a service and a color answer each other, so that two pairs never
share a container. -/
theorem container_names :
    (∀ service color, parseServiceContainer (containerName service color) = some (service, color)) ∧
    (∀ name service color, parseServiceContainer name = some (service, color) ↔
      containerName service color = name) ∧
    Function.Injective fun pair : String × Color => containerName pair.1 pair.2 := by
  refine ⟨parseServiceContainer_containerName, fun name service color => ⟨containerName_of_parse, ?_⟩,
    fun pair other same => Prod.ext_iff.mpr (containerName_inj.mp same)⟩
  rintro rfl
  exact parseServiceContainer_containerName service color

def serviceStatus (ops : Ops) (view : View) (c : ContainerSummary) : ServiceStatus :=
  let name := String.ofList ((c.names.head?.getD "").toList.dropWhile (· = '/'))
  let unknown : ServiceStatus :=
    { name, image := c.image, status := c.status, state := c.state, service := none
      rollbackAvailable := false, prevContainer := none, operation := ops name, serving := false }
  match parseServiceContainer name with
  | none => unknown
  | some (svc, color) =>
    let peer := containerName svc (flip color)
    { unknown with
      service := some svc
      rollbackAvailable := view.stopped peer
      prevContainer := if view.stopped peer then some peer else none
      serving := view.active svc = some color }

/-- `build_status`. -/
def buildStatus (ops : Ops) (view : View) : List ServiceStatus :=
  view.containers.map (serviceStatus ops view)

/-- Who builds a status: the task of an event, or the `broadcast_status` of a handler. -/
inductive Builder
  | watcher
  | handler
  deriving DecidableEq

inductive Stage
  | building
  | sent
  | failed
  deriving DecidableEq

/-- What builds a status, with the operations as they were when it was started. -/
structure Task where
  builder : Builder
  ops : Ops
  stage : Stage := .building

structure Message where
  /-- The task that has built it. -/
  task : ℕ
  statuses : List ServiceStatus

/-- The tasks in the order they were started, and what has been sent to the subscribers, the latest
first. -/
structure Feed where
  ops : Ops := fun _ => none
  /-- The handlers that have changed the operations and not begun their broadcast. -/
  due : ℕ := 0
  tasks : List Task := []
  sent : List Message := []

inductive Event
  | docker (action : Dashboard.Action) (container : String)
  /-- A handler sets or clears the operation of a container. -/
  | handler (container : String) (op : Option Dashboard.Op)
  /-- Its `broadcast_status` begins. -/
  | broadcast
  /-- Task `k` has built its status and sends it. -/
  | send (k : ℕ) (view : View)
  /-- Task `k` meets an error, or the five seconds of a task of the watcher are over. -/
  | fail (k : ℕ)
  /-- The request whose handler is task `k` is dropped. -/
  | drop (k : ℕ)

namespace Feed

variable (s : Feed)

def start (builder : Builder) (ops : Ops) : Feed :=
  { s with ops, tasks := s.tasks ++ [{ builder, ops }] }

/-- Task `k`, while it builds. -/
def building (k : ℕ) : Option Task := (s.tasks[k]?).filter (·.stage = .building)

def finish (k : ℕ) (task : Task) : Option (List ServiceStatus) → Feed
  | some statuses =>
    { s with
      tasks := s.tasks.set k { task with stage := .sent }
      sent := { task := k, statuses } :: s.sent }
  | none => { s with tasks := s.tasks.set k { task with stage := .failed } }

def step (s : Feed) : Event → Option Feed
  | .docker action container => some (s.start .watcher (action.update container s.ops))
  | .handler container op =>
    some { s with ops := Function.update s.ops container op, due := s.due + 1 }
  | .broadcast => if s.due = 0 then none else some { s.start .handler s.ops with due := s.due - 1 }
  | .send k view => (s.building k).map fun task => s.finish k task (buildStatus task.ops view)
  | .fail k => (s.building k).map fun task =>
    -- `broadcast_status` sends an empty list then
    s.finish k task (if task.builder = .handler then some [] else none)
  | .drop k => ((s.building k).filter (·.builder = .handler)).map fun task => s.finish k task none

/-- All tasks have finished. -/
def Settled : Prop := ∀ t ∈ s.tasks, t.stage ≠ .building

def stage (k : ℕ) : Option Stage := (s.tasks[k]?).map (·.stage)

/-- Task `n` is that of the last event, and no broadcast has begun since. -/
def LastEvent (n : ℕ) : Prop :=
  s.tasks.length = n + 1 ∧ (s.tasks[n]?).map (·.builder) = some .watcher

end Feed

def watcher : Machine Feed Event := .ofStep (fun s => s.tasks = [] ∧ s.sent = []) Feed.step

variable {s t : Feed} {e : Event} {l : List (Move Feed Event)} {m : Move Feed Event} {n k : ℕ}
  {task : Task} {message : Option (List ServiceStatus)}

/-! ### Which message is the last -/

/-- Event `n` arrives while a task still builds, or its own task sends nothing. -/
def Spoils (n : ℕ) (m : Move Feed Event) : Prop :=
  (m.source.tasks.length = n ∧ (∃ action container, m.event = .docker action container) ∧
    ¬ m.source.Settled) ∨ m.event = .fail n

/-- No task but the last one can send any more, and what that one sends is the last message. -/
structure Feed.Alone (s : Feed) (n : ℕ) : Prop where
  ended : ∀ k < n, s.stage k ≠ some .building
  own : s.stage n = some .building ∨
    s.stage n = some .sent ∧ s.sent.head?.map (·.task) = some n

theorem building_some (found : s.building k = some task) :
    s.tasks[k]? = some task ∧ task.stage = .building := by
  simpa [Feed.building, Option.filter_eq_some_iff] using found

theorem stage_of_building (found : s.building k = some task) : s.stage k = some .building := by
  obtain ⟨here, stage⟩ := building_some found
  rw [Feed.stage, here, Option.map_some, stage]

/-- A settled feed in which an event arrives is left to the task of that event. -/
theorem alone_start {builder : Builder} {ops : Ops} (settled : s.Settled)
    (length : s.tasks.length = n) : (s.start builder ops).Alone n where
  ended k before := by
    have here : k < s.tasks.length := length ▸ before
    have stage : (s.start builder ops).stage k = some s.tasks[k].stage := by
      rw [Feed.stage, Feed.start, List.getElem?_append_left here, List.getElem?_eq_getElem here]
      rfl
    rw [stage]
    exact fun same => settled _ (List.getElem_mem here) (Option.some.inj same)
  own := by
    subst length
    exact .inl (by simp [Feed.stage, Feed.start])

@[simp] theorem length_finish : (s.finish k task message).tasks.length = s.tasks.length := by
  cases message <;> simp [Feed.finish]

theorem lastEvent_finish (found : s.building k = some task) :
    (s.finish k task message).LastEvent n ↔ s.LastEvent n := by
  obtain ⟨here, -⟩ := building_some found
  have within := (List.getElem?_eq_some_iff.mp here).1
  have builders : ((s.finish k task message).tasks[n]?).map (·.builder) =
      (s.tasks[n]?).map (·.builder) := by
    by_cases own : k = n
    · subst own
      cases message <;> simp [Feed.finish, List.getElem?_set_self within, here]
    · cases message <;> simp [Feed.finish, List.getElem?_set_ne own]
  rw [Feed.LastEvent, Feed.LastEvent, length_finish, builders]

/-- Only the last task can finish, and if it is that of an event, with its message. -/
theorem Feed.Alone.finish (alone : s.Alone n) (last : s.LastEvent n)
    (found : s.building k = some task) (sends : k = n → message.isSome = true) :
    (s.finish k task message).Alone n := by
  have own : k = n := by
    have building := stage_of_building found
    have within : k < s.tasks.length := (List.getElem?_eq_some_iff.mp (building_some found).1).1
    by_contra other
    exact alone.ended k (by have := last.1; omega) building
  subst own
  obtain ⟨statuses, rfl⟩ := Option.isSome_iff_exists.mp (sends rfl)
  have within : k < s.tasks.length := by have := last.1; omega
  refine ⟨fun j before => ?_, .inr ⟨?_, rfl⟩⟩
  · have kept : (s.finish k task (some statuses)).stage j = s.stage j := by
      simp [Feed.finish, Feed.stage, List.getElem?_set_ne before.ne']
    exact kept ▸ alone.ended j before
  · simp [Feed.finish, Feed.stage, List.getElem?_set_self within]

theorem alone_run (run : watcher.Run l s) (last : s.LastEvent n) (calm : ∀ m ∈ l, ¬ Spoils n m) :
    s.Alone n := by
  induction run with
  | start hs =>
    have none := last.1
    simp [hs.1] at none
  | @step l s e t _ hstep ih =>
    obtain ⟨now, before⟩ := List.forall_mem_cons.mp calm
    have hstep : s.step e = some t := hstep
    cases e with
    | docker action container =>
      cases hstep
      have length : s.tasks.length = n := by simpa [Feed.start] using last.1
      exact alone_start (by_contra fun busy => now (.inl ⟨length, ⟨_, _, rfl⟩, busy⟩)) length
    | handler container op =>
      cases hstep
      exact { ih last before with }
    | broadcast =>
      obtain ⟨-, same⟩ := Option.ite_none_left_eq_some.mp hstep
      cases same
      -- the last task would be one of a handler
      obtain ⟨length, builder⟩ := last
      have length : s.tasks.length = n := by simpa [Feed.start] using length
      simp [Feed.start, ← length] at builder
    | send k view =>
      obtain ⟨task, found, rfl⟩ := Option.map_eq_some_iff.mp hstep
      have last := (lastEvent_finish found).mp last
      exact (ih last before).finish last found fun _ => rfl
    | fail k =>
      obtain ⟨task, found, rfl⟩ := Option.map_eq_some_iff.mp hstep
      have last := (lastEvent_finish found).mp last
      refine (ih last before).finish last found fun own => ?_
      exact absurd (.inr (by rw [own])) now
    | drop k =>
      obtain ⟨task, found, rfl⟩ := Option.map_eq_some_iff.mp hstep
      obtain ⟨found, handler⟩ := Option.filter_eq_some_iff.mp found
      have last := (lastEvent_finish found).mp last
      refine (ih last before).finish last found fun own => ?_
      have builder := last.2
      rw [← own, (building_some found).1, Option.map_some, Option.some.injEq] at builder
      simp [builder] at handler

/-- When the last event arrives while no task builds and its own task does build its status, its
message is the last one, once all tasks have finished. -/
theorem fresh_alone (run : watcher.Run l s) (settled : s.Settled) (last : s.LastEvent n)
    (calm : ∀ m ∈ l, ¬ Spoils n m) : s.sent.head?.map (·.task) = some n := by
  obtain building | ⟨-, fresh⟩ := (alone_run run last calm).own
  · obtain ⟨task, here, stage⟩ := Option.map_eq_some_iff.mp building
    exact absurd stage (settled task (List.mem_of_getElem? here))
  · exact fresh

theorem watcher_step (hstep : s.step e = some t) : watcher.Step s e t := hstep

/-- A container is stopped from the dashboard, dies, and is started again: each task sends before
the next event. -/
theorem fresh_in_order : ∃ l s, watcher.Run l s ∧ s.LastEvent 2 ∧
    s.sent.head?.map (·.task) = some 2 := by
  have played : ∃ l s, watcher.Run l s ∧ (decide (s.tasks.length = 3) &&
      decide ((s.tasks[2]?).map (·.builder) = some .watcher) &&
      s.tasks.all (fun t => decide (t.stage ≠ .building)) && l.all fun m =>
        match m.event with
        | .docker _ _ => m.source.tasks.all fun t => decide (t.stage ≠ .building)
        | .fail _ => false
        | _ => true) = true :=
    Machine.exists_run_moves (show ({} : Feed).tasks = [] ∧ ({} : Feed).sent = [] from ⟨rfl, rfl⟩)
      [.handler "codery-api-blue" (some .stopping), .broadcast, .send 0 { containers := [] },
        .docker .die "codery-api-blue", .send 1 { containers := [] },
        .docker .start "codery-api-blue", .send 2 { containers := [] }]
      (by decide)
  obtain ⟨l, s, run, seen⟩ := played
  simp only [Bool.and_eq_true, decide_eq_true_eq, List.all_eq_true] at seen
  obtain ⟨⟨last, settled⟩, calm⟩ := seen
  refine ⟨l, s, run, last, fresh_alone run settled last ?_⟩
  rintro m hm (⟨-, ⟨action, container, arrives⟩, busy⟩ | fails)
  · have quiet := calm m hm
    rw [arrives] at quiet
    exact busy (by simpa [Feed.Settled] using quiet)
  · have unfailed := calm m hm
    rw [fails] at unfailed
    cases unfailed

/-- The task of the first event is the slower one, and the dashboard stays on what it has read. -/
theorem dashboard_overtaken : ¬ ∀ l s, watcher.Run l s → s.Settled → ∀ n, s.LastEvent n →
    s.sent.head?.map (·.task) = some n := by
  intro all
  have run := ((((Machine.Run.start (M := watcher) (s := {}) ⟨rfl, rfl⟩).step
    (watcher_step (e := .docker .die "codery-api-blue") rfl)).step
    (watcher_step (e := .docker .start "codery-api-green") rfl)).step
    (watcher_step (e := .send 1 { containers := [{ names := ["/codery-api-green"] }] }) rfl)).step
    (watcher_step (e := .send 0 { containers := [] }) rfl)
  have fresh := all _ _ run (by simp [Feed.Settled, Feed.finish, Feed.start]) 1 ⟨rfl, rfl⟩
  exact absurd fresh (by simp [Feed.finish])

end Codery.StatusFeed
