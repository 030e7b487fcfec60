import Codery.Config
import Mathlib.Logic.Function.Basic

/-! The Docker daemon as the orchestrator sees it: named containers, cached images, and the API
calls made on them.  Each call leaves a choice to the environment. -/

namespace Codery

structure Container where
  image : String
  running : Bool
  /-- History: a health check has passed since the container was last created and started. -/
  healthPassed : Bool := false
  deriving DecidableEq

structure Image where
  id : String
  repoTags : List String
  created : Int
  deriving DecidableEq

inductive HealthStatus
  | none
  | starting
  | healthy
  | unhealthy
  deriving DecidableEq

/-- What the environment decides at a call: whether it succeeds, what a failed call leaves behind
(a container in any state, a file cut short), and what is reported back. -/
inductive Choice
  | ok
  | fail
  | leaves (c : Option Container)
  | torn (n : Nat)
  | health (s : HealthStatus)
  | output (s : String)
  | pulled (i : Image)
  | bound (ports : List UInt16)
  deriving DecidableEq

/-- A call that either does its work or fails without a trace. -/
def Choice.fallible (o : Choice) (done failed : α) : Option α :=
  match o with
  | .ok => some done
  | .fail => some failed
  | _ => none

namespace Docker

structure Error where
  statusCode : Nat
  message : String
  deriving DecidableEq

def serverError : Error := ⟨500, "server error"⟩
def notFound : Error := ⟨404, "No such container"⟩
def notModified : Error := ⟨304, "not modified"⟩
def conflict : Error := ⟨409, "name is already in use"⟩

structure Inspect where
  running : Bool
  image : String
  deriving DecidableEq

structure Daemon where
  containers : String → Option Container
  images : List Image

def Daemon.put (d : Daemon) (name : String) (c : Option Container) : Daemon :=
  { d with containers := Function.update d.containers name c }

@[simp] theorem Daemon.put_same (d : Daemon) (n : String) (c : Option Container) :
    (d.put n c).containers n = c := by simp [Daemon.put]

@[simp] theorem Daemon.put_other (d : Daemon) {n m : String} (c : Option Container) (h : m ≠ n) :
    (d.put n c).containers m = d.containers m := by simp [Daemon.put, h]

@[simp] theorem Daemon.put_images (d : Daemon) (n : String) (c : Option Container) :
    (d.put n c).images = d.images := rfl

def Daemon.Up (d : Daemon) (name : String) : Prop :=
  ∃ c, d.containers name = some c ∧ c.running = true

inductive Call
  | createNetwork (name : String)
  | inspectContainer (name : String)
  | inspectHealth (name : String)
  | execTcpProbe (name : String) (port : UInt16)
  | createContainer (name image : String)
  | startContainer (name : String)
  | stopContainer (name : String)
  | removeContainer (name : String)
  | containerExec (name : String) (cmd : List String)
  | pullIfMissing (image : String)
  | listImages (reference : String)
  | removeImage (id : String)

@[reducible] def Call.Reply : Call → Type
  | .createNetwork _ => Except Error Unit
  | .inspectContainer _ => Except Error Inspect
  | .inspectHealth _ => Except Error HealthStatus
  | .execTcpProbe _ _ => Bool
  | .createContainer _ _ => Except Error Unit
  | .startContainer _ => Except Error Unit
  | .stopContainer _ => Except Error Unit
  | .removeContainer _ => Except Error Unit
  | .containerExec _ _ => Except String String
  | .pullIfMissing _ => Except String Unit
  | .listImages _ => Except String (List Image)
  | .removeImage _ => Except Error Unit

/-- The container a call may change. -/
def Call.target : Call → Option String
  | .inspectHealth n => some n
  | .execTcpProbe n _ => some n
  | .createContainer n _ => some n
  | .startContainer n => some n
  | .stopContainer n => some n
  | .removeContainer n => some n
  | _ => none

/-- What is left of a name once a `*` has taken a part of it without `/`. -/
def starRests : List Char → List (List Char)
  | [] => [[]]
  | c :: s => (c :: s) :: if c = '/' then [] else starRests s

/-- `reference` filters are globs on `repo:tag`. -/
def glob : List Char → List Char → Bool
  | [], s => s.isEmpty
  | '*' :: p, s => (starRests s).any (glob p)
  | c :: p, d :: s => c == d && glob p s
  | _ :: _, [] => false

/-- A call that changes the life of the container it names.  A failed one may leave that
container in any state; nothing started by it has passed a health check. -/
def lifecycle (name : String) (o : Choice) (d : Daemon) (done : Except Error Unit × Daemon) :
    Option (Except Error Unit × Daemon) :=
  match o with
  | .ok => some done
  | .fail => some (.error serverError, d)
  | .leaves c => some (.error serverError, d.put name (c.map fun c => { c with healthPassed := false }))
  | _ => none

/-- A status Docker reports as healthy is that of a running container. -/
def Daemon.reportHealth (d : Daemon) (name : String) (s : HealthStatus) :
    Option (Except Error HealthStatus × Daemon) :=
  match d.containers name with
  | none => some (.error notFound, d)
  | some c =>
    if s ≠ .healthy then some (.ok s, d)
    else if c.running then some (.ok s, d.put name (some { c with healthPassed := true }))
    else none

/-- The pair of a lifecycle call's result and the daemon it leaves, when nothing goes wrong. -/
abbrev Outcome := Except Error Unit × Daemon

def Daemon.create (d : Daemon) (n image : String) : Outcome :=
  match d.containers n with
  | some _ => (.error conflict, d)
  | none => (.ok (), d.put n (some { image, running := false }))

def Daemon.start (d : Daemon) (n : String) : Outcome :=
  match d.containers n with
  | none => (.error notFound, d)
  | some c =>
    if c.running then (.error notModified, d)
    else (.ok (), d.put n (some { c with running := true, healthPassed := false }))

def Daemon.stop (d : Daemon) (n : String) : Outcome :=
  match d.containers n with
  | none => (.error notFound, d)
  | some c =>
    if c.running then (.ok (), d.put n (some { c with running := false }))
    else (.error notModified, d)

def Daemon.remove (d : Daemon) (n : String) : Outcome :=
  match d.containers n with
  | none => (.error notFound, d)
  | some _ => (.ok (), d.put n none)

def Daemon.probe (d : Daemon) (n : String) : Option (Bool × Daemon) :=
  match d.containers n with
  | none => none
  | some c =>
    if c.running then some (true, d.put n (some { c with healthPassed := true })) else none

def Daemon.inspect (d : Daemon) (n : String) : Except Error Inspect :=
  match d.containers n with
  | none => .error notFound
  | some c => .ok { running := c.running, image := c.image }

def Call.answer : (c : Call) → Choice → Daemon → Option (c.Reply × Daemon)
  | .createNetwork _, o, d => o.fallible (.ok (), d) (.error serverError, d)
  | .inspectContainer n, o, d => o.fallible (d.inspect n, d) (.error serverError, d)
  | .inspectHealth n, .health s, d => d.reportHealth n s
  | .inspectHealth _, .fail, d => some (.error serverError, d)
  | .inspectHealth _, _, _ => none
  | .execTcpProbe n _, .ok, d => d.probe n
  | .execTcpProbe _ _, .fail, d => some (false, d)
  | .execTcpProbe _ _, _, _ => none
  | .createContainer n image, o, d => lifecycle n o d (d.create n image)
  | .startContainer n, o, d => lifecycle n o d (d.start n)
  | .stopContainer n, o, d => lifecycle n o d (d.stop n)
  | .removeContainer n, o, d => lifecycle n o d (d.remove n)
  | .containerExec _ _, .output s, d => some (.ok s, d)
  | .containerExec _ _, .fail, d => some (.error "failed to spawn 'docker'", d)
  | .containerExec _ _, _, _ => none
  | .pullIfMissing image, .ok, d =>
    if d.images.any (·.repoTags.contains image) then some (.ok (), d) else none
  | .pullIfMissing image, .pulled i, d =>
    some (.ok (), { d with images := { i with repoTags := [image] } :: d.images })
  | .pullIfMissing _, .fail, d => some (.error "pull failed", d)
  | .pullIfMissing _, _, _ => none
  | .listImages reference, o, d =>
    let found := d.images.filter fun i => i.repoTags.any fun t => glob reference.toList t.toList
    o.fallible (.ok found, d) (.error "failed to list images", d)
  | .removeImage id, o, d =>
    o.fallible (.ok (), { d with images := d.images.filter (·.id != id) }) (.error serverError, d)

/-! What a call can have done, read off its answer. -/

section Inversion

variable {o : Choice} {d d' : Daemon} {n : String}

theorem fallible_some {α : Type} {done failed x : α} (h : o.fallible done failed = some x) :
    x = done ∨ x = failed := by
  cases o <;> simp_all [Choice.fallible]

theorem lifecycle_some {done x : Outcome} (h : lifecycle n o d done = some x) :
    x = done ∨ x.1 = .error serverError ∧ (x.2 = d ∨ ∃ c, x.2 = d.put n c) := by
  cases o with
  | ok => cases h; exact .inl rfl
  | fail => cases h; exact .inr ⟨rfl, .inl rfl⟩
  | leaves c => cases h; exact .inr ⟨rfl, .inr ⟨_, rfl⟩⟩
  | _ => cases h

/-- `d'` differs from `d` at most in container `n`. -/
def Daemon.Alters (d : Daemon) (n : String) (d' : Daemon) : Prop := d' = d ∨ ∃ c, d' = d.put n c

theorem Daemon.Alters.other {m : String} (h : d.Alters n d') (hm : m ≠ n) :
    d'.containers m = d.containers m := by
  rcases h with rfl | ⟨c, rfl⟩
  · rfl
  · exact put_other d c hm

theorem Daemon.create_alters (image : String) : d.Alters n (d.create n image).2 := by
  unfold create
  split
  · exact .inl rfl
  · exact .inr ⟨_, rfl⟩

theorem Daemon.start_alters : d.Alters n (d.start n).2 := by
  unfold start
  split
  · exact .inl rfl
  · split
    · exact .inl rfl
    · exact .inr ⟨_, rfl⟩

theorem Daemon.stop_alters : d.Alters n (d.stop n).2 := by
  unfold stop
  split
  · exact .inl rfl
  · split
    · exact .inr ⟨_, rfl⟩
    · exact .inl rfl

theorem Daemon.remove_alters : d.Alters n (d.remove n).2 := by
  unfold remove
  split
  · exact .inl rfl
  · exact .inr ⟨_, rfl⟩

theorem lifecycle_alters {done x : Outcome} (h : lifecycle n o d done = some x)
    (hdone : d.Alters n done.2) : d.Alters n x.2 := by
  rcases lifecycle_some h with rfl | ⟨_, same⟩
  · exact hdone
  · exact same

theorem probe_some {x : Bool × Daemon} (h : d.probe n = some x) :
    x.1 = true ∧ ∃ c, d.containers n = some c ∧ c.running = true ∧
      x.2 = d.put n (some { c with healthPassed := true }) := by
  unfold Daemon.probe at h
  split at h
  case h_1 => cases h
  case h_2 c hc =>
    split at h
    case isTrue up =>
      cases h
      exact ⟨rfl, c, hc, up, rfl⟩
    case isFalse => cases h

theorem reportHealth_some {s : HealthStatus} {x : Except Error HealthStatus × Daemon}
    (h : d.reportHealth n s = some x) :
    x.1 ≠ .ok .healthy ∧ x.2 = d ∨ x.1 = .ok .healthy ∧ ∃ c, d.containers n = some c ∧
      c.running = true ∧ x.2 = d.put n (some { c with healthPassed := true }) := by
  unfold Daemon.reportHealth at h
  split at h
  case h_1 =>
    cases h
    exact .inl ⟨by simp, rfl⟩
  case h_2 c hc =>
    split at h
    case isTrue other =>
      cases h
      exact .inl ⟨by simpa using other, rfl⟩
    case isFalse same =>
      split at h
      case isTrue up =>
        cases h
        have healthy : s = .healthy := by simpa using same
        exact .inr ⟨by rw [healthy], c, hc, up, rfl⟩
      case isFalse => cases h

theorem inspect_ok {i : Inspect} (h : d.inspect n = .ok i) :
    ∃ c, d.containers n = some c ∧ i = { running := c.running, image := c.image } := by
  unfold Daemon.inspect at h
  split at h
  case h_1 => cases h
  case h_2 c hc =>
    cases h
    exact ⟨c, hc, rfl⟩

theorem answer_inspectContainer {r : Except Error Inspect}
    (h : (Call.inspectContainer n).answer o d = some (r, d')) :
    d' = d ∧ (r = d.inspect n ∨ r = .error serverError) := by
  rcases fallible_some h with h | h <;> cases h
  · exact ⟨rfl, .inl rfl⟩
  · exact ⟨rfl, .inr rfl⟩

theorem answer_listImages {reference : String} {r : Except String (List Image)}
    (h : (Call.listImages reference).answer o d = some (r, d')) :
    r = .ok (d.images.filter fun i => i.repoTags.any fun t => glob reference.toList t.toList) ∨
      r = .error "failed to list images" := by
  rcases fallible_some h with h | h <;> cases h
  · exact .inl rfl
  · exact .inr rfl

theorem answer_createContainer {image : String}
    (h : (Call.createContainer n image).answer o d = some (.ok (), d')) :
    d' = d.put n (some { image, running := false }) := by
  rcases lifecycle_some h with h | ⟨h, _⟩
  · unfold Daemon.create at h
    split at h <;> cases h
    rfl
  · cases h

theorem answer_startContainer (h : (Call.startContainer n).answer o d = some (.ok (), d')) :
    ∃ c, d.containers n = some c ∧
      d' = d.put n (some { c with running := true, healthPassed := false }) := by
  rcases lifecycle_some h with h | ⟨h, _⟩
  · unfold Daemon.start at h
    split at h
    case h_1 => cases h
    case h_2 c hc =>
      split at h <;> cases h
      exact ⟨c, hc, rfl⟩
  · cases h

theorem answer_execTcpProbe {port : UInt16} {r : Bool}
    (h : (Call.execTcpProbe n port).answer o d = some (r, d')) :
    r = false ∧ d' = d ∨ r = true ∧ ∃ c, d.containers n = some c ∧ c.running = true ∧
      d' = d.put n (some { c with healthPassed := true }) := by
  cases o with
  | ok => exact .inr (probe_some h)
  | fail =>
    cases h
    exact .inl ⟨rfl, rfl⟩
  | _ => cases h

theorem answer_inspectHealth {r : Except Error HealthStatus}
    (h : (Call.inspectHealth n).answer o d = some (r, d')) :
    r ≠ .ok .healthy ∧ d' = d ∨ r = .ok .healthy ∧ ∃ c, d.containers n = some c ∧
      c.running = true ∧ d' = d.put n (some { c with healthPassed := true }) := by
  cases o with
  | health s => exact reportHealth_some h
  | fail =>
    cases h
    exact .inl ⟨by simp, rfl⟩
  | _ => cases h

/-- A call without a target leaves every container alone. -/
theorem answer_quiet {c : Call} {r : c.Reply} (h : c.answer o d = some (r, d'))
    (hc : c.target = none) : d'.containers = d.containers := by
  cases c with
  | createNetwork | inspectContainer | listImages | removeImage =>
    rcases fallible_some h with h | h <;> cases h <;> rfl
  | containerExec => cases o <;> cases h <;> rfl
  | pullIfMissing image =>
    cases o with
    | ok =>
      simp only [Call.answer] at h
      split at h <;> cases h
      rfl
    | pulled | fail => cases h; rfl
    | _ => cases h
  | _ => cases hc

theorem answer_alters {c : Call} {r : c.Reply} (h : c.answer o d = some (r, d'))
    (hc : c.target = some n) : d.Alters n d' := by
  cases c with
  | inspectHealth =>
    cases hc
    rcases answer_inspectHealth h with ⟨_, same⟩ | ⟨_, _, _, _, same⟩
    · exact .inl same
    · exact .inr ⟨_, same⟩
  | execTcpProbe =>
    cases hc
    rcases answer_execTcpProbe h with ⟨_, same⟩ | ⟨_, _, _, _, same⟩
    · exact .inl same
    · exact .inr ⟨_, same⟩
  | createContainer _ image => cases hc; exact lifecycle_alters h (Daemon.create_alters image)
  | startContainer => cases hc; exact lifecycle_alters h Daemon.start_alters
  | stopContainer => cases hc; exact lifecycle_alters h Daemon.stop_alters
  | removeContainer => cases hc; exact lifecycle_alters h Daemon.remove_alters
  | _ => cases hc

theorem answer_images {c : Call} {r : c.Reply} (h : c.answer o d = some (r, d'))
    (pull : ∀ i, c ≠ .pullIfMissing i) (remove : ∀ i, c ≠ .removeImage i) :
    d'.images = d.images := by
  cases c with
  | createNetwork | inspectContainer | listImages =>
    rcases fallible_some h with h | h <;> cases h <;> rfl
  | containerExec => cases o <;> cases h <;> rfl
  | pullIfMissing i => exact absurd rfl (pull i)
  | removeImage i => exact absurd rfl (remove i)
  | _ => rcases answer_alters h rfl with same | ⟨_, same⟩ <;> simp [same]

/-- A call leaves every container but its target alone. -/
theorem answer_other {c : Call} {r : c.Reply} (h : c.answer o d = some (r, d'))
    (hc : c.target ≠ some n) : d'.containers n = d.containers n := by
  cases ht : c.target with
  | none => rw [answer_quiet h ht]
  | some m => exact (answer_alters h ht).other fun e => hc (e ▸ ht)

end Inversion

end Docker

end Codery
