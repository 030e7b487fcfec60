import Codery.Commands
import Codery.Effect.Machine

/-! The dashboard's server (`ui.rs`): its rollback requests, whose futures may be dropped where they
await, and the set and the map that they share with the other handlers and the event watcher. -/

namespace Codery.Dashboard

open Codery.Effect

inductive Op
  | stopping
  | starting
  | killing
  | restarting
  | rollingBack
  deriving DecidableEq

/-- What the handlers share. -/
structure Shared where
  host : Host
  rollbackLock : String → Bool := fun _ => false
  ops : String → Option Op := fun _ => none

inductive Call
  | host (c : Codery.Call)
  /-- `Docker::connect_with_socket_defaults`. -/
  | connect
  /-- Look for the service in `rollback_lock` and insert it, under one guard. -/
  | enter (service : String)
  | leave (service : String)
  | insertOp (container : String) (op : Op)
  | removeOp (container : String)
  | broadcastStatus

@[reducible] def Call.Reply : Call → Type
  | .host c => c.Reply
  | .connect => Except String Unit
  | .enter _ => Bool
  | _ => Unit

abbrev sig : Signature.{0} := ⟨Call, Call.Reply⟩

def Call.answer (site : Site) : (c : Call) → Choice → Shared → Option (c.Reply × Shared)
  | .host c, o, s => (c.answer site o s.host).map fun x => (x.1, { s with host := x.2 })
  | .connect, o, s => o.fallible (.ok (), s) (.error "failed to connect to the socket", s)
  | .enter service, .ok, s =>
    if s.rollbackLock service then some (false, s)
    else some (true, { s with rollbackLock := Function.update s.rollbackLock service true })
  | .leave service, .ok, s =>
    some ((), { s with rollbackLock := Function.update s.rollbackLock service false })
  | .insertOp container op, .ok, s =>
    some ((), { s with ops := Function.update s.ops container (some op) })
  | .removeOp container, .ok, s =>
    some ((), { s with ops := Function.update s.ops container none })
  | .broadcastStatus, .ok, s => some ((), s)
  | _, _, _ => none

/-- The calls that a future awaits; a health check sleeps only before such a call. -/
def Call.awaits : Call → Bool
  | .host (.docker _) => true
  | .broadcastStatus => true
  | _ => false

/-! ### The handler -/

variable {α : Type}

abbrev Handler (α : Type) := ExceptT String (Prog sig) α

def embed : Prog Codery.sig α → Prog sig α
  | .ret a => .ret a
  | .call c k => .call (.host c) fun r => embed (k r)

def host (x : Result α) : Handler α := ExceptT.mk (embed x.run)

def call (c : Call) : Handler c.Reply := ExceptT.lift (ask (S := sig) c)

def attempt (x : Handler α) : Handler (Except String α) := ExceptT.lift x.run

def ofExcept (x : Except String α) : Handler α := ExceptT.mk (.ret x)

def findService (service : String) : Result ServiceDef := do
  context ("unknown service: " ++ service) (← Codery.attempt (loadService service))

/-- `run_rollback`, once it has the deploy lock. -/
def rollBack (service : String) : Handler Unit := do
  let d ← host (findService service)
  ofExcept (← call .connect)
  let active ← host (State.readActive service)
  let activeContainer := containerName service active
  call (.insertOp activeContainer .rollingBack)
  call .broadcastStatus
  let result ← attempt (host (Ui.doRollback d service (flip active)))
  call (.removeOp activeContainer)
  call .broadcastStatus
  ofExcept result

def runRollback (service : String) : Handler Unit := do
  match ← host (Codery.call (.tryAcquire service)) with
  | .error _ => throw ("deploy already in progress for " ++ service)
  | .ok _ => do
    let result ← attempt (rollBack service)
    host (Codery.call (.release service))
    ofExcept result

structure Response where
  status : ℕ
  body : String

def respond : Except String Unit → Response
  | .ok _ => ⟨200, ""⟩
  | .error e => ⟨500, e⟩

def conflict (service : String) : Response := ⟨409, "rollback already in progress for " ++ service⟩

/-- What is left of `post_rollback` once the service is in the set. -/
def entered (service : String) : Prog sig Response :=
  (runRollback service).run >>= fun result => .call (.leave service) fun _ => .ret (respond result)

def postRollback (service : String) : Prog sig Response :=
  .call (.enter service) fun new => if new then entered service else .ret (conflict service)

/-! ### The server -/

structure Request where
  service : String
  rest : Prog sig Response

/-- The request has passed the check that it begins with. -/
def Request.entered (r : Request) : Bool :=
  match r.rest with
  | .call (.enter _) _ => false
  | _ => true

def Request.suspended (r : Request) : Bool :=
  match r.rest with
  | .call c _ => c.awaits
  | .ret _ => false

structure Server extends Shared where
  /-- The requests that are executing. -/
  requests : ℕ → Option Request := fun _ => none
  next : ℕ := 0

/-- The actions of Docker's event stream that the watcher tells apart. -/
inductive Action
  | start
  | die
  | stop
  | other

/-- The operations that `dispatch_container_op` inserts. -/
inductive Button
  | stop
  | start
  | kill
  | restart
  deriving DecidableEq

def Button.op : Button → Op
  | .stop => .stopping
  | .start => .starting
  | .kill => .killing
  | .restart => .restarting

/-- What the event watcher does to the map. -/
def Action.update (container : String) (ops : String → Option Op) : Action → String → Option Op
  | .start => Function.update ops container none
  | .other => ops
  | _ =>
    if ops container = some .stopping ∨ ops container = some .killing then
      Function.update ops container none
    else ops

inductive Event
  | post (service : String)
  /-- The next call of a request is answered. -/
  | step (i : ℕ) (o : Choice)
  /-- The client disconnects, and the future of its request is dropped. -/
  | drop (i : ℕ)
  | docker (action : Action) (container : String)
  | dispatch (button : Button) (container : String)
  /-- A dispatched command could not be spawned, or its five minutes are over. -/
  | expire (container : String)
  /-- The containers, the files and the locks change by other hands. -/
  | outside (host : Host)

/-- A request whose next call is `c`, once that is answered; one that returns responds. -/
def Request.resume (r : Request) (rest : Prog sig Response) : Option Request :=
  match rest with
  | .ret _ => none
  | .call c k => some { r with rest := .call c k }

def Server.step (site : Site) (d : Server) : Event → Option Server
  | .post service =>
    some { d with
      requests := Function.update d.requests d.next (some ⟨service, postRollback service⟩)
      next := d.next + 1 }
  | .step i o =>
    match d.requests i with
    | none => none
    | some r =>
      match r.rest with
      | .ret _ => none
      | .call c k =>
        (c.answer site o d.toShared).map fun x =>
          { d with
            toShared := x.2
            requests := Function.update d.requests i (r.resume (k x.1)) }
  | .drop i =>
    match d.requests i with
    | none => none
    | some r =>
      if r.suspended then
        -- A future that awaits has the deploy lock, which goes with its guard.
        some { d with
          host := { d.host with locks := Function.update d.host.locks r.service false }
          requests := Function.update d.requests i none }
      else none
  | .docker action container => some { d with ops := action.update container d.ops }
  | .dispatch button container =>
    some { d with ops := Function.update d.ops container (some button.op) }
  | .expire container => some { d with ops := Function.update d.ops container none }
  | .outside host => some { d with host }

/-- A daemon that has just started. -/
def Server.Started (d : Server) : Prop :=
  d.requests = (fun _ => none) ∧ d.rollbackLock = (fun _ => false) ∧ d.ops = fun _ => none

abbrev server (site : Site) : Machine Server Event := Machine.ofStep Server.Started (Server.step site)

def Event.isDrop : Event → Bool
  | .drop _ => true
  | _ => false

/-- A rollback of `service` is executing. -/
def Server.RollingBack (d : Server) (service : String) : Prop :=
  ∃ i r, d.requests i = some r ∧ r.service = service ∧ r.entered = true

/-- A service is in `rollback_lock`, and a container of it has the operation `rolling_back`, only
while a rollback of it is executing. -/
def Server.Tied (d : Server) : Prop :=
  (∀ service, d.rollbackLock service = true → d.RollingBack service) ∧
    ∀ service color, d.ops (containerName service color) = some .rollingBack →
      d.RollingBack service

end Codery.Dashboard
