import Codery.Effect.Machine
import Mathlib.Data.List.AList

/-! The build-only exec bridge (`mcp_exec.rs`): its jobs, their registry, and the background tasks
that write the outcomes. -/

namespace Codery.McpExec

open Codery.Effect

def allowlist : List String := ["build", "validate", "deploy-preview", "cancel-preview"]

/-- A list of strings as Rust's `{:?}` prints it. -/
def quoted (xs : List String) : String :=
  "[" ++ ", ".intercalate (xs.map fun x => "\"" ++ x ++ "\"") ++ "]"

def isAllowed (subcmd : String) : Bool := allowlist.contains subcmd

inductive JobStatus
  | running
  | done
  | failed
  | timeout
  deriving DecidableEq

structure ExecJob where
  id : String
  args : List String
  pid : Option ℕ
  startedAt : ℕ
  finishedAt : Option ℕ
  status : JobStatus
  exitCode : Option ℤ
  logPath : String
  deriving DecidableEq

/-- `{:0>12x}` of the lower 48 bits. -/
def genId (nanos : ℕ) : String :=
  .ofList ((Nat.toDigits 16 (nanos &&& 0xFFFFFFFFFFFF)).leftpad 12 '0')

/-- How the wait for a child ends. -/
inductive Ending
  | exited (code : Option ℤ)
  | waitError
  | timedOut
  deriving DecidableEq

/-- What the background task writes into the record it finds. -/
def Ending.update (now : ℕ) (job : ExecJob) : Ending → ExecJob
  | .exited code =>
    { job with
      finishedAt := some now
      status := if code = some 0 then .done else .failed
      exitCode := code }
  | .waitError => { job with finishedAt := some now, status := .failed, exitCode := none }
  | .timedOut => { job with status := .timeout, finishedAt := some now }

inductive Stage
  /-- The child runs, and the request waits for the registry. -/
  | starting
  /-- The job is registered, and its task waits for the child. -/
  | waiting
  | ended (how : Ending) (finishedAt : ℕ)
  deriving DecidableEq

/-- An accepted spawn: the variables of its request, which its background task takes over. -/
structure Spawn where
  /-- The clock reading of `gen_id`. -/
  nanos : ℕ
  id : String
  args : List String
  timeoutSecs : ℕ
  pid : Option ℕ
  startedAt : ℕ
  logPath : String
  stage : Stage

/-- What the system answers to one call of `spawn_with`. -/
structure Launch where
  enabled : Bool
  createDir : Except String Unit
  nanos : ℕ
  secs : ℕ
  createLog : Except String Unit
  cloneLog : Except String Unit
  /-- The process id of the child, if the system tells it. -/
  child : Except String (Option ℕ)

def mapErr {α : Type} (what : String) : Except String α → Except String α
  | .ok a => .ok a
  | .error e => .error (what ++ e)

/-- `spawn_with`, up to the lock of the registry. -/
def spawnWith (logDir bin : String) (args : List String) (timeoutSecs : ℕ) (sys : Launch) :
    Except String Spawn := do
  if !sys.enabled then throw "MCP exec disabled. Run on host: codery-ci mcp-exec enable"
  let some subcmd := args.head? | throw "no subcommand provided"
  if !isAllowed subcmd then
    throw (s!"subcommand '{subcmd}' not in allowlist (allowed: {quoted allowlist}). " ++
      "Cutover and deploy are never exposed via MCP — run on host shell.")
  mapErr "failed to create log dir: " sys.createDir
  let id := genId sys.nanos
  let logPath := s!"{logDir}/exec-{sys.secs}-{subcmd}-{id}.log"
  mapErr s!"failed to create log file {logPath}: " sys.createLog
  mapErr "failed to clone log file handle: " sys.cloneLog
  let pid ← mapErr s!"failed to spawn '{bin}': " sys.child
  return ⟨sys.nanos, id, args, timeoutSecs, pid, sys.secs, logPath, .starting⟩

namespace Spawn

/-- The record the request inserts. -/
def job (s : Spawn) : ExecJob :=
  ⟨s.id, s.args, s.pid, s.startedAt, none, .running, none, s.logPath⟩

/-- The record of the spawn as its task has left it. -/
def record (s : Spawn) : ExecJob :=
  match s.stage with
  | .ended how finishedAt => how.update finishedAt s.job
  | _ => s.job

/-- The job is in the registry, and its id is returned. -/
def Registered (s : Spawn) : Prop := s.stage ≠ .starting

end Spawn

structure Daemon where
  registry : AList fun _ : String => ExecJob
  spawns : List Spawn

inductive Event
  | spawn (args : List String) (timeoutSecs : ℕ) (sys : Launch)
  | register (k : ℕ)
  | finish (k : ℕ) (how : Ending) (now : ℕ)

namespace Daemon

def initial : Daemon := ⟨∅, []⟩

def register (d : Daemon) (k : ℕ) (s : Spawn) : Daemon where
  registry := d.registry.insert s.id s.job
  spawns := d.spawns.set k { s with stage := .waiting }

def finish (d : Daemon) (k : ℕ) (s : Spawn) (how : Ending) (now : ℕ) : Daemon where
  registry :=
    match d.registry.lookup s.id with
    | some job => d.registry.insert s.id (how.update now job)
    | none => d.registry
  spawns := d.spawns.set k { s with stage := .ended how now }

/-- A timeout ends the wait only where the request set one. -/
def step (logDir bin : String) (d : Daemon) : Event → Option Daemon
  | .spawn args timeoutSecs sys =>
    match spawnWith logDir bin args timeoutSecs sys with
    | .ok s => some { d with spawns := d.spawns ++ [s] }
    | .error _ => some d
  | .register k =>
    match d.spawns[k]? with
    | some s =>
      match s.stage with
      | .starting => some (d.register k s)
      | _ => none
    | none => none
  | .finish k how now =>
    match d.spawns[k]? with
    | some s =>
      match s.stage with
      | .waiting =>
        if how = .timedOut ∧ s.timeoutSecs = 0 then none else some (d.finish k s how now)
      | _ => none
    | none => none

end Daemon

/-- The daemon's exec bridge: requests and background tasks in any order. -/
def bridge (logDir bin : String) : Machine Daemon Event :=
  .ofStep (· = .initial) (Daemon.step logDir bin)

structure JobStatusResponse where
  jobId : String
  status : JobStatus
  exitCode : Option ℤ
  elapsedSecs : ℕ
  logPath : String
  tail : String
  deriving DecidableEq

/-- `status`, where `readTail` reads the end of a file. -/
def status (readTail : String → ℕ → String) (now : ℕ) (d : Daemon) (jobId : String)
    (tailBytes : ℕ) : Except String JobStatusResponse :=
  match d.registry.lookup jobId with
  | none => .error s!"unknown job_id: {jobId}"
  | some job =>
    .ok
      { jobId := jobId
        status := job.status
        exitCode := job.exitCode
        elapsedSecs := now - job.startedAt
        logPath := job.logPath
        tail := readTail job.logPath tailBytes }

end Codery.McpExec
