import Codery.Footprint

/-! The `codery-ci` binary (`main.rs`): which command its arguments ask for, and what it runs. -/

namespace Codery.Process

open Effect

inductive Server
  | mcp (port : UInt16)
  | ui (port : UInt16)
  | tcpProxy
  | daemon

/-- What a command does besides the calls of the orchestrator. -/
inductive Call
  | host (c : Codery.Call)
  /-- `Docker::connect_with_socket_defaults`. -/
  | connect
  | pathExists (path : String)
  | currentDir
  | dockerBuild (image dockerfile buildContext : String)
  | setToggle (enabled : Bool)
  | toggleEnabled
  | serve (server : Server)

@[reducible] def Call.Reply : Call → Type
  | .host c => c.Reply
  | .connect => Except String Unit
  | .pathExists _ => Bool
  | .currentDir => String
  /- The exit code. -/
  | .dockerBuild _ _ _ => Except String (Option ℤ)
  | .setToggle _ => Except String Unit
  | .toggleEnabled => Bool
  | .serve _ => Except String Unit

abbrev sig : Signature.{0} := ⟨Call, Call.Reply⟩

structure World where
  host : Host
  /-- The toggle file is there. -/
  toggle : Bool

/-- Docker's own build may change the images, and nothing else of what is observed here; a server
may do anything. -/
def steps (site : Site) : StepRel sig World
  | .host c, w, r, w' => ∃ h, Codery.steps site c w.host r h ∧ w' = { w with host := h }
  | .connect, w, _, w' => w' = w
  | .pathExists _, w, _, w' => w' = w
  | .currentDir, w, _, w' => w' = w
  | .dockerBuild _ _ _, w, _, w' =>
    ∃ images, w' = { w with host := { w.host with docker := { w.host.docker with images } } }
  | .setToggle enabled, w, r, w' =>
    r = .ok () ∧ w' = { w with toggle := enabled } ∨ (∃ e, r = .error e) ∧ w' = w
  | .toggleEnabled, w, r, w' => r = w.toggle ∧ w' = w
  | .serve _, _, _, _ => True

variable {α : Type}

abbrev Command (α : Type) := ExceptT String (Prog sig) α

def embed : Prog Codery.sig α → Prog sig α
  | .ret a => .ret a
  | .call c k => .call (.host c) fun r => embed (k r)

def host (x : Result α) : Command α := ExceptT.mk (embed x.run)

def call (c : Call) : Command c.Reply := ExceptT.lift (ask (S := sig) c)

def ofExcept (x : Except String α) : Command α := ExceptT.mk (.ret x)

/-! ### The arguments -/

/-- The argument after the first `flag`. -/
def flagValue (flag : String) : List String → Option String
  | a :: b :: rest => if a = flag then some b else flagValue flag (b :: rest)
  | _ => none

def argument (argv : List String) (i : ℕ) (absent : String) : Command String :=
  ofExcept (match argv[i]? with
    | some arg => .ok arg
    | none => .error absent)

def portFlag (argv : List String) (standard : UInt16) : UInt16 :=
  ((flagValue "--port" argv).bind parseU16).getD standard

/-! ### The commands -/

def defaultDockerfile : String → Option String
  | "paseo" => some "containers/paseo/Dockerfile"
  | "opendesign" => some "containers/opendesign/Dockerfile"
  | "apps" => some "containers/apps/Dockerfile"
  | _ => none

def exitCode : Option ℤ → String
  | some code => "Some(" ++ toString code ++ ")"
  | none => "None"

def build (argv : List String) : Command Unit := do
  let service ← argument argv 2 "missing service argument"
  let tag ← argument argv 3 "missing tag argument (e.g. host-XYZ or a sha)"
  let dockerfile := (flagValue "--dockerfile" argv).getD
    ((defaultDockerfile service).getD ("containers/" ++ service ++ "/Dockerfile"))
  let buildContext := (flagValue "--context" argv).getD "."
  if ← call (.pathExists dockerfile) then
    match ← call (.dockerBuild (imageRef service tag) dockerfile buildContext) with
    | .error _ => throw "failed to spawn docker build"
    | .ok code =>
      if code = some 0 then pure () else throw ("docker build failed (exit " ++ exitCode code ++ ")")
  else
    throw ("dockerfile not found at " ++ dockerfile ++ " (cwd: " ++ (← call .currentDir) ++
      ") — pass --dockerfile PATH explicitly")

def validate (argv : List String) : Command Unit := do
  let service ← argument argv 2 "missing service argument"
  let sha ← argument argv 3 "missing sha argument"
  let d ← host (loadService service)
  ofExcept (← call .connect)
  let active ← host (State.readActive service)
  host (Validate.checkDeploy d sha (flip active))

def deployPreview (argv : List String) : Command Unit := do
  let service ← argument argv 2 "missing service argument"
  let sha ← argument argv 3 "missing sha argument"
  host (Cli.deployPreview service sha (flagValue "--port" argv))

def cancelPreview (argv : List String) : Command Unit := do
  let service ← argument argv 2 "missing service argument"
  host (Cli.cancelPreview service)

def deploy (argv : List String) : Command Unit := do
  let service ← argument argv 2 "missing service argument"
  let sha ← argument argv 3 "missing sha argument"
  host (Cli.deploy service sha)

def cutover (argv : List String) : Command Unit := do
  let service ← argument argv 2 "missing service argument"
  host (Cli.cutover service (flagValue "--sha" argv))

def recreate (argv : List String) : Command Unit := do
  let service ← argument argv 2 "missing service argument"
  host (Cli.recreate service)

def diagnose : Command Unit := do
  let report ← host Diagnose.run
  if report.allHealthy then pure () else throw "exit status: 1"

def serve (server : Server) : Command Unit := do
  ofExcept (← call (.serve server))

def mcpExec (argv : List String) : Command Unit := do
  match ← argument argv 2 "missing subcommand: enable|disable|status" with
  | "enable" => ofExcept (← call (.setToggle true))
  | "disable" => ofExcept (← call (.setToggle false))
  | "status" => do
    let _ ← call .toggleEnabled
    pure ()
  | other =>
    throw ("unknown mcp-exec subcommand '" ++ other ++ "': expected enable|disable|status")

def command (argv : List String) : String → Command Unit
  | "--version" | "-V" => pure ()
  | "preflight" => host Deploy.preflight
  | "deploy" => deploy argv
  | "validate" => validate argv
  | "reload-routes" => host Cli.reloadRoutes
  | "set-app-source" => host (Cli.setAppSource (argv.getD 2 "") (argv.getD 3 ""))
  | "diagnose" => diagnose
  | "serve" => serve (.mcp (portFlag argv 4040))
  | "serve-ui" => serve (.ui (portFlag argv 4041))
  | "serve-tcp-proxy" => serve .tcpProxy
  | "daemon" => serve .daemon
  | "build" => build argv
  | "deploy-preview" => deployPreview argv
  | "cutover" => cutover argv
  | "cancel-preview" => cancelPreview argv
  | "recreate" => recreate argv
  | "mcp-exec" => mcpExec argv
  | unknown => throw ("unrecognized command '" ++ unknown ++ "'")

/-- The texts that the help and the version print are left out. -/
def main (argv : List String) : Command Unit :=
  if argv[2]? = some "--help" ∨ argv[2]? = some "-h" then pure ()
  else
    match argv[1]? with
    | none => pure ()
    | some sub => command argv sub

end Codery.Process
