import Codery.Images
import Codery.Proxies

/-! `deploy.rs`: the blue/green deploy and its parts. -/

namespace Codery.Deploy

/-! ### Cutover planning -/

inductive CutoverPlan
  | promote (sha : String) (alreadyStaged : Bool)
  | nothingNewer (activeTag newestTag : String)
  | noLocalImages
  | stalePreview (expectedSha : String)
  deriving DecidableEq

def planCutover (shaOpt preview : Option String) (previewStaged : Bool)
    (newestLocal : Option LocalImage) (activeImageTag : String) : CutoverPlan :=
  match shaOpt with
  | some sha => .promote sha false
  | none =>
    match preview with
    | some p => if previewStaged then .promote p true else .stalePreview p
    | none =>
      match newestLocal with
      | none => .noLocalImages
      | some newest =>
        if newest.tag = activeImageTag then .nothingNewer activeImageTag newest.tag
        else .promote newest.sha false

/-- The SHA a cutover would promote, by priority. -/
def cutoverSha (shaOpt preview : Option String) (newestLocal : Option LocalImage) :
    Option String :=
  (shaOpt.or preview).or (newestLocal.map (·.sha))

section Plan

variable {shaOpt preview : Option String} {staged : Bool} {newest : Option LocalImage}
  {tag sha activeTag newestTag : String}

theorem planCutover_staged (plan : planCutover shaOpt preview staged newest tag = .promote sha true) :
    staged = true ∧ preview = some sha ∧ cutoverSha shaOpt preview newest = some sha := by
  unfold planCutover at plan
  split at plan
  · cases plan
  · split at plan
    · split at plan <;> cases plan
      exact ⟨by assumption, rfl, rfl⟩
    · split at plan
      · cases plan
      · split at plan <;> cases plan

theorem planCutover_promote
    (plan : planCutover shaOpt preview staged newest tag = .promote sha false) :
    cutoverSha shaOpt preview newest = some sha := by
  unfold planCutover at plan
  split at plan
  · cases plan
    rfl
  · split at plan
    · split at plan <;> cases plan
    · split at plan
      · cases plan
      · split at plan <;> cases plan
        rfl

/-- Without `--sha` and a staged preview, what is promoted is a local image. -/
theorem planCutover_newest {images : List LocalImage}
    (plan : planCutover none preview staged images.head? tag = .promote sha false) :
    preview = none ∧ images ≠ [] := by
  unfold planCutover at plan
  split at plan
  · cases ‹none = some _›
  · split at plan
    · split at plan <;> cases plan
    · split at plan
      · cases plan
      · next newest => exact ⟨rfl, fun none => by simp [none] at newest⟩

theorem planCutover_nothingNewer
    (plan : planCutover shaOpt preview staged newest tag = .nothingNewer activeTag newestTag) :
    shaOpt = none ∧ preview = none ∧ ∃ n, newest = some n ∧ n.tag = tag := by
  unfold planCutover at plan
  split at plan
  · cases plan
  · split at plan
    · split at plan <;> cases plan
    · split at plan
      · cases plan
      · split at plan <;> cases plan
        exact ⟨rfl, rfl, _, rfl, by assumption⟩

end Plan

/-! ### Container lifecycle -/

def containerRunning (name : String) : Result Bool := do
  match ← call (.docker (.inspectContainer name)) with
  | .ok i => pure i.running
  | .error _ => pure false

def containerImageTag (name : String) : Result (Option String) := do
  match ← call (.docker (.inspectContainer name)) with
  | .ok i => pure (some i.image)
  | .error _ => pure none

def containerRunsImage (d : ServiceDef) (color : Color) (sha : String) : Result Bool := do
  match ← call (.docker (.inspectContainer (containerName d.service color))) with
  | .ok i => pure (i.running && i.image == d.imageRef sha)
  | .error _ => pure false

def activeContainerImage (service : String) (active : Color) : Result (Option String) :=
  containerImageTag (containerName service active)

/-- A reply whose error codes `codes` stand for nothing left to do. -/
def tolerate (codes : List Nat) (message : String) : Except Docker.Error Unit → Result Unit
  | .ok _ => pure ()
  | .error e => if e.statusCode ∈ codes then pure () else throw message

def removeContainerIfExists (name : String) : Result Unit := do
  tolerate [404] ("failed to remove container " ++ name) (← call (.docker (.removeContainer name)))

def stopContainer (name : String) : Result Unit := do
  tolerate [404, 304] ("failed to stop container " ++ name) (← call (.docker (.stopContainer name)))

def ensureNetwork (network : String) : Result Unit := do
  tolerate [409] "failed to create/verify network" (← call (.docker (.createNetwork network)))

def startContainer (d : ServiceDef) (sha : String) (color : Color) : Result Unit := do
  let name := containerName d.service color
  ofExcept (← call (.containerSettings d color))
  context ("failed to create container " ++ name)
    (← call (.docker (.createContainer name (d.imageRef sha))))
  context ("failed to start container " ++ name) (← call (.docker (.startContainer name)))

/-- `preflight::run`. -/
def preflight : Result Unit := do
  ofExcept (← call .preflight)

def ensureNginxConfig : Result Unit := do
  if ← call (.proxy .nginxExists) then pure ()
  else ofExcept (← call (.proxy (.writeNginx .empty)))

/-! ### Health checks -/

def waitForTcpInContainer (container : String) (port : UInt16) : Nat → Result Bool
  | 0 => pure false
  | attempts + 1 => do
    if ← call (.docker (.execTcpProbe container port)) then pure true
    else waitForTcpInContainer container port attempts

def waitForDockerHealthy (name : String) : Nat → Result Bool
  | 0 => pure false
  | seconds + 1 => do
    match ← call (.docker (.inspectHealth name)) with
    | .error _ => throw ("failed to inspect container " ++ name)
    | .ok .healthy => pure true
    | .ok .unhealthy => pure false
    | .ok _ => waitForDockerHealthy name seconds

/-- Poll health until it passes or times out; `cleanup` is run on a timeout. -/
def awaitHealth (cleanup : String → Result Unit) (d : ServiceDef) (color : Color) : Result Unit :=
  let name := containerName d.service color
  match d.healthCheck with
  | .tcp _ timeoutSecs intervalSecs => do
    let port ← ofExcept d.healthContainerPort
    if ← waitForTcpInContainer name port (timeoutSecs / max intervalSecs 1) then pure ()
    else do
      cleanup name
      throw (d.service ++ " health check timed out on container port " ++ toString port)
  | .docker timeoutSecs => do
    if ← waitForDockerHealthy name timeoutSecs then pure ()
    else do
      cleanup name
      throw (d.service ++ " health check timed out — container did not reach 'healthy' state")

def healthCheck (d : ServiceDef) (color : Color) : Result Unit :=
  awaitHealth removeContainerIfExists d color

def pollHealth (d : ServiceDef) (color : Color) : Result Unit := awaitHealth (fun _ => pure ()) d color

/-! ### Deploy and cutover -/

def startInactive (d : ServiceDef) (sha : String) (inactive : Color) : Result Unit := do
  Validate.checkDeploy d sha inactive
  removeContainerIfExists (containerName d.service inactive)
  ensureNginxConfig
  startContainer d sha inactive
  healthCheck d inactive

def refused (d : ServiceDef) (active inactive : Color) : String :=
  "cutover refused: inactive container " ++ containerName d.service inactive ++
    " is not running. Refusing to stop active container " ++ containerName d.service active ++
    " without a verified replacement. Run `codery-ci deploy-preview " ++ d.service ++
    " <sha>` (or `deploy " ++ d.service ++ " <sha>`) to start the inactive color first."

/-- What `cutover` does once its guard has passed. -/
def switchOver (d : ServiceDef) (sha : String) (active inactive : Color) : Result Unit := do
  State.writeActive d.service inactive
  State.writeActiveSha d.service sha
  Caddy.applyAll
  stopContainer (containerName d.service active)
  Images.prune d.service

def cutover (d : ServiceDef) (sha : String) (active inactive : Color) : Result Unit := do
  if ← containerRunning (containerName d.service inactive) then switchOver d sha active inactive
  else throw (refused d active inactive)

/-- Start the inactive color and cut over to it. -/
def redeploy (d : ServiceDef) (sha : String) (active : Color) : Result Unit := do
  startInactive d sha (flip active)
  cutover d sha active (flip active)

def deployService (d : ServiceDef) (sha : String) : Result Unit := do
  preflight
  ensureNetwork d.network
  let active ← State.readActive d.service
  let recorded ← State.readActiveSha d.service
  if recorded = some sha then
    if ← containerRunning (containerName d.service active) then pure ()
    else redeploy d sha active
  else redeploy d sha active

def loadDef (service : String) : Result ServiceDef := do
  context ("failed to load service definition for '" ++ service ++ "'")
    (← attempt (loadService service))

def run (service sha : String) : Result Unit := do
  let d ← loadDef service
  deployService d sha

def runStartInactive (service sha : String) : Result Color := do
  let d ← loadDef service
  preflight
  ensureNetwork d.network
  let active ← State.readActive d.service
  startInactive d sha (flip active)
  pure (flip active)

def noLocalImages (service : String) : String :=
  "no local images found for '" ++ service ++ "'. Run `codery-ci build " ++ service ++
    " <tag>` or `codery-ci deploy " ++ service ++ " <sha>` first."

def stalePreview (service expectedSha : String) : String :=
  "stale preview for '" ++ service ++ "': inactive container is not running sha " ++ expectedSha ++
    ". Run `codery-ci cancel-preview " ++ service ++
    "` to discard it, then `cutover` again to promote the newest local image — or `deploy-preview " ++
    service ++ " <sha>` to restage."

/-- Promote `sha`, starting the inactive color first unless it runs that image already. -/
def promote (d : ServiceDef) (sha : String) (active : Color) : Result Unit := do
  if ← containerRunsImage d (flip active) sha then cutover d sha active (flip active)
  else redeploy d sha active

def previewStaged (d : ServiceDef) (inactive : Color) : Option String → Result Bool
  | some p => containerRunsImage d inactive p
  | none => pure false

def runCutover (service : String) (shaOpt preview : Option String) : Result Unit := do
  let d ← loadDef service
  let active ← State.readActive d.service
  let staged ← previewStaged d (flip active) preview
  let images ← Images.listLocal d.service
  let tag ← activeContainerImage d.service active
  match planCutover shaOpt preview staged images.head? (tag.getD "") with
  | .promote sha true => cutover d sha active (flip active)
  | .promote sha false => promote d sha active
  | .nothingNewer _ _ => pure ()
  | .noLocalImages => throw (noLocalImages service)
  | .stalePreview expectedSha => throw (stalePreview service expectedSha)

def runCancelInactive (service : String) : Result Unit := do
  let d ← loadDef service
  let active ← State.readActive d.service
  let container := containerName d.service (flip active)
  stopContainer container
  removeContainerIfExists container
  Images.prune d.service

structure RecreateInfo where
  service : String
  color : String
  container : String
  sha : String
  deriving DecidableEq

def recreateActiveContainer (service : String) : Result RecreateInfo := do
  let d ← loadService service
  let color ← Caddy.colorOrBlue service
  let container := containerName service color
  match ← State.readActiveSha service with
  | none => throw ("no active SHA recorded for service '" ++ service ++ "' — run a full deploy first")
  | some sha => do
    removeContainerIfExists container
    startContainer d sha color
    context "container started but Caddy reload failed" (← attempt Caddy.applyAll)
    pure { service, color := color.asStr, container, sha }

end Codery.Deploy
