import Codery.State

/-! `images.rs` and `validate.rs`: the local image cache, and the checks made before a deploy. -/

namespace Codery

structure LocalImage where
  sha : String
  tag : String
  created : Int
  deriving DecidableEq

namespace Images

def tagPrefix (service : String) : String := registry ++ ":" ++ service ++ "-"

def listImages (service : String) : Result (List Image) := do
  context "failed to list images" (← call (.docker (.listImages (tagPrefix service ++ "*"))))

/-- The service images of `images`, newest first; images of one age keep their order. -/
def localImages (service : String) (images : List Image) : List LocalImage :=
  let tagged (i : Image) : List LocalImage := i.repoTags.filterMap fun tag =>
    (stripPrefix (tagPrefix service) tag).map fun sha => { sha, tag, created := i.created }
  (images.flatMap tagged).insertionSort (·.created ≥ ·.created)

/-- An image of the list is that of the service and its SHA. -/
theorem localImages_named {service : String} {images : List Image} {i : LocalImage}
    (mem : i ∈ localImages service images) :
    i.tag = imageRef service i.sha ∧ ∃ j ∈ images, i.tag ∈ j.repoTags := by
  rw [localImages, List.mem_insertionSort, List.mem_flatMap] at mem
  obtain ⟨j, listed, mem⟩ := mem
  obtain ⟨tag, tagged, stripped⟩ := List.mem_filterMap.mp mem
  obtain ⟨sha, rest, rfl⟩ := Option.map_eq_some_iff.mp stripped
  exact ⟨stripPrefix_some rest, j, listed, tagged⟩

theorem localImages_tag_ne {service : String} {images : List Image} {i : LocalImage}
    (hi : i ∈ localImages service images) : i.tag ≠ "" := by
  rw [(localImages_named hi).1]
  intro none
  simpa [imageRef, registry] using congrArg String.toList none

def listLocal (service : String) : Result (List LocalImage) := do
  let images ← listImages service
  pure (localImages service images)

def removeOld : List Image → Result Unit
  | [] => pure ()
  | i :: rest => do
    let _ ← call (.docker (.removeImage i.id))
    removeOld rest

/-- Keep the two most recently created images; failed removals are only reported. -/
def prune (service : String) : Result Unit := do
  let images ← listImages service
  removeOld ((images.insertionSort (·.created ≥ ·.created)).drop 2)

def pullIfMissing (image : String) : Result (Except String Unit) := do
  call (.docker (.pullIfMissing image))

end Images

namespace Validate

/-- The messages for the host ports of `inactive` that neither the active color holds nor can be
bound. -/
def portConflicts (activePorts : List UInt16) : List (UInt16 × UInt16) → Result (List String)
  | [] => pure []
  | (hostPort, _) :: rest =>
    if activePorts.contains hostPort then portConflicts activePorts rest
    else do
      let free ← call (.bindHostPort hostPort)
      let errors ← portConflicts activePorts rest
      pure (if free then errors
        else ("host port " ++ toString hostPort ++ " is already in use by a foreign process") :: errors)

def udpErrors (p : NamedPort) : List String :=
  if p.protocol ≠ .udp then []
  else
    (if p.fixedPort.isNone then
      ["udp port '" ++ p.name ++ "' must set fixed_port (the relay's client-facing port)"] else []) ++
    (if p.subdomain.isSome then
      ["udp port '" ++ p.name ++ "' cannot have a subdomain (Caddy routes TCP/HTTP only)"] else [])

def numbered (errors : List String) : List String :=
  errors.zipIdx.map fun (e, i) => "  " ++ toString (i + 1) ++ ". " ++ e

def checkDeploy (d : ServiceDef) (sha : String) (inactive : Color) : Result Unit := do
  let missing ← call (.checkHost d)
  let pulled ← Images.pullIfMissing (d.imageRef sha)
  let active ← attempt (State.readActive d.service)
  let activePorts := (d.portMappings (active.toOption.getD .blue)).map (·.1)
  let conflicts ← portConflicts activePorts (d.portMappings inactive)
  let unpulled := match pulled with
    | .ok _ => []
    | .error e => ["image pull failed: " ++ e]
  let errors := missing ++ unpulled ++ conflicts ++ d.ports.flatMap udpErrors
  if errors = [] then pure ()
  else throw ("[validate] " ++ toString errors.length ++ " pre-deploy check(s) failed for service='" ++
    d.service ++ "':\n" ++ "\n".intercalate (numbered errors))

end Validate

end Codery
