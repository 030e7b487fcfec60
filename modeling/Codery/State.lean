import Codery.Host.World

/-! `state.rs` and `db.rs`: the recorded state of a service, and the database functions. -/

namespace Codery

def stateDir : String := "/opt/codery/state"

def statePath (service : String) : String := stateDir ++ "/" ++ service ++ ".color"

def shaPath (service : String) : String := stateDir ++ "/" ++ service ++ ".sha"

namespace State

def readActive (service : String) : Result Color := do
  match ← call (.state (.readColor service)) with
  | .missing => pure .blue
  | .unreadable => throw ("failed to read state file " ++ statePath service)
  | .text s => pure (colorOf s)

def writeActive (service : String) (color : Color) : Result Unit := do
  let r ← call (.state (.writeColor service (color.asStr ++ "\n")))
  context ("failed to write state file " ++ statePath service) r

def readActiveSha (service : String) : Result (Option String) := do
  match ← call (.state (.readSha service)) with
  | .text s => pure (if trim s = "" then none else some (trim s))
  | _ => pure none

def writeActiveSha (service sha : String) : Result Unit := do
  let r ← call (.state (.writeSha service (sha ++ "\n")))
  context ("failed to write SHA state file " ++ shaPath service) r

end State

/-- `ServiceDef::load`. -/
def loadService (service : String) : Result ServiceDef := do
  ofExcept (← call (.loadService service))

def loadAll : Result (List ServiceDef) := do
  ofExcept (← call .loadAll)

def mcpPort : UInt16 := 4040
def uiPort : UInt16 := 4041

def defaultStaticRoutes : List StaticRoute :=
  [{ subdomain := "mcp", port := mcpPort, target := "host" },
   { subdomain := "ci", port := uiPort, target := "host" }]

namespace Db

def connect : Result Unit := do
  context "failed to open /opt/codery/codery.db" (← call (.db .open))

/-- `init`: the errors of the two `ALTER TABLE`s are dropped. -/
def init : Result Unit := do
  context "failed to create apps table" (← call (.db .createApps))
  let _ ← call (.db .addNoCache)
  let _ ← call (.db .addSource)
  context "failed to create previews table" (← call (.db .createPreviews))

def insertApp (app : AppRecord) : Result Unit := do
  context ("failed to insert app '" ++ app.name ++ "'") (← call (.db (.insertApp app)))

def deleteApp (name : String) : Result Bool := do
  let rows ← context ("failed to delete app '" ++ name ++ "'") (← call (.db (.deleteApp name)))
  pure (0 < rows)

def setAppSource (name source : String) : Result Bool := do
  let rows ← context ("failed to set source for app '" ++ name ++ "'")
    (← call (.db (.updateSource name source)))
  pure (0 < rows)

def listApps : Result (List AppRecord) := do
  context "failed to prepare apps query" (← call (.db .selectApps))

def findAppByName (name : String) : Result (Option AppRecord) := do
  let apps ← listApps
  pure (apps.find? (·.name == name))

def portClaimed (port : UInt16) : Result Bool := do
  let count ← context "failed to check port" (← call (.db (.countPort port)))
  pure (0 < count)

def upsertPreview (preview : PreviewRecord) : Result Unit := do
  context ("failed to upsert preview for '" ++ preview.service ++ "'")
    (← call (.db (.upsertPreview preview)))

def deletePreview (service : String) : Result Bool := do
  let rows ← context ("failed to delete preview for '" ++ service ++ "'")
    (← call (.db (.deletePreview service)))
  pure (0 < rows)

def listPreviews : Result (List PreviewRecord) := do
  context "failed to prepare previews query" (← call (.db .selectPreviews))

def findPreview (service : String) : Result (Option PreviewRecord) := do
  let previews ← listPreviews
  pure (previews.find? (·.service == service))

def routeMap : Result (List UnifiedRoute) := do
  let defs ← loadAll
  let statics ← call .loadStaticRoutes
  let apps ← listApps
  let previews ← listPreviews
  pure (buildRouteMap defs (statics.toOption.getD defaultStaticRoutes) apps previews)

def syncS6 : Result Unit := do
  let apps ← listApps
  ofExcept (← call (.syncS6 apps))

end Db

end Codery
