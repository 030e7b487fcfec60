import Codery.Effect.Script
import Codery.Operations

/-! The service the tests of `deploy.rs` deploy, the host it lives on, and scripted runs there. -/

namespace Codery.Scenario

open Effect

def paseo : ServiceDef where
  service := "paseo"
  image := "ghcr.io/coderyoss/codery:paseo-{sha}"
  portScheme := ⟨10000, 20000⟩
  ports := [{ name := "opencode", containerPort := 3000, subdomain := some "opencode" }]
  healthCheck := .tcp "opencode" 60 2
  network := "codery-net"

def site : Site where
  services := ⟨[paseo], by decide⟩

/-- The same service, with Docker's own health check. -/
def selfChecked : ServiceDef := { paseo with healthCheck := .docker 60 }

def selfCheckedSite : Site where
  services := ⟨[selfChecked], by decide⟩

/-- A service behind the UDP relay: neither color publishes a host port. -/
def relayed : ServiceDef :=
  { selfChecked with
    ports := [{ name := "mosh", containerPort := 60001, fixedPort := some 60001, protocol := .udp }] }

def relayedSite : Site where
  services := ⟨[relayed], by decide⟩

/-- A cached image of `sha`. -/
def image (sha : String) (created : Int) : Image where
  id := "sha256:" ++ sha
  repoTags := [paseo.imageRef sha]
  created := created

/-- The route `build_route_map` makes of the port, and a configuration with it. -/
def routedTo (color : Color) : CaddyConfig where
  routes := [{ subdomain := "opencode", port := 3000, target := "paseo" }]
  colors := [("paseo", color)]

def migrated (previews : List PreviewRecord) : Database where
  apps := some { hasNoCache := true, hasSource := true, rows := [] }
  previews := some previews

/-- A host where `color` is recorded and routed to, with `sha` recorded and both containers as
given. -/
def host (color : Color) (sha : String) (blue green : Option Container) : Host where
  docker :=
    { containers := fun n =>
        if n = "codery-paseo-blue" then blue else if n = "codery-paseo-green" then green else none
      images := [image "v1" 1, image "v2" 2] }
  state :=
    { color := fun s => if s = "paseo" then .text (color.asStr ++ "\n") else .missing
      sha := fun s => if s = "paseo" then .text (sha ++ "\n") else .missing }
  db := migrated []
  proxy := { caddyfile := some (routedTo color), loaded := routedTo color, nginx := some .empty }

/-- Blue serves `v1`; there is no green container. -/
def serving : Host := host .blue "v1" (some (paseo.healthy "v1")) none

/-- A mismatch: blue is recorded and down, green runs. -/
def mismatched : Host :=
  host .blue "v2" (some { image := paseo.imageRef "v2", running := false })
    (some (paseo.healthy "v1"))

/-- A stale preview: `v2` is staged in green, and blue, which is recorded, is down. -/
def stale : Host :=
  { host .blue "v1" (some { image := paseo.imageRef "v1", running := false })
      (some (paseo.healthy "v2")) with
    db := migrated [Cli.previewRecord paseo "paseo" "v2" 3000 .green] }

/-- `n` calls that do their work. -/
abbrev oks (n : Nat) : List Choice := List.replicate n .ok

/-- A deploy of `v2` to `serving` that ends with a failed Caddy reload: both containers run, green
is recorded and blue is routed to. -/
def failedReload : Operation × List Choice := (.deploy "paseo" "v2", oks 28 ++ [.fail, .ok])

/-- A deploy of `v2` that ends with a failed write of its SHA. -/
def failedWrite : Operation × List Choice := (.deploy "paseo" "v2", oks 18 ++ [.fail, .ok])

/-- A preview of `v2` whose health check ends with an error, so that the container stays. -/
def failedPreview : Operation × List Choice :=
  (.deployPreview "paseo" "v2" none, oks 15 ++ [.fail, .ok])

/-- A preview of `v2`, in green. -/
def preview : Operation × List Choice := (.deployPreview "paseo" "v2" none, oks 42)

/-- Two requests that take the lock, and two of which one does not. -/
def twoCommands : Bool → Operation
  | false => .deploy "paseo" "v1"
  | true => .cutover "paseo" none

def deployAndRollback : Bool → Operation
  | false => .deploy "paseo" "v2"
  | true => .mcpRollback "paseo"

end Codery.Scenario
