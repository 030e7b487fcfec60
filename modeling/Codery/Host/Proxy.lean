import Codery.Routes
import Codery.Host.Docker

/-! The two reverse proxies: the Caddyfile and what Caddy has loaded of it, and the file Nginx
reads inside the `apps` container. -/

namespace Codery

structure NginxServer where
  serverName : String
  internalPort : UInt16
  noCache : Bool
  deriving DecidableEq

inductive NginxConfig
  | empty
  /-- The servers rendered; without any, a default server that answers 503. -/
  | servers (l : List NginxServer)
  deriving DecidableEq

/-- `caddyfile` is `none` before the first write and when one was cut short. -/
structure Proxy where
  caddyfile : Option CaddyConfig := none
  loaded : CaddyConfig := {}
  nginx : Option NginxConfig := none
  deriving DecidableEq

namespace Proxy

inductive Call
  | writeCaddyfile (cfg : CaddyConfig)
  | reloadCaddy
  | nginxExists
  | writeNginx (cfg : NginxConfig)

@[reducible] def Call.Reply : Call → Type
  | .nginxExists => Bool
  | _ => Except String Unit

/-- A failed write leaves the old file or a part of the new one; a failed reload leaves the
loaded configuration as it was. -/
def Call.answer : (c : Call) → Choice → Proxy → Option (c.Reply × Proxy)
  | .writeCaddyfile cfg, .ok, p => some (.ok (), { p with caddyfile := some cfg })
  | .writeCaddyfile _, .fail, p => some (.error "write failed", p)
  | .writeCaddyfile _, .torn _, p => some (.error "write failed", { p with caddyfile := none })
  | .writeCaddyfile _, _, _ => none
  | .reloadCaddy, .ok, p => p.caddyfile.map fun cfg => (.ok (), { p with loaded := cfg })
  | .reloadCaddy, .fail, p => some (.error "adapter error", p)
  | .reloadCaddy, _, _ => none
  | .nginxExists, .ok, p => some (p.nginx.isSome, p)
  | .nginxExists, _, _ => none
  | .writeNginx cfg, .ok, p => some (.ok (), { p with nginx := some cfg })
  | .writeNginx _, .fail, p => some (.error "write failed", p)
  | .writeNginx _, .torn _, p => some (.error "write failed", { p with nginx := some .empty })
  | .writeNginx _, _, _ => none

section Inversion

variable {o : Choice} {p p' : Proxy}

theorem answer_loaded {c : Call} {r : c.Reply} (h : c.answer o p = some (r, p'))
    (hc : c ≠ .reloadCaddy) : p'.loaded = p.loaded := by
  cases c with
  | reloadCaddy => exact absurd rfl hc
  | _ => cases o <;> cases h <;> rfl

theorem answer_nginx {c : Call} {r : c.Reply} (h : c.answer o p = some (r, p'))
    (hc : ∀ cfg, c ≠ .writeNginx cfg) : p'.nginx = p.nginx := by
  cases c with
  | writeNginx cfg => exact absurd rfl (hc cfg)
  | reloadCaddy =>
    cases o with
    | ok =>
      obtain ⟨cfg, _, same⟩ := Option.map_eq_some_iff.mp h
      cases same
      rfl
    | fail => cases h; rfl
    | _ => cases h
  | _ => cases o <;> cases h <;> rfl

theorem answer_caddyfile {c : Call} {r : c.Reply} (h : c.answer o p = some (r, p'))
    (hc : ∀ cfg, c ≠ .writeCaddyfile cfg) : p'.caddyfile = p.caddyfile := by
  cases c with
  | writeCaddyfile cfg => exact absurd rfl (hc cfg)
  | reloadCaddy =>
    cases o with
    | ok =>
      obtain ⟨cfg, _, same⟩ := Option.map_eq_some_iff.mp h
      cases same
      rfl
    | fail => cases h; rfl
    | _ => cases h
  | _ => cases o <;> cases h <;> rfl

theorem answer_writeCaddyfile {cfg : CaddyConfig}
    (h : (Call.writeCaddyfile cfg).answer o p = some (.ok (), p')) : p'.caddyfile = some cfg := by
  cases o <;> cases h
  rfl

theorem answer_writeNginx {cfg : NginxConfig}
    (h : (Call.writeNginx cfg).answer o p = some (.ok (), p')) : p'.nginx = some cfg := by
  cases o <;> cases h
  rfl

theorem answer_reloadCaddy {r : Except String Unit}
    (h : Call.reloadCaddy.answer o p = some (r, p')) :
    r = .ok () ∧ p.caddyfile = some p'.loaded ∨ (∃ e, r = .error e) ∧ p' = p := by
  cases o with
  | ok =>
    obtain ⟨cfg, hcfg, same⟩ := Option.map_eq_some_iff.mp h
    cases same
    exact .inl ⟨rfl, hcfg⟩
  | fail =>
    cases h
    exact .inr ⟨⟨_, rfl⟩, rfl⟩
  | _ => cases h

end Inversion

end Proxy

end Codery
