import Codery.RouteMap
import Codery.Caddyfile

/-! The addresses of the sites: `build_route_map` keeps the subdomains apart, and two spellings of
one address remain. -/

namespace Codery

variable {defs : List ServiceDef} {statics : List StaticRoute} {apps : List AppRecord}
  {previews : List PreviewRecord} {routes : List UnifiedRoute} {domain k k' : String}
  {r r' : UnifiedRoute}

/-- Some layer has the subdomain `k`. -/
def Claimed (defs : List ServiceDef) (statics : List StaticRoute) (apps : List AppRecord)
    (previews : List PreviewRecord) (k : String) : Prop :=
  (∃ p ∈ previews, p.subdomain = k) ∨ (∃ a ∈ apps, a.subdomain = k) ∨
    (∃ r ∈ statics, r.subdomain = k) ∨
      ∃ d ∈ defs, ∃ p ∈ d.ports, p.protocol = .tcp ∧ p.subdomain = some k

theorem claimed_iff : Claimed defs statics apps previews k ↔
    ∃ r ∈ buildRouteMap defs statics apps previews, r.subdomain = k := by
  have routed : (∃ r ∈ buildRouteMap defs statics apps previews, r.subdomain = k) ↔
      winner defs statics apps previews k ≠ none := by
    simp only [mem_buildRouteMap, Option.ne_none_iff_exists']
  rw [routed, ne_eq, winner_eq_none, Claimed, not_and_or, not_and_or, not_and_or]
  simp only [not_forall, not_not, exists_prop]

/-- The address of a site. -/
def UnifiedRoute.address (domain : String) (r : UnifiedRoute) : String :=
  Caddy.fqdn domain r.subdomain

def NginxConfig.serverNames : NginxConfig → List String
  | .empty => []
  | .servers l => l.map (·.serverName)

/-- The subdomain `k`, short for `k` with the domain behind it, is also claimed in full. -/
def Respelled (defs : List ServiceDef) (statics : List StaticRoute) (apps : List AppRecord)
    (previews : List PreviewRecord) (domain k : String) : Prop :=
  '.' ∉ k.toList ∧ Claimed defs statics apps previews k ∧
    Claimed defs statics apps previews (k ++ "." ++ domain)

/-! ### The two spellings -/

theorem fqdn_dotted (dotted : '.' ∈ k.toList) : Nginx.fqdn domain k = k := by
  simp [Nginx.fqdn, dotted]

theorem fqdn_plain (plain : '.' ∉ k.toList) : Nginx.fqdn domain k = k ++ "." ++ domain := by
  simp [Nginx.fqdn, plain]

theorem dotted_append : '.' ∈ (k ++ "." ++ domain).toList := by simp

theorem fqdn_append : Nginx.fqdn domain (k ++ "." ++ domain) = k ++ "." ++ domain :=
  fqdn_dotted dotted_append

/-- Two subdomains with one address: one of them is the other's full spelling. -/
theorem fqdn_eq (same : Nginx.fqdn domain k = Nginx.fqdn domain k') :
    k = k' ∨ ('.' ∉ k.toList ∧ k' = k ++ "." ++ domain) ∨
      '.' ∉ k'.toList ∧ k = k' ++ "." ++ domain := by
  by_cases dotted : '.' ∈ k.toList
  · rw [fqdn_dotted dotted] at same
    by_cases dotted' : '.' ∈ k'.toList
    · rw [fqdn_dotted dotted'] at same
      exact .inl same
    · rw [fqdn_plain dotted'] at same
      exact .inr (.inr ⟨dotted', same⟩)
  · rw [fqdn_plain dotted] at same
    by_cases dotted' : '.' ∈ k'.toList
    · rw [fqdn_dotted dotted'] at same
      exact .inr (.inl ⟨dotted, same.symm⟩)
    · rw [fqdn_plain dotted'] at same
      have chars := congrArg String.toList same
      simp only [String.toList_append, List.append_cancel_right_eq] at chars
      exact .inl (String.toList_inj.mp chars)

/-! ### Distinct addresses -/

theorem Nginx.server_name {s : NginxServer} (made : Nginx.server domain r = some s) :
    s.serverName = r.address domain := by
  unfold Nginx.server at made
  split at made
  · cases made
  · split at made
    · cases made
    · cases made
      rfl

theorem serverNames_sublist :
    (Nginx.generateConfig routes domain).serverNames.Sublist (routes.map (·.address domain)) := by
  show ((routes.filterMap (Nginx.server domain)).map (·.serverName)).Sublist _
  induction routes with
  | nil => exact .slnil
  | cons r routes ih =>
    rw [List.filterMap_cons, List.map_cons]
    cases made : Nginx.server domain r with
    | none => exact ih.cons _
    | some s =>
      rw [List.map_cons, Nginx.server_name made]
      exact ih.cons_cons _

/-- A subdomain names one route. -/
theorem route_eq (mem : r ∈ buildRouteMap defs statics apps previews)
    (mem' : r' ∈ buildRouteMap defs statics apps previews) (same : r.subdomain = r'.subdomain) :
    r = r' := by
  have won := mem_buildRouteMap.mp ⟨mem, same⟩
  rw [mem_buildRouteMap.mp ⟨mem', rfl⟩] at won
  exact (Option.some_inj.mp won).symm

theorem caddyAddresses_nodup_iff :
    ((buildRouteMap defs statics apps previews).map (·.address domain)).Nodup ↔
      ∀ k, ¬ Respelled defs statics apps previews domain k := by
  have distinct : (buildRouteMap defs statics apps previews).Nodup :=
    buildRouteMap_strict.imp fun lt same => absurd (same ▸ lt) (lt_irrefl _)
  rw [List.nodup_map_iff_inj_on distinct]
  constructor
  · rintro inj k ⟨plain, short, full⟩
    obtain ⟨r, mem, rfl⟩ := claimed_iff.mp short
    obtain ⟨r', mem', spelled⟩ := claimed_iff.mp full
    have same : r = r' := inj r mem r' mem' (by
      rw [UnifiedRoute.address, UnifiedRoute.address, spelled]
      exact (fqdn_plain plain).trans fqdn_append.symm)
    subst same
    exact plain (spelled ▸ dotted_append)
  · intro none r mem r' mem' same
    have short {r : UnifiedRoute} (mem : r ∈ buildRouteMap defs statics apps previews) :=
      claimed_iff.mpr ⟨r, mem, rfl⟩
    rcases fqdn_eq same with same | ⟨plain, full⟩ | ⟨plain, full⟩
    · exact route_eq mem mem' same
    · exact absurd ⟨plain, short mem, full ▸ short mem'⟩ (none r.subdomain)
    · exact absurd ⟨plain, short mem', full ▸ short mem⟩ (none r'.subdomain)

/-- An app at `app`, and one at `app.example.com`. -/
def shortApp : AppRecord where
  name := "short"
  subdomain := "app"
  internalPort := 3001
  command := "bun run start"
  directory := "/home/gem/projects/short"

def fullApp : AppRecord :=
  { shortApp with name := "full", subdomain := "app.example.com", internalPort := 3002 }

def migratedApps : AppsTable := { hasNoCache := true, hasSource := true, rows := [] }

end Codery
