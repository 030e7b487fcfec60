import Codery.Layers
import Codery.Routes
import Mathlib.Data.String.Basic

/-! What `build_route_map` returns: for each subdomain the entry of the highest layer that has it,
in the order of the subdomains. -/

namespace Codery

variable {defs defs' : List ServiceDef} {statics : List StaticRoute} {apps : List AppRecord}
  {previews : List PreviewRecord} {d d' : ServiceDef} {p : NamedPort} {k : String}
  {r : UnifiedRoute}

/-- A TCP port that asks for subdomain `k`. -/
def NamedPort.claims (k : String) (p : NamedPort) : Bool := p.protocol == .tcp && p.subdomain == some k

/-- The route of a port to a subdomain it asks for. -/
def ServiceDef.routeOf (d : ServiceDef) (k : String) (p : NamedPort) : UnifiedRoute :=
  { subdomain := k, port := p.containerPort, target := d.service, authEnv := p.auth }

/-- The route of the first port of `d` that asks for `k`. -/
def ServiceDef.firstRoute (d : ServiceDef) (k : String) : Option UnifiedRoute :=
  (d.ports.find? (·.claims k)).map (d.routeOf k)

/-- What the layers above the services have for `k`. -/
def override (statics : List StaticRoute) (apps : List AppRecord) (previews : List PreviewRecord)
    (k : String) : Option UnifiedRoute :=
  ((Layers.last? PreviewRecord.subdomain previews k).map previewRoute).or
    (((Layers.last? AppRecord.subdomain apps k).map appRoute).or
      ((Layers.last? StaticRoute.subdomain statics k).map staticRoute))

/-- The entry for `k`: the preview, else the app, else the last static route, else the first port
in the order of the definitions. -/
def winner (defs : List ServiceDef) (statics : List StaticRoute) (apps : List AppRecord)
    (previews : List PreviewRecord) (k : String) : Option UnifiedRoute :=
  (override statics apps previews k).or (defs.findSome? (·.firstRoute k))

/-! ### The layers -/

theorem last?_map {β : Type} (key : β → String) {f : β → UnifiedRoute}
    (same : ∀ x, (f x).subdomain = key x) (l : List β) :
    Layers.last? UnifiedRoute.subdomain (l.map f) k = (Layers.last? key l k).map f := by
  simp only [Layers.last?, Layers.get?, ← List.map_reverse, List.find?_map]
  congr 2
  funext x
  simp [same]

theorem portRoute_claims : (portRoute d p).any (·.subdomain == k) = p.claims k := by
  unfold portRoute NamedPort.claims
  cases hp : p.protocol <;> cases hs : p.subdomain <;> simp

theorem portRoute_routeOf (claims : p.claims k = true) : portRoute d p = some (d.routeOf k p) := by
  unfold NamedPort.claims at claims
  simp only [Bool.and_eq_true, beq_iff_eq] at claims
  simp [portRoute, claims.1, claims.2, ServiceDef.routeOf]

theorem find?_ports (ports : List NamedPort) :
    (ports.filterMap (portRoute d)).find? (·.subdomain == k) =
      (ports.find? (·.claims k)).map (d.routeOf k) := by
  simp only [List.find?_filterMap, portRoute_claims]
  cases found : ports.find? (·.claims k) with
  | none => rfl
  | some p => exact portRoute_routeOf (List.find?_some found)

theorem get?_services :
    Layers.get? UnifiedRoute.subdomain (defs.flatMap fun d => d.ports.filterMap (portRoute d)) k =
      defs.findSome? (·.firstRoute k) := by
  rw [Layers.get?, List.find?_flatMap]
  congr 1
  funext d
  exact find?_ports d.ports

/-- The table before it is sorted. -/
def routeTable (defs : List ServiceDef) (statics : List StaticRoute) (apps : List AppRecord)
    (previews : List PreviewRecord) : RouteTable :=
  (previews.map previewRoute).foldl RouteTable.insert
    ((apps.map appRoute).foldl RouteTable.insert
      ((statics.map staticRoute).foldl RouteTable.insert
        ((defs.flatMap fun d => d.ports.filterMap (portRoute d)).foldl RouteTable.orInsert [])))

theorem routeTable_distinct :
    Layers.Distinct UnifiedRoute.subdomain (routeTable defs statics apps previews) := by
  have empty : Layers.Distinct UnifiedRoute.subdomain [] := List.nodup_nil
  exact empty.foldl_orInsert.foldl_insert.foldl_insert.foldl_insert

theorem get?_routeTable :
    Layers.get? UnifiedRoute.subdomain (routeTable defs statics apps previews) k =
      winner defs statics apps previews k := by
  rw [routeTable, show RouteTable.insert = Layers.insert UnifiedRoute.subdomain from rfl,
    show RouteTable.orInsert = Layers.orInsert UnifiedRoute.subdomain from rfl]
  rw [Layers.get?_foldl_insert, Layers.get?_foldl_insert, Layers.get?_foldl_insert,
    Layers.get?_foldl_orInsert, Layers.get?_nil, Option.none_or, get?_services]
  rw [last?_map PreviewRecord.subdomain (fun _ => rfl), last?_map AppRecord.subdomain (fun _ => rfl),
    last?_map StaticRoute.subdomain (fun _ => rfl), winner, override, Option.or_assoc, Option.or_assoc]

theorem winner_subdomain (won : winner defs statics apps previews k = some r) : r.subdomain = k := by
  rw [← get?_routeTable] at won
  exact Layers.get?_key won

theorem buildRouteMap_eq :
    buildRouteMap defs statics apps previews =
      Layers.sorted UnifiedRoute.subdomain (routeTable defs statics apps previews) := rfl

theorem buildRouteMap_strict :
    (buildRouteMap defs statics apps previews).Pairwise (·.subdomain < ·.subdomain) := by
  rw [buildRouteMap_eq]
  exact Layers.sorted_strict routeTable_distinct

theorem mem_buildRouteMap : (r ∈ buildRouteMap defs statics apps previews ∧ r.subdomain = k) ↔
    winner defs statics apps previews k = some r := by
  rw [buildRouteMap_eq, Layers.sorted, List.mem_insertionSort, routeTable_distinct.mem_iff,
    get?_routeTable]

theorem firstRoute_eq_none :
    d.firstRoute k = none ↔ ∀ p ∈ d.ports, ¬ (p.protocol = .tcp ∧ p.subdomain = some k) := by
  simp [ServiceDef.firstRoute, NamedPort.claims]

theorem winner_eq_none : winner defs statics apps previews k = none ↔
    (∀ p ∈ previews, p.subdomain ≠ k) ∧ (∀ a ∈ apps, a.subdomain ≠ k) ∧
      (∀ r ∈ statics, r.subdomain ≠ k) ∧
        ∀ d ∈ defs, ∀ p ∈ d.ports, ¬ (p.protocol = .tcp ∧ p.subdomain = some k) := by
  simp only [winner, override, Option.or_eq_none_iff, Option.map_eq_none_iff, Layers.last?_eq_none,
    List.findSome?_eq_none_iff, firstRoute_eq_none, and_assoc]

/-- The route map is strictly increasing in the subdomain, its entry for a subdomain is the one of
the highest layer, and there is none exactly where no layer has one. -/
theorem buildRouteMap_layers :
    (buildRouteMap defs statics apps previews).Pairwise (·.subdomain < ·.subdomain) ∧
      ∀ k, (∀ r, (r ∈ buildRouteMap defs statics apps previews ∧ r.subdomain = k) ↔
          ((Layers.last? PreviewRecord.subdomain previews k).map previewRoute).or
            (((Layers.last? AppRecord.subdomain apps k).map appRoute).or
              (((Layers.last? StaticRoute.subdomain statics k).map staticRoute).or
                (defs.findSome? (·.firstRoute k)))) = some r) ∧
        ((∀ r ∈ buildRouteMap defs statics apps previews, r.subdomain ≠ k) ↔
          (∀ p ∈ previews, p.subdomain ≠ k) ∧ (∀ a ∈ apps, a.subdomain ≠ k) ∧
            (∀ r ∈ statics, r.subdomain ≠ k) ∧
              ∀ d ∈ defs, ∀ p ∈ d.ports, ¬ (p.protocol = .tcp ∧ p.subdomain = some k)) := by
  refine ⟨buildRouteMap_strict, fun k => ⟨fun r => ?_, ?_⟩⟩
  · rw [mem_buildRouteMap, winner, override, Option.or_assoc, Option.or_assoc]
  · rw [← winner_eq_none, Option.eq_none_iff_forall_ne_some]
    constructor
    · intro absent r won
      exact absent r (mem_buildRouteMap.mpr won).1 (winner_subdomain won)
    · rintro none r mem rfl
      exact none r (mem_buildRouteMap.mp ⟨mem, rfl⟩)

/-! ### The order of the definitions -/

/-- Some layer above the services has `k`. -/
abbrev Overridden (statics : List StaticRoute) (apps : List AppRecord)
    (previews : List PreviewRecord) (k : String) : Prop :=
  (override statics apps previews k).isSome = true

/-- Definitions that ask for one subdomain, which no higher layer has, ask for one route. -/
def Undisputed (defs : List ServiceDef) (statics : List StaticRoute) (apps : List AppRecord)
    (previews : List PreviewRecord) : Prop :=
  ∀ k, ¬ Overridden statics apps previews k → ∀ d ∈ defs, ∀ d' ∈ defs, ∀ r r',
    d.firstRoute k = some r → d'.firstRoute k = some r' → r = r'

theorem winner_first (free : ¬ Overridden statics apps previews k) (first : d.firstRoute k = some r) :
    winner (d :: defs) statics apps previews k = some r := by
  rw [winner, Option.not_isSome_iff_eq_none.mp free, Option.none_or, List.findSome?_cons, first]

theorem winner_mem (free : ¬ Overridden statics apps previews k)
    (won : winner defs statics apps previews k = some r) : ∃ d ∈ defs, d.firstRoute k = some r := by
  rw [winner, Option.not_isSome_iff_eq_none.mp free, Option.none_or] at won
  exact List.exists_of_findSome?_eq_some won

theorem winner_perm (perm : defs'.Perm defs) (undisputed : Undisputed defs statics apps previews)
    (won : winner defs statics apps previews k = some r) :
    winner defs' statics apps previews k = some r := by
  by_cases above : Overridden statics apps previews k
  · rw [winner, Option.or_of_isSome above] at won ⊢
    exact won
  · obtain ⟨d, mem, first⟩ := winner_mem above won
    cases won' : winner defs' statics apps previews k with
    | none =>
      have none := (winner_eq_none.mp won').2.2.2 d (perm.mem_iff.mpr mem)
      rw [← firstRoute_eq_none, first] at none
      cases none
    | some r' =>
      obtain ⟨d', mem', first'⟩ := winner_mem above won'
      rw [undisputed k above d' (perm.mem_iff.mp mem') d mem r' r first' first]

theorem Undisputed.perm (perm : defs'.Perm defs) (undisputed : Undisputed defs statics apps previews) :
    Undisputed defs' statics apps previews := by
  intro k free d hd d' hd'
  exact undisputed k free d (perm.mem_iff.mp hd) d' (perm.mem_iff.mp hd')

/-- The route map does not depend on the order of the definitions exactly when no subdomain is
disputed. -/
theorem buildRouteMap_perm_iff :
    (∀ defs', defs'.Perm defs →
        buildRouteMap defs' statics apps previews = buildRouteMap defs statics apps previews) ↔
      Undisputed defs statics apps previews := by
  constructor
  · intro all k free d hd d' hd' r r' first first'
    have leads {d r} (hd : d ∈ defs) (first : d.firstRoute k = some r) :
        winner defs statics apps previews k = some r := by
      have won : winner (d :: defs.erase d) statics apps previews k = some r := winner_first free first
      rw [← mem_buildRouteMap] at won ⊢
      rwa [← all _ (List.perm_cons_erase hd).symm]
    have same := (leads hd first).symm.trans (leads hd' first')
    exact Option.some_inj.mp same
  · intro undisputed defs' perm
    refine Layers.eq_of_strict buildRouteMap_strict buildRouteMap_strict fun r => ?_
    constructor
    · intro mem
      have won := mem_buildRouteMap.mp ⟨mem, rfl⟩
      exact (mem_buildRouteMap.mpr (winner_perm perm.symm (undisputed.perm perm) won)).1
    · intro mem
      have won := mem_buildRouteMap.mp ⟨mem, rfl⟩
      exact (mem_buildRouteMap.mpr (winner_perm perm undisputed won)).1

/-- A service whose only port asks for the subdomain `app`. -/
def claimant (service : String) : ServiceDef where
  service := service
  image := "ghcr.io/coderyoss/codery:" ++ service ++ "-{sha}"
  portScheme := ⟨10000, 20000⟩
  ports := [{ name := "web", containerPort := 3000, subdomain := some "app" }]
  healthCheck := .docker 30
  network := "codery-net"

/-- Two services that ask for one subdomain: the directory's order decides which one gets it. -/
theorem buildRouteMap_order :
    ¬ ∀ defs', defs'.Perm [claimant "a", claimant "b"] →
        buildRouteMap defs' [] [] [] = buildRouteMap [claimant "a", claimant "b"] [] [] [] := by
  intro all
  have same := all [claimant "b", claimant "a"] (List.Perm.swap _ _ _)
  exact absurd same (by decide)

end Codery
