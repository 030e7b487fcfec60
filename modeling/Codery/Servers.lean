import Codery.Blocks
import Codery.Scenario

/-! The file of Nginx, read by brace nesting, and what the fields of an app can do to both files. -/

namespace Codery

open Brackets Effect

variable {routes : List UnifiedRoute} {domain : String} {s : NginxServer} {l : List NginxServer}
  {d : Nat}

namespace Nginx

/-- The block of a server, and one that says so. -/
def IsServer (b : Block Char) : Prop := words isWhitespace b.head = ["server".toList]

/-- The file is one server block for each app route, with the body made for it, and the default
server. -/
def Reads (routes : List UnifiedRoute) (domain : String) : Prop :=
  ∃ servers default,
    topLevel (render (generateConfig routes domain)) = some (servers ++ [default]) ∧
    List.Forall₂ (fun s b => IsServer b ∧ b.body = (serverBody s).toList)
      (routes.filterMap (server domain)) servers ∧
    IsServer default ∧ List.IsInfix "default_server".toList default.body

def defaultBody : String := "\n    listen 8080 default_server;\n    return 404;\n"

def noAppsBody : String :=
  "\n    listen 8080 default_server;\n    return 503 \"No apps configured\";\n"

/-- The first block of a file. -/
def firstBlock (body : String) : Block Char := ⟨"server ".toList, body.toList⟩

def nextBlock (body : String) : Block Char := ⟨'\n' :: '\n' :: "server ".toList, body.toList⟩

theorem isServer_first {body : String} : IsServer (firstBlock body) := by
  show words isWhitespace "server ".toList = ["server".toList]
  rw [toList_lit rfl, toList_lit rfl]
  decide

theorem isServer_next {body : String} : IsServer (nextBlock body) := by
  have first : IsServer (firstBlock body) := isServer_first
  unfold IsServer nextBlock at *
  rw [words_sep rfl, words_sep rfl]
  exact first

theorem body_first {body : String} : (firstBlock body).body = body.toList := rfl

theorem body_next {body : String} : (nextBlock body).body = body.toList := rfl

theorem plain_server : braces.Plain "server ".toList := by
  rw [toList_lit rfl]
  decide

/-! ### The text -/

theorem block_text {body : String} :
    ("server \x7b" ++ body ++ "\x7d\n").toList = (firstBlock body).text braces ++ ['\n'] := by
  unfold firstBlock Block.text
  simp only [String.toList_append]
  rw [toList_lit rfl, toList_lit rfl, toList_lit rfl]
  simp [braces]

theorem next_text {body : String} :
    (nextBlock body).text braces = '\n' :: '\n' :: (firstBlock body).text braces := rfl

theorem servers_text : ("\n".intercalate ((s :: l).map serverBlock)).toList =
    (firstBlock (serverBody s)).text braces ++
      (l.map fun s => nextBlock (serverBody s)).flatMap (Block.text braces) ++ ['\n'] := by
  induction l generalizing s with
  | nil =>
    have one : "\n".intercalate ([s].map serverBlock) = serverBlock s := by simp
    rw [one, serverBlock, block_text]
    simp
  | cons t l ih =>
    rw [List.map_cons, List.map_cons, String.intercalate_cons_cons, String.toList_append,
      String.toList_append, ← List.map_cons, ih, serverBlock, block_text, List.map_cons,
      List.flatMap_cons, next_text, toList_lit (s := "\n") rfl]
    simp

theorem default_text : defaultServer.toList =
    '\n' :: (firstBlock defaultBody).text braces ++ ['\n'] := by
  unfold firstBlock Block.text defaultServer defaultBody
  rw [toList_lit rfl, toList_lit rfl, toList_lit rfl]
  rfl

theorem noApps_text : noApps.toList = (firstBlock noAppsBody).text braces ++ ['\n'] := by
  unfold firstBlock Block.text noApps noAppsBody
  rw [toList_lit rfl, toList_lit rfl, toList_lit rfl]
  rfl

/-! ### The bodies -/

theorem walk_cacheHeaders {noCache : Bool} :
    braces.walk d (cacheHeaders noCache).toList = some d := by
  cases noCache with
  | false => rfl
  | true =>
    exact walk_through (nested_lit rfl (by decide)).walk
      (nested_lit rfl (by decide)).walk

theorem nested_serverBody (plain : braces.Plain s.serverName.toList) :
    braces.Nested (serverBody s).toList := by
  have listen : braces.walk 0 "\n    listen 8080;\n    server_name ".toList = some 0 :=
    walk_lit rfl (by decide)
  have location : braces.walk 0 ";\n    location / \x7b".toList = some 1 :=
    walk_lit rfl (by decide)
  have pass : braces.walk 1 "\n        proxy_pass http://127.0.0.1:".toList = some 1 :=
    walk_lit rfl (by decide)
  have headers : braces.walk 1
      ";\n        proxy_set_header Host $host;\n        proxy_set_header X-Real-IP $remote_addr;".toList =
        some 1 := walk_lit rfl (by decide)
  have forwarded : braces.walk 1
      "\n        proxy_set_header X-Forwarded-For $proxy_add_x_forwarded_for;".toList = some 1 :=
    walk_lit rfl (by decide)
  have upgrade : braces.walk 1 "\n        proxy_set_header Upgrade $http_upgrade;".toList = some 1 :=
    walk_lit rfl (by decide)
  have connection : braces.walk 1
      "\n        proxy_set_header Connection $connection_upgrade;\n    \x7d\n".toList = some 0 :=
    walk_lit rfl (by decide)
  unfold Nested serverBody
  refine walk_through (walk_through (walk_through (walk_through ?_ headers) forwarded) upgrade)
    connection
  refine walk_through (walk_through (walk_through ?_ walk_cacheHeaders) pass) portText_plain.walk
  exact walk_through (walk_through listen plain.walk) location

theorem proper_first {body : String} (nested : braces.Nested body.toList) :
    (firstBlock body).Proper braces := ⟨plain_server, nested⟩

theorem proper_next {body : String} (nested : braces.Nested body.toList) :
    (nextBlock body).Proper braces := by
  refine ⟨?_, nested⟩
  have head : (nextBlock body).head = ['\n', '\n'] ++ "server ".toList := rfl
  rw [head]
  refine Plain.append ?_ plain_server
  decide

theorem nested_defaultBody : braces.Nested defaultBody.toList := nested_lit rfl (by decide)

theorem nested_noAppsBody : braces.Nested noAppsBody.toList := nested_lit rfl (by decide)

theorem default_infix : List.IsInfix "default_server".toList defaultBody.toList := by
  rw [defaultBody, toList_lit rfl, toList_lit rfl]
  exact ⟨"\n    listen 8080 ".toList, ";\n    return 404;\n".toList, by
    rw [toList_lit rfl, toList_lit rfl]
    rfl⟩

theorem noApps_infix : List.IsInfix "default_server".toList noAppsBody.toList := by
  rw [noAppsBody, toList_lit rfl, toList_lit rfl]
  exact ⟨"\n    listen 8080 ".toList, ";\n    return 503 \"No apps configured\";\n".toList, by
    rw [toList_lit rfl, toList_lit rfl]
    rfl⟩

/-- The blocks of a file with servers. -/
def fileBlocks (s : NginxServer) (l : List NginxServer) : List (Block Char) :=
  firstBlock (serverBody s) :: l.map fun s => nextBlock (serverBody s)

/-- The line break that joins two servers, or the last one and the default, begins the next head. -/
theorem render_text : (render (.servers (s :: l))).toList =
    (fileBlocks s l ++ [nextBlock defaultBody]).flatMap (Block.text braces) ++ ['\n'] := by
  have whole : render (.servers (s :: l)) =
      "\n".intercalate ((s :: l).map serverBlock) ++ defaultServer := rfl
  rw [whole, String.toList_append, servers_text, default_text, fileBlocks]
  simp [next_text]

theorem proper_fileBlocks (plain : ∀ t ∈ s :: l, braces.Plain t.serverName.toList) :
    ∀ b ∈ fileBlocks s l ++ [nextBlock defaultBody], b.Proper braces := by
  intro b mem
  rcases List.mem_append.mp mem with mem | mem
  · rcases List.mem_cons.mp mem with rfl | mem
    · exact proper_first (nested_serverBody (plain s List.mem_cons_self))
    · obtain ⟨t, ht, rfl⟩ := List.mem_map.mp mem
      exact proper_next (nested_serverBody (plain t (List.mem_cons_of_mem _ ht)))
  · cases List.mem_singleton.mp mem
    exact proper_next nested_defaultBody

theorem reads_of_names (plain : ∀ s ∈ routes.filterMap (server domain),
    braces.Plain s.serverName.toList) : Reads routes domain := by
  unfold Reads generateConfig
  cases servers : routes.filterMap (server domain) with
  | nil =>
    refine ⟨[], firstBlock noAppsBody, ?_, .nil, isServer_first, noApps_infix⟩
    refine topLevel_blocks ?_ fun b mem => ?_
    · rw [render, noApps_text]
      simp
    · cases List.mem_singleton.mp mem
      exact proper_first nested_noAppsBody
  | cons s l =>
    rw [servers] at plain
    refine ⟨fileBlocks s l, nextBlock defaultBody, ?_, ?_, isServer_next, default_infix⟩
    · exact topLevel_blocks render_text (proper_fileBlocks plain)
    · refine .cons ⟨isServer_first, body_first⟩ ?_
      rw [List.forall₂_map_right_iff, List.forall₂_same]
      exact fun s _ => ⟨isServer_next, body_next⟩

end Nginx

/-! ### Both files -/

variable {load : String → Option ServiceDef} {content ip : Option String} {defs : List ServiceDef}
  {statics : List StaticRoute} {apps : List AppRecord} {previews : List PreviewRecord}
  {colors : List (String × Color)}

/-- What a host with these tables writes to the Caddyfile. -/
def routedConfig (defs : List ServiceDef) (statics : List StaticRoute) (apps : List AppRecord)
    (previews : List PreviewRecord) (colors : List (String × Color)) (domain : String) : CaddyConfig :=
  ⟨buildRouteMap defs statics apps previews, colors, domain⟩

theorem address_claimed {P : String → Prop} :
    (∀ r ∈ buildRouteMap defs statics apps previews, P (r.address domain)) ↔
      ∀ k, Claimed defs statics apps previews k → P (Caddy.fqdn domain k) := by
  constructor
  · intro all k claimed
    obtain ⟨r, mem, rfl⟩ := claimed_iff.mp claimed
    exact all r mem
  · intro all r mem
    exact all r.subdomain (claimed_iff.mpr ⟨r, mem, rfl⟩)

/-- Both files are read as they were meant exactly when every subdomain makes a name of a site, and
every env variable a password is asked from leaves the braces around it as they are. -/
theorem files_read_iff :
    (Caddy.Reads load (Caddy.loadEnvPairs content ip)
          (routedConfig defs statics apps previews colors domain) ∧
        Nginx.Reads (buildRouteMap defs statics apps previews) domain) ↔
      (∀ k, Claimed defs statics apps previews k → Caddy.SiteName (Caddy.fqdn domain k).toList) ∧
        ∀ r ∈ buildRouteMap defs statics apps previews, ∀ e,
          Caddy.authOf (Caddy.loadEnvPairs content ip) r = some e → Caddy.FitsBraces e := by
  rw [← address_claimed (P := fun a => Caddy.SiteName a.toList)]
  constructor
  · rintro ⟨reads, _⟩
    exact ⟨fun r mem => (reads.route mem).1, fun r mem => (reads.route mem).2⟩
  · rintro ⟨names, fits⟩
    refine ⟨Caddy.reads_of_names (fun _ => Caddy.loadEnvPairs_unbroken) names fits, ?_⟩
    refine Nginx.reads_of_names fun s mem => ?_
    obtain ⟨r, routed, made⟩ := List.mem_filterMap.mp mem
    rw [Nginx.server_name made]
    exact (names r routed).2.1

/-- A host whose container of apps is up in blue, with nothing on it yet. -/
def appsHost : Host where
  docker :=
    { containers := fun n =>
        if n = "codery-apps-blue" then some { image := "apps", running := true } else none
      images := [] }
  state :=
    { color := fun s => if s = "apps" then .text "blue\n" else .missing
      sha := fun _ => .missing }
  db := Scenario.migrated []

/-- An app whose subdomain closes its own site. -/
def intruder : Mcp.AddAppParams where
  name := "intruder"
  subdomain := "app \x7b\n    reverse_proxy localhost:9999\n\x7d\nadmin"
  internalPort := 3001
  command := "bun run start"
  directory := "/home/gem/projects/intruder"
  source := some "build"

def intruded : CaddyConfig := routedConfig [] [] [intruder.record] [] [] "example.com"

/-- `add_app` takes it, and the Caddyfile it writes has sites of nobody. -/
theorem site_intruded :
    ∃ h', Finishes (steps { services := ⟨[], by decide⟩, domain := "example.com" })
        (Mcp.addApp intruder).run appsHost (.ok ()) h' ∧
      h'.proxy.caddyfile = some intruded ∧
      ∀ load env, ¬ (Caddy.Reads load env intruded ∧ Nginx.Reads intruded.routes intruded.domain) := by
  have shown : playShow (Call.answer { services := ⟨[], by decide⟩, domain := "example.com" })
      anyChoice (fun h => h.proxy.caddyfile) (.ok :: .output "" :: Scenario.oks 28 ++ [.output ""])
      (Mcp.addApp intruder).run appsHost = some (some (.ok ()), some intruded) := by
    decide
  obtain ⟨h', run, written⟩ := playShow_finishes _ _ shown
  refine ⟨h', run, written, fun load env ⟨reads, _⟩ => ?_⟩
  have name : Caddy.SiteName _ := (reads.route List.mem_cons_self).1
  exact (name.2.1 '{' (by decide)).1 rfl

end Codery
