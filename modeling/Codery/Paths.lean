import Codery.Blocks
import Codery.HostPorts
import Codery.Sections

/-! The path of a request to an app: through a site of the Caddyfile and the server of the same name
in the file of Nginx, each file read line by line. -/

namespace Codery

variable {load : String → Option ServiceDef} {env : List (String × String)} {cfg : CaddyConfig}
  {r : UnifiedRoute} {ls : List String} {l : String}

/-- The text of some lines. -/
def unlines (ls : List String) : String := ls.foldr (fun l t => l ++ "\n" ++ t) ""

@[simp] theorem unlines_nil : unlines [] = "" := rfl

@[simp] theorem unlines_cons : unlines (l :: ls) = l ++ "\n" ++ unlines ls := rfl

@[simp] theorem unlines_append {ls' : List String} :
    unlines (ls ++ ls') = unlines ls ++ unlines ls' := by
  induction ls with
  | nil => simp
  | cons l ls ih => simp only [List.cons_append, unlines_cons, ih, String.append_assoc]

/-- A text that ends with its line break, and nowhere before. -/
def IsLine (l : String) : Prop := '\n' ∉ l.toList ∧ l.toList.getLast? ≠ some '\r'

instance : Decidable (IsLine l) := inferInstanceAs (Decidable (_ ∧ _))

theorem IsLine.append {s t : String} (hs : IsLine s) (ht : IsLine t) : IsLine (s ++ t) := by
  unfold IsLine
  rw [String.toList_append, List.mem_append, not_or, List.getLast?_append]
  refine ⟨⟨hs.1, ht.1⟩, ?_⟩
  cases last : t.toList.getLast? with
  | none => simpa using hs.2
  | some c => simpa [last] using ht.2

theorem isLine_digits (port : UInt16) : IsLine (toString port) :=
  ⟨digits_ne rfl, fun last => digits_ne rfl (List.mem_of_getLast? last)⟩

theorem line_lit {cs : List Char} (lit : l = String.ofList cs)
    (line : '\n' ∉ cs ∧ cs.getLast? ≠ some '\r') : IsLine l := by
  rw [IsLine, toList_lit lit]
  exact line

/-- A line of a block: indented, blank, or the one that closes it. -/
def Inner (l : String) : Prop := IsLine l ∧ (l.toList.head? = some ' ' ∨ l = "\x7d" ∨ l = "")

theorem inner_lit {cs : List Char} (lit : l = String.ofList (' ' :: cs))
    (line : '\n' ∉ ' ' :: cs ∧ (' ' :: cs).getLast? ≠ some '\r') : Inner l :=
  ⟨line_lit lit line, .inl (by rw [toList_lit lit]; rfl)⟩

theorem inner_close : Inner "\x7d" := ⟨line_lit rfl (by decide), .inr (.inl rfl)⟩

theorem inner_blank : Inner "" := ⟨line_lit rfl (by decide), .inr (.inr rfl)⟩

/-- Something indented, and more behind it. -/
theorem inner_append {s t : String} {cs : List Char} (lit : s = String.ofList (' ' :: cs))
    (line : '\n' ∉ ' ' :: cs ∧ (' ' :: cs).getLast? ≠ some '\r') (ht : IsLine t) : Inner (s ++ t) := by
  refine ⟨(line_lit lit line).append ht, .inl ?_⟩
  rw [String.toList_append, toList_lit lit]
  rfl

theorem lines_unlines (whole : ∀ l ∈ ls, IsLine l) : lines (unlines ls) = ls := by
  induction ls with
  | nil => rfl
  | cons l ls ih =>
    obtain ⟨unbroken, ends⟩ := whole l List.mem_cons_self
    have rest := ih fun l mem => whole l (List.mem_cons_of_mem _ mem)
    unfold lines at rest ⊢
    rw [unlines_cons, String.toList_append, String.toList_append, List.append_assoc,
      toList_lit (s := "\n") rfl, List.singleton_append, Caddy.linesFrom_line unbroken ends,
      List.map_cons, rest, String.ofList_toList]

/-- A host name: neither empty nor with anything that ends a name in either file. -/
def HostName (n : String) : Prop := n ≠ "" ∧ ∀ c ∈ n.toList, isWhitespace c = false ∧ c ≠ ';'

instance : DecidablePred HostName := fun n =>
  decidable_of_iff (n ≠ "" ∧ n.toList.all fun c => !isWhitespace c && c != ';') (by
    simp [HostName])

theorem HostName.isLine {n : String} (name : HostName n) : IsLine n :=
  ⟨fun mem => absurd (name.2 _ mem).1 (by decide), fun last =>
    absurd (name.2 _ (List.mem_of_getLast? last)).1 (by decide)⟩

namespace Caddy

/-- The address of the site that an unindented line opens. -/
def siteOf (line : String) : Option String :=
  let cs := line.toList
  if cs.head?.any (!isWhitespace ·) && " \x7b".toList.isSuffixOf cs then
    some (String.ofList cs.dropLast.dropLast)
  else none

/-- What a line names to proxy to. -/
def upstream (l : String) : Option String := (proxyOf l.toList).map String.ofList

/-- The sites of a Caddyfile, each with what its `reverse_proxy` directives name. -/
def sites (file : String) : List (String × List String) :=
  Sections.read siteOf upstream (lines file)

def authLines (env : List (String × String)) (r : UnifiedRoute) : List String :=
  match authOf env r with
  | none => []
  | some e => ["    basic_auth \x7b", "        \x7b$" ++ e ++ "\x7d", "    \x7d"]

def headerLines (noCache : Bool) : List String :=
  if noCache then
    ["    header \x7b", "        Cache-Control \"no-store, no-cache, must-revalidate, max-age=0\"",
      "        Pragma \"no-cache\"", "        Expires \"0\"", "    \x7d"]
  else []

def siteHead (cfg : CaddyConfig) (r : UnifiedRoute) : String := r.address cfg.domain ++ " \x7b"

/-- The lines of the block of a route, after its head. -/
def siteLines (load : String → Option ServiceDef) (env : List (String × String)) (cfg : CaddyConfig)
    (r : UnifiedRoute) : List String :=
  "    bind \x7b$TAILSCALE_IP\x7d" :: authLines env r ++
    ("    reverse_proxy localhost:" ++ toString (hostPort load cfg r)) ::
      (headerLines r.noCache ++ ["\x7d"])

theorem authDirective_lines :
    authDirective r.authEnv (envPresent env r) = unlines (authLines env r) := by
  rw [authDirective_eq, authLines]
  cases authOf env r with
  | none => rfl
  | some e =>
    have opened : "    basic_auth \x7b\n        \x7b$" =
        "    basic_auth \x7b" ++ ("\n" ++ "        \x7b$") := by decide
    have closed : "\x7d\n    \x7d\n" = "\x7d" ++ ("\n" ++ ("    \x7d" ++ "\n")) := by decide
    calc
      basicAuth e = "    basic_auth \x7b" ++ ("\n" ++ "        \x7b$") ++ e ++
          ("\x7d" ++ ("\n" ++ ("    \x7d" ++ "\n"))) := congrArg₂ (· ++ e ++ ·) opened closed
      _ = _ := by
        simp only [-String.reduceAppend, String.append_assoc, unlines_cons, unlines_nil,
          String.append_empty]

theorem cacheHeaders_lines (noCache : Bool) (t : String) :
    cacheHeaders noCache ++ ("\n" ++ t) = "\n" ++ (unlines (headerLines noCache) ++ t) := by
  have lines : cacheHeaders noCache ++ "\n" = "\n" ++ unlines (headerLines noCache) := by
    cases noCache <;> decide
  rw [← String.append_assoc, lines, String.append_assoc]

theorem routeBlock_lines : routeBlock load env cfg r =
    unlines ("" :: siteHead cfg r :: siteLines load env cfg r) := by
  have bind : "\n    bind \x7b$TAILSCALE_IP\x7d\n" =
      "\n" ++ ("    bind \x7b$TAILSCALE_IP\x7d" ++ "\n") := by decide
  have last : "\x7d\n" = "\x7d" ++ "\n" := by decide
  unfold routeBlock caddyBlock blockBody
  rw [authDirective_lines, bind, last]
  simp only [-String.reduceAppend, String.append_assoc, cacheHeaders_lines]
  simp only [-String.reduceAppend, siteLines, siteHead, UnifiedRoute.address, unlines_cons,
    unlines_append, unlines_nil, String.append_assoc, List.cons_append, String.empty_append,
    String.append_empty]

def optionLines : List String :=
  ["\x7b", "    acme_dns cloudflare \x7b$CLOUDFLARE_API_TOKEN\x7d", "\x7d"]

theorem generate_lines : generateFromRoutes load env cfg =
    unlines (optionLines ++ cfg.routes.flatMap fun r =>
      [""] ++ siteHead cfg r :: siteLines load env cfg r) := by
  have grown (routes : List UnifiedRoute) (text : String) :
      routes.foldl (fun caddy r => caddy ++ routeBlock load env cfg r) text =
        text ++ unlines (routes.flatMap fun r =>
          [""] ++ siteHead cfg r :: siteLines load env cfg r) := by
    induction routes generalizing text with
    | nil => simp
    | cons r routes ih =>
      rw [List.foldl_cons, ih, List.flatMap_cons, unlines_append, routeBlock_lines,
        String.append_assoc]
      rfl
  have options : globalOptions = unlines optionLines := by decide
  rw [generateFromRoutes, grown, unlines_append, options]

/-! ### What the lines say -/

theorem proxyOf_auth {e : String} : proxyOf ("        \x7b$" ++ e ++ "\x7d").toList = none := by
  rw [String.toList_append, String.toList_append, toList_lit (s := "        \x7b$") rfl, proxyOf,
    toList_lit (s := "reverse_proxy ") rfl]
  rfl

theorem proxyOf_port {port : UInt16} :
    proxyOf ("    reverse_proxy localhost:" ++ toString port).toList =
      some ("localhost:" ++ toString port).toList := by
  rw [String.toList_append, String.toList_append, toList_lit (s := "    reverse_proxy localhost:") rfl,
    toList_lit (s := "localhost:") rfl, proxyOf, toList_lit (s := "reverse_proxy ") rfl]
  rfl

theorem siteOf_inner (inner : Inner l) : siteOf l = none := by
  rcases inner.2 with indented | rfl | rfl
  · simp [siteOf, indented, isWhitespace]
  · rw [siteOf, toList_lit (s := "\x7d") rfl, toList_lit (s := " \x7b") rfl]
    rfl
  · rfl

theorem inner_auth {e : String} (unbroken : '\n' ∉ e.toList) :
    Inner ("        \x7b$" ++ e ++ "\x7d") := by
  have text : ("        \x7b$" ++ e ++ "\x7d").toList =
      ' ' :: (List.replicate 7 ' ' ++ ['\x7b', '$'] ++ e.toList ++ ['\x7d']) := by
    rw [String.toList_append, String.toList_append, toList_lit (s := "        \x7b$") rfl,
      toList_lit (s := "\x7d") rfl]
    rfl
  refine ⟨⟨?_, ?_⟩, ?_⟩
  · rw [text]
    simpa using unbroken
  · rw [text, ← List.cons_append, List.getLast?_append]
    simp
  · rw [text]
    exact .inl rfl

theorem inner_siteLines (unbroken : ∀ pair ∈ env, '\n' ∉ pair.1.toList) :
    ∀ l ∈ siteLines load env cfg r, Inner l := by
  have auth : ∀ l ∈ authLines env r, Inner l := by
    unfold authLines
    cases asked : authOf env r with
    | none => exact nofun
    | some e =>
      simp only [List.forall_mem_cons]
      exact ⟨inner_lit rfl (by decide), inner_auth (authOf_unbroken unbroken asked),
        inner_lit rfl (by decide), nofun⟩
  have header : ∀ l ∈ headerLines r.noCache, Inner l := by
    unfold headerLines
    split
    · simp only [List.forall_mem_cons]
      exact ⟨inner_lit rfl (by decide), inner_lit rfl (by decide), inner_lit rfl (by decide),
        inner_lit rfl (by decide), inner_lit rfl (by decide), nofun⟩
    · exact nofun
  intro l mem
  simp only [siteLines, List.cons_append, List.mem_cons, List.mem_append, List.not_mem_nil,
    or_false] at mem
  rcases mem with rfl | mem | rfl | mem | rfl
  · exact inner_lit rfl (by decide)
  · exact auth l mem
  · exact inner_append rfl (by decide) (isLine_digits _)
  · exact header l mem
  · exact inner_close

theorem upstream_none {cs : List Char} (lit : l = String.ofList cs) (read : proxyOf cs = none) :
    upstream l = none := by
  rw [upstream, toList_lit lit, read]
  rfl

/-- The block of a route names the port on `localhost`, and nothing else to proxy to. -/
theorem siteLines_upstream : (siteLines load env cfg r).filterMap upstream =
    ["localhost:" ++ toString (hostPort load cfg r)] := by
  have auth : (authLines env r).filterMap upstream = [] := by
    unfold authLines
    cases authOf env r with
    | none => rfl
    | some e =>
      have asked : upstream ("        \x7b$" ++ e ++ "\x7d") = none := by rw [upstream, proxyOf_auth]; rfl
      rw [List.filterMap_cons_none (upstream_none rfl rfl), List.filterMap_cons_none asked,
        List.filterMap_cons_none (upstream_none rfl rfl), List.filterMap_nil]
  have header : (headerLines r.noCache).filterMap upstream = [] := by
    rw [List.filterMap_eq_nil_iff]
    unfold headerLines
    split
    · simp only [List.forall_mem_cons]
      exact ⟨upstream_none rfl rfl, upstream_none rfl rfl, upstream_none rfl rfl,
        upstream_none rfl rfl, upstream_none rfl rfl, nofun⟩
    · exact nofun
  have port : upstream ("    reverse_proxy localhost:" ++ toString (hostPort load cfg r)) =
      some ("localhost:" ++ toString (hostPort load cfg r)) := by
    rw [upstream, proxyOf_port, Option.map_some, String.ofList_toList]
  rw [siteLines, List.cons_append, List.filterMap_cons_none (upstream_none rfl rfl),
    List.filterMap_append, auth, List.nil_append, List.filterMap_cons_some port,
    List.filterMap_append, header, List.nil_append,
    List.filterMap_cons_none (upstream_none rfl rfl), List.filterMap_nil]

theorem siteOf_siteHead (name : HostName (r.address cfg.domain)) :
    siteOf (siteHead cfg r) = some (r.address cfg.domain) := by
  obtain ⟨ne, whole⟩ := name
  have cons : ∃ c cs, (r.address cfg.domain).toList = c :: cs := by
    cases chars : (r.address cfg.domain).toList with
    | nil => exact absurd (String.toList_eq_nil_iff.mp chars) ne
    | cons c cs => exact ⟨c, cs, rfl⟩
  obtain ⟨c, cs, chars⟩ := cons
  have head : isWhitespace c = false := (whole c (by rw [chars]; exact List.mem_cons_self)).1
  have text : (siteHead cfg r).toList = (r.address cfg.domain).toList ++ [' ', '\x7b'] := by
    simp [siteHead]
  have suffix : " \x7b".toList.isSuffixOf (siteHead cfg r).toList = true := by
    rw [text, toList_lit rfl, List.isSuffixOf_iff_suffix]
    exact List.suffix_append _ _
  have dropped : ((siteHead cfg r).toList.dropLast).dropLast = (r.address cfg.domain).toList := by
    rw [text]
    simp
  have first : (siteHead cfg r).toList.head?.any (!isWhitespace ·) = true := by
    rw [text, chars]
    simp [head]
  rw [siteOf, if_pos (by rw [first, suffix]; rfl), dropped, String.ofList_toList]

theorem isLine_siteHead (name : HostName (r.address cfg.domain)) : IsLine (siteHead cfg r) :=
  name.isLine.append (line_lit rfl (by decide))

theorem isLine_optionLines : ∀ l ∈ optionLines, IsLine l := by decide

/-- The sites of the Caddyfile are those of the routes, in their order. -/
theorem sites_generate (unbroken : ∀ pair ∈ env, '\n' ∉ pair.1.toList)
    (names : ∀ r ∈ cfg.routes, HostName (r.address cfg.domain)) :
    sites (generateFromRoutes load env cfg) = cfg.routes.map fun r =>
      (r.address cfg.domain, ["localhost:" ++ toString (hostPort load cfg r)]) := by
  have whole : ∀ l ∈ optionLines ++ cfg.routes.flatMap fun r =>
      [""] ++ siteHead cfg r :: siteLines load env cfg r, IsLine l := by
    intro l mem
    rcases List.mem_append.mp mem with mem | mem
    · exact isLine_optionLines l mem
    · obtain ⟨r, routed, mem⟩ := List.mem_flatMap.mp mem
      simp only [List.singleton_append, List.mem_cons] at mem
      rcases mem with rfl | rfl | mem
      · decide
      · exact isLine_siteHead (names r routed)
      · exact (inner_siteLines unbroken l mem).1
  rw [sites, generate_lines, lines_unlines whole, Sections.read_skip (by decide)]
  rw [Sections.read_rows (by decide) (fun r mem => siteOf_siteHead (names r mem))
    fun r mem l inner => siteOf_inner (inner_siteLines unbroken l inner)]
  simp only [siteLines_upstream]

end Caddy

namespace Nginx

variable {s : NginxServer} {servers : List NginxServer} {routes : List UnifiedRoute}
  {domain : String}

/-- The name and the value of the directive on a line. -/
def directiveOf (line : List Char) : Option (List Char × List Char) :=
  let cs := line.dropWhile isWhitespace
  let value := (cs.dropWhile (!isWhitespace ·)).drop 1
  if ';' ∈ cs then some (cs.takeWhile (!isWhitespace ·), value.takeWhile (· ≠ ';')) else none

def directive (line : String) : Option (String × String) :=
  (directiveOf line.toList).map fun d => (String.ofList d.1, String.ofList d.2)

def serverOf (line : String) : Option Unit := if line = "server \x7b" then some () else none

/-- The directives of each server of a file. -/
def serversIn (file : String) : List (List (String × String)) :=
  (Sections.read serverOf directive (lines file)).map (·.2)

/-- The values a server has for a directive. -/
def valuesOf (name : String) (ds : List (String × String)) : List String :=
  ds.filterMap fun d => if d.1 = name then some d.2 else none

def IsDefault (ds : List (String × String)) : Prop := "8080 default_server" ∈ valuesOf "listen" ds

instance {ds : List (String × String)} : Decidable (IsDefault ds) :=
  inferInstanceAs (Decidable (_ ∈ _))

/-- The servers of a file, other than the default server. -/
def named (file : String) : List (List (String × String)) := (serversIn file).filter (¬ IsDefault ·)

def cacheLines (noCache : Bool) : List String :=
  if noCache then
    ["        add_header Cache-Control \"no-store, no-cache, must-revalidate, max-age=0\" always;",
      "        add_header Pragma \"no-cache\" always;", "        add_header Expires \"0\" always;"]
  else []

def headerLines : List String :=
  ["        proxy_set_header Host $host;", "        proxy_set_header X-Real-IP $remote_addr;",
    "        proxy_set_header X-Forwarded-For $proxy_add_x_forwarded_for;",
    "        proxy_set_header Upgrade $http_upgrade;",
    "        proxy_set_header Connection $connection_upgrade;", "    \x7d", "\x7d"]

/-- The lines of a server, after its head. -/
def serverLines (s : NginxServer) : List String :=
  "    listen 8080;" :: ("    server_name " ++ s.serverName ++ ";") :: "    location / \x7b" ::
    (cacheLines s.noCache ++
      ("        proxy_pass http://127.0.0.1:" ++ toString s.internalPort ++ ";") :: headerLines)

theorem cacheHeaders_lines (noCache : Bool) (t : String) :
    cacheHeaders noCache ++ ("\n" ++ t) = "\n" ++ (unlines (cacheLines noCache) ++ t) := by
  have lines : cacheHeaders noCache ++ "\n" = "\n" ++ unlines (cacheLines noCache) := by
    cases noCache <;> decide +kernel
  rw [← String.append_assoc, lines, String.append_assoc]

theorem serverBlock_lines : serverBlock s = unlines ("server \x7b" :: serverLines s) := by
  have listen : "\n    listen 8080;\n    server_name " =
      "\n" ++ ("    listen 8080;" ++ ("\n" ++ "    server_name ")) := by decide
  have location : ";\n    location / \x7b" = ";" ++ ("\n" ++ "    location / \x7b") := by decide
  have pass : "\n        proxy_pass http://127.0.0.1:" =
      "\n" ++ "        proxy_pass http://127.0.0.1:" := by decide
  have rest : ";\n        proxy_set_header Host $host;\n        proxy_set_header X-Real-IP $remote_addr;" ++
      ("\n        proxy_set_header X-Forwarded-For $proxy_add_x_forwarded_for;" ++
        ("\n        proxy_set_header Upgrade $http_upgrade;" ++
          ("\n        proxy_set_header Connection $connection_upgrade;\n    \x7d\n" ++ "\x7d\n"))) =
        ";" ++ ("\n" ++ unlines headerLines) := by decide +kernel
  unfold serverBlock serverBody
  simp only [-String.reduceAppend, String.append_assoc]
  rw [rest, listen, location, pass]
  simp only [-String.reduceAppend, String.append_assoc, cacheHeaders_lines]
  simp only [-String.reduceAppend, serverLines, unlines_cons, unlines_append, String.append_assoc]

def defaultLines : List String := ["    listen 8080 default_server;", "    return 404;", "\x7d"]

def noAppsLines : List String :=
  ["    listen 8080 default_server;", "    return 503 \"No apps configured\";", "\x7d"]

/-- The lines of the servers of a file, the default server last. -/
def bodies : List NginxServer → List (List String)
  | [] => [noAppsLines]
  | s :: servers => (s :: servers).map (fun s => serverLines s ++ [""]) ++ [defaultLines]

theorem servers_lines (s : NginxServer) (servers : List NginxServer) :
    "\n".intercalate ((s :: servers).map serverBlock) ++ "\n" =
      unlines ((s :: servers).flatMap fun s => "server \x7b" :: (serverLines s ++ [""])) := by
  induction servers generalizing s with
  | nil =>
    have one : "\n".intercalate ([s].map serverBlock) = serverBlock s := by simp
    rw [one, serverBlock_lines]
    simp only [-String.reduceAppend, List.flatMap_cons, List.flatMap_nil, List.append_nil,
      unlines_cons, unlines_append, unlines_nil, String.append_assoc, String.empty_append,
      String.append_empty]
  | cons t servers ih =>
    rw [List.map_cons, List.map_cons, String.intercalate_cons_cons, ← List.map_cons,
      String.append_assoc, String.append_assoc, ih, serverBlock_lines]
    simp only [-String.reduceAppend, List.flatMap_cons, unlines_cons, unlines_append, unlines_nil,
      String.append_assoc, String.empty_append, String.append_empty, List.cons_append]

theorem render_lines : render (.servers servers) =
    unlines ((bodies servers).flatMap fun ls => [] ++ "server \x7b" :: ls) := by
  cases servers with
  | nil => decide
  | cons s servers =>
    have default : defaultServer = "\n" ++ unlines ("server \x7b" :: defaultLines) := by decide
    show "\n".intercalate ((s :: servers).map serverBlock) ++ defaultServer = _
    rw [default, ← String.append_assoc, servers_lines, ← unlines_append]
    simp [bodies, List.flatMap_map]

/-! ### What the lines say -/

theorem directive_lit {cs n v : List Char} (lit : l = String.ofList cs)
    (read : directiveOf cs = some (n, v)) : directive l = some (String.ofList n, String.ofList v) := by
  rw [directive, toList_lit lit, read]
  rfl

theorem directive_none {cs : List Char} (lit : l = String.ofList cs) (read : directiveOf cs = none) :
    directive l = none := by
  rw [directive, toList_lit lit, read]
  rfl

theorem directive_eq {name value : String} {b : List Char}
    (text : l.toList = b ++ (name.toList ++ ' ' :: (value.toList ++ [';'])))
    (indent : b.all isWhitespace) (ne : name.toList ≠ [])
    (unbroken : name.toList.all (!isWhitespace ·)) (plain : ';' ∉ value.toList) :
    directive l = some (name, value) := by
  have blank : ∀ c ∈ b, isWhitespace c = true := List.all_eq_true.mp indent
  have word : ∀ c ∈ name.toList, isWhitespace c = false := by simpa using unbroken
  obtain ⟨c, cs, chars⟩ := List.exists_cons_of_ne_nil ne
  have first : isWhitespace c = false := word c (chars ▸ List.mem_cons_self)
  have trimmed : l.toList.dropWhile isWhitespace = name.toList ++ ' ' :: (value.toList ++ [';']) := by
    rw [text, List.dropWhile_append_of_pos blank, chars, List.cons_append,
      List.dropWhile_cons_of_neg (by rw [first]; exact Bool.false_ne_true)]
  have whole : ∀ c ∈ name.toList, (!isWhitespace c) = true := fun c mem => by rw [word c mem]; rfl
  have key : (name.toList ++ ' ' :: (value.toList ++ [';'])).takeWhile (!isWhitespace ·) =
      name.toList := by
    rw [List.takeWhile_append_of_pos whole, List.takeWhile_cons_of_neg (by decide), List.append_nil]
  have rest : ((name.toList ++ ' ' :: (value.toList ++ [';'])).dropWhile (!isWhitespace ·)).drop 1 =
      value.toList ++ [';'] := by
    rw [List.dropWhile_append_of_pos whole, List.dropWhile_cons_of_neg (by decide)]
    rfl
  have cut : (value.toList ++ [';']).takeWhile (· ≠ ';') = value.toList := by
    rw [List.takeWhile_append_of_pos, List.takeWhile_cons_of_neg (by decide), List.append_nil]
    intro c mem
    exact decide_eq_true fun same => plain (same ▸ mem)
  have ended : ';' ∈ name.toList ++ ' ' :: (value.toList ++ [';']) := by simp
  rw [directive, directiveOf, trimmed]
  simp only [if_pos ended, key, rest, cut, Option.map_some, String.ofList_toList]

theorem directive_name {n : String} (name : HostName n) :
    directive ("    server_name " ++ n ++ ";") = some ("server_name", n) := by
  refine directive_eq (b := [' ', ' ', ' ', ' ']) ?_ (by decide) (by decide) (by decide)
    fun mem => (name.2 _ mem).2 rfl
  rw [String.toList_append, String.toList_append, toList_lit (s := "    server_name ") rfl,
    toList_lit (s := ";") rfl, toList_lit (s := "server_name") rfl]
  simp

theorem directive_pass {port : UInt16} :
    directive ("        proxy_pass http://127.0.0.1:" ++ toString port ++ ";") =
      some ("proxy_pass", "http://127.0.0.1:" ++ toString port) := by
  refine directive_eq (b := List.replicate 8 ' ') ?_ (by decide) (by decide) (by decide) ?_
  · rw [String.toList_append, String.toList_append, String.toList_append,
      toList_lit (s := "        proxy_pass http://127.0.0.1:") rfl, toList_lit (s := ";") rfl,
      toList_lit (s := "proxy_pass") rfl, toList_lit (s := "http://127.0.0.1:") rfl]
    simp
  · rw [String.toList_append, List.mem_append, not_or, toList_lit (s := "http://127.0.0.1:") rfl]
    exact ⟨by decide, digits_ne rfl⟩

@[simp] theorem valuesOf_append {name : String} {ds ds' : List (String × String)} :
    valuesOf name (ds ++ ds') = valuesOf name ds ++ valuesOf name ds' := List.filterMap_append

/-- The directive on the line, if there is one, is this one. -/
def Only (name l : String) : Prop := ∀ d, directive l = some d → d.1 = name

theorem only_lit {name : String} {cs n v : List Char} (lit : l = String.ofList cs)
    (read : directiveOf cs = some (n, v)) (same : name = String.ofList n) : Only name l := by
  intro d here
  rw [directive_lit lit read] at here
  cases here
  exact same.symm

theorem only_none {name : String} {cs : List Char} (lit : l = String.ofList cs)
    (read : directiveOf cs = none) : Only name l := by
  intro d here
  rw [directive_none lit read] at here
  cases here

theorem cacheLines_only (noCache : Bool) : ∀ l ∈ cacheLines noCache, Only "add_header" l := by
  unfold cacheLines
  split
  · simp only [List.forall_mem_cons]
    exact ⟨only_lit rfl rfl rfl, only_lit rfl rfl rfl, only_lit rfl rfl rfl, nofun⟩
  · exact nofun

theorem headerLines_only : ∀ l ∈ headerLines, Only "proxy_set_header" l := by
  simp only [headerLines, List.forall_mem_cons]
  exact ⟨only_lit rfl rfl rfl, only_lit rfl rfl rfl, only_lit rfl rfl rfl, only_lit rfl rfl rfl,
    only_lit rfl rfl rfl, only_none rfl rfl, only_none rfl rfl, nofun⟩

theorem valuesOf_other {name other : String} (only : ∀ l ∈ ls, Only other l) (ne : other ≠ name) :
    valuesOf name (ls.filterMap directive) = [] := by
  rw [valuesOf, List.filterMap_eq_nil_iff]
  intro d mem
  obtain ⟨l, line, here⟩ := List.mem_filterMap.mp mem
  rw [only l line d here, if_neg ne]

/-- What the lines of a server say. -/
def fields (s : NginxServer) : List (String × String) := (serverLines s ++ [""]).filterMap directive

theorem valuesOf_fields {key : String} (name : HostName s.serverName) (cache : "add_header" ≠ key)
    (header : "proxy_set_header" ≠ key) :
    valuesOf key (fields s) = valuesOf key [("listen", "8080"), ("server_name", s.serverName),
      ("proxy_pass", "http://127.0.0.1:" ++ toString s.internalPort)] := by
  have listen : directive "    listen 8080;" = some ("listen", "8080") := directive_lit rfl rfl
  have location : directive "    location / \x7b" = none := directive_none rfl rfl
  have blank : [""].filterMap directive = [] := List.filterMap_cons_none (directive_none rfl rfl)
  have cached := valuesOf_other (cacheLines_only s.noCache) cache
  have sent := valuesOf_other headerLines_only header
  rw [fields, List.filterMap_append, serverLines, List.filterMap_cons_some listen,
    List.filterMap_cons_some (directive_name name), List.filterMap_cons_none location,
    List.filterMap_append, List.filterMap_cons_some directive_pass, blank, List.append_nil]
  calc
    valuesOf key (([("listen", "8080"), ("server_name", s.serverName)] ++
        ((cacheLines s.noCache).filterMap directive ++
          ([("proxy_pass", "http://127.0.0.1:" ++ toString s.internalPort)] ++
            headerLines.filterMap directive)))) =
        valuesOf key ([("listen", "8080"), ("server_name", s.serverName)] ++
          [("proxy_pass", "http://127.0.0.1:" ++ toString s.internalPort)]) := by
      simp only [valuesOf_append, cached, sent, List.nil_append, List.append_nil]
    _ = _ := rfl

theorem fields_listen (name : HostName s.serverName) : valuesOf "listen" (fields s) = ["8080"] :=
  (valuesOf_fields name (by decide) (by decide)).trans (by simp [valuesOf])

theorem fields_name (name : HostName s.serverName) :
    valuesOf "server_name" (fields s) = [s.serverName] :=
  (valuesOf_fields name (by decide) (by decide)).trans (by simp [valuesOf])

theorem fields_pass (name : HostName s.serverName) : valuesOf "proxy_pass" (fields s) =
    ["http://127.0.0.1:" ++ toString s.internalPort] :=
  (valuesOf_fields name (by decide) (by decide)).trans (by simp [valuesOf])

theorem serverOf_inner (inner : Inner l) : serverOf l = none := by
  refine if_neg ?_
  rintro rfl
  rcases inner.2 with indented | other | other
  · rw [toList_lit rfl] at indented
    exact absurd indented (by decide)
  · exact absurd other (by decide)
  · exact absurd other (by decide)

theorem isLine_semicolon : IsLine ";" := line_lit rfl (by decide)

theorem inner_name {n : String} (name : HostName n) : Inner ("    server_name " ++ n ++ ";") := by
  rw [String.append_assoc]
  exact inner_append rfl (by decide) (name.isLine.append isLine_semicolon)

theorem inner_pass {port : UInt16} :
    Inner ("        proxy_pass http://127.0.0.1:" ++ toString port ++ ";") := by
  rw [String.append_assoc]
  exact inner_append rfl (by decide) ((isLine_digits port).append isLine_semicolon)

theorem inner_cacheLines (noCache : Bool) : ∀ l ∈ cacheLines noCache, Inner l := by
  unfold cacheLines
  split
  · simp only [List.forall_mem_cons]
    exact ⟨inner_lit rfl (by decide), inner_lit rfl (by decide), inner_lit rfl (by decide), nofun⟩
  · exact nofun

theorem inner_headerLines : ∀ l ∈ headerLines, Inner l := by
  simp only [headerLines, List.forall_mem_cons]
  exact ⟨inner_lit rfl (by decide), inner_lit rfl (by decide), inner_lit rfl (by decide),
    inner_lit rfl (by decide), inner_lit rfl (by decide), inner_lit rfl (by decide), inner_close, nofun⟩

theorem inner_serverLines (name : HostName s.serverName) : ∀ l ∈ serverLines s, Inner l := by
  intro l mem
  simp only [serverLines, List.mem_cons, List.mem_append] at mem
  rcases mem with rfl | rfl | rfl | mem | rfl | mem
  · exact inner_lit rfl (by decide)
  · exact inner_name name
  · exact inner_lit rfl (by decide)
  · exact inner_cacheLines _ l mem
  · exact inner_pass
  · exact inner_headerLines l mem

theorem inner_defaultLines : ∀ l ∈ defaultLines, Inner l := by
  simp only [defaultLines, List.forall_mem_cons]
  exact ⟨inner_lit rfl (by decide), inner_lit rfl (by decide), inner_close, nofun⟩

theorem inner_noAppsLines : ∀ l ∈ noAppsLines, Inner l := by
  simp only [noAppsLines, List.forall_mem_cons]
  exact ⟨inner_lit rfl (by decide), inner_lit rfl (by decide), inner_close, nofun⟩

theorem inner_bodies (names : ∀ s ∈ servers, HostName s.serverName) :
    ∀ ls ∈ bodies servers, ∀ l ∈ ls, Inner l := by
  cases servers with
  | nil => exact List.forall_mem_singleton.mpr inner_noAppsLines
  | cons s servers =>
    intro ls mem l inner
    rcases List.mem_append.mp mem with mem | mem
    · obtain ⟨t, served, rfl⟩ := List.mem_map.mp mem
      rcases List.mem_append.mp inner with inner | blank
      · exact inner_serverLines (names t served) l inner
      · cases List.mem_singleton.mp blank
        exact inner_blank
    · cases List.mem_singleton.mp mem
      exact inner_defaultLines l inner

theorem isDefault_listen (ls : List String) :
    IsDefault (("    listen 8080 default_server;" :: ls).filterMap directive) := by
  have listen : directive "    listen 8080 default_server;" =
      some ("listen", "8080 default_server") := directive_lit rfl rfl
  rw [List.filterMap_cons_some listen, IsDefault, valuesOf]
  exact List.mem_filterMap.mpr ⟨_, List.mem_cons_self, if_pos rfl⟩

theorem filter_default {l : List (List (String × String))} {ds : List (String × String)}
    (others : ∀ x ∈ l, ¬ IsDefault x) (last : IsDefault ds) :
    (l ++ [ds]).filter (¬ IsDefault ·) = l := by
  rw [List.filter_append, List.filter_cons_of_neg (by simpa using last), List.filter_nil,
    List.append_nil, List.filter_eq_self]
  exact fun x mem => decide_eq_true (others x mem)

/-- The servers of the file, other than the default, are the ones rendered, in their order. -/
theorem named_render (names : ∀ s ∈ servers, HostName s.serverName) :
    named (render (.servers servers)) = servers.map fields := by
  have inner := inner_bodies names
  have whole : ∀ l ∈ (bodies servers).flatMap fun ls => [] ++ "server \x7b" :: ls, IsLine l := by
    intro l mem
    obtain ⟨ls, body, mem⟩ := List.mem_flatMap.mp mem
    rcases List.mem_cons.mp mem with rfl | mem
    · decide
    · exact (inner ls body l mem).1
  have read : serversIn (render (.servers servers)) =
      (bodies servers).map fun ls => ls.filterMap directive := by
    have rows := @Sections.read_rows _ _ _ _ serverOf directive (bodies servers) []
      (fun _ => "server \x7b") id (fun _ => ()) nofun (fun _ _ => if_pos rfl)
      fun ls mem l line => serverOf_inner (inner ls mem l line)
    rw [serversIn, render_lines, lines_unlines whole]
    exact (congrArg (List.map Prod.snd) rows).trans List.map_map
  rw [named, read]
  cases servers with
  | nil =>
    exact filter_default (l := []) (fun _ mem => absurd mem List.not_mem_nil)
      (isDefault_listen noAppsLines.tail)
  | cons s servers =>
    rw [bodies, List.map_append, List.map_map]
    refine (filter_default ?_ (isDefault_listen defaultLines.tail)).trans rfl
    intro ds mem
    obtain ⟨t, served, rfl⟩ := List.mem_map.mp mem
    show "8080 default_server" ∉ valuesOf "listen" (fields t)
    rw [fields_listen (names t served)]
    decide

end Nginx

/-! ### Both files -/

/-- What the sites of a name are proxied to. -/
def Caddy.proxiedAt (file name : String) : List (List String) :=
  ((sites file).filter (·.1 = name)).map (·.2)

/-- What the servers of a name pass their requests to. -/
def Nginx.proxiedAt (file name : String) : List (List String) :=
  ((named file).filter (name ∈ valuesOf "server_name" ·)).map (valuesOf "proxy_pass")

/-- A request for the route crosses both proxies. -/
def UnifiedRoute.Forwarded (r : UnifiedRoute) : Prop := r.target = "apps" ∧ r.internalPort.isSome

instance : Decidable r.Forwarded := inferInstanceAs (Decidable (_ ∧ _))

variable {routes : List UnifiedRoute} {domain : String}

/-- Where keys are distinct, a key picks one entry. -/
theorem filter_key {α : Type} {key : α → String} {l : List α} {x : α}
    (distinct : (l.map key).Nodup) (mem : x ∈ l) : l.filter (key · = key x) = [x] := by
  induction l with
  | nil => cases mem
  | cons y l ih =>
    obtain ⟨fresh, distinct⟩ := List.nodup_cons.mp distinct
    cases mem with
    | head =>
      rw [List.filter_cons_of_pos (by simp)]
      congr 1
      rw [List.filter_eq_nil_iff]
      exact fun z mem same => fresh (of_decide_eq_true same ▸ List.mem_map_of_mem mem)
    | tail _ mem =>
      have ne : key y ≠ key x := fun same => fresh (same ▸ List.mem_map_of_mem mem)
      rw [List.filter_cons_of_neg (by simpa using ne), ih distinct mem]

theorem Nginx.server_iff : (∃ s, Nginx.server domain r = some s) ↔ r.Forwarded := by
  unfold Nginx.server UnifiedRoute.Forwarded
  cases port : r.internalPort with
  | none => simp
  | some p => by_cases apps : r.target = "apps" <;> simp [apps]

theorem Nginx.names_forwarded :
    (routes.filterMap (Nginx.server domain)).map (·.serverName) =
      (routes.filter (·.Forwarded)).map (·.address domain) := by
  induction routes with
  | nil => rfl
  | cons r routes ih =>
    cases made : Nginx.server domain r with
    | none =>
      have other : ¬ r.Forwarded := fun forwarded => by
        obtain ⟨s, found⟩ := Nginx.server_iff.mpr forwarded
        rw [made] at found
        cases found
      rw [List.filterMap_cons_none made, ih, List.filter_cons_of_neg (by simpa using other)]
    | some s =>
      have forwarded : r.Forwarded := Nginx.server_iff.mp ⟨s, made⟩
      rw [List.filterMap_cons_some made, List.map_cons, ih,
        List.filter_cons_of_pos (by simpa using forwarded), List.map_cons, Nginx.server_name made]

theorem Caddy.hostPort_apps (apps : r.target = "apps") :
    Caddy.hostPort load cfg r = r.port + PortScheme.offset ⟨0, 10000⟩ (cfg.colorOf "apps") := by
  have host : ¬ r.target = "host" := by rw [apps]; decide
  have paseo : ¬ r.target = "paseo" := by rw [apps]; decide
  rw [Caddy.hostPort, if_neg host, if_neg paseo, if_pos apps]
  cases cfg.colorOf "apps" <;> rfl

section Files

variable (distinct : (cfg.routes.map (·.address cfg.domain)).Nodup)
  (names : ∀ r ∈ cfg.routes, HostName (r.address cfg.domain))

include names

theorem server_hostName {s : NginxServer}
    (mem : s ∈ cfg.routes.filterMap (Nginx.server cfg.domain)) : HostName s.serverName := by
  obtain ⟨r, routed, made⟩ := List.mem_filterMap.mp mem
  rw [Nginx.server_name made]
  exact names r routed

theorem nginx_proxiedAt (n : String) :
    Nginx.proxiedAt (Nginx.render (Nginx.generateConfig cfg.routes cfg.domain)) n =
      ((cfg.routes.filterMap (Nginx.server cfg.domain)).filter (·.serverName = n)).map
        fun s => ["http://127.0.0.1:" ++ toString s.internalPort] := by
  have named : ∀ s ∈ cfg.routes.filterMap (Nginx.server cfg.domain), HostName s.serverName :=
    fun s => server_hostName names
  rw [Nginx.proxiedAt, Nginx.generateConfig, Nginx.named_render named, List.filter_map, List.map_map]
  rw [List.filter_congr (q := fun s => s.serverName = n)]
  · refine List.map_congr_left fun s mem => ?_
    exact Nginx.fields_pass (named s (List.mem_of_mem_filter mem))
  · intro s mem
    simp [Nginx.fields_name (named s mem), eq_comm]

include distinct

theorem caddy_proxiedAt (unbroken : ∀ pair ∈ env, '\n' ∉ pair.1.toList) (mem : r ∈ cfg.routes) :
    Caddy.proxiedAt (Caddy.generateFromRoutes load env cfg) (r.address cfg.domain) =
      [["localhost:" ++ toString (Caddy.hostPort load cfg r)]] := by
  rw [Caddy.proxiedAt, Caddy.sites_generate unbroken names, List.filter_map, Function.comp_def,
    filter_key distinct mem]
  rfl

/-- The server of a forwarded route is the only one of its name. -/
theorem nginx_forwarded {p : UInt16} (mem : r ∈ cfg.routes) (apps : r.target = "apps")
    (port : r.internalPort = some p) :
    Nginx.proxiedAt (Nginx.render (Nginx.generateConfig cfg.routes cfg.domain))
      (r.address cfg.domain) = [["http://127.0.0.1:" ++ toString p]] := by
  have made : Nginx.server cfg.domain r = some
      { serverName := r.address cfg.domain, internalPort := p, noCache := r.noCache } := by
    rw [Nginx.server, port]
    simp [apps, UnifiedRoute.address, Caddy.fqdn]
  have servers : ((cfg.routes.filterMap (Nginx.server cfg.domain)).map (·.serverName)).Nodup := by
    rw [Nginx.names_forwarded]
    exact distinct.sublist (List.filter_sublist.map _)
  rw [nginx_proxiedAt names, filter_key servers (List.mem_filterMap.mpr ⟨r, mem, made⟩)]
  rfl

theorem nginx_other (mem : r ∈ cfg.routes) (other : ¬ r.Forwarded) :
    Nginx.proxiedAt (Nginx.render (Nginx.generateConfig cfg.routes cfg.domain))
      (r.address cfg.domain) = [] := by
  have none : (cfg.routes.filterMap (Nginx.server cfg.domain)).filter
      (·.serverName = r.address cfg.domain) = [] := by
    rw [List.filter_eq_nil_iff]
    intro s served same
    obtain ⟨r', routed, made⟩ := List.mem_filterMap.mp served
    rw [decide_eq_true_eq, Nginx.server_name made] at same
    have key := filter_key distinct mem
    have here : r' ∈ cfg.routes.filter (·.address cfg.domain = r.address cfg.domain) :=
      List.mem_filter.mpr ⟨routed, decide_eq_true same⟩
    rw [key, List.mem_singleton] at here
    exact other (here ▸ Nginx.server_iff.mp ⟨s, made⟩)
  rw [nginx_proxiedAt names, none, List.map_nil]

end Files

/-- The servers of Nginx are those of the sites of Caddy whose routes have the target `apps` and an
internal port, in their order; such a site leads to the container of the apps in its active color,
port 8080 for the route of an app, and the server of its name to the internal port.  The other sites
have no server. -/
theorem paths_compose {content ip : Option String}
    (distinct : (cfg.routes.map (·.address cfg.domain)).Nodup)
    (names : ∀ r ∈ cfg.routes, HostName (r.address cfg.domain)) :
    let caddy := Caddy.generateFromRoutes load (Caddy.loadEnvPairs content ip) cfg
    let nginx := Nginx.render (Nginx.generateConfig cfg.routes cfg.domain)
    let offset := PortScheme.offset ⟨0, 10000⟩ (cfg.colorOf "apps")
    (Caddy.sites caddy).map (·.1) = cfg.routes.map (·.address cfg.domain) ∧
      (Nginx.named nginx).flatMap (Nginx.valuesOf "server_name") =
        (cfg.routes.filter (·.Forwarded)).map (·.address cfg.domain) ∧
      (∀ r ∈ cfg.routes, ∀ p, r.target = "apps" → r.internalPort = some p →
        Caddy.proxiedAt caddy (r.address cfg.domain) =
            [["localhost:" ++ toString (r.port + offset)]] ∧
          Nginx.proxiedAt nginx (r.address cfg.domain) = [["http://127.0.0.1:" ++ toString p]]) ∧
      (∀ app, appRoute app ∈ cfg.routes →
        Caddy.proxiedAt caddy ((appRoute app).address cfg.domain) =
            [["localhost:" ++ toString (8080 + offset)]] ∧
          Nginx.proxiedAt nginx ((appRoute app).address cfg.domain) =
            [["http://127.0.0.1:" ++ toString app.internalPort]]) ∧
      ∀ r ∈ cfg.routes, ¬ r.Forwarded → Nginx.proxiedAt nginx (r.address cfg.domain) = [] := by
  have unbroken : ∀ pair ∈ Caddy.loadEnvPairs content ip, '\n' ∉ pair.1.toList :=
    fun _ => Caddy.loadEnvPairs_unbroken
  have both (r : UnifiedRoute) (mem : r ∈ cfg.routes) (p : UInt16) (apps : r.target = "apps")
      (port : r.internalPort = some p) :
      Caddy.proxiedAt (Caddy.generateFromRoutes load _ cfg) (r.address cfg.domain) = _ ∧ _ :=
    ⟨(caddy_proxiedAt distinct names unbroken mem).trans (by rw [Caddy.hostPort_apps apps]),
      nginx_forwarded distinct names mem apps port⟩
  refine ⟨?_, ?_, both, fun app mem => both _ mem _ rfl rfl, fun r => nginx_other distinct names⟩
  · rw [Caddy.sites_generate unbroken names, List.map_map]
    rfl
  · have named : ∀ s ∈ cfg.routes.filterMap (Nginx.server cfg.domain), HostName s.serverName :=
      fun s => server_hostName names
    rw [← Nginx.names_forwarded, Nginx.generateConfig, Nginx.named_render named, List.flatMap_map,
      List.map_eq_flatMap]
    exact List.flatMap_congr fun s served => Nginx.fields_name (named s served)

/-- An app behind green, and a route of the host beside it. -/
def greenApps : CaddyConfig where
  routes := [appRoute shortApp, { subdomain := "ci", port := 4041, target := "host" }]
  colors := [("apps", .green)]

theorem paths_compose_green :
    Caddy.proxiedAt (Caddy.generateFromRoutes (fun _ => none) (Caddy.loadEnvPairs none none) greenApps)
        "app.example.com" = [["localhost:18080"]] ∧
      Nginx.proxiedAt (Nginx.render (Nginx.generateConfig greenApps.routes "example.com"))
        "app.example.com" = [["http://127.0.0.1:3001"]] := by
  have names : ∀ r ∈ greenApps.routes, HostName (r.address greenApps.domain) := by decide
  exact (paths_compose (by decide) names).2.2.2.1 shortApp List.mem_cons_self

end Codery
