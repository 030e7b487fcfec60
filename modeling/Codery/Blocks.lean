import Codery.Addresses
import Codery.Brackets

/-! The Caddyfile and the file of Nginx, read by brace nesting. -/

namespace Codery

open Brackets

variable {load : String → Option ServiceDef} {env : List (String × String)} {cfg : CaddyConfig}
  {r : UnifiedRoute} {port : UInt16} {e : String} {cs : List Char} {d : Nat}

def braces : Brackets Char := ⟨'{', '}', by decide⟩

/-- The characters of a literal. -/
theorem toList_lit {s : String} {l : List Char} (lit : s = String.ofList l) : s.toList = l := by
  rw [lit, String.toList_ofList]

theorem absent_lit {s : String} {l : List Char} {c : Char} (lit : s = String.ofList l)
    (absent : c ∉ l) : c ∉ s.toList := by
  rw [toList_lit lit]
  exact absent

theorem walk_lit {s : String} {l : List Char} {f : Nat} (lit : s = String.ofList l)
    (walked : braces.walk d l = some f) : braces.walk d s.toList = some f := by
  rw [toList_lit lit, walked]

theorem nested_lit {s : String} {l : List Char} (lit : s = String.ofList l)
    (nested : braces.Nested l) : braces.Nested s.toList := walk_lit lit nested

theorem walk_through {s t : String} {f g : Nat} (left : braces.walk d s.toList = some f)
    (right : braces.walk f t.toList = some g) : braces.walk d (s ++ t).toList = some g := by
  rw [String.toList_append, walk_append, left, Option.bind_some, right]

/-- The blocks of a file that is a row of blocks, with blanks behind it. -/
def topLevel (text : String) : Option (List (Block Char)) :=
  (braces.read (.outside []) text.toList).bind fun x =>
    if x.2.all isWhitespace then some x.1 else none

/-- A row of blocks is read as it was written. -/
theorem topLevel_blocks {text : String} {blocks : List (Block Char)}
    (written : text.toList = blocks.flatMap (Block.text braces) ++ ['\n'])
    (proper : ∀ b ∈ blocks, b.Proper braces) : topLevel text = some blocks := by
  unfold topLevel
  rw [written, read_blocks proper]
  · rfl
  · decide

/-- What is read has heads without braces and balanced bodies. -/
theorem read_proper_of_topLevel {text : String} {l : List (Block Char)}
    (read : topLevel text = some l) : ∀ b ∈ l, b.Proper braces := by
  obtain ⟨⟨blocks, rest⟩, whole, same⟩ := Option.bind_eq_some_iff.mp read
  split at same
  · cases same
    exact read_proper (.outside fun _ mem => absurd mem List.not_mem_nil) whole
  · cases same

/-- The directive on a line that says where to proxy to. -/
def proxyOf (line : List Char) : Option (List Char) :=
  let l := line.dropWhile isWhitespace
  if "reverse_proxy ".toList.isPrefixOf l then some (l.drop 14) else none

def proxies (body : List Char) : List (List Char) := (linesFrom [] body).filterMap proxyOf

theorem portText_digits : ∀ c ∈ (toString port).toList, c.isDigit = true := by
  intro c mem
  have text : (toString port).toList = Nat.toDigits 10 port.toNat := String.toList_ofList
  rw [text] at mem
  exact Nat.isDigit_of_mem_toDigits (by decide) (by decide) mem

theorem digits_ne {c : Char} (hc : c.isDigit = false) : c ∉ (toString port).toList := by
  intro mem
  rw [portText_digits c mem] at hc
  cases hc

theorem portText_plain : braces.Plain (toString port).toList := fun c mem =>
  ⟨fun same => digits_ne (by rw [same]; rfl) mem, fun same => digits_ne (by rw [same]; rfl) mem⟩

namespace Caddy

def optionsBody : String := "\n    acme_dns cloudflare \x7b$CLOUDFLARE_API_TOKEN\x7d\n"

/-- What stands between the braces of a route's block. -/
def siteBody (load : String → Option ServiceDef) (env : List (String × String)) (cfg : CaddyConfig)
    (r : UnifiedRoute) : String :=
  blockBody (hostPort load cfg r) r.noCache r.authEnv (envPresent env r)

/-- The addresses a block is for: Caddy takes commas and blanks between them. -/
def addresses (head : List Char) : List (List Char) :=
  words (fun c => c == ',' || isWhitespace c) head

/-- The file is the block of the global options and one block for each route: that of its FQDN, with
the body made for it, proxied to its host port and nowhere else. -/
def Reads (load : String → Option ServiceDef) (env : List (String × String)) (cfg : CaddyConfig) :
    Prop :=
  ∃ sites, topLevel (generateFromRoutes load env cfg) = some (⟨[], optionsBody.toList⟩ :: sites) ∧
    List.Forall₂ (fun r (b : Block Char) => addresses b.head = [(r.address cfg.domain).toList] ∧
      b.body = (siteBody load env cfg r).toList ∧
      proxies b.body = [("localhost:" ++ toString (hostPort load cfg r)).toList]) cfg.routes sites

/-- A name that is one address, and cannot end or begin anything else. -/
def SiteName (n : List Char) : Prop :=
  n ≠ [] ∧ braces.Plain n ∧ ∀ c ∈ n, (c == ',' || isWhitespace c) = false

/-- The name of an env variable that leaves the braces around it as they are. -/
def FitsBraces (e : String) : Prop := braces.walk 2 e.toList = some 2

/-! ### Site blocks -/

def siteBlock (load : String → Option ServiceDef) (env : List (String × String)) (cfg : CaddyConfig)
    (r : UnifiedRoute) : Block Char :=
  ⟨'\n' :: '\n' :: (r.address cfg.domain).toList ++ [' '], (siteBody load env cfg r).toList⟩

theorem routeBlock_text :
    '\n' :: (routeBlock load env cfg r).toList = (siteBlock load env cfg r).text braces ++ ['\n'] := by
  simp [routeBlock, caddyBlock, siteBlock, Block.text, siteBody, UnifiedRoute.address, braces]

/-- The blocks of the sites. -/
def siteBlocks (load : String → Option ServiceDef) (env : List (String × String)) (cfg : CaddyConfig) :
    List (Block Char) :=
  cfg.routes.map (siteBlock load env cfg)

theorem generate_text :
    (generateFromRoutes load env cfg).toList =
      (⟨[], optionsBody.toList⟩ :: siteBlocks load env cfg).flatMap (Block.text braces) ++ ['\n'] := by
  have grown (routes : List UnifiedRoute) (text : String) (s : List Char)
      (ended : text.toList = s ++ ['\n']) :
      (routes.foldl (fun caddy r => caddy ++ routeBlock load env cfg r) text).toList =
        s ++ (routes.map (siteBlock load env cfg)).flatMap (Block.text braces) ++ ['\n'] := by
    induction routes generalizing text s with
    | nil => simpa using ended
    | cons r routes ih =>
      rw [List.foldl_cons, ih (text ++ routeBlock load env cfg r)
        (s ++ (siteBlock load env cfg r).text braces)]
      · simp
      · rw [String.toList_append, ended, List.append_assoc, List.singleton_append, routeBlock_text,
          List.append_assoc]
  have options : globalOptions.toList =
      (⟨[], optionsBody.toList⟩ : Block Char).text braces ++ ['\n'] := by
    simp only [Block.text, globalOptions, optionsBody]
    rw [toList_lit rfl, toList_lit rfl]
    rfl
  rw [generateFromRoutes, grown _ _ _ options, List.flatMap_cons, siteBlocks]

/-! ### The braces of a body -/

theorem walk_bind : braces.walk d "\n    bind \x7b$TAILSCALE_IP\x7d\n".toList = some d :=
  (nested_lit rfl (by decide)).walk

theorem walk_proxy : braces.walk d "    reverse_proxy localhost:".toList = some d :=
  (nested_lit rfl (by decide)).walk

theorem walk_cacheHeaders {noCache : Bool} :
    braces.walk d (cacheHeaders noCache).toList = some d := by
  cases noCache with
  | false => rfl
  | true =>
    have nested : braces.Nested (cacheHeaders true).toList :=
      walk_through (f := 1) (walk_lit rfl (by decide)) (walk_lit rfl (by decide))
    exact nested.walk

theorem walk_open : braces.walk 0 "    basic_auth \x7b\n        \x7b$".toList = some 2 :=
  walk_lit rfl (by decide)

/-- The two braces around the name of the env variable are closed where they were opened. -/
theorem walk_close : braces.walk d "\x7d\n    \x7d\n".toList = some 0 ↔ d = 2 := by
  rw [toList_lit rfl]
  match d with
  | 0 => decide
  | 1 => decide
  | d + 2 =>
    have closed : braces.walk (2 + d) ['}', '\n', ' ', ' ', ' ', ' ', '}', '\n'] = some (0 + d) :=
      walk_deeper (by decide) d
    rw [Nat.add_comm, closed]
    simp

/-- The env variable a route's block asks a password from. -/
def authOf (env : List (String × String)) (r : UnifiedRoute) : Option String :=
  r.authEnv.filter fun e => env.any (·.1 == e)

theorem authDirective_eq :
    authDirective r.authEnv (envPresent env r) = ((authOf env r).map basicAuth).getD "" := by
  unfold envPresent authOf
  cases r.authEnv with
  | none => rfl
  | some e => cases present : env.any (·.1 == e) <;> simp [authDirective, present, Option.filter]

theorem siteBody_text : (siteBody load env cfg r).toList =
    "\n    bind \x7b$TAILSCALE_IP\x7d\n".toList ++ (((authOf env r).map basicAuth).getD "").toList ++
      "    reverse_proxy localhost:".toList ++ (toString (hostPort load cfg r)).toList ++
        (cacheHeaders r.noCache).toList ++ "\n".toList := by
  unfold siteBody blockBody
  rw [authDirective_eq]
  simp only [String.toList_append]

theorem walk_newline : braces.walk d "\n".toList = some d := walk_lit rfl rfl

theorem nested_basicAuth : braces.Nested (basicAuth e).toList ↔ FitsBraces e := by
  unfold Nested FitsBraces basicAuth
  rw [String.toList_append, String.toList_append, walk_append, walk_append, walk_open,
    Option.bind_some]
  cases braces.walk 2 e.toList with
  | none => exact ⟨nofun, nofun⟩
  | some d => rw [Option.bind_some, walk_close, Option.some_inj]

theorem nested_siteBody : braces.Nested (siteBody load env cfg r).toList ↔
    ∀ e, authOf env r = some e → FitsBraces e := by
  have inner : braces.walk 0 (siteBody load env cfg r).toList =
      braces.walk 0 (((authOf env r).map basicAuth).getD "").toList := by
    simp only [siteBody_text, walk_append, walk_bind, walk_proxy, portText_plain.walk,
      walk_cacheHeaders, walk_newline, Option.bind_some]
    cases braces.walk 0 (((authOf env r).map basicAuth).getD "").toList <;> rfl
  rw [Nested, inner, ← Nested]
  cases authOf env r with
  | none =>
    constructor
    · intro _ e asked
      cases asked
    · exact fun _ => rfl
  | some e =>
    refine nested_basicAuth.trans ⟨fun fits e' same => ?_, fun all => all e rfl⟩
    cases same
    exact fits

/-! ### The directives of a body -/

/-- A text without a line break belongs to the line it is on. -/
theorem linesFrom_append {acc : List Char} (plain : '\n' ∉ cs) (t : List Char) :
    linesFrom acc (cs ++ t) = linesFrom (cs.reverse ++ acc) t := by
  induction cs generalizing acc with
  | nil => rfl
  | cons c cs ih =>
    simp only [List.mem_cons, not_or] at plain
    rw [List.cons_append, linesFrom, ih plain.2]
    · simp
    · exact Ne.symm plain.1

/-- A line that does not end in `\r` is taken as it is. -/
theorem linesFrom_newline {acc t : List Char} (ends : acc.head? ≠ some '\r') :
    linesFrom acc ('\n' :: t) = acc.reverse :: linesFrom [] t := by
  rw [linesFrom]
  rintro acc rfl
  exact ends rfl

/-- A line is read whole, and then the others. -/
theorem linesFrom_line {t : List Char} (plain : '\n' ∉ cs) (ends : cs.getLast? ≠ some '\r') :
    linesFrom [] (cs ++ '\n' :: t) = cs :: linesFrom [] t := by
  have last : cs.reverse.head? ≠ some '\r' := by rwa [List.head?_reverse]
  rw [linesFrom_append plain, List.append_nil, linesFrom_newline last, List.reverse_reverse]

theorem proxies_bind :
    proxies ("\n    bind \x7b$TAILSCALE_IP\x7d\n".toList ++ cs) = proxies cs := by
  rw [toList_lit rfl]
  rfl

theorem proxies_basicAuth (plain : '\n' ∉ e.toList) :
    proxies ((basicAuth e).toList ++ cs) = proxies cs := by
  have line (t : List Char) :
      linesFrom [] ("    basic_auth \x7b\n        \x7b$".toList ++ e.toList ++ '\x7d' :: '\n' :: t) =
        "    basic_auth \x7b".toList :: ("        \x7b$".toList ++ e.toList ++ ['\x7d']) ::
          linesFrom [] t := by
    rw [toList_lit rfl, toList_lit rfl, toList_lit rfl]
    show _ :: linesFrom ['$', '\x7b', ' ', ' ', ' ', ' ', ' ', ' ', ' ', ' '] (e.toList ++ _) = _
    rw [linesFrom_append plain]
    show _ :: linesFrom ('\x7d' :: _) ('\n' :: t) = _
    rw [linesFrom_newline (by simp)]
    simp
  unfold basicAuth proxies
  rw [String.toList_append, String.toList_append]
  rw [show "\x7d\n    \x7d\n".toList = '\x7d' :: '\n' :: "    \x7d\n".toList by
    rw [toList_lit rfl, toList_lit rfl]]
  rw [List.append_assoc, List.cons_append, List.cons_append, line]
  rw [toList_lit rfl, toList_lit rfl, toList_lit rfl]
  rfl

theorem proxies_port :
    proxies ("    reverse_proxy localhost:".toList ++ (toString port).toList ++ '\n' :: cs) =
      ("localhost:" ++ toString port).toList :: proxies cs := by
  have unbroken : '\n' ∉ "    reverse_proxy localhost:".toList ++ (toString port).toList := by
    rw [List.mem_append, not_or, toList_lit rfl]
    exact ⟨by decide, digits_ne rfl⟩
  have ends : ("    reverse_proxy localhost:".toList ++ (toString port).toList).getLast? ≠
      some '\r' := by
    intro last
    have mem := List.mem_of_getLast? last
    rw [List.mem_append, toList_lit rfl] at mem
    cases mem with
    | inl mem => exact absurd mem (by decide)
    | inr mem => exact digits_ne rfl mem
  unfold proxies
  rw [linesFrom_line unbroken ends, String.toList_append, toList_lit rfl, toList_lit rfl]
  rfl

theorem proxies_cacheHeaders (noCache : Bool) : ∃ t,
    (cacheHeaders noCache).toList ++ "\n".toList = '\n' :: t ∧ proxies t = [] := by
  cases noCache with
  | false => exact ⟨[], toList_lit rfl, rfl⟩
  | true =>
    simp only [cacheHeaders, if_pos, String.toList_append]
    rw [toList_lit rfl, toList_lit rfl, toList_lit rfl]
    exact ⟨_, rfl, by decide⟩

/-- The body of a route proxies to its port, once. -/
theorem proxies_siteBody (plain : ∀ e, authOf env r = some e → '\n' ∉ e.toList) :
    proxies (siteBody load env cfg r).toList =
      [("localhost:" ++ toString (hostPort load cfg r)).toList] := by
  obtain ⟨t, rest, none⟩ := proxies_cacheHeaders r.noCache
  rw [siteBody_text, List.append_assoc _ (cacheHeaders r.noCache).toList, rest]
  simp only [List.append_assoc, proxies_bind]
  have port : proxies ("    reverse_proxy localhost:".toList ++
      (toString (hostPort load cfg r)).toList ++ '\n' :: t) = _ := proxies_port
  rw [none, List.append_assoc] at port
  cases asked : authOf env r with
  | none => exact port
  | some e => rw [Option.map_some, Option.getD_some, proxies_basicAuth (plain e asked), port]

/-! ### The names in `.env` -/

theorem linesFrom_unbroken {acc t l : List Char} (plain : '\n' ∉ acc) (mem : l ∈ linesFrom acc t) :
    '\n' ∉ l := by
  induction t generalizing acc with
  | nil =>
    rw [linesFrom] at mem
    split at mem
    · cases mem
    · cases List.mem_singleton.mp mem
      simpa using plain
  | cons c t ih =>
    by_cases newline : c = '\n'
    · subst newline
      have unbroken : ∃ s, linesFrom acc ('\n' :: t) = s :: linesFrom [] t ∧ '\n' ∉ s := by
        by_cases ends : acc.head? = some '\r'
        · obtain ⟨acc, rfl⟩ := List.head?_eq_some_iff.mp ends
          refine ⟨acc.reverse, rfl, ?_⟩
          simp only [List.mem_cons, not_or] at plain
          simpa using plain.2
        · exact ⟨acc.reverse, linesFrom_newline ends, by simpa using plain⟩
      obtain ⟨s, first, unbroken⟩ := unbroken
      rw [first] at mem
      cases List.mem_cons.mp mem with
      | inl same => exact same ▸ unbroken
      | inr mem => exact ih List.not_mem_nil mem
    · have later : linesFrom acc (c :: t) = linesFrom (c :: acc) t := by
        rw [linesFrom]
        exact newline
      rw [later] at mem
      refine ih ?_ mem
      simp only [List.mem_cons, not_or]
      exact ⟨Ne.symm newline, plain⟩

theorem envPair_unbroken {line : String} {pair : String × String} (plain : '\n' ∉ line.toList)
    (made : envPair line = some pair) : '\n' ∉ pair.1.toList := by
  simp only [envPair] at made
  split at made
  · cases made
    rw [String.toList_ofList]
    exact fun mem => plain (List.takeWhile_subset _ mem)
  · cases made

/-- No name in `.env` has a line break. -/
theorem loadEnvPairs_unbroken {content ip : Option String} {pair : String × String}
    (mem : pair ∈ loadEnvPairs content ip) : '\n' ∉ pair.1.toList := by
  have pairs {text : String} (mem : pair ∈ ((lines text).filter fun l => trim l ≠ "" ∧
      l.toList.head? ≠ some '#').filterMap envPair) : '\n' ∉ pair.1.toList := by
    obtain ⟨line, kept, made⟩ := List.mem_filterMap.mp mem
    obtain ⟨l, whole, same⟩ := List.mem_map.mp (List.mem_of_mem_filter kept)
    subst same
    refine envPair_unbroken ?_ made
    rw [String.toList_ofList]
    exact linesFrom_unbroken List.not_mem_nil whole
  unfold loadEnvPairs at mem
  split at mem
  · cases mem
  · simp only at mem
    split at mem
    · exact pairs mem
    · split at mem
      · exact pairs mem
      · split at mem
        · exact pairs mem
        · cases List.mem_append.mp mem with
          | inl mem => exact pairs mem
          | inr mem =>
            cases List.mem_singleton.mp mem
            exact absent_lit rfl (by decide)

theorem authOf_unbroken (unbroken : ∀ pair ∈ env, '\n' ∉ pair.1.toList)
    (asked : authOf env r = some e) : '\n' ∉ e.toList := by
  obtain ⟨_, present⟩ := Option.filter_eq_some_iff.mp asked
  obtain ⟨pair, mem, same⟩ := List.any_eq_true.mp present
  rw [← beq_iff_eq.mp same]
  exact unbroken pair mem

/-! ### The Caddyfile -/

theorem plain_siteBlock (plain : braces.Plain (r.address cfg.domain).toList) :
    braces.Plain (siteBlock load env cfg r).head := by
  have head : (siteBlock load env cfg r).head =
      ['\n', '\n'] ++ (r.address cfg.domain).toList ++ [' '] := rfl
  rw [head]
  refine (Plain.append ?_ plain).append ?_
  · decide
  · decide

theorem siteBlock_body : (siteBlock load env cfg r).body = (siteBody load env cfg r).toList := by
  rw [siteBlock]

theorem proper_siteBlock (name : SiteName (r.address cfg.domain).toList)
    (fits : ∀ e, authOf env r = some e → FitsBraces e) :
    (siteBlock load env cfg r).Proper braces := by
  refine ⟨plain_siteBlock name.2.1, ?_⟩
  rw [siteBlock_body]
  exact nested_siteBody.mpr fits

theorem addresses_siteBlock (name : SiteName (r.address cfg.domain).toList) :
    addresses (siteBlock load env cfg r).head = [(r.address cfg.domain).toList] := by
  obtain ⟨ne, _, whole⟩ := name
  unfold addresses siteBlock
  rw [List.cons_append, List.cons_append, words_sep rfl, words_sep rfl, words_first ne whole rfl]
  rfl

theorem nested_optionsBody : braces.Nested optionsBody.toList := nested_lit rfl (by decide)

theorem proper_optionsBlock : (⟨[], optionsBody.toList⟩ : Block Char).Proper braces :=
  ⟨fun _ mem => absurd mem List.not_mem_nil, nested_optionsBody⟩

theorem reads_of_names (unbroken : ∀ pair ∈ env, '\n' ∉ pair.1.toList)
    (names : ∀ r ∈ cfg.routes, SiteName (r.address cfg.domain).toList)
    (fits : ∀ r ∈ cfg.routes, ∀ e, authOf env r = some e → FitsBraces e) : Reads load env cfg := by
  refine ⟨siteBlocks load env cfg, topLevel_blocks generate_text ?_, ?_⟩
  · refine List.forall_mem_cons.mpr ⟨proper_optionsBlock, fun b mem => ?_⟩
    obtain ⟨r, routed, rfl⟩ := List.mem_map.mp mem
    exact proper_siteBlock (names r routed) (fits r routed)
  · rw [siteBlocks, List.forall₂_map_right_iff, List.forall₂_same]
    intro r mem
    refine ⟨addresses_siteBlock (names r mem), siteBlock_body, ?_⟩
    rw [siteBlock_body]
    exact proxies_siteBody fun e => authOf_unbroken unbroken

theorem Reads.route (reads : Reads load env cfg) (mem : r ∈ cfg.routes) :
    SiteName (r.address cfg.domain).toList ∧ ∀ e, authOf env r = some e → FitsBraces e := by
  obtain ⟨sites, read, each⟩ := reads
  have proper := read_proper_of_topLevel read
  obtain ⟨i, hi, rfl⟩ := List.mem_iff_getElem.mp mem
  have here := List.Forall₂.get each hi (by rw [← each.length_eq]; exact hi)
  obtain ⟨address, body, _⟩ := here
  have block := proper (sites.get ⟨i, by rw [← each.length_eq]; exact hi⟩)
    (List.mem_cons_of_mem _ (List.get_mem _ _))
  constructor
  · obtain ⟨ne, whole⟩ := mem_words (address ▸ List.mem_singleton_self _)
    exact ⟨ne, fun c mem => block.head c (whole c mem).2, fun c mem => (whole c mem).1⟩
  · have nested := block.body
    rw [body] at nested
    exact nested_siteBody.mp nested

/-! ### Distinct addresses -/

theorem heads_nodup_iff : ((siteBlocks load env cfg).map Block.head).Nodup ↔
    (cfg.routes.map (·.address cfg.domain)).Nodup := by
  have heads : (siteBlocks load env cfg).map Block.head =
      (cfg.routes.map (·.address cfg.domain)).map fun a => '\n' :: '\n' :: a.toList ++ [' '] := by
    rw [siteBlocks, List.map_map, List.map_map]
    rfl
  rw [heads]
  refine List.nodup_map_iff fun a a' same => String.toList_inj.mp ?_
  simpa using same

/-- Where the FQDNs are site names, they are the addresses that Caddy reads. -/
theorem addresses_siteBlocks (names : ∀ r ∈ cfg.routes, SiteName (r.address cfg.domain).toList) :
    (siteBlocks load env cfg).flatMap (fun b => addresses b.head) =
      cfg.routes.map fun r => (r.address cfg.domain).toList := by
  rw [siteBlocks, List.flatMap_map, ← List.flatMap_pure_eq_map]
  exact List.flatMap_congr fun r mem => addresses_siteBlock (names r mem)

end Caddy

variable {defs : List ServiceDef} {statics : List StaticRoute} {apps : List AppRecord}
  {previews : List PreviewRecord}

/-- The blocks of the sites have distinct heads, and the servers distinct names, exactly when no
subdomain is claimed both in short and in full.  A head counts as the one address it is written as,
also where there are commas or blanks in the subdomain. -/
theorem addresses_nodup_iff :
    (((Caddy.siteBlocks load env
          { cfg with routes := buildRouteMap defs statics apps previews }).map Block.head).Nodup ∧
        (Nginx.generateConfig (buildRouteMap defs statics apps previews)
          cfg.domain).serverNames.Nodup) ↔
      ∀ k, ¬ Respelled defs statics apps previews cfg.domain k := by
  rw [Caddy.heads_nodup_iff, ← caddyAddresses_nodup_iff]
  exact ⟨And.left, fun nodup => ⟨nodup, nodup.sublist serverNames_sublist⟩⟩

/-- The table takes both rows, and both get the site `app.example.com`. -/
theorem addresses_repeated :
    (migratedApps.insert shortApp).2.insert fullApp =
        (.ok (), { migratedApps with rows := [shortApp, fullApp] }) ∧
      ¬ (((Caddy.siteBlocks (fun _ => none) []
            { routes := buildRouteMap [] [] [shortApp, fullApp] [] }).map Block.head).Nodup ∧
        (Nginx.generateConfig (buildRouteMap [] [] [shortApp, fullApp] [])
          "example.com").serverNames.Nodup) := by
  decide

end Codery
