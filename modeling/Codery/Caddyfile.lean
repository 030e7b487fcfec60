import Codery.Proxies

/-! The text of the Caddyfile (`caddy.rs`) and of the file Nginx reads (`nginx.rs`), and the
parsing of `.env` that goes into them. -/

namespace Codery

/-- The lines of a text, `\r\n` and `\n` ending one; `acc` holds the line so far, reversed. -/
def linesFrom (acc : List Char) : List Char → List (List Char)
  | [] => if acc = [] then [] else [acc.reverse]
  | '\n' :: cs =>
    (match acc with
      | '\r' :: acc => acc.reverse
      | acc => acc.reverse) :: linesFrom [] cs
  | c :: cs => linesFrom (c :: acc) cs

/-- `str::lines`. -/
def lines (s : String) : List String := (linesFrom [] s.toList).map String.ofList

namespace Caddy

/-- The value of an `.env` line, without one pair of matching quotes around it. -/
def unquote (raw : String) : String :=
  let cs := raw.toList
  let quoted (q : Char) : Bool := cs.head? == some q && cs.getLast? == some q
  if 2 ≤ cs.length ∧ (quoted '"' || quoted '\'') then String.ofList cs.tail.dropLast else raw

def envPair (line : String) : Option (String × String) :=
  let cs := line.toList
  if '=' ∈ cs then
    let value := (cs.dropWhile (· ≠ '=')).tail
    some (String.ofList (cs.takeWhile (· ≠ '=')), unquote (trim (String.ofList value)))
  else none

/-- `load_env_pairs`, from what `/opt/codery/.env` and `/run/tailscale.ip` hold, if they can be
read. -/
def loadEnvPairs (env tailscaleIp : Option String) : List (String × String) :=
  match env with
  | none => []
  | some content =>
    let kept := (lines content).filter fun l => trim l ≠ "" ∧ l.toList.head? ≠ some '#'
    let pairs := kept.filterMap envPair
    if pairs.any (·.1 == "TAILSCALE_IP") then pairs
    else match tailscaleIp.map trim with
      | none => pairs
      | some ip => if ip = "" then pairs else pairs ++ [("TAILSCALE_IP", ip)]

/-- `caddy.rs` and `nginx.rs` each write this out again. -/
def fqdn (domain subdomain : String) : String := Nginx.fqdn domain subdomain

def paseoHostPort (color : Color) (containerPort : UInt16) : UInt16 :=
  let offset := match color with
    | .blue => 10000
    | .green => 20000
  containerPort + offset

/-- The port on `localhost` a route is proxied to; `load` is `ServiceDef::load`. -/
def hostPort (load : String → Option ServiceDef) (cfg : CaddyConfig) (r : UnifiedRoute) : UInt16 :=
  if r.target = "host" then r.port
  else if r.target = "paseo" then paseoHostPort (cfg.colorOf "paseo") r.port
  else if r.target = "apps" then
    let offset := match cfg.colorOf "apps" with
      | .blue => 0
      | .green => 10000
    r.port + offset
  else match load r.target with
    | some d => d.portScheme.hostPort (cfg.colorOf r.target) r.port
    | none => r.port

def cacheHeaders (noCache : Bool) : String :=
  if noCache then
    "\n    header \x7b\n        Cache-Control \"no-store, no-cache, must-revalidate, max-age=0\"" ++
      "\n        Pragma \"no-cache\"\n        Expires \"0\"\n    \x7d"
  else ""

def basicAuth (env : String) : String :=
  "    basic_auth \x7b\n        \x7b$" ++ env ++ "\x7d\n    \x7d\n"

def authDirective (authEnv : Option String) (envPresent : Option Bool) : String :=
  match authEnv, envPresent with
  | some env, some true => basicAuth env
  | _, _ => ""

/-- What stands between the braces of a site block. -/
def blockBody (port : UInt16) (noCache : Bool) (authEnv : Option String) (envPresent : Option Bool) :
    String :=
  "\n    bind \x7b$TAILSCALE_IP\x7d\n" ++ authDirective authEnv envPresent ++
    "    reverse_proxy localhost:" ++ toString port ++ cacheHeaders noCache ++ "\n"

def caddyBlock (host : String) (port : UInt16) (noCache : Bool) (authEnv : Option String)
    (envPresent : Option Bool) : String :=
  "\n" ++ host ++ " \x7b" ++ blockBody port noCache authEnv envPresent ++ "\x7d\n"

def envPresent (env : List (String × String)) (r : UnifiedRoute) : Option Bool :=
  r.authEnv.map fun e => env.any (·.1 == e)

def routeBlock (load : String → Option ServiceDef) (env : List (String × String)) (cfg : CaddyConfig)
    (r : UnifiedRoute) : String :=
  caddyBlock (fqdn cfg.domain r.subdomain) (hostPort load cfg r) r.noCache r.authEnv (envPresent env r)

def globalOptions : String := "\x7b\n    acme_dns cloudflare \x7b$CLOUDFLARE_API_TOKEN\x7d\n\x7d\n"

def generateFromRoutes (load : String → Option ServiceDef) (env : List (String × String))
    (cfg : CaddyConfig) : String :=
  cfg.routes.foldl (fun caddy r => caddy ++ routeBlock load env cfg r) globalOptions

end Caddy

namespace Nginx

def cacheHeaders (noCache : Bool) : String :=
  if noCache then
    "\n        add_header Cache-Control \"no-store, no-cache, must-revalidate, max-age=0\" always;" ++
      "\n        add_header Pragma \"no-cache\" always;\n        add_header Expires \"0\" always;"
  else ""

def serverBody (s : NginxServer) : String :=
  "\n    listen 8080;\n    server_name " ++ s.serverName ++ ";\n    location / \x7b" ++
    cacheHeaders s.noCache ++ "\n        proxy_pass http://127.0.0.1:" ++ toString s.internalPort ++
    ";\n        proxy_set_header Host $host;\n        proxy_set_header X-Real-IP $remote_addr;" ++
    "\n        proxy_set_header X-Forwarded-For $proxy_add_x_forwarded_for;" ++
    "\n        proxy_set_header Upgrade $http_upgrade;" ++
    "\n        proxy_set_header Connection $connection_upgrade;\n    \x7d\n"

def serverBlock (s : NginxServer) : String := "server \x7b" ++ serverBody s ++ "\x7d\n"

/-- The server that answers for any other name. -/
def defaultServer : String :=
  "\nserver \x7b\n    listen 8080 default_server;\n    return 404;\n\x7d\n"

def noApps : String :=
  "server \x7b\n    listen 8080 default_server;\n    return 503 \"No apps configured\";\n\x7d\n"

/-- The text `generate_and_reload` writes. -/
def render : NginxConfig → String
  | .empty => ""
  | .servers [] => noApps
  | .servers l => "\n".intercalate (l.map serverBlock) ++ defaultServer

end Nginx

end Codery
