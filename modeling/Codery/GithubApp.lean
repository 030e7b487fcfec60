import Codery.Base64
import Codery.Effect.Safety
import Codery.StdioLoop

/-! The tools of `github-app-permissions-mcp.ts`: what they ask of GitHub for a message, and what they
answer. -/

namespace Codery.GithubApp

open Codery.Effect

/-- A value as `JSON.parse` makes it, a number as it is shown. -/
inductive Value
  | null
  | bool (b : Bool)
  | num (shown : String)
  | str (s : String)
  | arr (items : List Value)
  | obj (fields : List (String × Value))

/-- What is thrown: an error of the script, or one of the engine in its own words. -/
inductive Thrown
  | error (message : String)
  | engine
  deriving DecidableEq

abbrev Js (α : Type) := Except Thrown α

mutual

/-- `ToString`.  A property `toString` of an object hides the method, and is none itself. -/
def Value.text : Value → Js String
  | .null => .ok "null"
  | .bool b => .ok (if b then "true" else "false")
  | .num shown => .ok shown
  | .str s => .ok s
  | .arr items => do return ",".intercalate (← Value.texts items)
  | .obj fields => if fields.any (·.1 == "toString") then .error .engine else .ok "[object Object]"

/-- The items as `join` takes them. -/
def Value.texts : List Value → Js (List String)
  | [] => .ok []
  | .null :: vs => do return "" :: (← Value.texts vs)
  | v :: vs => do return (← v.text) :: (← Value.texts vs)

end

/-! Where there is no value it is undefined. -/

def text (v : Option Value) : Js String := v.elim (.ok "undefined") Value.text

def truthy : Option Value → Bool
  | none | some .null => false
  | some (.bool b) => b
  | some (.num shown) => shown != "0"
  | some (.str s) => s != ""
  | some (.arr _) | some (.obj _) => true

/-- `v.name`, for a name that no value has of itself. -/
def get (v : Option Value) (name : String) : Js (Option Value) :=
  match v with
  | none | some .null => .error .engine
  | some (.obj fields) => .ok (fields.lookup name)
  | some _ => .ok none

/-- `v === s`. -/
def is (v : Option Value) (s : String) : Bool :=
  match v with
  | some (.str t) => t == s
  | _ => false

/-- `v != null`. -/
def present : Option Value → Bool
  | none | some .null => false
  | some _ => true

/-- The number type, in which integers are exact up to `2 ^ 53`. -/
structure Numbers where
  Num : Type
  /-- The number nearest to `n`. -/
  ofNat : ℕ → Num
  next : Num → Num
  shown : Num → String
  next_exact : ∀ n < 2 ^ 53, next (ofNat n) = ofNat (n + 1)
  shown_exact : ∀ n ≤ 2 ^ 53, shown (ofNat n) = toString n

/-- The integers, which are the numbers as long as they are small. -/
def Numbers.integers : Numbers where
  Num := ℕ
  ofNat n := n
  next n := n + 1
  shown n := toString n
  next_exact _ _ := rfl
  shown_exact _ _ := rfl

/-- What the script has of its process and of the engine. -/
structure Runtime where
  appId : String
  parse : List ℕ → Option Value
  toLowerCase : String → String
  numbers : Numbers

/-! ### Calls -/

structure Claims where
  iat : ℤ
  exp : ℤ
  iss : String
  deriving DecidableEq

structure Jwt where
  token : String
  expiresAt : ℤ
  deriving DecidableEq

/-- How `openssl` ends. -/
inductive Signing
  | signed (jwt : String)
  | exited (stderr : String)
  | failed
  deriving DecidableEq

structure RepoBody where
  name : Option Value
  priv : Option Value
  description : Option Value
  autoInit : Option Value

structure CommitBody where
  message : String
  content : List Char
  sha : Option Value
  branch : String := "main"

inductive Request
  | installations
  | accessTokens (id : String)
  | createRepo (org : String) (body : RepoBody)
  | contents (owner repo : String)
  | putContents (owner repo : String) (body : CommitBody)
  | dispatches (owner repo : String) (ref : String)

def filePath : String := "crates/trailhead-service/Cargo.toml"

def Request.path : Request → String
  | .installations => "/app/installations"
  | .accessTokens id => "/app/installations/" ++ id ++ "/access_tokens"
  | .createRepo org _ => "/orgs/" ++ org ++ "/repos"
  | .contents owner repo | .putContents owner repo _ =>
    "/repos/" ++ owner ++ "/" ++ repo ++ "/contents/" ++ filePath
  | .dispatches owner repo _ =>
    "/repos/" ++ owner ++ "/" ++ repo ++ "/actions/workflows/build.yml/dispatches"

/-- What comes of `fetch`.  The body of a success need not be JSON. -/
inductive Response
  | failed
  | refused (status : ℕ) (statusText body : String)
  | ok (json : Option Value)

structure Installation where
  id : Option Value
  login : Option Value
  type : Option Value
  permissions : Option Value
  events : Option Value
  repositorySelection : Option Value
  suspended : Bool
  suspendedAt : Option Value
  createdAt : Option Value
  updatedAt : Option Value

/-- A property of an object: one of its own, or one that every object has. -/
inductive Property
  | own (v : Option Value)
  | inherited

structure Permission where
  account : Option Value
  permission : Option Value
  /-- Nothing where there is an installation. -/
  found : Option Bool := none
  hasPermission : Bool
  level : Property
  error : Option String := none
  /-- Whether there is the note that the permission exists. -/
  noted : Bool := false

structure Token where
  token : Option Value
  expiresAt : Option Value
  account : Option Value
  installationId : Option Value

structure Repo where
  fullName : Option Value
  htmlUrl : Option Value
  cloneUrl : Option Value
  sshUrl : Option Value
  created : Bool := true

structure Release where
  oldVersion : String
  newVersion : String
  commitSha : Option Value
  triggered : Bool := true

inductive Tool
  | getInstallations
  | getInstallation
  | checkPermission
  | generateToken
  | createRepo
  | cutRelease
  deriving DecidableEq

/-- What the text of an answer shows. -/
inductive Shown
  | installations (all : List Installation)
  | installation (inst : Option Installation)
  | permission (p : Permission)
  | token (t : Token)
  | repo (r : Repo)
  | release (r : Release)

def Shown.tool : Shown → Tool
  | .installations _ => .getInstallations
  | .installation _ => .getInstallation
  | .permission _ => .checkPermission
  | .token _ => .generateToken
  | .repo _ => .createRepo
  | .release _ => .cutRelease

inductive Payload
  | initialized (protocolVersion name version : String)
  | tools (all : List Tool)
  | content (shown : Shown)
  | error (code : ℤ) (message : Thrown)

structure Message where
  id : Option Value
  payload : Payload

inductive Call
  | now
  | readCache
  | writeCache (jwt : Jwt)
  | openssl (claims : Claims)
  | fetch (request : Request) (authorization : String)
  | send (message : Message)
  | log (err : Thrown)

def signature : Signature where
  Call := Call
  Reply
    | .now => ℤ
    | .readCache => Option Jwt
    | .writeCache _ => Unit
    | .openssl _ => Signing
    | .fetch _ _ => Response
    | .send _ => Unit
    | .log _ => Unit

abbrev Async (α : Type) := ExceptT Thrown (Prog signature) α

def call (c : Call) : Async (signature.Reply c) := ExceptT.lift (ask (S := signature) c)

def ofExcept (x : Js α) : Async α := ExceptT.mk (.ret x)

/-- Run `x`, and go on with what it returns or throws. -/
def attempt (x : Async α) : Async (Js α) := ExceptT.lift x.run

/-! ### Requests -/

def generateJWT (rt : Runtime) : Async String := do
  let now : ℤ ← call .now
  let cache : Option Jwt ← call .readCache
  match cache.filter fun jwt => now + 60 < jwt.expiresAt with
  | some jwt => return jwt.token
  | none =>
    match ← call (.openssl { iat := now - 60, exp := now + 540, iss := rt.appId }) with
    | .failed => throw .engine
    | .exited stderr => throw (.error ("openssl failed: " ++ stderr))
    | .signed jwt => do
      call (.writeCache { token := jwt, expiresAt := now + 480 })
      return jwt

/-- `slice(0, n)`, without a surrogate whose pair is cut. -/
def slice : ℕ → List Char → List Char
  | _, [] => []
  | n, c :: cs =>
    let size := (Utf16.unitsOf c).length
    if size ≤ n then c :: slice (n - size) cs else []

/-- What is said of a refused request. -/
def Request.refusal (request : Request) (status : ℕ) (statusText body : String) : String :=
  "GitHub API " ++ request.path ++ ": " ++ toString status ++ " " ++ statusText ++ " — " ++
    String.ofList (slice 200 body.toList)

/-- What `githubAPI` makes of the response. -/
def fetchJson (request : Request) (authToken : String) : Async Value := do
  match ← call (.fetch request authToken) with
  | .failed => throw .engine
  | .refused status statusText body =>
    throw (.error (request.refusal status statusText body))
  | .ok none => throw .engine
  | .ok (some json) => return json

def githubAPI (rt : Runtime) (request : Request) (token : Option Value := none) : Async Value := do
  let authToken ← if truthy token then ofExcept (text token) else generateJWT rt
  fetchJson request authToken

def readInstallation (inst : Value) : Js Installation := do
  let id ← get inst "id"
  let account ← get inst "account"
  let events ← get inst "events"
  let suspendedAt ← get inst "suspended_at"
  return {
    id
    login := ← get account "login"
    type := ← get account "type"
    permissions := ← get inst "permissions"
    events := if truthy events then events else some (.arr [])
    repositorySelection := ← get inst "repository_selection"
    suspended := present suspendedAt
    suspendedAt
    createdAt := ← get inst "created_at"
    updatedAt := ← get inst "updated_at" }

def readInstallations : Value → Js (List Installation)
  | .arr data => data.mapM readInstallation
  | _ => .error .engine

def getInstallations (rt : Runtime) : Async (List Installation) := do
  let data ← githubAPI rt .installations
  ofExcept (readInstallations data)

/-- `v.toLowerCase()`. -/
def lower (rt : Runtime) : Option Value → Js String
  | some (.str s) => .ok (rt.toLowerCase s)
  | _ => .error .engine

def findInstallation (rt : Runtime) (accountName : Option Value) :
    List Installation → Js (Option Installation)
  | [] => .ok none
  | inst :: rest => do
    let login ← lower rt inst.login
    if login = (← lower rt accountName) then return some inst
    else findInstallation rt accountName rest

def getInstallation (rt : Runtime) (accountName : Option Value) : Async (Option Installation) := do
  let all ← getInstallations rt
  ofExcept (findInstallation rt accountName all)

/-- What every object has. -/
def inherited : List String :=
  ["constructor", "__defineGetter__", "__defineSetter__", "hasOwnProperty", "__lookupGetter__",
    "__lookupSetter__", "isPrototypeOf", "propertyIsEnumerable", "toString", "valueOf",
    "__proto__", "toLocaleString"]

/-- `permissions[permission]`.  GitHub gives an object. -/
def level (permissions permission : Option Value) : Js Property := do
  if !present permissions then .error .engine
  else
    let name ← text permission
    match permissions with
    | some (.obj fields) =>
      match fields.lookup name with
      | some v => return .own (some v)
      | none => return if name ∈ inherited then .inherited else .own none
    | _ => return .own none

def Property.present : Property → Bool
  | .own v => GithubApp.present v
  | .inherited => true

/-- `level || null`. -/
def Property.orNull : Property → Property
  | .own v => .own (if truthy v then v else some .null)
  | .inherited => .inherited

def noInstallation (what : String) (account : Option Value) : Js String := do
  return "No installation found for " ++ what ++ " '" ++ (← text account) ++ "'"

def checkPermission (rt : Runtime) (account permission : Option Value) : Async Permission := do
  match ← getInstallation rt account with
  | none => do
    let error ← ofExcept (noInstallation "account" account)
    return { account, permission, found := some false, hasPermission := false,
             level := .own (some .null), error := some error }
  | some inst => do
    let level ← ofExcept (level inst.permissions permission)
    return { account := inst.login, permission, hasPermission := level.present,
             level := level.orNull, noted := level.present }

/-- The token of an installation. -/
def accessToken (rt : Runtime) (inst : Installation) : Async Value := do
  let _ ← generateJWT rt
  let id ← ofExcept (text inst.id)
  githubAPI rt (.accessTokens id)

def requireInstallation (rt : Runtime) (what : String) (account : Option Value) :
    Async Installation := do
  match ← getInstallation rt account with
  | none => do
    let message ← ofExcept (noInstallation what account)
    throw (.error message)
  | some inst => return inst

def generateInstallationToken (rt : Runtime) (account : Option Value) : Async Token := do
  let inst ← requireInstallation rt "account" account
  let data ← accessToken rt inst
  return {
    token := ← ofExcept (get data "token")
    expiresAt := ← ofExcept (get data "expires_at")
    account := inst.login
    installationId := inst.id }

/-- `v ?? false`. -/
def orFalse (v : Option Value) : Option Value := if present v then v else some (.bool false)

def createRepo (rt : Runtime) (org name priv description autoInit : Option Value) : Async Repo := do
  let inst ← requireInstallation rt "org" org
  let tokenData ← accessToken rt inst
  let orgName ← ofExcept (text org)
  let token ← ofExcept (get tokenData "token")
  let repo ← githubAPI rt
    (.createRepo orgName { name, priv := orFalse priv, description, autoInit := orFalse autoInit })
    token
  return {
    fullName := ← ofExcept (get repo "full_name")
    htmlUrl := ← ofExcept (get repo "html_url")
    cloneUrl := ← ofExcept (get repo "clone_url")
    sshUrl := ← ofExcept (get repo "ssh_url") }

/-! ### Releases -/

/-- A text with a version in it: what is before and behind it, and its digits. -/
structure Versioned where
  before : List Char
  major : List Char
  minor : List Char
  patch : List Char
  after : List Char
  deriving DecidableEq

def number (cs : List Char) : Option (List Char × List Char) :=
  if cs.takeWhile Char.isDigit = [] then none
  else some (cs.takeWhile Char.isDigit, cs.dropWhile Char.isDigit)

def versionKey : List Char := "version = \"".toList

/-- `version = "(\d+)\.(\d+)\.(\d+)"` at the beginning, with nothing before it. -/
def versionAt (cs : List Char) : Option Versioned := do
  let (major, cs) ← number (← cs.dropPrefix? versionKey)
  let (minor, cs) ← number (← cs.dropPrefix? ['.'])
  let (patch, cs) ← number (← cs.dropPrefix? ['.'])
  let after ← cs.dropPrefix? ['"']
  return { before := [], major, minor, patch, after }

def isLineEnd (c : Char) : Bool :=
  c == '\n' || c == '\r' || c == Char.ofNat 0x2028 || c == Char.ofNat 0x2029

/-- The first match of `^version = "(\d+)\.(\d+)\.(\d+)"` with the flag `m`.  `start` is whether a
line begins here. -/
def findVersion : Bool → List Char → Option Versioned
  | _, [] => none
  | start, c :: cs =>
    (if start then versionAt (c :: cs) else none).or
      ((findVersion (isLineEnd c) cs).map fun v => { v with before := c :: v.before })

structure Version (N : Type) where
  major : N
  minor : N
  patch : N
  deriving DecidableEq

def Versioned.version (ns : Numbers) (v : Versioned) : Version ns.Num where
  major := ns.ofNat (Nat.ofDigitChars 10 v.major 0)
  minor := ns.ofNat (Nat.ofDigitChars 10 v.minor 0)
  patch := ns.ofNat (Nat.ofDigitChars 10 v.patch 0)

def Version.shown (ns : Numbers) (v : Version ns.Num) : String :=
  ns.shown v.major ++ "." ++ ns.shown v.minor ++ "." ++ ns.shown v.patch

def Version.bump (ns : Numbers) (v : Version ns.Num) (bump : Option Value) :
    Js (Version ns.Num) :=
  if is bump "major" then
    .ok { major := ns.next v.major, minor := ns.ofNat 0, patch := ns.ofNat 0 }
  else if is bump "minor" then .ok { v with minor := ns.next v.minor, patch := ns.ofNat 0 }
  else if is bump "patch" then .ok { v with patch := ns.next v.patch }
  else do
    .error (.error ("Unknown bump type: " ++ (← text bump) ++ ". Must be major, minor, or patch"))

/-- `content.replace`, with the version in the place of the first one. -/
def Versioned.replaced (v : Versioned) (version : String) : List Char :=
  v.before ++ versionKey ++ version.toList ++ '"' :: v.after

/-- The text of a file that GitHub gives in base64, in lines. -/
def readContent (fileData : Value) : Js (List Char) := do
  match ← get fileData "content" with
  | some (.str s) => return Utf8.lossy (Base64.decode (s.toList.filter (· ≠ '\n')))
  | _ => .error .engine

def cutRelease (rt : Runtime) (account repo bump message : Option Value) : Async Release := do
  let token ← generateInstallationToken rt account
  let owner ← ofExcept (text account)
  let repo ← ofExcept (text repo)
  let fileData ← githubAPI rt (.contents owner repo) token.token
  let content ← ofExcept (readContent fileData)
  let sha ← ofExcept (get fileData "sha")
  match findVersion true content with
  | none => throw (.error "Could not find version = \"X.Y.Z\" in Cargo.toml")
  | some found => do
    let old := found.version rt.numbers
    let new ← ofExcept (old.bump rt.numbers bump)
    let oldVersion := old.shown rt.numbers
    let newVersion := new.shown rt.numbers
    let message ← ofExcept (text message)
    let updateData ← githubAPI rt
      (.putContents owner repo
        { message := message ++ "\n\nBumps version " ++ oldVersion ++ " → " ++ newVersion
          content := Base64.encode (Utf8.encode (found.replaced newVersion))
          sha })
      token.token
    let commit ← ofExcept (get updateData "commit")
    let commitSha ← ofExcept (get commit "sha")
    let _ ← githubAPI rt (.dispatches owner repo "main") token.token
    return { oldVersion, newVersion, commitSha }

/-! ### Messages -/

def Tool.all : List Tool :=
  [.getInstallations, .getInstallation, .checkPermission, .generateToken, .createRepo, .cutRelease]

def Tool.name : Tool → String
  | .getInstallations => "get_installations"
  | .getInstallation => "get_installation"
  | .checkPermission => "check_permission"
  | .generateToken => "generate_token"
  | .createRepo => "create_repo"
  | .cutRelease => "cut_release"

/-- The case of the `switch`. -/
def Tool.named (name : Option Value) : Option Tool := Tool.all.find? fun t => is name t.name

def Tool.run (rt : Runtime) (args : Option Value) : Tool → Async Shown
  | .getInstallations => .installations <$> GithubApp.getInstallations rt
  | .getInstallation => do
    let account ← ofExcept (get args "account")
    return .installation (← GithubApp.getInstallation rt account)
  | .checkPermission => do
    let account ← ofExcept (get args "account")
    let permission ← ofExcept (get args "permission")
    return .permission (← GithubApp.checkPermission rt account permission)
  | .generateToken => do
    let account ← ofExcept (get args "account")
    return .token (← generateInstallationToken rt account)
  | .createRepo => do
    let org ← ofExcept (get args "org")
    let name ← ofExcept (get args "name")
    let priv ← ofExcept (get args "private")
    let description ← ofExcept (get args "description")
    let autoInit ← ofExcept (get args "auto_init")
    return .repo (← GithubApp.createRepo rt org name priv description autoInit)
  | .cutRelease => do
    let account ← ofExcept (get args "account")
    let repo ← ofExcept (get args "repo")
    let bump ← ofExcept (get args "bump")
    let message ← ofExcept (get args "message")
    return .release (← GithubApp.cutRelease rt account repo bump message)

/-- What is in the `try`. -/
def callTool (rt : Runtime) (id name args : Option Value) : Async Unit := do
  match Tool.named name with
  | none => do
    let name ← ofExcept (text name)
    call (.send ⟨id, .error (-32601) (.error ("Unknown tool: " ++ name))⟩)
  | some tool => do
    let result ← tool.run rt args
    call (.send ⟨id, .content result⟩)

def handleMessage (rt : Runtime) (msg : Value) : Async Unit := do
  let id ← ofExcept (get msg "id")
  let method ← ofExcept (get msg "method")
  let params ← ofExcept (get msg "params")
  if is method "initialize" then
    call (.send ⟨id, .initialized "2024-11-05" "github-app-permissions" "1.0.0"⟩)
  else if is method "notifications/initialized" then return
  else if is method "tools/list" then call (.send ⟨id, .tools Tool.all⟩)
  else if is method "tools/call" then do
    let params := if truthy params then params else some (.obj [])
    let name ← ofExcept (get params "name")
    let args ← ofExcept (get params "arguments")
    match ← attempt (callTool rt id name args) with
    | .ok _ => return
    | .error err => call (.send ⟨id, .error (-32000) err⟩)
  else do
    let method ← ofExcept (text method)
    call (.send ⟨id, .error (-32601) (.error ("Unknown method: " ++ method))⟩)

def processMessage (rt : Runtime) (raw : List ℕ) : Prog signature Unit := do
  match rt.parse raw with
  | none => ask (S := signature) (.log .engine)
  | some msg =>
    match ← (handleMessage rt msg).run with
    | .ok _ => return
    | .error err => ask (S := signature) (.log err)

def serve (rt : Runtime) : List (List ℕ) → Prog signature Unit
  | [] => return
  | raw :: raws => do
    processMessage rt raw
    serve rt raws

/-- `main`, up to the end of its input. -/
def main (rt : Runtime) (chunks : List (List UInt8)) : Prog signature Unit :=
  if rt.appId = "" then return else serve rt (Stdio.received chunks)

/-! ### Its world -/

structure World where
  cache : Option Jwt := none
  out : List Message := []

/-- What the clock, `openssl` and GitHub give, whichever is asked. -/
structure Choice where
  now : ℤ := 0
  signing : Signing := .failed
  response : Response := .failed

def answer (c : Call) (o : Choice) (w : World) : Option (signature.Reply c × World) :=
  match c with
  | .now => some (o.now, w)
  | .readCache => some (w.cache, w)
  | .writeCache jwt => some ((), { w with cache := some jwt })
  | .openssl _ => some (o.signing, w)
  | .fetch _ _ => some (o.response, w)
  | .send message => some ((), { w with out := w.out ++ [message] })
  | .log _ => some ((), w)

/-- Whatever GitHub answers, and whenever. -/
abbrev H : StepRel signature World := handler answer fun _ _ => true

section Rules

variable {W α β : Type} {H I : StepRel signature W} {Q : Js β → W → Prop} {w : W}

theorem safe_call {c : Call} {f : signature.Reply c → Async β}
    (next : ∀ r w', H c w r w' → I c w r w' ∧ Safe H I Q (f r).run w') :
    Safe H I Q (call c >>= f).run w := fun r w' step => next r w' step

theorem safe_ofExcept {x : Js α} {f : α → Async β} (ok : ∀ a, x = .ok a → Safe H I Q (f a).run w)
    (error : ∀ e, x = .error e → Q (.error e) w) : Safe H I Q (ofExcept x >>= f).run w := by
  cases x with
  | ok a => exact ok a rfl
  | error e => exact error e rfl

theorem safe_ite {p : Prop} [Decidable p] {y z : Async β} (yes : p → Safe H I Q y.run w)
    (no : ¬ p → Safe H I Q z.run w) : Safe H I Q (if p then y else z).run w := by
  split
  case isTrue holds => exact yes holds
  case isFalse fails => exact no fails

end Rules

end Codery.GithubApp
