import Codery.GithubAnswers
import Codery.UrlPaths

/-! What the server of `github-app-permissions-mcp.ts` sends and asks for while it lasts. -/

namespace Codery.GithubApp

open Codery.Effect

/-- `params || {}`. -/
def callParams (params : Option Value) : Option Value :=
  if truthy params then params else some (.obj [])

/-- A property, where it can be read. -/
def property (v : Option Value) (name : String) : Option Value := (get v name).toOption.join

/-- What may be answered to a call of a tool, with what has been done for it. -/
inductive Called (rt : Runtime) (done : Record) (name args : Option Value) : Payload → Prop
  | content {shown : Shown} (tool : Tool.named name = some shown.tool)
    (shows : Shows rt done args shown) : Called rt done name args (.content shown)
  | failed {tool : Tool} {err : Thrown} (named : Tool.named name = some tool)
    (cause : Cause rt done args tool err) : Called rt done name args (.error (-32000) err)
  | unknown {s : String} (unknown : Tool.named name = none) (shown : text name = .ok s) :
    Called rt done name args (.error (-32601) (.error ("Unknown tool: " ++ s)))
  | unnamed {err : Thrown} (unknown : Tool.named name = none) (unshown : text name = .error err) :
    Called rt done name args (.error (-32000) err)

/-- What may be answered to a method and its parameters. -/
inductive Fits (rt : Runtime) (done : Record) (method params : Option Value) : Payload → Prop
  | initialized (asked : is method "initialize" = true) :
    Fits rt done method params (.initialized "2024-11-05" "github-app-permissions" "1.0.0")
  | tools (asked : is method "tools/list" = true) : Fits rt done method params (.tools Tool.all)
  | called {payload : Payload} (asked : is method "tools/call" = true)
    (called : Called rt done (property (callParams params) "name")
      (property (callParams params) "arguments") payload) : Fits rt done method params payload
  | unknownMethod {s : String} (shown : text method = .ok s)
    (unknown : ∀ known ∈ ["initialize", "notifications/initialized", "tools/list", "tools/call"],
      is method known = false) :
    Fits rt done method params (.error (-32601) (.error ("Unknown method: " ++ s)))

/-- Whether a message is to be answered: any value but null, unless its method is the notification that
goes with `initialize`, or cannot be shown. -/
def Wants (msg : Value) : Bool :=
  match get msg "method" with
  | .error _ => false
  | .ok method => !is method "notifications/initialized" && (text method).isOk

/-- What is read of a message. -/
structure Parts (msg : Value) (id method params : Option Value) : Prop where
  id : get msg "id" = .ok id
  method : get msg "method" = .ok method
  params : get msg "params" = .ok params

/-- What is sent, with what has been done for it. -/
abbrev Reply := Record × Message

/-- It has the id of the message, and an answer to it. -/
def Answers (rt : Runtime) (msg : Value) (reply : Reply) : Prop :=
  ∃ method params, Parts msg reply.2.id method params ∧
    Fits rt reply.1 method params reply.2.payload

/-- What is sent for a message: one answer, or none. -/
def Replies (rt : Runtime) (msg : Value) (sent : List Reply) : Prop :=
  if Wants msg then ∃ reply, sent = [reply] ∧ Answers rt msg reply else sent = []

/-- What has been sent, in this order. -/
def replies : Record → List Reply
  | [] => []
  | ⟨.send m, _⟩ :: h => replies h ++ [(current h, m)]
  | _ :: h => replies h

section

variable {rt : Runtime} {x x' : World × Record} {h h' : Record} {msg : Value}

/-- While `y` runs from `x` requests are authorized, and behind it the cache is in order and `Q` holds
of the result and what was sent. -/
def Processes (rt : Runtime) {α : Type} (y : Prog signature α) (x : World × Record)
    (Q : α → List Reply → Prop) : Prop :=
  Safe Recorded (Authorizes rt)
    (fun r x' => CacheSigned rt x' ∧ ∃ sent, replies x'.2 = replies x.2 ++ sent ∧ Q r sent) y x

theorem CacheSigned.step {c : Call} {r : signature.Reply c} {w : World} (cache : CacheSigned rt x)
    (same : w.cache = x.1.cache) : CacheSigned rt (w, ⟨c, r⟩ :: x.2) := by
  intro jwt held
  obtain ⟨time, signed, expires⟩ := cache jwt (same ▸ held)
  exact ⟨time, signed.mono fun e mem => .tail _ mem, expires⟩

theorem Processes.bind {α β : Type} {y : Prog signature α} {f : α → Prog signature β}
    {P : α → List Reply → Prop} {Q : β → List Reply → Prop} (first : Processes rt y x P)
    (next : ∀ a x' sent, CacheSigned rt x' → P a sent →
      Processes rt (f a) x' fun b more => Q b (sent ++ more)) : Processes rt (y >>= f) x Q := by
  refine Safe.bind first ?_
  rintro a x' ⟨cache, sent, out, holds⟩
  refine Safe.post (next a x' sent cache holds) ?_
  rintro b x'' ⟨cache, more, out', holds⟩
  exact ⟨cache, sent ++ more, by rw [out', out, List.append_assoc], holds⟩

variable {id method params : Option Value}

theorem Parts.wants (parts : Parts msg id method params) :
    Wants msg = (!is method "notifications/initialized" && (text method).isOk) := by
  rw [Wants, parts.method]

theorem Parts.replies (parts : Parts msg id method params) {done : Record} {payload : Payload}
    (shown : (text method).isOk = true) (other : is method "notifications/initialized" = false)
    (fits : Fits rt done method params payload) : Replies rt msg [(done, ⟨id, payload⟩)] := by
  have wants : Wants msg = true := by rw [parts.wants, shown, other]; rfl
  rw [Replies, if_pos wants]
  exact ⟨_, rfl, method, params, parts, fits⟩

/-- The messages that are to be answered. -/
def wanted (rt : Runtime) (raws : List (List ℕ)) : List Value := (raws.filterMap rt.parse).filter Wants

end

/-- The account that GitHub reads off a path. -/
def account (path : String) : Option String :=
  match UrlPaths.segments path with
  | kind :: name :: _ => if kind ∈ ["repos", "orgs"] then some name else none
  | _ => none

/-- What is put into the path of a request. -/
def Request.names : Request → List String
  | .installations => []
  | .accessTokens id => [id]
  | .createRepo org _ => [org]
  | .contents owner repo | .putContents owner repo _ | .dispatches owner repo _ => [owner, repo]

/-- What stands between the slashes. -/
def Request.segments : Request → List String
  | .installations => ["app", "installations"]
  | .accessTokens id => ["app", "installations", id, "access_tokens"]
  | .createRepo org _ => ["orgs", org, "repos"]
  | .contents owner repo | .putContents owner repo _ =>
    ["repos", owner, repo, "contents", "crates", "trailhead-service", "Cargo.toml"]
  | .dispatches owner repo _ =>
    ["repos", owner, repo, "actions", "workflows", "build.yml", "dispatches"]

/-- A name that is not plain may lead to another account. -/
example : account (Request.contents "acme" "../other/secret").path = some "other" := by decide

/-- A message that asks for the tools. -/
def listing : List Char := "\x7b\"id\":1,\"method\":\"tools/list\"\x7d".toList

/-- A message that calls one. -/
def calling : List Char :=
  "\x7b\"id\":2,\"method\":\"tools/call\",\"params\":\x7b\"name\":\"get_installations\"\x7d\x7d".toList

/-- A server that is sent the two. -/
def listed : Runtime where
  appId := "1"
  parse raw :=
    if raw = Utf16.units listing then some (.obj [("id", .num "1"), ("method", .str "tools/list")])
    else if raw = Utf16.units calling then
      some (.obj [("id", .num "2"), ("method", .str "tools/call"),
        ("params", .obj [("name", .str "get_installations")])])
    else none
  toLowerCase s := String.ofList (s.toList.map Char.toLower)
  numbers := .integers

theorem parse_listing : listed.parse (Utf16.units listing) =
    some (.obj [("id", .num "1"), ("method", .str "tools/list")]) := by
  simp only [listed, ↓reduceIte]

end Codery.GithubApp
