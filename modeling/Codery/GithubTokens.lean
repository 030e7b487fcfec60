import Codery.Effect.History
import Codery.GithubApp

/-! Which token goes with a request: a JWT of the app that is still good, or the token of the
installation whose account the request names. -/

namespace Codery.GithubApp

open Codery.Effect

abbrev Record := History signature

abbrev Recorded : StepRel signature (World × Record) := recorded H

/-- A call that ends the processing of a message. -/
def answers : Call → Bool
  | .send _ | .log _ => true
  | _ => false

def Call.writes : Call → Bool
  | .writeCache _ | .send _ => true
  | _ => false

def Call.asks : Call → Bool
  | .fetch _ _ => true
  | _ => false

/-- What has been done for the message in hand. -/
abbrev current (h : Record) : Record := since answers h

/-- The time, as it was read last. -/
def lastNow : Record → Option ℤ
  | [] => none
  | ⟨.now, n⟩ :: _ => some n
  | _ :: h => lastNow h

/-- `openssl` has signed the token for the ten minutes around `time`. -/
def Signed (rt : Runtime) (h : Record) (token : String) (time : ℤ) : Prop :=
  ⟨.now, time⟩ ∈ h ∧
    ⟨.openssl { iat := time - 60, exp := time + 540, iss := rt.appId }, .signed token⟩ ∈ h

/-- A token that was signed, and that is good for more than two minutes from the last reading of the
clock on. -/
def Valid (rt : Runtime) (h : Record) (token : String) : Prop :=
  ∃ time now, Signed rt h token time ∧ lastNow h = some now ∧ now + 120 < time + 540

/-- The account a request names, where it is not about the app. -/
def Request.owner : Request → Option String
  | .installations | .accessTokens _ => none
  | .createRepo org _ => some org
  | .contents owner _ | .putContents owner _ _ | .dispatches owner _ _ => some owner

/-- GitHub has answered the request. -/
def Given (h : Record) (request : Request) (json : Value) : Prop :=
  ∃ authorization, ⟨.fetch request authorization, .ok (some json)⟩ ∈ h

/-- The installations that GitHub has listed. -/
def Listing (h : Record) (all : List Installation) : Prop :=
  ∃ list, Given h .installations list ∧ readInstallations list = .ok all

/-- The owner is the account of the installation, up to case. -/
def Owns (rt : Runtime) (owner : Option Value) (inst : Installation) : Prop :=
  ∃ login name, inst.login = some (.str login) ∧ owner = some (.str name) ∧
    rt.toLowerCase login = rt.toLowerCase name

/-- `inst` is the owner's, in the list that GitHub gave. -/
def Listed (rt : Runtime) (h : Record) (owner : Option Value) (inst : Installation) : Prop :=
  ∃ all, Listing h all ∧ inst ∈ all ∧ Owns rt owner inst

/-- GitHub gave `data` for an access token of `inst`. -/
def Issued (h : Record) (inst : Installation) (data : Value) : Prop :=
  ∃ id, text inst.id = .ok id ∧ Given h (.accessTokens id) data

/-- A request about the app comes with a JWT, one about an account with the token that was issued for
this message to the installation of that account, or with a JWT where GitHub gave none. -/
def Authorized (rt : Runtime) (h : Record) (account : Option String) (authorization : String) : Prop :=
  match account with
  | none => Valid rt h authorization
  | some owner =>
    ∃ inst data token, Listed rt (current h) (some (.str owner)) inst ∧ Issued (current h) inst data ∧
      get data "token" = .ok token ∧
      if truthy token then text token = .ok authorization else Valid rt h authorization

/-- Every request that is made is authorized for the account it names. -/
def Authorizes (rt : Runtime) : StepRel signature (World × Record) :=
  fun c x _ _ => ∀ request authorization, c = .fetch request authorization →
    Authorized rt x.2 request.owner authorization

section

variable {rt : Runtime} {h h' : Record} {token : String} {time : ℤ} {x x' : World × Record}
  {inst : Installation} {data : Value} {owner : Option Value} {all : List Installation}

theorem Signed.mono (signed : Signed rt h token time) (sub : ∀ e ∈ h, e ∈ h') :
    Signed rt h' token time := ⟨sub _ signed.1, sub _ signed.2⟩

theorem Given.mono {request : Request} (given : Given h request data) (sub : h ⊆ h') :
    Given h' request data := by
  obtain ⟨authorization, mem⟩ := given
  exact ⟨authorization, sub mem⟩

theorem Listing.mono (listing : Listing h all) (sub : h ⊆ h') : Listing h' all := by
  obtain ⟨list, given, read⟩ := listing
  exact ⟨list, given.mono sub, read⟩

theorem Listed.mono (listed : Listed rt h owner inst) (sub : h ⊆ h') : Listed rt h' owner inst := by
  obtain ⟨all, listing, rest⟩ := listed
  exact ⟨all, listing.mono sub, rest⟩

theorem Listed.named (listed : Listed rt h owner inst) : ∃ name, owner = some (.str name) := by
  obtain ⟨-, -, -, -, name, -, same, -⟩ := listed
  exact ⟨name, same⟩

theorem Issued.mono (issued : Issued h inst data) (sub : h ⊆ h') : Issued h' inst data := by
  obtain ⟨id, same, given⟩ := issued
  exact ⟨id, same, given.mono sub⟩

/-- What the cache holds was signed, and is held for a minute less than it is good. -/
def CacheSigned (rt : Runtime) (x : World × Record) : Prop :=
  ∀ jwt, x.1.cache = some jwt → ∃ time, Signed rt x.2 jwt.token time ∧ jwt.expiresAt = time + 480

/-- The run goes on from `x` to `x'` with the same message, nothing is sent, and the cache is in
order. -/
structure Goes (rt : Runtime) (x x' : World × Record) : Prop where
  cache : CacheSigned rt x'
  goes : GoesOn answers x.2 x'.2
  out : x'.1.out = x.1.out

theorem Goes.trans {x'' : World × Record} (first : Goes rt x x') (next : Goes rt x' x'') :
    Goes rt x x'' := ⟨next.cache, first.goes.trans next.goes, next.out.trans first.out⟩

/-- A step that leaves the world as it is. -/
theorem Goes.still {c : Call} {r : signature.Reply c} (cache : CacheSigned rt x)
    (quiet : answers c = false) : Goes rt x (x.1, ⟨c, r⟩ :: x.2) where
  cache jwt held := by
    obtain ⟨time, signed, expires⟩ := cache jwt held
    exact ⟨time, signed.mono fun e mem => .tail _ mem, expires⟩
  goes := .step quiet r
  out := rfl

theorem step_still {c : Call} {r : signature.Reply c} (step : Recorded c x r x')
    (still : c.writes = false) : x' = (x.1, ⟨c, r⟩ :: x.2) := by
  obtain ⟨⟨o, -, answered⟩, recorded⟩ := step
  refine Prod.ext ?_ recorded
  cases c
  case writeCache | send => cases still
  all_goals exact ((Prod.mk.inj (Option.some.inj answered)).2).symm

/-- Run from `x`, `y` makes authorized requests only, and `P` holds of what it returns. -/
def Respects (rt : Runtime) {α : Type} (y : Async α) (x : World × Record) (P : α → Record → Prop) :
    Prop :=
  Safe Recorded (Authorizes rt) (fun r x' => Goes rt x x' ∧ ∀ a, r = .ok a → P a x'.2) y.run x

namespace Respects

variable {α β : Type} {y : Async α} {f : α → Async β} {P : α → Record → Prop}
  {Q : β → Record → Prop} {c : Call}

theorem pure {a : α} (cache : CacheSigned rt x) (holds : P a x.2) :
    Respects rt (Pure.pure a) x P :=
  ⟨⟨cache, .refl _, rfl⟩, fun _ same => Except.ok.inj same ▸ holds⟩

theorem throw {e : Thrown} (cache : CacheSigned rt x) :
    Respects rt (MonadExcept.throw e) x P :=
  ⟨⟨cache, .refl _, rfl⟩, fun _ same => by cases same⟩

theorem after (before : Goes rt x x') (later : Respects rt y x' P) :
    Safe Recorded (Authorizes rt) (fun r x' => Goes rt x x' ∧ ∀ a, r = .ok a → P a x'.2) y.run x' :=
  Safe.post later fun _ _ ended => ⟨before.trans ended.1, ended.2⟩

theorem bind (first : Respects rt y x P)
    (next : ∀ a x', Goes rt x x' → P a x'.2 → Respects rt (f a) x' Q) :
    Respects rt (y >>= f) x Q := by
  refine Safe.bindE first ?_ ?_
  · rintro a x' ⟨goes, holds⟩
    exact after goes (next a x' goes (holds a rfl))
  · rintro e x' ⟨goes, -⟩
    exact ⟨goes, fun _ same => by cases same⟩

theorem ofExcept {r : Js α} (cache : CacheSigned rt x)
    (next : ∀ a, r = .ok a → Respects rt (f a) x Q) :
    Respects rt (GithubApp.ofExcept r >>= f) x Q :=
  safe_ofExcept next fun _ _ => ⟨⟨cache, .refl _, rfl⟩, fun _ same => by cases same⟩

/-- A call that leaves the world as it is. -/
theorem call {f : signature.Reply c → Async β} (cache : CacheSigned rt x)
    (still : c.writes = false) (quiet : answers c = false)
    (authorized : ∀ request authorization, c = .fetch request authorization →
      Authorized rt x.2 request.owner authorization)
    (next : ∀ r, Goes rt x (x.1, ⟨c, r⟩ :: x.2) → Respects rt (f r) (x.1, ⟨c, r⟩ :: x.2) Q) :
    Respects rt (GithubApp.call c >>= f) x Q := by
  refine safe_call fun r x' step => ⟨authorized, ?_⟩
  obtain rfl := step_still step still
  have goes : Goes rt x (x.1, ⟨c, r⟩ :: x.2) := .still cache quiet
  exact after goes (next r goes)

theorem mono {P' : α → Record → Prop} (h : Respects rt y x P)
    (imp : ∀ a x', Goes rt x x' → P a x'.2 → P' a x'.2) : Respects rt y x P' :=
  Safe.post h fun _ x' ended => ⟨ended.1, fun a same => imp a x' ended.1 (ended.2 a same)⟩

end Respects

end

end Codery.GithubApp
