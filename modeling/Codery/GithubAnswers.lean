import Codery.GithubTokens

/-! What the tools of `github-app-permissions-mcp.ts` show, and for which reasons they fail: each in
terms of the arguments and of what has been done for the message. -/

namespace Codery.GithubApp

open Codery.Effect

/-! ### What GitHub is to answer -/

def Value.isStr : Value → Bool
  | .str _ => true
  | _ => false

def Value.isNum : Value → Bool
  | .num _ => true
  | _ => false

def Value.isObj : Value → Bool
  | .obj _ => true
  | _ => false

/-- The value has the field, and `p` holds of what is there. -/
def Has (v : Value) (name : String) (p : Value → Prop) : Prop :=
  ∃ field, get v name = .ok (some field) ∧ p field

/-- What the tools rely on in an installation. -/
structure Described (inst : Value) : Prop where
  id : Has inst "id" (·.isNum)
  account : Has inst "account" fun account => Has account "login" (·.isStr)
  permissions : Has inst "permissions" (·.isObj)

/-- What they rely on in the JSON of a success. -/
def Shaped : Request → Value → Prop
  | .installations, json => ∃ items, json = .arr items ∧ ∀ inst ∈ items, Described inst
  | .accessTokens _, json => Has json "token" (·.isStr)
  | .createRepo _ _, json => json.isObj
  | .contents _ _, json => Has json "content" (·.isStr)
  | .putContents _ _ _, json => Has json "commit" (·.isObj)
  | .dispatches _ _ _, _ => True

/-! ### What has been done -/

/-- A call has failed, or GitHub has not answered as it is to. -/
inductive Failure (done : Record) : Thrown → Prop
  | openssl {claims : Claims} (failed : ⟨.openssl claims, .failed⟩ ∈ done) : Failure done .engine
  | exited {claims : Claims} {stderr : String} (exited : ⟨.openssl claims, .exited stderr⟩ ∈ done) :
    Failure done (.error ("openssl failed: " ++ stderr))
  | unreached {request : Request} {token : String} (failed : ⟨.fetch request token, .failed⟩ ∈ done) :
    Failure done .engine
  | refused {request : Request} {token statusText body : String} {status : ℕ}
    (refused : ⟨.fetch request token, .refused status statusText body⟩ ∈ done) :
    Failure done (.error (request.refusal status statusText body))
  | notJson {request : Request} {token : String} (read : ⟨.fetch request token, .ok none⟩ ∈ done) :
    Failure done .engine
  | misshapen {request : Request} {token : String} {json : Value} {err : Thrown}
    (given : ⟨.fetch request token, .ok (some json)⟩ ∈ done) (misshapen : ¬ Shaped request json) :
    Failure done err

/-- The installation of the account among those listed, or that there is none. -/
def Finds (rt : Runtime) (done : Record) (account : Option Value) : Option Installation → Prop
  | some inst => Listed rt done account inst
  | none => ∃ all, Listing done all ∧ ∀ inst ∈ all, ¬ Owns rt account inst

/-- GitHub has given `data` for an access token of the installation of the account. -/
def Gives (rt : Runtime) (done : Record) (account : Option Value) (inst : Installation)
    (data : Value) : Prop :=
  Listed rt done account inst ∧ Issued done inst data

/-! ### What is shown -/

/-- What a tool shows is what GitHub has answered, for the arguments. -/
def Shows (rt : Runtime) (done : Record) (args : Option Value) : Shown → Prop
  | .installations all => Listing done all
  | .installation found => ∃ account, get args "account" = .ok account ∧ Finds rt done account found
  | .permission p => ∃ account permission found, get args "account" = .ok account ∧
      get args "permission" = .ok permission ∧ Finds rt done account found ∧
      match found with
      | none => p.account = account ∧ p.permission = permission ∧ p.found = some false ∧
          p.hasPermission = false
      | some inst => ∃ l, level inst.permissions permission = .ok l ∧ p.account = inst.login ∧
          p.permission = permission ∧ p.hasPermission = l.present ∧ p.level = l.orNull
  | .token t => ∃ account inst data, get args "account" = .ok account ∧
      Gives rt done account inst data ∧ get data "token" = .ok t.token ∧
      get data "expires_at" = .ok t.expiresAt ∧ t.account = inst.login ∧ t.installationId = inst.id
  | .repo r => ∃ org body json, get args "org" = .ok (some (.str org)) ∧
      get args "name" = .ok body.name ∧ Given done (.createRepo org body) json ∧
      get json "full_name" = .ok r.fullName ∧ get json "html_url" = .ok r.htmlUrl ∧
      get json "clone_url" = .ok r.cloneUrl ∧ get json "ssh_url" = .ok r.sshUrl
  | .release r => ∃ owner repo name body updated commit dispatched,
      get args "account" = .ok (some (.str owner)) ∧ get args "repo" = .ok repo ∧
      text repo = .ok name ∧ Given done (.putContents owner name body) updated ∧
      get updated "commit" = .ok commit ∧ get commit "sha" = .ok r.commitSha ∧
      Given done (.dispatches owner name "main") dispatched

/-! ### Why it is not -/

/-- The argument that names the account. -/
def Tool.accountName : Tool → String
  | .createRepo => "org"
  | _ => "account"

/-- The arguments besides it that are put into a text. -/
def Tool.texts : Tool → List String
  | .checkPermission => ["permission"]
  | .cutRelease => ["repo", "bump", "message"]
  | _ => []

/-- A token is needed, which there is for an installation only. -/
def Tool.needsToken : Tool → Bool
  | .generateToken | .createRepo | .cutRelease => true
  | _ => false

/-- Why a tool throws `err`. -/
inductive Cause (rt : Runtime) (done : Record) (args : Option Value) : Tool → Thrown → Prop
  | failure {tool : Tool} {err : Thrown} (failure : Failure done err) : Cause rt done args tool err
  | noArguments {tool : Tool} {err : Thrown} (asks : tool ≠ .getInstallations)
    (none : present args = false) : Cause rt done args tool err
  | noAccount {tool : Tool} {account : Option Value} {err : Thrown} (asks : tool ≠ .getInstallations)
    (given : get args tool.accountName = .ok account) (other : ∀ name, account ≠ some (.str name)) :
    Cause rt done args tool err
  | notInstalled {tool : Tool} {name : String} (needs : tool.needsToken = true)
    (given : get args tool.accountName = .ok (some (.str name)))
    (none : Finds rt done (some (.str name)) none) :
    Cause rt done args tool
      (.error ("No installation found for " ++ tool.accountName ++ " '" ++ name ++ "'"))
  | noText {tool : Tool} {name : String} {v : Option Value} {err : Thrown} (mem : name ∈ tool.texts)
    (given : get args name = .ok v) (unshown : text v = .error err) : Cause rt done args tool err
  | noVersion {owner repo : String} {fileData : Value} {content : List Char}
    (given : Given done (.contents owner repo) fileData) (read : readContent fileData = .ok content)
    (none : findVersion true content = none) :
    Cause rt done args .cutRelease (.error "Could not find version = \"X.Y.Z\" in Cargo.toml")
  | unknownBump {bump : Option Value} {s : String} (given : get args "bump" = .ok bump)
    (shown : text bump = .ok s) (unknown : ∀ known ∈ ["major", "minor", "patch"], is bump known = false) :
    Cause rt done args .cutRelease
      (.error ("Unknown bump type: " ++ s ++ ". Must be major, minor, or patch"))

section

variable {rt : Runtime} {done done' h h' : Record} {account : Option Value} {v json data : Value}
  {name : String} {p : Value → Prop} {all : List Installation} {inst : Installation}
  {found : Option Installation} {request : Request} {e : Thrown}

theorem Finds.mono (finds : Finds rt done account found) (sub : done ⊆ done') :
    Finds rt done' account found := by
  cases found with
  | some inst => exact Listed.mono finds sub
  | none =>
    obtain ⟨all, listing, none⟩ := finds
    exact ⟨all, listing.mono sub, none⟩

theorem Gives.mono (gives : Gives rt done account inst data) (sub : done ⊆ done') :
    Gives rt done' account inst data := by
  exact ⟨gives.1.mono sub, gives.2.mono sub⟩

theorem Given.shaped (given : Given done request json) : (∀ e, Failure done e) ∨ Shaped request json := by
  obtain ⟨token, mem⟩ := given
  by_cases shaped : Shaped request json
  · exact .inr shaped
  · exact .inl fun e => .misshapen mem shaped

/-! ### Reading what has the right shape -/

/-- Only an object has a field. -/
theorem Has.obj (has : Has v name p) :
    ∃ fields field, v = .obj fields ∧ fields.lookup name = some field ∧ p field := by
  obtain ⟨field, read, holds⟩ := has
  cases v with
  | obj fields => exact ⟨fields, field, rfl, Except.ok.inj read, holds⟩
  | null | bool | num | str | arr => cases read

theorem get_of_isObj (obj : v.isObj = true) (name : String) : ∃ field, get v name = .ok field := by
  cases v with
  | obj fields => exact ⟨_, rfl⟩
  | null | bool | num | str | arr => cases obj

theorem Has.isObj (has : Has v name p) : v.isObj = true := by
  obtain ⟨fields, field, rfl, -⟩ := has.obj
  rfl

/-- What was read of an installation that is as described. -/
structure Installation.Whole (inst : Installation) : Prop where
  id : ∃ shown, inst.id = some (.num shown)
  login : ∃ login, inst.login = some (.str login)
  permissions : ∃ fields, inst.permissions = some (.obj fields)

theorem readInstallation_whole (described : Described v) :
    ∃ inst, readInstallation v = .ok inst ∧ inst.Whole := by
  obtain ⟨fields, id, rfl, hid, isNum⟩ := described.id.obj
  obtain ⟨_, account, ⟨⟩, haccount, hasLogin⟩ := described.account.obj
  obtain ⟨_, permissions, ⟨⟩, hpermissions, isObj⟩ := described.permissions.obj
  obtain ⟨accountFields, login, rfl, hlogin, isStr⟩ := hasLogin.obj
  have read : ∃ inst, readInstallation (.obj fields) = .ok inst ∧ inst.id = fields.lookup "id" ∧
      inst.login = accountFields.lookup "login" ∧ inst.permissions = fields.lookup "permissions" := by
    simp only [readInstallation, get, haccount]
    exact ⟨_, rfl, rfl, rfl, rfl⟩
  obtain ⟨inst, read, sameId, sameLogin, samePermissions⟩ := read
  refine ⟨inst, read, ?_, ?_, ?_⟩
  · cases id with
    | num shown => exact ⟨shown, sameId.trans hid⟩
    | null | bool | str | arr | obj => cases isNum
  · cases login with
    | str login => exact ⟨login, sameLogin.trans hlogin⟩
    | null | bool | num | arr | obj => cases isStr
  · cases permissions with
    | obj fields => exact ⟨fields, samePermissions.trans hpermissions⟩
    | null | bool | num | str | arr => cases isObj

theorem readInstallations_whole (shaped : Shaped .installations json) :
    ∃ all, readInstallations json = .ok all ∧ ∀ inst ∈ all, inst.Whole := by
  obtain ⟨items, rfl, each⟩ := shaped
  show ∃ all, items.mapM readInstallation = .ok all ∧ _
  induction items with
  | nil => exact ⟨[], rfl, List.forall_mem_nil _⟩
  | cons v items ih =>
    obtain ⟨described, each⟩ := List.forall_mem_cons.mp each
    obtain ⟨inst, read, whole⟩ := readInstallation_whole described
    obtain ⟨all, reads, wholes⟩ := ih each
    refine ⟨inst :: all, ?_, List.forall_mem_cons.mpr ⟨whole, wholes⟩⟩
    rw [List.mapM_cons, read, reads]
    rfl

theorem Listing.whole (listing : Listing done all) :
    (∀ e, Failure done e) ∨ ∀ inst ∈ all, inst.Whole := by
  obtain ⟨list, given, read⟩ := listing
  refine given.shaped.imp_right fun shaped => ?_
  obtain ⟨all', read', whole⟩ := readInstallations_whole shaped
  obtain rfl : all = all' := Except.ok.inj (read.symm.trans read')
  exact whole

theorem Listed.whole (listed : Listed rt done account inst) :
    (∀ e, Failure done e) ∨ inst.Whole := by
  obtain ⟨all, listing, mem, -⟩ := listed
  exact listing.whole.imp_right fun whole => whole inst mem

/-! ### Looking for an installation -/

end

/-! ### Ends of a program -/

section

variable {rt : Runtime} {h h' : Record} {α β : Type}

/-- `P` holds of what is returned, and `E` of what is thrown. -/
def Comes (P : α → Record → Prop) (E : Thrown → Record → Prop) (r : Js α) (done : Record) : Prop :=
  match r with
  | .ok a => P a done
  | .error e => E e done

/-- `y` goes on with the message in hand, and comes to `P` or `E` with all that has been done for it. -/
def Ends (y : Async α) (h : Record) (P : α → Record → Prop) (E : Thrown → Record → Prop) : Prop :=
  ∀ w : World, Safe Recorded (fun _ _ _ _ => True)
    (fun r x => GoesOn answers h x.2 ∧ Comes P E r (current x.2)) y.run (w, h)

namespace Ends

variable {y : Async α} {f : α → Async β} {P R : α → Record → Prop} {Q : β → Record → Prop}
  {E E' : Thrown → Record → Prop}

theorem pure {a : α} (holds : P a (current h)) : Ends (Pure.pure a) h P E :=
  fun _ => ⟨.refl _, holds⟩

theorem throw {e : Thrown} (holds : E e (current h)) : Ends (MonadExcept.throw e) h P E :=
  fun _ => ⟨.refl _, holds⟩

theorem after (before : GoesOn answers h h') (later : Ends y h' P E) (w : World) :
    Safe Recorded (fun _ _ _ _ => True)
      (fun r x => GoesOn answers h x.2 ∧ Comes P E r (current x.2)) y.run (w, h') :=
  Safe.post (later w) fun _ _ ended => ⟨before.trans ended.1, ended.2⟩

theorem bind (first : Ends y h R E)
    (next : ∀ a h', current h ⊆ current h' → R a (current h') → Ends (f a) h' Q E) :
    Ends (y >>= f) h Q E := by
  intro w
  refine Safe.bindE (first w) ?_ ?_
  · rintro a ⟨w', h'⟩ ⟨goes, holds⟩
    exact after goes (next a h' (goes.since_subset) holds) w'
  · rintro e ⟨w', h'⟩ ⟨goes, holds⟩
    exact ⟨goes, holds⟩

theorem ofExcept {r : Js α} (ok : ∀ a, r = .ok a → Ends (f a) h Q E)
    (error : ∀ e, r = .error e → E e (current h)) : Ends (GithubApp.ofExcept r >>= f) h Q E := by
  cases r with
  | ok a => exact ok a rfl
  | error e => exact throw (error e rfl)

theorem call {c : Call} {f : signature.Reply c → Async β} (quiet : answers c = false)
    (next : ∀ r, Ends (f r) (⟨c, r⟩ :: h) Q E) : Ends (GithubApp.call c >>= f) h Q E := by
  intro w
  refine safe_call fun r x step => ⟨trivial, ?_⟩
  obtain ⟨w', h'⟩ := x
  obtain rfl : h' = ⟨c, r⟩ :: h := (recorded_step step).2
  exact after (.step quiet r) (next r) w'

end Ends

variable {account : Option Value} {json data : Value} {name : String} {request : Request} {e : Thrown}
  {inst : Installation} {token : Option Value} {done : Record}

/-- With a reply that is as it should be, a field can be read. -/
theorem Given.reads (given : Given done request json) (obj : Shaped request json → json.isObj = true)
    (unread : get json name = .error e) : Failure done e := by
  obtain failure | shaped := given.shaped
  · exact failure e
  · obtain ⟨field, read⟩ := get_of_isObj (obj shaped) name
    rw [read] at unread
    cases unread

/-- Why no installation is looked for. -/
def Unsought (account : Option Value) (e : Thrown) (done : Record) : Prop :=
  Failure done e ∨ ∀ name, account ≠ some (.str name)

/-- Why none is had. -/
inductive Unfound (rt : Runtime) (done : Record) (what : String) (account : Option Value) : Thrown → Prop
  | unsought {e : Thrown} (unsought : Unsought account e done) : Unfound rt done what account e
  | notInstalled {name : String} (same : account = some (.str name)) (none : Finds rt done account none) :
    Unfound rt done what account
      (.error ("No installation found for " ++ what ++ " '" ++ name ++ "'"))

theorem Gives.reads (gives : Gives rt done account inst data) (unread : get data name = .error e) :
    Failure done e := by
  obtain ⟨-, id, -, given⟩ := gives
  exact given.reads (fun shaped => Has.isObj shaped) unread

end

/-! ### The tools -/

section

variable {rt : Runtime} {h done : Record} {args : Option Value} {tool : Tool} {e : Thrown}
  {account : Option Value}

theorem Unsought.cause (unsought : Unsought account e done) (asks : tool ≠ .getInstallations)
    (given : get args tool.accountName = .ok account) : Cause rt done args tool e := by
  obtain failure | other := unsought
  · exact .failure failure
  · exact .noAccount asks given other

theorem Unfound.cause (tool : Tool) (unfound : Unfound rt done tool.accountName account e)
    (needs : tool.needsToken = true) (given : get args tool.accountName = .ok account) :
    Cause rt done args tool e := by
  have asks : tool ≠ .getInstallations := by
    rintro rfl
    cases needs
  cases unfound with
  | unsought unsought => exact unsought.cause asks given
  | notInstalled same none =>
    subst same
    exact .notInstalled needs given none

end

end Codery.GithubApp
