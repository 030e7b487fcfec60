import Codery.GithubTokens
import Codery.Numerals

/-! What `cut_release` of `github-app-permissions-mcp.ts` commits, and in which order the tools change
things. -/

namespace Codery.GithubApp

open Codery.Effect

/-! ### Versions in a text -/

/-- The text from which a version was read. -/
def Versioned.text (v : Versioned) : List Char :=
  v.before ++ (versionKey ++ (v.major ++ '.' :: (v.minor ++ '.' :: (v.patch ++ '"' :: v.after))))

/-- The numbers of a version are digits. -/
structure Versioned.Digits (v : Versioned) : Prop where
  major : v.major ≠ [] ∧ v.major.all Char.isDigit
  minor : v.minor ≠ [] ∧ v.minor.all Char.isDigit
  patch : v.patch ≠ [] ∧ v.patch.all Char.isDigit

section

variable {cs ds rest xs t : List Char} {e c : Char} {v : Versioned} {start : Bool}

theorem dropPrefix?_some (dropped : cs.dropPrefix? ds = some rest) : cs = ds ++ rest := by
  obtain ⟨ds', rfl, same⟩ := List.dropPrefix?_eq_some_iff.mp dropped
  rw [eq_of_beq same]

theorem dropPrefix?_append (ds rest : List Char) : (ds ++ rest).dropPrefix? ds = some rest :=
  List.dropPrefix?_eq_some_iff.mpr ⟨ds, rfl, beq_self_eq_true ds⟩

theorem number_some (read : number cs = some (ds, rest)) :
    cs = ds ++ rest ∧ ds ≠ [] ∧ ds.all Char.isDigit := by
  unfold number at read
  split at read
  case isTrue => cases read
  case isFalse some =>
    cases read
    exact ⟨List.takeWhile_append_dropWhile.symm, some, List.all_takeWhile⟩

theorem number_append (some : ds ≠ []) (all : ds.all Char.isDigit) (stop : c.isDigit = false) :
    number (ds ++ c :: rest) = Option.some (ds, c :: rest) := by
  have each : ∀ d ∈ ds, d.isDigit = true := List.all_eq_true.mp all
  have taken : (ds ++ c :: rest).takeWhile Char.isDigit = ds := by
    rw [List.takeWhile_append_of_pos each, List.takeWhile_cons_of_neg (by simp [stop]), List.append_nil]
  have dropped : (ds ++ c :: rest).dropWhile Char.isDigit = c :: rest := by
    rw [List.dropWhile_append_of_pos each, List.dropWhile_cons_of_neg (by simp [stop])]
  rw [number, taken, dropped, if_neg some]

theorem versionAt_some (read : versionAt cs = some v) :
    v.before = [] ∧ cs = v.text ∧ v.Digits := by
  simp only [versionAt, Option.bind_eq_bind, Option.bind_eq_some_iff, Option.pure_def,
    Option.some.injEq] at read
  obtain ⟨cs₁, key, ⟨major₁, cs₂⟩, hmajor, cs₃, dot, ⟨minor₁, cs₄⟩, hminor, cs₅, dot', ⟨patch₁, cs₆⟩,
    hpatch, after, quote, rfl⟩ := read
  obtain ⟨rfl, major⟩ := number_some hmajor
  obtain ⟨rfl, minor⟩ := number_some hminor
  obtain ⟨rfl, patch⟩ := number_some hpatch
  refine ⟨rfl, ?_, major, minor, patch⟩
  have dot : cs₂ = '.' :: (minor₁ ++ cs₄) := dropPrefix?_some dot
  have dot' : cs₄ = '.' :: (patch₁ ++ cs₆) := dropPrefix?_some dot'
  have quote : cs₆ = '"' :: after := dropPrefix?_some quote
  rw [dropPrefix?_some key, dot, dot', quote]
  rfl

theorem versionAt_text (digits : v.Digits) (first : v.before = []) : versionAt v.text = some v := by
  obtain ⟨before, major, minor, patch, after⟩ := v
  obtain rfl : before = [] := first
  have point (cs : List Char) : ('.' :: cs).dropPrefix? ['.'] = some cs := dropPrefix?_append ['.'] cs
  have quote : ('"' :: after).dropPrefix? ['"'] = some after := dropPrefix?_append ['"'] after
  have read {ds : List Char} {c : Char} (rest : List Char) (all : ds ≠ [] ∧ ds.all Char.isDigit)
      (stop : c.isDigit = false) : number (ds ++ c :: rest) = some (ds, c :: rest) :=
    number_append all.1 all.2 stop
  rw [versionAt, Versioned.text, List.nil_append, dropPrefix?_append]
  simp only [Option.bind_eq_bind, Option.bind_some, Option.pure_def,
    read (c := '.') _ digits.major (by decide), read (c := '.') _ digits.minor (by decide),
    read (c := '"') _ digits.patch (by decide), point, quote]

/-! A line end is in no version, so that what is behind it has no part in one. -/

theorem dropPrefix?_break (absent : e ∉ ds) :
    (xs ++ e :: t).dropPrefix? ds = (xs.dropPrefix? ds).map (· ++ e :: t) := by
  induction ds generalizing xs with
  | nil => simp
  | cons d ds ih =>
    have other : e ≠ d := fun same => absent (same ▸ .head _)
    have absent : e ∉ ds := fun mem => absent (.tail _ mem)
    cases xs with
    | nil => simp [List.dropPrefix?, other]
    | cons x xs =>
      simp only [List.cons_append, List.dropPrefix?]
      split
      case isTrue => exact ih absent
      case isFalse => rfl

theorem number_break (stop : e.isDigit = false) :
    number (xs ++ e :: t) = (number xs).map fun p => (p.1, p.2 ++ e :: t) := by
  have dropped : (xs ++ e :: t).dropWhile Char.isDigit = xs.dropWhile Char.isDigit ++ e :: t := by
    induction xs with
    | nil => simp [stop]
    | cons x xs ih =>
      simp only [List.cons_append, List.dropWhile_cons]
      split
      case isTrue => exact ih
      case isFalse => rfl
  have taken : (xs ++ e :: t).takeWhile Char.isDigit = xs.takeWhile Char.isDigit := by
    clear dropped
    induction xs with
    | nil => simp [stop]
    | cons x xs ih => simp only [List.cons_append, List.takeWhile_cons, ih]
  rw [number, number, taken, dropped]
  split
  · rfl
  · rfl

/-- Further text. -/
def Versioned.more (v : Versioned) (cs : List Char) : Versioned := { v with after := v.after ++ cs }

/-- Earlier text. -/
def Versioned.behind (v : Versioned) (cs : List Char) : Versioned := { v with before := cs ++ v.before }

theorem absent_of_lineEnd (ends : isLineEnd e = true) : e.isDigit = false ∧ e ∉ versionKey ∧
    e ∉ ['.'] ∧ e ∉ ['"'] := by
  simp only [isLineEnd, Bool.or_eq_true, beq_iff_eq] at ends
  obtain ((rfl | rfl) | rfl) | rfl := ends
  all_goals decide

theorem versionAt_break (ends : isLineEnd e = true) :
    versionAt (xs ++ e :: t) = (versionAt xs).map (·.more (e :: t)) := by
  obtain ⟨stop, key, dot, quote⟩ := absent_of_lineEnd ends
  simp only [versionAt, Option.bind_eq_bind, Option.pure_def, dropPrefix?_break key,
    number_break stop, dropPrefix?_break dot, dropPrefix?_break quote, Option.bind_map,
    Option.map_bind, Function.comp_def, Option.map_some, Versioned.more]

/-- The first version of a text is that of what is before a line end, or else the one behind it. -/
theorem findVersion_break (ends : isLineEnd e = true) :
    findVersion start (xs ++ e :: t) = ((findVersion start xs).map (·.more (e :: t))).or
      ((findVersion true t).map (·.behind (xs ++ [e]))) := by
  induction xs generalizing start with
  | nil =>
    have none : versionAt ([] ++ e :: t) = none := versionAt_break ends
    rw [List.nil_append] at none
    simp only [List.nil_append, findVersion, none, ite_self, ends, Option.map_none, Option.none_or]
    rfl
  | cons c xs ih =>
    have here : (if start then versionAt (c :: (xs ++ e :: t)) else none) =
        (if start then versionAt (c :: xs) else none).map (·.more (e :: t)) := by
      cases start with
      | true =>
        rw [← List.cons_append]
        exact versionAt_break ends
      | false => rfl
    rw [List.cons_append, findVersion, findVersion, ih, here]
    cases (if start then versionAt (c :: xs) else none) with
    | some v => rfl
    | none =>
      cases findVersion (isLineEnd c) xs with
      | some v => rfl
      | none => cases findVersion true t <;> rfl

theorem Versioned.text_behind (v : Versioned) (cs : List Char) : (v.behind cs).text = cs ++ v.text := by
  simp [Versioned.text, Versioned.behind]

/-- What `findVersion` finds was there, where a line begins, and nothing before it was a version. -/
theorem findVersion_some (found : findVersion start cs = some v) : cs = v.text ∧ v.Digits ∧
    (start = true ∧ v.before = [] ∨
      ∃ xs e, v.before = xs ++ [e] ∧ isLineEnd e = true ∧ findVersion start xs = none) := by
  induction cs generalizing start v with
  | nil => cases found
  | cons c cs ih =>
    rw [findVersion, Option.or_eq_some_iff] at found
    obtain here | ⟨notHere, later⟩ := found
    · split at here
      case isTrue begins =>
        obtain ⟨first, text, digits⟩ := versionAt_some here
        exact ⟨text, digits, .inl ⟨begins, first⟩⟩
      case isFalse => cases here
    · obtain ⟨v', found, rfl⟩ := Option.map_eq_some_iff.mp later
      obtain ⟨text, digits, place⟩ := ih found
      refine ⟨?_, ⟨digits.major, digits.minor, digits.patch⟩, .inr ?_⟩
      · rw [text]
        exact (v'.text_behind [c]).symm
      obtain ⟨ends, first⟩ | ⟨xs, e, before, ends, none⟩ := place
      · exact ⟨[], c, by rw [first]; rfl, ends, rfl⟩
      · refine ⟨c :: xs, e, by rw [before]; rfl, ends, ?_⟩
        rw [findVersion, none, Option.map_none, Option.or_none]
        split at notHere
        case isTrue begins =>
          rw [if_pos begins]
          have whole : c :: cs = (c :: xs) ++ e :: ({ v' with before := [] } : Versioned).text := by
            rw [text, Versioned.text, before]
            simp [Versioned.text]
          rw [whole, versionAt_break ends, Option.map_eq_none_iff] at notHere
          exact notHere
        case isFalse other => rw [if_neg other]

/-- A version with other numbers. -/
def Versioned.set (v : Versioned) (n : Version ℕ) : Versioned :=
  { v with major := Nat.toDigits 10 n.major, minor := Nat.toDigits 10 n.minor
           patch := Nat.toDigits 10 n.patch }

def Versioned.numbers (v : Versioned) : Version ℕ where
  major := Nat.ofDigitChars 10 v.major 0
  minor := Nat.ofDigitChars 10 v.minor 0
  patch := Nat.ofDigitChars 10 v.patch 0

theorem Versioned.digits_set (v : Versioned) (n : Version ℕ) : (v.set n).Digits :=
  ⟨⟨toDigits_ne_nil, all_isDigit_toDigits⟩, ⟨toDigits_ne_nil, all_isDigit_toDigits⟩,
    ⟨toDigits_ne_nil, all_isDigit_toDigits⟩⟩

theorem findVersion_text (digits : v.Digits) (first : v.before = []) :
    findVersion true v.text = some v := by
  have here := versionAt_text digits first
  cases text : v.text with
  | nil =>
    rw [text] at here
    cases here
  | cons c cs =>
    rw [text] at here
    rw [findVersion, if_pos rfl, here, Option.some_or]

/-- With other numbers it is found at the same place. -/
theorem findVersion_set (found : findVersion start cs = some v) (n : Version ℕ) :
    findVersion start (v.set n).text = some (v.set n) := by
  obtain ⟨-, -, place⟩ := findVersion_some found
  have digits := v.digits_set n
  obtain ⟨rfl, first⟩ | ⟨xs, e, before, ends, none⟩ := place
  · exact findVersion_text digits first
  · have line : findVersion true ({ v.set n with before := [] } : Versioned).text =
        some { v.set n with before := [] } :=
      findVersion_text ⟨digits.major, digits.minor, digits.patch⟩ rfl
    have whole : (v.set n) = ({ v.set n with before := [] } : Versioned).behind (xs ++ [e]) := by
      rw [Versioned.behind, List.append_nil, ← before]
      rfl
    rw [whole, Versioned.text_behind, List.append_assoc, List.singleton_append, findVersion_break ends,
      none, line]
    rfl

end

/-! ### Bumping -/

def Version.plain (n : Version ℕ) : String :=
  toString n.major ++ "." ++ toString n.minor ++ "." ++ toString n.patch

inductive Bumped : String → Version ℕ → Version ℕ → Prop
  | major (n : Version ℕ) : Bumped "major" n ⟨n.major + 1, 0, 0⟩
  | minor (n : Version ℕ) : Bumped "minor" n ⟨n.major, n.minor + 1, 0⟩
  | patch (n : Version ℕ) : Bumped "patch" n ⟨n.major, n.minor, n.patch + 1⟩

def Version.Later (old new : Version ℕ) : Prop :=
  old.major < new.major ∨ old.major = new.major ∧
    (old.minor < new.minor ∨ old.minor = new.minor ∧ old.patch < new.patch)

theorem Bumped.later {s : String} {old new : Version ℕ} (bumped : Bumped s old new) :
    old.Later new := by
  cases bumped with
  | major => exact .inl (Nat.lt_succ_self _)
  | minor => exact .inr ⟨rfl, .inl (Nat.lt_succ_self _)⟩
  | patch => exact .inr ⟨rfl, .inr ⟨rfl, Nat.lt_succ_self _⟩⟩

/-- Numbers that are exact, also when one is added. -/
def Versioned.Small (v : Versioned) : Prop :=
  v.numbers.major < 2 ^ 53 ∧ v.numbers.minor < 2 ^ 53 ∧ v.numbers.patch < 2 ^ 53

theorem Versioned.replaced_plain (v : Versioned) (n : Version ℕ) :
    v.replaced n.plain = (v.set n).text := by
  simp [Versioned.replaced, Version.plain, Versioned.set, Versioned.text]

theorem is_some {v : Option Value} {s : String} (same : is v s = true) : v = some (.str s) := by
  unfold is at same
  split at same
  · rw [eq_of_beq same]
  · cases same

theorem shown_exact {ns : Numbers} {n : Version ℕ} (major : n.major ≤ 2 ^ 53) (minor : n.minor ≤ 2 ^ 53)
    (patch : n.patch ≤ 2 ^ 53) :
    Version.shown ns ⟨ns.ofNat n.major, ns.ofNat n.minor, ns.ofNat n.patch⟩ = n.plain := by
  rw [Version.shown, ns.shown_exact _ major, ns.shown_exact _ minor, ns.shown_exact _ patch]
  rfl

theorem bump_exact {ns : Numbers} {v : Versioned} {bump : Option Value} {new : Version ns.Num}
    (small : v.Small) (bumped : (v.version ns).bump ns bump = .ok new) :
    ∃ s next, bump = some (.str s) ∧ Bumped s v.numbers next ∧
      (v.version ns).shown ns = v.numbers.plain ∧ new.shown ns = next.plain := by
  obtain ⟨major, minor, patch⟩ := small
  have old : (v.version ns).shown ns = v.numbers.plain :=
    shown_exact (n := v.numbers) major.le minor.le patch.le
  unfold Version.bump at bumped
  split at bumped
  case isTrue asked =>
    cases bumped
    refine ⟨"major", ⟨v.numbers.major + 1, 0, 0⟩, is_some asked, .major v.numbers, old, ?_⟩
    show Version.shown ns ⟨ns.next (ns.ofNat v.numbers.major), ns.ofNat 0, ns.ofNat 0⟩ = _
    rw [ns.next_exact _ major]
    exact shown_exact (n := ⟨v.numbers.major + 1, 0, 0⟩) major (Nat.zero_le _) (Nat.zero_le _)
  split at bumped
  case isTrue asked =>
    cases bumped
    refine ⟨"minor", ⟨v.numbers.major, v.numbers.minor + 1, 0⟩, is_some asked, .minor v.numbers,
      old, ?_⟩
    show Version.shown ns
      ⟨ns.ofNat v.numbers.major, ns.next (ns.ofNat v.numbers.minor), ns.ofNat 0⟩ = _
    rw [ns.next_exact _ minor]
    exact shown_exact (n := ⟨v.numbers.major, v.numbers.minor + 1, 0⟩) major.le minor (Nat.zero_le _)
  split at bumped
  case isTrue asked =>
    cases bumped
    refine ⟨"patch", ⟨v.numbers.major, v.numbers.minor, v.numbers.patch + 1⟩, is_some asked,
      .patch v.numbers, old, ?_⟩
    show Version.shown ns ⟨ns.ofNat v.numbers.major, ns.ofNat v.numbers.minor,
      ns.next (ns.ofNat v.numbers.patch)⟩ = _
    rw [ns.next_exact _ patch]
    exact shown_exact (n := ⟨v.numbers.major, v.numbers.minor, v.numbers.patch + 1⟩) major.le
      minor.le patch
  case isFalse =>
    cases shown : text bump with
    | error e =>
      rw [shown] at bumped
      cases bumped
    | ok s =>
      rw [shown] at bumped
      cases bumped

/-! ### The order of the changes -/

/-- A request that changes what an account has: it makes a repository, a commit or a build. -/
def Request.alters : Request → Bool
  | .createRepo _ _ | .putContents _ _ _ | .dispatches _ _ _ => true
  | .installations | .accessTokens _ | .contents _ _ => false

def Call.alters : Call → Bool
  | .fetch request _ => request.alters
  | _ => false

/-- What has been changed for the message in hand. -/
def changes (h : Record) : Record := (current h).filter fun e => e.1.alters

/-- `body` is the file that GitHub gave, with another version: one that comes after the old one and is
found again at its place.  It is the text that is kept: a byte that is none has become `U+FFFD`. -/
def Cut (h : Record) (owner repo : String) (body : CommitBody)
    (oldVersion newVersion : String) : Prop :=
  ∃ fileData content found, Given (current h) (.contents owner repo) fileData ∧
    readContent fileData = .ok content ∧ get fileData "sha" = .ok body.sha ∧ body.branch = "main" ∧
    findVersion true content = some found ∧
    Base64.decode body.content = Utf8.encode (found.replaced newVersion) ∧
    (found.Small → ∃ bump next, Bumped bump found.numbers next ∧
      oldVersion = found.numbers.plain ∧ newVersion = next.plain ∧
      findVersion true (found.replaced newVersion) = some (found.set next))

/-- When a request may be made: a repository or a commit before anything else is changed, and a build
after the commit. -/
def Ready (h : Record) : Request → Prop
  | .createRepo _ _ => changes h = []
  | .putContents owner repo body =>
    changes h = [] ∧ ∃ oldVersion newVersion, Cut h owner repo body oldVersion newVersion
  | .dispatches owner repo ref =>
    ref = "main" ∧ ∃ body token json,
      changes h = [⟨.fetch (.putContents owner repo body) token, .ok (some json)⟩]
  | .installations | .accessTokens _ | .contents _ _ => True

/-- What has been changed when an answer is sent: of a release both parts were accepted, and it is what
was committed; a repository is the one that was made; and with any other answer but an error nothing
was changed. -/
def Told (h : Record) : Payload → Prop
  | .content (.release r) =>
    ∃ owner repo body token token' json json' commit,
      changes h = [⟨.fetch (.dispatches owner repo "main") token', .ok (some json')⟩,
        ⟨.fetch (.putContents owner repo body) token, .ok (some json)⟩] ∧
      Cut h owner repo body r.oldVersion r.newVersion ∧ get json "commit" = .ok commit ∧
      get commit "sha" = .ok r.commitSha
  | .content (.repo r) =>
    ∃ org body token json,
      changes h = [⟨.fetch (.createRepo org body) token, .ok (some json)⟩] ∧
      get json "full_name" = .ok r.fullName ∧ get json "html_url" = .ok r.htmlUrl ∧
      get json "clone_url" = .ok r.cloneUrl ∧ get json "ssh_url" = .ok r.sshUrl
  | .error _ _ => True
  | _ => changes h = []

def Releases : StepRel signature (World × Record) := fun c x _ _ =>
  match c with
  | .fetch request _ => Ready x.2 request
  | .send m => Told x.2 m.payload
  | _ => True

/-- Requests of which `p` holds, and nothing is sent. -/
def Asks (p : Request → Prop) : Call → Prop
  | .fetch request _ => p request
  | .send _ | .log _ => False
  | _ => True

section Only

variable {rt : Runtime} {p : Request → Prop} {α β : Type}

theorem only_call {c : Call} (asks : Asks p c) : (call c).run.Only (Asks p) :=
  .liftE (.ask asks)

theorem only_ofExcept {x : Js α} {f : α → Async β} (next : ∀ a, (f a).run.Only (Asks p)) :
    (ofExcept x >>= f).run.Only (Asks p) := by
  cases x with
  | ok a => exact next a
  | error e => trivial

theorem generateJWT_only : (generateJWT rt).run.Only (Asks p) := by
  refine .bindE (only_call trivial) fun now => .bindE (only_call trivial) fun cache => ?_
  split
  · trivial
  · refine .bindE (only_call trivial) fun signing => ?_
    split
    · trivial
    · trivial
    · exact .bindE (only_call trivial) fun _ => trivial

theorem githubAPI_only {request : Request} {token : Option Value} (asks : p request) :
    (githubAPI rt request token).run.Only (Asks p) := by
  have fetched (authToken : String) : (fetchJson request authToken).run.Only (Asks p) := by
    refine .bindE (only_call asks) fun response => ?_
    split
    all_goals trivial
  unfold githubAPI
  split
  · exact only_ofExcept fetched
  · exact .bindE generateJWT_only fetched

variable (app : ∀ request : Request, request.owner = none → p request)

include app

theorem getInstallations_only : (getInstallations rt).run.Only (Asks p) := by
  refine .bindE (githubAPI_only (app _ rfl)) fun data => ?_
  cases readInstallations data <;> trivial

theorem getInstallation_only {account : Option Value} :
    (getInstallation rt account).run.Only (Asks p) := by
  refine .bindE (getInstallations_only app) fun all => ?_
  cases findInstallation rt account all <;> trivial

theorem requireInstallation_only {what : String} {account : Option Value} :
    (requireInstallation rt what account).run.Only (Asks p) := by
  refine .bindE (getInstallation_only app) fun found => ?_
  cases found with
  | none => exact only_ofExcept fun _ => trivial
  | some inst => trivial

theorem accessToken_only {inst : Installation} : (accessToken rt inst).run.Only (Asks p) :=
  .bindE generateJWT_only fun _ => only_ofExcept fun _ => githubAPI_only (app _ rfl)

theorem generateInstallationToken_only {account : Option Value} :
    (generateInstallationToken rt account).run.Only (Asks p) :=
  .bindE (requireInstallation_only app) fun _ => .bindE (accessToken_only app) fun _ =>
    only_ofExcept fun _ => only_ofExcept fun _ => trivial

theorem checkPermission_only {account permission : Option Value} :
    (checkPermission rt account permission).run.Only (Asks p) := by
  refine .bindE (getInstallation_only app) fun found => ?_
  cases found with
  | none => exact only_ofExcept fun _ => trivial
  | some inst => exact only_ofExcept fun _ => trivial

end Only

section

variable {rt : Runtime} {x x' : World × Record} {h h' : Record} {α : Type}

theorem Cut.goesOn {owner repo oldVersion newVersion : String} {body : CommitBody}
    (cut : Cut h owner repo body oldVersion newVersion) (goes : GoesOn answers h h') :
    Cut h' owner repo body oldVersion newVersion := by
  obtain ⟨fileData, content, found, given, rest⟩ := cut
  exact ⟨fileData, content, found, given.mono goes.since_subset, rest⟩

theorem changes_step {c : Call} (quiet : answers c = false) (r : signature.Reply c) :
    changes (⟨c, r⟩ :: h) = if c.alters then ⟨c, r⟩ :: changes h else changes h := by
  have now : current (⟨c, r⟩ :: h) = ⟨c, r⟩ :: current h := since_step quiet r
  rw [changes, now]
  exact List.filter_cons

/-- The run goes on from `x` to `x'` with the same message, and with no more of a release. -/
structure Quiet (x x' : World × Record) : Prop where
  goes : GoesOn answers x.2 x'.2
  same : changes x'.2 = changes x.2

theorem Quiet.refl (x : World × Record) : Quiet x x := ⟨.refl _, rfl⟩

theorem quiet_of_only {p : Prog signature α} (only : p.Only (Asks fun r => r.alters = false)) :
    Safe Recorded Releases (fun _ x' => Quiet x x') p x := by
  have plain (c : Call) (asks : Asks (fun r => r.alters = false) c) :
      answers c = false ∧ c.alters = false := by
    cases c
    case send | log => cases asks
    case fetch => exact ⟨rfl, asks⟩
    all_goals exact ⟨rfl, rfl⟩
  refine (only.keeps (J := Quiet x) (.refl x) ?_).mono ?_ fun _ _ after => after
  · intro c x₁ r x₂ step asks before
    obtain ⟨quiet, other⟩ := plain c asks
    have recorded : x₂.2 = ⟨c, r⟩ :: x₁.2 := (recorded_step step).2
    refine ⟨recorded ▸ before.goes.trans (.step quiet r), ?_⟩
    rw [recorded, changes_step quiet, other]
    exact before.same
  · rintro c x₁ r x₂ step ⟨asks, -⟩
    cases c
    case fetch request token =>
      cases request
      case createRepo | putContents | dispatches => cases asks
      all_goals trivial
    case send => cases asks
    all_goals trivial

theorem Quiet.trans {x'' : World × Record} (first : Quiet x x') (next : Quiet x' x'') : Quiet x x'' :=
  ⟨first.goes.trans next.goes, next.same.trans first.same⟩

/-- What is known when GitHub has answered a request. -/
def Done (request : Request) (x : World × Record) (json : Value) (x' : World × Record) : Prop :=
  GoesOn answers x.2 x'.2 ∧ Given (current x'.2) request json ∧
    if request.alters then
      ∃ token, changes x'.2 = ⟨.fetch request token, .ok (some json)⟩ :: changes x.2
    else changes x'.2 = changes x.2

theorem githubAPI_done {request : Request} {token : Option Value}
    (ready : ∀ x', Quiet x x' → Ready x'.2 request) :
    Safe Recorded Releases (fun r x' => ∀ json, r = .ok json → Done request x json x')
      (githubAPI rt request token).run x := by
  have fetched (authToken : String) (x₁ : World × Record) (quiet : Quiet x x₁) :
      Safe Recorded Releases (fun r x' => ∀ json, r = .ok json → Done request x json x')
        (fetchJson request authToken).run x₁ := by
    refine safe_call fun response x₂ step => ⟨ready x₁ quiet, ?_⟩
    obtain rfl := step_still step rfl
    split
    case h_4 json =>
      rintro _ ⟨rfl⟩
      refine ⟨quiet.goes.trans (.step rfl _), ⟨authToken, mem_since_head rfl _⟩, ?_⟩
      have after := changes_step (h := x₁.2) (c := .fetch request authToken) rfl (.ok (some json))
      split
      case isTrue part => exact ⟨authToken, by rw [after, ← quiet.same]; exact if_pos part⟩
      case isFalse other => exact after.trans ((if_neg other).trans quiet.same)
    all_goals
      intro _ same
      cases same
  unfold githubAPI
  split
  · exact safe_ofExcept (fun authToken _ => fetched authToken x (.refl x)) fun _ _ _ same => by
      cases same
  · refine Safe.bindE (quiet_of_only generateJWT_only) (fun authToken x₁ => fetched authToken x₁) ?_
    intro _ _ _ _ same
    cases same

theorem alters_app (request : Request) (app : request.owner = none) : request.alters = false := by
  cases request
  case installations | accessTokens => rfl
  all_goals cases app

/-- What `cut_release` commits. -/
theorem cut_of_bump {ns : Numbers} {owner repo message : String} {fileData : Value}
    {content : List Char} {sha bump : Option Value} {found : Versioned} {new : Version ns.Num}
    (given : Given (current h) (.contents owner repo) fileData) (read : readContent fileData = .ok content)
    (hsha : get fileData "sha" = .ok sha) (hfound : findVersion true content = some found)
    (bumped : (found.version ns).bump ns bump = .ok new) :
    Cut h owner repo
      { message, content := Base64.encode (Utf8.encode (found.replaced (new.shown ns))), sha }
      ((found.version ns).shown ns) (new.shown ns) := by
  refine ⟨fileData, content, found, given, read, hsha, rfl, hfound, Base64.decode_encode _,
    fun small => ?_⟩
  obtain ⟨bump, next, -, bumped, old, shown⟩ := bump_exact small bumped
  refine ⟨bump, next, bumped, old, shown, ?_⟩
  rw [shown, found.replaced_plain]
  exact findVersion_set hfound next

theorem cutRelease_told {account repo bump message : Option Value} (fresh : changes x.2 = []) :
    Safe Recorded Releases
      (fun r x' => ∀ release, r = .ok release → Told x'.2 (.content (.release release)))
      (cutRelease rt account repo bump message).run x := by
  have threw : ∀ {x' : World × Record} {e : Thrown} (release : Release), Except.error e = .ok release →
      Told x'.2 (.content (.release release)) := fun _ same => by cases same
  refine Safe.bindE (quiet_of_only (generateInstallationToken_only alters_app)) ?_ fun _ _ _ => threw
  intro token x₁ quiet
  refine safe_ofExcept (fun owner _ => ?_) fun _ _ => threw
  refine safe_ofExcept (fun repo _ => ?_) fun _ _ => threw
  refine Safe.bindE (githubAPI_done fun _ _ => trivial) ?_ fun _ _ _ => threw
  intro fileData x₂ done
  obtain ⟨goes, given, same⟩ := done fileData rfl
  have fresh₂ : changes x₂.2 = [] := same.trans (quiet.same.trans fresh)
  refine safe_ofExcept (fun content read => ?_) fun _ _ => threw
  refine safe_ofExcept (fun sha hsha => ?_) fun _ _ => threw
  split
  case h_1 => exact threw
  case h_2 found hfound =>
    refine safe_ofExcept (fun new bumped => ?_) fun _ _ => threw
    refine safe_ofExcept (fun message _ => ?_) fun _ _ => threw
    refine Safe.bindE (githubAPI_done fun x' quiet => ⟨quiet.same.trans fresh₂, _, _,
      cut_of_bump (given.mono quiet.goes.since_subset) read hsha hfound bumped⟩) ?_ fun _ _ _ => threw
    intro updated x₃ done
    obtain ⟨goes₃, -, token₃, put⟩ := done updated rfl
    rw [fresh₂] at put
    refine safe_ofExcept (fun commit hcommit => ?_) fun _ _ => threw
    refine safe_ofExcept (fun commitSha hcommitSha => ?_) fun _ _ => threw
    refine Safe.bindE
      (githubAPI_done fun x' quiet => ⟨rfl, _, token₃, updated, quiet.same.trans put⟩) ?_
      fun _ _ _ => threw
    intro _ x₄ done
    obtain ⟨goes₄, -, token₄, dispatched⟩ := done _ rfl
    rintro release ⟨rfl⟩
    exact ⟨owner, repo, _, token₃, token₄, updated, _, commit, dispatched.trans (by rw [put]),
      cut_of_bump (given.mono (goes₃.trans goes₄).since_subset) read hsha hfound bumped, hcommit,
      hcommitSha⟩

theorem createRepo_told {org name priv description autoInit : Option Value}
    (fresh : changes x.2 = []) :
    Safe Recorded Releases (fun r x' => ∀ repo, r = .ok repo → Told x'.2 (.content (.repo repo)))
      (createRepo rt org name priv description autoInit).run x := by
  have threw : ∀ {x' : World × Record} {e : Thrown} (repo : Repo), Except.error e = .ok repo →
      Told x'.2 (.content (.repo repo)) := fun _ same => by cases same
  refine Safe.bindE (quiet_of_only (requireInstallation_only alters_app)) ?_ fun _ _ _ => threw
  intro inst x₁ quiet
  refine Safe.bindE (quiet_of_only (accessToken_only alters_app)) ?_ fun _ _ _ => threw
  intro tokenData x₂ quiet'
  have fresh₂ : changes x₂.2 = [] := (quiet.trans quiet').same.trans fresh
  refine safe_ofExcept (fun orgName _ => ?_) fun _ _ => threw
  refine safe_ofExcept (fun token _ => ?_) fun _ _ => threw
  refine Safe.bindE (githubAPI_done fun x' quiet => quiet.same.trans fresh₂) ?_ fun _ _ _ => threw
  intro json x₃ done
  obtain ⟨-, -, token₃, made⟩ := done json rfl
  rw [fresh₂] at made
  refine safe_ofExcept (fun fullName hfullName => ?_) fun _ _ => threw
  refine safe_ofExcept (fun htmlUrl hhtmlUrl => ?_) fun _ _ => threw
  refine safe_ofExcept (fun cloneUrl hcloneUrl => ?_) fun _ _ => threw
  refine safe_ofExcept (fun sshUrl hsshUrl => ?_) fun _ _ => threw
  rintro repo ⟨rfl⟩
  exact ⟨orgName, _, token₃, json, made, hfullName, hhtmlUrl, hcloneUrl, hsshUrl⟩

/-- A tool that changes nothing. -/
theorem told_other {y : Async α} {shown : α → Shown} (fresh : changes x.2 = [])
    (only : y.run.Only (Asks fun r => r.alters = false))
    (other : ∀ a h, changes h = [] → Told h (.content (shown a))) :
    Safe Recorded Releases (fun r x' => ∀ shown, r = .ok shown → Told x'.2 (.content shown))
      (y >>= fun a => pure (shown a)).run x := by
  refine Safe.bindE (quiet_of_only only) ?_ fun _ _ _ _ same => by cases same
  rintro a x' quiet _ ⟨rfl⟩
  exact other a x'.2 (quiet.same.trans fresh)

theorem run_told (fresh : changes x.2 = []) (args : Option Value) (tool : Tool) :
    Safe Recorded Releases (fun r x' => ∀ shown, r = .ok shown → Told x'.2 (.content shown))
      (tool.run rt args).run x := by
  have threw : ∀ {x' : World × Record} {e : Thrown} (shown : Shown), Except.error e = .ok shown →
      Told x'.2 (.content shown) := fun _ same => by cases same
  have read {f : Option Value → Async Shown} {name : String}
      (next : ∀ a, Safe Recorded Releases
        (fun r x' => ∀ shown, r = .ok shown → Told x'.2 (.content shown)) (f a).run x) :
      Safe Recorded Releases (fun r x' => ∀ shown, r = .ok shown → Told x'.2 (.content shown))
        (ofExcept (get args name) >>= f).run x :=
    safe_ofExcept (fun a _ => next a) fun _ _ => threw
  cases tool with
  | getInstallations =>
    exact told_other fresh (getInstallations_only alters_app) fun _ _ none => none
  | getInstallation =>
    exact read fun _ => told_other fresh (getInstallation_only alters_app) fun _ _ none => none
  | checkPermission =>
    exact read fun _ => read fun _ =>
      told_other fresh (checkPermission_only alters_app) fun _ _ none => none
  | generateToken =>
    exact read fun _ =>
      told_other fresh (generateInstallationToken_only alters_app) fun _ _ none => none
  | createRepo =>
    refine read fun org => read fun name => read fun priv => read fun description =>
      read fun autoInit => ?_
    refine Safe.bindE (createRepo_told fresh) ?_ fun _ _ _ => threw
    rintro repo x' told _ ⟨rfl⟩
    exact told repo rfl
  | cutRelease =>
    refine read fun account => read fun repo => read fun bump => read fun message => ?_
    refine Safe.bindE (cutRelease_told fresh) ?_ fun _ _ _ => threw
    rintro release x' told _ ⟨rfl⟩
    exact told release rfl

theorem changes_answered {c : Call} (answer : answers c = true) (r : signature.Reply c) :
    changes (⟨c, r⟩ :: h) = [] := by
  have none : current (⟨c, r⟩ :: h) = [] := since_mark answer r
  rw [changes, none]
  rfl

theorem send_told {m : Message} (told : Told x.2 m.payload) :
    Safe Recorded Releases (fun _ x' => changes x'.2 = []) (call (.send m)).run x := by
  intro r x' step
  exact ⟨told, (congrArg changes (recorded_step step).2).trans (changes_answered rfl r)⟩

theorem log_told {err : Thrown} :
    Safe Recorded Releases (fun _ x' => changes x'.2 = []) (ask (S := signature) (.log err)) x := by
  intro r x' step
  exact ⟨trivial, (congrArg changes (recorded_step step).2).trans (changes_answered rfl r)⟩

theorem callTool_told (fresh : changes x.2 = []) (id name args : Option Value) :
    Safe Recorded Releases (fun r x' => r = .ok () → changes x'.2 = [])
      (callTool rt id name args).run x := by
  have sent {m : Message} {x' : World × Record} (told : Told x'.2 m.payload) :
      Safe Recorded Releases (fun r x' => r = .ok () → changes x'.2 = []) (call (.send m)).run x' :=
    Safe.post (send_told told) fun _ _ none _ => none
  unfold callTool
  split
  · exact safe_ofExcept (fun _ _ => sent trivial) fun _ _ same => by cases same
  · refine Safe.bindE (run_told fresh args _) (fun shown x' told => sent (told shown rfl)) ?_
    intro _ _ _ same
    cases same

theorem handleMessage_told (fresh : changes x.2 = []) (msg : Value) :
    Safe Recorded Releases (fun _ x' => changes x'.2 = []) (handleMessage rt msg).run x := by
  refine safe_ofExcept (fun id _ => ?_) fun _ _ => fresh
  refine safe_ofExcept (fun method _ => ?_) fun _ _ => fresh
  refine safe_ofExcept (fun params _ => ?_) fun _ _ => fresh
  refine safe_ite (fun _ => send_told fresh) fun _ => ?_
  refine safe_ite (fun _ => fresh) fun _ => ?_
  refine safe_ite (fun _ => send_told fresh) fun _ => ?_
  refine safe_ite (fun _ => ?_) fun _ => ?_
  · refine safe_ofExcept (fun name _ => ?_) fun _ _ => fresh
    refine safe_ofExcept (fun args _ => ?_) fun _ _ => fresh
    refine Safe.liftE (callTool_told fresh id name args) fun r x' done => ?_
    cases r with
    | ok _ => exact done rfl
    | error e => exact send_told trivial
  · exact safe_ofExcept (fun _ _ => send_told trivial) fun _ _ => fresh

theorem serve_told (fresh : changes x.2 = []) (raws : List (List ℕ)) :
    Safe Recorded Releases (fun _ x' => changes x'.2 = []) (serve rt raws) x := by
  induction raws generalizing x with
  | nil => exact fresh
  | cons raw raws ih =>
    refine Safe.bind (R := fun _ x' => changes x'.2 = []) ?_ fun _ _ fresh => ih fresh
    unfold processMessage
    split
    · exact log_told
    · refine Safe.bind (handleMessage_told fresh _) fun r x' fresh => ?_
      cases r with
      | ok _ => exact fresh
      | error e => exact log_told

end

/-- Whatever the server is sent, and whatever GitHub answers, a message changes one thing: a repository
is made, or a release is committed once, with a version that comes after the one in the file, and built
once after its commit.  It is told of when what it says was accepted. -/
theorem releases_in_order (rt : Runtime) (chunks : List (List UInt8)) :
    EveryStep Recorded Releases (main rt chunks) ({}, []) := by
  unfold main
  split
  · exact (Safe.ret (Q := fun _ _ => True) trivial).everyStep
  · exact Safe.everyStep (serve_told rfl _)

end Codery.GithubApp
