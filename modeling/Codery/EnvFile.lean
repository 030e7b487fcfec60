import Codery.Caddyfile
import Mathlib.Data.List.Induction
import Mathlib.Data.List.TakeWhile

/-! The readers of `/opt/codery/.env`: Caddy's, that of the checks before a deploy, that of the
containers, and that of the domain. -/

namespace Codery

def envFile : String := "/opt/codery/.env"

def defaultDomain : String := "example.com"

/-- A `HashMap<String, String>`, by its `get`. -/
abbrev EnvMap := String → Option String

/-- The map into which the pairs are inserted one after the other. -/
def collect (pairs : List (String × String)) : EnvMap :=
  pairs.foldl (fun m p => Function.update m p.1 (some p.2)) fun _ => none

/-- `str::split_once('=')`. -/
def splitOnce (l : String) : Option (String × String) :=
  let cs := l.toList
  if '=' ∈ cs then
    some (String.ofList (cs.takeWhile (· ≠ '=')), String.ofList (cs.dropWhile (· ≠ '=')).tail)
  else none

/-- The lines that are neither blank nor comments. -/
def entryLines (content : String) : List String :=
  (lines content).filter fun l => trim l ≠ "" ∧ l.toList.head? ≠ some '#'

/-- `load_env_map`; a file that cannot be read is an empty one. -/
def Validate.loadEnvMap : Option String → EnvMap
  | none => fun _ => none
  | some content => collect ((entryLines content).filterMap splitOnce)

/-- `load_env_file`. -/
def Deploy.loadEnvFile : Option String → Except String (List String)
  | none => .error ("failed to read " ++ envFile)
  | some content => .ok (entryLines content)

/-- The domain that `load_domain` finds in a line. -/
def domainLine (line : String) : Option String :=
  let line := trim line
  if line.toList.head? = some '#' ∨ line = "" then none
  else match stripPrefix "DOMAIN_NAME=" line with
    | none => none
    | some value => if trim value = "" then none else some (trim value)

def foundDomain (content : String) : Option String := (lines content).findSome? domainLine

def loadDomain (env : Option String) : String := (env.bind foundDomain).getD defaultDomain

/-! ### Maps and lines -/

section Collect

variable {pairs : List (String × String)} {k v : String} {l : String}

theorem collect_append {k' : String} :
    collect (pairs ++ [(k', v)]) k = if k = k' then some v else collect pairs k := by
  simp only [collect, List.foldl_append, List.foldl_cons, List.foldl_nil, Function.update_apply]

/-- Of several values for a key the last one counts. -/
theorem collect_eq : collect pairs k = ((pairs.filter (·.1 = k)).map (·.2)).getLast? := by
  induction pairs using List.reverseRecOn with
  | nil => rfl
  | append_singleton pairs p ih =>
    obtain ⟨k', v⟩ := p
    rw [collect_append, List.filter_append, List.map_append, List.getLast?_append, ih]
    by_cases same : k = k'
    · simp [same]
    · simp [same, Ne.symm same]

theorem collect_map (f : String → String) :
    collect (pairs.map fun p => (p.1, f p.2)) k = (collect pairs k).map f := by
  rw [collect_eq, collect_eq, ← List.getLast?_map, List.filter_map, List.map_map, List.map_map]
  rfl

theorem collect_eq_none_iff {p : List (String × String)} :
    collect p k = none ↔ ∀ x ∈ p, x.1 ≠ k := by
  simp [collect_eq]

theorem mem_of_collect (found : collect pairs k = some v) : (k, v) ∈ pairs := by
  rw [collect_eq] at found
  obtain ⟨⟨k', v'⟩, mem, same⟩ := List.mem_map.mp (List.mem_of_getLast? found)
  obtain ⟨mem, named⟩ := List.mem_filter.mp mem
  have named : k' = k := of_decide_eq_true named
  have same : v' = v := same
  exact named ▸ same ▸ mem

/-- What `split_once` splits, with the sign between the parts, is the line. -/
theorem cut_at {c : Char} {cs : List Char} (mem : c ∈ cs) :
    cs = cs.takeWhile (· ≠ c) ++ c :: (cs.dropWhile (· ≠ c)).tail := by
  induction cs with
  | nil => cases mem
  | cons a cs ih =>
    by_cases here : a = c
    · subst here
      simp
    · rw [List.takeWhile_cons_of_pos (by simpa using here),
        List.dropWhile_cons_of_pos (by simpa using here), List.cons_append,
        ← ih ((List.mem_cons.mp mem).resolve_left (Ne.symm here))]

theorem not_mem_takeWhile_ne {c : Char} {cs : List Char} : c ∉ cs.takeWhile (· ≠ c) := by
  intro mem
  have kept := List.mem_takeWhile_imp mem
  simp at kept

theorem splitOnce_eq_some_iff :
    splitOnce l = some (k, v) ↔ l.toList = k.toList ++ '=' :: v.toList ∧ '=' ∉ k.toList := by
  simp only [splitOnce]
  constructor
  · intro made
    split at made
    · next mem =>
      cases made
      rw [String.toList_ofList, String.toList_ofList]
      exact ⟨cut_at mem, not_mem_takeWhile_ne⟩
    · cases made
  · rintro ⟨whole, plain⟩
    have name : ∀ c ∈ k.toList, decide (c ≠ '=') = true := by
      intro c mem
      exact decide_eq_true fun same => plain (same ▸ mem)
    have key : l.toList.takeWhile (· ≠ '=') = k.toList := by
      rw [whole, List.takeWhile_append_of_pos name, List.takeWhile_cons_of_neg (by decide),
        List.append_nil]
    have value : (l.toList.dropWhile (· ≠ '=')).tail = v.toList := by
      rw [whole, List.dropWhile_append_of_pos name, List.dropWhile_cons_of_neg (by decide),
        List.tail_cons]
    have mem : '=' ∈ l.toList := by simp [whole]
    simp only [if_pos mem, key, value, String.ofList_toList]

end Collect

/-! ### Where the readers agree -/

section Readers

variable {content : String} {ip : Option String} {k v : String}

/-- The values that lines of the file give the key, in their order. -/
def assigned (content k : String) : List String :=
  (((entryLines content).filterMap splitOnce).filter (·.1 = k)).map (·.2)

def Quoted (v : String) : Prop :=
  2 ≤ v.toList.length ∧ ((v.toList.head? = some '"' ∧ v.toList.getLast? = some '"') ∨
    (v.toList.head? = some '\x27' ∧ v.toList.getLast? = some '\x27'))

/-- The readers of the file give `k` the same value, or none; `ip` is what `/run/tailscale.ip`
holds. -/
structure Agree (content : String) (ip : Option String) (k : String) : Prop where
  caddy : collect (Caddy.loadEnvPairs (some content) ip) k = Validate.loadEnvMap (some content) k
  container : ∀ entries, Deploy.loadEnvFile (some content) = .ok entries →
    collect (entries.filterMap splitOnce) k = Validate.loadEnvMap (some content) k
  domain : k = "DOMAIN_NAME" → foundDomain content = Validate.loadEnvMap (some content) k

/-- The file is written so that no reader takes `k` otherwise than another. -/
structure Plain (content : String) (ip : Option String) (k : String) : Prop where
  /-- The last value for the key has no blanks around it and is not quoted. -/
  bare : ∀ v, (assigned content k).getLast? = some v → trim v = v ∧ ¬ Quoted v
  /-- The address of the host comes from the file, or there is none. -/
  tailscale : k = "TAILSCALE_IP" → assigned content k = [] → ∀ a, ip = some a → trim a = ""
  /-- The first line that names a domain, however indented, and the last one that assigns it have
  the same. -/
  domain : k = "DOMAIN_NAME" →
    ((lines content).filterMap domainLine).head? = (assigned content k).getLast?

theorem loadEnvMap_eq : Validate.loadEnvMap (some content) k = (assigned content k).getLast? :=
  collect_eq

theorem envPair_eq (l : String) :
    Caddy.envPair l = (splitOnce l).map fun p => (p.1, Caddy.unquote (trim p.2)) := by
  simp only [Caddy.envPair, splitOnce]
  split <;> rfl

theorem unquote_length_lt (quoted : Quoted v) :
    (Caddy.unquote v).toList.length < v.toList.length := by
  have unquoted : Caddy.unquote v = String.ofList v.toList.tail.dropLast := by
    simp only [Caddy.unquote]
    refine if_pos ⟨quoted.1, ?_⟩
    simpa using quoted.2
  rw [unquoted, String.toList_ofList, List.length_dropLast, List.length_tail]
  have long := quoted.1
  omega

theorem unquote_of_not (bare : ¬ Quoted v) : Caddy.unquote v = v := by
  simp only [Caddy.unquote]
  refine if_neg fun quoted => bare ⟨quoted.1, ?_⟩
  simpa using quoted.2

theorem trim_sublist : (trim v).toList.Sublist v.toList := by
  rw [trim, String.toList_ofList]
  have ends := (List.dropWhile_sublist isWhitespace
    (l := (v.toList.dropWhile isWhitespace).reverse)).reverse
  rw [List.reverse_reverse] at ends
  exact ends.trans (List.dropWhile_sublist _)

/-- Trimming and unquoting leave a value as it is exactly when neither has anything to take off. -/
theorem unquote_trim_iff : Caddy.unquote (trim v) = v ↔ trim v = v ∧ ¬ Quoted v := by
  constructor
  · intro same
    have shorter := trim_sublist (v := v)
    by_cases quoted : Quoted (trim v)
    · have less := unquote_length_lt quoted
      rw [same] at less
      exact absurd shorter.length_le (Nat.not_le_of_lt less)
    · rw [unquote_of_not quoted] at same
      exact ⟨same, same ▸ quoted⟩
  · rintro ⟨trimmed, bare⟩
    rw [trimmed, unquote_of_not bare]

/-- The pairs of the file itself, as Caddy takes them. -/
theorem collect_envPairs (content k : String) :
    collect ((entryLines content).filterMap Caddy.envPair) k =
    (Validate.loadEnvMap (some content) k).map fun v => Caddy.unquote (trim v) := by
  have pairs : (entryLines content).filterMap Caddy.envPair =
      ((entryLines content).filterMap splitOnce).map fun p => (p.1, Caddy.unquote (trim p.2)) := by
    rw [List.map_filterMap]
    exact List.filterMap_congr fun l _ => envPair_eq l
  rw [pairs]
  exact collect_map fun v => Caddy.unquote (trim v)

theorem named_iff (content k : String) :
    ((entryLines content).filterMap Caddy.envPair).any (·.1 == k) = true ↔
      assigned content k ≠ [] := by
  have unnamed := collect_eq_none_iff (k := k) (p := (entryLines content).filterMap Caddy.envPair)
  rw [collect_envPairs, Option.map_eq_none_iff, loadEnvMap_eq, List.getLast?_eq_none_iff] at unnamed
  rw [Ne, unnamed, List.any_eq_true]
  push Not
  exact exists_congr fun p => and_congr_right fun _ => beq_iff_eq

/-- What Caddy is given: the pairs of the file, and the address of the host where the file does
not have it. -/
theorem collect_loadEnvPairs : collect (Caddy.loadEnvPairs (some content) ip) k =
    if k = "TAILSCALE_IP" ∧ assigned content k = [] then (ip.map trim).filter (· ≠ "")
    else (Validate.loadEnvMap (some content) k).map fun v => Caddy.unquote (trim v) := by
  have file := collect_envPairs content k
  have unassigned (missing : assigned content "TAILSCALE_IP" = []) (same : k = "TAILSCALE_IP") :
      (Validate.loadEnvMap (some content) k).map (fun v => Caddy.unquote (trim v)) = none := by
    rw [loadEnvMap_eq, same, missing]
    rfl
  have named := named_iff content "TAILSCALE_IP"
  have kept : (lines content).filter (fun l => trim l ≠ "" ∧ l.toList.head? ≠ some '#') =
      entryLines content := rfl
  simp only [Caddy.loadEnvPairs, kept]
  generalize (entryLines content).filterMap Caddy.envPair = pairs at file named ⊢
  by_cases missing : assigned content "TAILSCALE_IP" = []
  · rw [if_neg fun any => named.mp any missing]
    have appended (a : String) : collect (pairs ++ [("TAILSCALE_IP", a)]) k =
        if k = "TAILSCALE_IP" then some a else collect pairs k := collect_append
    by_cases same : k = "TAILSCALE_IP"
    · rw [if_pos ⟨same, same ▸ missing⟩]
      have alone := file.trans (unassigned missing same)
      cases ip.map trim with
      | none => exact alone
      | some a =>
        subst same
        by_cases blank : a = "" <;> simp [Option.filter, blank, appended, alone]
    · rw [if_neg fun h => same h.1, ← file]
      cases ip.map trim with
      | none => rfl
      | some a => by_cases blank : a = "" <;> simp [blank, appended, same]
  · rw [if_pos (named.mpr missing), if_neg, file]
    rintro ⟨rfl, none⟩
    exact missing none

theorem caddy_agrees_iff :
    collect (Caddy.loadEnvPairs (some content) ip) k = Validate.loadEnvMap (some content) k ↔
      (∀ v, (assigned content k).getLast? = some v → trim v = v ∧ ¬ Quoted v) ∧
        (k = "TAILSCALE_IP" → assigned content k = [] → ∀ a, ip = some a → trim a = "") := by
  rw [collect_loadEnvPairs, loadEnvMap_eq]
  split
  · next host =>
    obtain ⟨name, missing⟩ := host
    rw [missing]
    constructor
    · intro absent
      refine ⟨fun v last => absurd last (by simp), fun _ _ a found => ?_⟩
      subst found
      by_contra address
      simp [address] at absent
    · rintro ⟨-, blank⟩
      cases ip with
      | none => rfl
      | some a => simp [blank name rfl a rfl]
  · next file =>
    constructor
    · intro same
      refine ⟨fun v last => unquote_trim_iff.mp ?_, fun name missing => absurd ⟨name, missing⟩ file⟩
      rw [last] at same
      exact Option.some.inj same
    · rintro ⟨bare, -⟩
      cases last : (assigned content k).getLast? with
      | none => rfl
      | some v => exact congrArg some (unquote_trim_iff.mpr (bare v last))

/-- The readers agree on a key exactly where the file is plain about it. -/
theorem readers_agree_iff (content : String) (ip : Option String) (k : String) :
    Agree content ip k ↔ Plain content ip k := by
  have domains : foundDomain content = ((lines content).filterMap domainLine).head? :=
    (List.head?_filterMap ..).symm
  constructor
  · intro agree
    obtain ⟨bare, tailscale⟩ := caddy_agrees_iff.mp agree.caddy
    exact ⟨bare, tailscale, fun name => domains ▸ (agree.domain name).trans loadEnvMap_eq⟩
  · intro plain
    refine ⟨caddy_agrees_iff.mpr ⟨plain.bare, plain.tailscale⟩, ?_, fun name => ?_⟩
    · rintro entries ⟨⟩
      rfl
    · rw [domains, plain.domain name, loadEnvMap_eq]

/-- A domain in quotes: Caddy and the containers do not see what the Caddyfile says. -/
theorem readers_disagree : ¬ ∀ (content : String) (ip : Option String) (k : String),
    Agree content ip k := by
  intro all
  have agree := (all "DOMAIN_NAME=\"codery.dev\"\n" none "DOMAIN_NAME").caddy
  revert agree
  decide

end Readers

end Codery
