import Codery.ServiceDef
import Codery.Substitution

/-! The environment and the mounts of a container: what `check_deploy` asks of `.env` and of the
host, and what `start_container` makes of the same file (`validate.rs`, `service_def.rs`,
`deploy.rs`). -/

namespace Codery

inductive VolumeMount
  | named (name container : String)
  | bind (host container : String) (readonly : Bool)
  deriving DecidableEq

/-- `env_overrides`, a map. -/
structure Overrides where
  entries : List (String × String)
  nodup : (entries.map (·.1)).Nodup

/-- A `ServiceDef` with the fields that concern its environment and its mounts. -/
structure ContainerDef extends ServiceDef where
  volumes : List VolumeMount
  requiredEnv : List String := []
  envOverrides : Option Overrides := none

def ContainerDef.overrides (d : ContainerDef) : List (String × String) :=
  (d.envOverrides.map (·.entries)).getD []

/-- An order in which the overrides are iterated. -/
def ContainerDef.Iterates (d : ContainerDef) (order : List (String × String)) : Prop :=
  order.Perm d.overrides

/-- The line `KEY=VALUE`. -/
def envLine (p : String × String) : String := p.1 ++ "=" ++ p.2

/-- `line.starts_with("KEY=")`. -/
def Begins (k line : String) : Prop := (k ++ "=").toList <+: line.toList

instance (k line : String) : Decidable (Begins k line) :=
  inferInstanceAs (Decidable (_ <+: _))

def applyOverride (env : List String) (p : String × String) : List String :=
  env.filter (fun line => ¬ Begins p.1 line) ++ [envLine p]

/-- `resolved_env`, the overrides in the order given. -/
def resolvedEnv (order : List (String × String)) (rawEnv : List String) : List String :=
  order.foldl applyOverride rawEnv

/-- What Docker is given for one volume. -/
def resolvedBind (fuel : ℕ) (env : EnvMap) : VolumeMount → Option (Except String String)
  | .named name container => some (.ok (name ++ ":" ++ container))
  | .bind host container readonly =>
    (ServiceDef.substituteEnv fuel host env).map fun r => r.map fun resolved =>
      resolved ++ ":" ++ container ++ (if readonly then ":ro" else "")

def resolvedBinds (fuel : ℕ) (env : EnvMap) : List VolumeMount → Option (Except String (List String))
  | [] => some (.ok [])
  | vol :: volumes =>
    match resolvedBind fuel env vol with
    | none => none
    | some (.error e) => some (.error e)
    | some (.ok bind) => (resolvedBinds fuel env volumes).map fun r => r.map (bind :: ·)

namespace Validate

/-- What the first two checks report, and the host paths they look for, in turn. -/
structure HostCheck where
  errors : List String
  tested : List String
  deriving DecidableEq

def missingError (key : String) : String :=
  "required env var '" ++ key ++ "' not found in " ++ envFile

def substitutionError (e : String) : String := "volume host path substitution failed: " ++ e

def pathError (resolved : String) : String := "bind-mount host path does not exist: " ++ resolved

/-- Bind-mount host paths; `present` says which paths exist. -/
def checkBinds (fuel : ℕ) (present : String → Bool) (env : EnvMap) :
    List VolumeMount → Option HostCheck
  | [] => some { errors := [], tested := [] }
  | .named _ _ :: volumes => checkBinds fuel present env volumes
  | .bind host _ _ :: volumes =>
    match substituteEnv fuel host env with
    | none => none
    | some (.error e) => (checkBinds fuel present env volumes).map fun c =>
        { c with errors := substitutionError e :: c.errors }
    | some (.ok resolved) => (checkBinds fuel present env volumes).map fun c =>
        { errors := (if present resolved then [] else [pathError resolved]) ++ c.errors
          tested := resolved :: c.tested }

/-- The checks of `check_deploy` that read `.env`. -/
def checkHost (fuel : ℕ) (present : String → Bool) (file : Option String) (d : ContainerDef) :
    Option HostCheck :=
  let env := loadEnvMap file
  let missing := (d.requiredEnv.filter fun key => (env key).isNone).map missingError
  (checkBinds fuel present env d.volumes).map fun c => { c with errors := missing ++ c.errors }

/-- No required variable is missing, and no substitution failed. -/
structure HostCheck.Clean (d : ContainerDef) (c : HostCheck) : Prop where
  required : ∀ key ∈ d.requiredEnv, missingError key ∉ c.errors
  substituted : ∀ e, substitutionError e ∉ c.errors

end Validate

namespace Deploy

structure ContainerConfig where
  env : List String
  binds : List String

def containerEnv (order : List (String × String)) (file : Option String) :
    Except String (List String) :=
  (loadEnvFile file).map (resolvedEnv order)

/-- What `start_container` reads from `.env` and hands to `create_container`. -/
def containerConfig (fuel : ℕ) (d : ContainerDef) (order : List (String × String))
    (file : Option String) : Option (Except String ContainerConfig) :=
  match loadEnvFile file with
  | .error e => some (.error e)
  | .ok rawEnv =>
    let env := resolvedEnv order rawEnv
    let envMap := collect (rawEnv.filterMap splitOnce)
    (resolvedBinds fuel envMap d.volumes).map fun r => r.map fun binds => { env, binds }

end Deploy

variable {d : ContainerDef} {order order' : List (String × String)} {raw env : List String}
  {p q : String × String} {k l : String}

/-! ### Overrides -/

theorem begins_envLine : Begins p.1 (envLine p) := by
  rw [Begins, envLine, String.toList_append (t := p.2)]
  exact List.prefix_append _ _

theorem resolvedEnv_concat : resolvedEnv (order ++ [q]) raw = applyOverride (resolvedEnv order raw) q := by
  simp only [resolvedEnv, List.foldl_append, List.foldl_cons, List.foldl_nil]

theorem mem_applyOverride : l ∈ applyOverride env p ↔ (l ∈ env ∧ ¬ Begins p.1 l) ∨ l = envLine p := by
  simp [applyOverride]

theorem begins_iff : Begins k l ↔ ∃ t, l.toList = k.toList ++ '=' :: t := by
  have sign : "=".toList = ['='] := rfl
  rw [Begins, String.toList_append, sign]
  constructor
  · rintro ⟨t, whole⟩
    exact ⟨t, by simp [← whole]⟩
  · rintro ⟨t, whole⟩
    exact ⟨t, by simp [whole]⟩

/-- Keys without `=` in them begin a line only where they are its key. -/
theorem begins_envLine_iff (hk : '=' ∉ k.toList) (hp : '=' ∉ p.1.toList) :
    Begins k (envLine p) ↔ k = p.1 := by
  constructor
  · intro begins
    obtain ⟨t, whole⟩ := begins_iff.mp begins
    have plain : (envLine p).toList = p.1.toList ++ '=' :: p.2.toList := by
      simp [envLine]
    have key := splitOnce_eq_some_iff.mpr ⟨plain, hp⟩
    have same := splitOnce_eq_some_iff.mpr
      (show (envLine p).toList = k.toList ++ '=' :: (String.ofList t).toList ∧ _ by
        rw [String.toList_ofList]
        exact ⟨whole, hk⟩)
    rw [key] at same
    simp only [Option.some.injEq, Prod.mk.injEq] at same
    exact same.1.symm
  · rintro rfl
    exact begins_envLine

/-- No override has a key that begins the line. -/
def Untouched (entries : List (String × String)) (line : String) : Prop :=
  ∀ p ∈ entries, ¬ Begins p.1 line

instance (entries : List (String × String)) (line : String) : Decidable (Untouched entries line) :=
  inferInstanceAs (Decidable (∀ p ∈ entries, ¬ Begins p.1 line))

theorem untouched_concat : Untouched (order ++ [q]) l ↔ Untouched order l ∧ ¬ Begins q.1 l := by
  simp [Untouched, or_imp, forall_and]

theorem Untouched.perm (same : order.Perm order') : Untouched order l ↔ Untouched order' l :=
  forall_congr' fun _ => imp_congr_left same.mem_iff

/-- Lines appended for overrides stay, where no key has `=` in it. -/
theorem resolvedEnv_eq (nodup : (order.map (·.1)).Nodup) (plain : ∀ p ∈ order, '=' ∉ p.1.toList) :
    resolvedEnv order raw = raw.filter (Untouched order ·) ++ order.map envLine := by
  induction order using List.reverseRecOn with
  | nil => simp [resolvedEnv, Untouched]
  | append_singleton order q ih =>
    rw [List.map_append, List.nodup_append'] at nodup
    obtain ⟨distinct, -, apart⟩ := nodup
    simp only [List.forall_mem_append, List.forall_mem_singleton] at plain
    have stay : ∀ p ∈ order, ¬ Begins q.1 (envLine p) := by
      intro p mem begins
      have same := (begins_envLine_iff plain.2 (plain.1 p mem)).mp begins
      exact apart (List.mem_map_of_mem mem) (by simp [same])
    have kept : (order.map envLine).filter (fun line => ¬ Begins q.1 line) = order.map envLine := by
      rw [List.filter_eq_self]
      intro line mem
      obtain ⟨p, here, rfl⟩ := List.mem_map.mp mem
      exact decide_eq_true (stay p here)
    rw [resolvedEnv_concat, ih distinct plain.1, applyOverride, List.filter_append, kept,
      List.filter_filter, List.map_append, List.append_assoc]
    congr 1
    refine List.filter_congr fun line _ => ?_
    simp [untouched_concat, and_comm]

theorem splitOnce_envLine (plain : '=' ∉ p.1.toList) : splitOnce (envLine p) = some p :=
  splitOnce_eq_some_iff.mpr ⟨by simp [envLine], plain⟩

theorem begins_of_split {v : String} (split : splitOnce l = some (k, v)) : Begins k l :=
  begins_iff.mpr ⟨v.toList, (splitOnce_eq_some_iff.mp split).1⟩

/-- An override's line is the only one of its key among those of the overrides. -/
theorem lines_of_key (nodup : (order.map (·.1)).Nodup) (plain : ∀ p ∈ order, '=' ∉ p.1.toList)
    (mem : p ∈ order) :
    (order.map envLine).filter (fun line => (splitOnce line).map (·.1) = some p.1) = [envLine p] := by
  have one : order.filter (fun q => (splitOnce (envLine q)).map (·.1) = some p.1) = [p] := by
    have key : ∀ q ∈ order, decide ((splitOnce (envLine q)).map (·.1) = some p.1) = decide (q = p) := by
      intro q here
      rw [splitOnce_envLine (plain q here), decide_eq_decide]
      constructor
      · intro same
        exact List.inj_on_of_nodup_map nodup here mem (Option.some.inj same)
      · rintro rfl
        rfl
    rw [List.filter_congr key, List.filter_eq, List.count_eq_one_of_mem nodup.of_map mem]
    rfl
  rw [List.filter_map]
  exact congrArg (List.map envLine) one

section Overrides

variable {o : Overrides} {order : List (String × String)}

theorem resolvedEnv_of_perm (plain : ∀ p ∈ o.entries, '=' ∉ p.1.toList) (same : order.Perm o.entries)
    (raw : List String) :
    resolvedEnv order raw = raw.filter (Untouched o.entries ·) ++ order.map envLine := by
  rw [resolvedEnv_eq ((same.map _).nodup_iff.mpr o.nodup) fun p mem => plain p (same.mem_iff.mp mem)]
  simp only [Untouched.perm same]

/-- No line that is left of the file has the key of an override. -/
theorem filter_key_untouched {p : String × String} (mem : p ∈ o.entries) (raw : List String) :
    (raw.filter (Untouched o.entries ·)).filter
      (fun line => (splitOnce line).map (·.1) = some p.1) = [] := by
  rw [List.filter_eq_nil_iff]
  intro line kept key
  have untouched := of_decide_eq_true (List.mem_filter.mp kept).2
  obtain ⟨⟨k, v⟩, split, named⟩ := Option.map_eq_some_iff.mp (of_decide_eq_true key)
  exact untouched p mem (named ▸ begins_of_split split)

/-- Every line of an override begins with its key. -/
theorem filter_untouched_lines (same : order.Perm o.entries) :
    (order.map envLine).filter (Untouched o.entries ·) = [] := by
  rw [List.filter_eq_nil_iff]
  intro line mem untouched
  obtain ⟨p, here, rfl⟩ := List.mem_map.mp mem
  exact of_decide_eq_true untouched p (same.mem_iff.mp here) begins_envLine

end Overrides

/-- Whatever the order in which overrides are applied, each of them has one line, and the lines of
the file whose keys are not overridden are all there as they were. -/
theorem resolvedEnv_overrides (o : Overrides) (raw : List String)
    (plain : ∀ p ∈ o.entries, '=' ∉ p.1.toList) :
    (∀ order, order.Perm o.entries →
      (∀ p ∈ o.entries, (resolvedEnv order raw).filter
        (fun line => (splitOnce line).map (·.1) = some p.1) = [envLine p]) ∧
      (resolvedEnv order raw).filter (Untouched o.entries ·) = raw.filter (Untouched o.entries ·)) ∧
    ∀ order order', order.Perm o.entries → order'.Perm o.entries →
      ∃ kept lines lines', resolvedEnv order raw = kept ++ lines ∧
        resolvedEnv order' raw = kept ++ lines' ∧ lines.Perm lines' ∧
        ∀ line ∈ lines, ∃ p ∈ o.entries, line = envLine p := by
  constructor
  · intro order same
    rw [resolvedEnv_of_perm plain same]
    constructor
    · intro p mem
      rw [List.filter_append, filter_key_untouched mem, List.nil_append]
      exact lines_of_key ((same.map _).nodup_iff.mpr o.nodup)
        (fun p mem => plain p (same.mem_iff.mp mem)) (same.mem_iff.mpr mem)
    · rw [List.filter_append, filter_untouched_lines same, List.append_nil, List.filter_filter]
      simp
  · intro order order' same same'
    refine ⟨raw.filter (Untouched o.entries ·), _, _, resolvedEnv_of_perm plain same raw,
      resolvedEnv_of_perm plain same' raw, (same.trans same'.symm).map _, fun line mem => ?_⟩
    obtain ⟨p, here, rfl⟩ := List.mem_map.mp mem
    exact ⟨p, same.mem_iff.mp here, rfl⟩

/-- Two overrides, the key of one a prefix of the other's. -/
def nested : Overrides where
  entries := [("PORT", "7456"), ("PORT_MAX", "9000")]
  nodup := by decide

theorem resolvedEnv_overrides_nested :
    (resolvedEnv [("PORT_MAX", "9000"), ("PORT", "7456")] ["PORT=1", "HOME=/", "PORT_MAX=2"]).filter
      (fun line => (splitOnce line).map (·.1) = some "PORT") = ["PORT=7456"] :=
  ((resolvedEnv_overrides nested _ (by decide)).1 _ (by decide)).1 ("PORT", "7456") (by decide)

end Codery
