import Codery.ContainerEnv

/-! What the checks before a deploy promise of the container that is started from the same `.env`,
and what becomes of the placeholders in its environment. -/

namespace Codery

variable {d : ContainerDef} {order order' : List (String × String)} {raw env : List String}
  {p q : String × String} {k l content : String} {m n : ℕ} {vars : EnvMap}
  {present : String → Bool} {volumes : List VolumeMount}

/-! ### Checked, then started -/

/-- The strings for Docker when the bind mounts take the host paths in turn. -/
def mounted : List VolumeMount → List String → List String
  | .named name container :: volumes, hosts => (name ++ ":" ++ container) :: mounted volumes hosts
  | .bind _ container readonly :: volumes, host :: hosts =>
    (host ++ ":" ++ container ++ (if readonly then ":ro" else "")) :: mounted volumes hosts
  | _, _ => []

/-- A line of the environment has this key. -/
def Defines (env : List String) (k : String) : Prop := ∃ l ∈ env, ∃ v, splitOnce l = some (k, v)

theorem substituteEnv_mono {s : String} {r : Except String String} (le : n ≤ m)
    (ended : Validate.substituteEnv n s vars = some r) : ServiceDef.substituteEnv m s vars = some r :=
  Effect.loop_mono ended le

theorem resolvedBinds_checked {c : Validate.HostCheck} (le : n ≤ m)
    (checked : Validate.checkBinds n present vars volumes = some c)
    (clean : ∀ e, Validate.substitutionError e ∉ c.errors) :
    resolvedBinds m vars volumes = some (.ok (mounted volumes c.tested)) := by
  induction volumes generalizing c with
  | nil =>
    cases checked
    rfl
  | cons vol volumes ih =>
    cases vol with
    | named name container =>
      rw [resolvedBinds, resolvedBind, ih checked clean]
      rfl
    | bind host container readonly =>
      rw [Validate.checkBinds] at checked
      cases ended : Validate.substituteEnv n host vars with
      | none =>
        rw [ended] at checked
        cases checked
      | some r =>
        rw [ended] at checked
        cases r with
        | error e =>
          obtain ⟨c', -, rfl⟩ := Option.map_eq_some_iff.mp checked
          exact absurd List.mem_cons_self (clean e)
        | ok resolved =>
          obtain ⟨c', rest, rfl⟩ := Option.map_eq_some_iff.mp checked
          have later := ih rest fun e mem => clean e (List.mem_append_right _ mem)
          rw [resolvedBinds, resolvedBind, substituteEnv_mono le ended]
          simp only [Option.map_some, Except.map, later, mounted]

theorem takeWhile_before {c : Char} {s t : List Char} :
    (s ++ c :: t).takeWhile (· ≠ c) = s.takeWhile (· ≠ c) := by
  induction s with
  | nil => simp
  | cons a s ih => simp only [List.cons_append, List.takeWhile_cons, ih]

theorem key_eq {s : List Char} {t : List Char} (whole : l.toList = s ++ '=' :: t) :
    (splitOnce l).map (·.1) = some (String.ofList (s.takeWhile (· ≠ '='))) := by
  have mem : '=' ∈ l.toList := by simp [whole]
  simp only [splitOnce, if_pos mem, Option.map_some]
  rw [whole, takeWhile_before]

/-- The line of an override has the key of every line it takes out. -/
theorem key_of_begins (begins : Begins p.1 l) :
    (splitOnce (envLine p)).map (·.1) = (splitOnce l).map (·.1) := by
  obtain ⟨t, whole⟩ := begins_iff.mp begins
  obtain ⟨t', own⟩ := begins_iff.mp (begins_envLine (p := p))
  rw [key_eq whole, key_eq own]

theorem defines_iff : Defines env k ↔ ∃ l ∈ env, (splitOnce l).map (·.1) = some k := by
  simp [Defines]

theorem Defines.applyOverride (defined : Defines env k) : Defines (applyOverride env p) k := by
  obtain ⟨l, mem, key⟩ := defines_iff.mp defined
  rw [defines_iff]
  by_cases begins : Begins p.1 l
  · exact ⟨envLine p, mem_applyOverride.mpr (.inr rfl), (key_of_begins begins).trans key⟩
  · exact ⟨l, mem_applyOverride.mpr (.inl ⟨mem, begins⟩), key⟩

theorem Defines.resolvedEnv (defined : Defines raw k) : Defines (resolvedEnv order raw) k := by
  induction order using List.reverseRecOn with
  | nil => exact defined
  | append_singleton order q ih =>
    rw [resolvedEnv_concat]
    exact ih.applyOverride

/-- Where the checks find neither a missing variable nor a failed substitution, the container gets
the host paths they tested, and every variable that is required. -/
theorem start_as_checked (n : ℕ) (present : String → Bool) (content : String) (d : ContainerDef)
    (c : Validate.HostCheck) (checked : Validate.checkHost n present (some content) d = some c)
    (clean : c.Clean d) (order : List (String × String)) :
    ∃ config, (∀ m ≥ n, Deploy.containerConfig m d order (some content) = some (.ok config)) ∧
      config.binds = mounted d.volumes c.tested ∧ ∀ key ∈ d.requiredEnv, Defines config.env key := by
  obtain ⟨c', binds, rfl⟩ := Option.map_eq_some_iff.mp checked
  refine ⟨⟨resolvedEnv order (entryLines content), mounted d.volumes c'.tested⟩, ?_, rfl, ?_⟩
  · intro m le
    have resolved := resolvedBinds_checked le binds fun e mem =>
      clean.substituted e (List.mem_append_right _ mem)
    exact congrArg (Option.map _) resolved
  · intro key mem
    refine Defines.resolvedEnv ?_
    cases known : Validate.loadEnvMap (some content) key with
    | none =>
      have missing : key ∈ d.requiredEnv.filter
          fun key => (Validate.loadEnvMap (some content) key).isNone := by simp [mem, known]
      exact absurd (List.mem_append_left _ (List.mem_map_of_mem missing)) (clean.required key mem)
    | some v =>
      obtain ⟨l, line, split⟩ := List.mem_filterMap.mp (mem_of_collect known)
      exact ⟨l, line, v, split⟩

/-- A mount of the apps container whose host path comes from `.env`. -/
def appsContainer : ContainerDef where
  service := "apps"
  image := "ghcr.io/coderyoss/codery:apps-{sha}"
  portScheme := ⟨0, 10000⟩
  healthCheck := .docker 90
  network := "codery-net"
  volumes := [.bind "$\x7bSSH_DIR\x7d" "/home/gem/.ssh" true]
  requiredEnv := ["SSH_DIR"]

theorem start_as_checked_apps : ∃ config : Deploy.ContainerConfig,
    (∀ m ≥ 2, Deploy.containerConfig m appsContainer [("SSH_DIR=/root", "")]
      (some "SSH_DIR=/root/.ssh\nSSH_DIR=/home/.ssh\n") = some (.ok config)) ∧
      config.binds = ["/home/.ssh:/home/gem/.ssh:ro"] ∧
      ∀ key ∈ appsContainer.requiredEnv, Defines config.env key :=
  start_as_checked 2 (fun _ => true) _ appsContainer { errors := [], tested := ["/home/.ssh"] }
    (by decide +kernel)
    ⟨fun _ _ => List.not_mem_nil, fun _ => List.not_mem_nil⟩ _

/-! ### Placeholders in the environment -/

/-- The text `${x}`. -/
def hole (x : String) : List Char := '$' :: '\x7b' :: (x.toList ++ ['\x7d'])

/-- A placeholder of a variable that is defined stands in the line. -/
def Literal (vars : EnvMap) (l : String) : Prop := ∃ x, (vars x).isSome ∧ hole x <:+: l.toList

/-- What a text is meant to become: each placeholder of a variable that is defined makes room for
its value.  `name` is what has been read of a placeholder that is still open, reversed. -/
def fill (vars : EnvMap) : Option (List Char) → List Char → List Char
  | none, '$' :: '\x7b' :: t => fill vars (some []) t
  | none, c :: t => c :: fill vars none t
  | none, [] => []
  | some name, '\x7d' :: t =>
    ((vars (String.ofList name.reverse)).elim (hole (String.ofList name.reverse)) String.toList) ++
      fill vars none t
  | some name, c :: t => fill vars (some (c :: name)) t
  | some name, [] => '$' :: '\x7b' :: name.reverse

def filled (vars : EnvMap) (v : String) : String := String.ofList (fill vars none v.toList)

/-- Every variable that a placeholder of an override's value names is defined. -/
def Supplied (d : ContainerDef) (content : String) : Prop :=
  ∀ p ∈ d.overrides, ∀ x, '\x7d' ∉ x.toList → hole x <:+: p.2.toList →
    (Validate.loadEnvMap (some content) x).isSome

/-- In whatever order the overrides are applied, the environment has their values with the
placeholders replaced, and no placeholder of a variable that is defined. -/
def Replaced (d : ContainerDef) (content : String) : Prop :=
  ∀ order env, d.Iterates order → Deploy.containerEnv order (some content) = .ok env →
    (∀ p ∈ d.overrides, envLine (p.1, filled (Validate.loadEnvMap (some content)) p.2) ∈ env) ∧
      ∀ l ∈ env, ¬ Literal (Validate.loadEnvMap (some content)) l

/-- There is nothing to replace, and no override takes out the line of another. -/
structure Settled (d : ContainerDef) (content : String) : Prop where
  overrides : ∀ p ∈ d.overrides, ¬ Literal (Validate.loadEnvMap (some content)) (envLine p)
  file : ∀ l ∈ entryLines content, Untouched d.overrides l →
    ¬ Literal (Validate.loadEnvMap (some content)) l
  apart : ∀ p ∈ d.overrides, ∀ q ∈ d.overrides, Begins q.1 (envLine p) → envLine p = envLine q

/-- What `fill` has read and not yet given back. -/
def opened (o : Option (List Char)) : List Char :=
  o.elim [] fun name => '$' :: '\x7b' :: name.reverse

theorem fill_eq (o : Option (List Char)) (t : List Char)
    (bare : ∀ x, (vars x).isSome → ¬ hole x <:+: opened o ++ t) : fill vars o t = opened o ++ t := by
  induction o, t using fill.induct with
  | case1 t ih => exact ih bare
  | case2 c t other ih =>
    rw [fill, ih fun x known inside => bare x known (inside.trans (List.suffix_cons c t).isInfix)]
    · rfl
    · exact other
  | case3 => rfl
  | case4 name t ih =>
    have whole : opened (some name) ++ '\x7d' :: t = hole (String.ofList name.reverse) ++ t := by
      simp [opened, hole]
    rw [whole] at bare ⊢
    have unknown : vars (String.ofList name.reverse) = none := by
      refine Option.not_isSome_iff_eq_none.mp fun known => ?_
      exact bare _ known (List.prefix_append _ _).isInfix
    rw [fill, unknown, ih fun x known inside => ?_]
    · rfl
    · exact bare x known (inside.trans (List.suffix_append _ _).isInfix)
  | case5 name c t other ih =>
    have whole : opened (some (c :: name)) ++ t = opened (some name) ++ c :: t := by
      simp [opened]
    rw [whole] at ih
    rw [fill, ih bare]
    exact other
  | case6 name => simp [fill, opened]

theorem filled_eq {v : String} (bare : ¬ Literal vars v) : filled vars v = v := by
  rw [filled, fill_eq none v.toList fun x known inside => bare ⟨x, known, inside⟩]
  exact String.ofList_toList

theorem Literal.line (literal : Literal vars p.2) : Literal vars (envLine p) := by
  obtain ⟨x, known, inside⟩ := literal
  refine ⟨x, known, inside.trans ?_⟩
  rw [envLine, String.toList_append]
  exact (List.suffix_append _ _).isInfix

theorem mem_of_resolvedEnv (mem : l ∈ resolvedEnv order raw) :
    (l ∈ raw ∧ Untouched order l) ∨ ∃ p ∈ order, l = envLine p := by
  induction order using List.reverseRecOn with
  | nil => exact .inl ⟨mem, nofun⟩
  | append_singleton order q ih =>
    rw [resolvedEnv_concat, mem_applyOverride] at mem
    cases mem with
    | inl kept =>
      refine (ih kept.1).imp (fun file => ⟨file.1, untouched_concat.mpr ⟨file.2, kept.2⟩⟩) ?_
      rintro ⟨p, here, rfl⟩
      exact ⟨p, List.mem_append_left _ here, rfl⟩
    | inr own => exact .inr ⟨q, List.mem_append_right _ (List.mem_singleton_self q), own⟩

theorem mem_resolvedEnv_file (mem : l ∈ raw) (untouched : Untouched order l) :
    l ∈ resolvedEnv order raw := by
  induction order using List.reverseRecOn with
  | nil => exact mem
  | append_singleton order q ih =>
    obtain ⟨before, now⟩ := untouched_concat.mp untouched
    rw [resolvedEnv_concat, mem_applyOverride]
    exact .inl ⟨ih before, now⟩

theorem mem_resolvedEnv_override (mem : p ∈ order)
    (apart : ∀ q ∈ order, Begins q.1 (envLine p) → envLine p = envLine q) :
    envLine p ∈ resolvedEnv order raw := by
  induction order using List.reverseRecOn with
  | nil => cases mem
  | append_singleton order q ih =>
    rw [resolvedEnv_concat, mem_applyOverride]
    by_cases begins : Begins q.1 (envLine p)
    · exact .inr (apart q (List.mem_append_right _ (List.mem_singleton_self q)) begins)
    · cases List.mem_append.mp mem with
      | inl before =>
        exact .inl ⟨ih before fun q here => apart q (List.mem_append_left _ here), begins⟩
      | inr last =>
        cases List.mem_singleton.mp last
        exact absurd begins_envLine begins

theorem Iterates.last (mem : p ∈ d.overrides) : ∃ order, d.Iterates (order ++ [p]) :=
  ⟨d.overrides.erase p, (List.perm_append_singleton _ _).trans (List.perm_cons_erase mem).symm⟩

theorem Iterates.lastTwo (hp : p ∈ d.overrides) (hq : q ∈ d.overrides) (ne : q ≠ p) :
    ∃ order, d.Iterates (order ++ [p] ++ [q]) := by
  refine ⟨(d.overrides.erase q).erase p, ?_⟩
  have rest : p ∈ d.overrides.erase q := (List.mem_erase_of_ne ne.symm).mpr hp
  exact (List.perm_append_singleton _ _).trans ((((List.perm_append_singleton _ _).trans
    (List.perm_cons_erase rest).symm).cons q).trans (List.perm_cons_erase hq).symm)

/-- The placeholders of the overrides are replaced, and none reaches the container, exactly where
there are none to replace. -/
theorem overrides_replaced_iff (d : ContainerDef) (content : String) :
    Replaced d content ↔ Settled d content := by
  constructor
  · intro replaced
    have bare : ∀ p ∈ d.overrides, ¬ Literal (Validate.loadEnvMap (some content)) (envLine p) := by
      intro p mem
      obtain ⟨order, iterates⟩ := Iterates.last mem
      refine (replaced _ _ iterates rfl).2 _ ?_
      rw [resolvedEnv_concat, mem_applyOverride]
      exact .inr rfl
    refine ⟨bare, ?_, ?_⟩
    · intro l mem untouched
      exact (replaced d.overrides _ (.refl _) rfl).2 l (mem_resolvedEnv_file mem untouched)
    · intro p hp q hq begins
      by_cases same : q = p
      · rw [same]
      · obtain ⟨order, iterates⟩ := Iterates.lastTwo hp hq same
        have there := (replaced _ _ iterates rfl).1 p hp
        rw [filled_eq (mt Literal.line (bare p hp)), resolvedEnv_concat, mem_applyOverride] at there
        exact (there.resolve_left fun kept => kept.2 begins)
  · rintro ⟨bare, file, apart⟩ order env iterates ⟨⟩
    constructor
    · intro p mem
      rw [filled_eq (mt Literal.line (bare p mem))]
      exact mem_resolvedEnv_override (iterates.mem_iff.mpr mem) fun q here =>
        apart p mem q (iterates.mem_iff.mp here)
    · intro l mem
      cases mem_of_resolvedEnv mem with
      | inl kept => exact file l kept.1 ((Untouched.perm iterates).mp kept.2)
      | inr own =>
        obtain ⟨p, here, rfl⟩ := own
        exact bare p (iterates.mem_iff.mp here)

/-- The override of `service.yml` that is meant to name the domain. -/
def opendesignContainer : ContainerDef where
  service := "opendesign"
  image := "ghcr.io/coderyoss/codery:opendesign-{sha}"
  portScheme := ⟨10000, 20000⟩
  healthCheck := .tcp "web" 60 2
  network := "codery-net"
  volumes := [.bind "/opt/codery/data/opendesign" "/app/.od" false]
  requiredEnv := ["DOMAIN_NAME"]
  envOverrides := some
    { entries := [("OD_ALLOWED_ORIGINS", "https://opendesign.$\x7bDOMAIN_NAME\x7d")]
      nodup := by decide }

/-- The name in the one placeholder of a text. -/
theorem name_of_hole {v x : String} (one : v.toList.count '$' = 1) (plain : '\x7d' ∉ x.toList)
    (inside : hole x <:+: v.toList) :
    ((v.toList.dropWhile (· ≠ '$')).drop 2).takeWhile (· ≠ '\x7d') = x.toList := by
  obtain ⟨a, b, whole⟩ := inside
  rw [← whole, List.append_assoc] at one ⊢
  have free : '$' ∉ a := by
    intro mem
    have first := List.count_pos_iff.mpr mem
    simp only [hole, List.count_append, List.cons_append, List.count_cons_self] at one
    omega
  have ends : ∀ c ∈ x.toList, decide (c ≠ '\x7d') = true := by
    intro c mem
    exact decide_eq_true fun same => plain (same ▸ mem)
  have before : ∀ c ∈ a, decide (c ≠ '$') = true := by
    intro c mem
    exact decide_eq_true fun same => free (same ▸ mem)
  rw [List.dropWhile_append_of_pos before]
  simp only [hole, List.cons_append, List.append_assoc]
  rw [List.dropWhile_cons_of_neg (by decide), List.drop_succ_cons, List.drop_succ_cons,
    List.drop_zero, List.takeWhile_append_of_pos ends, List.nil_append,
    List.takeWhile_cons_of_neg (by decide), List.append_nil]

theorem overrides_not_replaced :
    ¬ ∀ (d : ContainerDef) (content : String), Supplied d content → Replaced d content := by
  intro all
  have supplied : Supplied opendesignContainer "DOMAIN_NAME=codery.dev" := by
    intro p mem x plain inside
    cases List.mem_singleton.mp mem
    have name := name_of_hole (by decide +kernel) plain inside
    have same : x = "DOMAIN_NAME" := String.toList_inj.mp (name.symm.trans (by decide +kernel))
    rw [same]
    decide +kernel
  have replaced := (all opendesignContainer "DOMAIN_NAME=codery.dev" supplied
    opendesignContainer.overrides _ (.refl _) rfl).2
  refine replaced (envLine ("OD_ALLOWED_ORIGINS", "https://opendesign.$\x7bDOMAIN_NAME\x7d")) ?_
    ⟨"DOMAIN_NAME", ?_, ?_⟩
  · exact mem_applyOverride.mpr (.inr rfl)
  · decide +kernel
  · decide +kernel

end Codery
