import Codery.Dispatch
import Codery.Effect.Rely
import Codery.McpExec
import Codery.Scenario

/-! What a process of the exec bridge can change: no recorded color and SHA, and no container of a
recorded color. -/

namespace Codery

open Effect Prog

/-- The same colors and SHAs are recorded, and the containers of the recorded colors are as they
were. -/
structure Host.Intact (h h' : Host) : Prop where
  color : ∀ s, h'.state.color s = h.state.color s
  sha : ∀ s, h'.state.sha s = h.state.sha s
  slot : ∀ s a, h.active s = some a → h'.slot s a = h.slot s a

theorem Host.Intact.refl (h : Host) : h.Intact h := ⟨fun _ => rfl, fun _ => rfl, fun _ _ _ => rfl⟩

theorem Host.active_eq {s : String} {h h' : Host} (same : h'.state.color s = h.state.color s) : h'.active s = h.active s := by
  simp only [Host.active, StateDir.active, same]

theorem Host.Intact.trans {h₁ h₂ h₃ : Host} (first : h₁.Intact h₂) (second : h₂.Intact h₃) :
    h₁.Intact h₃ where
  color s := (second.color s).trans (first.color s)
  sha s := (second.sha s).trans (first.sha s)
  slot s a active := by
    have still : h₂.active s = some a := (Host.active_eq (first.color s)).trans active
    exact (second.slot s a still).trans (first.slot s a active)

/-- Whatever comes of the call. -/
def Harmless (site : Site) (c : Call) (h : Host) : Prop := ∀ r h', steps site c h r h' → h.Intact h'

/-- What other operations leave alone: they are on other services. -/
def Others (s : String) (h h' : Host) : Prop := h'.state.color s = h.state.color s

/-- `p` is harmless in host `h`, and while others act. -/
abbrev Gentle (site : Site) (s : String) {α : Type} (Q : α → Host → Prop) (p : Prog sig α) (h : Host) :
    Prop :=
  Safe (among (steps site) (Others s)) (fun c h _ _ => Harmless site c h) Q p h

variable {site : Site} {s n sha : String} {a : Color} {h h' : Host} {c : Call} {α β : Type}
  {d : ServiceDef}

/-! ### Single calls -/

/-- A call that changes no state file and no container. -/
def Calm (c : Call) : Prop :=
  (∀ s, c.part ≠ .color s) ∧ (∀ s, c.part ≠ .sha s) ∧ ∀ n, c.part ≠ .container n

theorem harmless_of_part (color : ∀ s, c.part ≠ .color s) (sha : ∀ s, c.part ≠ .sha s)
    (slot : ∀ s a, h.active s = some a → c.part ≠ .container (containerName s a)) :
    Harmless site c h := by
  intro r h' step
  have same : h.SameBut (· = c.part) h' := steps_sameBut step rfl
  exact ⟨fun s => same.color (color s).symm, fun s => same.sha (sha s).symm,
    fun s a active => same.slot (slot s a active).symm⟩

theorem Calm.harmless (calm : Calm c) : Harmless site c h :=
  harmless_of_part calm.1 calm.2.1 fun _ _ _ => calm.2.2 _

/-- The container of the other color may be changed. -/
theorem Touches.harmless (touches : Touches (containerName s (flip a)) c) (active : h.active s = some a) :
    Harmless site c h := by
  have ne {p : Part} (loud : p.quiet = false) (other : p ≠ .container (containerName s (flip a))) :
      c.part ≠ p := by
    rintro rfl
    rcases touches with quiet | same
    · rw [quiet] at loud
      cases loud
    · exact other same
  refine harmless_of_part (fun s => ne rfl nofun) (fun s => ne rfl nofun) fun s' b recorded => ?_
  refine ne rfl fun same => ?_
  obtain ⟨rfl, rfl⟩ := containerName_inj.mp (Part.container.inj same)
  exact flip_ne a (Option.some.inj (recorded.symm.trans active))

theorem calm_of_quiet {p : Prog sig α} (only : p.Only Quiet) : p.Only Calm := by
  refine only.mono fun c quiet => ⟨fun s same => ?_, fun s same => ?_, fun n same => ?_⟩ <;>
    rw [Quiet, same] at quiet <;> cases quiet

theorem calm_of_reads {p : Prog sig α} (only : p.Only Reads) : p.Only Calm :=
  calm_of_quiet (quiet_of_reads only)

theorem calm_of_previews {p : Prog sig α} (only : p.Only fun c : Call => c.part = .previews) :
    p.Only Calm :=
  only.mono fun c previews => by simp [Calm, previews]

theorem calm_of_reloads {p : Prog sig α} (only : p.Only Reloads) : p.Only Calm := by
  refine only.mono fun c reloads => ⟨fun s same => ?_, fun s same => ?_, fun n same => ?_⟩ <;>
    rcases reloads with quiet | other | other <;> simp_all

/-! ### Programs -/

theorem gentle_of_calm {p : Prog sig α} (only : p.Only Calm) :
    Gentle site s (fun _ _ => True) p h :=
  safe_among only trivial (fun _ _ calm _ => calm.harmless) (fun _ _ _ _ _ _ _ => trivial)
    fun _ _ _ _ => trivial

theorem gentle_of_touches {p : Prog sig α} (only : p.Only (Touches (containerName s (flip a))))
    (active : h.active s = some a) : Gentle site s (fun _ h' => h'.active s = some a) p h := by
  refine safe_among (J := fun h : Host => h.active s = some a) only active
    (fun _ _ touches active => touches.harmless active) ?_ ?_
  · intro c h r h₁ step harmless active
    rw [Host.active_eq ((harmless r h₁ step).color s), active]
  · intro h h' others active
    rw [Host.active_eq others, active]

theorem call_gentle {Q : Except String β → Host → Prop} {f : c.Reply → Result β} (calm : Calm c)
    (next : ∀ r h₁ h', steps site c h r h₁ → Others s h₁ h' → Gentle site s Q (f r).run h') :
    Gentle site s Q (call c >>= f).run h := by
  rintro r h' ⟨h₁, step, others⟩
  exact ⟨calm.harmless, next r h₁ h' step others⟩

theorem attempt_gentle {R : Except String α → Host → Prop} {x : Result α}
    (gentle : Gentle site s R x.run h) : Gentle site s (OnOk R) (attempt x).run h :=
  Safe.bind (β := Except String (Except String α)) gentle fun _ _ hr => hr

/-- The others do not change the color that has been read. -/
theorem readActive_gentle :
    Gentle site s (OnOk fun a h' => h'.active s = some a) (State.readActive s).run h := by
  refine call_gentle ⟨nofun, nofun, nofun⟩ fun r h₁ h' step others => ?_
  cases reads_step step rfl
  obtain ⟨_, _, ans⟩ := step
  rw [(StateDir.answer_readColor (answer_state ans).1).1]
  have same : h'.active s = h.active s := Host.active_eq others
  cases file : h.state.color s with
  | unreadable => trivial
  | missing | text =>
    refine same.trans ?_
    simp only [Host.active, StateDir.active, file]

theorem loadService_gentle :
    Gentle site s (OnOk fun d _ => d.service = s) (loadService s).run h := by
  refine call_gentle ⟨nofun, nofun, nofun⟩ fun r h₁ h' step _ => ?_
  obtain ⟨_, _, ans⟩ := step
  rcases Docker.fallible_some ans with same | same
  · cases same
    rw [ofExcept_run]
    unfold Site.load
    split
    case h_1 d loaded => exact Services.load_service loaded
    case h_2 => trivial
  · cases same
    trivial

theorem loadDef_gentle : Gentle site s (OnOk fun d _ => d.service = s) (Deploy.loadDef s).run h := by
  refine Safe.bindE (attempt_gentle loadService_gentle) (fun r h' loaded => ?_) fun _ _ _ => trivial
  cases r with
  | ok d => exact loaded
  | error e => trivial

/-- Whatever was read or loaded, the next program goes on with it. -/
theorem Gentle.bindE {T : α → Host → Prop} {x : Result α} {f : α → Result β}
    (hx : Gentle site s (OnOk T) x.run h)
    (next : ∀ a h', T a h' → Gentle site s (fun _ _ => True) (f a).run h') :
    Gentle site s (fun _ _ => True) (x >>= f).run h :=
  Safe.bindE hx next fun _ _ _ => trivial

theorem calm_bindE {x : Result α} {f : α → Result β} (only : x.run.Only Calm)
    (next : ∀ a h', Gentle site s (fun _ _ => True) (f a).run h') :
    Gentle site s (fun _ _ => True) (x >>= f).run h :=
  Safe.bindE (gentle_of_calm only) (fun a h' _ => next a h') fun _ _ _ => trivial

theorem runStartInactive_gentle :
    Gentle site s (fun _ _ => True) (Deploy.runStartInactive s sha).run h := by
  refine loadDef_gentle.bindE fun d h same => ?_
  subst same
  refine calm_bindE (calm_of_reads preflight_only) fun _ h => ?_
  refine calm_bindE (calm_of_reads ensureNetwork_only) fun _ h => ?_
  refine readActive_gentle.bindE fun a h active => ?_
  exact Safe.bindE (gentle_of_touches startInactive_only active) (fun _ _ _ => trivial)
    fun _ _ _ => trivial

theorem runCancelInactive_gentle :
    Gentle site s (fun _ _ => True) (Deploy.runCancelInactive s).run h := by
  refine loadDef_gentle.bindE fun d h same => ?_
  subst same
  refine readActive_gentle.bindE fun a h active => ?_
  refine Safe.bindE (gentle_of_touches stopContainer_only active) (fun _ h active => ?_)
    fun _ _ _ => trivial
  refine Safe.bindE (gentle_of_touches removeContainerIfExists_only active) (fun _ h active => ?_)
    fun _ _ _ => trivial
  exact gentle_of_calm (calm_of_quiet prune_only)

/-- The lock itself is a file of its own. -/
theorem withLock_gentle {body : Result Unit} {refusal : String → String}
    (gentle : ∀ h, Gentle site s (fun _ _ => True) body.run h) :
    Gentle site s (fun _ _ => True) (withLock n refusal body).run h := by
  refine call_gentle ⟨nofun, nofun, nofun⟩ fun r _ h _ _ => ?_
  cases r with
  | error e => trivial
  | ok =>
    refine Safe.bindE (attempt_gentle (gentle h)) (fun r h _ => ?_) fun _ _ _ => trivial
    exact call_gentle ⟨nofun, nofun, nofun⟩ fun _ _ _ _ _ => gentle_of_calm (ofExcept_only r)

theorem deployPreview_gentle {port : Option String} :
    Gentle site s (fun _ _ => True) (Cli.deployPreview s sha port).run h := by
  refine withLock_gentle fun h => ?_
  refine calm_bindE (calm_of_reads loadService_only) fun d h => ?_
  refine calm_bindE (ofExcept_only _) fun port h => ?_
  refine Safe.bindE runStartInactive_gentle (fun inactive h _ => ?_) fun _ _ _ => trivial
  refine gentle_of_calm ?_
  refine Only.bindE (calm_of_reads connect_only) fun _ => ?_
  refine Only.bindE (calm_of_quiet (quiet_of_migrates init_only)) fun _ => ?_
  refine Only.bindE (calm_of_previews upsertPreview_only) fun _ => ?_
  exact calm_of_reloads reloadProxies_only

theorem dropPreview_calm : (Cli.dropPreview s).run.Only Calm :=
  Only.bindE (calm_of_previews deletePreview_only) fun _ =>
    ite_only (calm_of_reloads reloadProxies_only) trivial

theorem cancelPreview_gentle :
    Gentle site s (fun _ _ => True) (Cli.cancelPreview s).run h := by
  refine withLock_gentle fun h => ?_
  refine Safe.bindE runCancelInactive_gentle (fun _ h _ => ?_) fun _ _ _ => trivial
  refine gentle_of_calm ?_
  refine Only.bindE (calm_of_reads connect_only) fun _ => ?_
  exact Only.bindE (calm_of_quiet (quiet_of_migrates init_only)) fun _ => dropPreview_calm

/-! ### The process -/

namespace Process

/-- The recorded colors and SHAs stay, and so do the containers of the recorded colors. -/
def Harmless (site : Site) : StepRel sig World := fun c w _ _ =>
  ∀ r w', steps site c w r w' → w.host.Intact w'.host

/-- The process on service `s`, among operations on other services. -/
abbrev amid (site : Site) (s : String) : StepRel sig World :=
  among (steps site) fun w w' => Others s w.host w'.host

variable {w : World} {c : Call} {argv : List String}

abbrev Gentle (site : Site) (s : String) (p : Prog sig (Except String α)) (w : World) : Prop :=
  Safe (amid site s) (Harmless site) (fun _ _ => True) p w

theorem embed_gentle {Q : α → Host → Prop} {p : Prog Codery.sig α}
    (gentle : Codery.Gentle site s Q p w.host) :
    Safe (amid site s) (Harmless site) (fun r w' => Q r w'.host) (embed p) w := by
  induction p generalizing w with
  | ret a => exact gentle
  | call c k ih =>
    rintro r w' ⟨w₁, ⟨h₁, step, rfl⟩, others⟩
    obtain ⟨harmless, rest⟩ := gentle r w'.host ⟨h₁, step, others⟩
    refine ⟨?_, ih r rest⟩
    rintro r w₂ ⟨h₂, step, rfl⟩
    exact harmless r h₂ step

theorem host_gentle {x : Result α} {f : α → Command β}
    (gentle : Codery.Gentle site s (fun _ _ => True) x.run w.host)
    (next : ∀ a w, Gentle site s (f a).run w) : Gentle site s (host x >>= f).run w :=
  Safe.bindE (embed_gentle gentle) (fun a w _ => next a w) fun _ _ _ => trivial

theorem argument_gentle {i : ℕ} {absent : String} {f : String → Command β}
    (next : ∀ arg, argv[i]? = some arg → Gentle site s (f arg).run w) :
    Gentle site s (argument argv i absent >>= f).run w := by
  cases found : argv[i]? with
  | none =>
    simp only [argument, found]
    trivial
  | some arg =>
    simp only [argument, found]
    exact next arg found

theorem call_gentle {f : c.Reply → Command β}
    (harmless : ∀ r w', steps site c w r w' → w.host.Intact w'.host)
    (next : ∀ r w, Gentle site s (f r).run w) : Gentle site s (call c >>= f).run w :=
  fun r w' _ => ⟨harmless, next r w'⟩

theorem build_gentle : Gentle site s (build argv).run w := by
  refine argument_gentle fun service _ => ?_
  refine argument_gentle fun tag _ => ?_
  refine call_gentle (fun _ _ same => same ▸ .refl _) fun found w => ?_
  cases found with
  | false => exact call_gentle (fun _ _ same => same ▸ .refl _) fun _ _ => trivial
  | true =>
    refine call_gentle ?_ fun status w => ?_
    · rintro r w' ⟨images, rfl⟩
      exact ⟨fun _ => rfl, fun _ => rfl, fun _ _ _ => rfl⟩
    · cases status with
      | error e => trivial
      | ok code =>
        dsimp only
        split <;> trivial

theorem validate_gentle : Gentle site s (validate argv).run w := by
  refine argument_gentle fun service _ => ?_
  refine argument_gentle fun sha _ => ?_
  refine host_gentle (gentle_of_calm (calm_of_reads loadService_only)) fun d w => ?_
  refine call_gentle (fun _ _ same => same ▸ .refl _) fun connected w => ?_
  cases connected with
  | error e => trivial
  | ok =>
    refine host_gentle (gentle_of_calm (calm_of_reads readActive_only)) fun active w => ?_
    exact embed_gentle (gentle_of_calm (calm_of_quiet checkDeploy_only))

/-- The service in its arguments is the one whose color the process goes by. -/
theorem deployPreview_gentle : Gentle site (argv.getD 2 "") (deployPreview argv).run w := by
  refine argument_gentle fun service named => ?_
  refine argument_gentle fun sha _ => ?_
  rw [List.getD_eq_getElem?_getD, named]
  exact embed_gentle Codery.deployPreview_gentle

theorem cancelPreview_gentle : Gentle site (argv.getD 2 "") (cancelPreview argv).run w := by
  refine argument_gentle fun service named => ?_
  rw [List.getD_eq_getElem?_getD, named]
  exact embed_gentle Codery.cancelPreview_gentle

/-- What `main` makes of arguments that the bridge lets pass. -/
theorem main_gentle {bin subcmd : String} {args : List String} (head : args.head? = some subcmd)
    (allowed : subcmd ∈ McpExec.allowlist) :
    Gentle site ((bin :: args).getD 2 "") (main (bin :: args)).run w := by
  obtain ⟨rest, rfl⟩ := List.head?_eq_some_iff.mp head
  unfold main
  split
  · trivial
  · simp only [McpExec.allowlist, List.mem_cons, List.not_mem_nil, or_false] at allowed
    rcases allowed with rfl | rfl | rfl | rfl
    · exact build_gentle
    · exact validate_gentle
    · exact deployPreview_gentle
    · exact cancelPreview_gentle

end Process

/-- A spawn passes the toggle and the allowlist. -/
theorem McpExec.spawnWith_allowed {logDir bin : String} {args : List String} {timeoutSecs : ℕ}
    {sys : McpExec.Launch} {job : McpExec.Spawn}
    (spawned : McpExec.spawnWith logDir bin args timeoutSecs sys = .ok job) :
    sys.enabled = true ∧ ∃ subcmd ∈ McpExec.allowlist, args.head? = some subcmd := by
  unfold McpExec.spawnWith at spawned
  cases enabled : sys.enabled with
  | false =>
    rw [enabled] at spawned
    cases spawned
  | true =>
    rw [enabled] at spawned
    refine ⟨rfl, ?_⟩
    cases head : args.head? with
    | none =>
      rw [head] at spawned
      cases spawned
    | some subcmd =>
      rw [head] at spawned
      cases allowed : McpExec.isAllowed subcmd with
      | false =>
        simp only [allowed] at spawned
        cases spawned
      | true => exact ⟨subcmd, List.contains_iff_mem.mp allowed, rfl⟩

/-- A process on its own leaves the host intact, wherever it is stopped. -/
theorem Process.main_intact {bin subcmd : String} {args : List String}
    (head : args.head? = some subcmd) (allowed : subcmd ∈ McpExec.allowlist) (w : Process.World) :
    EveryState (Process.steps site) (fun w' => w.host.Intact w'.host) (Process.main (bin :: args)).run
      w := by
  have alone : Safe (Process.steps site) (Process.Harmless site) (fun _ _ => True)
      (Process.main (bin :: args)).run w :=
    (Process.main_gentle head allowed).restrict (le_among fun _ => rfl)
  have carried := alone.carry (J := fun w' => w.host.Intact w'.host) (.refl w.host)
    fun _ _ r w' step harmless intact => intact.trans (harmless r w' step)
  exact (carried.mono (fun _ _ _ _ _ kept => kept.2.2) fun _ _ _ => trivial).everyState (.refl w.host)

/-- Whatever the arguments: the bridge starts a process only if it is enabled and the command is on
the list, and none of the calls of that process touches what is active. -/
theorem spawned_harmless {logDir bin : String} {args : List String} {timeoutSecs : ℕ}
    {sys : McpExec.Launch} {job : McpExec.Spawn}
    (spawned : McpExec.spawnWith logDir bin args timeoutSecs sys = .ok job) :
    sys.enabled = true ∧ (∃ subcmd ∈ McpExec.allowlist, args.head? = some subcmd) ∧
      ∀ w, EveryStep (Process.amid site ((bin :: args).getD 2 "")) (Process.Harmless site)
        (Process.main (bin :: args)).run w := by
  obtain ⟨enabled, subcmd, allowed, head⟩ := McpExec.spawnWith_allowed spawned
  exact ⟨enabled, ⟨subcmd, allowed, head⟩, fun w => (Process.main_gentle head allowed).everyStep⟩

def Scenario.launch : McpExec.Launch where
  enabled := true
  createDir := .ok ()
  nanos := 5
  secs := 7
  createLog := .ok ()
  cloneLog := .ok ()
  child := .ok (some 4711)

/-- Cancelling a preview of `paseo` through the bridge. -/
theorem spawned_cancelPreview :
    ∃ job, McpExec.spawnWith "/logs" "codery-ci" ["cancel-preview", "paseo"] 60 Scenario.launch =
        .ok job ∧
      EveryStep (Process.amid Scenario.site "paseo") (Process.Harmless Scenario.site)
        (Process.main ["codery-ci", "cancel-preview", "paseo"]).run ⟨Scenario.serving, true⟩ := by
  obtain ⟨job, spawned⟩ : ∃ job, McpExec.spawnWith "/logs" "codery-ci" ["cancel-preview", "paseo"] 60
      Scenario.launch = .ok job := ⟨_, rfl⟩
  exact ⟨job, spawned, (spawned_harmless spawned).2.2 _⟩

end Codery
