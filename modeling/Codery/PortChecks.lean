import Codery.HostPorts
import Codery.Reading

/-! The port check of `check_deploy` against the ports the two containers of a service and other
processes hold. -/

namespace Codery

open Effect Prog Validate

variable {site : Site} {h h' : Host} {α : Type} {s n sha : String} {a c : Color} {d : ServiceDef}
  {others held : UInt16 → Bool} {q : UInt16}

/-- A host port is bound when a running container of the service publishes it, or when it is one
of the ports `others` hold. -/
def Host.bound (h : Host) (d : ServiceDef) (others : UInt16 → Bool) (q : UInt16) : Bool :=
  others q || [Color.blue, Color.green].any fun c => h.Up d.service c && (d.hostPorts c).contains q

theorem bound_iff : h.bound d others q = true ↔
    others q = true ∨ ∃ c, h.Up d.service c ∧ q ∈ d.hostPorts c := by
  simp only [Host.bound, Bool.or_eq_true, List.any_eq_true, Bool.and_eq_true, decide_eq_true_eq,
    List.contains_iff_mem]
  refine or_congr_right ⟨fun ⟨c, _, both⟩ => ⟨c, both⟩, fun ⟨c, both⟩ => ⟨c, ?_, both⟩⟩
  cases c <;> simp

/-- A bind succeeds exactly on a port that is free.  `check_deploy` starts and stops no container,
so what is bound stays so while it runs. -/
def probes (held : UInt16 → Bool) : Call → Choice → Bool
  | .bindHostPort q, o => o == if held q then .fail else .ok
  | _, _ => true

abbrev probing (site : Site) (held : UInt16 → Bool) : StepRel sig Host :=
  handler (Call.answer site) (probes held)

theorem probing_le : probing site held ≤ steps site := by
  rintro c h r h' ⟨o, _, ans⟩
  exact ⟨o, rfl, ans⟩

/-- The check binds and frees no port. -/
theorem checkDeploy_bound :
    EveryState (steps site) (fun h' => h'.bound d others = h.bound d others)
      (checkDeploy d sha c).run h := by
  have quiet : (checkDeploy d sha c).run.Only Quiet := checkDeploy_only
  refine Safe.everyState ((only_sameBut (P := quiets) quiet h).mono ?_ fun _ _ same => same) rfl
  intro _ _ _ h' _ kept
  funext q
  rw [Bool.eq_iff_iff, bound_iff, bound_iff]
  simp only [kept.2.2.up (by simp)]

/-! ### What the check finds -/

def inUse (q : UInt16) : String :=
  "host port " ++ toString q ++ " is already in use by a foreign process"

/-- The ports that are neither skipped nor free. -/
def blocked (active : List UInt16) (held : UInt16 → Bool) (ports : List UInt16) : List UInt16 :=
  ports.filter fun q => !active.contains q && held q

theorem portConflicts_finds (active : List UInt16) (ports : List (UInt16 × UInt16)) :
    Finds (probing site held) h (· = (blocked active held (ports.map (·.1))).map inUse)
      (portConflicts active ports) := by
  induction ports with
  | nil => exact .pure rfl
  | cons p ports ih =>
    obtain ⟨q, _⟩ := p
    simp only [portConflicts, List.map_cons, blocked]
    by_cases skipped : active.contains q = true
    · have mem : q ∈ active := List.contains_iff_mem.mp skipped
      rw [if_pos skipped, List.filter_cons_of_neg (by simpa using fun free => absurd mem free)]
      exact ih
    rw [if_neg skipped]
    refine Finds.call probing_le rfl fun free ⟨h', o, allowed, ans⟩ => ?_
    refine ih.bind fun errors found => .pure ?_
    subst found
    have told : free = !held q := by
      simp only [probes, beq_iff_eq] at allowed
      obtain ⟨done, rfl, _⟩ | ⟨failed, rfl⟩ := (answer_bindHostPort ans).2
      · cases taken : held q <;> simp_all
      · cases taken : held q <;> simp_all
    subst told
    cases taken : held q with
    | true =>
      rw [List.filter_cons_of_pos (by simpa [taken] using skipped)]
      rfl
    | false =>
      rw [List.filter_cons_of_neg (by simp [taken])]
      rfl

/-- The port check of `check_deploy`. -/
def hostPortErrors (d : ServiceDef) (inactive : Color) : Result (List String) := do
  let active ← attempt (State.readActive d.service)
  portConflicts ((d.portMappings (active.toOption.getD .blue)).map (·.1)) (d.portMappings inactive)

theorem hostPortErrors_finds :
    Finds (probing site held) h
      (· = (blocked (d.hostPorts (h.colorOf d.service)) held (d.hostPorts c)).map inUse)
      (hostPortErrors d c) := by
  refine (Finds.of_spec probing_le (attempt_spec readActive_spec)).bind fun active read => ?_
  rw [map_fst_portMappings, read]
  have found : Finds (probing site held) h _
      (portConflicts (d.hostPorts (h.colorOf d.service)) (d.portMappings c)) := portConflicts_finds _ _
  rwa [map_fst_portMappings] at found

def pullErrors : Except String Unit → List String
  | .ok _ => []
  | .error e => ["image pull failed: " ++ e]

/-- The end of `check_deploy`: fail if there is any error. -/
def conclude (d : ServiceDef) (errors : List String) : Result Unit :=
  if errors = [] then pure ()
  else throw ("[validate] " ++ toString errors.length ++ " pre-deploy check(s) failed for service='" ++
    d.service ++ "':\n" ++ "\n".intercalate (numbered errors))

theorem checkDeploy_eq :
    checkDeploy d sha c = (do
      let missing ← call (.checkHost d)
      let pulled ← Images.pullIfMissing (d.imageRef sha)
      let conflicts ← hostPortErrors d c
      conclude d (missing ++ pullErrors pulled ++ conflicts ++ d.ports.flatMap udpErrors)) := by
  simp only [hostPortErrors, LawfulMonad.bind_assoc]
  rfl

/-- A check that passes has skipped every port that is not free. -/
theorem checkDeploy_free :
    Safe (probing site held) (fun _ _ _ _ => True)
      (OnOk fun _ _ => ∀ q ∈ d.hostPorts c, q ∈ d.hostPorts (h.colorOf d.service) ∨ held q = false)
      (checkDeploy d sha c).run h := by
  rw [checkDeploy_eq]
  intro missing h₁ step
  refine ⟨trivial, ?_⟩
  cases reads_step (probing_le _ _ _ _ step) rfl
  intro pulled h₂ step
  refine ⟨trivial, ?_⟩
  have same := steps_sameBut (P := quiets) (probing_le _ _ _ _ step) rfl
  refine hostPortErrors_finds.safe (fun _ _ _ _ _ => trivial) (fun conflicts found => ?_)
    fun _ => trivial
  subst found
  unfold conclude
  split
  · next none =>
    intro q mem
    have unblocked := (List.append_eq_nil_iff.mp (List.append_eq_nil_iff.mp none).1).2
    simp only [blocked, List.map_eq_nil_iff, List.filter_eq_nil_iff, Bool.and_eq_true,
      Bool.not_eq_true', not_and, Bool.not_eq_true] at unblocked
    by_cases skipped : q ∈ d.hostPorts (h.colorOf d.service)
    · exact .inl skipped
    · refine .inr (unblocked q mem ?_)
      simpa [Host.colorOf, same.active] using skipped
  · trivial

theorem removeContainer_gone {o : Choice} {D D' : Docker.Daemon} {r : Except Docker.Error Unit}
    (ans : (Docker.Call.removeContainer n).answer o D = some (r, D'))
    (ok : ∀ e, r = .error e → e.statusCode = 404) : D'.containers n = none := by
  rcases Docker.lifecycle_some ans with same | ⟨failed, _⟩
  · cases found : D.containers n with
    | none =>
      simp only [Docker.Daemon.remove, found, Prod.mk.injEq] at same
      rw [same.2, found]
    | some k =>
      simp only [Docker.Daemon.remove, found, Prod.mk.injEq] at same
      rw [same.2, Docker.Daemon.put_same]
  · exact absurd (ok _ failed) (by decide)

theorem removeContainerIfExists_gone :
    Spec site (touches n) h (OnOk fun _ h' => h'.docker.containers n = none)
      (Deploy.removeContainerIfExists n).run := by
  apply Spec.of_only removeContainerIfExists_only
  apply call_ends
  intro r h' step
  obtain ⟨_, ans⟩ := docker_step step
  cases r with
  | ok => exact removeContainer_gone ans nofun
  | error e =>
    simp only [Deploy.tolerate]
    by_cases missing : e.statusCode ∈ [404]
    · rw [if_pos missing]
      refine removeContainer_gone ans fun e' same => ?_
      cases same
      exact List.mem_singleton.mp missing
    · rw [if_neg missing]
      trivial

/-! ### Starting the inactive color next to the active one -/

/-- `start_inactive` up to where the port of the new container must be free. -/
def vacate (d : ServiceDef) (sha : String) (inactive : Color) : Result Unit := do
  checkDeploy d sha inactive
  Deploy.removeContainerIfExists (containerName d.service inactive)

theorem startInactive_eq :
    Deploy.startInactive d sha c = (do
      vacate d sha c
      Deploy.ensureNginxConfig
      Deploy.startContainer d sha c
      Deploy.healthCheck d c) := by
  simp only [vacate, LawfulMonad.bind_assoc]
  rfl

/-- What the check did not skip is free, and only the inactive container is gone. -/
theorem vacate_safe :
    Safe (probing site held) (fun _ _ _ _ => True)
      (OnOk fun _ h' => (∀ q ∈ d.hostPorts c, q ∈ d.hostPorts (h.colorOf d.service) ∨ held q = false) ∧
        h'.slot d.service c = none ∧ (h'.Up d.service (flip c) ↔ h.Up d.service (flip c)))
      (vacate d sha c).run h := by
  have quiet : (checkDeploy d sha c).run.Only Quiet := checkDeploy_only
  have probed : probing site held ≤ steps site := probing_le
  have kept := (only_sameBut (P := quiets) quiet h).restrict probed
  refine Safe.bindE ((checkDeploy_free.and kept).mono (fun _ _ _ _ _ _ => trivial)
    fun _ _ both => both) ?_ fun _ _ _ => trivial
  rintro _ h₁ ⟨free, same⟩
  refine Safe.mono (removeContainerIfExists_gone.within probing_le) (fun _ _ _ _ _ _ => trivial) ?_
  rintro r h' ⟨touched, gone⟩
  refine gone.mono fun _ gone => ⟨free, gone, ?_⟩
  rw [touched.up (by simp), same.up (by simp)]

/-- The ports of the new container are free exactly when the colors share none. -/
theorem vacated_free_iff (recorded : h.colorOf d.service = a) (up : h.Up d.service a)
    (run : Finishes (probing site (h.bound d others)) (vacate d sha (flip a)).run h (.ok ()) h') :
    (∀ q ∈ d.hostPorts (flip a), h'.bound d others q = false) ↔
      ∀ q ∈ d.hostPorts (flip a), q ∉ d.hostPorts a := by
  obtain ⟨free, gone, still⟩ := vacate_safe.finishes run
  rw [flip_flip] at still
  rw [recorded] at free
  constructor
  · intro all q mem shared
    have held : h'.bound d others q = true := bound_iff.mpr (.inr ⟨a, still.mpr up, shared⟩)
    rw [all q mem] at held
    cases held
  · intro apart q mem
    have unheld := (free q mem).resolve_left (apart q mem)
    rw [Bool.eq_false_iff, ne_eq, bound_iff] at unheld ⊢
    rintro (other | ⟨c, running, published⟩)
    · exact unheld (.inl other)
    · rcases eq_or_eq_flip a c with rfl | rfl
      · exact apart q mem published
      · obtain ⟨k, found, _⟩ := Host.up_iff.mp running
        rw [gone] at found
        cases found

/-- The check names its own old container unless that is down, has no port of its own, or some
port is really held by another process. -/
theorem conflict_iff {errors : List String} (recorded : h.colorOf d.service = a)
    (run : Finishes (probing site (h.bound d others)) (hostPortErrors d (flip a)).run h
      (.ok errors) h') :
    (errors ≠ [] → ∃ q ∈ d.hostPorts (flip a), others q = true) ↔
      ¬ h.Up d.service (flip a) ∨ (∀ q ∈ d.hostPorts (flip a), q ∈ d.hostPorts a) ∨
        ∃ q ∈ d.hostPorts (flip a), others q = true := by
  have found : errors = _ := (hostPortErrors_finds.finishes run).2 errors rfl
  rw [recorded] at found
  have reported : errors ≠ [] ↔
      ∃ q ∈ d.hostPorts (flip a), q ∉ d.hostPorts a ∧ h.bound d others q = true := by
    rw [found, ne_eq, List.map_eq_nil_iff, blocked, List.filter_eq_nil_iff]
    simp
  rw [reported]
  constructor
  · intro sound
    by_cases up : h.Up d.service (flip a)
    · refine .inr ?_
      by_cases within : ∀ q ∈ d.hostPorts (flip a), q ∈ d.hostPorts a
      · exact .inl within
      · simp only [not_forall] at within
        obtain ⟨q, mem, own⟩ := within
        exact .inr (sound ⟨q, mem, own, bound_iff.mpr (.inr ⟨flip a, up, mem⟩)⟩)
    · exact .inl up
  · rintro cases ⟨q, mem, own, taken⟩
    rcases cases with down | within | other
    · rcases bound_iff.mp taken with other | ⟨c, running, published⟩
      · exact ⟨q, mem, other⟩
      · rcases eq_or_eq_flip a c with rfl | rfl
        · exact absurd published own
        · exact absurd running down
    · exact absurd (within q mem) own
    · exact other

/-! ### Where the check is wrong -/

/-- Ports 3000 and 13000, with the offsets of `apps`: blue has 13000 where green has it, too. -/
def overlapping : ServiceDef :=
  { Scenario.paseo with
    portScheme := ⟨0, 10000⟩
    ports := [{ name := "opencode", containerPort := 3000 },
              { name := "debug", containerPort := 13000 }] }

theorem vacated_free_paseo :
    ∃ h', Finishes (probing Scenario.site (Scenario.serving.bound Scenario.paseo fun _ => false))
        (vacate Scenario.paseo "v2" .green).run Scenario.serving (.ok ()) h' ∧
      ((∀ q ∈ Scenario.paseo.hostPorts .green, h'.bound Scenario.paseo (fun _ => false) q = false) ↔
        ∀ q ∈ Scenario.paseo.hostPorts .green, q ∉ Scenario.paseo.hostPorts .blue) := by
  have shown : playShow (Call.answer Scenario.site)
      (probes (Scenario.serving.bound Scenario.paseo fun _ => false)) (fun _ => ())
      (Scenario.oks 5) (vacate Scenario.paseo "v2" .green).run Scenario.serving =
      some (some (.ok ()), ()) := by decide
  obtain ⟨h', run, _⟩ := playShow_finishes _ _ shown
  exact ⟨h', run, vacated_free_iff (d := Scenario.paseo) (a := .blue) (by decide) (by decide) run⟩

/-- Blue is recorded and runs, the check for green passes, and 13000 stays bound by blue. -/
theorem vacated_overlapping :
    Scenario.serving.colorOf "paseo" = .blue ∧ Scenario.serving.Up "paseo" .blue ∧
      ∃ h', Finishes (probing Scenario.site (Scenario.serving.bound overlapping fun _ => false))
          (vacate overlapping "v2" .green).run Scenario.serving (.ok ()) h' ∧
        ¬ ∀ q ∈ overlapping.hostPorts .green, h'.bound overlapping (fun _ => false) q = false := by
  have shown : playShow (Call.answer Scenario.site)
      (probes (Scenario.serving.bound overlapping fun _ => false))
      (fun h => h.bound overlapping (fun _ => false) 13000)
      (Scenario.oks 5) (vacate overlapping "v2" .green).run Scenario.serving =
      some (some (.ok ()), true) := by decide
  obtain ⟨h', run, taken⟩ := playShow_finishes _ _ shown
  refine ⟨by decide, by decide, h', run, fun free => ?_⟩
  rw [free 13000 (by decide)] at taken
  cases taken

/-- Blue serves `v1`, and `v2` is staged in green. -/
def staged : Host :=
  Scenario.host .blue "v1" (some (Scenario.paseo.healthy "v1")) (some (Scenario.paseo.healthy "v2"))

theorem conflict_staged :
    ∃ errors h', Finishes (probing Scenario.site (staged.bound Scenario.paseo (· == 23000)))
        (hostPortErrors Scenario.paseo .green).run staged (.ok errors) h' ∧
      ((errors ≠ [] → ∃ q ∈ Scenario.paseo.hostPorts .green, (q == 23000) = true) ↔
        ¬ staged.Up "paseo" .green ∨
          (∀ q ∈ Scenario.paseo.hostPorts .green, q ∈ Scenario.paseo.hostPorts .blue) ∨
            ∃ q ∈ Scenario.paseo.hostPorts .green, (q == 23000) = true) := by
  have shown : playShow (Call.answer Scenario.site)
      (probes (staged.bound Scenario.paseo (· == 23000))) (fun _ => ()) [.ok, .fail]
      (hostPortErrors Scenario.paseo .green).run staged =
      some (some (.ok [inUse 23000]), ()) := by decide
  obtain ⟨h', run, _⟩ := playShow_finishes _ _ shown
  exact ⟨_, h', run, conflict_iff (d := Scenario.paseo) (a := .blue) (by decide) run⟩

/-- To restage the preview is refused: green's own port is in use. -/
theorem conflict_restage :
    ¬ ∀ errors h', Finishes (probing Scenario.site (staged.bound Scenario.paseo fun _ => false))
        (hostPortErrors Scenario.paseo .green).run staged (.ok errors) h' →
      errors ≠ [] → ∃ q ∈ Scenario.paseo.hostPorts .green, false = true := by
  intro sound
  have shown : playShow (Call.answer Scenario.site)
      (probes (staged.bound Scenario.paseo fun _ => false)) (fun _ => ()) [.ok, .fail]
      (hostPortErrors Scenario.paseo .green).run staged =
      some (some (.ok [inUse 23000]), ()) := by decide
  obtain ⟨h', run, _⟩ := playShow_finishes _ _ shown
  obtain ⟨q, _, none⟩ := sound _ h' run (List.cons_ne_nil _ _)
  cases none

end Codery
