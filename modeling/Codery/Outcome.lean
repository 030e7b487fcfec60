import Codery.Availability
import Codery.Runs

/-! What a deploy or a cutover that returns `Ok` has brought about. -/

namespace Codery

open Effect Prog Deploy

variable {site : Site} {h : Host} {s sha : String} {a c : Color} {d : ServiceDef}
  {shaOpt preview : Option String}

/-! ### Deploy -/

/-- The recorded color serves `sha`: its container runs that image, and Caddy routes to it. -/
def Serving (d : ServiceDef) (sha : String) (h : Host) : Prop :=
  ∃ c, h.active d.service = some c ∧ h.Runs d c sha ∧ h.proxy.loaded.colorOf d.service = c

instance : Decidable (h.Runs d c sha) :=
  decidable_of_iff ((h.slot d.service c).any fun k => k.running && k.image == d.imageRef sha) (by
    simp [Host.Runs, Option.any_eq_true])

theorem serving_iff : Serving d sha h ↔
    h.active d.service = some (h.proxy.loaded.colorOf d.service) ∧
      h.Runs d (h.proxy.loaded.colorOf d.service) sha := by
  constructor
  · rintro ⟨c, active, runs, rfl⟩
    exact ⟨active, runs⟩
  · rintro ⟨active, runs⟩
    exact ⟨_, active, runs, rfl⟩

instance : Decidable (Serving d sha h) := decidable_of_iff _ serving_iff.symm

theorem Deployed.serving (deployed : Deployed d sha c h) : Serving d sha h :=
  ⟨c, deployed.active, ⟨_, deployed.slot, rfl, rfl⟩, deployed.routed⟩

/-- The same-SHA check of `deploy_service` finds nothing to do. -/
def Shortcut (d : ServiceDef) (sha : String) (h : Host) : Prop :=
  h.state.activeSha d.service = some sha ∧ h.Live d.service

theorem shortcut_yields (shortcut : Shortcut d sha h) :
    Yields site (deployService d sha) h () := by
  obtain ⟨recorded, a, active, up⟩ := shortcut
  apply preflight_yields.bind
  apply ensureNetwork_yields.bind
  apply (readActive_yields active).bind
  apply readActiveSha_yields.bind
  rw [if_pos recorded]
  apply containerRunning_yields.bind
  rw [show (h.docker.containers (containerName d.service a)).any (·.running) = true from
    Host.up_any.mp up]
  exact ⟨rfl, rfl⟩

theorem deployService_ok_iff (hd : d ∈ site.services.defs) :
    (∀ h', Finishes (steps site) (deployService d sha).run h (.ok ()) h' → Serving d sha h') ↔
      (Shortcut d sha h → Serving d sha h) := by
  constructor
  · intro all shortcut
    have now : Yields site (deployService d sha) h () := shortcut_yields shortcut
    obtain ⟨r, h', run, same, kept⟩ := now.finishes
    subst same kept
    exact all h' run
  · intro trusted h' run
    have guarded : Safe (steps site) (Guarded d.service False False)
        (OnOk fun _ => DeployDone d sha h) (deployService d sha).run h :=
      deployService_guarded hd False.elim
    obtain ⟨a, active, nothing | deployed⟩ := guarded.finishes run
    · obtain ⟨recorded, up, same⟩ := nothing
      subst same
      exact trusted ⟨recorded, a, active, up⟩
    · exact deployed.serving

theorem deployService_ok_serving :
    ∃ h', Finishes (steps Scenario.site) (deployService Scenario.paseo "v1").run
      Scenario.serving (.ok ()) h' ∧ Serving Scenario.paseo "v1" h' := by
  have shortcut : Shortcut Scenario.paseo "v1" Scenario.serving :=
    ⟨rfl, .blue, by decide, _, rfl, rfl⟩
  have now : Yields Scenario.site (deployService Scenario.paseo "v1") Scenario.serving () :=
    shortcut_yields shortcut
  obtain ⟨r, h', run, same, _⟩ := now.finishes
  subst same
  exact ⟨h', run, (deployService_ok_iff (by decide)).mpr (fun _ => by decide) h' run⟩

/-- A deploy that fails at the Caddy reload has recorded its SHA; the next one reports success
with the traffic still going to the old color. -/
theorem deployService_ok_not_serving :
    ∃ log h', Serial (steps Scenario.site) (fun sha => (deployService Scenario.paseo sha).run)
        (fun _ _ => True) Scenario.serving (("v2", .ok ()) :: log) h' ∧
      ¬ Serving Scenario.paseo "v2" h' := by
  have played : (playSerial (Call.answer Scenario.site) anyChoice
      (fun sha => (deployService Scenario.paseo sha).run)
      [("v2", Scenario.oks 26 ++ [.fail]), ("v2", Scenario.oks 5)] ([], Scenario.serving)).map
        (fun x => (x.1.head?.map fun e => (e.1, e.2.isOk),
          decide (Serving Scenario.paseo "v2" x.2))) =
      some (some ("v2", true), false) := by decide
  obtain ⟨log, h', run, shown⟩ := playSerial_run (fun _ _ => True) (fun _ _ _ => trivial) played
  cases log with
  | nil => cases shown
  | cons head log =>
    obtain ⟨sha, r⟩ := head
    simp only [List.head?_cons, Option.map_some, Prod.mk.injEq, Option.some_inj] at shown
    obtain ⟨⟨rfl, ok⟩, stale⟩ := shown
    cases r with
    | ok => exact ⟨log, h', run, of_decide_eq_false stale⟩
    | error e => cases ok

/-! ### Cutover -/

/-- Nothing newer than the image of the recorded color is at hand, and its container is down. -/
def Stuck (site : Site) (s : String) (shaOpt preview : Option String) (h : Host) : Prop :=
  ∃ d a, site.services.load s = some d ∧ h.active s = some a ∧ shaOpt = none ∧ preview = none ∧
    h.Newest s a ∧ ¬ h.Up s a

theorem nothingNewer_yields (loaded : site.services.load s = some d) (active : h.active s = some a)
    (newest : h.Newest s a) : Yields site (runCutover s none none) h () := by
  have service := Services.load_service loaded
  subst service
  obtain ⟨n, k, first, slot, image⟩ := newest
  apply (loadDef_yields loaded).bind
  apply (readActive_yields active).bind
  refine Yields.bind (a := false) ⟨rfl, rfl⟩ ?_
  apply listLocal_yields.bind
  apply containerImageTag_yields.bind
  rw [show h.docker.containers (containerName d.service a) = some k from slot]
  simp only [planCutover, first, Option.map_some, Option.getD_some, image, if_true]
  exact ⟨rfl, rfl⟩

theorem runCutover_ok_iff :
    (∀ h', Finishes (steps site) (runCutover s shaOpt preview).run h (.ok ()) h' → h'.Live s) ↔
      ¬ Stuck site s shaOpt preview h := by
  constructor
  · rintro all ⟨d, a, loaded, active, rfl, rfl, newest, down⟩
    obtain ⟨r, h', run, same, kept⟩ := (nothingNewer_yields loaded active newest).finishes
    subst same kept
    obtain ⟨c, recorded, up⟩ := all h' run
    rw [active] at recorded
    cases recorded
    exact down up
  · intro free h' run
    have guarded : Safe (steps site) (Guarded s False False)
        (OnOk fun _ h' => ∃ d, site.services.load s = some d ∧ CutoverDone d shaOpt preview h h')
        (runCutover s shaOpt preview).run h := runCutover_guarded False.elim False.elim
    obtain ⟨d, loaded, a, active, nothing | switched⟩ := guarded.finishes run
    · obtain ⟨⟨noSha, noPreview, newest⟩, same⟩ := nothing
      have service := Services.load_service loaded
      subst service same
      refine ⟨a, active, ?_⟩
      by_contra down
      exact free ⟨d, a, loaded, active, noSha, noPreview, newest, down⟩
    · have service := Services.load_service loaded
      subst service
      exact ⟨flip a, switched.active, switched.up⟩

/-- The command printed for a mismatch reports success and leaves the recorded container down. -/
theorem runCutover_ok_not_live :
    (∃ h', Finishes (steps Scenario.site) (runCutover "paseo" none none).run
        Scenario.mismatched (.ok ()) h' ∧ ¬ h'.Live "paseo") ∧
      ∃ h', Finishes (steps Scenario.site) (Operation.cutover "paseo" none).perform
        Scenario.mismatched (.ok ()) h' ∧ ¬ h'.Live "paseo" := by
  have down {h : Host} (shown : (h.active "paseo", decide (h.Up "paseo" .blue)) = (some .blue, false)) :
      ¬ h.Live "paseo" := by
    rintro ⟨c, active, up⟩
    simp only [Prod.mk.injEq, decide_eq_false_iff_not] at shown
    rw [shown.1] at active
    cases active
    exact shown.2 up
  have played (p : Prog sig (Except String Unit)) (os : List Choice)
      (shown : playShow (Call.answer Scenario.site) anyChoice
        (fun h => (h.active "paseo", decide (h.Up "paseo" .blue))) os p Scenario.mismatched =
          some (some (.ok ()), (some .blue, false))) :
      ∃ h', Finishes (steps Scenario.site) p Scenario.mismatched (.ok ()) h' ∧ ¬ h'.Live "paseo" := by
    obtain ⟨h', run, same⟩ := playShow_finishes _ _ shown
    exact ⟨h', run, down same⟩
  constructor
  · exact played _ (Scenario.oks 4) (by decide)
  · exact played _ (Scenario.oks 13) (by decide)

end Codery
