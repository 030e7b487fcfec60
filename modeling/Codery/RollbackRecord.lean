import Codery.Numerals
import Codery.Scenario

/-! The SHA that the dashboard's rollback records, against the image of the container it brings
back.  The image is made from the template of the service; the SHA is read off the image by a name
that is not the template's. -/

namespace Codery

open Effect Prog

variable {site : Site} {h h' : Host} {d : ServiceDef} {a c : Color} {k : Container} {sha : String}
  {x y template : List Char}

/-! ### Templates -/

/-- There is a place for the SHA. -/
def Placed (template : List Char) : Prop := ['{', 's', 'h', 'a', '}'] <:+: template

theorem length_replaceSha_le (template : List Char) (le : x.length ≤ y.length) :
    (replaceSha x template).length ≤ (replaceSha y template).length := by
  induction template using replaceSha.induct with
  | case1 rest ih =>
    simp only [replaceSha, List.length_append]
    omega
  | case2 c rest other ih =>
    rw [replaceSha, replaceSha, List.length_cons, List.length_cons]
    · omega
    · exact other
    · exact other
  | case3 => exact le_rfl

/-- With a place for it, the SHA can be read off the image. -/
theorem replaceSha_injective (placed : Placed template)
    (same : replaceSha x template = replaceSha y template) : x = y := by
  induction template using replaceSha.induct with
  | case1 rest ih =>
    rw [replaceSha, replaceSha] at same
    refine (List.append_inj same ?_).1
    have total := congrArg List.length same
    simp only [List.length_append] at total
    rcases le_total x.length y.length with le | le
    · have rests := length_replaceSha_le rest le
      omega
    · have rests := length_replaceSha_le rest le
      omega
  | case2 c rest other ih =>
    rw [replaceSha, replaceSha] at same
    · refine ih ?_ (List.cons_eq_cons.mp same).2
      rcases List.infix_cons_iff.mp placed with begins | later
      · obtain ⟨tail, begins⟩ := begins
        obtain ⟨rfl, rfl⟩ := List.cons_eq_cons.mp begins
        exact absurd rfl (other tail rfl)
      · exact later
    · exact other
    · exact other
  | case3 => exact absurd (List.infix_nil.mp placed) (List.cons_ne_nil _ _)

theorem replaceSha_fixed (fixed : ¬ Placed template) : replaceSha x template = template := by
  induction template using replaceSha.induct with
  | case1 rest ih => exact absurd ⟨[], rest, rfl⟩ fixed
  | case2 c rest other ih =>
    rw [replaceSha]
    · rw [ih fun placed => fixed (List.infix_cons placed)]
    · exact other
  | case3 => rfl

/-! ### What a rollback records -/

/-- The SHA `do_rollback` records for a container of `image`. -/
def Ui.prevSha (service image : String) : String := (shaFromImageTag service image).getD "unknown"

/-- The image of container `c` is `image`, `c` is recorded, and so is `text`. -/
structure Host.Records (h : Host) (s : String) (c : Color) (image text : String) : Prop where
  active : h.active s = some c
  slot : ∃ k, h.slot s c = some k ∧ k.image = image
  sha : h.state.sha s = .text text

theorem Host.Records.keep {P : Part → Prop} {s image text : String} (records : h.Records s c image text)
    (same : h.SameBut P h') (color : ¬ P (.color s)) (sha : ¬ P (.sha s))
    (container : ¬ P (.container (containerName s c))) : h'.Records s c image text where
  active := (same.active color).trans records.active
  slot := by
    rw [same.slot container]
    exact records.slot
  sha := (same.sha sha).trans records.sha

theorem finishRollback_records (slot : h.slot d.service c = some k) :
    Ends site (OnOk fun _ h' => h'.Records d.service c k.image (sha ++ "\n"))
      (Ui.finishRollback d d.service c sha).run h := by
  refine ok_ends (attempt_spec pollHealth_spec).ends fun polled h₁ passed => ?_
  cases polled with
  | error e => exact after_ends fun _ _ => trivial
  | ok =>
    obtain ⟨k₁, found, -, left⟩ := passed
    cases slot.symm.trans found
    refine writeActive_spec.ok_ends fun _ h₂ same wrote => ?_
    have slot₂ : h₂.slot d.service c = some { k with healthPassed := true } :=
      (same.slot (by simp)).trans left
    have active₂ : h₂.active d.service = some c := wrote.1
    refine writeActiveSha_spec.ok_ends fun _ h₃ same wrote => ?_
    have records : h₃.Records d.service c k.image (sha ++ "\n") :=
      ⟨(same.active (by simp)).trans active₂, ⟨_, (same.slot (by simp)).trans slot₂, rfl⟩, wrote⟩
    refine (Spec.frame (P := reloads) (attempt_only applyAll_only)).ok_ends fun applied h₄ same _ => ?_
    have records := records.keep same (by simp) (by simp) (by simp)
    refine context_ends fun _ _ => frame_ends (P := touches _) stopContainer_only fun h₅ same => ?_
    exact records.keep same (by simp) (by simp) (by simp)

theorem doRollback_records (slot : h.slot d.service c = some k) :
    Ends site (OnOk fun _ h' => h'.Records d.service c k.image
        (Ui.prevSha d.service k.image ++ "\n"))
      (Ui.doRollback d d.service c).run h := by
  refine call_ends fun info h₁ step => ?_
  cases reads_step step rfl
  cases info with
  | error e => trivial
  | ok info =>
    obtain ⟨k₁, found, rfl⟩ := inspect_step_ok step
    cases slot.symm.trans found
    dsimp only
    split
    · trivial
    · refine call_ends fun started h₁ step => ?_
      cases started with
      | error e => trivial
      | ok =>
        obtain ⟨_, starts⟩ := docker_step step
        obtain ⟨k₁, found, put⟩ := Docker.answer_startContainer starts
        cases slot.symm.trans found
        exact finishRollback_records (k := { k with running := true, healthPassed := false })
          (by simp [Host.slot, put])

theorem runRollback_records (loaded : site.services.load d.service = some d)
    (active : h.active d.service = some a) (slot : h.slot d.service (flip a) = some k) :
    Ends site (OnOk fun _ h' => h'.Records d.service (flip a) k.image
        (Ui.prevSha d.service k.image ++ "\n"))
      (Ui.runRollback d.service).run h := by
  refine call_ends fun acquired h₁ step => ?_
  have same : h.SameBut (· = .lock d.service) h₁ := steps_sameBut step rfl
  have active : h₁.active d.service = some a := (same.active (by simp)).trans active
  have slot : h₁.slot d.service (flip a) = some k := (same.slot (by simp)).trans slot
  cases acquired with
  | error e => trivial
  | ok =>
    refine Safe.liftE (R := OnOk fun _ h' => h'.Records d.service (flip a) k.image
        (Ui.prevSha d.service k.image ++ "\n")) ?_ fun r h₂ records => ?_
    · refine (attempt_spec loadService_spec).read_ends fun found read => ?_
      cases found with
      | error e => trivial
      | ok d' =>
        cases loaded.symm.trans read
        refine readActive_spec.read_ends fun a' read => ?_
        cases active.symm.trans read.symm
        exact doRollback_records slot
    · refine call_ends fun _ h₃ step => ?_
      have same : h₂.SameBut (· = .lock d.service) h₃ := steps_sameBut step rfl
      cases r with
      | error e => trivial
      | ok => exact records.keep same (by simp) (by simp) (by simp)

/-! ### What the record leads back to -/

/-- The recorded SHA gives the image of the container of the recorded color. -/
def Host.Refers (h : Host) (d : ServiceDef) : Prop :=
  ∃ c k x, h.active d.service = some c ∧ h.slot d.service c = some k ∧
    h.state.activeSha d.service = some x ∧ d.imageRef x = k.image

/-- The SHA is found in the image that the template makes of it.  Without a place for the SHA any
record will do that is not blank. -/
structure ServiceDef.Recoverable (d : ServiceDef) (sha : String) : Prop where
  placed : Placed d.image.toList → sha ≠ "" ∧
    ((∃ rest, d.imageRef sha = Images.tagPrefix d.service ++ rest ∧ trim rest = sha) ∨
      sha = "unknown" ∧ ∀ rest, d.imageRef sha ≠ Images.tagPrefix d.service ++ rest)
  fixed : ¬ Placed d.image.toList → ∀ rest, d.image = Images.tagPrefix d.service ++ rest →
    trim rest ≠ ""

theorem imageRef_eq_iff {x y : String} (placed : Placed d.image.toList) :
    d.imageRef x = d.imageRef y ↔ x = y := by
  constructor
  · intro same
    have same := congrArg String.toList same
    simp only [ServiceDef.imageRef, String.toList_ofList] at same
    exact String.toList_inj.mp (replaceSha_injective placed same)
  · rintro rfl
    rfl

theorem imageRef_fixed (fixed : ¬ Placed d.image.toList) : d.imageRef sha = d.image := by
  rw [ServiceDef.imageRef, replaceSha_fixed fixed, String.ofList_toList]

theorem trim_append_newline (s : String) : trim (s ++ "\n") = trim s := by
  have text : s ++ "\n" = String.ofList (s.toList ++ ['\n']) := by
    apply String.toList_inj.mp
    simp
  rw [text, trim_concat (by decide), String.ofList_toList]

theorem Host.Records.refers_iff {image record : String}
    (records : h.Records d.service c image (record ++ "\n")) :
    h.Refers d ↔ trim record ≠ "" ∧ d.imageRef (trim record) = image := by
  obtain ⟨active, ⟨k, slot, rfl⟩, sha⟩ := records
  have read : h.state.activeSha d.service = if trim record = "" then none else some (trim record) := by
    simp only [StateDir.activeSha, sha, trim_append_newline]
  constructor
  · rintro ⟨c', k', x, active', slot', recorded, same⟩
    cases active.symm.trans active'
    cases slot.symm.trans slot'
    rw [read] at recorded
    split at recorded
    · cases recorded
    · next some =>
      cases recorded
      exact ⟨some, same⟩
  · rintro ⟨some, same⟩
    exact ⟨c, k, trim record, active, slot, by rw [read, if_neg some], same⟩

theorem Ui.prevSha_some {service image rest : String}
    (tagged : image = Images.tagPrefix service ++ rest) : prevSha service image = rest := by
  rw [prevSha, shaFromImageTag, stripPrefix_iff.mpr tagged, Option.getD_some]

theorem Ui.prevSha_none {service image : String}
    (foreign : ∀ rest, image ≠ Images.tagPrefix service ++ rest) :
    prevSha service image = "unknown" := by
  have none : stripPrefix (Images.tagPrefix service) image = none :=
    Option.eq_none_iff_forall_ne_some.mpr fun rest found => foreign rest (stripPrefix_iff.mp found)
  rw [prevSha, shaFromImageTag, none, Option.getD_none]

theorem recoverable_placed (placed : Placed d.image.toList) :
    d.Recoverable sha ↔
      trim (Ui.prevSha d.service (d.imageRef sha)) ≠ "" ∧
        trim (Ui.prevSha d.service (d.imageRef sha)) = sha := by
  constructor
  · intro recoverable
    obtain ⟨some, ⟨rest, tagged, rfl⟩ | ⟨rfl, foreign⟩⟩ := recoverable.placed placed
    · rw [Ui.prevSha_some tagged]
      exact ⟨some, rfl⟩
    · rw [Ui.prevSha_none foreign]
      decide
  · rintro ⟨some, same⟩
    refine ⟨fun _ => ⟨same ▸ some, ?_⟩, fun fixed => absurd placed fixed⟩
    by_cases tagged : ∃ rest, d.imageRef sha = Images.tagPrefix d.service ++ rest
    · obtain ⟨rest, tagged⟩ := tagged
      rw [Ui.prevSha_some tagged] at same
      exact .inl ⟨rest, tagged, same⟩
    · have foreign := not_exists.mp tagged
      rw [Ui.prevSha_none foreign, show trim "unknown" = "unknown" by decide] at same
      exact .inr ⟨same.symm, foreign⟩

theorem recoverable_fixed (fixed : ¬ Placed d.image.toList) :
    d.Recoverable sha ↔ trim (Ui.prevSha d.service d.image) ≠ "" := by
  constructor
  · intro recoverable
    by_cases tagged : ∃ rest, d.image = Images.tagPrefix d.service ++ rest
    · obtain ⟨rest, tagged⟩ := tagged
      rw [Ui.prevSha_some tagged]
      exact recoverable.fixed fixed rest tagged
    · rw [Ui.prevSha_none (not_exists.mp tagged)]
      decide
  · intro some
    refine ⟨fun placed => absurd placed fixed, fun _ rest tagged => ?_⟩
    rwa [Ui.prevSha_some tagged] at some

theorem recoverable_iff :
    d.Recoverable sha ↔
      trim (Ui.prevSha d.service (d.imageRef sha)) ≠ "" ∧
        d.imageRef (trim (Ui.prevSha d.service (d.imageRef sha))) = d.imageRef sha := by
  by_cases placed : Placed d.image.toList
  · rw [recoverable_placed placed, imageRef_eq_iff placed]
  · rw [recoverable_fixed placed, imageRef_fixed placed, imageRef_fixed placed, and_iff_left rfl]

/-- After a rollback that returns, the record leads back to the image exactly if the SHA of the
container can be found in the image. -/
theorem rollback_refers_iff (loaded : site.services.load d.service = some d)
    (active : h.active d.service = some a) (slot : h.slot d.service (flip a) = some k)
    (image : k.image = d.imageRef sha)
    (run : Finishes (steps site) (Ui.runRollback d.service).run h (.ok ()) h') :
    h'.Refers d ↔ d.Recoverable sha := by
  have records := (runRollback_records loaded active slot).finishes run
  rw [image] at records
  rw [Host.Records.refers_iff records, recoverable_iff]

namespace Scenario

/-- Blue serves `v2` of service `d`, and green, which has served `v1`, is stopped. -/
def superseded (d : ServiceDef) : Host :=
  host .blue "v2" (some (d.healthy "v2")) (some { image := d.imageRef "v1", running := false })

/-- The service with its images in a repository of its own. -/
def rehosted : ServiceDef := { paseo with image := "ghcr.io/paseo/paseo:{sha}" }

def rehostedSite : Site where
  services := ⟨[rehosted], by decide⟩

end Scenario

theorem rollback_refers_paseo :
    ∃ h', Finishes (steps Scenario.site) (Ui.runRollback "paseo").run
      (Scenario.superseded Scenario.paseo) (.ok ()) h' ∧ h'.Refers Scenario.paseo := by
  have played : playShow (Call.answer Scenario.site) anyChoice (fun _ => ()) (Scenario.oks 20)
      (Ui.runRollback "paseo").run (Scenario.superseded Scenario.paseo) = some (some (.ok ()), ()) := by
    decide
  obtain ⟨h', run, -⟩ := playShow_finishes _ _ played
  have recoverable : Scenario.paseo.Recoverable "v1" := recoverable_iff.mpr (by decide)
  exact ⟨h', run, (rollback_refers_iff rfl rfl rfl rfl run).mpr recoverable⟩

/-- A service with its images elsewhere: `unknown` is recorded for `v1`. -/
theorem rollback_unknown : ¬ ∀ (site : Site) (h h' : Host) (d : ServiceDef) (a : Color)
    (k : Container) (sha : String), site.services.load d.service = some d →
    h.active d.service = some a → h.slot d.service (flip a) = some k → k.image = d.imageRef sha →
    Finishes (steps site) (Ui.runRollback d.service).run h (.ok ()) h' → h'.Refers d := by
  intro all
  have played : playShow (Call.answer Scenario.rehostedSite) anyChoice (fun _ => ()) (Scenario.oks 20)
      (Ui.runRollback "paseo").run (Scenario.superseded Scenario.rehosted) =
        some (some (.ok ()), ()) := by
    decide
  obtain ⟨h', run, -⟩ := playShow_finishes _ _ played
  have refers := all Scenario.rehostedSite (Scenario.superseded Scenario.rehosted) h' Scenario.rehosted
    .blue _ "v1" rfl rfl rfl rfl run
  have records := (runRollback_records (d := Scenario.rehosted) (a := .blue) rfl rfl rfl).finishes run
  exact absurd ((Host.Records.refers_iff records).mp refers) (by decide)

end Codery
