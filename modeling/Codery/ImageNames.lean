import Codery.Runs
import Codery.Scenario

/-! Which images are those of a service (`images.rs`): they share a repository with the images of
the others and are told apart by the beginning of their tags, `service-`. -/

namespace Codery

open Effect Prog

/-- Which characters are alphanumeric is left open beyond ASCII. -/
structure Alphabet where
  isAlphanumeric : Char → Bool
  ascii : ∀ c, c.toNat < 128 → isAlphanumeric c = c.isAlphanum

def validateServiceName (alphabet : Alphabet) (name : String) : Except String Unit :=
  if name = "" then .error "service name cannot be empty"
  else if name.toList.all fun c => alphabet.isAlphanumeric c || c == '-' || c == '_' then .ok ()
  else .error ("invalid service name '" ++ name ++ "': use only letters, digits, hyphens, underscores")

/-- The image that the MCP `rollback` tool deploys. -/
def Mcp.rollbackImage (activeSha : Option String) (images : List LocalImage) : Option LocalImage :=
  images.find? fun i => activeSha ≠ some i.sha

theorem Mcp.rollback_eq (service : String) : Mcp.rollback service = (do
    let unknown := "unknown service '" ++ service ++ "' — no service definition found"
    let _ ← context unknown (← attempt (loadService service))
    let activeSha ← State.readActiveSha service
    let images ← Images.listLocal service
    match rollbackImage activeSha images with
    | none => throw ("no rollback image available for " ++ service ++ " (active=" ++
        activeSha.getD "unknown" ++ ", total cached=" ++ toString images.length ++ ")")
    | some image => Deploy.run service image.sha) := rfl

variable {site : Site} {h h' : Host} {s t x ref : String} {alphabet : Alphabet}
  {images : List Image}

theorem validateServiceName_plain (valid : validateServiceName alphabet s = .ok ()) :
    '*' ∉ s.toList := by
  intro star
  unfold validateServiceName at valid
  split at valid
  · cases valid
  · split at valid
    case isTrue all =>
      have allowed := List.all_eq_true.mp all '*' star
      rw [alphabet.ascii '*' (by decide)] at allowed
      revert allowed
      decide
    case isFalse => cases valid

/-! ### The filter -/

namespace Docker

theorem nil_mem_starRests {cs : List Char} : [] ∈ starRests cs ↔ '/' ∉ cs := by
  induction cs with
  | nil => simp [starRests]
  | cons c cs ih =>
    by_cases slash : c = '/'
    · simp [starRests, slash]
    · simp [starRests, slash, ih, Ne.symm slash]

/-- The glob `pre*`, where `pre` has no `*` itself. -/
theorem glob_star {pre cs : List Char} (plain : '*' ∉ pre) :
    glob (pre ++ ['*']) cs = true ↔ ∃ rest, cs = pre ++ rest ∧ '/' ∉ rest := by
  induction pre generalizing cs with
  | nil =>
    have taken : glob ['*'] cs = true ↔ [] ∈ starRests cs := by
      simp [glob, List.isEmpty_iff]
    rw [List.nil_append, taken, nil_mem_starRests]
    simp
  | cons c pre ih =>
    have other : c ≠ '*' := fun same => plain (same ▸ List.mem_cons_self)
    have rest : '*' ∉ pre := fun star => plain (List.mem_cons_of_mem _ star)
    cases cs with
    | nil => simp [glob]
    | cons d cs =>
      rw [List.cons_append, glob.eq_3 _ _ _ _ other, Bool.and_eq_true, beq_iff_eq,
        ih rest]
      constructor
      · rintro ⟨rfl, tail, rfl, free⟩
        exact ⟨tail, rfl, free⟩
      · rintro ⟨tail, same, free⟩
        obtain ⟨rfl, rfl⟩ := List.cons_eq_cons.mp same
        exact ⟨rfl, tail, rfl, free⟩

end Docker

/-- The references that the filter of a service lets pass. -/
theorem glob_tagPrefix (valid : validateServiceName alphabet s = .ok ()) :
    Docker.glob (Images.tagPrefix s ++ "*").toList ref.toList = true ↔
      ∃ y, '/' ∉ y.toList ∧ ref = imageRef s y := by
  have plain : '*' ∉ (Images.tagPrefix s).toList := by
    have star := validateServiceName_plain valid
    simp [Images.tagPrefix, registry, star]
  rw [String.toList_append]
  refine (Docker.glob_star plain).trans ⟨?_, ?_⟩
  · rintro ⟨rest, same, free⟩
    refine ⟨String.ofList rest, by simpa using free, String.toList_inj.mp ?_⟩
    rw [same]
    simp [imageRef, Images.tagPrefix]
  · rintro ⟨y, free, rfl⟩
    exact ⟨y.toList, by simp [imageRef, Images.tagPrefix], free⟩

/-! ### What is done for a service -/

/-- Nothing that is done for service `s` on host `h` is done with reference `ref`. -/
structure Separate (site : Site) (h : Host) (s ref : String) : Prop where
  /-- `list_local` leaves it out, and so do the two that choose from the list. -/
  unlisted : ∀ images h', Finishes (steps site) (Images.listLocal s).run h (.ok images) h' →
    (∀ i ∈ images, i.tag ≠ ref) ∧
    (∀ activeSha i, Mcp.rollbackImage activeSha images = some i → imageRef s i.sha ≠ ref) ∧
    ∀ staged activeTag sha already,
      Deploy.planCutover none none staged images.head? activeTag = .promote sha already →
        imageRef s sha ≠ ref
  /-- `prune` does not count an image that has it among those it sorts. -/
  uncounted : ∀ images h', Finishes (steps site) (Images.listImages s).run h (.ok images) h' →
    ∀ i ∈ h.docker.images, ref ∈ i.repoTags → ∀ j ∈ images, j.id ≠ i.id
  kept : ∀ r h', Finishes (steps site) (Images.prune s).run h r h' →
    ∀ i ∈ h.docker.images, ref ∈ i.repoTags → i ∈ h'.docker.images

/-- The image that has the reference has one of service `s`. -/
def TaggedFor (images : List Image) (s ref : String) : Prop :=
  ∃ i ∈ images, ref ∈ i.repoTags ∧ ∃ j ∈ images, j.id = i.id ∧
    ∃ y, '/' ∉ y.toList ∧ imageRef s y ∈ j.repoTags

/-- The images that the filter of service `s` lets pass. -/
def Host.listed (h : Host) (s : String) : List Image :=
  h.docker.images.filter fun i =>
    i.repoTags.any fun t => Docker.glob (Images.tagPrefix s ++ "*").toList t.toList

theorem mem_listed (valid : validateServiceName alphabet s = .ok ()) {i : Image} :
    i ∈ h.listed s ↔
      i ∈ h.docker.images ∧ ∃ y, '/' ∉ y.toList ∧ imageRef s y ∈ i.repoTags := by
  rw [Host.listed, List.mem_filter, List.any_eq_true]
  refine and_congr_right fun _ => ⟨?_, ?_⟩
  · rintro ⟨tag, mem, passes⟩
    obtain ⟨y, free, rfl⟩ := (glob_tagPrefix valid).mp passes
    exact ⟨y, free, mem⟩
  · rintro ⟨y, free, mem⟩
    exact ⟨_, mem, (glob_tagPrefix valid).mpr ⟨y, free, rfl⟩⟩

theorem listImages_spec :
    Spec site reads h (OnOk fun images _ => images = h.listed s) (Images.listImages s).run := by
  apply Spec.of_only listImages_only
  apply call_ends
  intro r h' step
  obtain ⟨_, _, ans⟩ := step
  cases Docker.answer_listImages (answer_docker ans).1 with
  | inl found =>
    subst found
    rfl
  | inr failed =>
    subst failed
    trivial

theorem listImages_yields (site : Site) (h : Host) (s : String) :
    Yields site (Images.listImages s) h (h.listed s) :=
  call_may .ok rfl ⟨rfl, rfl⟩

/-- What is removed goes by the ids of the images given. -/
theorem removeOld_keeps {i : Image} (old : List Image) (other : ∀ j ∈ old, j.id ≠ i.id)
    (mem : i ∈ h.docker.images) :
    Ends site (fun _ h' => i ∈ h'.docker.images) (Images.removeOld old).run h := by
  induction old generalizing h with
  | nil => exact mem
  | cons j old ih =>
    refine call_ends fun r h' step => ?_
    apply ih fun k hk => other k (List.mem_cons_of_mem _ hk)
    obtain ⟨_, _, ans⟩ := step
    rcases Docker.fallible_some (answer_docker ans).1 with done | failed
    · obtain ⟨-, left⟩ := Prod.mk.inj done
      have other := other j List.mem_cons_self
      rw [left]
      exact List.mem_filter.mpr ⟨mem, bne_iff_ne.mpr other.symm⟩
    · obtain ⟨-, left⟩ := Prod.mk.inj failed
      rwa [left]

/-- What an automatic cutover promotes is the newest image of the list. -/
theorem planCutover_auto {newest : Option LocalImage} {staged already : Bool} {tag sha : String}
    (plan : Deploy.planCutover none none staged newest tag = .promote sha already) :
    ∃ i, newest = some i ∧ i.sha = sha := by
  cases already with
  | true =>
    obtain ⟨-, previewed, -⟩ := Deploy.planCutover_staged plan
    cases previewed
  | false => exact Option.map_eq_some_iff.mp (Deploy.planCutover_promote plan)

theorem prune_keeps {i : Image} (other : ∀ j ∈ h.listed s, j.id ≠ i.id) (mem : i ∈ h.docker.images) :
    Ends site (fun _ h' => i ∈ h'.docker.images) (Images.prune s).run h := by
  refine listImages_spec.bindE (fun _ _ _ _ _ _ _ => trivial) (fun images h' same listed => ?_)
    fun e h' same _ => ?_
  · cases same.eq_of_reads
    have listed : images = h.listed s := listed
    subst listed
    refine removeOld_keeps _ (fun j old => other j ?_) mem
    exact (List.mem_insertionSort _).mp (List.mem_of_mem_drop old)
  · rwa [same.eq_of_reads]

theorem separate_of (valid : validateServiceName alphabet s = .ok ())
    (other : ¬ TaggedFor h.docker.images s ref) : Separate site h s ref where
  unlisted images h' run := by
    have listed : images = h.localImages s := (listLocal_spec.ends).finishes run
    have tags : ∀ i ∈ images, imageRef s i.sha ≠ ref := by
      intro i mem same
      rw [listed] at mem
      obtain ⟨tag, j, found, carries⟩ := Images.localImages_named mem
      obtain ⟨here, named⟩ := (mem_listed valid).mp found
      exact other ⟨j, here, same ▸ tag ▸ carries, j, here, rfl, named⟩
    refine ⟨fun i mem same => ?_, fun activeSha i chosen => ?_, fun staged tag sha already plan => ?_⟩
    · rw [listed] at mem
      exact tags i (listed ▸ mem) ((Images.localImages_named mem).1.symm.trans same)
    · exact tags i (List.mem_of_find?_eq_some chosen)
    · obtain ⟨i, newest, rfl⟩ := planCutover_auto plan
      exact tags i (List.mem_of_mem_head? newest)
  uncounted images h' run i mem tagged j counted same := by
    have listed : images = h.listed s := listImages_spec.ends.finishes run
    subst listed
    obtain ⟨here, named⟩ := (mem_listed valid).mp counted
    exact other ⟨i, mem, tagged, j, here, same, named⟩
  kept r h' run i mem tagged := by
    refine (prune_keeps (fun j counted same => ?_) mem).finishes run
    obtain ⟨here, named⟩ := (mem_listed valid).mp counted
    exact other ⟨i, mem, tagged, j, here, same, named⟩

/-- Each image has one reference at most, and no image has the id of another. -/
def SingleReference (images : List Image) : Prop :=
  (∀ i ∈ images, i.repoTags.length ≤ 1) ∧ (images.map (·.id)).Nodup

theorem imageRef_inj {y : String} : imageRef t x = imageRef s y ↔ t ++ "-" ++ x = s ++ "-" ++ y := by
  simp only [imageRef, ← String.toList_inj, String.toList_append, List.append_assoc]
  rw [List.append_right_inj, List.append_right_inj]

/-- Of images with one reference each, the names decide. -/
theorem taggedFor_iff (plain : SingleReference images) :
    TaggedFor images s (imageRef t x) ↔
      (∃ i ∈ images, imageRef t x ∈ i.repoTags) ∧
        ∃ y, '/' ∉ y.toList ∧ t ++ "-" ++ x = s ++ "-" ++ y := by
  constructor
  · rintro ⟨i, mem, tagged, j, here, same, y, free, named⟩
    obtain rfl : j = i := List.inj_on_of_nodup_map plain.2 here mem same
    refine ⟨⟨j, mem, tagged⟩, y, free, imageRef_inj.mp ?_⟩
    obtain ⟨ref, only⟩ := List.length_eq_one_iff.mp
      (le_antisymm (plain.1 j mem) (List.length_pos_of_mem tagged))
    rw [only, List.mem_singleton] at tagged named
    rw [tagged, named]
  · rintro ⟨⟨i, mem, tagged⟩, y, free, same⟩
    exact ⟨i, mem, tagged, i, mem, rfl, y, free, imageRef_inj.mpr same ▸ tagged⟩

/-- The images with the reference are none of the service's exactly if they have no reference of the
service. -/
theorem separate_iff (valid : validateServiceName alphabet s = .ok ()) :
    Separate site h s (imageRef t x) ↔ ¬ TaggedFor h.docker.images s (imageRef t x) := by
  refine ⟨?_, separate_of valid⟩
  rintro separate ⟨i, mem, tagged, j, here, same, named⟩
  obtain ⟨_, _, run, rfl, -⟩ := (listImages_yields site h s).finishes
  have counted := (mem_listed valid).mpr ⟨here, named⟩
  exact separate.uncounted _ _ run i mem tagged j counted same

namespace Scenario

def ascii : Alphabet := ⟨Char.isAlphanum, fun _ _ => rfl⟩

def cached (images : List Image) : Host :=
  { serving with docker := { serving.docker with images } }

def cachedImage (service sha : String) : Image :=
  { id := "sha256:" ++ sha, repoTags := [imageRef service sha], created := 3 }

end Scenario

theorem separate_apps :
    let h := Scenario.cached [Scenario.cachedImage "apps" "v1", Scenario.cachedImage "paseo" "v2"]
    Separate Scenario.site h "paseo" (imageRef "apps" "v1") := by
  have valid : validateServiceName Scenario.ascii "paseo" = .ok () := by decide
  have plain : SingleReference [Scenario.cachedImage "apps" "v1", Scenario.cachedImage "paseo" "v2"] :=
    ⟨by decide, by decide⟩
  refine (separate_iff valid).mpr fun tagged => ?_
  obtain ⟨-, y, -, same⟩ := (taggedFor_iff plain).mp tagged
  simpa using congrArg String.toList same

/-- On a host where each image has one reference, it takes a tag that begins with `service-`. -/
theorem separate_names_iff (valid : validateServiceName alphabet s = .ok ()) :
    (∀ h : Host, SingleReference h.docker.images → Separate site h s (imageRef t x)) ↔
      ∀ y, '/' ∉ y.toList → t ++ "-" ++ x ≠ s ++ "-" ++ y := by
  constructor
  · intro all y free same
    have plain : SingleReference [Scenario.cachedImage t x] := ⟨by simp [Scenario.cachedImage], by simp⟩
    have separate := all (Scenario.cached [Scenario.cachedImage t x]) plain
    have tagged : ∃ i ∈ [Scenario.cachedImage t x], imageRef t x ∈ i.repoTags :=
      ⟨_, List.mem_singleton_self _, List.mem_singleton_self _⟩
    exact (separate_iff valid).mp separate ((taggedFor_iff plain).mpr ⟨tagged, y, free, same⟩)
  · intro apart h plain
    refine (separate_iff valid).mpr fun tagged => ?_
    obtain ⟨-, y, free, same⟩ := (taggedFor_iff plain).mp tagged
    exact apart y free same

/-- The service `app` has the images of the service `app-web`, too. -/
theorem prefix_shared : ¬ ∀ (alphabet : Alphabet) (site : Site) (h : Host) (s t x : String),
    validateServiceName alphabet s = .ok () → validateServiceName alphabet t = .ok () → s ≠ t →
    Separate site h s (imageRef t x) := by
  intro all
  have separate := all Scenario.ascii Scenario.site
    (Scenario.cached [Scenario.cachedImage "app-web" "v1"]) "app" "app-web" "v1" (by decide) (by decide)
    (by decide)
  obtain ⟨_, _, run, rfl, -⟩ := listLocal_yields.finishes
  exact (separate.unlisted _ _ run).1
    { sha := "web-v1", tag := imageRef "app-web" "v1", created := 3 } (by decide) rfl

end Codery
