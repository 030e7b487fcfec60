import Codery.ImageNames

/-! Which image the MCP `rollback` tool deploys: the newest of those with another SHA than the
recorded one. -/

namespace Codery

open Effect Prog

variable {site : Site} {h h₁ : Host} {d : ServiceDef} {s x : String} {images : List LocalImage}
  {i j : LocalImage}

/-- The tool, up to the deploy. -/
def Mcp.rollbackChoice (service : String) : Result LocalImage := do
  let unknown := "unknown service '" ++ service ++ "' — no service definition found"
  let _ ← context unknown (← attempt (loadService service))
  let activeSha ← State.readActiveSha service
  let images ← Images.listLocal service
  match rollbackImage activeSha images with
  | none => throw ("no rollback image available for " ++ service ++ " (active=" ++
      activeSha.getD "unknown" ++ ", total cached=" ++ toString images.length ++ ")")
  | some image => pure image

/-- What the tool deploys is what it has chosen. -/
theorem Mcp.rollback_choice (service : String) :
    Mcp.rollback service =
      Mcp.rollbackChoice service >>= fun image => Deploy.run service image.sha := by
  rw [Mcp.rollback_eq]
  simp only [rollbackChoice, LawfulMonad.bind_assoc]
  refine congrArg _ (funext fun loaded => congrArg _ (funext fun _ => ?_))
  refine congrArg _ (funext fun activeSha => congrArg _ (funext fun images => ?_))
  cases rollbackImage activeSha images <;> rfl

/-! ### The first of a sorted list -/

/-- What a search of a sorted list finds comes before all else that it could have found. -/
theorem find?_first {α : Type} {R : α → α → Prop} {l : List α} {p : α → Bool} {a b : α}
    (sorted : l.Pairwise R) (found : l.find? p = some a) (mem : b ∈ l) (hb : p b = true) :
    b = a ∨ R a b := by
  obtain ⟨-, before, after, rfl, skipped⟩ := List.find?_eq_some_iff_append.mp found
  rcases List.mem_append.mp mem with early | late
  · have missed := skipped b early
    simp [hb] at missed
  · rcases List.mem_cons.mp late with same | late
    · exact .inl same
    · exact .inr (List.rel_of_pairwise_cons (List.pairwise_append.mp sorted).2.1 late)

theorem localImages_sorted (s : String) (images : List Image) :
    (Images.localImages s images).Pairwise (·.created ≥ ·.created) :=
  List.pairwise_insertionSort _ _

/-- The choice is one of the others, and the newest of them. -/
theorem rollbackImage_newest (chosen : Mcp.rollbackImage (some x) (h.localImages s) = some i) :
    (i ∈ h.localImages s ∧ i.sha ≠ x) ∧
      ∀ j ∈ h.localImages s, j.sha ≠ x → j.created ≤ i.created := by
  refine ⟨⟨List.mem_of_find?_eq_some chosen, ?_⟩, fun j mem other => ?_⟩
  · have passes := List.find?_some chosen
    exact fun same => of_decide_eq_true passes (congrArg some same.symm)
  · have differs : some x ≠ some j.sha := fun same => other (Option.some_inj.mp same).symm
    rcases find?_first (localImages_sorted _ _) chosen mem (decide_eq_true differs) with rfl | newer
    · exact le_rfl
    · exact newer

theorem rollbackImage_some (mem : j ∈ h.localImages s) (other : j.sha ≠ x) :
    ∃ i, Mcp.rollbackImage (some x) (h.localImages s) = some i := by
  have differs : some x ≠ some j.sha := fun same => other (Option.some_inj.mp same).symm
  have found : ((h.localImages s).find? fun i => some x ≠ some i.sha).isSome = true :=
    List.find?_isSome.mpr ⟨j, mem, decide_eq_true differs⟩
  exact Option.isSome_iff_exists.mp found

/-! ### The entries of the list -/

/-- Docker lists, for service `s`, an image of `sha` that was created at `created`. -/
def Host.Cached (h : Host) (s sha : String) (created : ℤ) : Prop :=
  ∃ j ∈ h.listed s, imageRef s sha ∈ j.repoTags ∧ j.created = created

theorem cached_iff {sha : String} {created : ℤ} :
    h.Cached s sha created ↔ ∃ i ∈ h.localImages s, i.sha = sha ∧ i.created = created := by
  simp only [Host.localImages, Images.localImages, List.mem_insertionSort, List.mem_flatMap,
    List.mem_filterMap, Option.map_eq_some_iff, stripPrefix_iff]
  constructor
  · rintro ⟨j, mem, tagged, rfl⟩
    exact ⟨_, ⟨j, mem, _, tagged, sha, rfl, rfl⟩, rfl, rfl⟩
  · rintro ⟨i, ⟨j, mem, tag, tagged, sha, rfl, rfl⟩, rfl, rfl⟩
    exact ⟨j, mem, tagged, rfl⟩

/-! ### The runs of the tool -/

theorem rollbackChoice_chooses :
    Ends site (OnOk fun i _ => Mcp.rollbackImage (h.state.activeSha s) (h.localImages s) = some i)
      (Mcp.rollbackChoice s).run h := by
  refine (attempt_spec loadService_spec).read_ends fun found _ => ?_
  refine context_ends fun _ _ => ?_
  refine readActiveSha_spec.read_ends fun activeSha read => ?_
  cases read
  refine ok_ends listLocal_spec.ends fun images h₁ listed => ?_
  have listed : images = h.localImages s := listed
  subst listed
  cases chosen : Mcp.rollbackImage (h.state.activeSha s) (h.localImages s) with
  | none => trivial
  | some i => exact rfl

theorem rollbackChoice_may (loaded : site.services.load s = some d)
    (chosen : Mcp.rollbackImage (h.state.activeSha s) (h.localImages s) = some i) :
    Yields site (Mcp.rollbackChoice s) h i := by
  refine (attempt_yields (loadService_yields loaded)).bind ?_
  refine Yields.bind (a := d) ⟨rfl, rfl⟩ ?_
  refine readActiveSha_yields.bind ?_
  refine listLocal_yields.bind ?_
  simp only [chosen]
  exact ⟨rfl, rfl⟩

/-- The tool deploys nothing newer than a given time exactly if Docker lists nothing of another SHA
that is newer. -/
theorem rollbackChoice_le_iff {created : ℤ} (loaded : site.services.load s = some d)
    (recorded : h.state.activeSha s = some x) :
    (∀ i h₁, Finishes (steps site) (Mcp.rollbackChoice s).run h (.ok i) h₁ → i.created ≤ created) ↔
      ∀ y t, h.Cached s y t → y ≠ x → t ≤ created := by
  constructor
  · intro all y t other differs
    obtain ⟨j, mem, rfl, rfl⟩ := cached_iff.mp other
    obtain ⟨i, chosen⟩ := rollbackImage_some mem differs
    have newest := (rollbackImage_newest chosen).2 j mem differs
    obtain ⟨_, _, run, rfl, -⟩ := (rollbackChoice_may loaded (recorded ▸ chosen)).finishes
    exact newest.trans (all i _ run)
  · intro none i h₁ run
    have chosen := rollbackChoice_chooses.finishes run
    rw [recorded] at chosen
    obtain ⟨⟨mem, differs⟩, -⟩ := rollbackImage_newest chosen
    exact none i.sha i.created (cached_iff.mpr ⟨i, mem, rfl, rfl⟩) differs

/-- What the tool deploys was created no later than the image of `sha`. -/
def Mcp.GoesBack (site : Site) (h : Host) (service sha : String) : Prop :=
  ∀ created, h.Cached service sha created → ∀ i h₁,
    Finishes (steps site) (Mcp.rollbackChoice service).run h (.ok i) h₁ → i.created ≤ created

/-- A rollback goes back from the recorded SHA exactly if no image of another SHA is newer. -/
theorem rollback_back_iff (loaded : site.services.load s = some d)
    (recorded : h.state.activeSha s = some x) :
    Mcp.GoesBack site h s x ↔
      ∀ created, h.Cached s x created → ∀ y t, h.Cached s y t → y ≠ x → t ≤ created :=
  forall₂_congr fun _ _ => rollbackChoice_le_iff loaded recorded

/-- Blue serves `v2`, the newer of the two images: the tool goes back to `v1`. -/
theorem rollback_back_mismatched :
    Mcp.GoesBack Scenario.site Scenario.mismatched "paseo" "v2" := by
  refine (rollback_back_iff (d := Scenario.paseo) rfl (by decide)).mpr ?_
  have ages : ∀ i ∈ Scenario.mismatched.localImages "paseo",
      i.created ≤ 2 ∧ (i.sha = "v2" → i.created = 2) := by decide +kernel
  intro created active y t other _
  obtain ⟨i, mem, own, rfl⟩ := cached_iff.mp active
  obtain ⟨j, listed, -, rfl⟩ := cached_iff.mp other
  rw [(ages i mem).2 own]
  exact (ages j listed).1

/-- `v2` has been built while `v1` serves, and a rollback from `v1` deploys it. -/
theorem rollback_forward : ¬ ∀ (site : Site) (h : Host) (d : ServiceDef) (s x : String),
    site.services.load s = some d → h.state.activeSha s = some x → Mcp.GoesBack site h s x := by
  intro all
  have cached : Scenario.serving.Cached "paseo" "v1" 1 :=
    ⟨Scenario.image "v1" 1, by decide +kernel, by decide +kernel, rfl⟩
  have chosen : Mcp.rollbackImage (Scenario.serving.state.activeSha "paseo")
      (Scenario.serving.localImages "paseo") = some ⟨"v2", imageRef "paseo" "v2", 2⟩ := by
    decide +kernel
  have may : Yields Scenario.site (Mcp.rollbackChoice "paseo") Scenario.serving _ :=
    rollbackChoice_may (d := Scenario.paseo) rfl chosen
  obtain ⟨_, h₁, run, rfl, -⟩ := may.finishes
  have back := all Scenario.site Scenario.serving Scenario.paseo "paseo" "v1" rfl (by decide) 1 cached
    _ _ run
  exact absurd back (by decide)

end Codery
