import Codery.Footprint

/-! One specification for each program: what it can change, and what its result says. -/

namespace Codery

open Effect Prog

variable {site : Site} {P P' : Part → Prop} {h h' : Host} {α β : Type} {s n sha : String}
  {a b c : Color} {d : ServiceDef}

/-- `p`, started in `h`, changes no part outside `P`; `R` holds of its result. -/
def Spec (site : Site) (P : Part → Prop) (h : Host) (R : α → Host → Prop) (p : Prog sig α) : Prop :=
  Safe (steps site) (fun c h₁ _ h₂ => P c.part ∧ h.SameBut P h₁ ∧ h.SameBut P h₂)
    (fun r h' => h.SameBut P h' ∧ R r h') p h

/-- `R` holds of the result of `p`, whatever it does. -/
abbrev Ends (site : Site) (R : α → Host → Prop) (p : Prog sig α) (h : Host) : Prop :=
  Safe (steps site) (fun _ _ _ _ => True) R p h

theorem Spec.of_only {R : α → Host → Prop} {p : Prog sig α} (only : p.Only fun c : Call => P c.part)
    (ends : Ends site R p h) : Spec site P h R p :=
  ((only_sameBut only h).and ends).mono (fun _ _ _ _ _ both => both.1) fun _ _ both => both

theorem Spec.frame {p : Prog sig α} (only : p.Only fun c : Call => P c.part) :
    Spec site P h (fun _ _ => True) p :=
  (only_sameBut only h).post fun _ _ same => ⟨same, trivial⟩

theorem Spec.post {R R' : α → Host → Prop} {p : Prog sig α} (spec : Spec site P h R p)
    (hR : ∀ r h', h.SameBut P h' → R r h' → R' r h') : Spec site P h R' p :=
  Safe.post spec fun r h' ⟨same, hr⟩ => ⟨same, hR r h' same hr⟩

theorem Spec.mono {R : α → Host → Prop} {p : Prog sig α} (spec : Spec site P h R p)
    (hP : ∀ x, P x → P' x) : Spec site P' h R p :=
  Safe.mono spec (fun _ _ _ _ _ ⟨hc, before, after⟩ => ⟨hP _ hc, before.mono hP, after.mono hP⟩)
    fun _ _ ⟨same, hr⟩ => ⟨same.mono hP, hr⟩

theorem Spec.ends {R : α → Host → Prop} {p : Prog sig α} (spec : Spec site P h R p) :
    Ends site R p h :=
  Safe.mono spec (fun _ _ _ _ _ _ => trivial) fun _ _ both => both.2

/-- Run a program with a specification first: its steps are checked against the footprint only. -/
theorem Spec.bindE {I : StepRel sig Host} {R : Except String α → Host → Prop}
    {Q : Except String β → Host → Prop} {x : Result α} {f : α → Result β}
    (spec : Spec site P h R x.run)
    (step : ∀ c h₁ r h₂, steps site c h₁ r h₂ → P c.part → h.SameBut P h₁ → I c h₁ r h₂)
    (ok : ∀ a h', h.SameBut P h' → R (.ok a) h' → Safe (steps site) I Q (f a).run h')
    (error : ∀ e h', h.SameBut P h' → R (.error e) h' → Q (.error e) h') :
    Safe (steps site) I Q (x >>= f).run h :=
  Safe.bindE (Safe.mono spec (fun c h₁ r h₂ st ⟨hc, before, _⟩ => step c h₁ r h₂ st hc before)
    fun _ _ both => both) (fun a h' ⟨same, ha⟩ => ok a h' same ha)
    fun e h' ⟨same, he⟩ => error e h' same he

/-- The same for a program that is run to its end. -/
theorem Spec.safe {I : StepRel sig Host} {R Q : α → Host → Prop} {p : Prog sig α}
    (spec : Spec site P h R p)
    (step : ∀ c h₁ r h₂, steps site c h₁ r h₂ → P c.part → h.SameBut P h₁ → I c h₁ r h₂)
    (post : ∀ r h', h.SameBut P h' → R r h' → Q r h') : Safe (steps site) I Q p h :=
  Safe.mono spec (fun c h₁ r h₂ st ⟨hc, before, _⟩ => step c h₁ r h₂ st hc before)
    fun r h' ⟨same, hr⟩ => post r h' same hr

/-- A specification is one for tamer hosts, too. -/
theorem Spec.within {H : StepRel sig Host} {R : α → Host → Prop} {p : Prog sig α}
    (spec : Spec site P h R p) (le : H ≤ steps site) :
    Safe H (fun _ _ _ _ => True) (fun r h' => h.SameBut P h' ∧ R r h') p h :=
  (spec.safe (fun _ _ _ _ _ _ _ => trivial) fun _ _ same hr => And.intro same hr).restrict le

/-- Past a program whose frame keeps `J`, it is left to the next one to keep it. -/
theorem Spec.keeping {H : StepRel sig Host} {R : Except String α → Host → Prop} {J : Host → Prop}
    {x : Result α} {f : α → Result β} (spec : Spec site P h R x.run) (le : H ≤ steps site)
    (kept : ∀ h', h.SameBut P h' → J h')
    (next : ∀ a h', h.SameBut P h' → R (.ok a) h' → J h' →
      Safe H (fun _ _ _ _ => True) (fun _ h' => J h') (f a).run h') :
    Safe H (fun _ _ _ _ => True) (fun _ h' => J h') (x >>= f).run h := by
  refine (spec.within le).bindE (fun a h' both => ?_) fun e h' both => ?_
  · exact next a h' both.1 both.2 (kept h' both.1)
  · exact kept h' both.1

/-- `T` holds of the value returned, if there is one. -/
def OnOk (T : α → Host → Prop) : Except String α → Host → Prop
  | .ok a, h => T a h
  | .error _, _ => True

theorem OnOk.mono {T T' : α → Host → Prop} {r : Except String α} (ok : OnOk T r h)
    (hT : ∀ a, T a h → T' a h) : OnOk T' r h := by
  cases r with
  | ok a => exact hT a ok
  | error e => trivial

theorem call_safe {I : StepRel sig Host} {Q : Except String β → Host → Prop} {c : Call}
    {f : c.Reply → Result β}
    (next : ∀ r h', steps site c h r h' → I c h r h' ∧ Safe (steps site) I Q (f r).run h') :
    Safe (steps site) I Q (call c >>= f).run h := next

theorem ofExcept_safe {H I : StepRel sig Host} {Q : Except String β → Host → Prop}
    {x : Except String α} {f : α → Result β}
    (ok : ∀ a, x = .ok a → Safe H I Q (f a).run h) (error : ∀ e, Q (.error e) h) :
    Safe H I Q (ofExcept x >>= f).run h := by
  cases x with
  | ok a => exact ok a rfl
  | error e => exact error e

theorem call_ends {Q : Except String β → Host → Prop} {c : Call} {f : c.Reply → Result β}
    (next : ∀ r h', steps site c h r h' → Ends site Q (f r).run h') :
    Ends site Q (call c >>= f).run h := fun r h' step => ⟨trivial, next r h' step⟩

theorem bind_ends {R : Except String α → Host → Prop} {Q : Except String β → Host → Prop}
    {x : Result α} {f : α → Result β} (ends : Ends site R x.run h)
    (ok : ∀ a h', R (.ok a) h' → Ends site Q (f a).run h')
    (error : ∀ e h', R (.error e) h' → Q (.error e) h') : Ends site Q (x >>= f).run h :=
  Safe.bindE ends ok error

theorem ok_ends {T : β → Host → Prop} {U : α → Host → Prop} {x : Result α} {f : α → Result β}
    (ends : Ends site (OnOk U) x.run h) (ok : ∀ a h', U a h' → Ends site (OnOk T) (f a).run h') :
    Ends site (OnOk T) (x >>= f).run h := bind_ends ends ok fun _ _ _ => trivial

/-- Run a program with a specification first, where only the value returned matters. -/
theorem Spec.ok_ends {R : Except String α → Host → Prop} {T : β → Host → Prop} {x : Result α}
    {f : α → Result β} (spec : Spec site P h R x.run)
    (ok : ∀ a h', h.SameBut P h' → R (.ok a) h' → Ends site (OnOk T) (f a).run h') :
    Ends site (OnOk T) (x >>= f).run h :=
  spec.bindE (fun _ _ _ _ _ _ _ => trivial) ok fun _ _ _ _ => trivial

/-- A program whose outcome nothing depends on. -/
theorem any_ends {p : Prog sig α} : Ends site (fun _ _ => True) p h :=
  Safe.of_runs (fun _ _ _ _ _ _ _ => trivial) fun _ _ _ => trivial

theorem after_ends {T : β → Host → Prop} {x : Result α} {f : α → Result β}
    (ok : ∀ a h', Ends site (OnOk T) (f a).run h') : Ends site (OnOk T) (x >>= f).run h :=
  bind_ends any_ends (fun a h' _ => ok a h') fun _ _ _ => trivial

/-- What a program's footprint spares still holds when it has returned. -/
theorem frame_ends {T : Host → Prop} {x : Result α} (only : x.run.Only fun c : Call => P c.part)
    (keep : ∀ h', h.SameBut P h' → T h') : Ends site (OnOk fun _ h' => T h') x.run h := by
  refine (Spec.frame only).safe (fun _ _ _ _ _ _ _ => trivial) ?_
  intro r h' same _
  cases r with
  | ok a => exact keep h' same
  | error e => trivial

theorem context_ends {ε : Type} {T : β → Host → Prop} {m : String} {x : Except ε α}
    {f : α → Result β} (ok : ∀ a, x = .ok a → Ends site (OnOk T) (f a).run h) :
    Ends site (OnOk T) (context m x >>= f).run h := by
  cases x with
  | ok a => exact ok a rfl
  | error e => trivial

theorem attempt_spec {R : Except String α → Host → Prop} {x : Result α}
    (spec : Spec site P h R x.run) :
    Spec site P h (OnOk R) (attempt x).run :=
  Safe.bind (β := Except String (Except String α)) spec fun _ _ hy => hy

@[simp] theorem ofExcept_run (x : Except String α) : (ofExcept x).run = .ret x := rfl

/-! ### The parts -/

abbrev reads : Part → Prop := (· = .nothing)
abbrev quiets : Part → Prop := (·.quiet = true)
abbrev touches (n : String) : Part → Prop := fun p => p.quiet = true ∨ p = .container n
abbrev reloads : Part → Prop := fun p => p.quiet = true ∨ p = .caddyfile ∨ p = .loaded

theorem Host.SameBut.eq_of_reads (same : h.SameBut reads h') : h' = h := same.eq fun _ hp => hp

/-- Past a program that only reads. -/
theorem Spec.read_ends {R : Except String α → Host → Prop} {T : β → Host → Prop} {x : Result α}
    {f : α → Result β} (spec : Spec site reads h R x.run)
    (ok : ∀ a, R (.ok a) h → Ends site (OnOk T) (f a).run h) :
    Ends site (OnOk T) (x >>= f).run h := by
  refine spec.ok_ends fun a h' same read => ?_
  cases same.eq_of_reads
  exact ok a read

theorem reads_step {x : Call} {r : x.Reply} (step : steps site x h r h') (hx : reads x.part) :
    h' = h := (steps_sameBut step hx).eq_of_reads

/-! ### What is observed of a service -/

namespace Host

def active (h : Host) (s : String) : Option Color := h.state.active s

def slot (h : Host) (s : String) (c : Color) : Option Container :=
  h.docker.containers (containerName s c)

/-- The local images of a service, as `docker images` would list them. -/
def localImages (h : Host) (s : String) : List LocalImage :=
  Images.localImages s (h.docker.images.filter fun i =>
    i.repoTags.any fun t => Docker.glob (Images.tagPrefix s ++ "*").toList t.toList)

/-- The preview row of a service, as `find_preview` picks it. -/
def preview (h : Host) (s : String) : Option PreviewRecord :=
  (h.db.previewRows.insertionSort (·.service ≤ ·.service)).find? (·.service == s)

def Up (h : Host) (s : String) (c : Color) : Prop := h.docker.Up (containerName s c)

theorem up_iff : h.Up s c ↔ ∃ k, h.slot s c = some k ∧ k.running = true := Iff.rfl

theorem up_any : h.Up s c ↔ (h.slot s c).any (·.running) = true := by
  rw [up_iff, Option.any_eq_true]

instance : Decidable (h.Up s c) := decidable_of_iff _ up_any.symm

theorem publishes_iff {q : UInt16} : h.publishes site q = true ↔
    ∃ d ∈ site.services.defs, ∃ c, h.Up d.service c ∧ q ∈ d.hostPorts c := by
  simp only [publishes, up_any, slot, List.any_eq_true, Bool.and_eq_true, List.contains_iff_mem]
  refine exists_congr fun d => and_congr_right fun _ => ⟨fun ⟨c, _, both⟩ => ⟨c, both⟩, ?_⟩
  rintro ⟨c, both⟩
  refine ⟨c, ?_, both⟩
  cases c <;> simp

theorem SameBut.publishes (same : h.SameBut P h') (no : ∀ n, ¬ P (.container n)) :
    h'.publishes site = h.publishes site := by
  simp only [funext_iff, Host.publishes, same.container (no _), implies_true]

theorem SameBut.active (same : h.SameBut P h') (no : ¬ P (.color s)) : h'.active s = h.active s := by
  simp only [Host.active, StateDir.active, same.color no]

theorem SameBut.activeSha (same : h.SameBut P h') (no : ¬ P (.sha s)) :
    h'.state.activeSha s = h.state.activeSha s := by
  simp only [StateDir.activeSha, same.sha no]

theorem SameBut.slot (same : h.SameBut P h') (no : ¬ P (.container (containerName s c))) :
    h'.slot s c = h.slot s c := same.container no

theorem SameBut.up (same : h.SameBut P h') (no : ¬ P (.container (containerName s c))) :
    h'.Up s c ↔ h.Up s c := by
  simp only [up_iff, same.slot no]

theorem SameBut.preview (same : h.SameBut P h') (no : ¬ P .previews) :
    h'.preview s = h.preview s := by
  simp only [Host.preview, same.previews no]

theorem SameBut.localImages (same : h.SameBut P h') (no : ¬ P .images) :
    h'.localImages s = h.localImages s := by
  simp only [Host.localImages, same.images no]

end Host

/-! ### Reading the host -/

theorem readActive_spec :
    Spec site reads h (fun r _ => r.toOption = h.active s) (State.readActive s).run := by
  apply Spec.of_only readActive_only
  apply call_ends
  intro r h' step
  obtain ⟨_, _, ans⟩ := step
  rw [(StateDir.answer_readColor (answer_state ans).1).1]
  simp only [Host.active, StateDir.active]
  cases h.state.color s <;> rfl

theorem readActiveSha_spec :
    Spec site reads h (fun r _ => r = .ok (h.state.activeSha s)) (State.readActiveSha s).run := by
  apply Spec.of_only readActiveSha_only
  apply call_ends
  intro r h' step
  obtain ⟨_, _, ans⟩ := step
  rw [(StateDir.answer_readSha (answer_state ans).1).1]
  simp only [StateDir.activeSha]
  cases h.state.sha s <;> rfl

theorem loadService_spec :
    Spec site reads h (OnOk fun d _ => site.services.load s = some d) (loadService s).run := by
  apply Spec.of_only loadService_only
  apply call_ends
  intro r h' step
  obtain ⟨_, _, ans⟩ := step
  cases Docker.fallible_some ans with
  | inl same =>
    cases same
    rw [ofExcept_run]
    unfold Site.load
    split
    · assumption
    · trivial
  | inr same =>
    cases same
    trivial

theorem loadDef_spec :
    Spec site reads h (OnOk fun d _ => site.services.load s = some d) (Deploy.loadDef s).run := by
  apply Spec.of_only loadDef_only
  apply ok_ends (attempt_spec loadService_spec).ends
  intro y h' loaded
  cases y with
  | ok d => exact loaded
  | error e => trivial

/-- An answered inspection shows the container as it is. -/
theorem inspect_step {r : Except Docker.Error Docker.Inspect}
    (step : steps site (.docker (.inspectContainer n)) h r h') :
    r = h.docker.inspect n ∨ r = .error Docker.serverError := by
  obtain ⟨_, _, ans⟩ := step
  exact (Docker.answer_inspectContainer (answer_docker ans).1).2

theorem inspect_step_ok {i : Docker.Inspect}
    (step : steps site (.docker (.inspectContainer n)) h (.ok i) h') :
    ∃ k, h.docker.containers n = some k ∧ i = { running := k.running, image := k.image } := by
  cases inspect_step step with
  | inl same => exact Docker.inspect_ok same.symm
  | inr same => cases same

theorem containerRunning_spec :
    Spec site reads h (fun r _ => ∃ up, r = .ok up ∧ (up = true → h.docker.Up n))
      (Deploy.containerRunning n).run := by
  apply Spec.of_only containerRunning_only
  apply call_ends
  intro r h' step
  cases r with
  | error e => exact ⟨false, rfl, by simp⟩
  | ok i =>
    obtain ⟨k, hk, rfl⟩ := inspect_step_ok step
    exact ⟨k.running, rfl, fun up => ⟨k, hk, up⟩⟩

/-- The container runs the image of `sha`. -/
def Host.Runs (h : Host) (d : ServiceDef) (c : Color) (sha : String) : Prop :=
  ∃ k, h.slot d.service c = some k ∧ k.running = true ∧ k.image = d.imageRef sha

theorem containerRunsImage_spec :
    Spec site reads h (fun r _ => ∃ runs, r = .ok runs ∧ (runs = true → h.Runs d c sha))
      (Deploy.containerRunsImage d c sha).run := by
  apply Spec.of_only containerRunsImage_only
  apply call_ends
  intro r h' step
  cases r with
  | error e => exact ⟨false, rfl, by simp⟩
  | ok i =>
    obtain ⟨k, hk, rfl⟩ := inspect_step_ok step
    refine ⟨_, rfl, fun runs => ?_⟩
    simp only [Bool.and_eq_true, beq_iff_eq] at runs
    exact ⟨k, hk, runs.1, runs.2⟩

theorem previewStaged_spec {preview : Option String} :
    Spec site reads h (fun r _ => ∃ staged, r = .ok staged ∧
        (staged = true → ∃ p, preview = some p ∧ h.Runs d c p))
      (Deploy.previewStaged d c preview).run := by
  cases preview with
  | none => exact ⟨.refl h, false, rfl, by simp⟩
  | some p =>
    refine containerRunsImage_spec.post fun r h' _ ⟨runs, ok, yes⟩ => ?_
    exact ⟨runs, ok, fun on => ⟨p, rfl, yes on⟩⟩

theorem containerImageTag_spec :
    Spec site reads h (fun r _ => ∃ tag, r = .ok tag ∧
        ∀ i, tag = some i → ∃ k, h.docker.containers n = some k ∧ k.image = i)
      (Deploy.containerImageTag n).run := by
  apply Spec.of_only containerImageTag_only
  apply call_ends
  intro r h' step
  cases r with
  | error e => exact ⟨none, rfl, by simp⟩
  | ok i =>
    obtain ⟨k, hk, rfl⟩ := inspect_step_ok step
    refine ⟨_, rfl, fun i same => ?_⟩
    cases same
    exact ⟨k, hk, rfl⟩

theorem listLocal_spec :
    Spec site reads h (OnOk fun images _ => images = h.localImages s) (Images.listLocal s).run := by
  apply Spec.of_only listLocal_only
  apply call_ends
  intro r h' step
  obtain ⟨_, _, ans⟩ := step
  cases Docker.answer_listImages (answer_docker ans).1 with
  | inl same =>
    subst same
    rfl
  | inr same =>
    subst same
    trivial

end Codery
