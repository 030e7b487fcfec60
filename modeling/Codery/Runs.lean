import Codery.Effect.May
import Codery.LifecycleSpecs

/-! Runs the environment can bring about: what the programs that read the host return when they
are answered. -/

namespace Codery

open Effect Prog Deploy

variable {site : Site} {h h' : Host} {α β : Type} {s n sha : String} {a c : Color} {d : ServiceDef}

/-- `x` can return `a` and leave the host as it was. -/
abbrev Yields (site : Site) (x : Result α) (h : Host) (a : α) : Prop :=
  May (steps site) (fun r h' => r = .ok a ∧ h' = h) x.run h

theorem Yields.bind {Q : Except String β → Host → Prop} {x : Result α} {f : α → Result β} {a : α}
    (hx : Yields site x h a) (next : May (steps site) Q (f a).run h) :
    May (steps site) Q (x >>= f).run h := by
  refine May.bindE hx ?_ ?_
  · rintro b h' ⟨same, rfl⟩
    cases same
    exact next
  · rintro e h' ⟨same, _⟩
    cases same

/-- What `x` can do, it does within its footprint. -/
theorem May.framed {P : Part → Prop} {R : α → Host → Prop} {x : Result α}
    (hx : May (steps site) (fun r h' => ∃ a, r = .ok a ∧ R a h') x.run h)
    (only : x.run.Only fun c : Call => P c.part) :
    May (steps site) (fun r h' => ∃ a, r = .ok a ∧ h.SameBut P h' ∧ R a h') x.run h := by
  refine (hx.and_safe (only_sameBut only h)).mono ?_
  rintro r h' ⟨⟨a, ok, hR⟩, same⟩
  exact ⟨a, ok, same, hR⟩

theorem call_may {Q : Except String β → Host → Prop} {c : Call} {f : c.Reply → Result β}
    {r : c.Reply} (o : Choice) (ans : c.answer site o h = some (r, h'))
    (next : May (steps site) Q (f r).run h') : May (steps site) Q (call c >>= f).run h :=
  ⟨r, h', ⟨o, rfl, ans⟩, next⟩

theorem read_may {Q : Except String β → Host → Prop} {c : Call} {f : c.Reply → Result β}
    {r : c.Reply} (o : Choice) (ans : c.answer site o h = some (r, h))
    (next : May (steps site) Q (f r).run h) : May (steps site) Q (call c >>= f).run h :=
  call_may o ans next

theorem attempt_yields {x : Result α} {a : α} (hx : Yields site x h a) :
    Yields site (attempt x) h (.ok a) :=
  May.bind (β := Except String (Except String α)) hx fun r h' ⟨same, kept⟩ => ⟨by rw [same], kept⟩

theorem loadService_yields (loaded : site.services.load s = some d) :
    Yields site (loadService s) h d :=
  call_may .ok rfl ⟨by simp [Site.load, loaded], rfl⟩

theorem loadDef_yields (loaded : site.services.load s = some d) : Yields site (loadDef s) h d :=
  (attempt_yields (loadService_yields loaded)).bind ⟨rfl, rfl⟩

theorem preflight_yields : Yields site preflight h () := call_may .ok rfl ⟨rfl, rfl⟩

theorem ensureNetwork_yields : Yields site (ensureNetwork n) h () := call_may .ok rfl ⟨rfl, rfl⟩

theorem readActive_yields (active : h.active s = some a) :
    Yields site (State.readActive s) h a := by
  refine read_may .ok rfl ?_
  simp only [Host.active, StateDir.active] at active
  cases file : h.state.color s with
  | unreadable =>
    rw [file] at active
    cases active
  | missing | text =>
    rw [file] at active
    cases active
    exact ⟨rfl, rfl⟩

/-- A color file that cannot be read is answered too. -/
theorem tryActive_yields (site : Site) (s : String) (h : Host) :
    ∃ r, r.toOption = h.active s ∧ Yields site (attempt (State.readActive s)) h r := by
  cases active : h.active s with
  | some a => exact ⟨.ok a, rfl, attempt_yields (readActive_yields active)⟩
  | none =>
    refine ⟨.error ("failed to read state file " ++ statePath s), rfl, read_may .ok rfl ?_⟩
    simp only [Host.active, StateDir.active] at active
    cases file : h.state.color s with
    | unreadable => exact ⟨rfl, rfl⟩
    | missing | text =>
      rw [file] at active
      cases active

theorem colorOrBlue_yields :
    Yields site (Caddy.colorOrBlue s) h ((h.active s).getD .blue) := by
  obtain ⟨r, seen, yields⟩ := tryActive_yields site s h
  apply yields.bind
  rw [seen]
  exact ⟨rfl, rfl⟩

theorem readActiveSha_yields : Yields site (State.readActiveSha s) h (h.state.activeSha s) := by
  refine read_may .ok rfl ?_
  simp only [StateDir.activeSha]
  cases h.state.sha s <;> exact ⟨rfl, rfl⟩

theorem containerRunning_yields :
    Yields site (containerRunning n) h ((h.docker.containers n).any (·.running)) := by
  refine read_may .ok rfl ?_
  simp only [Docker.Daemon.inspect]
  cases h.docker.containers n <;> exact ⟨rfl, rfl⟩

theorem containerImageTag_yields :
    Yields site (containerImageTag n) h ((h.docker.containers n).map (·.image)) := by
  refine read_may .ok rfl ?_
  simp only [Docker.Daemon.inspect]
  cases h.docker.containers n <;> exact ⟨rfl, rfl⟩

theorem listLocal_yields : Yields site (Images.listLocal s) h (h.localImages s) :=
  call_may .ok rfl ⟨rfl, rfl⟩

theorem portConflicts_yields {active : List UInt16} {ports : List (UInt16 × UInt16)}
    (free : ∀ q ∈ ports.map (·.1), q ∈ active ∨ h.publishes site q = false) :
    Yields site (Validate.portConflicts active ports) h [] := by
  induction ports with
  | nil => exact ⟨rfl, rfl⟩
  | cons p ports ih =>
    simp only [List.map_cons, List.forall_mem_cons] at free
    unfold Validate.portConflicts
    split
    · exact ih free.2
    · next asked =>
      have unheld := free.1.resolve_left fun mem => asked (List.contains_iff_mem.mpr mem)
      have ans : (Call.bindHostPort p.1).answer site .ok h = some (true, h) := by
        simp [Call.answer, unheld]
      exact read_may .ok ans ((ih free.2).bind ⟨rfl, rfl⟩)

/-- The checks of a deploy pass, as far as the environment has a say in them. -/
theorem checkDeploy_may (udp : d.ports.flatMap Validate.udpErrors = [])
    (free : h.PortsFree site d c) :
    May (steps site) (fun r h' => ∃ u, r = .ok u ∧ h.SameBut quiets h' ∧ True)
      (Validate.checkDeploy d sha c).run h := by
  refine May.framed (R := fun _ _ => True) ?_ checkDeploy_only
  refine read_may .ok rfl ?_
  refine call_may (.pulled { id := "", repoTags := [], created := 0 }) rfl ?_
  refine Exists.elim (tryActive_yields _ _ _) fun active seen => seen.2.bind ?_
  refine Yields.bind (portConflicts_yields ?_) ?_
  · rw [map_fst_portMappings, map_fst_portMappings, seen.1]
    exact free
  simp only [udp, List.append_nil, if_true]
  exact ⟨(), rfl, trivial⟩

end Codery
