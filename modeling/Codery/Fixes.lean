import Codery.Availability
import Codery.Runs

/-! The commands `diagnose` prints: when one of them can leave a service with no container up. -/

namespace Codery

open Effect Prog Deploy

variable {site : Site} {P : Part → Prop} {h h' : Host} {α β : Type} {s sha : String} {a b c : Color}
  {d : ServiceDef} {op : Operation}

/-! ### What is reported -/

def Host.seen (h : Host) (s : String) (c : Color) : Option Diagnose.ContainerState :=
  (h.slot s c).map fun k =>
    { running := k.running, image := if k.image = "" then none else some k.image }

/-- The issue reported for a service, when every inspection is answered. -/
def Host.issue (h : Host) (s : String) : Diagnose.ServiceIssue :=
  Diagnose.serviceIssue s (h.preview s).isSome (h.colorOf s) (h.seen s .blue) (h.seen s .green)

theorem inspectContainer_yields :
    Yields site (Diagnose.inspectContainer (containerName s c)) h (h.seen s c) := by
  refine read_may .ok rfl ?_
  simp only [Docker.Daemon.inspect, Host.seen, Host.slot]
  cases h.docker.containers (containerName s c) <;> exact ⟨rfl, rfl⟩

theorem checkService_yields :
    Yields site (Diagnose.checkService (h.db.previewRows.insertionSort (·.service ≤ ·.service)) s) h
      (h.issue s) := by
  apply colorOrBlue_yields.bind
  apply inspectContainer_yields.bind
  apply inspectContainer_yields.bind
  have pending : (h.db.previewRows.insertionSort (·.service ≤ ·.service)).any (·.service == s) =
      (h.preview s).isSome := by
    rw [Bool.eq_iff_iff, List.any_eq_true, Host.preview, List.find?_isSome]
  rw [pending]
  exact ⟨rfl, rfl⟩

/-- The operations whose command lines `service_fix` lists for a service that is up. -/
def fixes (service : String) : Diagnose.Severity → List Operation
  | .mismatch => [.cutover service none]
  | .stale => [.cutover service none, .cancelPreview service]
  | _ => []

def Operation.commandLine : Operation → Option String
  | .cutover service none => some ("codery-ci cutover " ++ service)
  | .cancelPreview service => some ("codery-ci cancel-preview " ++ service)
  | _ => none

theorem serviceFix_fixes {severity : Diagnose.Severity}
    (up : severity = .mismatch ∨ severity = .stale) :
    (fixes s severity).map Operation.commandLine = (Diagnose.serviceFix s severity).map some := by
  cases up with
  | inl same => subst same; rfl
  | inr same => subst same; rfl

/-! ### What endangers a service -/

/-- Some container of the service is running. -/
def Host.SomeUp (h : Host) (s : String) : Prop := ∃ c, h.Up s c

/-- The recorded container is down and the other one, which commands take for the standby, is
the only one up. -/
def Host.Stranded (h : Host) (s : String) (a : Color) : Prop :=
  h.active s = some a ∧ ¬ h.Up s a ∧ h.Up s (flip a)

theorem Host.SameBut.stranded (same : h.SameBut P h') (color : ¬ P (.color s))
    (slot : ∀ c, ¬ P (.container (containerName s c))) (stranded : h.Stranded s a) :
    h'.Stranded s a := by
  obtain ⟨active, down, up⟩ := stranded
  exact ⟨(same.active color).trans active, mt (same.up (slot a)).mp down,
    (same.up (slot (flip a))).mpr up⟩

/-! ### The runs that take it down -/

/-- Taking the standby down leaves nothing up. -/
theorem Host.Stranded.down {x : Docker.Outcome} (stranded : h.Stranded s a)
    (alters : h.docker.Alters (containerName s (flip a)) x.2)
    (down : ¬ x.2.Up (containerName s (flip a))) : ¬ ({ h with docker := x.2 } : Host).SomeUp s := by
  rintro ⟨c, k, hk, running⟩
  cases eq_or_eq_flip a c with
  | inl same =>
    subst same
    have same : x.2.containers (containerName s c) = h.docker.containers (containerName s c) :=
      alters.other (by simp)
    exact stranded.2.1 ⟨k, same ▸ hk, running⟩
  | inr same =>
    subst same
    exact down ⟨k, hk, running⟩

end Codery
