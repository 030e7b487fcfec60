import Mathlib.Algebra.Group.Nat.Defs
import Codery.Blocks
import Codery.Effect.Machine

/-! The metrics of the host (`host_metrics.rs`): a snapshot is red when the kernel's count of OOM
kills is above the count of the snapshot before, whoever asked for that one. -/

namespace Codery.Metrics

open Codery.Effect

/-- `str::parse::<u64>`. -/
def parseU64 (s : String) : Option ℕ :=
  let digits : List Char := match s.toList with
    | '+' :: rest => rest
    | cs => cs
  let value := digits.foldl (fun n c => 10 * n + (c.toNat - '0'.toNat)) 0
  if digits ≠ [] ∧ digits.all Char.isDigit ∧ value < 2 ^ 64 then some value else none

/-- The `oom_kill` counter, 0 if absent. -/
def parseMemoryEvents (text : String) : ℕ :=
  match (lines text).findSome? (stripPrefix "oom_kill ") with
  | none => 0
  | some rest => (parseU64 (trim rest)).getD 0

inductive Level
  | red
  | yellow
  deriving DecidableEq

/-- How far memory, swap and memory pressure are past their thresholds, with the figures as they are
printed; `pressure` is `none` where PSI is not available. -/
structure Load where
  available : Option (Level × String) := none
  swap : Option (Level × String) := none
  pressure : Option (Option (Level × String)) := some none

structure Health where
  status : String
  reasons : List String
  deriving DecidableEq

def availableReason (figure : String) : String := "MemAvailable " ++ (figure ++ "% of total")

def swapReason (figure : String) : String := "swap in use " ++ figure

def pressureReason (figure : String) : String := "memory pressure " ++ figure

def oomReason (curOom : ℕ) : String :=
  "OOM kill detected (" ++ (toString curOom ++ " since boot)")

def atLevel (level : Level) (reason : String → String) : Option (Level × String) → List String
  | some (l, figure) => if l = level then [reason figure] else []
  | none => []

/-- The reasons of one level. -/
def Load.reasons (load : Load) (level : Level) : List String :=
  atLevel level availableReason load.available ++ atLevel level swapReason load.swap ++
    atLevel level pressureReason (load.pressure.getD none)

def Load.notes (load : Load) : List String :=
  if load.pressure = none then ["PSI unavailable"] else []

def deriveHealth (load : Load) (prevOom : Option ℕ) (curOom : ℕ) : Health :=
  let oom := if prevOom.any (· < curOom) then [oomReason curOom] else []
  let red := load.reasons .red ++ oom
  let yellow := load.reasons .yellow
  if red ≠ [] then { status := "red", reasons := red ++ load.notes }
  else if yellow ≠ [] then { status := "yellow", reasons := yellow ++ load.notes }
  else { status := "green", reasons := load.notes }

structure HostMetrics where
  health : Health
  oomKills : ℕ
  deriving DecidableEq

structure MetricsState where
  prevOom : Option ℕ := none
  deriving DecidableEq

/-- Build one snapshot; `memoryEvents` is what the file holds, if it can be read. -/
def collect (state : MetricsState) (memoryEvents : Option String) (load : Load) :
    HostMetrics × MetricsState :=
  let oomKills := (memoryEvents.map parseMemoryEvents).getD 0
  ({ health := deriveHealth load state.prevOom oomKills, oomKills }, { prevOom := some oomKills })

/-- The snapshot is red, and an OOM kill is among the reasons. -/
def HostMetrics.Alarms (m : HostMetrics) : Prop :=
  m.health.status = "red" ∧ ∃ n, oomReason n ∈ m.health.reasons

variable {load : Load} {level : Level} {n curOom : ℕ} {prevOom : Option ℕ} {r : String}

/-- How a text begins that begins with a literal. -/
theorem head_append {s t : String} {c : Char} {cs : List Char} (lit : s.toList = c :: cs) :
    (s ++ t).toList.head? = some c := by
  rw [String.toList_append, lit, List.cons_append, List.head?_cons]

theorem oomReason_head : (oomReason n).toList.head? = some 'O' :=
  head_append (toList_lit rfl)

/-- How the reasons of a level begin. -/
theorem reasons_head (mem : r ∈ load.reasons level) {c : Char} (other : c ∉ ['M', 's', 'm']) :
    r.toList.head? ≠ some c := by
  have one {reason : String → String} {o : Option (Level × String)} {d : Char} (differs : d ≠ c)
      (head : ∀ figure, (reason figure).toList.head? = some d) (mem : r ∈ atLevel level reason o) :
      r.toList.head? ≠ some c := by
    cases o with
    | none => cases mem
    | some x =>
      rw [atLevel] at mem
      split at mem
      · cases List.mem_singleton.mp mem
        rw [head]
        exact fun same => differs (Option.some.inj same)
      · cases mem
  rw [Load.reasons, List.mem_append, List.mem_append] at mem
  simp only [List.mem_cons, List.not_mem_nil, or_false, not_or] at other
  obtain ⟨notM, notS, notP⟩ := other
  rcases mem with (available | swap) | pressure
  · exact one (Ne.symm notM) (fun figure => head_append (toList_lit rfl)) available
  · exact one (Ne.symm notS) (fun figure => head_append (toList_lit rfl)) swap
  · exact one (Ne.symm notP) (fun figure => head_append (toList_lit rfl)) pressure

theorem notes_head (mem : r ∈ load.notes) : r.toList.head? = some 'P' := by
  rw [Load.notes] at mem
  split at mem
  · cases List.mem_singleton.mp mem
    rw [toList_lit (s := "PSI unavailable") rfl]
    rfl
  · cases mem

/-- Nothing but an OOM kill gives a reason that begins as that one does. -/
theorem reasons_or_notes_head (mem : r ∈ load.reasons level ++ load.notes) :
    r.toList.head? ≠ some 'O' := by
  rcases List.mem_append.mp mem with reason | note
  · exact reasons_head reason (by decide)
  · rw [notes_head note]
    decide

/-- An alarm is raised exactly where the count is above the baseline. -/
theorem collect_alarms_iff {state : MetricsState} {file : Option String} :
    (collect state file load).1.Alarms ↔
      ∃ p, state.prevOom = some p ∧ p < (collect state file load).1.oomKills := by
  simp only [HostMetrics.Alarms, collect]
  generalize (file.map parseMemoryEvents).getD 0 = cur
  have baseline : state.prevOom.any (· < cur) = true ↔ ∃ p, state.prevOom = some p ∧ p < cur := by
    simp [Option.any_eq_true]
  rw [← baseline]
  constructor
  · rintro ⟨-, n, mem⟩
    by_contra calm
    have quiet : ∀ r ∈ (deriveHealth load state.prevOom cur).reasons, r.toList.head? ≠ some 'O' := by
      intro r mem
      rw [deriveHealth, if_neg calm, List.append_nil] at mem
      split at mem
      · exact reasons_or_notes_head mem
      · split at mem
        · exact reasons_or_notes_head mem
        · exact @reasons_or_notes_head load .red r (List.mem_append_right _ mem)
    exact quiet _ mem oomReason_head
  · intro above
    have red : deriveHealth load state.prevOom cur =
        { status := "red", reasons := load.reasons .red ++ [oomReason cur] ++ load.notes } := by
      rw [deriveHealth, if_pos above, if_pos (by simp)]
    rw [red]
    exact ⟨rfl, cur, by simp⟩

end Codery.Metrics
