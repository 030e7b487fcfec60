import Mathlib.Data.Rat.Floor
import Mathlib.Algebra.Order.Field.Basic
import Codery.HostMetrics

/-! The rules of `derive_health` on the figures themselves, read over the rationals: four signals, each
with its thresholds, of which the worst one gives the status. -/

namespace Codery.Metrics

structure MemoryInfo where
  totalMb : ℚ
  availableMb : ℚ
  swapTotalMb : ℚ
  swapFreeMb : ℚ

structure PsiWindow where
  avg10 : ℚ
  avg60 : ℚ

structure PsiResource where
  some : PsiWindow

structure Psi where
  memory : PsiResource

def redAvailPct : ℚ := 10
def yellowAvailPct : ℚ := 20
def redSwapUsedMb : ℚ := 2048
def yellowSwapUsedMb : ℚ := 100
def redPsiMemAvg10 : ℚ := 25
def yellowPsiMemAvg10 : ℚ := 10
def yellowPsiMemAvg60 : ℚ := 25

/-- The nearest number, the even one of two. -/
def roundEven (q : ℚ) : ℕ :=
  let n := ⌊q⌋.toNat
  if q - n < 1 / 2 ∨ q - n = 1 / 2 ∧ n % 2 = 0 then n else n + 1

def sign (q : ℚ) : String := if q < 0 then "-" else ""

/-- `{:.0}`. -/
def fixed0 (q : ℚ) : String := sign q ++ toString (roundEven |q|)

/-- `{:.1}`. -/
def fixed1 (q : ℚ) : String :=
  let tenths := roundEven (|q| * 10)
  sign q ++ toString (tenths / 10) ++ "." ++ toString (tenths % 10)

def MemoryInfo.available (mem : MemoryInfo) : Option (Level × String) :=
  if 0 < mem.totalMb then
    let availPct := mem.availableMb / mem.totalMb * 100
    if availPct < redAvailPct then some (.red, fixed0 availPct)
    else if availPct < yellowAvailPct then some (.yellow, fixed0 availPct)
    else none
  else none

def MemoryInfo.swap (mem : MemoryInfo) : Option (Level × String) :=
  let swapUsed := max (mem.swapTotalMb - mem.swapFreeMb) 0
  if 0 < mem.swapTotalMb then
    if redSwapUsedMb < swapUsed then some (.red, fixed1 (swapUsed / 1024) ++ "G")
    else if yellowSwapUsedMb < swapUsed then some (.yellow, fixed0 swapUsed ++ "M")
    else none
  else none

def PsiWindow.pressure (w : PsiWindow) : Option (Level × String) :=
  if redPsiMemAvg10 < w.avg10 then some (.red, "avg10 " ++ fixed0 w.avg10 ++ "%")
  else if yellowPsiMemAvg10 < w.avg10 ∨ yellowPsiMemAvg60 < w.avg60 then
    some (.yellow, "avg10 " ++ fixed0 w.avg10 ++ "% avg60 " ++ fixed0 w.avg60 ++ "%")
  else none

/-- What `derive_health` is given. -/
structure Figures where
  mem : MemoryInfo
  psi : Option Psi
  prevOom : Option ℕ
  curOom : ℕ

def Figures.load (x : Figures) : Load :=
  { available := x.mem.available
    swap := x.mem.swap
    pressure := x.psi.map fun p => p.memory.some.pressure }

def Figures.health (x : Figures) : Health := deriveHealth x.load x.prevOom x.curOom

/-- The counter is above that of the snapshot before. -/
def Figures.OomRose (x : Figures) : Prop := ∃ prev, x.prevOom = some prev ∧ prev < x.curOom

inductive Severity
  | green
  | yellow
  | red
  deriving DecidableEq

namespace Severity

def rank : Severity → ℕ
  | green => 0
  | yellow => 1
  | red => 2

theorem rank_injective : Function.Injective rank := by
  intro s t same
  cases s <;> cases t <;> first | rfl | cases same

instance : LinearOrder Severity := LinearOrder.lift' rank rank_injective

/-- As the status of a snapshot. -/
def text : Severity → String
  | green => "green"
  | yellow => "yellow"
  | red => "red"

def ofLevel : Level → Severity
  | .red => red
  | .yellow => yellow

/-- Of one signal. -/
def signal (o : Option (Level × String)) : Severity := (o.map fun x => ofLevel x.1).getD green

@[simp] theorem signal_none : signal none = green := rfl

@[simp] theorem signal_some {level : Level} {figure : String} :
    signal (some (level, figure)) = ofLevel level := rfl

theorem le_red (s : Severity) : s ≤ red := by
  cases s <;> decide

theorem between {s : Severity} (under : ¬ red ≤ s) (above : yellow ≤ s) : s = yellow := by
  cases s with
  | green => exact absurd above (by decide)
  | yellow => rfl
  | red => exact absurd (le_refl red) under

theorem below {s : Severity} (under : ¬ yellow ≤ s) : s = green := by
  cases s with
  | green => rfl
  | yellow => exact absurd (le_refl yellow) under
  | red => exact absurd (le_red yellow) under

section

variable {r r' y y' : Prop} [Decidable r] [Decidable r'] [Decidable y] [Decidable y']
  {f f' g g' : String}

/-- Two thresholds, the red one asked first. -/
theorem signal_mono (red : r → r') (yellow : y → r' ∨ y') :
    signal (if r then some (.red, f) else if y then some (.yellow, g) else none) ≤
      signal (if r' then some (.red, f') else if y' then some (.yellow, g') else none) := by
  by_cases past : r'
  · rw [if_pos past]
    exact le_red _
  · rw [if_neg past, if_neg fun h => past (red h)]
    by_cases half : y'
    · rw [if_pos half, signal_some]
      split
      · exact le_refl _
      · exact (by decide : green ≤ ofLevel .yellow)
    · rw [if_neg half, if_neg fun h => (yellow h).elim past half]

end

theorem red_le_signal {reason : String → String} {o : Option (Level × String)} :
    red ≤ signal o ↔ atLevel .red reason o ≠ [] := by
  cases o with
  | none => exact ⟨fun above => absurd above (by decide), fun some => absurd rfl some⟩
  | some x =>
    obtain ⟨level, figure⟩ := x
    cases level with
    | red => simp [atLevel, ofLevel]
    | yellow =>
      have under : ¬ red ≤ ofLevel .yellow := by decide
      exact ⟨fun above => absurd above under, fun some => absurd rfl some⟩

theorem yellow_le_signal {reason : String → String} {o : Option (Level × String)} :
    yellow ≤ signal o ↔ atLevel .red reason o ≠ [] ∨ atLevel .yellow reason o ≠ [] := by
  cases o with
  | none => exact ⟨fun above => absurd above (by decide), fun some => absurd rfl (some.elim id id)⟩
  | some x =>
    obtain ⟨level, figure⟩ := x
    cases level with
    | red => exact ⟨fun _ => .inl (List.cons_ne_nil _ _), fun _ => le_red yellow⟩
    | yellow => exact ⟨fun _ => .inr (List.cons_ne_nil _ _), fun _ => le_refl yellow⟩

end Severity

open Severity

/-- What a snapshot of these signals is: the worst of them. -/
def Load.severity (load : Load) (oomRose : Bool) : Severity :=
  max (max (signal load.available) (signal load.swap))
    (max (signal (load.pressure.getD none)) (if oomRose then .red else .green))

theorem Load.red_le_severity {load : Load} {oomRose : Bool} :
    .red ≤ load.severity oomRose ↔ load.reasons .red ≠ [] ∨ oomRose = true := by
  have oom : Severity.red ≤ (if oomRose then Severity.red else .green) ↔ oomRose = true := by
    cases oomRose <;> decide
  rw [Load.severity, le_max_iff, le_max_iff, le_max_iff, oom, red_le_signal, red_le_signal,
    red_le_signal, Load.reasons]
  simp only [ne_eq, List.append_eq_nil_iff]
  tauto

theorem Load.yellow_le_severity {load : Load} {oomRose : Bool} :
    .yellow ≤ load.severity oomRose ↔
      load.reasons .red ≠ [] ∨ load.reasons .yellow ≠ [] ∨ oomRose = true := by
  have oom : Severity.yellow ≤ (if oomRose then Severity.red else .green) ↔ oomRose = true := by
    cases oomRose <;> decide
  rw [Load.severity, le_max_iff, le_max_iff, le_max_iff, oom, yellow_le_signal, yellow_le_signal,
    yellow_le_signal, Load.reasons, Load.reasons]
  simp only [ne_eq, List.append_eq_nil_iff]
  tauto

/-- What `derive_health` answers, by the first level that has a reason. -/
theorem deriveHealth_cases (load : Load) (prevOom : Option ℕ) (curOom : ℕ) :
    (load.reasons .red ≠ [] ∨ prevOom.any (· < curOom) = true) ∧
      deriveHealth load prevOom curOom =
        ⟨"red", load.reasons .red ++
          (if prevOom.any (· < curOom) then [oomReason curOom] else []) ++ load.notes⟩ ∨
    ¬ (load.reasons .red ≠ [] ∨ prevOom.any (· < curOom) = true) ∧ load.reasons .yellow ≠ [] ∧
      deriveHealth load prevOom curOom = ⟨"yellow", load.reasons .yellow ++ load.notes⟩ ∨
    ¬ (load.reasons .red ≠ [] ∨ prevOom.any (· < curOom) = true) ∧ ¬ load.reasons .yellow ≠ [] ∧
      deriveHealth load prevOom curOom = ⟨"green", load.notes⟩ := by
  have reds : load.reasons .red ++
      (if prevOom.any (· < curOom) then [oomReason curOom] else []) ≠ [] ↔
        load.reasons .red ≠ [] ∨ prevOom.any (· < curOom) = true := by
    rw [Ne, List.append_eq_nil_iff]
    by_cases rose : prevOom.any (· < curOom) = true <;> simp [rose]
  simp only [deriveHealth]
  by_cases red : load.reasons .red ++
      (if prevOom.any (· < curOom) then [oomReason curOom] else []) ≠ []
  · exact .inl ⟨reds.mp red, if_pos red⟩
  · rw [if_neg red]
    by_cases yellow : load.reasons .yellow ≠ []
    · exact .inr (.inl ⟨mt reds.mpr red, yellow, if_pos yellow⟩)
    · exact .inr (.inr ⟨mt reds.mpr red, yellow, if_neg yellow⟩)

/-- Red outranks yellow: the status is that of the worst signal. -/
theorem deriveHealth_status (load : Load) (prevOom : Option ℕ) (curOom : ℕ) :
    (deriveHealth load prevOom curOom).status =
      (load.severity (prevOom.any (· < curOom))).text := by
  rcases deriveHealth_cases load prevOom curOom with
    ⟨red, same⟩ | ⟨notRed, yellow, same⟩ | ⟨notRed, notYellow, same⟩
  · rw [same, le_antisymm (le_red _) (Load.red_le_severity.mpr red)]
    rfl
  · rw [same, between (mt Load.red_le_severity.mp notRed)
      (Load.yellow_le_severity.mpr (.inr (.inl yellow)))]
    rfl
  · have under : ¬ Severity.yellow ≤ load.severity (prevOom.any (· < curOom)) := by
      rw [Load.yellow_le_severity]
      tauto
    rw [same, below under]
    rfl

theorem exists_reason {load : Load} {level : Level} (some : load.reasons level ≠ []) :
    ∃ r ∈ load.reasons level, r ∉ load.notes := by
  obtain ⟨r, mem⟩ := List.exists_mem_of_ne_nil _ some
  exact ⟨r, mem, fun note => reasons_head mem (by decide) (notes_head note)⟩

/-- A status other than green has a reason, and one that is not a note. -/
theorem deriveHealth_reason {load : Load} {prevOom : Option ℕ} {curOom : ℕ}
    (notGreen : (deriveHealth load prevOom curOom).status ≠ "green") :
    ∃ r ∈ (deriveHealth load prevOom curOom).reasons, r ∉ load.notes := by
  rcases deriveHealth_cases load prevOom curOom with
    ⟨red, same⟩ | ⟨-, yellow, same⟩ | ⟨-, -, same⟩
  · rw [same]
    rcases red with some | rose
    · obtain ⟨r, mem, note⟩ := exists_reason some
      exact ⟨r, List.mem_append_left _ (List.mem_append_left _ mem), note⟩
    · refine ⟨oomReason curOom, by simp [rose], fun note => ?_⟩
      have head := notes_head note
      rw [oomReason_head] at head
      cases head
  · rw [same]
    obtain ⟨r, mem, note⟩ := exists_reason yellow
    exact ⟨r, List.mem_append_left _ mem, note⟩
  · rw [same] at notGreen
    exact absurd rfl notGreen

/-- `b` is at least as bad as `a` in each signal, on the same machine. -/
structure Worsens (a b : Figures) : Prop where
  total : b.mem.totalMb = a.mem.totalMb
  available : b.mem.availableMb ≤ a.mem.availableMb
  swapTotal : b.mem.swapTotalMb = a.mem.swapTotalMb
  swapFree : b.mem.swapFreeMb ≤ a.mem.swapFreeMb
  psi : Option.Rel (fun p q => p.memory.some.avg10 ≤ q.memory.some.avg10 ∧
    p.memory.some.avg60 ≤ q.memory.some.avg60) a.psi b.psi
  oom : a.OomRose → b.OomRose

variable {a b : Figures}

theorem Worsens.available_mono (worse : Worsens a b) :
    signal a.mem.available ≤ signal b.mem.available := by
  unfold MemoryInfo.available
  rw [worse.total]
  split
  case isTrue positive =>
    have less : b.mem.availableMb / a.mem.totalMb * 100 ≤ a.mem.availableMb / a.mem.totalMb * 100 :=
      mul_le_mul_of_nonneg_right (div_le_div_of_nonneg_right worse.available positive.le) (by decide)
    exact signal_mono (lt_of_le_of_lt less) fun half => .inr (lt_of_le_of_lt less half)
  case isFalse => exact le_refl _

theorem Worsens.swap_mono (worse : Worsens a b) : signal a.mem.swap ≤ signal b.mem.swap := by
  unfold MemoryInfo.swap
  rw [worse.swapTotal]
  split
  case isTrue =>
    have more : max (a.mem.swapTotalMb - a.mem.swapFreeMb) 0 ≤
        max (a.mem.swapTotalMb - b.mem.swapFreeMb) 0 :=
      max_le_max_right 0 (sub_le_sub_left worse.swapFree _)
    exact signal_mono (lt_of_lt_of_le · more) fun half => .inr (lt_of_lt_of_le half more)
  case isFalse => exact le_refl _

theorem Worsens.pressure_mono (worse : Worsens a b) :
    signal (a.load.pressure.getD none) ≤ signal (b.load.pressure.getD none) := by
  have psi := worse.psi
  simp only [Figures.load]
  cases psi' : a.psi with
  | none =>
    rw [psi'] at psi
    cases other : b.psi with
    | none => exact le_refl _
    | some q => rw [other] at psi; cases psi
  | some p =>
    rw [psi'] at psi
    cases other : b.psi with
    | none => rw [other] at psi; cases psi
    | some q =>
      rw [other] at psi
      cases psi with
      | some more =>
        refine signal_mono (lt_of_lt_of_le · more.1) fun half => .inr ?_
        exact half.imp (lt_of_lt_of_le · more.1) (lt_of_lt_of_le · more.2)

theorem Figures.rose_iff (x : Figures) : x.prevOom.any (· < x.curOom) = true ↔ x.OomRose := by
  simp [Figures.OomRose, Option.any_eq_true]

theorem Worsens.severity_mono (worse : Worsens a b) :
    a.load.severity (a.prevOom.any (· < a.curOom)) ≤ b.load.severity (b.prevOom.any (· < b.curOom)) := by
  refine max_le_max (max_le_max worse.available_mono worse.swap_mono)
    (max_le_max worse.pressure_mono ?_)
  by_cases rose : a.OomRose
  · rw [if_pos (b.rose_iff.mpr (worse.oom rose))]
    exact le_red _
  · rw [if_neg (mt a.rose_iff.mp rose)]
    split <;> decide

/-- Nothing that gets worse makes the status better, and a status other than green says why. -/
theorem health_monotone :
    (∀ a b, Worsens a b → ∃ s t : Severity,
      a.health.status = s.text ∧ b.health.status = t.text ∧ s ≤ t) ∧
    ∀ a : Figures, a.health.status ≠ Severity.text .green →
      ∃ r ∈ a.health.reasons, r ∉ a.load.notes := by
  refine ⟨fun a b worse => ?_, fun a notGreen => deriveHealth_reason notGreen⟩
  exact ⟨_, _, deriveHealth_status .., deriveHealth_status .., worse.severity_mono⟩

def quiet : Figures :=
  { mem := { totalMb := 8192, availableMb := 4096, swapTotalMb := 4096, swapFreeMb := 4096 }
    psi := some { memory := { some := { avg10 := 0, avg60 := 0 } } }
    prevOom := some 13
    curOom := 13 }

/-- The same machine with little memory left, and under pressure. -/
def strained : Figures :=
  { mem := { quiet.mem with availableMb := 1000 }
    psi := some { memory := { some := { avg10 := 12, avg60 := 30 } } }
    prevOom := some 13
    curOom := 13 }

theorem strained_worsens : Worsens quiet strained where
  total := rfl
  available := by decide +kernel
  swapTotal := rfl
  swapFree := le_refl _
  psi := .some ⟨by decide +kernel, by decide +kernel⟩
  oom := id

theorem strained_not_green : strained.health.status ≠ Severity.text .green := by decide +kernel

theorem health_monotone_strained :
    (∃ s t : Severity, quiet.health.status = s.text ∧ strained.health.status = t.text ∧ s ≤ t) ∧
      ∃ r ∈ strained.health.reasons, r ∉ strained.load.notes :=
  ⟨health_monotone.1 quiet strained strained_worsens, health_monotone.2 strained strained_not_green⟩

end Codery.Metrics
