import Mathlib.Data.List.Basic

/-! A channel whose receivers each get every message, which holds the latest `cap` messages only: a
receiver that lags further behind goes on with the oldest one still held. -/

universe u

namespace Codery.Effect

structure Channel (μ : Type u) where
  buffer : List μ
  /-- The position of the next message to be sent. -/
  tail : ℕ

inductive Received (μ : Type u)
  | message (m : μ)
  | lagged (missed : ℕ)
  | empty
  deriving DecidableEq

namespace Channel

variable {μ : Type u}

def empty : Channel μ := ⟨[], 0⟩

/-- The position of the oldest message still held. -/
def oldest (c : Channel μ) : ℕ := c.tail - c.buffer.length

def send (cap : ℕ) (c : Channel μ) (m : μ) : Channel μ :=
  ⟨(c.buffer ++ [m]).drop (c.buffer.length + 1 - cap), c.tail + 1⟩

/-- What a receiver at position `next` gets, and the position it has then. -/
def recv (c : Channel μ) (next : ℕ) : Received μ × ℕ :=
  if next < c.oldest then (.lagged (c.oldest - next), c.oldest)
  else match c.buffer[next - c.oldest]? with
    | some m => (.message m, next + 1)
    | none => (.empty, next)

/-- The steps in which a receiver at `next` has everything, a step to catch up included. -/
def due (c : Channel μ) (next : ℕ) : ℕ :=
  if next < c.oldest then c.buffer.length + 1 else c.tail - next

/-- `c` holds the end of `log`, the messages sent so far. -/
structure Holds (cap : ℕ) (c : Channel μ) (log : List μ) : Prop where
  tail : c.tail = log.length
  buffer : c.buffer = log.drop (log.length - cap)

variable {cap next : ℕ} {c : Channel μ} {log : List μ} {m : μ}

theorem holds_empty : Holds cap (empty : Channel μ) [] := ⟨rfl, by simp [empty]⟩

theorem Holds.oldest (h : c.Holds cap log) : c.oldest = log.length - cap := by
  simp only [Channel.oldest, h.tail, h.buffer, List.length_drop]
  omega

theorem Holds.length_le (h : c.Holds cap log) : c.buffer.length ≤ cap := by
  simp only [h.buffer, List.length_drop]
  omega

theorem Holds.send (h : c.Holds cap log) (m : μ) : (c.send cap m).Holds cap (log ++ [m]) := by
  refine ⟨by simp [Channel.send, h.tail], ?_⟩
  have kept : c.buffer ++ [m] = (log ++ [m]).drop (log.length - cap) := by
    rw [h.buffer, List.drop_append_of_le_length (by omega)]
  rw [Channel.send]
  simp only [kept, List.drop_drop]
  congr 1
  simp only [h.buffer, List.length_drop, List.length_append, List.length_singleton]
  omega

/-- A message is the one sent at the receiver's position. -/
theorem Holds.message (h : c.Holds cap log) {next' : ℕ} (got : c.recv next = (.message m, next')) :
    next' = next + 1 ∧ log[next]? = some m ∧ c.due next = c.due next' + 1 := by
  unfold recv at got
  split at got
  case isTrue => cases got
  case isFalse still =>
    split at got
    case h_2 => cases got
    case h_1 m' found =>
      cases got
      have place : log[next]? = some m := by
        rw [h.buffer, List.getElem?_drop] at found
        have same : log.length - cap + (next - c.oldest) = next := by
          rw [h.oldest] at still ⊢
          omega
        rwa [same] at found
      have below : next < log.length := (List.getElem?_eq_some_iff.mp place).1
      refine ⟨rfl, place, ?_⟩
      rw [due, due, if_neg still, if_neg (by omega), h.tail]
      omega

theorem Holds.lagged (h : c.Holds cap log) {missed next' : ℕ}
    (got : c.recv next = (.lagged missed, next')) :
    next < next' ∧ next' = log.length - cap ∧ c.due next = c.due next' + 1 := by
  unfold recv at got
  split at got
  case isTrue behind =>
    cases got
    refine ⟨behind, h.oldest, ?_⟩
    rw [due, due, if_pos behind, if_neg (Nat.lt_irrefl _), h.oldest, h.tail, h.buffer,
      List.length_drop]
  case isFalse => split at got <;> cases got

/-- A receiver that gets nothing has had the last message. -/
theorem Holds.caught_up (h : c.Holds cap log) {next' : ℕ} (got : c.recv next = (.empty, next')) :
    next' = next ∧ log.length ≤ next ∧ c.due next = 0 := by
  unfold recv at got
  split at got
  case isTrue => cases got
  case isFalse still =>
    split at got
    case h_1 => cases got
    case h_2 none =>
      cases got
      rw [List.getElem?_eq_none_iff, h.buffer, List.length_drop] at none
      have past : log.length ≤ next := by
        rw [h.oldest] at still none
        omega
      refine ⟨rfl, past, ?_⟩
      rw [due, if_neg still, h.tail]
      omega

theorem Holds.due_le (h : c.Holds cap log) : c.due next ≤ cap + 1 := by
  have bound := h.length_le
  unfold due
  split
  · omega
  · next still =>
    rw [h.oldest] at still
    rw [h.tail]
    omega

theorem Holds.of_due (h : c.Holds cap log) (none : c.due next = 0) : log.length ≤ next := by
  unfold due at none
  split at none
  · omega
  · rw [h.tail] at none
    omega

end Channel

/-- What a receiver that has been there since `start`, and is at `next`, can have taken of the
messages `log`, if `intact` says that none of its steps has lagged. -/
structure Heard {μ : Type u} (cap : ℕ) (log : List μ) (start next : ℕ) (intact : Prop)
    (taken : List μ) : Prop where
  since : start ≤ next
  upTo : next ≤ log.length
  order : taken.Sublist ((log.take next).drop start)
  whole : intact → taken = (log.take next).drop start
  /-- Nothing is missed while the channel has room for all of it. -/
  room : log.length ≤ start + cap → intact
  newest : next = start ∨ taken.getLast? = log[next - 1]? ∨ next + cap ≤ log.length

namespace Heard

variable {μ : Type u} {cap start next : ℕ} {log taken : List μ} {m : μ} {intact intact' : Prop}

theorem nothing (log : List μ) (still : intact) :
    Heard cap log log.length log.length intact [] where
  since := Nat.le_refl _
  upTo := Nat.le_refl _
  order := List.nil_sublist _
  whole := fun _ => by simp
  room := fun _ => still
  newest := .inl rfl

theorem congr (h : Heard cap log start next intact taken) (same : intact' ↔ intact) :
    Heard cap log start next intact' taken :=
  { h with
    whole := fun still => h.whole (same.mp still)
    room := fun le => same.mpr (h.room le) }

theorem send (h : Heard cap log start next intact taken) (m : μ) :
    Heard cap (log ++ [m]) start next intact taken where
  since := h.since
  upTo := by simpa using Nat.le_succ_of_le h.upTo
  order := by simpa only [List.take_append_of_le_length h.upTo] using h.order
  whole := by simpa only [List.take_append_of_le_length h.upTo] using h.whole
  room := fun room => by
    rw [List.length_append, List.length_singleton] at room
    exact h.room (by omega)
  newest := by
    rcases h.newest with none | last | behind
    · exact .inl none
    · by_cases moved : next = start
      · exact .inl moved
      · have some : next - 1 < log.length := by
          have := h.since
          have := h.upTo
          omega
        exact .inr (.inl (by rw [last, List.getElem?_append_left some]))
    · rw [List.length_append, List.length_singleton]
      exact .inr (.inr (by omega))

theorem message (h : Heard cap log start next intact taken) (found : log[next]? = some m) :
    Heard cap log start (next + 1) intact (taken ++ [m]) := by
  have below := (List.getElem?_eq_some_iff.mp found).1
  have longer : (log.take (next + 1)).drop start = (log.take next).drop start ++ [m] := by
    rw [List.take_add_one, found, Option.toList_some, List.drop_append_of_le_length]
    rw [List.length_take]
    exact Nat.le_min.mpr ⟨h.since, Nat.le_trans h.since h.upTo⟩
  refine ⟨Nat.le_trans h.since (Nat.le_succ _), below, ?_, fun still => ?_, h.room, .inr (.inl ?_)⟩
  · rw [longer]
    exact h.order.append_right [m]
  · rw [longer, h.whole still]
  · simp [found]

theorem lagged {next' : ℕ} (h : Heard cap log start next intact taken) (ahead : next < next')
    (oldest : next' = log.length - cap) (lost : ¬ intact') :
    Heard cap log start next' intact' taken where
  since := Nat.le_trans h.since (Nat.le_of_lt ahead)
  upTo := by omega
  order := h.order.trans ((List.take_sublist_take_left (Nat.le_of_lt ahead)).drop start)
  whole := fun still => absurd still lost
  room := fun room => by
    have := h.since
    omega
  newest := .inr (.inr (by omega))

/-- A receiver with nothing left to take has taken the last message last. -/
theorem last (h : Heard cap log start next intact taken) (room : 0 < cap)
    (all : log.length ≤ next) (some : start < log.length) : taken.getLast? = log.getLast? := by
  have at_end : next = log.length := Nat.le_antisymm h.upTo all
  rcases h.newest with none | last | behind
  · omega
  · rw [last, List.getLast?_eq_getElem?, at_end]
  · omega

/-- If it has not lagged, it has taken everything. -/
theorem all (h : Heard cap log start next intact taken) (still : intact)
    (all : log.length ≤ next) : taken = log.drop start := by
  rw [h.whole still, List.take_of_length_le all]

end Heard

end Codery.Effect
