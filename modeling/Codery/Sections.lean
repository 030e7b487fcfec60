import Mathlib.Data.List.Basic

/-! Files read line by line: a head opens a section, and the lines up to the next head have its
fields. -/

universe u

namespace Codery.Sections

variable {α β γ δ : Type u} {opens : α → Option β} {field : α → Option δ} {a : α} {s t : List α}

/-- What each head says, and the fields of its section. -/
def read (opens : α → Option β) (field : α → Option δ) : List α → List (β × List δ)
  | [] => []
  | a :: t =>
    match opens a with
    | none => read opens field t
    | some n => (n, (t.takeWhile fun a => (opens a).isNone).filterMap field) :: read opens field t

theorem read_skip (closed : ∀ a ∈ s, opens a = none) :
    read opens field (s ++ t) = read opens field t := by
  induction s with
  | nil => rfl
  | cons a s ih =>
    rw [List.cons_append, read, closed a List.mem_cons_self]
    exact ih fun a mem => closed a (List.mem_cons_of_mem _ mem)

theorem takeWhile_closed (closed : ∀ a ∈ s, opens a = none) :
    (s ++ t).takeWhile (fun a => (opens a).isNone) =
      s ++ t.takeWhile fun a => (opens a).isNone :=
  List.takeWhile_append_of_pos fun a mem => Option.isNone_iff_eq_none.mpr (closed a mem)

theorem read_head {n : β} (head : opens a = some n) (closed : ∀ a ∈ s, opens a = none)
    (silent : (t.takeWhile fun a => (opens a).isNone).filterMap field = []) :
    read opens field (a :: (s ++ t)) = (n, s.filterMap field) :: read opens field t := by
  rw [read, head]
  show (n, _) :: read opens field (s ++ t) = _
  rw [takeWhile_closed closed, read_skip closed, List.filterMap_append, silent, List.append_nil]

/-- Rows of a head and a body each, behind lines that say nothing, are read as they were written. -/
theorem read_rows {rows : List γ} {lead : List α} {head : γ → α} {body : γ → List α} {name : γ → β}
    (silent : ∀ a ∈ lead, opens a = none ∧ field a = none)
    (heads : ∀ x ∈ rows, opens (head x) = some (name x))
    (closed : ∀ x ∈ rows, ∀ a ∈ body x, opens a = none) :
    read opens field (rows.flatMap fun x => lead ++ head x :: body x) =
      rows.map fun x => (name x, (body x).filterMap field) := by
  have skip : ∀ a ∈ lead, opens a = none := fun a mem => (silent a mem).1
  induction rows with
  | nil => rfl
  | cons x rows ih =>
    have rest : ((rows.flatMap fun x => lead ++ head x :: body x).takeWhile
        fun a => (opens a).isNone).filterMap field = [] := by
      cases rows with
      | nil => rfl
      | cons y rows =>
        have next : (opens (head y)).isNone = false := by
          rw [heads y (List.mem_cons_of_mem _ List.mem_cons_self), Option.isNone_some]
        rw [List.flatMap_cons, List.append_assoc, takeWhile_closed skip, List.cons_append,
          List.takeWhile_cons_of_neg (by rw [next]; exact Bool.false_ne_true), List.append_nil,
          List.filterMap_eq_nil_iff]
        exact fun a mem => (silent a mem).2
    rw [List.flatMap_cons, List.append_assoc, read_skip skip, List.cons_append,
      read_head (heads x List.mem_cons_self) (closed x List.mem_cons_self) rest,
      ih (fun y mem => heads y (List.mem_cons_of_mem _ mem))
        (fun y mem => closed y (List.mem_cons_of_mem _ mem)), List.map_cons]

end Codery.Sections
