import Mathlib.Data.List.Basic

/-! Texts read by bracket nesting: a text is a row of blocks, each a head without brackets and a
balanced body between an opening and a closing bracket. -/

universe u

namespace Codery

/-- An opening and a closing bracket. -/
structure Brackets (α : Type u) where
  op : α
  cl : α
  ne : op ≠ cl

namespace Brackets

structure Block (α : Type u) where
  head : List α
  body : List α

variable {α : Type u} [DecidableEq α] {B : Brackets α} {d d' : Nat} {a : α} {s t h b : List α}

/-- How deep one is in brackets after `a`, if it does not close one that was never opened. -/
def step (B : Brackets α) (d : Nat) (a : α) : Option Nat :=
  if a = B.op then some (d + 1)
  else if a = B.cl then (if d = 0 then none else some (d - 1))
  else some d

def walk (B : Brackets α) (d : Nat) (t : List α) : Option Nat := t.foldlM B.step d

def Plain (B : Brackets α) (t : List α) : Prop := ∀ a ∈ t, a ≠ B.op ∧ a ≠ B.cl

def Nested (B : Brackets α) (t : List α) : Prop := B.walk 0 t = some 0

instance : Decidable (B.Plain t) := inferInstanceAs (Decidable (∀ a ∈ t, a ≠ B.op ∧ a ≠ B.cl))

instance : Decidable (B.Nested t) := inferInstanceAs (Decidable (_ = _))

@[simp] theorem walk_nil : B.walk d [] = some d := rfl

@[simp] theorem walk_cons : B.walk d (a :: t) = (B.step d a).bind fun d => B.walk d t :=
  List.foldlM_cons

@[simp] theorem walk_append : B.walk d (s ++ t) = (B.walk d s).bind fun d => B.walk d t :=
  List.foldlM_append

theorem step_plain (op : a ≠ B.op) (cl : a ≠ B.cl) : B.step d a = some d := by
  rw [step, if_neg op, if_neg cl]

theorem Plain.walk (plain : B.Plain t) : B.walk d t = some d := by
  induction t with
  | nil => rfl
  | cons a t ih =>
    obtain ⟨op, cl⟩ := plain a List.mem_cons_self
    rw [walk_cons, step_plain op cl]
    exact ih fun a mem => plain a (List.mem_cons_of_mem _ mem)

omit [DecidableEq α] in
theorem Plain.append (left : B.Plain s) (right : B.Plain t) : B.Plain (s ++ t) := by
  intro a mem
  cases List.mem_append.mp mem with
  | inl mem => exact left a mem
  | inr mem => exact right a mem

omit [DecidableEq α] in
theorem Plain.reverse (plain : B.Plain t) : B.Plain t.reverse :=
  fun a mem => plain a (List.mem_reverse.mp mem)

/-- Deeper down, the same text is walked the same way. -/
theorem walk_deeper (walked : B.walk d t = some d') (e : Nat) : B.walk (d + e) t = some (d' + e) := by
  induction t generalizing d with
  | nil =>
    cases walked
    rfl
  | cons a t ih =>
    rw [walk_cons] at walked ⊢
    obtain ⟨m, stepped, walked⟩ := Option.bind_eq_some_iff.mp walked
    have deeper : B.step (d + e) a = some (m + e) := by
      unfold step at stepped ⊢
      split at stepped
      · rw [if_pos ‹_›, ← Option.some_inj.mp stepped]
        congr 1
        omega
      · rw [if_neg ‹_›]
        split at stepped
        · rw [if_pos ‹_›]
          split at stepped
          · cases stepped
          · rw [if_neg (by omega), ← Option.some_inj.mp stepped]
            congr 1
            omega
        · rw [if_neg ‹_›, ← Option.some_inj.mp stepped]
    rw [deeper]
    exact ih walked

theorem Nested.walk (nested : B.Nested t) : B.walk d t = some d := by
  have deeper := walk_deeper nested d
  rwa [Nat.zero_add] at deeper

/-! ### Reading -/

/-- Where a reader stands: in a head or in a body, of which it has read so much, reversed. -/
inductive Place (α : Type u)
  | outside (head : List α)
  | inside (head body : List α) (depth : Nat)

/-- The blocks of a text, and what follows the last one. -/
def read (B : Brackets α) : Place α → List α → Option (List (Block α) × List α)
  | .outside h, [] => some ([], h.reverse)
  | .inside _ _ _, [] => none
  | .outside h, a :: t =>
    if a = B.op then B.read (.inside h [] 0) t
    else if a = B.cl then none
    else B.read (.outside (a :: h)) t
  | .inside h b d, a :: t =>
    if a = B.cl ∧ d = 0 then
      (B.read (.outside []) t).map fun x => (⟨h.reverse, b.reverse⟩ :: x.1, x.2)
    else (B.step d a).bind fun d => B.read (.inside h (a :: b) d) t

theorem read_plain (plain : B.Plain s) :
    B.read (.outside h) (s ++ t) = B.read (.outside (s.reverse ++ h)) t := by
  induction s generalizing h with
  | nil => rfl
  | cons a s ih =>
    obtain ⟨op, cl⟩ := plain a List.mem_cons_self
    rw [List.cons_append, read, if_neg op, if_neg cl,
      ih fun a mem => plain a (List.mem_cons_of_mem _ mem)]
    simp

theorem read_walk (walked : B.walk d s = some d') :
    B.read (.inside h b d) (s ++ t) = B.read (.inside h (s.reverse ++ b) d') t := by
  induction s generalizing b d with
  | nil =>
    cases walked
    rfl
  | cons a s ih =>
    rw [walk_cons] at walked
    obtain ⟨e, stepped, walked⟩ := Option.bind_eq_some_iff.mp walked
    have inner : ¬ (a = B.cl ∧ d = 0) := by
      rintro ⟨rfl, rfl⟩
      rw [step, if_neg B.ne.symm, if_pos rfl] at stepped
      cases stepped
    rw [List.cons_append, read, if_neg inner, stepped, Option.bind_some, ih walked]
    simp

/-- The text of a block. -/
def Block.text (B : Brackets α) (x : Block α) : List α := x.head ++ B.op :: x.body ++ [B.cl]

/-- A head that is a head, and a body that is a body. -/
structure Block.Proper (B : Brackets α) (x : Block α) : Prop where
  head : B.Plain x.head
  body : B.Nested x.body

theorem read_block {x : Block α} (proper : x.Proper B) :
    B.read (.outside []) (x.text B ++ t) =
      (B.read (.outside []) t).map fun y => (x :: y.1, y.2) := by
  obtain ⟨head, body⟩ := x
  rw [Block.text, List.append_assoc, List.append_assoc, read_plain proper.head, List.cons_append,
    read, if_pos rfl, read_walk proper.body, List.singleton_append, read, if_pos ⟨rfl, rfl⟩]
  simp

/-- A row of blocks is read as it was written. -/
theorem read_blocks {l : List (Block α)} (proper : ∀ x ∈ l, x.Proper B) (plain : B.Plain t) :
    B.read (.outside []) (l.flatMap (Block.text B) ++ t) = some (l, t) := by
  induction l with
  | nil =>
    have read := read_plain (h := []) (t := []) plain
    simpa [Brackets.read] using read
  | cons x l ih =>
    rw [List.flatMap_cons, List.append_assoc, read_block (proper x List.mem_cons_self),
      ih fun x mem => proper x (List.mem_cons_of_mem _ mem)]
    rfl

/-- What a reader has read so far can begin a head or a body. -/
inductive Place.Proper (B : Brackets α) : Place α → Prop
  | outside {h : List α} : B.Plain h → Proper B (.outside h)
  | inside {h b : List α} {d : Nat} : B.Plain h → B.walk 0 b.reverse = some d →
      Proper B (.inside h b d)

theorem read_proper {x : Place α} {l : List (Block α)} {r : List α} (proper : x.Proper B)
    (read : B.read x t = some (l, r)) : ∀ y ∈ l, y.Proper B := by
  induction t generalizing x l with
  | nil =>
    cases proper with
    | outside =>
      cases read
      exact nofun
    | inside => cases read
  | cons a t ih =>
    cases proper with
    | outside plain =>
      rw [Brackets.read] at read
      split at read
      · exact ih (.inside plain rfl) read
      · split at read
        · cases read
        · next op cl => exact ih (.outside (List.forall_mem_cons.mpr ⟨⟨op, cl⟩, plain⟩)) read
    | inside plain walked =>
      rw [Brackets.read] at read
      split at read
      · next last =>
        obtain ⟨⟨l', r'⟩, rest, same⟩ := Option.map_eq_some_iff.mp read
        cases same
        rw [last.2] at walked
        have outside : (Place.outside []).Proper B :=
          .outside fun _ mem => absurd mem List.not_mem_nil
        exact List.forall_mem_cons.mpr ⟨⟨plain.reverse, walked⟩, ih outside rest⟩
      · obtain ⟨e, stepped, read⟩ := Option.bind_eq_some_iff.mp read
        refine ih (.inside plain ?_) read
        rw [List.reverse_cons, walk_append, walked]
        simp [stepped]

end Brackets

/-! ### Words -/

/-- The words of a text between separators. -/
def words {α : Type u} [DecidableEq α] (sep : α → Bool) (t : List α) : List (List α) :=
  (t.splitOnP sep).filter (· ≠ [])

variable {α : Type u} [DecidableEq α] {sep : α → Bool} {a : α} {t w : List α}

theorem words_sep (ha : sep a = true) : words sep (a :: t) = words sep t := by
  simp [words, List.splitOnP_cons_eq_if_modifyHead, ha]

theorem words_first (ne : w ≠ []) (whole : ∀ a ∈ w, sep a = false) (ha : sep a = true) :
    words sep (w ++ a :: t) = w :: words sep t := by
  rw [words, List.splitOnP_append_cons_of_forall_mem whole a ha,
    List.filter_cons_of_pos (by simpa using ne), words]

omit [DecidableEq α] in
theorem mem_splitOnP (mem : w ∈ t.splitOnP sep) : ∀ a ∈ w, sep a = false ∧ a ∈ t := by
  induction t generalizing w with
  | nil =>
    cases List.mem_singleton.mp mem
    exact nofun
  | cons c t ih =>
    rw [List.splitOnP_cons_eq_if_modifyHead] at mem
    split at mem
    · cases List.mem_cons.mp mem with
      | inl same =>
        subst same
        exact nofun
      | inr mem => exact fun a ha => ⟨(ih mem a ha).1, List.mem_cons_of_mem _ (ih mem a ha).2⟩
    · next hc =>
      obtain ⟨v, vs, split⟩ := List.exists_cons_of_ne_nil (List.splitOnP_ne_nil sep t)
      rw [split] at mem ih
      cases List.mem_cons.mp mem with
      | inl same =>
        subst same
        refine List.forall_mem_cons.mpr ⟨⟨by simpa using hc, List.mem_cons_self⟩, fun a ha => ?_⟩
        have inner := ih List.mem_cons_self a ha
        exact ⟨inner.1, List.mem_cons_of_mem _ inner.2⟩
      | inr mem =>
        intro a ha
        have inner := ih (List.mem_cons_of_mem _ mem) a ha
        exact ⟨inner.1, List.mem_cons_of_mem _ inner.2⟩

theorem mem_words (mem : w ∈ words sep t) : w ≠ [] ∧ ∀ a ∈ w, sep a = false ∧ a ∈ t := by
  obtain ⟨split, ne⟩ := List.mem_filter.mp mem
  exact ⟨by simpa using ne, mem_splitOnP split⟩

theorem words_append_sep (ha : sep a = true) :
    words sep (w ++ a :: t) = words sep w ++ words sep t := by
  rw [words, List.splitOnP_append_cons w t ha, List.filter_append, words, words]

theorem words_whole (ne : w ≠ []) (whole : ∀ a ∈ w, sep a = false) : words sep w = [w] := by
  rw [words, List.splitOnP_eq_singleton whole, List.filter_cons_of_pos (by simpa using ne),
    List.filter_nil]

omit [DecidableEq α] in
/-- A text up to its first separator. -/
theorem first_sep (sep : α → Bool) (t : List α) : (∀ a ∈ t, sep a = false) ∨
    ∃ w a u, t = w ++ a :: u ∧ (∀ a ∈ w, sep a = false) ∧ sep a = true := by
  induction t with
  | nil => exact .inl nofun
  | cons c t ih =>
    cases hc : sep c with
    | true => exact .inr ⟨[], c, t, rfl, nofun, hc⟩
    | false =>
      rcases ih with whole | ⟨w, a, u, rfl, whole, ha⟩
      · exact .inl (List.forall_mem_cons.mpr ⟨hc, whole⟩)
      · exact .inr ⟨c :: w, a, u, rfl, List.forall_mem_cons.mpr ⟨hc, whole⟩, ha⟩

/-- A word stands in the text, and a separator or nothing behind it. -/
theorem word_place {t : List α} (mem : w ∈ words sep t) :
    ∃ s u, t = s ++ (w ++ u) ∧ ∀ a, u.head? = some a → sep a = true := by
  rcases first_sep sep t with whole | ⟨v, b, u, same, whole, hb⟩
  · by_cases ne : t = []
    · subst ne
      cases mem
    · rw [words_whole ne whole] at mem
      cases List.mem_singleton.mp mem
      exact ⟨[], [], by simp, nofun⟩
  · have shorter : u.length < t.length := by
      rw [same, List.length_append, List.length_cons]
      omega
    rw [same, words_append_sep hb] at mem
    rw [same]
    rcases List.mem_append.mp mem with here | later
    · by_cases ne : v = []
      · subst ne
        cases here
      · rw [words_whole ne whole] at here
        cases List.mem_singleton.mp here
        refine ⟨[], b :: u, rfl, fun a first => ?_⟩
        cases first
        exact hb
    · obtain ⟨s, u', rfl, behind⟩ := word_place later
      exact ⟨v ++ b :: s, u', by simp, behind⟩
termination_by t.length

/-- What stands before a separator or the end of a text ends a word. -/
theorem word_at {s u : List α} (ne : w ≠ []) (whole : ∀ a ∈ w, sep a = false)
    (behind : ∀ a, u.head? = some a → sep a = true) : ∃ v, v ++ w ∈ words sep (s ++ (w ++ u)) := by
  have last {v : List α} (inner : ∀ a ∈ v, sep a = false) : v ++ w ∈ words sep (v ++ (w ++ u)) := by
    have ne : v ++ w ≠ [] := List.append_ne_nil_of_right_ne_nil v ne
    have whole : ∀ a ∈ v ++ w, sep a = false := List.forall_mem_append.mpr ⟨inner, whole⟩
    rw [← List.append_assoc]
    cases u with
    | nil =>
      rw [List.append_nil, words_whole ne whole]
      exact List.mem_singleton_self _
    | cons b u =>
      rw [words_append_sep (behind b rfl), words_whole ne whole]
      exact List.mem_cons_self
  rcases first_sep sep s.reverse with inner | ⟨v, b, s', same, inner, hb⟩
  · exact ⟨s, last fun a mem => inner a (List.mem_reverse.mpr mem)⟩
  · have before : s = s'.reverse ++ b :: v.reverse := by
      rw [← List.reverse_reverse s, same, List.reverse_append, List.reverse_cons, List.append_assoc,
        List.singleton_append]
    refine ⟨v.reverse, ?_⟩
    rw [before, List.append_assoc, List.cons_append, words_append_sep hb]
    exact List.mem_append_right _ (last fun a mem => inner a (List.mem_reverse.mp mem))

end Codery
