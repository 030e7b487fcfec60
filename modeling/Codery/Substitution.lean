import Codery.EnvFile
import Codery.Effect.Loop

/-! The placeholders `${VAR}` of a host path (`substitute_env`): each turn of the loop puts a value
in the place of the first of them and looks at the whole text again. -/

namespace Codery

open Effect

namespace Substitution

/-- `result.find("${")`: the text before it, and the text behind it. -/
def findOpen : List Char → Option (List Char × List Char)
  | '$' :: '\x7b' :: t => some ([], t)
  | c :: t => (findOpen t).map fun (p, q) => (c :: p, q)
  | [] => none

/-- The name up to the next `}`, and the text behind it. -/
def findClose (rest : List Char) : Option (List Char × List Char) :=
  if '\x7d' ∈ rest then some (rest.takeWhile (· ≠ '\x7d'), (rest.dropWhile (· ≠ '\x7d')).tail)
  else none

/-- The body of the loop. -/
def turn (s : String) (env : EnvMap) (text : List Char) : List Char ⊕ Except String String :=
  match findOpen text with
  | none => .inr (.ok (String.ofList text))
  | some (before, rest) =>
    match findClose rest with
    | none => .inr (.error ("unclosed '$\x7b' in '" ++ s ++ "'"))
    | some (varName, after) =>
      match env (String.ofList varName) with
      | none => .inr (.error ("env var '" ++ String.ofList varName ++ "' required by volume mount '" ++
          s ++ "' not found in .env"))
      | some value => .inl (before ++ value.toList ++ after)

def substituteEnv (fuel : ℕ) (s : String) (env : EnvMap) : Option (Except String String) :=
  loop (turn s env) fuel s.toList

end Substitution

/-- `service_def.rs`. -/
def ServiceDef.substituteEnv : ℕ → String → EnvMap → Option (Except String String) :=
  Substitution.substituteEnv

/-- `validate.rs` writes the function out again. -/
def Validate.substituteEnv : ℕ → String → EnvMap → Option (Except String String) :=
  Substitution.substituteEnv

namespace Substitution

variable {s : String} {env : EnvMap} {text text' before rest name after p q : List Char}
  {value : String}

theorem findOpen_eq (found : findOpen text = some (p, q)) : text = p ++ '$' :: '\x7b' :: q := by
  induction text using findOpen.induct generalizing p with
  | case1 t =>
    rw [findOpen] at found
    cases found
    rfl
  | case2 c t other ih =>
    rw [findOpen] at found
    · obtain ⟨x, later, same⟩ := Option.map_eq_some_iff.mp found
      cases same
      rw [ih later]
      rfl
    · exact other
  | case3 => cases found

theorem findClose_eq (found : findClose rest = some (name, after)) :
    rest = name ++ '\x7d' :: after := by
  rw [findClose] at found
  split at found
  · next mem =>
    cases found
    exact cut_at mem
  · cases found

theorem turn_next (next : turn s env text = .inl text') : ∃ before rest name after value,
    findOpen text = some (before, rest) ∧ findClose rest = some (name, after) ∧
      env (String.ofList name) = some value ∧ text' = before ++ value.toList ++ after := by
  unfold turn at next
  split at next
  · cases next
  · next before rest opened =>
    split at next
    · cases next
    · next name after closed =>
      split at next
      · cases next
      · next value known =>
        cases next
        exact ⟨before, rest, name, after, value, opened, closed, known, rfl⟩

/-! ### Nesting -/

/-- The depth of the first placeholder, that of its deepest character; `depths` has the depth of
each character of the text. -/
def holeDepth (text : List Char) (depths : List ℕ) : ℕ :=
  match findOpen text with
  | none => 0
  | some (before, rest) =>
    match findClose rest with
    | none => 0
    | some (name, _) => ((depths.drop before.length).take (name.length + 3)).foldr max 0

/-- The depths after a turn: what is put in is one deeper than the placeholder it replaces. -/
def deepened (text : List Char) (depths : List ℕ) (length : ℕ) : List ℕ :=
  match findOpen text with
  | none => depths
  | some (before, rest) =>
    match findClose rest with
    | none => depths
    | some (name, after) =>
      depths.take before.length ++
        List.replicate (length - before.length - after.length) (holeDepth text depths + 1) ++
        depths.drop (before.length + (name.length + 3))

def markedTurn (s : String) (env : EnvMap) (x : List Char × List ℕ) :
    (List Char × List ℕ) ⊕ Except String String :=
  (turn s env x.1).map (fun text' => (text', deepened x.1 x.2 text'.length)) id

/-- The text as it is given: no character of it was put in. -/
def unmarked (s : String) : List Char × List ℕ := (s.toList, List.replicate s.toList.length 0)

/-- Placeholders within values nest to a bounded depth: those of the given text are of depth zero,
and one that has a character of a value is deeper than the placeholder this value replaced. -/
def Shallow (s : String) (env : EnvMap) : Prop :=
  ∃ b, ∀ x, Passes (markedTurn s env) (unmarked s) x → holeDepth x.1 x.2 < b

theorem foldr_max_mem {l : List ℕ} (ne : l ≠ []) : l.foldr max 0 ∈ l := by
  induction l with
  | nil => exact absurd rfl ne
  | cons n l ih =>
    rw [List.foldr_cons, List.mem_cons]
    cases l with
    | nil => exact .inl (max_eq_left (Nat.zero_le n))
    | cons m l =>
      have deepest := ih (List.cons_ne_nil m l)
      cases max_choice n ((m :: l).foldr max 0) with
      | inl here => exact .inl here
      | inr later => exact .inr (by rwa [later])

theorem markedTurn_next {x y : List Char × List ℕ} (next : markedTurn s env x = .inl y)
    (whole : x.1.length = x.2.length) :
    Deepens (holeDepth x.1 x.2) x.2 y.2 ∧ y.1.length = y.2.length := by
  obtain ⟨text, depths⟩ := x
  obtain ⟨text', turned, rfl⟩ : ∃ t, turn s env text = .inl t ∧
      y = (t, deepened text depths t.length) := by
    unfold markedTurn at next
    cases turned : turn s env text with
    | inl t =>
      rw [turned] at next
      cases next
      exact ⟨t, rfl, rfl⟩
    | inr r =>
      rw [turned] at next
      cases next
  obtain ⟨before, rest, name, after, value, opened, closed, -, rfl⟩ := turn_next turned
  have text_length : text.length = before.length + (name.length + 3) + after.length := by
    rw [findOpen_eq opened, findClose_eq closed]
    simp only [List.length_append, List.length_cons]
    omega
  have known : text.length = depths.length := whole
  simp only [deepened, opened, closed]
  constructor
  · refine ⟨depths.take before.length, (depths.drop before.length).take (name.length + 3),
      depths.drop (before.length + (name.length + 3)), _, ?_, rfl, ?_⟩
    · rw [List.append_assoc, ← List.drop_drop, List.take_append_drop, List.take_append_drop]
    · simp only [holeDepth, opened, closed]
      refine foldr_max_mem (List.ne_nil_of_length_pos ?_)
      rw [List.length_take, List.length_drop]
      omega
  · simp only [List.length_append, List.length_take, List.length_drop, List.length_replicate]
    omega

theorem marked_whole {x : List Char × List ℕ} (passes : Passes (markedTurn s env) (unmarked s) x) :
    x.1.length = x.2.length := by
  induction passes with
  | refl => rw [unmarked, List.length_replicate]
  | tail _ next ih => exact (markedTurn_next next ih).2

theorem halts_marked : Halts (markedTurn s env) (unmarked s) ↔ Halts (turn s env) s.toList := by
  refine halts_carried Prod.fst (fun x => ?_) (unmarked s)
  unfold markedTurn
  cases turn s env x.1 <;> rfl

theorem halts_iff : Halts (turn s env) s.toList ↔ Shallow s env := by
  rw [← halts_marked]
  constructor
  · exact fun halts => bounded_of_halts halts fun x => holeDepth x.1 x.2
  · rintro ⟨b, shallow⟩
    exact halts_of_shallow (fun x y passes next => (markedTurn_next next (marked_whole passes)).1)
      shallow

/-! ### Values that open nothing -/

theorem findOpen_cons {c : Char} {t : List Char} (other : c = '$' → t.head? ≠ some '\x7b') :
    findOpen (c :: t) = (findOpen t).map fun x => (c :: x.1, x.2) := by
  rw [findOpen]
  rintro u rfl rfl
  exact other rfl rfl

theorem head_of_closed {c : Char} {t : List Char} (closed : findOpen (c :: t) = none) :
    c = '$' → t.head? ≠ some '\x7b' := by
  rintro rfl first
  obtain ⟨u, rfl⟩ := List.head?_eq_some_iff.mp first
  cases closed

theorem closed_tail {c : Char} {t : List Char} (closed : findOpen (c :: t) = none) :
    findOpen t = none := by
  rwa [findOpen_cons (head_of_closed closed), Option.map_eq_none_iff] at closed

theorem closed_append (left : findOpen p = none) (right : findOpen q = none)
    (apart : q.head? ≠ some '\x7b') : findOpen (p ++ q) = none := by
  induction p with
  | nil => exact right
  | cons c t ih =>
    rw [List.cons_append, findOpen_cons, ih (closed_tail left)]
    · rfl
    · intro dollar
      cases t with
      | nil => exact apart
      | cons d t => exact fun first => head_of_closed left dollar first

theorem closed_before (found : findOpen text = some (p, q)) : findOpen p = none := by
  induction p generalizing text with
  | nil => rfl
  | cons c p ih =>
    have whole := findOpen_eq found
    subst whole
    have other : c = '$' → (p ++ '$' :: '\x7b' :: q).head? ≠ some '\x7b' := by
      rintro rfl first
      obtain ⟨u, rest⟩ := List.head?_eq_some_iff.mp first
      rw [List.cons_append, rest] at found
      cases found
    rw [List.cons_append, findOpen_cons other] at found
    obtain ⟨x, later, same⟩ := Option.map_eq_some_iff.mp found
    obtain ⟨⟨-, rfl⟩, rfl⟩ : (c = c ∧ x.1 = p) ∧ x.2 = q := by simpa using same
    rw [findOpen_cons, ih later]
    · rfl
    · intro dollar first
      refine other dollar ?_
      rw [List.head?_append, first]
      rfl

/-- Behind a text that opens nothing, what opens lies in the rest. -/
theorem open_after (closed : findOpen p = none) (found : findOpen (p ++ text) = some (before, q)) :
    q.length < text.length := by
  induction p generalizing before with
  | nil =>
    rw [← List.nil_append text, findOpen_eq found]
    simp only [List.length_append, List.length_cons]
    omega
  | cons c t ih =>
    by_cases here : c = '$' ∧ (t ++ text).head? = some '\x7b'
    · obtain ⟨rfl, first⟩ := here
      cases t with
      | nil =>
        obtain ⟨u, rfl⟩ := List.head?_eq_some_iff.mp first
        cases found
        exact Nat.lt_succ_self _
      | cons d t =>
        have opens : (d :: t).head? = some '\x7b' := first
        exact absurd opens (head_of_closed closed rfl)
    · rw [List.cons_append, findOpen_cons fun dollar first => here ⟨dollar, first⟩] at found
      obtain ⟨⟨p', q'⟩, later, same⟩ := Option.map_eq_some_iff.mp found
      cases same
      exact ih (closed_tail closed) later

/-- A value with no `${` in it, and that completes none before it. -/
def Tame (v : String) : Prop := findOpen v.toList = none ∧ v.toList.head? ≠ some '\x7b'

theorem halts_of_tame (tame : ∀ k v, env k = some v → Tame v) : Halts (turn s env) text := by
  suffices all : ∀ n done rest, rest.length ≤ n → findOpen done = none →
      Halts (turn s env) (done ++ rest) from all _ [] text le_rfl rfl
  intro n
  induction n with
  | zero =>
    intro done rest short closed
    rw [List.eq_nil_of_length_eq_zero (Nat.le_zero.mp short), List.append_nil]
    refine halts_stop (r := .ok (String.ofList done)) ?_
    rw [turn, closed]
  | succ n ih =>
    intro done rest short closed
    cases next : turn s env (done ++ rest) with
    | inr r => exact halts_stop next
    | inl text' =>
      obtain ⟨before, q, name, after, value, opened, ends, known, rfl⟩ := turn_next next
      obtain ⟨plain, apart⟩ := tame _ _ known
      refine (halts_next next).mpr (ih _ after ?_ (closed_append (closed_before opened) plain apart))
      have later := open_after closed opened
      rw [findClose_eq ends, List.length_append, List.length_cons] at later
      omega

end Substitution

open Substitution

/-- Both copies end exactly when the placeholders within values nest to a bounded depth. -/
theorem substituteEnv_ends_iff (s : String) (env : EnvMap) :
    ((∃ n r, ServiceDef.substituteEnv n s env = some r) ∧
      ∃ n r, Validate.substituteEnv n s env = some r) ↔ Shallow s env :=
  (and_self_iff (a := Halts (turn s env) s.toList)).trans halts_iff

/-- A value that names itself is put in again and again. -/
theorem substituteEnv_loops : ¬ ∀ (s : String) (env : EnvMap),
    (∃ n r, ServiceDef.substituteEnv n s env = some r) ∧
      ∃ n r, Validate.substituteEnv n s env = some r := by
  intro all
  obtain ⟨⟨n, r, ended⟩, -⟩ := all "$\x7bA\x7d" (collect [("A", "$\x7bA\x7d")])
  have again : turn "$\x7bA\x7d" (collect [("A", "$\x7bA\x7d")]) "$\x7bA\x7d".toList =
      .inl "$\x7bA\x7d".toList := by decide
  have never : ∀ n, loop (turn "$\x7bA\x7d" (collect [("A", "$\x7bA\x7d")])) n
      "$\x7bA\x7d".toList = none := by
    intro n
    induction n with
    | zero => rfl
    | succ n ih => rw [loop_next again, ih]
  exact absurd ((never n).symm.trans ended) nofun

end Codery
