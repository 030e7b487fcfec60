import Codery.Numerals
import Codery.Utf16

/-! The read loop of `github-app-permissions-mcp.ts`, over strings of UTF-16 units, and the messages
that it takes out of its buffer. -/

namespace Codery.Stdio

open Utf8 Utf16

/-- `\d`. -/
def isDigit (u : ℕ) : Bool := 48 ≤ u && u ≤ 57

/-- A blank of `trim`, or a line end. -/
def isBlank (u : ℕ) : Bool :=
  9 ≤ u && u ≤ 13 || u == 0x20 || u == 0xA0 || u == 0x1680 || 0x2000 ≤ u && u ≤ 0x200A ||
    u == 0x2028 || u == 0x2029 || u == 0x202F || u == 0x205F || u == 0x3000 || u == 0xFEFF

def trim (us : List ℕ) : List ℕ :=
  ((us.dropWhile isBlank).reverse.dropWhile isBlank).reverse

/-- `parseInt` of digits. -/
def parseInt (digits : List ℕ) : ℕ := digits.foldl (fun n u => 10 * n + (u - 48)) 0

def contentLength : List ℕ := units "Content-Length: ".toList

def blankLine : List ℕ := [13, 10, 13, 10]

/-- `/Content-Length: (\d+)\r\n\r\n/` at the beginning: its number, and what is behind the match. -/
def headerAt (buf : List ℕ) : Option (ℕ × List ℕ) := do
  let rest ← buf.dropPrefix? contentLength
  let digits := rest.takeWhile isDigit
  if digits = [] then none
  else
    let body ← (rest.dropWhile isDigit).dropPrefix? blankLine
    return (parseInt digits, body)

/-- `buf.match`: the leftmost one. -/
def findHeader : List ℕ → Option (ℕ × List ℕ)
  | [] => none
  | u :: buf => (headerAt (u :: buf)).or (findHeader buf)

/-- A turn of the inner loop: what is given to `processMessage`, and what is left of the buffer, or
nothing where the loop breaks off.  What is before a header is dropped. -/
def turn (buf : List ℕ) : Option (Option (List ℕ) × List ℕ) :=
  match findHeader buf with
  | some (length, rest) =>
    if rest.length < length then none else some (some (rest.take length), rest.drop length)
  | none =>
    let nl := buf.idxOf 10
    if nl < buf.length then
      let line := trim (buf.take nl)
      some (if 0 < line.length then some line else none, buf.drop (nl + 1))
    else none

/-- The inner loop.  Each turn makes the buffer shorter. -/
def drainFor : ℕ → List ℕ → List (List ℕ) × List ℕ
  | 0, buf => ([], buf)
  | turns + 1, buf =>
    match turn buf with
    | none => ([], buf)
    | some (message, rest) =>
      let (messages, left) := drainFor turns rest
      (message.toList ++ messages, left)

def drain (buf : List ℕ) : List (List ℕ) × List ℕ := drainFor buf.length buf

/-- The outer loop: what is given to `processMessage`, as the decoded chunks come in. -/
def readTexts : List ℕ → List (List ℕ) → List (List ℕ)
  | _, [] => []
  | buf, text :: texts =>
    let (messages, left) := drain (buf ++ text)
    messages ++ readTexts left texts

/-- What the server is given of the chunks that it reads. -/
def received (chunks : List (List UInt8)) : List (List ℕ) := readTexts [] (chunks.map decode)

/-! ### Messages -/

/-- Where one is in an object or a list. -/
inductive Place
  | before
  | inside (depth : ℕ)
  | quoted (depth : ℕ)
  | escaped (depth : ℕ)
  | behind
  deriving DecidableEq

def Place.next : Place → ℕ → Option Place
  | .before, u => if u = 0x7B ∨ u = 0x5B then some (.inside 0) else none
  | .inside depth, u =>
    if u = 0x7B ∨ u = 0x5B then some (.inside (depth + 1))
    else if u = 0x7D ∨ u = 0x5D then some (if depth = 0 then .behind else .inside (depth - 1))
    else if u = 0x22 then some (.quoted depth)
    else some (.inside depth)
  | .quoted depth, u =>
    if u = 0x5C then some (.escaped depth)
    else if u = 0x22 then some (.inside depth)
    else some (.quoted depth)
  | .escaped depth, u => if u < 0x80 then some (.quoted depth) else none
  | .behind, _ => none

/-- An object or a list of JSON, as far as its brackets and strings tell: it ends where the bracket
that it begins with is closed. -/
def Enclosed (us : List ℕ) : Prop := us.foldlM Place.next .before = some .behind

instance (us : List ℕ) : Decidable (Enclosed us) := inferInstanceAs (Decidable (_ = _))

variable {us vs : List ℕ} {u n : ℕ} {buf future : List ℕ} {p q : Place}

/-- What is between the quotes of a string. -/
inductive Quoted : List ℕ → Prop
  | nil : Quoted []
  | unit {u : ℕ} {us : List ℕ} (quote : u ≠ 0x22) (escape : u ≠ 0x5C) (more : Quoted us) :
    Quoted (u :: us)
  | escaped {u : ℕ} {us : List ℕ} (ascii : u < 0x80) (more : Quoted us) : Quoted (0x5C :: u :: us)

/-- What is between the brackets of an object or a list: strings, objects and lists, and the units of
everything else that JSON has there. -/
inductive Members : List ℕ → Prop
  | nil : Members []
  | unit {u : ℕ} {us : List ℕ} (opens : ¬ (u = 0x7B ∨ u = 0x5B)) (closes : ¬ (u = 0x7D ∨ u = 0x5D))
    (quote : u ≠ 0x22) (more : Members us) : Members (u :: us)
  | string {vs us : List ℕ} (inner : Quoted vs) (more : Members us) :
    Members (0x22 :: (vs ++ 0x22 :: us))
  | nested {u v : ℕ} {vs us : List ℕ} (opens : u = 0x7B ∨ u = 0x5B) (closes : v = 0x7D ∨ v = 0x5D)
    (inner : Members vs) (more : Members us) : Members (u :: (vs ++ v :: us))

theorem next_close {depth : ℕ} (closes : u = 0x7D ∨ u = 0x5D) :
    (Place.inside depth).next u = some (if depth = 0 then .behind else .inside (depth - 1)) := by
  rw [Place.next, if_neg (by omega), if_pos closes]

theorem Quoted.walk (quoted : Quoted us) (depth : ℕ) :
    us.foldlM Place.next (.quoted depth) = some (.quoted depth) := by
  induction quoted with
  | nil => rfl
  | unit quote escape more ih =>
    rw [List.foldlM_cons, Place.next, if_neg escape, if_neg quote]
    exact ih
  | escaped ascii more ih =>
    rw [List.foldlM_cons, Place.next, if_pos rfl]
    show (Place.next (.escaped depth) _).bind _ = _
    rw [Place.next, if_pos ascii]
    exact ih

theorem Members.walk (members : Members us) (depth : ℕ) :
    us.foldlM Place.next (.inside depth) = some (.inside depth) := by
  induction members generalizing depth with
  | nil => rfl
  | unit opens closes quote more ih =>
    rw [List.foldlM_cons, Place.next, if_neg opens, if_neg closes, if_neg quote]
    exact ih depth
  | string inner more ih =>
    rw [List.foldlM_cons]
    show (List.foldlM Place.next (.quoted depth) _) = _
    rw [List.foldlM_append, inner.walk]
    exact ih depth
  | nested opens closes inner more inner_ih ih =>
    rw [List.foldlM_cons, Place.next, if_pos opens]
    show (List.foldlM Place.next (.inside (depth + 1)) _) = _
    rw [List.foldlM_append, inner_ih]
    show (List.foldlM Place.next (.inside (depth + 1)) _) = _
    rw [List.foldlM_cons, next_close closes]
    exact ih depth

/-- Every object and every list of JSON is enclosed. -/
theorem Members.enclosed (members : Members us) {v : ℕ} (opens : u = 0x7B ∨ u = 0x5B)
    (closes : v = 0x7D ∨ v = 0x5D) : Enclosed (u :: (us ++ [v])) := by
  rw [Enclosed, List.foldlM_cons, Place.next, if_pos opens]
  show (List.foldlM Place.next (.inside 0) _) = _
  rw [List.foldlM_append, members.walk]
  show (List.foldlM Place.next (.inside 0) [v]) = _
  rw [List.foldlM_cons, next_close closes]
  rfl

/-- No message goes on behind another one. -/
theorem Enclosed.eq_of_prefix (short : Enclosed us) (long : Enclosed vs) (pre : us <+: vs) :
    us = vs := by
  obtain ⟨rest, rfl⟩ := pre
  cases rest with
  | nil => exact (List.append_nil us).symm
  | cons u rest =>
    rw [Enclosed, List.foldlM_append, show us.foldlM _ _ = _ from short] at long
    cases long

theorem Enclosed.first (enclosed : Enclosed us) : ∃ u vs, us = u :: vs ∧ (u = 0x7B ∨ u = 0x5B) := by
  cases us with
  | nil => cases enclosed
  | cons u vs =>
    refine ⟨u, vs, rfl, ?_⟩
    by_contra other
    rw [Enclosed, List.foldlM_cons, Place.next, if_neg other] at enclosed
    cases enclosed

theorem behind_of_next (last : p.next u = some .behind) : u = 0x7D ∨ u = 0x5D := by
  unfold Place.next at last
  split at last
  all_goals grind

theorem Enclosed.last (enclosed : Enclosed us) : ∃ vs u, us = vs ++ [u] ∧ (u = 0x7D ∨ u = 0x5D) := by
  rcases us.eq_nil_or_concat with rfl | ⟨vs, u, rfl⟩
  · cases enclosed
  · rw [List.concat_eq_append, Enclosed, List.foldlM_append] at enclosed
    obtain ⟨p, -, last⟩ := Option.bind_eq_some_iff.mp enclosed
    refine ⟨vs, u, List.concat_eq_append, behind_of_next (p := p) ?_⟩
    simpa using last

/-- A message is not trimmed. -/
theorem Enclosed.trim (enclosed : Enclosed us) : trim us = us := by
  have whole {a : ℕ} {rest : List ℕ} (visible : isBlank a = false) :
      (a :: rest).dropWhile isBlank = a :: rest := List.dropWhile_cons_of_neg (by simp [visible])
  obtain ⟨u, vs, rfl, first⟩ := enclosed.first
  obtain ⟨ws, v, same, last⟩ := enclosed.last
  have start : isBlank u = false := by rcases first with rfl | rfl <;> decide
  have close : isBlank v = false := by rcases last with rfl | rfl <;> decide
  rw [Stdio.trim, whole start, same, List.reverse_append, List.reverse_singleton,
    List.singleton_append, whole close, List.reverse_cons, List.reverse_reverse]

/-- A unit that is not ASCII leaves the place as it is, if it can stand there. -/
theorem next_large (large : 0x80 ≤ u) (stepped : p.next u = some q) :
    q = p ∧ ∀ v, 0x80 ≤ v → p.next v = some p := by
  cases p with
  | before =>
    rw [Place.next, if_neg (by omega)] at stepped
    cases stepped
  | behind => cases stepped
  | escaped depth =>
    rw [Place.next, if_neg (by omega)] at stepped
    cases stepped
  | inside depth =>
    have stays (v : ℕ) (large : 0x80 ≤ v) : (Place.inside depth).next v = some (.inside depth) := by
      rw [Place.next, if_neg (by omega), if_neg (by omega), if_neg (by omega)]
    exact ⟨Option.some.inj (stepped.symm.trans (stays u large)), stays⟩
  | quoted depth =>
    have stays (v : ℕ) (large : 0x80 ≤ v) : (Place.quoted depth).next v = some (.quoted depth) := by
      rw [Place.next, if_neg (by omega), if_neg (by omega)]
    exact ⟨Option.some.inj (stepped.symm.trans (stays u large)), stays⟩

theorem walk_large (large : ∀ u ∈ us, 0x80 ≤ u) (ne : us ≠ [])
    (walked : us.foldlM Place.next p = some q) :
    q = p ∧ ∀ vs : List ℕ, (∀ v ∈ vs, 0x80 ≤ v) → vs.foldlM Place.next p = some p := by
  obtain ⟨u, rest, rfl⟩ := List.exists_cons_of_ne_nil ne
  rw [List.foldlM_cons] at walked
  obtain ⟨p', stepped, -⟩ := Option.bind_eq_some_iff.mp walked
  obtain ⟨-, stays⟩ := next_large (large u List.mem_cons_self) stepped
  have all (vs : List ℕ) (large : ∀ v ∈ vs, 0x80 ≤ v) : vs.foldlM Place.next p = some p := by
    induction vs with
    | nil => rfl
    | cons v vs ih =>
      obtain ⟨here, there⟩ := List.forall_mem_cons.mp large
      rw [List.foldlM_cons, stays v here]
      exact ih there
  rw [← List.foldlM_cons, all _ large] at walked
  exact ⟨(Option.some.inj walked).symm, all⟩

theorem unitsOf_large {c : Char} (large : 0x80 ≤ c.toNat) : ∀ u ∈ unitsOf c, 0x80 ≤ u := by
  intro u mem
  unfold unitsOf at mem
  split at mem
  · rw [List.mem_singleton.mp mem]
    exact large
  · simp only [List.mem_cons, List.not_mem_nil, or_false] at mem
    omega

theorem decoded_walk {c : Char} (decoded : Decoded c us)
    (walked : (unitsOf c).foldlM Place.next p = some q) :
    us.foldlM Place.next p = some q := by
  have large (big : 0x80 ≤ c.toNat) (all : ∀ u ∈ us, 0x80 ≤ u) : us.foldlM Place.next p = some q := by
    obtain ⟨rfl, stays⟩ := walk_large (unitsOf_large big) (unitsOf_ne_nil c) walked
    exact stays us all
  cases decoded with
  | whole => exact walked
  | cut big several =>
    refine large big fun u mem => ?_
    rw [(List.mem_replicate.mp mem).2]
    decide
  | mark same =>
    subst same
    exact large (by decide) fun u mem => nomatch mem

/-- However its characters come out, a message is one. -/
theorem Enclosed.images {cs : List Char} {images : List (List ℕ)} (enclosed : Enclosed (units cs))
    (all : List.Forall₂ Decoded cs images) : Enclosed images.flatten := by
  unfold Enclosed at enclosed ⊢
  generalize Place.before = p at *
  induction all generalizing p with
  | nil => exact enclosed
  | cons decoded all ih =>
    rw [units, List.flatMap_cons, List.foldlM_append] at enclosed
    obtain ⟨q, first, rest⟩ := Option.bind_eq_some_iff.mp enclosed
    rw [List.flatten_cons, List.foldlM_append, decoded_walk decoded first]
    exact ih q rest

/-! ### What is sent -/

/-- What arrives for a message: its text behind a header with a number, or before a line end. -/
structure Item where
  length : Option ℕ
  text : List ℕ
  enclosed : Enclosed text
  oneLine : length = none → 10 ∉ text

def lengthLine (n : ℕ) : List ℕ := contentLength ++ units (Nat.toDigits 10 n)

def Item.sent (i : Item) : List ℕ :=
  match i.length with
  | some n => lengthLine n ++ (blankLine ++ i.text)
  | none => i.text ++ [10]

def sent (items : List Item) : List ℕ := items.flatMap Item.sent

/-! ### Headers in the buffer -/

theorem contentLength_eq : contentLength =
    [67, 111, 110, 116, 101, 110, 116, 45, 76, 101, 110, 103, 116, 104, 58, 32] := by decide

theorem units_digits (n : ℕ) : units (Nat.toDigits 10 n) = (Nat.toDigits 10 n).map Char.toNat := by
  refine units_small fun c mem => ?_
  have bounds := isDigit_bounds (isDigit_of_mem_toDigits mem)
  omega

theorem isDigit_units (n : ℕ) : ∀ u ∈ units (Nat.toDigits 10 n), isDigit u = true := by
  intro u mem
  rw [units_digits] at mem
  obtain ⟨c, digit, rfl⟩ := List.mem_map.mp mem
  have bounds := isDigit_bounds (isDigit_of_mem_toDigits digit)
  simpa [isDigit] using bounds

theorem parseInt_units (n : ℕ) : parseInt (units (Nat.toDigits 10 n)) = n := by
  rw [units_digits, parseInt, List.foldl_map]
  exact foldl_toDigits n

theorem dropPrefix?_append (us vs : List ℕ) : (us ++ vs).dropPrefix? us = some vs :=
  List.dropPrefix?_eq_some_iff.mpr ⟨us, rfl, beq_self_eq_true us⟩

theorem headerAt_lengthLine (n : ℕ) (rest : List ℕ) :
    headerAt (lengthLine n ++ (blankLine ++ rest)) = some (n, rest) := by
  have digits : (units (Nat.toDigits 10 n) ++ (blankLine ++ rest)).takeWhile isDigit =
      units (Nat.toDigits 10 n) := by
    rw [List.takeWhile_append_of_pos (isDigit_units n)]
    exact List.append_nil _
  have behind : (units (Nat.toDigits 10 n) ++ (blankLine ++ rest)).dropWhile isDigit =
      blankLine ++ rest := by
    rw [List.dropWhile_append_of_pos (isDigit_units n)]
    rfl
  have ne : units (Nat.toDigits 10 n) ≠ [] := units_ne_nil toDigits_ne_nil
  rw [headerAt, lengthLine, List.append_assoc, dropPrefix?_append]
  dsimp only [Option.bind_eq_bind, Option.bind_some]
  rw [digits, behind, if_neg ne, dropPrefix?_append, parseInt_units]
  rfl

theorem headerAt_some {rest : List ℕ} (found : headerAt buf = some (n, rest)) :
    ∃ digits, buf = contentLength ++ (digits ++ (blankLine ++ rest)) ∧
      ∀ u ∈ digits, isDigit u = true := by
  unfold headerAt at found
  obtain ⟨behind, start, number⟩ := Option.bind_eq_some_iff.mp found
  obtain ⟨pre, split, same⟩ := List.dropPrefix?_eq_some_iff.mp start
  dsimp only at number
  split at number
  · cases number
  · obtain ⟨body, blank, last⟩ := Option.bind_eq_some_iff.mp number
    obtain ⟨gap, split', same'⟩ := List.dropPrefix?_eq_some_iff.mp blank
    cases last
    refine ⟨behind.takeWhile isDigit, ?_, List.all_eq_true.mp List.all_takeWhile⟩
    rw [← eq_of_beq same', ← split', List.takeWhile_append_dropWhile, ← eq_of_beq same, ← split]

theorem findHeader_some {rest : List ℕ} (found : findHeader buf = some (n, rest)) :
    ∃ gone digits, buf = gone ++ (contentLength ++ (digits ++ (blankLine ++ rest))) ∧
      ∀ u ∈ digits, isDigit u = true := by
  induction buf with
  | nil => cases found
  | cons u buf ih =>
    rw [findHeader] at found
    rcases Option.or_eq_some_iff.mp found with here | ⟨-, later⟩
    · exact ⟨[], headerAt_some here⟩
    · obtain ⟨gone, digits, rfl, all⟩ := ih later
      exact ⟨u :: gone, digits, rfl, all⟩

/-- A header has two line ends. -/
theorem findHeader_none (few : buf.count 10 ≤ 1) : findHeader buf = none := by
  cases found : findHeader buf with
  | none => rfl
  | some x =>
    obtain ⟨gone, digits, rfl, -⟩ := findHeader_some found
    have two : blankLine.count 10 = 2 := by decide
    simp only [List.count_append, two] at few
    omega

theorem findHeader_lengthLine (n : ℕ) (rest : List ℕ) :
    findHeader (lengthLine n ++ (blankLine ++ rest)) = some (n, rest) := by
  have here := headerAt_lengthLine n rest
  rw [lengthLine, contentLength_eq] at here ⊢
  exact (congrArg (Option.or · _) here).trans rfl

/-- The first line ends of two equal texts. -/
theorem first_inj {a b s t : List ℕ} (left : 10 ∉ a) (right : 10 ∉ b)
    (same : a ++ 10 :: s = b ++ 10 :: t) :
    a = b ∧ s = t := by
  have length := congrArg (List.idxOf 10) same
  rw [List.idxOf_append_of_notMem left, List.idxOf_append_of_notMem right, List.idxOf_cons_self,
    List.idxOf_cons_self] at length
  obtain ⟨heads, tails⟩ := List.append_inj same (by omega)
  exact ⟨heads, (List.cons.inj tails).2⟩

theorem not_digit_lf {digits : List ℕ} (all : ∀ u ∈ digits, isDigit u = true) : 10 ∉ digits :=
  fun mem => absurd (all 10 mem) (by decide)

/-- No header begins before a line end, unless a return precedes it. -/
theorem findHeader_line (line : 10 ∉ us) (last : ¬ [13] <:+ us) :
    findHeader (us ++ 10 :: buf) = findHeader buf := by
  have nowhere {us : List ℕ} (line : 10 ∉ us) (last : ¬ [13] <:+ us) :
      headerAt (us ++ 10 :: buf) = none := by
    cases found : headerAt (us ++ 10 :: buf) with
    | none => rfl
    | some x =>
      obtain ⟨digits, same, all⟩ := headerAt_some found
      have other : 10 ∉ contentLength ++ (digits ++ [13]) := by
        simp [contentLength_eq, not_digit_lf all]
      have joined : us ++ 10 :: buf = (contentLength ++ (digits ++ [13])) ++ 10 :: 13 :: 10 :: x.2 := by
        rw [same]
        simp [blankLine]
      obtain ⟨rfl, -⟩ := first_inj line other joined
      rw [← List.append_assoc] at last
      exact absurd (List.suffix_append ..) last
  induction us with
  | nil =>
    rw [List.nil_append, findHeader, ← List.nil_append (10 :: buf), nowhere line last, Option.none_or]
  | cons u us ih =>
    rw [List.cons_append, findHeader, ← List.cons_append, nowhere line last, Option.none_or]
    exact ih (fun mem => line (List.mem_cons_of_mem _ mem)) fun suffix =>
      last (suffix.trans (List.suffix_cons ..))

end Codery.Stdio
