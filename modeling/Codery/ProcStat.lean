import Mathlib.Data.List.TakeWhile
import Codery.Brackets
import Codery.Numerals

/-! `/proc/<pid>/stat` (`parse_stat` of `host_metrics.rs`): the name of a process stands between
parentheses, and may have parentheses and anything else in it. -/

namespace Codery.Metrics

/-- A panic: a slice that is out of range, or an index. -/
inductive Panic
  | slice
  | index
  deriving DecidableEq

/-- `&content[start..stop]`.  Positions count characters; the positions `parse_stat` uses are next to
characters of one byte, so they stand on boundaries and are ordered as the bytes are. -/
def slice (content : List Char) (start stop : ℕ) : Except Panic (List Char) :=
  if start ≤ stop ∧ stop ≤ content.length then .ok ((content.take stop).drop start)
  else .error .slice

def index {α : Type} (l : List α) (i : ℕ) : Except Panic α :=
  match l[i]? with
  | some a => .ok a
  | none => .error .index

/-- `str::find` of a character. -/
def find (c : Char) (content : List Char) : Option ℕ := content.idxOf? c

/-- `str::rfind` of a character. -/
def rfind (c : Char) (content : List Char) : Option ℕ :=
  (content.reverse.idxOf? c).map (content.length - 1 - ·)

structure Stat where
  pid : ℤ
  ppid : ℤ
  state : String
  utime : ℕ
  stime : ℕ
  deriving DecidableEq

/-- The fields behind the name. -/
def parseFields (pid : ℤ) (rest : List (List Char)) : Except Panic (Option Stat) := do
  if rest.length < 13 then return none
  let state ← index rest 0
  let ppid ← index rest 1
  match parseI32 (String.ofList ppid) with
  | none => return none
  | some ppid =>
    let utime ← index rest 11
    match parseU64 (String.ofList utime) with
    | none => return none
    | some utime =>
      let stime ← index rest 12
      match parseU64 (String.ofList stime) with
      | none => return none
      | some stime => return some ⟨pid, ppid, String.ofList state, utime, stime⟩

def parseStat (text : String) : Except Panic (Option Stat) := do
  let content := text.toList
  match find '(' content, rfind ')' content with
  | some op, some close =>
    let head ← slice content 0 op
    match parseI32 (trim (String.ofList head)) with
    | none => return none
    | some pid =>
      let _comm ← slice content (op + 1) close
      let tail ← slice content (close + 1) content.length
      parseFields pid (words isWhitespace tail)
  | _, _ => return none

variable {c : Char} {content xs ys : List Char} {i j : ℕ}

theorem find_append (absent : c ∉ xs) : find c (xs ++ c :: ys) = some xs.length := by
  induction xs with
  | nil => simp [find, List.idxOf?_cons]
  | cons b xs ih =>
    rw [List.mem_cons, not_or] at absent
    have rest := ih absent.2
    simp only [find] at rest ⊢
    rw [List.cons_append, List.idxOf?_cons, if_neg (by simpa using Ne.symm absent.1), rest]
    rfl

theorem find_some (found : find c content = some i) :
    ∃ xs ys, content = xs ++ c :: ys ∧ c ∉ xs ∧ xs.length = i := by
  have mem : c ∈ content := by
    by_contra absent
    rw [find, List.idxOf?_eq_none_iff.mpr absent] at found
    cases found
  obtain ⟨xs, ys, rfl, absent⟩ := List.eq_append_cons_of_mem mem
  rw [find_append absent] at found
  exact ⟨xs, ys, rfl, absent, Option.some_inj.mp found⟩

theorem rfind_append (absent : c ∉ ys) : rfind c (xs ++ c :: ys) = some xs.length := by
  have backwards : (xs ++ c :: ys).reverse = ys.reverse ++ c :: xs.reverse := by simp
  have found : find c (ys.reverse ++ c :: xs.reverse) = some ys.reverse.length :=
    find_append (by simpa using absent)
  rw [find, ← backwards] at found
  rw [rfind, found]
  simp

theorem rfind_some (found : rfind c content = some i) :
    ∃ xs ys, content = xs ++ c :: ys ∧ c ∉ ys ∧ xs.length = i := by
  obtain ⟨j, there, rfl⟩ := Option.map_eq_some_iff.mp found
  obtain ⟨ys, xs, same, absent, rfl⟩ := find_some there
  refine ⟨xs.reverse, ys.reverse, ?_, by simpa using absent, ?_⟩
  · rw [← List.reverse_reverse content, same]
    simp
  · have length := congrArg List.length same
    simp only [List.length_reverse, List.length_append, List.length_cons] at length ⊢
    omega

theorem slice_ok {start stop : ℕ} (order : start ≤ stop) (inside : stop ≤ content.length) :
    slice content start stop = .ok ((content.take stop).drop start) := if_pos ⟨order, inside⟩

theorem slice_before : slice (xs ++ ys) 0 xs.length = .ok xs := by
  rw [slice_ok (Nat.zero_le _) (by simp)]
  simp

theorem slice_after : slice (xs ++ c :: ys) (xs.length + 1) (xs ++ c :: ys).length = .ok ys := by
  have cut : xs ++ c :: ys = (xs ++ [c]) ++ ys := by simp
  rw [slice_ok (by simp) le_rfl, List.take_length, cut, List.drop_left' (by simp)]

theorem index_ok {α : Type} {l : List α} {a : α} {i : ℕ} (there : l[i]? = some a) :
    index l i = .ok a := by
  rw [index, there]

/-! ### No panic -/

@[simp] theorem ok_bind {α β : Type} (a : α) (f : α → Except Panic β) : (.ok a >>= f) = f a := rfl

theorem parseFields_eq {pid : ℤ} {rest : List (List Char)} {state ppid utime stime : List Char}
    (long : ¬ rest.length < 13) (state_at : rest[0]? = some state) (ppid_at : rest[1]? = some ppid)
    (utime_at : rest[11]? = some utime) (stime_at : rest[12]? = some stime) :
    parseFields pid rest = .ok ((parseI32 (String.ofList ppid)).bind fun ppid =>
      (parseU64 (String.ofList utime)).bind fun utime =>
        (parseU64 (String.ofList stime)).map fun stime =>
          ⟨pid, ppid, String.ofList state, utime, stime⟩) := by
  simp only [parseFields, if_neg long, index_ok state_at, index_ok ppid_at, index_ok utime_at,
    index_ok stime_at, ok_bind]
  cases parseI32 (String.ofList ppid) with
  | none => rfl
  | some ppid =>
    cases parseU64 (String.ofList utime) with
    | none => rfl
    | some utime => cases parseU64 (String.ofList stime) <;> rfl

theorem parseFields_total (pid : ℤ) (rest : List (List Char)) :
    ∃ r, parseFields pid rest = .ok r := by
  by_cases short : rest.length < 13
  · exact ⟨none, by simp only [parseFields, if_pos short]; rfl⟩
  · have there {i : ℕ} (inside : i < rest.length) : rest[i]? = some _ :=
      List.getElem?_eq_getElem inside
    exact ⟨_, parseFields_eq short (there (by omega)) (there (by omega)) (there (by omega))
      (there (by omega))⟩

theorem mem_trim (mem : c ∈ content) (visible : isWhitespace c = false) :
    c ∈ (trim (String.ofList content)).toList := by
  have keeps {l : List Char} (mem : c ∈ l) : c ∈ l.dropWhile isWhitespace := by
    rw [← List.takeWhile_append_dropWhile (p := isWhitespace) (l := l), List.mem_append] at mem
    refine mem.resolve_left fun blank => ?_
    rw [List.mem_takeWhile_imp blank] at visible
    cases visible
  rw [trim, String.toList_ofList, String.toList_ofList, List.mem_reverse]
  exact keeps (List.mem_reverse.mpr (keeps mem))

/-- What reads as a number has no parenthesis in it: so the last parenthesis is behind the first. -/
theorem closes_behind {op close : ℕ} {head : List Char} {pid : ℤ}
    (opens : find '(' content = some op) (closes : rfind ')' content = some close)
    (cut : slice content 0 op = .ok head)
    (parsed : parseI32 (trim (String.ofList head)) = some pid) : op + 1 ≤ close := by
  obtain ⟨xs, ys, rfl, -, rfl⟩ := find_some opens
  obtain ⟨xs', ys', same, -, rfl⟩ := rfind_some closes
  rw [slice_before] at cut
  cases cut
  by_contra before
  have inside : xs' <+: head ∧ xs'.length < head.length := by
    have bound : xs'.length ≤ head.length := by omega
    have order : xs' <+: head := by
      refine List.prefix_of_prefix_length_le ⟨')' :: ys', same.symm⟩ ⟨'(' :: ys, rfl⟩ bound
    refine ⟨order, lt_of_le_of_ne bound fun equal => ?_⟩
    rw [order.eq_of_length equal] at same
    have clash := List.append_cancel_left same
    injection clash with clash
    exact absurd clash (by decide)
  have mem : ')' ∈ head := by
    obtain ⟨⟨t, rfl⟩, longer⟩ := inside
    rw [List.append_assoc] at same
    have rest := List.append_cancel_left same
    cases t with
    | nil => simp at longer
    | cons b t =>
      injection rest with first
      subst first
      simp
  obtain digit | minus | plus := parseSigned_some parsed ')' (mem_trim mem (by decide))
  · exact absurd digit (by decide)
  · exact absurd minus (by decide)
  · exact absurd plus (by decide)

theorem parseStat_total (text : String) : ∃ r, parseStat text = .ok r := by
  simp only [parseStat]
  split
  case h_2 => exact ⟨none, rfl⟩
  case h_1 op close opens closes =>
    obtain ⟨xs, ys, same, -, length⟩ := find_some opens
    obtain ⟨xs', ys', same', -, length'⟩ := rfind_some closes
    have inside : op < text.toList.length := by simp [same, ← length]
    have inside' : close < text.toList.length := by simp [same', ← length']
    have head_ok : slice text.toList 0 op = .ok ((text.toList.take op).drop 0) :=
      slice_ok (Nat.zero_le op) inside.le
    rw [head_ok, ok_bind]
    cases parsed : parseI32 (trim (String.ofList ((text.toList.take op).drop 0))) with
    | none => exact ⟨none, rfl⟩
    | some pid =>
      have order := closes_behind opens closes head_ok parsed
      obtain ⟨r, fields⟩ := parseFields_total pid (words isWhitespace
        ((text.toList.take text.toList.length).drop (close + 1)))
      refine ⟨r, ?_⟩
      rw [← fields]
      simp only [slice_ok order inside'.le, slice_ok (Nat.succ_le_of_lt inside') le_rfl, ok_bind]

/-! ### The line of the kernel -/

/-- A line of `/proc/<pid>/stat`. -/
structure StatLine where
  pid : ℤ
  comm : String
  state : Char
  ppid : ℤ
  /-- From `pgrp` to `cmajflt`. -/
  before : List ℤ
  utime : ℕ
  stime : ℕ
  /-- From `cutime` on. -/
  after : List ℤ
  pid_lower : -2 ^ 31 ≤ pid
  pid_upper : pid < 2 ^ 31
  letter : state.isAlpha = true
  ppid_lower : -2 ^ 31 ≤ ppid
  ppid_upper : ppid < 2 ^ 31
  nine : before.length = 9
  utime_upper : utime < 2 ^ 64
  stime_upper : stime < 2 ^ 64

namespace StatLine

def stat (l : StatLine) : Stat := ⟨l.pid, l.ppid, String.singleton l.state, l.utime, l.stime⟩

/-- The fields behind the name. -/
def fields (l : StatLine) : List String :=
  [String.singleton l.state, toString l.ppid] ++ l.before.map toString ++
    [toString l.utime, toString l.stime] ++ l.after.map toString

def render (l : StatLine) : String :=
  toString l.pid ++ " (" ++ l.comm ++ ")" ++ String.join (l.fields.map (" " ++ ·)) ++ "\n"

end StatLine

variable {l : StatLine} {w : String}

/-- A character of a number or a letter: neither a blank nor a parenthesis. -/
def FieldChar (c : Char) : Prop := isWhitespace c = false ∧ c ≠ '(' ∧ c ≠ ')'

theorem fieldChar_digit (digit : c.isDigit = true) : FieldChar c := by
  refine ⟨isDigit_solid digit, ?_, ?_⟩
  · rintro rfl
    exact absurd digit (by decide)
  · rintro rfl
    exact absurd digit (by decide)

theorem fieldChar_alpha (alpha : c.isAlpha = true) : FieldChar c := by
  refine ⟨?_, ?_, ?_⟩
  · have ranges : (decide (c.val ≥ 'A'.val ∧ c.val ≤ 'Z'.val) ||
        (decide (c.val ≥ 'a'.val) && decide (c.val ≤ 'z'.val))) = true := alpha
    have bounds : 65 ≤ c.toNat ∧ c.toNat ≤ 90 ∨ 97 ≤ c.toNat ∧ c.toNat ≤ 122 := by
      simpa [UInt32.le_iff_toNat_le] using ranges
    simp only [isWhitespace, Bool.or_eq_false_iff, Bool.and_eq_false_iff, decide_eq_false_iff_not,
      beq_eq_false_iff_ne]
    omega
  · rintro rfl
    exact absurd alpha (by decide)
  · rintro rfl
    exact absurd alpha (by decide)

theorem fieldChar_int {z : ℤ} (mem : c ∈ (toString z).toList) : FieldChar c := by
  obtain digit | rfl := mem_toString_int mem
  · exact fieldChar_digit digit
  · exact ⟨by decide, by decide, by decide⟩

theorem fieldChar_nat {n : ℕ} (mem : c ∈ (toString n).toList) : FieldChar c := by
  rw [toList_toString_nat] at mem
  exact fieldChar_digit (isDigit_of_mem_toDigits mem)

/-- A field: not empty, and of such characters. -/
def IsField (w : String) : Prop := w.toList ≠ [] ∧ ∀ c ∈ w.toList, FieldChar c

theorem isField_int (z : ℤ) : IsField (toString z) :=
  ⟨toString_int_ne_nil, fun _ => fieldChar_int⟩

theorem isField_nat (n : ℕ) : IsField (toString n) :=
  ⟨by rw [toList_toString_nat]; exact toDigits_ne_nil, fun _ => fieldChar_nat⟩

theorem isField_letter (alpha : c.isAlpha = true) : IsField (String.singleton c) := by
  rw [IsField, String.toList_singleton]
  exact ⟨List.cons_ne_nil _ _, List.forall_mem_singleton.mpr (fieldChar_alpha alpha)⟩

theorem isField_fields (l : StatLine) : ∀ w ∈ l.fields, IsField w := by
  simp only [StatLine.fields, List.forall_mem_append, List.forall_mem_cons, List.forall_mem_map]
  exact ⟨⟨⟨⟨isField_letter l.letter, isField_int _, nofun⟩, fun z _ => isField_int z⟩,
    isField_nat _, isField_nat _, nofun⟩, fun z _ => isField_int z⟩

/-- The text behind the name. -/
def tailText (ws : List String) : List Char := ws.flatMap (fun w => ' ' :: w.toList) ++ ['\n']

theorem words_tailText {ws : List String} (fields : ∀ w ∈ ws, IsField w) :
    words isWhitespace (tailText ws) = ws.map String.toList := by
  induction ws with
  | nil => rfl
  | cons w ws ih =>
    obtain ⟨⟨nonempty, chars⟩, rest⟩ := List.forall_mem_cons.mp fields
    have next : ∃ b t, tailText ws = b :: t ∧ isWhitespace b = true := by
      cases ws with
      | nil => exact ⟨_, _, rfl, by decide⟩
      | cons v ws => exact ⟨_, _, rfl, by decide⟩
    obtain ⟨b, t, text, blank⟩ := next
    have cut : tailText (w :: ws) = ' ' :: (w.toList ++ b :: t) := by
      rw [← text]
      simp [tailText]
    rw [cut, words_sep (by decide), words_first nonempty (fun c mem => (chars c mem).1) blank,
      ← words_sep blank, ← text, ih rest]
    rfl

theorem not_mem_tailText {ws : List String} (fields : ∀ w ∈ ws, IsField w) : ')' ∉ tailText ws := by
  intro mem
  obtain inside | last := List.mem_append.mp mem
  · obtain ⟨w, here, mem⟩ := List.mem_flatMap.mp inside
    cases List.mem_cons.mp mem with
    | inl blank => exact absurd blank (by decide)
    | inr mem => exact ((fields w here).2 _ mem).2.2 rfl
  · exact absurd last (by decide)

theorem toList_render (l : StatLine) : l.render.toList =
    ((toString l.pid).toList ++ [' ']) ++ '(' :: (l.comm.toList ++ ')' :: tailText l.fields) := by
  have join (ws : List String) :
      (String.join (ws.map (" " ++ ·))).toList = ws.flatMap fun w => ' ' :: w.toList := by
    induction ws with
    | nil => rfl
    | cons w ws ih =>
      rw [List.map_cons, String.join_cons, String.toList_append, ih, List.flatMap_cons,
        String.toList_append]
      rfl
  simp only [StatLine.render, String.toList_append, join, tailText, List.append_assoc]
  rfl

theorem parseFields_fields (l : StatLine) :
    parseFields l.pid (l.fields.map String.toList) = .ok (some l.stat) := by
  have length : 13 ≤ (l.fields.map String.toList).length := by
    simp only [StatLine.fields, List.length_map, List.length_append, List.length_cons,
      List.length_nil, l.nine]
    omega
  have at_ {i : ℕ} {w : String} (there : l.fields[i]? = some w) :
      (l.fields.map String.toList)[i]? = some w.toList := by
    rw [List.getElem?_map, there]
    rfl
  have utime : l.fields[11]? = some (toString l.utime) := by
    simp [StatLine.fields, l.nine]
  have stime : l.fields[12]? = some (toString l.stime) := by
    simp [StatLine.fields, List.getElem?_append, l.nine]
  rw [parseFields_eq (by omega) (at_ rfl) (at_ rfl) (at_ utime) (at_ stime)]
  simp only [String.ofList_toList, parseU64_toString l.utime_upper,
    parseU64_toString l.stime_upper, parseI32_toString l.ppid_lower l.ppid_upper]
  rfl

/-- `parse_stat` reads back what the kernel writes, whatever the process is called. -/
theorem parseStat_render (l : StatLine) : parseStat l.render = .ok (some l.stat) := by
  have opens : find '(' l.render.toList = some ((toString l.pid).toList ++ [' ']).length := by
    rw [toList_render]
    refine find_append fun mem => ?_
    cases List.mem_append.mp mem with
    | inl mem => exact (fieldChar_int mem).2.1 rfl
    | inr mem => exact absurd mem (by decide)
  have again : l.render.toList = ((toString l.pid).toList ++ [' '] ++ '(' :: l.comm.toList) ++
      ')' :: tailText l.fields := by
    rw [toList_render]
    simp
  have closes : rfind ')' l.render.toList =
      some ((toString l.pid).toList ++ [' '] ++ '(' :: l.comm.toList).length := by
    rw [again]
    exact rfind_append (not_mem_tailText (isField_fields l))
  have head : slice l.render.toList 0 ((toString l.pid).toList ++ [' ']).length =
      .ok ((toString l.pid).toList ++ [' ']) := by
    rw [toList_render]
    exact slice_before
  have tail : slice l.render.toList
      (((toString l.pid).toList ++ [' '] ++ '(' :: l.comm.toList).length + 1)
      l.render.toList.length = .ok (tailText l.fields) := by
    rw [again]
    exact slice_after
  have pid : parseI32 (trim (String.ofList ((toString l.pid).toList ++ [' ']))) = some l.pid := by
    rw [trim_concat (by decide), trim_solid fun c mem => (fieldChar_int mem).1,
      String.ofList_toList]
    exact parseI32_toString l.pid_lower l.pid_upper
  have comm : ((toString l.pid).toList ++ [' ']).length + 1 ≤
      ((toString l.pid).toList ++ [' '] ++ '(' :: l.comm.toList).length := by
    simp only [List.length_append, List.length_cons]
    omega
  have inside : ((toString l.pid).toList ++ [' '] ++ '(' :: l.comm.toList).length ≤
      l.render.toList.length := by
    rw [again]
    simp
  simp only [parseStat, opens, closes, head, tail, pid, ok_bind, slice_ok comm inside,
    words_tailText (isField_fields l)]
  exact parseFields_fields l

/-- `parse_stat` panics on no text, and reads back every line the kernel writes. -/
theorem parseStat_correct :
    (∀ text, ∃ r, parseStat text = .ok r) ∧
      ∀ l : StatLine, parseStat l.render = .ok (some l.stat) :=
  ⟨parseStat_total, parseStat_render⟩

example : parseStat "1234 (a) (b c) S 1 1 1 0 -1 4194560 9 0 0 0 100 50 0 0 20 0\n" =
    .ok (some ⟨1234, 1, "S", 100, 50⟩) := by decide +kernel

end Codery.Metrics
