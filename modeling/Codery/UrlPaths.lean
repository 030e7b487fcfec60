import Mathlib.Data.List.Basic

/-! The path of a URL, as it is asked for: its segments, with `.` and `..` resolved. -/

namespace Codery.UrlPaths

/-- Tabs and line ends are no part of a URL. -/
def isSkipped (c : Char) : Bool := c == '\t' || c == '\n' || c == '\r'

/-- Of `http` and `https` a backslash is a slash as well. -/
def isSlash (c : Char) : Bool := c == '/' || c == '\\'

/-- The query or the fragment begins. -/
def isEnd (c : Char) : Bool := c == '?' || c == '#'

/-- A dot may be written with a percent sign. -/
def dots : List Char → Option ℕ
  | [] => some 0
  | '.' :: cs => (dots cs).map (· + 1)
  | '%' :: '2' :: 'e' :: cs | '%' :: '2' :: 'E' :: cs => (dots cs).map (· + 1)
  | _ => none

/-- The path with a further segment, which is the last one or not. -/
def push (path : List (List Char)) (last : Bool) (segment : List Char) : List (List Char) :=
  match dots segment, last with
  | some 1, false => path
  | some 1, true => path ++ [[]]
  | some 2, false => path.dropLast
  | some 2, true => path.dropLast ++ [[]]
  | _, _ => path ++ [segment]

/-- Read on, behind a slash and then `segment`. -/
def read (path : List (List Char)) (segment : List Char) : List Char → List (List Char)
  | [] => push path true segment
  | c :: cs =>
    if isEnd c then push path true segment
    else if isSlash c then read (push path false segment) [] cs
    else if isSkipped c then read path segment cs
    else read path (segment ++ [c]) cs

/-- The segments of a path that begins with a slash.  They stand here as they were before they were
encoded. -/
def segments (path : String) : List String := (read [] [] (path.toList.drop 1)).map String.ofList

/-- Nothing in the text is special in a path. -/
def isPlain (c : Char) : Bool := !isEnd c && !isSlash c && !isSkipped c && c != '%'

/-- A name that stays a segment of its own. -/
def Plain (s : String) : Prop := s ∉ ["", ".", ".."] ∧ s.toList.all isPlain

instance (s : String) : Decidable (Plain s) := inferInstanceAs (Decidable (_ ∧ _))

variable {path : List (List Char)} {segment rest : List Char} {c : Char} {s : String}

theorem read_plain {cs : List Char} (plain : cs.all isPlain) :
    read path segment (cs ++ rest) = read path (segment ++ cs) rest := by
  induction cs generalizing segment with
  | nil => rw [List.nil_append, List.append_nil]
  | cons c cs ih =>
    rw [List.all_cons, Bool.and_eq_true] at plain
    obtain ⟨here, later⟩ := plain
    simp only [isPlain, Bool.and_eq_true, Bool.not_eq_true'] at here
    obtain ⟨⟨⟨notEnd, notSlash⟩, kept⟩, -⟩ := here
    rw [List.cons_append, read, if_neg (by simp [notEnd]), if_neg (by simp [notSlash]),
      if_neg (by simp [kept]), ih later, List.append_assoc, List.singleton_append]

end Codery.UrlPaths
