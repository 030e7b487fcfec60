import Mathlib.Logic.Basic

/-! `config.rs`: names, colors and the text functions the orchestrator applies to small files. -/

namespace Codery

def registry : String := "ghcr.io/coderyoss/codery"

def nginxConfig : String := "/opt/codery/proxy/apps-nginx.conf"

def caddyConfig : String := "/etc/caddy/Caddyfile"

def servicesDir : String := "/opt/codery/services"

/-- `char::is_whitespace`, the Unicode `White_Space` property. -/
def isWhitespace (c : Char) : Bool :=
  let n := c.toNat
  (9 ≤ n && n ≤ 13) || n == 0x20 || n == 0x85 || n == 0xa0 || n == 0x1680 ||
    (0x2000 ≤ n && n ≤ 0x200a) || n == 0x2028 || n == 0x2029 || n == 0x202f || n == 0x205f ||
    n == 0x3000

/-- `str::trim`. -/
def trim (s : String) : String :=
  String.ofList ((s.toList.dropWhile isWhitespace).reverse.dropWhile isWhitespace).reverse

/-- `str::strip_prefix`. -/
def stripPrefix (pre s : String) : Option String :=
  if pre.toList.isPrefixOf s.toList then some (String.ofList (s.toList.drop pre.length)) else none

theorem stripPrefix_some {pre s rest : String} (stripped : stripPrefix pre s = some rest) :
    s = pre ++ rest := by
  unfold stripPrefix at stripped
  split at stripped
  case isTrue begins =>
    obtain ⟨cs, same⟩ := List.isPrefixOf_iff_prefix.mp begins
    cases stripped
    apply String.toList_inj.mp
    rw [← same, String.toList_append, String.toList_ofList, ← String.length_toList, List.drop_left]
  case isFalse => cases stripped

theorem stripPrefix_iff {pre s rest : String} : stripPrefix pre s = some rest ↔ s = pre ++ rest := by
  refine ⟨stripPrefix_some, ?_⟩
  rintro rfl
  have begins : pre.toList.isPrefixOf (pre ++ rest).toList = true := by
    simp [List.isPrefixOf_iff_prefix]
  rw [stripPrefix, if_pos begins, String.toList_append, ← String.length_toList, List.drop_left,
    String.ofList_toList]

/-- `str::parse::<u16>`: an optional `+`, then at least one digit, no overflow. -/
def parseU16 (s : String) : Option UInt16 :=
  let digits : List Char := match s.toList with
    | '+' :: rest => rest
    | cs => cs
  let value := digits.foldl (fun n c => 10 * n + (c.toNat - '0'.toNat)) 0
  if digits ≠ [] ∧ digits.all Char.isDigit ∧ value < 65536 then some (UInt16.ofNat value) else none

inductive Color
  | blue
  | green
  deriving DecidableEq, Repr

def Color.asStr : Color → String
  | .blue => "blue"
  | .green => "green"

def Color.parse (s : String) : Option Color :=
  if s = "blue" then some .blue else if s = "green" then some .green else none

def containerName (service : String) (color : Color) : String :=
  "codery-" ++ service ++ "-" ++ color.asStr

def imageRef (service sha : String) : String :=
  registry ++ ":" ++ service ++ "-" ++ sha

def flip : Color → Color
  | .blue => .green
  | .green => .blue

@[simp] theorem flip_flip (c : Color) : flip (flip c) = c := by cases c <;> rfl

@[simp] theorem flip_ne (c : Color) : flip c ≠ c := by cases c <;> decide

@[simp] theorem ne_flip (c : Color) : c ≠ flip c := (flip_ne c).symm

/-- There are only two slots, so a color is either of a given pair. -/
theorem eq_or_eq_flip (a c : Color) : c = a ∨ c = flip a := by cases a <;> cases c <;> decide

/-- What a color file with content `s` says. -/
def colorOf (s : String) : Color := (Color.parse (trim s)).getD .blue

@[simp] theorem colorOf_asStr (c : Color) : colorOf (c.asStr ++ "\n") = c := by
  cases c <;> decide

private theorem suffix_inj (xs ys : List Char) {c d : Color}
    (h : xs ++ '-' :: c.asStr.toList = ys ++ '-' :: d.asStr.toList) : xs = ys ∧ c = d := by
  have last := congrArg (fun l => l.reverse.head?) h
  cases c <;> cases d <;> simp [Color.asStr] at h last ⊢ <;> exact h

theorem containerName_inj {s s' : String} {c c' : Color} :
    containerName s c = containerName s' c' ↔ s = s' ∧ c = c' := by
  constructor
  · intro h
    have chars := congrArg String.toList h
    simp only [containerName, String.toList_append, List.append_assoc, List.append_cancel_left_eq]
      at chars
    obtain ⟨same, color⟩ := suffix_inj s.toList s'.toList chars
    exact ⟨String.toList_inj.mp same, color⟩
  · rintro ⟨rfl, rfl⟩
    rfl

@[simp] theorem containerName_color_inj {s : String} {c c' : Color} :
    containerName s c = containerName s c' ↔ c = c' := by simp [containerName_inj]

end Codery
