import Codery.HostMetrics
import Mathlib.Algebra.Group.Int.Defs

/-! Decimal numbers as `str::parse` reads them, and blanks as `str::trim` drops them. -/

namespace Codery

open Metrics (parseU64)

/-- `str::parse` for a signed type of `bits` bits: an optional sign, at least one digit, no
overflow. -/
def parseSigned (bits : ℕ) (s : String) : Option ℤ :=
  let (negative, digits) : Bool × List Char := match s.toList with
    | '-' :: rest => (true, rest)
    | '+' :: rest => (false, rest)
    | cs => (false, cs)
  let magnitude := digits.foldl (fun n c => 10 * n + (c.toNat - '0'.toNat)) 0
  let value : ℤ := if negative then -magnitude else magnitude
  if digits ≠ [] ∧ digits.all Char.isDigit ∧ -2 ^ (bits - 1) ≤ value ∧ value < 2 ^ (bits - 1) then
    some value
  else none

def parseI32 (s : String) : Option ℤ := parseSigned 32 s

def parseI64 (s : String) : Option ℤ := parseSigned 64 s

variable {n : ℕ} {z : ℤ} {c : Char} {s : String} {bits : ℕ}

theorem toList_toString_nat (n : ℕ) : (toString n).toList = Nat.toDigits 10 n :=
  String.toList_ofList

theorem foldl_toDigits (n : ℕ) :
    (Nat.toDigits 10 n).foldl (fun n c => 10 * n + (c.toNat - '0'.toNat)) 0 = n := by
  rw [← Nat.ofDigitChars_eq_foldl, Nat.ofDigitChars_ten_toDigits]

theorem isDigit_of_mem_toDigits (mem : c ∈ Nat.toDigits 10 n) : c.isDigit = true :=
  Nat.isDigit_of_mem_toDigits (by decide) (by decide) mem

theorem toDigits_ne_nil : Nat.toDigits 10 n ≠ [] := Nat.toDigits_ne_nil

theorem all_isDigit_toDigits : (Nat.toDigits 10 n).all Char.isDigit = true :=
  List.all_eq_true.mpr fun _ => isDigit_of_mem_toDigits

theorem isDigit_bounds (digit : c.isDigit = true) : 48 ≤ c.toNat ∧ c.toNat ≤ 57 := by
  simpa [Char.isDigit, UInt32.le_iff_toNat_le] using digit

theorem digitChar_value (digit : c.isDigit = true) :
    c.toNat - '0'.toNat < 10 ∧ Nat.digitChar (c.toNat - '0'.toNat) = c := by
  have bounds := isDigit_bounds digit
  have zero : '0'.toNat = 48 := rfl
  have small : c.toNat - '0'.toNat < 10 := by omega
  refine ⟨small, Char.toNat_inj.mp ?_⟩
  rw [Nat.toNat_digitChar_of_lt_ten small]
  omega

/-- Digits behind a number that is not zero go on with it. -/
theorem toDigits_append {cs : List Char} (pos : 0 < n) (all : ∀ c ∈ cs, c.isDigit = true) :
    Nat.toDigits 10 n ++ cs =
      Nat.toDigits 10 (cs.foldl (fun n c => 10 * n + (c.toNat - '0'.toNat)) n) := by
  induction cs generalizing n with
  | nil => rw [List.append_nil, List.foldl_nil]
  | cons c cs ih =>
    obtain ⟨digit, rest⟩ := List.forall_mem_cons.mp all
    obtain ⟨small, same⟩ := digitChar_value digit
    have next : Nat.toDigits 10 n ++ [c] = Nat.toDigits 10 (10 * n + (c.toNat - '0'.toNat)) := by
      rw [← Nat.toDigits_append_toDigits (by decide) pos small, Nat.toDigits_of_lt_base small, same]
    rw [← List.singleton_append, ← List.append_assoc, next, ih (by omega) rest, List.singleton_append,
      List.foldl_cons]

/-- Digits are those of their value, behind zeros. -/
theorem digits_spelled {ds : List Char} (some : ds ≠ []) (all : ∀ c ∈ ds, c.isDigit = true) :
    ∃ k, ds = List.replicate k '0' ++
      Nat.toDigits 10 (ds.foldl (fun n c => 10 * n + (c.toNat - '0'.toNat)) 0) := by
  induction ds with
  | nil => exact absurd rfl some
  | cons c cs ih =>
    obtain ⟨digit, rest⟩ := List.forall_mem_cons.mp all
    by_cases zero : c = '0'
    · subst zero
      by_cases last : cs = []
      · exact ⟨0, by rw [last]; rfl⟩
      · obtain ⟨k, same⟩ := ih last rest
        refine ⟨k + 1, ?_⟩
        rw [List.replicate_succ, List.cons_append, List.foldl_cons]
        exact congrArg ('0' :: ·) same
    · obtain ⟨small, same⟩ := digitChar_value digit
      have pos : 0 < c.toNat - '0'.toNat := by
        rw [Nat.pos_iff_ne_zero]
        intro none
        rw [none] at same
        exact zero same.symm
      refine ⟨0, ?_⟩
      rw [List.replicate_zero, List.nil_append, List.foldl_cons, Nat.mul_zero, Nat.zero_add,
        ← toDigits_append pos rest, Nat.toDigits_of_lt_base small, same, List.singleton_append]

/-- A number does not begin with a sign. -/
theorem toDigits_head {cs : List Char} (same : Nat.toDigits 10 n = c :: cs) : c ≠ '-' ∧ c ≠ '+' := by
  have digit : c.isDigit = true := isDigit_of_mem_toDigits (n := n) (by simp [same])
  constructor
  · rintro rfl
    exact absurd digit (by decide)
  · rintro rfl
    exact absurd digit (by decide)

theorem parseU64_toString (small : n < 2 ^ 64) : parseU64 (toString n) = some n := by
  obtain ⟨c, cs, digits⟩ := List.exists_cons_of_ne_nil (toDigits_ne_nil (n := n))
  have unsigned := (toDigits_head digits).2
  have all : (c :: cs).all Char.isDigit = true := digits ▸ all_isDigit_toDigits
  have value := foldl_toDigits n
  rw [digits] at value
  simp only [parseU64, toList_toString_nat, digits]
  split
  next rest same =>
    cases same
    exact absurd rfl unsigned
  · rw [value, if_pos ⟨List.cons_ne_nil _ _, all, small⟩]

theorem toList_toString_negSucc (n : ℕ) :
    (toString (Int.negSucc n)).toList = '-' :: Nat.toDigits 10 (n + 1) := by
  show ("-" ++ toString (n + 1)).toList = _
  rw [String.toList_append, toList_toString_nat]
  rfl

theorem parseSigned_toString (lower : -2 ^ (bits - 1) ≤ z) (upper : z < 2 ^ (bits - 1)) :
    parseSigned bits (toString z) = some z := by
  cases z with
  | ofNat n =>
    obtain ⟨c, cs, digits⟩ := List.exists_cons_of_ne_nil (toDigits_ne_nil (n := n))
    have unsigned := toDigits_head digits
    have all : (c :: cs).all Char.isDigit = true := digits ▸ all_isDigit_toDigits
    have value := foldl_toDigits n
    have text : (toString (Int.ofNat n)).toList = c :: cs := (toList_toString_nat n).trans digits
    rw [digits] at value
    simp only [parseSigned, text]
    split
    next rest same =>
      cases same
      exact absurd rfl unsigned.1
    next rest same =>
      cases same
      exact absurd rfl unsigned.2
    · simp only [value, Bool.false_eq_true, if_false]
      exact if_pos ⟨List.cons_ne_nil _ _, all, lower, upper⟩
  | negSucc n =>
    have value : -((n + 1 : ℕ) : ℤ) = Int.negSucc n := (Int.negSucc_eq n).symm
    simp only [parseSigned, toList_toString_negSucc, foldl_toDigits, if_true]
    rw [value]
    exact if_pos ⟨toDigits_ne_nil, all_isDigit_toDigits, lower, upper⟩

theorem parseI32_toString (lower : -2 ^ 31 ≤ z) (upper : z < 2 ^ 31) :
    parseI32 (toString z) = some z := parseSigned_toString lower upper

theorem parseI64_toString (lower : -2 ^ 63 ≤ z) (upper : z < 2 ^ 63) :
    parseI64 (toString z) = some z := parseSigned_toString lower upper

theorem parseSigned_some (parsed : parseSigned bits s = some z) :
    ∀ c ∈ s.toList, c.isDigit = true ∨ c = '-' ∨ c = '+' := by
  have digits {cs : List Char} {e : ℤ} {value : ℤ}
      (ok : (if cs ≠ [] ∧ cs.all Char.isDigit ∧ -2 ^ (bits - 1) ≤ value ∧ value < 2 ^ (bits - 1)
        then some value else none) = some e) : ∀ c ∈ cs, c.isDigit = true := by
    split at ok
    case isTrue all => exact List.all_eq_true.mp all.2.1
    case isFalse => cases ok
  simp only [parseSigned] at parsed
  split at parsed
  next text =>
    rw [text]
    exact List.forall_mem_cons.mpr ⟨.inr (.inl rfl), fun c mem => .inl (digits parsed c mem)⟩
  next text =>
    rw [text]
    exact List.forall_mem_cons.mpr ⟨.inr (.inr rfl), fun c mem => .inl (digits parsed c mem)⟩
  · exact fun c mem => .inl (digits parsed c mem)

theorem mem_toString_int (mem : c ∈ (toString z).toList) : c.isDigit = true ∨ c = '-' := by
  cases z with
  | ofNat n =>
    have text : (toString (Int.ofNat n)).toList = Nat.toDigits 10 n := toList_toString_nat n
    rw [text] at mem
    exact .inl (isDigit_of_mem_toDigits mem)
  | negSucc n =>
    rw [toList_toString_negSucc] at mem
    cases List.mem_cons.mp mem with
    | inl minus => exact .inr minus
    | inr digit => exact .inl (isDigit_of_mem_toDigits digit)

theorem toString_int_ne_nil : (toString z).toList ≠ [] := by
  cases z with
  | ofNat n =>
    have text : (toString (Int.ofNat n)).toList = Nat.toDigits 10 n := toList_toString_nat n
    rw [text]
    exact toDigits_ne_nil
  | negSucc n =>
    rw [toList_toString_negSucc]
    exact List.cons_ne_nil _ _

theorem dropWhile_solid {cs : List Char} (solid : ∀ c ∈ cs, isWhitespace c = false) :
    cs.dropWhile isWhitespace = cs := by
  cases cs with
  | nil => rfl
  | cons c cs => simp [solid c List.mem_cons_self]

theorem trim_solid {cs : List Char} (solid : ∀ c ∈ cs, isWhitespace c = false) :
    trim (String.ofList cs) = String.ofList cs := by
  rw [trim, String.toList_ofList, dropWhile_solid solid,
    dropWhile_solid fun c mem => solid c (List.mem_reverse.mp mem), List.reverse_reverse]

/-- A blank at the end is dropped. -/
theorem trim_concat {cs : List Char} (blank : isWhitespace c = true) :
    trim (String.ofList (cs ++ [c])) = trim (String.ofList cs) := by
  rw [trim, trim, String.toList_ofList, String.toList_ofList, List.dropWhile_append]
  split
  · next all =>
    have nothing : cs.dropWhile isWhitespace = [] := by simpa using all
    simp [blank, nothing]
  · simp [blank]

theorem isDigit_solid (digit : c.isDigit = true) : isWhitespace c = false := by
  have bounds := isDigit_bounds digit
  simp only [isWhitespace, Bool.or_eq_false_iff, Bool.and_eq_false_iff, decide_eq_false_iff_not,
    beq_eq_false_iff_ne]
  omega

end Codery
