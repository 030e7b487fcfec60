import Mathlib.Data.List.Basic
import Mathlib.Data.Nat.Notation

/-! Base64: bytes written with 64 characters, three bytes as four characters. -/

namespace Codery.Base64

def digit (n : ℕ) : Char :=
  if n < 26 then Char.ofNat (65 + n)
  else if n < 52 then Char.ofNat (97 + (n - 26))
  else if n < 62 then Char.ofNat (48 + (n - 52))
  else if n = 62 then '+'
  else '/'

/-- Either alphabet is read. -/
def value (c : Char) : Option ℕ :=
  let n := c.toNat
  if 65 ≤ n ∧ n ≤ 90 then some (n - 65)
  else if 97 ≤ n ∧ n ≤ 122 then some (n - 97 + 26)
  else if 48 ≤ n ∧ n ≤ 57 then some (n - 48 + 52)
  else if c = '+' ∨ c = '-' then some 62
  else if c = '/' ∨ c = '_' then some 63
  else none

/-- Six bits at a time, the last ones filled up. -/
def sextets : List UInt8 → List ℕ
  | [] => []
  | [a] => [a.toNat / 4, a.toNat % 4 * 16]
  | [a, b] => [a.toNat / 4, a.toNat % 4 * 16 + b.toNat / 16, b.toNat % 16 * 4]
  | a :: b :: c :: rest =>
    a.toNat / 4 :: (a.toNat % 4 * 16 + b.toNat / 16) :: (b.toNat % 16 * 4 + c.toNat / 64) ::
      c.toNat % 64 :: sextets rest

/-- The bytes, as far as they are whole. -/
def octets : List ℕ → List UInt8
  | p :: q :: r :: s :: rest =>
    UInt8.ofNat (p * 4 + q / 16) :: UInt8.ofNat (q % 16 * 16 + r / 4) ::
      UInt8.ofNat (r % 4 * 64 + s) :: octets rest
  | [p, q, r] => [UInt8.ofNat (p * 4 + q / 16), UInt8.ofNat (q % 16 * 16 + r / 4)]
  | [p, q] => [UInt8.ofNat (p * 4 + q / 16)]
  | _ => []

def encode (bytes : List UInt8) : List Char :=
  (sextets bytes).map digit ++ List.replicate ((3 - bytes.length % 3) % 3) '='

/-- What is of no alphabet is skipped, and the first `=` ends the text. -/
def decode (cs : List Char) : List UInt8 := octets ((cs.takeWhile (· ≠ '=')).filterMap value)

variable {n : ℕ} {bytes : List UInt8}

theorem value_digit : ∀ n < 64, value (digit n) = some n := by decide

theorem digit_ne_pad : ∀ n < 64, digit n ≠ '=' := by decide

theorem byte_eq (a : UInt8) (same : n = a.toNat) : UInt8.ofNat n = a := by
  rw [same]
  exact UInt8.ofNat_toNat

theorem sextets_small (bytes : List UInt8) : ∀ n ∈ sextets bytes, n < 64 := by
  induction bytes using sextets.induct with
  | case1 => simp [sextets]
  | case2 a =>
    have := a.toNat_lt
    simp only [sextets, List.mem_cons, List.not_mem_nil, or_false]
    rintro n (rfl | rfl) <;> omega
  | case3 a b =>
    have := a.toNat_lt
    have := b.toNat_lt
    simp only [sextets, List.mem_cons, List.not_mem_nil, or_false]
    rintro n (rfl | rfl | rfl) <;> omega
  | case4 a b c rest ih =>
    have := a.toNat_lt
    have := b.toNat_lt
    have := c.toNat_lt
    simp only [sextets, List.mem_cons]
    rintro n (rfl | rfl | rfl | rfl | later)
    case inr.inr.inr.inr => exact ih n later
    all_goals omega

theorem octets_sextets (bytes : List UInt8) : octets (sextets bytes) = bytes := by
  induction bytes using sextets.induct with
  | case1 => rfl
  | case2 a =>
    have := a.toNat_lt
    simp only [sextets, octets, List.cons.injEq, and_true]
    exact byte_eq a (by omega)
  | case3 a b =>
    have := a.toNat_lt
    have := b.toNat_lt
    simp only [sextets, octets, List.cons.injEq, and_true]
    exact ⟨byte_eq a (by omega), byte_eq b (by omega)⟩
  | case4 a b c rest ih =>
    have := a.toNat_lt
    have := b.toNat_lt
    have := c.toNat_lt
    simp only [sextets, octets, List.cons.injEq]
    exact ⟨byte_eq a (by omega), byte_eq b (by omega), byte_eq c (by omega), ih⟩

theorem takeWhile_encode (bytes : List UInt8) :
    (encode bytes).takeWhile (· ≠ '=') = (sextets bytes).map digit := by
  have plain : ∀ c ∈ (sextets bytes).map digit, decide (c ≠ '=') = true := by
    intro c mem
    obtain ⟨n, small, rfl⟩ := List.mem_map.mp mem
    exact decide_eq_true (digit_ne_pad n (sextets_small bytes n small))
  rw [encode, List.takeWhile_append_of_pos plain, List.takeWhile_replicate]
  simp

theorem filterMap_digit {ns : List ℕ} (small : ∀ n ∈ ns, n < 64) :
    (ns.map digit).filterMap value = ns := by
  calc (ns.map digit).filterMap value
    _ = ns.filterMap (value ∘ digit) := List.filterMap_map
    _ = ns.filterMap some := List.filterMap_congr fun n mem => value_digit n (small n mem)
    _ = ns := List.filterMap_some

/-- What is written is read back. -/
theorem decode_encode (bytes : List UInt8) : decode (encode bytes) = bytes := by
  rw [decode, takeWhile_encode, filterMap_digit (sextets_small bytes), octets_sextets]

end Codery.Base64
