import Mathlib.Algebra.Group.Int.Defs
import Mathlib.Algebra.Group.Nat.Defs
import Codery.Utf8

/-! `read_tail` of `mcp_exec.rs`: the last bytes of a log, as text. -/

namespace Codery.ReadTail

open Utf8

/-- A file that can be read.  The kernel counts its bytes in a signed offset. -/
structure LogFile where
  bytes : List UInt8
  size_lt : bytes.length < 2 ^ 63

/-- A panic of a checked operator. -/
inductive Fault
  | overflow
  deriving DecidableEq

/-- `as i64`. -/
def asI64 (n : UInt64) : ℤ := if n.toNat < 2 ^ 63 then n.toNat else n.toNat - 2 ^ 64

/-- `-` on an `i64`: the least number has no opposite. -/
def negI64 (z : ℤ) : Except Fault ℤ := if z = -2 ^ 63 then .error .overflow else .ok (-z)

/-- `seek` to an offset from the end, if there is such a position. -/
def seekEnd (file : LogFile) (offset : ℤ) : Option ℕ :=
  let position := file.bytes.length + offset
  if 0 ≤ position ∧ position < 2 ^ 63 then some position.toNat else none

def readTail (path : Option LogFile) (maxBytes : UInt64) : Except Fault String :=
  match path with
  | none => .ok ""
  | some file => do
    let size := UInt64.ofNat file.bytes.length
    let seekBack ← negI64 (asI64 maxBytes)
    if size > maxBytes then
      match seekEnd file seekBack with
      | none => return ""
      | some start => return String.ofList (lossy (file.bytes.drop start))
    else return String.ofList (lossy file.bytes)

/-- The last bytes. -/
def LogFile.last (file : LogFile) (maxBytes : UInt64) : List UInt8 :=
  file.bytes.drop (file.bytes.length - maxBytes.toNat)

variable {file : LogFile} {maxBytes : UInt64}

theorem LogFile.length_last (file : LogFile) (maxBytes : UInt64) :
    (file.last maxBytes).length = min file.bytes.length maxBytes.toNat := by
  rw [last, List.length_drop]
  omega

theorem LogFile.size (file : LogFile) : (UInt64.ofNat file.bytes.length).toNat = file.bytes.length :=
  UInt64.toNat_ofNat_of_lt' (Nat.lt_trans file.size_lt (by decide))

/-- Short of the one number without an opposite, the last bytes are read, whatever they are. -/
theorem readTail_eq (signed : maxBytes.toNat ≠ 2 ^ 63) :
    readTail (some file) maxBytes = .ok (String.ofList (lossy (file.last maxBytes))) := by
  have negated : negI64 (asI64 maxBytes) = .ok (-asI64 maxBytes) := by
    refine if_neg fun least => signed ?_
    unfold asI64 at least
    split at least <;> omega
  have bound := file.size_lt
  rw [readTail, negated]
  show (if UInt64.ofNat file.bytes.length > maxBytes then _ else _) = _
  by_cases more : maxBytes.toNat < file.bytes.length
  · have back : asI64 maxBytes = maxBytes.toNat := if_pos (Nat.lt_trans more bound)
    have position : seekEnd file (-asI64 maxBytes) = some (file.bytes.length - maxBytes.toNat) := by
      rw [seekEnd, back, if_pos (by omega)]
      congr 1
      omega
    rw [if_pos (UInt64.lt_iff_toNat_lt.mpr (file.size.symm ▸ more)), position]
    rfl
  · have whole : file.last maxBytes = file.bytes := by
      rw [LogFile.last, Nat.sub_eq_zero_of_le (Nat.le_of_not_lt more), List.drop_zero]
    rw [if_neg fun less => more (file.size ▸ UInt64.lt_iff_toNat_lt.mp less), whole]
    rfl

/-- The one number of bytes whose offset overflows. -/
theorem readTail_overflow_iff :
    readTail (some file) maxBytes = .error .overflow ↔ maxBytes.toNat = 2 ^ 63 := by
  constructor
  · intro fault
    by_contra signed
    rw [readTail_eq signed] at fault
    cases fault
  · intro least
    have cast : asI64 maxBytes = -2 ^ 63 := by
      rw [asI64, if_neg (by omega), least]
      decide
    rw [readTail, cast]
    rfl

theorem size_ofList (cs : List Char) :
    (String.ofList cs).utf8ByteSize = (cs.map Char.utf8Size).sum := by
  induction cs with
  | nil => rfl
  | cons c cs ih =>
    rw [String.ofList_cons, String.utf8ByteSize_append, String.utf8ByteSize_singleton, ih,
      List.map_cons, List.sum_cons]

/-- What `read_tail` gives: the text of the last bytes, which has their size and what the replacement
characters have more. -/
theorem readTail_tail (file : LogFile) (maxBytes : UInt64) (signed : maxBytes.toNat ≠ 2 ^ 63) :
    ∃ s tail, readTail (some file) maxBytes = .ok s ∧ tail <:+ file.bytes ∧
      tail.length = min file.bytes.length maxBytes.toNat ∧ s.toList = lossy tail ∧
      (s.utf8ByteSize ≤ maxBytes.toNat ↔ tail.length + shortfall tail ≤ maxBytes.toNat) ∧
      ∀ cs, tail = encode cs → s.toList = cs ∧ s.utf8ByteSize ≤ maxBytes.toNat := by
  have size : (String.ofList (lossy (file.last maxBytes))).utf8ByteSize =
      (file.last maxBytes).length + shortfall (file.last maxBytes) := by
    rw [size_ofList, size_lossy]
  refine ⟨_, file.last maxBytes, readTail_eq signed, List.drop_suffix _ _, file.length_last maxBytes,
    String.toList_ofList, by rw [size], fun cs whole => ⟨?_, ?_⟩⟩
  · rw [String.toList_ofList, whole, lossy_encode]
  · rw [size, whole, shortfall_encode, Nat.add_zero, ← whole, file.length_last]
    exact Nat.min_le_right _ _

/-- A log of two letters, of which the second one has two bytes. -/
def twoLetters : LogFile := ⟨[0x61, 0xC3, 0xA9], by decide⟩

theorem readTail_tail_twoLetters : lossy (twoLetters.last 2) = ['é'] ∧
    ∃ s tail, readTail (some twoLetters) 2 = .ok s ∧
      tail <:+ twoLetters.bytes ∧ tail.length = min twoLetters.bytes.length (2 : UInt64).toNat ∧
      s.toList = lossy tail ∧
      (s.utf8ByteSize ≤ (2 : UInt64).toNat ↔ tail.length + shortfall tail ≤ (2 : UInt64).toNat) ∧
      ∀ cs, tail = encode cs → s.toList = cs ∧ s.utf8ByteSize ≤ (2 : UInt64).toNat :=
  ⟨by decide, readTail_tail twoLetters 2 (by decide)⟩

/-- A log of one letter, which has two bytes. -/
def oneLetter : LogFile := ⟨[0xC3, 0xA9], by decide⟩

/-- Cut in the letter, the log gives a replacement character, which has more bytes than were asked
for. -/
theorem readTail_longer : ¬ ∀ (file : LogFile) (maxBytes : UInt64),
    ∃ s, readTail (some file) maxBytes = .ok s ∧ s.utf8ByteSize ≤ maxBytes.toNat ∧
      s.toList = lossy (file.last maxBytes) := by
  intro bounded
  obtain ⟨s, -, short, same⟩ := bounded oneLetter 1
  have cut : lossy (oneLetter.last 1) = ['\uFFFD'] := by decide
  have text : s = String.ofList ['\uFFFD'] := by rw [← cut, ← same, String.ofList_toList]
  rw [text, size_ofList] at short
  exact absurd short (by decide)

end Codery.ReadTail
