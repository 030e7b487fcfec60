import Mathlib.Data.List.Basic
import Mathlib.Algebra.BigOperators.Group.List.Basic
import Mathlib.Algebra.GroupWithZero.Nat

/-! UTF-8 as decoders that replace read it: a byte at a time, a sequence that no character begins with
given up as far as it was read. -/

namespace Codery.Utf8

/-- What is read: a character, or a broken sequence of so many bytes. -/
inductive Piece
  | char (c : Char)
  | broken (size : ℕ)
  deriving DecidableEq

/-- A character of which `size` bytes are read and `more` are to come, the next one of them between
`low` and `high`. -/
structure Partial where
  value : ℕ
  size : ℕ
  more : ℕ
  low : ℕ
  high : ℕ

/-- The first byte of a character of several. -/
def lead (n : ℕ) : Option Partial :=
  if 0xC2 ≤ n ∧ n ≤ 0xDF then some ⟨n - 0xC0, 1, 1, 0x80, 0xBF⟩
  else if n = 0xE0 then some ⟨0, 1, 2, 0xA0, 0xBF⟩
  else if n = 0xED then some ⟨0xD, 1, 2, 0x80, 0x9F⟩
  else if 0xE1 ≤ n ∧ n ≤ 0xEF then some ⟨n - 0xE0, 1, 2, 0x80, 0xBF⟩
  else if n = 0xF0 then some ⟨0, 1, 3, 0x90, 0xBF⟩
  else if 0xF1 ≤ n ∧ n ≤ 0xF3 then some ⟨n - 0xF0, 1, 3, 0x80, 0xBF⟩
  else if n = 0xF4 then some ⟨4, 1, 3, 0x80, 0x8F⟩
  else none

/-- A byte between two characters. -/
def first (b : UInt8) : List Piece × Option Partial :=
  if b.toNat < 0x80 then ([.char (Char.ofNat b.toNat)], none)
  else match lead b.toNat with
    | none => ([.broken 1], none)
    | some p => ([], some p)

def step : Option Partial → UInt8 → List Piece × Option Partial
  | none, b => first b
  | some p, b =>
    if p.low ≤ b.toNat ∧ b.toNat ≤ p.high then
      let value := p.value * 64 + (b.toNat - 0x80)
      if p.more = 1 then ([.char (Char.ofNat value)], none)
      else ([], some ⟨value, p.size + 1, p.more - 1, 0x80, 0xBF⟩)
    else (.broken p.size :: (first b).1, (first b).2)

def run : Option Partial → List UInt8 → List Piece
  | none, [] => []
  | some p, [] => [.broken p.size]
  | q, b :: bytes => (step q b).1 ++ run (step q b).2 bytes

def pieces (bytes : List UInt8) : List Piece := run none bytes

def Piece.shown : Piece → Char
  | .char c => c
  | .broken _ => '\uFFFD'

/-- The text, with U+FFFD for what is broken. -/
def lossy (bytes : List UInt8) : List Char := (pieces bytes).map Piece.shown

def encode (cs : List Char) : List UInt8 := cs.flatMap String.utf8EncodeChar

/-- How many bytes were read. -/
def Piece.size : Piece → ℕ
  | .char c => c.utf8Size
  | .broken n => n

/-! ### How much is read -/

/-- Where a reader can stand in a character: what is read and expected fits its size. -/
inductive Sound : Partial → Prop
  | two {v : ℕ} (low : 2 ≤ v) (high : v < 0x20) : Sound ⟨v, 1, 1, 0x80, 0xBF⟩
  | threeLow : Sound ⟨0, 1, 2, 0xA0, 0xBF⟩
  | threeHigh : Sound ⟨0xD, 1, 2, 0x80, 0x9F⟩
  | three {v : ℕ} (low : 1 ≤ v) (high : v < 0x10) (other : v ≠ 0xD) : Sound ⟨v, 1, 2, 0x80, 0xBF⟩
  | threeLast {v : ℕ} (low : 0x20 ≤ v) (high : v < 0x400) (gap : v < 0x360 ∨ 0x380 ≤ v) :
    Sound ⟨v, 2, 1, 0x80, 0xBF⟩
  | fourLow : Sound ⟨0, 1, 3, 0x90, 0xBF⟩
  | fourHigh : Sound ⟨4, 1, 3, 0x80, 0x8F⟩
  | four {v : ℕ} (low : 1 ≤ v) (high : v < 4) : Sound ⟨v, 1, 3, 0x80, 0xBF⟩
  | fourNext {v : ℕ} (low : 0x10 ≤ v) (high : v < 0x110) : Sound ⟨v, 2, 2, 0x80, 0xBF⟩
  | fourLast {v : ℕ} (low : 0x400 ≤ v) (high : v < 0x4400) : Sound ⟨v, 3, 1, 0x80, 0xBF⟩

variable {b : UInt8} {bytes rest : List UInt8} {p : Partial} {q : Option Partial} {c : Char} {n : ℕ}

theorem utf8Size_of_val (c : Char) : c.utf8Size =
    if c.toNat < 0x80 then 1 else if c.toNat < 0x800 then 2 else if c.toNat < 0x10000 then 3 else 4 := by
  simp only [Char.utf8Size, UInt32.le_iff_toNat_le]
  show (if c.toNat ≤ 0x7F then 1 else if c.toNat ≤ 0x7FF then 2 else if c.toNat ≤ 0xFFFF then 3 else 4) = _
  simp only [Nat.lt_succ_iff]

theorem toNat_ofNat (valid : n.isValidChar) : (Char.ofNat n).toNat = n := by
  rw [Char.ofNat, dif_pos valid]
  rfl

theorem utf8Size_ofNat (valid : n.isValidChar) : (Char.ofNat n).utf8Size =
    if n < 0x80 then 1 else if n < 0x800 then 2 else if n < 0x10000 then 3 else 4 := by
  rw [utf8Size_of_val, toNat_ofNat valid]

theorem lead_sound (read : lead n = some p) : Sound p ∧ p.size = 1 := by
  unfold lead at read
  split at read
  case isTrue h =>
    rw [← Option.some.inj read]
    exact ⟨.two (by omega) (by omega), rfl⟩
  split at read
  case isTrue h =>
    rw [← Option.some.inj read]
    exact ⟨.threeLow, rfl⟩
  split at read
  case isTrue h =>
    rw [← Option.some.inj read]
    exact ⟨.threeHigh, rfl⟩
  split at read
  case isTrue h =>
    rw [← Option.some.inj read]
    exact ⟨.three (by omega) (by omega) (by omega), rfl⟩
  split at read
  case isTrue h =>
    rw [← Option.some.inj read]
    exact ⟨.fourLow, rfl⟩
  split at read
  case isTrue h =>
    rw [← Option.some.inj read]
    exact ⟨.four (by omega) (by omega), rfl⟩
  split at read
  case isTrue h =>
    rw [← Option.some.inj read]
    exact ⟨.fourHigh, rfl⟩
  cases read

/-- The last byte that is expected gives the character, any other one a place further on. -/
theorem Sound.next (sound : Sound p) (low : p.low ≤ n) (high : n ≤ p.high) :
    p.more = 1 ∧ (p.value * 64 + (n - 0x80)).isValidChar ∧
      (Char.ofNat (p.value * 64 + (n - 0x80))).utf8Size = p.size + 1 ∨
    p.more ≠ 1 ∧ Sound ⟨p.value * 64 + (n - 0x80), p.size + 1, p.more - 1, 0x80, 0xBF⟩ := by
  have last {v size : ℕ} (valid : v.isValidChar)
      (sizes : (if v < 0x80 then 1 else if v < 0x800 then 2 else if v < 0x10000 then 3 else 4) = size) :
      v.isValidChar ∧ (Char.ofNat v).utf8Size = size := ⟨valid, (utf8Size_ofNat valid).trans sizes⟩
  cases sound with
  | two lo hi =>
    dsimp only at low high ⊢
    exact .inl ⟨rfl, last (.inl (by omega)) (by rw [if_neg (by omega), if_pos (by omega)])⟩
  | threeLow =>
    dsimp only at low high ⊢
    exact .inr ⟨by decide, .threeLast (by omega) (by omega) (by omega)⟩
  | threeHigh =>
    dsimp only at low high ⊢
    exact .inr ⟨by decide, .threeLast (by omega) (by omega) (by omega)⟩
  | three lo hi other =>
    dsimp only at low high ⊢
    exact .inr ⟨by decide, .threeLast (by omega) (by omega) (by omega)⟩
  | threeLast lo hi gap =>
    dsimp only at low high ⊢
    exact .inl ⟨rfl, last (gap.imp (fun below => by omega) fun above => ⟨by omega, by omega⟩)
      (by rw [if_neg (by omega), if_neg (by omega), if_pos (by omega)])⟩
  | fourLow =>
    dsimp only at low high ⊢
    exact .inr ⟨by decide, .fourNext (by omega) (by omega)⟩
  | fourHigh =>
    dsimp only at low high ⊢
    exact .inr ⟨by decide, .fourNext (by omega) (by omega)⟩
  | four lo hi =>
    dsimp only at low high ⊢
    exact .inr ⟨by decide, .fourNext (by omega) (by omega)⟩
  | fourNext lo hi =>
    dsimp only at low high ⊢
    exact .inr ⟨by decide, .fourLast (by omega) (by omega)⟩
  | fourLast lo hi =>
    dsimp only at low high ⊢
    exact .inl ⟨rfl, last (.inr ⟨by omega, by omega⟩)
      (by rw [if_neg (by omega), if_neg (by omega), if_neg (by omega)])⟩

/-- How many bytes are read of a character that is not complete. -/
def held : Option Partial → ℕ
  | none => 0
  | some p => p.size

def AllSound (q : Option Partial) : Prop := ∀ p, q = some p → Sound p

theorem allSound_none : AllSound none := fun _ same => nomatch same

def total (l : List Piece) : ℕ := (l.map Piece.size).sum

theorem first_sizes (b : UInt8) : total (first b).1 + held (first b).2 = 1 ∧ AllSound (first b).2 := by
  unfold first
  split
  case isTrue ascii =>
    have valid : b.toNat.isValidChar := .inl (by omega)
    refine ⟨?_, allSound_none⟩
    simp [total, held, Piece.size, utf8Size_ofNat valid, ascii]
  case isFalse =>
    cases read : lead b.toNat with
    | none => exact ⟨rfl, allSound_none⟩
    | some p =>
      obtain ⟨sound, one⟩ := lead_sound read
      refine ⟨?_, fun p' same => Option.some.inj same ▸ sound⟩
      simp [total, held, one]

theorem step_sizes (sound : AllSound q) :
    total (step q b).1 + held (step q b).2 = held q + 1 ∧ AllSound (step q b).2 := by
  cases q with
  | none => exact (first_sizes b).imp_left fun sizes => sizes.trans (Nat.zero_add 1).symm
  | some p =>
    rw [step]
    split
    case isTrue range =>
      rcases (sound p rfl).next range.1 range.2 with ⟨last, valid, size⟩ | ⟨more, next⟩
      · rw [if_pos last]
        refine ⟨?_, allSound_none⟩
        simp [total, held, Piece.size, size]
      · rw [if_neg more]
        refine ⟨?_, fun p' same => Option.some.inj same ▸ next⟩
        simp [total, held]
    case isFalse =>
      obtain ⟨sizes, sound'⟩ := first_sizes b
      refine ⟨?_, sound'⟩
      simp only [total, held, List.map_cons, List.sum_cons, Piece.size] at sizes ⊢
      omega

theorem total_run (sound : AllSound q) : total (run q bytes) = held q + bytes.length := by
  induction bytes generalizing q with
  | nil =>
    cases q with
    | none => rfl
    | some p => simp [run, total, held, Piece.size]
  | cons b bytes ih =>
    obtain ⟨sizes, sound'⟩ := step_sizes (b := b) sound
    have rest := ih sound'
    have split : run q (b :: bytes) = (step q b).1 ++ run (step q b).2 bytes := by cases q <;> rfl
    rw [split, List.length_cons]
    simp only [total, List.map_append, List.sum_append] at sizes rest ⊢
    omega

/-- Nothing is lost: the pieces have the bytes that were read. -/
theorem total_pieces (bytes : List UInt8) : total (pieces bytes) = bytes.length := by
  rw [pieces, total_run allSound_none, held, Nat.zero_add]

/-! ### How much is shown -/

theorem Sound.size_le (sound : Sound p) : p.size ≤ 3 := by
  cases sound <;> dsimp only <;> omega

/-- What U+FFFD has more bytes than the sequence it stands for. -/
def Piece.missing : Piece → ℕ
  | .char _ => 0
  | .broken n => 3 - n

/-- By how many bytes the broken sequences are short of three each. -/
def shortfall (bytes : List UInt8) : ℕ := ((pieces bytes).map Piece.missing).sum

theorem first_short (b : UInt8) : ∀ x ∈ (first b).1, x.shown.utf8Size = x.size + x.missing := by
  unfold first
  split
  case isTrue => exact List.forall_mem_singleton.mpr (Nat.add_zero _).symm
  case isFalse =>
    cases lead b.toNat with
    | none => exact List.forall_mem_singleton.mpr (by decide)
    | some p => exact fun x mem => nomatch mem

theorem broken_shown (n : ℕ) (le : n ≤ 3) :
    (Piece.broken n).shown.utf8Size = (Piece.broken n).size + (Piece.broken n).missing := by
  have three : '\uFFFD'.utf8Size = 3 := by decide
  rw [Piece.shown, three, Piece.size, Piece.missing]
  omega

theorem run_short (sound : AllSound q) :
    ∀ x ∈ run q bytes, x.shown.utf8Size = x.size + x.missing := by
  induction bytes generalizing q with
  | nil =>
    cases q with
    | none => exact fun x mem => nomatch mem
    | some p => exact List.forall_mem_singleton.mpr (broken_shown _ (sound p rfl).size_le)
  | cons b bytes ih =>
    have split : run q (b :: bytes) = (step q b).1 ++ run (step q b).2 bytes := by cases q <;> rfl
    rw [split, List.forall_mem_append]
    refine ⟨?_, ih (step_sizes sound).2⟩
    cases q with
    | none => exact first_short b
    | some p =>
      rw [step]
      split
      · dsimp only
        split
        · exact List.forall_mem_singleton.mpr (Nat.add_zero _).symm
        · exact fun x mem => nomatch mem
      · exact List.forall_mem_cons.mpr ⟨broken_shown _ (sound p rfl).size_le, first_short b⟩

/-- The text has as many bytes as were read, and those the replacement characters have more. -/
theorem size_lossy (bytes : List UInt8) :
    ((lossy bytes).map Char.utf8Size).sum = bytes.length + shortfall bytes := by
  have each : ∀ l : List Piece, (∀ x ∈ l, x.shown.utf8Size = x.size + x.missing) →
      ((l.map Piece.shown).map Char.utf8Size).sum = total l + (l.map Piece.missing).sum := by
    intro l same
    induction l with
    | nil => rfl
    | cons x l ih =>
      obtain ⟨here, rest⟩ := List.forall_mem_cons.mp same
      have later := ih rest
      simp only [total, List.map_cons, List.sum_cons] at later ⊢
      omega
  have short : ∀ x ∈ pieces bytes, x.shown.utf8Size = x.size + x.missing := run_short allSound_none
  rw [lossy, each _ short, total_pieces, shortfall]

/-! ### What is encoded -/

/-- Reading on from `p`, these bytes give the character. -/
inductive Expects : Partial → List UInt8 → Char → Prop
  | last {p : Partial} {b : UInt8} {c : Char} (more : p.more = 1) (low : p.low ≤ b.toNat)
    (high : b.toNat ≤ p.high) (same : Char.ofNat (p.value * 64 + (b.toNat - 0x80)) = c) :
    Expects p [b] c
  | next {p : Partial} {b : UInt8} {bs : List UInt8} {c : Char} (more : p.more ≠ 1)
    (low : p.low ≤ b.toNat) (high : b.toNat ≤ p.high)
    (rest : Expects ⟨p.value * 64 + (b.toNat - 0x80), p.size + 1, p.more - 1, 0x80, 0xBF⟩ bs c) :
    Expects p (b :: bs) c

theorem Expects.run {bs : List UInt8} (expects : Expects p bs c) :
    run (some p) (bs ++ rest) = .char c :: run none rest := by
  induction expects with
  | last more low high same =>
    rw [List.singleton_append, Utf8.run, step, if_pos ⟨low, high⟩]
    dsimp only
    rw [if_pos more, same]
    rfl
  | next more low high rest ih =>
    rw [List.cons_append, Utf8.run, step, if_pos ⟨low, high⟩]
    dsimp only
    rw [if_neg more]
    exact ih

/-- Cut off before its last byte, a character is one broken sequence. -/
theorem Expects.run_cut {bs part : List UInt8} (expects : Expects p bs c) (cut : part <+: bs)
    (proper : part ≠ bs) : Utf8.run (some p) part = [.broken (p.size + part.length)] := by
  induction expects generalizing part with
  | last more low high same =>
    cases part with
    | nil => rfl
    | cons b' part =>
      obtain ⟨rfl, inside⟩ := List.cons_prefix_cons.mp cut
      rw [List.prefix_nil.mp inside] at proper
      exact absurd rfl proper
  | next more low high rest ih =>
    cases part with
    | nil => rfl
    | cons b' part =>
      obtain ⟨rfl, inside⟩ := List.cons_prefix_cons.mp cut
      rw [Utf8.run, step, if_pos ⟨low, high⟩]
      dsimp only
      rw [if_neg more, List.nil_append, ih inside fun same => proper (congrArg _ same),
        List.length_cons]
      dsimp only
      congr 2
      omega

theorem byte_toNat {n : ℕ} (small : n < 256) : (UInt8.ofNat n).toNat = n := UInt8.toNat_ofNat_of_lt' small

theorem lead_two {k : ℕ} (low : 2 ≤ k) (high : k < 0x20) :
    lead (k + 0xC0) = some ⟨k, 1, 1, 0x80, 0xBF⟩ := by
  rw [lead, if_pos (by omega), Nat.add_sub_cancel]

theorem lead_three {k : ℕ} (low : 1 ≤ k) (high : k < 0x10) (other : k ≠ 0xD) :
    lead (k + 0xE0) = some ⟨k, 1, 2, 0x80, 0xBF⟩ := by
  rw [lead, if_neg (by omega), if_neg (by omega), if_neg (by omega), if_pos (by omega),
    Nat.add_sub_cancel]

theorem lead_four {k : ℕ} (low : 1 ≤ k) (high : k < 4) :
    lead (k + 0xF0) = some ⟨k, 1, 3, 0x80, 0xBF⟩ := by
  rw [lead, if_neg (by omega), if_neg (by omega), if_neg (by omega), if_neg (by omega),
    if_neg (by omega), if_pos (by omega), Nat.add_sub_cancel]

theorem first_lead {b : UInt8} (big : 0x80 ≤ b.toNat) (read : lead b.toNat = some p) :
    first b = ([], some p) := by
  rw [first, if_neg (by omega), read]

theorem first_tail {b : UInt8} (low : 0x80 ≤ b.toNat) (high : b.toNat ≤ 0xBF) :
    first b = ([.broken 1], none) := by
  have none : lead b.toNat = none := by
    rw [lead, if_neg (by omega), if_neg (by omega), if_neg (by omega), if_neg (by omega),
      if_neg (by omega), if_neg (by omega), if_neg (by omega)]
  rw [first, if_neg (by omega), none]

/-- A byte that is not the first of its character. -/
def tailByte (v : ℕ) : UInt8 := UInt8.ofNat (v % 0x40 + 0x80)

theorem tailByte_toNat (v : ℕ) : (tailByte v).toNat = v % 0x40 + 0x80 := byte_toNat (by omega)

theorem tailByte_range (v : ℕ) : 0x80 ≤ (tailByte v).toNat ∧ (tailByte v).toNat ≤ 0xBF := by
  rw [tailByte_toNat]
  omega

theorem encodeChar_eq (c : Char) : String.utf8EncodeChar c =
    if c.toNat ≤ 0x7F then [UInt8.ofNat c.toNat]
    else if c.toNat ≤ 0x7FF then [UInt8.ofNat (c.toNat / 64 % 0x20 + 0xC0), tailByte c.toNat]
    else if c.toNat ≤ 0xFFFF then
      [UInt8.ofNat (c.toNat / 4096 % 0x10 + 0xE0), tailByte (c.toNat / 64), tailByte c.toNat]
    else [UInt8.ofNat (c.toNat / 262144 % 0x08 + 0xF0), tailByte (c.toNat / 4096),
      tailByte (c.toNat / 64), tailByte c.toNat] := rfl

theorem expects_last {v u size : ℕ} (value : v = u / 64) :
    Expects ⟨v, size, 1, 0x80, 0xBF⟩ [tailByte u] (Char.ofNat u) := by
  have range := tailByte_range u
  refine .last rfl range.1 range.2 (congrArg Char.ofNat ?_)
  dsimp only
  rw [tailByte_toNat]
  omega

theorem expects_next {v u size more low high : ℕ} {bs : List UInt8} (value : v = u / 64)
    (above : low ≤ u % 0x40 + 0x80) (under : u % 0x40 + 0x80 ≤ high)
    (rest : Expects ⟨u, size + 1, more + 1, 0x80, 0xBF⟩ bs c) :
    Expects ⟨v, size, more + 2, low, high⟩ (tailByte u :: bs) c := by
  have next : v * 64 + ((tailByte u).toNat - 0x80) = u := by
    rw [tailByte_toNat]
    omega
  refine .next (by dsimp only; omega) ?_ ?_ ?_
  · rw [tailByte_toNat]
    exact above
  · rw [tailByte_toNat]
    exact under
  · dsimp only
    rw [next]
    exact rest

/-- A first byte and the others of a character. -/
structure Several (b : UInt8) (bs : List UInt8) (c : Char) : Prop where
  high : 0x80 ≤ b.toNat
  read : ∃ p, lead b.toNat = some p ∧ Expects p bs c
  tails : ∀ t ∈ bs, 0x80 ≤ t.toNat ∧ t.toNat ≤ 0xBF

theorem tails_range (us : List ℕ) :
    ∀ t ∈ us.map tailByte, 0x80 ≤ t.toNat ∧ t.toNat ≤ 0xBF := by
  intro t mem
  obtain ⟨u, -, rfl⟩ := List.mem_map.mp mem
  exact tailByte_range u

theorem several_two {v : ℕ} (low : 0x80 ≤ v) (high : v < 0x800) :
    Several (UInt8.ofNat (v / 64 % 0x20 + 0xC0)) [tailByte v] (Char.ofNat v) := by
  have code : (UInt8.ofNat (v / 64 % 0x20 + 0xC0)).toNat = v / 64 + 0xC0 := by
    rw [byte_toNat (by omega)]
    omega
  refine ⟨by omega, ⟨⟨v / 64, 1, 1, 0x80, 0xBF⟩, ?_, expects_last rfl⟩, tails_range [v]⟩
  rw [code]
  exact lead_two (by omega) (by omega)

theorem several_three {v : ℕ} (low : 0x800 ≤ v) (high : v < 0x10000)
    (gap : v < 0xD800 ∨ 0xDFFF < v) :
    Several (UInt8.ofNat (v / 4096 % 0x10 + 0xE0)) [tailByte (v / 64), tailByte v] (Char.ofNat v) := by
  have code : (UInt8.ofNat (v / 4096 % 0x10 + 0xE0)).toNat = v / 4096 + 0xE0 := by
    rw [byte_toNat (by omega)]
    omega
  have expects {k low high : ℕ} (same : k = v / 4096) (above : low ≤ v / 64 % 0x40 + 0x80)
      (under : v / 64 % 0x40 + 0x80 ≤ high) :
      Expects ⟨k, 1, 2, low, high⟩ [tailByte (v / 64), tailByte v] (Char.ofNat v) :=
    expects_next (by omega) above under (expects_last rfl)
  refine ⟨by omega, ?_, tails_range [v / 64, v]⟩
  rw [code]
  by_cases zero : v / 4096 = 0
  · exact ⟨⟨0, 1, 2, 0xA0, 0xBF⟩, by rw [zero]; rfl, expects zero.symm (by omega) (by omega)⟩
  by_cases last : v / 4096 = 0xD
  · exact ⟨⟨0xD, 1, 2, 0x80, 0x9F⟩, by rw [last]; rfl, expects last.symm (by omega) (by omega)⟩
  · exact ⟨_, lead_three (by omega) (by omega) last, expects rfl (by omega) (by omega)⟩

theorem several_four {v : ℕ} (low : 0x10000 ≤ v) (high : v < 0x110000) :
    Several (UInt8.ofNat (v / 262144 % 0x08 + 0xF0)) [tailByte (v / 4096), tailByte (v / 64), tailByte v]
      (Char.ofNat v) := by
  have code : (UInt8.ofNat (v / 262144 % 0x08 + 0xF0)).toNat = v / 262144 + 0xF0 := by
    rw [byte_toNat (by omega)]
    omega
  have expects {k low high : ℕ} (same : k = v / 262144) (above : low ≤ v / 4096 % 0x40 + 0x80)
      (under : v / 4096 % 0x40 + 0x80 ≤ high) : Expects ⟨k, 1, 3, low, high⟩
        [tailByte (v / 4096), tailByte (v / 64), tailByte v] (Char.ofNat v) :=
    expects_next (by omega) above under
      (expects_next (by omega) (by omega) (by omega) (expects_last rfl))
  refine ⟨by omega, ?_, tails_range [v / 4096, v / 64, v]⟩
  rw [code]
  by_cases zero : v / 262144 = 0
  · exact ⟨⟨0, 1, 3, 0x90, 0xBF⟩, by rw [zero]; rfl, expects zero.symm (by omega) (by omega)⟩
  by_cases last : v / 262144 = 4
  · exact ⟨⟨4, 1, 3, 0x80, 0x8F⟩, by rw [last]; rfl, expects last.symm (by omega) (by omega)⟩
  · exact ⟨_, lead_four (by omega) (by omega), expects rfl (by omega) (by omega)⟩

/-- The bytes a character is encoded in: one that is read at once, or one after which the others
are expected. -/
theorem encodeChar_cases (c : Char) :
    (∃ b, String.utf8EncodeChar c = [b] ∧ b.toNat = c.toNat ∧ c.toNat < 0x80) ∨
    ∃ b bs, String.utf8EncodeChar c = b :: bs ∧ Several b bs c := by
  have self : Char.ofNat c.toNat = c := Char.ofNat_toNat c
  have valid : c.toNat < 0xd800 ∨ 0xdfff < c.toNat ∧ c.toNat < 0x110000 := c.valid
  rw [encodeChar_eq]
  generalize c.toNat = v at *
  subst self
  split
  case isTrue small => exact .inl ⟨_, rfl, byte_toNat (by omega), by omega⟩
  split
  case isTrue small => exact .inr ⟨_, _, rfl, several_two (by omega) (by omega)⟩
  split
  case isTrue small => exact .inr ⟨_, _, rfl, several_three (by omega) (by omega) (by omega)⟩
  case isFalse big => exact .inr ⟨_, _, rfl, several_four (by omega) (by omega)⟩

theorem run_encodeChar (c : Char) (rest : List UInt8) :
    run none (String.utf8EncodeChar c ++ rest) = .char c :: run none rest := by
  rcases encodeChar_cases c with ⟨b, bytes, code, small⟩ | ⟨b, bs, bytes, several⟩
  · rw [bytes, List.singleton_append, run, step, first, if_pos (by omega), code, Char.ofNat_toNat]
    rfl
  · obtain ⟨p, read, expects⟩ := several.read
    rw [bytes, List.cons_append, run, step, first_lead several.high read, List.nil_append, expects.run]

/-- What is encoded is read as it was. -/
theorem pieces_encode (cs : List Char) (rest : List UInt8) :
    pieces (encode cs ++ rest) = cs.map Piece.char ++ pieces rest := by
  induction cs with
  | nil => rfl
  | cons c cs ih =>
    rw [encode, List.flatMap_cons, List.append_assoc, pieces, run_encodeChar, List.map_cons,
      List.cons_append]
    exact congrArg _ ih

theorem lossy_encode (cs : List Char) : lossy (encode cs) = cs := by
  have read := pieces_encode cs []
  rw [List.append_nil] at read
  rw [lossy, read, List.map_append, List.map_map]
  exact (List.append_nil _).trans (List.map_id' cs)

theorem shortfall_encode (cs : List Char) : shortfall (encode cs) = 0 := by
  have read := pieces_encode cs []
  rw [List.append_nil] at read
  rw [shortfall, read, List.map_append, List.map_map, List.sum_append]
  exact (Nat.add_zero _).trans (List.sum_eq_zero fun n mem => by
    obtain ⟨c, -, rfl⟩ := List.mem_map.mp mem
    rfl)

end Codery.Utf8
