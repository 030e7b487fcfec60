import Mathlib.Algebra.BigOperators.Group.List.Basic
import Mathlib.Algebra.Order.Group.Int
import Mathlib.Algebra.Ring.Int.Defs
import Codery.Utf8

/-! Texts of UTF-16 units, as a decoder makes them of bytes in UTF-8 that arrive in chunks, each of
them decoded on its own. -/

namespace Codery.Utf16

open Utf8

/-- A unit for a character of the first plane, two surrogates for another one. -/
def unitsOf (c : Char) : List ℕ :=
  if c.toNat < 0x10000 then [c.toNat]
  else [0xD800 + (c.toNat - 0x10000) / 0x400, 0xDC00 + (c.toNat - 0x10000) % 0x400]

def units (cs : List Char) : List ℕ := cs.flatMap unitsOf

/-- The characters, each with its units: a byte order mark at the beginning has none. -/
def seen : List Char → List (List ℕ)
  | '\uFEFF' :: cs => [] :: cs.map unitsOf
  | cs => cs.map unitsOf

/-- A chunk as its decoder gives it: what is broken is replaced, a byte order mark left out. -/
def decode (chunk : List UInt8) : List ℕ := (seen (lossy chunk)).flatten

variable {c : Char} {cs : List Char} {bytes : List UInt8} {us : List ℕ} {images : List (List ℕ)}

theorem units_append (cs ds : List Char) : units (cs ++ ds) = units cs ++ units ds :=
  List.flatMap_append

theorem length_units_append (cs ds : List Char) :
    (units (cs ++ ds)).length = (units cs).length + (units ds).length := by
  rw [units_append, List.length_append]

theorem unitsOf_ne_nil (c : Char) : unitsOf c ≠ [] := by
  unfold unitsOf
  split <;> exact List.cons_ne_nil _ _

theorem units_ne_nil (some : cs ≠ []) : units cs ≠ [] := by
  obtain ⟨c, rest, rfl⟩ := List.exists_cons_of_ne_nil some
  rw [units, List.flatMap_cons]
  exact fun none => unitsOf_ne_nil c (List.append_eq_nil_iff.mp none).1

theorem units_small (small : ∀ c ∈ cs, c.toNat < 0x10000) : units cs = cs.map Char.toNat := by
  induction cs with
  | nil => rfl
  | cons c cs ih =>
    obtain ⟨here, rest⟩ := List.forall_mem_cons.mp small
    rw [units, List.flatMap_cons, unitsOf, if_pos here, List.map_cons, ← ih rest]
    rfl

theorem encode_cons (c : Char) (cs : List Char) :
    encode (c :: cs) = String.utf8EncodeChar c ++ encode cs := List.flatMap_cons

theorem encode_append (cs ds : List Char) : encode (cs ++ ds) = encode cs ++ encode ds :=
  List.flatMap_append

theorem flatten_encode (css : List (List Char)) : (css.map encode).flatten = encode css.flatten := by
  induction css with
  | nil => rfl
  | cons cs css ih => rw [List.map_cons, List.flatten_cons, ih, List.flatten_cons, encode_append]

theorem flatten_units (css : List (List Char)) : (css.map units).flatten = units css.flatten := by
  induction css with
  | nil => rfl
  | cons cs css ih => rw [List.map_cons, List.flatten_cons, ih, List.flatten_cons, units_append]

theorem seen_eq (plain : cs.head? ≠ some '\uFEFF') : seen cs = cs.map unitsOf := by
  unfold seen
  split
  · exact absurd rfl plain
  · rfl

/-- Whole characters that do not begin with a mark are decoded to their units. -/
theorem decode_encode (plain : cs.head? ≠ some '\uFEFF') : decode (encode cs) = units cs := by
  rw [decode, lossy_encode, seen_eq plain, units, List.flatMap_def]

/-- A character has no more units than bytes, and as many exactly when it is ASCII. -/
theorem length_unitsOf (c : Char) : (unitsOf c).length ≤ c.utf8Size ∧
    (c.utf8Size ≤ (unitsOf c).length → c.toNat < 0x80) := by
  rw [utf8Size_of_val, unitsOf]
  constructor
  · repeat' split
    all_goals simp only [List.length_cons, List.length_nil]; omega
  · repeat' split
    all_goals simp only [List.length_cons, List.length_nil]; omega

theorem length_units_le (cs : List Char) : (units cs).length ≤ (encode cs).length := by
  induction cs with
  | nil => exact Nat.le_refl 0
  | cons c cs ih =>
    have first := (length_unitsOf c).1
    rw [units, List.flatMap_cons, List.length_append, encode_cons, List.length_append,
      String.length_utf8EncodeChar]
    exact Nat.add_le_add first ih

theorem length_encode_iff (cs : List Char) :
    (encode cs).length = (units cs).length ↔ ∀ c ∈ cs, c.toNat < 0x80 := by
  induction cs with
  | nil => exact iff_of_true rfl fun _ mem => nomatch mem
  | cons c cs ih =>
    have first := length_unitsOf c
    have rest := length_units_le cs
    have split : (units (c :: cs)).length = (unitsOf c).length + (units cs).length := by
      rw [units, List.flatMap_cons, List.length_append]
      rfl
    rw [split, encode_cons, List.length_append, String.length_utf8EncodeChar, List.forall_mem_cons,
      ← ih]
    constructor
    · intro same
      exact ⟨first.2 (by omega), by omega⟩
    · rintro ⟨ascii, same⟩
      rw [same, utf8Size_of_val, if_pos ascii, unitsOf, if_pos (by omega)]
      rfl

/-! ### Chunks that are not whole characters -/

/-- What a character comes out as: itself, as replacement characters where it is cut, or as nothing
where it is taken for a mark. -/
inductive Decoded (c : Char) : List ℕ → Prop
  | whole : Decoded c (unitsOf c)
  | cut {k : ℕ} (large : 0x80 ≤ c.toNat) (several : 2 ≤ k) : Decoded c (List.replicate k 0xFFFD)
  | mark (same : c = '\uFEFF') : Decoded c []

theorem decoded_append {ds : List Char} (all : List.Forall₂ Decoded (cs ++ ds) images) :
    ∃ first rest, images = first ++ rest ∧ List.Forall₂ Decoded cs first ∧
      List.Forall₂ Decoded ds rest := by
  induction cs generalizing images with
  | nil => exact ⟨[], images, rfl, .nil, all⟩
  | cons c cs ih =>
    obtain ⟨us, images, decoded, others, rfl⟩ := List.forall₂_cons_left_iff.mp all
    obtain ⟨first, rest, rfl, here, there⟩ := ih others
    exact ⟨us :: first, rest, rfl, .cons decoded here, there⟩

/-- What is ASCII comes out as itself. -/
theorem decoded_ascii (ascii : ∀ c ∈ cs, c.toNat < 0x80) (all : List.Forall₂ Decoded cs images) :
    images = cs.map unitsOf := by
  induction all with
  | nil => rfl
  | @cons c us cs images decoded all ih =>
    obtain ⟨here, rest⟩ := List.forall_mem_cons.mp ascii
    rw [ih rest, List.map_cons]
    cases decoded with
    | whole => rfl
    | cut large several => exact absurd here (by omega)
    | mark same =>
      subst same
      exact absurd here (by decide)

/-- The replacement characters of a text, less its other units. -/
def score (us : List ℕ) : ℤ := (us.map fun u => if u = 0xFFFD then 1 else -1).sum

theorem score_append (us vs : List ℕ) : score (us ++ vs) = score us + score vs := by
  rw [score, List.map_append, List.sum_append]
  rfl

theorem score_replicate (k : ℕ) : score (List.replicate k 0xFFFD) = k := by
  induction k with
  | zero => rfl
  | succ k ih =>
    rw [List.replicate_succ, ← List.singleton_append, score_append, ih, Int.natCast_succ, Int.add_comm]
    rfl

theorem score_unitsOf (c : Char) : score (unitsOf c) ≤ 1 := by
  unfold unitsOf
  split
  · simp only [score, List.map_cons, List.map_nil, List.sum_singleton]
    split <;> decide
  · have high : 0xD800 + (c.toNat - 0x10000) / 0x400 ≠ 0xFFFD := by
      have valid : c.toNat < 0xd800 ∨ 0xdfff < c.toNat ∧ c.toNat < 0x110000 := c.valid
      omega
    have low : 0xDC00 + (c.toNat - 0x10000) % 0x400 ≠ 0xFFFD := by omega
    simp only [score, List.map_cons, List.map_nil, List.sum_cons, List.sum_nil, if_neg high,
      if_neg low]
    decide

theorem Decoded.score_le (decoded : Decoded c us) :
    score (unitsOf c) ≤ score us ∧ (score us ≤ score (unitsOf c) → us = unitsOf c) := by
  cases decoded with
  | whole => exact ⟨le_rfl, fun _ => rfl⟩
  | @cut k large several =>
    have one := score_unitsOf c
    rw [score_replicate]
    exact ⟨by omega, fun le => absurd le (by omega)⟩
  | mark same =>
    subst same
    exact ⟨by decide, fun le => absurd le (by decide)⟩

theorem images_score (all : List.Forall₂ Decoded cs images) :
    score (units cs) ≤ score images.flatten ∧
      (score images.flatten ≤ score (units cs) → images = cs.map unitsOf) := by
  induction all with
  | nil => exact ⟨le_rfl, fun _ => rfl⟩
  | @cons c us cs images image all ih =>
    have first := image.score_le
    rw [List.flatten_cons, score_append, units, List.flatMap_cons, score_append]
    change score (unitsOf c) + score (units cs) ≤ _ ∧ (_ ≤ score (unitsOf c) + score (units cs) → _)
    refine ⟨by omega, fun le => ?_⟩
    rw [first.2 (by omega), ih.2 (by omega), List.map_cons]

/-- A text that comes out as it was has every character come out as it was. -/
theorem images_whole (all : List.Forall₂ Decoded cs images) (same : images.flatten = units cs) :
    images = cs.map unitsOf :=
  (images_score all).2 (by rw [same])

theorem lossy_append (cs : List Char) (bytes : List UInt8) :
    lossy (encode cs ++ bytes) = cs ++ lossy bytes := by
  rw [lossy, pieces_encode, List.map_append, List.map_map]
  exact congrArg (· ++ _) (List.map_id' cs)

/-- A byte that no character begins with. -/
def Tail (b : UInt8) : Prop := 0x80 ≤ b.toNat ∧ b.toNat ≤ 0xBF

theorem lossy_tails {tl : List UInt8} (tails : ∀ b ∈ tl, Tail b) (bytes : List UInt8) :
    lossy (tl ++ bytes) = List.replicate tl.length '\uFFFD' ++ lossy bytes := by
  induction tl with
  | nil => rfl
  | cons b tl ih =>
    obtain ⟨tail, rest⟩ := List.forall_mem_cons.mp tails
    have read : lossy (b :: (tl ++ bytes)) = '\uFFFD' :: lossy (tl ++ bytes) := by
      rw [lossy, pieces, run, step, first_tail tail.1 tail.2]
      rfl
    rw [List.cons_append, read, ih rest, List.length_cons, List.replicate_succ, List.cons_append]

/-- A character that is cut: its beginning is replaced, and what is left are bytes that none begins
with. -/
theorem lossy_cut {h tl : List UInt8} (bytes : String.utf8EncodeChar c = h ++ tl) (some : h ≠ [])
    (more : tl ≠ []) : lossy h = ['\uFFFD'] ∧ (∀ b ∈ tl, Tail b) ∧ 0x80 ≤ c.toNat := by
  obtain ⟨b, part, rfl⟩ := List.exists_cons_of_ne_nil some
  rcases encodeChar_cases c with ⟨b', single, -, -⟩ | ⟨b', bs, all, several⟩
  · rw [single, List.cons_append, List.cons.injEq] at bytes
    exact absurd (List.append_eq_nil_iff.mp bytes.2.symm).2 more
  · rw [all, List.cons_append, List.cons.injEq] at bytes
    obtain ⟨rfl, rfl⟩ := bytes
    obtain ⟨p, read, expects⟩ := several.read
    refine ⟨?_, fun t mem => several.tails t (List.mem_append_right _ mem), ?_⟩
    · have proper : part ≠ part ++ tl := fun same => more (List.self_eq_append_right.mp same)
      rw [lossy, pieces, run, step, first_lead several.high read, List.nil_append,
        expects.run_cut (List.prefix_append ..) proper]
      rfl
    · by_contra small
      have one : String.utf8EncodeChar c = [UInt8.ofNat c.toNat] := by
        rw [encodeChar_eq, if_pos (by omega)]
      rw [one, List.cons.injEq] at all
      exact more (List.append_eq_nil_iff.mp all.2.symm).2

/-- A beginning of an encoded text ends between two characters, or in one. -/
theorem encode_split {chunk rest : List UInt8} (same : chunk ++ rest = encode cs) :
    (∃ done more, cs = done ++ more ∧ chunk = encode done ∧ rest = encode more) ∨
    ∃ done c more h tl, cs = done ++ c :: more ∧ chunk = encode done ++ h ∧ rest = tl ++ encode more ∧
      String.utf8EncodeChar c = h ++ tl ∧ h ≠ [] ∧ tl ≠ [] := by
  induction cs generalizing chunk with
  | nil =>
    obtain ⟨rfl, rfl⟩ := List.append_eq_nil_iff.mp same
    exact .inl ⟨[], [], rfl, rfl, rfl⟩
  | cons c cs ih =>
    rw [encode_cons] at same
    rcases List.append_eq_append_iff.mp same with ⟨tl, whole, rfl⟩ | ⟨next, rfl, later⟩
    · by_cases none : chunk = []
      · subst none
        refine .inl ⟨[], c :: cs, rfl, rfl, ?_⟩
        rw [encode_cons, whole]
        rfl
      · by_cases all : tl = []
        · subst all
          refine .inl ⟨[c], cs, rfl, ?_, rfl⟩
          rw [encode, List.flatMap_singleton, whole, List.append_nil]
        · exact .inr ⟨[], c, cs, chunk, tl, rfl, rfl, rfl, whole, none, all⟩
    · rcases ih later.symm with ⟨done, more, rfl, rfl, rfl⟩ | ⟨done, d, more, h, tl, rfl, rfl, rfl, cut⟩
      · exact .inl ⟨c :: done, more, rfl, (encode_cons c done).symm, rfl⟩
      · exact .inr ⟨c :: done, d, more, h, tl, rfl, by rw [encode_cons, List.append_assoc], rfl, cut⟩

theorem unitsOf_images (cs : List Char) : List.Forall₂ Decoded cs (cs.map unitsOf) := by
  rw [List.forall₂_map_right_iff, List.forall₂_same]
  exact fun c _ => .whole

theorem seen_images (cs : List Char) : List.Forall₂ Decoded cs (seen cs) := by
  unfold seen
  split
  · exact .cons (.mark rfl) (unitsOf_images _)
  · exact unitsOf_images cs

theorem plain_of_seen (same : seen cs = cs.map unitsOf) : cs.head? ≠ some '\uFEFF' := by
  intro mark
  obtain ⟨rest, rfl⟩ := List.head?_eq_some_iff.mp mark
  rw [seen, List.map_cons, List.cons.injEq] at same
  exact absurd same.1 (by decide)

theorem seen_cut (cs : List Char) : seen (cs ++ ['\uFFFD']) = seen cs ++ [[0xFFFD]] := by
  cases cs with
  | nil => rfl
  | cons c cs =>
    by_cases mark : c = '\uFEFF'
    · subst mark
      rw [List.cons_append, seen, seen, List.map_append, List.cons_append]
      rfl
    · have plain (ds : List Char) : (c :: ds).head? ≠ some '\uFEFF' := fun same =>
        mark (Option.some.inj same)
      rw [List.cons_append, seen_eq (plain _), seen_eq (plain _), ← List.cons_append, List.map_append]
      rfl

/-- Behind bytes that no character begins with, nothing is taken for a mark. -/
theorem decode_tails {tl : List UInt8} (tails : ∀ b ∈ tl, Tail b) (some : tl ≠ [])
    (bytes : List UInt8) : decode (tl ++ bytes) = List.replicate tl.length 0xFFFD ++ ((lossy bytes).map unitsOf).flatten := by
  obtain ⟨b, rest, rfl⟩ := List.exists_cons_of_ne_nil some
  have broken (k : ℕ) :
      ((List.replicate k '\uFFFD').map unitsOf).flatten = List.replicate k 0xFFFD := by
    rw [List.map_replicate, show unitsOf '\uFFFD' = [0xFFFD] from by decide,
      List.flatten_replicate_singleton]
  rw [decode, lossy_tails tails, seen_eq (by simp [List.replicate_succ]), List.map_append,
    List.flatten_append, broken]

/-- The chunks hold whole characters, and none begins with a mark. -/
def Whole (chunks : List (List UInt8)) : Prop :=
  ∃ css : List (List Char), chunks = css.map encode ∧ ∀ part ∈ css, part.head? ≠ some '\uFEFF'

theorem Whole.cons {chunks : List (List UInt8)} (plain : cs.head? ≠ some '\uFEFF')
    (whole : Whole chunks) :
    Whole (encode cs :: chunks) := by
  obtain ⟨css, rfl, others⟩ := whole
  exact ⟨cs :: css, rfl, List.forall_mem_cons.mpr ⟨plain, others⟩⟩

/-- What comes out of a chunk behind the rest of a character that was cut. -/
theorem decode_behind {tl : List UInt8} (tails : ∀ b ∈ tl, Tail b) (bytes : List UInt8) :
    ∃ shown, decode (tl ++ bytes) = List.replicate tl.length 0xFFFD ++ (shown (lossy bytes)).flatten ∧
      (∀ cs, List.Forall₂ Decoded cs (shown cs)) ∧
      (∀ cs, shown (cs ++ ['\uFFFD']) = shown cs ++ [[0xFFFD]]) ∧
      (tl = [] → shown = seen) := by
  by_cases none : tl = []
  · subst none
    exact ⟨seen, rfl, seen_images, seen_cut, fun _ => rfl⟩
  · refine ⟨List.map unitsOf, decode_tails tails none bytes, unitsOf_images, fun cs => ?_,
      fun absurd => (none absurd).elim⟩
    rw [List.map_append]
    rfl

/-- What chunks of an encoded text are decoded to: every character comes out in one of the ways it
can, and where each comes out as itself, the chunks are whole.  `tl` is what is left of a character
that the chunks before have cut. -/
theorem decode_chunks {chunks : List (List UInt8)} {tl : List UInt8} (tails : ∀ b ∈ tl, Tail b)
    (arrived : chunks.flatten = tl ++ encode cs) :
    ∃ images, List.Forall₂ Decoded cs images ∧
      (chunks.map decode).flatten = List.replicate tl.length 0xFFFD ++ images.flatten ∧
      (tl = [] → images = cs.map unitsOf → Whole chunks) := by
  induction chunks generalizing tl cs with
  | nil =>
    obtain ⟨rfl, none⟩ := List.append_eq_nil_iff.mp arrived.symm
    have empty : cs = [] := by
      rw [← lossy_encode cs, none]
      rfl
    subst empty
    exact ⟨[], .nil, rfl, fun _ _ => ⟨[], rfl, fun _ mem => nomatch mem⟩⟩
  | cons chunk chunks ih =>
    rw [List.flatten_cons] at arrived
    rw [List.map_cons, List.flatten_cons]
    rcases List.append_eq_append_iff.mp arrived with ⟨tl, rfl, later⟩ | ⟨bytes, rfl, encoded⟩
    · -- The chunk ends before the character does.
      obtain ⟨here, there⟩ := List.forall_mem_append.mp tails
      obtain ⟨images, all, rest, whole⟩ := ih there later
      obtain ⟨shown, read, each, -, -⟩ := decode_behind here []
      have none : shown (lossy []) = [] := List.forall₂_nil_left_iff.mp (each [])
      rw [List.append_nil, none] at read
      refine ⟨images, all, ?_, fun empty same => ?_⟩
      · rw [read, rest, List.flatten_nil, List.append_nil, ← List.append_assoc,
          List.replicate_append_replicate, List.length_append]
      · obtain ⟨rfl, rfl⟩ := List.append_eq_nil_iff.mp empty
        have plain : ([] : List Char).head? ≠ some '\uFEFF' := fun mark => nomatch mark
        exact .cons plain (whole rfl same)
    obtain ⟨shown, read, each, broken, first⟩ := decode_behind tails bytes
    rcases encode_split encoded.symm with ⟨done, more, rfl, rfl, later⟩ |
      ⟨done, c, more, h, tl', rfl, rfl, later, bytes, some, others⟩
    · -- It ends between two characters.
      have later' : chunks.flatten = [] ++ encode more := later
      obtain ⟨images, all, rest, whole⟩ := ih (List.forall_mem_nil _) later'
      rw [lossy_encode] at read
      refine ⟨shown done ++ images, List.rel_append (each done) all, ?_, fun empty same => ?_⟩
      · rw [read, rest, List.flatten_append, List.append_assoc]
        rfl
      · subst empty
        rw [first rfl, List.map_append] at same
        obtain ⟨here, there⟩ := List.append_inj same (by
          rw [← (seen_images done).length_eq, List.length_map])
        exact .cons (plain_of_seen here) (whole rfl there)
    · -- It ends in a character.
      obtain ⟨replaced, tails', large⟩ := lossy_cut bytes some others
      obtain ⟨images, all, rest, -⟩ := ih tails' later
      have several : 2 ≤ 1 + tl'.length := by
        have pos := List.length_pos_iff.mpr others
        omega
      rw [lossy_append, replaced, broken] at read
      refine ⟨shown done ++ List.replicate (1 + tl'.length) 0xFFFD :: images,
        List.rel_append (each done) (.cons (.cut large several) all), ?_, fun empty same => ?_⟩
      · rw [read, rest, ← List.replicate_append_replicate]
        simp only [List.flatten_append, List.flatten_cons, List.flatten_nil, List.append_nil,
          List.append_assoc, List.replicate_one]
      · rw [List.map_append] at same
        obtain ⟨-, there⟩ := List.append_inj same (by
          rw [← (each done).length_eq, List.length_map])
        obtain ⟨cut, -⟩ := List.cons.inj there
        have one := score_unitsOf c
        rw [← cut, score_replicate] at one
        omega

end Codery.Utf16
