import Codery.StdioTurns

/-! What the server of `github-app-permissions-mcp.ts` is given of the messages that a client sends,
for all their framings and however their bytes are cut into chunks. -/

namespace Codery.Stdio

open Utf8 Utf16

inductive Framing
  | framed
  | line
  deriving DecidableEq

/-- A message of JSON-RPC as it is written, without blanks around it. -/
structure Message where
  framing : Framing
  text : List Char
  enclosed : Enclosed (units text)
  oneLine : framing = .line → '\n' ∉ text

/-- The line of a header, which tells how many bytes the text has. -/
def Message.lengthLine (m : Message) : List Char :=
  "Content-Length: ".toList ++ Nat.toDigits 10 (encode m.text).length

def Message.sent (m : Message) : List Char :=
  match m.framing with
  | .framed => m.lengthLine ++ (['\r', '\n', '\r', '\n'] ++ m.text)
  | .line => m.text ++ ['\n']

def stream (ms : List Message) : List Char := ms.flatMap Message.sent

/-- After some chunk, what has arrived is `cs`. -/
def Reached (css : List (List Char)) (cs : List Char) : Prop := ∃ a b, css = a ++ b ∧ a.flatten = cs

/-- When the messages are read: framed ones are ASCII, no chunk ends in the blank line behind a header,
and where a header follows a line, a chunk ends between the two. -/
structure Readable (ms : List Message) (css : List (List Char)) : Prop where
  ascii : ∀ m ∈ ms, m.framing = .framed → ∀ c ∈ m.text, c.toNat < 0x80
  headers : ∀ before m after, ms = before ++ m :: after → m.framing = .framed →
    ¬ Reached css (stream before ++ (m.lengthLine ++ ['\r', '\n'])) ∧
      ¬ Reached css (stream before ++ (m.lengthLine ++ ['\r', '\n', '\r']))
  apart : ∀ before l m after, ms = before ++ l :: m :: after → l.framing = .line →
    m.framing = .framed →
      ∃ part, part <+: m.lengthLine ++ ['\r'] ∧ Reached css (stream (before ++ [l]) ++ part)

variable {m l : Message} {ms before after : List Message} {cs : List Char} {css : List (List Char)}
  {chunks : List (List UInt8)} {images : List (List ℕ)}

theorem stream_append (xs ys : List Message) : stream (xs ++ ys) = stream xs ++ stream ys :=
  List.flatMap_append

theorem stream_cons (m : Message) (after : List Message) :
    stream (m :: after) = m.sent ++ stream after :=
  List.flatMap_cons

theorem units_lengthLine (m : Message) : units m.lengthLine = lengthLine (encode m.text).length :=
  units_append ..

theorem lf_units (absent : '\n' ∉ cs) : 10 ∉ units cs := by
  intro mem
  obtain ⟨c, inside, unit⟩ := List.mem_flatMap.mp mem
  refine absent ?_
  have valid : c.toNat < 0xd800 ∨ 0xdfff < c.toNat ∧ c.toNat < 0x110000 := c.valid
  unfold unitsOf at unit
  split at unit
  · rwa [← Char.toNat_inj.mp (show c.toNat = '\n'.toNat from (List.mem_singleton.mp unit).symm)]
  · simp only [List.mem_cons, List.not_mem_nil, or_false] at unit
    omega

/-- The number in its header, if it has one. -/
def Message.length (m : Message) : Option ℕ :=
  match m.framing with
  | .framed => some (encode m.text).length
  | .line => none

theorem length_framed (framed : m.framing = .framed) : m.length = some (encode m.text).length := by
  rw [Message.length, framed]

theorem length_line (line : m.framing = .line) : m.length = none := by
  rw [Message.length, line]

theorem framing_of_some {n : ℕ} (length : m.length = some n) :
    m.framing = .framed ∧ n = (encode m.text).length := by
  cases framing : m.framing with
  | framed => exact ⟨rfl, Option.some.inj (length.symm.trans (length_framed framing))⟩
  | line => cases length.symm.trans (length_line framing)

theorem framing_of_none (length : m.length = none) : m.framing = .line := by
  cases framing : m.framing with
  | framed => cases length.symm.trans (length_framed framing)
  | line => rfl

/-- A message that arrives as it was sent. -/
def Message.item (m : Message) : Item where
  length := m.length
  text := units m.text
  enclosed := m.enclosed
  oneLine none := lf_units (m.oneLine (framing_of_none none))

theorem item_sent (m : Message) : m.item.sent = units m.sent := by
  cases framing : m.framing with
  | framed =>
    rw [Item.sent, show m.item.length = _ from length_framed framing, Message.sent, framing,
      units_append, units_append, units_lengthLine]
    rfl
  | line =>
    rw [Item.sent, show m.item.length = _ from length_line framing, Message.sent, framing, units_append]
    rfl

theorem sent_items (ms : List Message) : sent (ms.map Message.item) = units (stream ms) := by
  induction ms with
  | nil => rfl
  | cons m ms ih => rw [List.map_cons, sent_cons, ih, item_sent, stream_cons, units_append]

/-- A framed message has as many units as bytes exactly when it is ASCII. -/
theorem sized_iff (m : Message) :
    (encode m.text).length = m.item.text.length ↔ ∀ c ∈ m.text, c.toNat < 0x80 :=
  length_encode_iff m.text

/-! ### The ends of the chunks -/

/-- Of two ends of a text, the one with more units begins no later. -/
theorem ends {a b c d : List Char} (same : a ++ b = c ++ d) (le : (units d).length ≤ (units b).length) :
    ∃ x, c = a ++ x ∧ b = x ++ d := by
  rcases List.append_eq_append_iff.mp same with ⟨x, split, split'⟩ | ⟨x, split, split'⟩
  · exact ⟨x, split, split'⟩
  · rw [split', length_units_append] at le
    have none : x = [] := by
      by_contra some
      have pos := List.length_pos_iff.mpr (units_ne_nil some)
      omega
    subst none
    exact ⟨[], by rw [split, List.append_nil, List.append_nil], split'.symm⟩

theorem pending_units {k : ℕ} : Pending (css.map units) k ↔
    ∃ a b, css = a ++ b ∧ (units b.flatten).length = k := by
  constructor
  · rintro ⟨a, b, same, rfl⟩
    obtain ⟨a, b, rfl, rfl, rfl⟩ := List.map_eq_append_iff.mp same
    exact ⟨a, b, rfl, by rw [flatten_units]⟩
  · rintro ⟨a, b, rfl, rfl⟩
    exact ⟨a.map units, b.map units, List.map_append, by rw [flatten_units]⟩

theorem reached_iff {ds : List Char} (whole : css.flatten = cs ++ ds) :
    Reached css cs ↔ Pending (css.map units) (units ds).length := by
  rw [pending_units]
  constructor
  · rintro ⟨a, b, rfl, rfl⟩
    rw [List.flatten_append] at whole
    exact ⟨a, b, rfl, by rw [List.append_cancel_left whole]⟩
  · rintro ⟨a, b, rfl, size⟩
    rw [List.flatten_append] at whole
    obtain ⟨x, rfl, split⟩ := ends whole size.ge
    refine ⟨a, b, rfl, ?_⟩
    rw [split, length_units_append] at size
    by_cases none : x = []
    · rw [none, List.append_nil]
    · have pos := List.length_pos_iff.mpr (units_ne_nil none)
      omega

theorem suffix_items {i : Item} {rest : List Item} (inside : i :: rest <:+ ms.map Message.item) :
    ∃ before m after, ms = before ++ m :: after ∧ m.item = i ∧ after.map Message.item = rest := by
  obtain ⟨gone, same⟩ := inside
  obtain ⟨before, behind, rfl, -, same⟩ := List.map_eq_append_iff.mp same.symm
  obtain ⟨m, after, rfl, item, others⟩ := List.map_eq_cons_iff.mp same
  exact ⟨before, m, after, rfl, item, others⟩

theorem items_suffix (before : List Message) (m : Message) (after : List Message) :
    m.item :: after.map Message.item <:+ (before ++ m :: after).map Message.item := by
  rw [List.map_append, List.map_cons]
  exact List.suffix_append ..

theorem length_behind (m : Message) (after : List Message) :
    (units (m.text ++ stream after)).length =
      (m.item.text ++ sent (after.map Message.item)).length := by
  rw [units_append, sent_items]
  rfl

/-- What is sent, cut in the blank line behind a header. -/
theorem stream_framed (before : List Message) (framed : m.framing = .framed) (after : List Message)
    {cut more : List Char} (split : cut ++ more = ['\r', '\n', '\r', '\n']) :
    stream (before ++ m :: after) =
      (stream before ++ (m.lengthLine ++ cut)) ++ (more ++ (m.text ++ stream after)) := by
  rw [stream_append, stream_cons, Message.sent, framed, ← split]
  simp only [List.append_assoc]

theorem reached_header (before : List Message) (framed : m.framing = .framed) (after : List Message)
    (cut more : List Char) (split : cut ++ more = ['\r', '\n', '\r', '\n'])
    (whole : css.flatten = stream (before ++ m :: after)) :
    Reached css (stream before ++ (m.lengthLine ++ cut)) ↔ Pending (css.map units)
      ((m.item.text ++ sent (after.map Message.item)).length + (units more).length) := by
  rw [stream_framed before framed after split] at whole
  rw [reached_iff whole, length_units_append, length_behind, Nat.add_comm]

/-- A chunk ends before the first line end of a header exactly where so many units are to come. -/
theorem reached_apart (before : List Message) (framed : m.framing = .framed) (after : List Message)
    (whole : css.flatten = stream before ++ stream (m :: after)) :
    (∃ part, part <+: m.lengthLine ++ ['\r'] ∧ Reached css (stream before ++ part)) ↔
      ∃ k, Pending (css.map units) k ∧
        (m.item.text ++ sent (after.map Message.item)).length + 3 ≤ k ∧
        k ≤ (sent (m.item :: after.map Message.item)).length := by
  have split : stream (m :: after) =
      (m.lengthLine ++ ['\r']) ++ (['\n', '\r', '\n'] ++ (m.text ++ stream after)) :=
    stream_framed [] framed after rfl
  have behind : (units (['\n', '\r', '\n'] ++ (m.text ++ stream after))).length =
      (m.item.text ++ sent (after.map Message.item)).length + 3 := by
    rw [length_units_append, length_behind, Nat.add_comm]
    rfl
  have all : (sent (m.item :: after.map Message.item)).length =
      (units (stream (m :: after))).length := by
    rw [← sent_items, List.map_cons]
  rw [all, ← behind]
  constructor
  · rintro ⟨part, ⟨rest, line⟩, reached⟩
    rw [← line, List.append_assoc] at split
    rw [split, ← List.append_assoc] at whole
    refine ⟨_, (reached_iff whole).mp reached, ?_, ?_⟩
    · rw [length_units_append rest]
      omega
    · rw [split, length_units_append part]
      omega
  · rintro ⟨k, pending, low, high⟩
    obtain ⟨a, b, rfl, rfl⟩ := pending_units.mp pending
    rw [List.flatten_append] at whole
    obtain ⟨part, reached, rest⟩ := ends whole.symm high
    rw [rest] at split
    obtain ⟨x, line, -⟩ := ends split low
    exact ⟨part, ⟨x, line.symm⟩, a, b, rfl, reached⟩

/-- The units are legible exactly where the messages are readable. -/
theorem legible_iff (whole : css.flatten = stream ms) :
    Legible (ms.map Message.item) (css.map units) ↔ Readable ms css := by
  constructor
  · intro legible
    refine ⟨fun m mem framed => ?_, fun before m after split framed => ?_,
      fun before l m after split line framed => ?_⟩
    · exact (sized_iff m).mp (legible.sized m.item (List.mem_map_of_mem mem) _ (length_framed framed))
    · subst split
      have apart := legible.headers _ _ _ (items_suffix before m after) (length_framed framed)
      rw [reached_header before framed after ['\r', '\n'] ['\r', '\n'] rfl whole,
        reached_header before framed after ['\r', '\n', '\r'] ['\n'] rfl whole]
      exact ⟨fun pending => (apart _ pending).2 rfl, fun pending => (apart _ pending).1 rfl⟩
    · rw [List.append_cons] at split
      subst split
      rw [stream_append] at whole
      refine (reached_apart _ framed after whole).mpr (legible.apart l.item _ _ _ ?_
        (length_line line) (length_framed framed))
      rw [← List.append_cons]
      exact items_suffix before l (m :: after)
  · intro readable
    refine ⟨fun i mem n length => ?_, fun i rest n inside length k pending => ?_,
      fun j i rest n inside line length => ?_⟩
    · obtain ⟨m, inside, rfl⟩ := List.mem_map.mp mem
      obtain ⟨framed, rfl⟩ := framing_of_some length
      exact (sized_iff m).mpr (readable.ascii m inside framed)
    · obtain ⟨before, m, after, rfl, rfl, rfl⟩ := suffix_items inside
      obtain ⟨framed, rfl⟩ := framing_of_some length
      have apart := readable.headers before m after rfl framed
      rw [reached_header before framed after ['\r', '\n'] ['\r', '\n'] rfl whole,
        reached_header before framed after ['\r', '\n', '\r'] ['\n'] rfl whole] at apart
      exact ⟨fun same => apart.2 (same ▸ pending), fun same => apart.1 (same ▸ pending)⟩
    · obtain ⟨before, l, behind, rfl, rfl, same⟩ := suffix_items inside
      obtain ⟨m, after, rfl, rfl, rfl⟩ := List.map_eq_cons_iff.mp same
      obtain ⟨framed, rfl⟩ := framing_of_some length
      have reached := readable.apart before l m after rfl (framing_of_none line) framed
      rw [List.append_cons, stream_append] at whole
      exact (reached_apart _ framed after whole).mp reached

/-! ### Chunks that are not whole characters -/

theorem lf_images (absent : '\n' ∉ cs) (all : List.Forall₂ Decoded cs images) :
    10 ∉ images.flatten := by
  induction all with
  | nil => exact List.not_mem_nil
  | @cons c us cs images decoded all ih =>
    rw [List.mem_cons, not_or] at absent
    rw [List.flatten_cons, List.mem_append, not_or]
    refine ⟨?_, ih absent.2⟩
    cases decoded with
    | whole =>
      have plain : 10 ∉ units [c] := lf_units (by simpa using absent.1)
      rwa [units, List.flatMap_singleton] at plain
    | cut large several => simp
    | mark same => exact List.not_mem_nil

theorem ascii_header (m : Message) :
    ∀ c ∈ m.lengthLine ++ ['\r', '\n', '\r', '\n'], c.toNat < 0x80 := by
  have literal {cs : List Char} (all : cs.all (fun c => c.toNat < 0x80) = true) :
      ∀ c ∈ cs, c.toNat < 0x80 := fun c mem => by simpa using List.all_eq_true.mp all c mem
  refine List.forall_mem_append.mpr ⟨List.forall_mem_append.mpr ⟨literal (by decide), fun c mem => ?_⟩,
    literal (by decide)⟩
  have bounds := isDigit_bounds (isDigit_of_mem_toDigits mem)
  omega

/-- However its characters come out, something arrives for a message. -/
theorem message_images (all : List.Forall₂ Decoded m.sent images) : ∃ i : Item,
    images.flatten = i.sent ∧ (i.text = units m.text → images = m.sent.map unitsOf) := by
  have flat (cs : List Char) : (cs.map unitsOf).flatten = units cs := List.flatMap_def.symm
  cases framing : m.framing with
  | framed =>
    have split : m.sent = (m.lengthLine ++ ['\r', '\n', '\r', '\n']) ++ m.text := by
      rw [Message.sent, framing, List.append_assoc]
    rw [split] at all ⊢
    obtain ⟨first, rest, rfl, here, there⟩ := decoded_append all
    have header := decoded_ascii (ascii_header m) here
    subst header
    refine ⟨⟨some (encode m.text).length, rest.flatten, m.enclosed.images there,
      fun none => nomatch none⟩, ?_, fun same => ?_⟩
    · rw [List.flatten_append, flat, units_append, units_lengthLine, List.append_assoc]
      rfl
    · rw [images_whole there same, ← List.map_append]
  | line =>
    have split : m.sent = m.text ++ ['\n'] := by rw [Message.sent, framing]
    rw [split] at all ⊢
    obtain ⟨first, rest, rfl, here, there⟩ := decoded_append all
    have ending := decoded_ascii (List.forall_mem_singleton.mpr (by decide)) there
    subst ending
    refine ⟨⟨none, first.flatten, m.enclosed.images here, fun _ => lf_images (m.oneLine framing) here⟩,
      ?_, fun same => ?_⟩
    · rw [List.flatten_append]
      rfl
    · rw [images_whole here same, List.map_append]

theorem stream_images (all : List.Forall₂ Decoded (stream ms) images) : ∃ items : List Item,
    images.flatten = sent items ∧ items.length = ms.length ∧
      (items.map Item.text = ms.map (fun m => units m.text) → images = (stream ms).map unitsOf) := by
  induction ms generalizing images with
  | nil =>
    obtain rfl := List.forall₂_nil_left_iff.mp all
    exact ⟨[], rfl, rfl, fun _ => rfl⟩
  | cons m ms ih =>
    rw [stream_cons] at all ⊢
    obtain ⟨first, rest, rfl, here, there⟩ := decoded_append all
    obtain ⟨i, arrived, same⟩ := message_images here
    obtain ⟨items, arrived', size, same'⟩ := ih there
    refine ⟨i :: items, ?_, ?_, fun texts => ?_⟩
    · rw [List.flatten_append, arrived, arrived', sent_cons]
    · rw [List.length_cons, size, List.length_cons]
    · obtain ⟨text, texts⟩ := List.cons.inj texts
      rw [same text, same' texts, List.map_append]

/-- If all messages are received, the chunks are whole characters. -/
theorem whole_of_received (arrived : chunks.flatten = encode (stream ms))
    (all : received chunks = ms.map fun m => units m.text) : Whole chunks := by
  have arrived' : chunks.flatten = [] ++ encode (stream ms) := arrived
  obtain ⟨images, decoded, texts, whole⟩ := decode_chunks (List.forall_mem_nil _) arrived'
  obtain ⟨items, split, size, same⟩ := stream_images decoded
  have enclosed : ∀ m ∈ received chunks, Enclosed m := by
    rw [all]
    intro text mem
    obtain ⟨m, -, rfl⟩ := List.mem_map.mp mem
    exact m.enclosed
  have read : received chunks = items.map Item.text :=
    readTexts_eq (texts.trans split) enclosed (by
      rw [← received, all, List.length_map, size])
  exact whole rfl (same (read.symm.trans all))

/-- The messages are received, as they are and in their order, exactly where every chunk is of whole
characters, begins with no byte order mark, and all messages are readable. -/
theorem received_iff (ms : List Message) (chunks : List (List UInt8))
    (arrived : chunks.flatten = encode (stream ms)) :
    received chunks = ms.map (fun m => units m.text) ↔ ∃ css : List (List Char),
      chunks = css.map encode ∧ (∀ cs ∈ css, cs.head? ≠ some '\uFEFF') ∧ Readable ms css := by
  have decoded {css : List (List Char)} (plain : ∀ cs ∈ css, cs.head? ≠ some '\uFEFF')
      (same : chunks = css.map encode) :
      received chunks = ms.map (fun m => units m.text) ↔ Readable ms css := by
    have whole : css.flatten = stream ms := by
      rw [← lossy_encode css.flatten, ← lossy_encode (stream ms), ← arrived, same, flatten_encode]
    have texts : chunks.map decode = css.map units := by
      rw [same, List.map_map]
      exact List.map_congr_left fun cs mem => decode_encode (plain cs mem)
    have arrived' : (css.map units).flatten = sent (ms.map Message.item) := by
      rw [sent_items, ← whole, flatten_units]
    have items : (ms.map Message.item).map Item.text = ms.map fun m => units m.text := List.map_map
    rw [received, texts, ← items, readTexts_iff arrived', legible_iff whole]
  constructor
  · intro all
    obtain ⟨css, same, plain⟩ := whole_of_received arrived all
    exact ⟨css, same, plain, (decoded plain same).mp all⟩
  · rintro ⟨css, same, plain, readable⟩
    exact (decoded plain same).mpr readable

/-- A line that is in the buffer with the header behind it is dropped. -/
example : received [encode "\x7b\x7d\nContent-Length: 2\r\n\r\n[]".toList] = [units ['[', ']']] := by
  decide +kernel

/-- A notification in a frame. -/
def notified : Message :=
  ⟨.framed, "\x7b\"jsonrpc\":\"2.0\",\"method\":\"e\"\x7d".toList, by decide, fun line => nomatch line⟩

/-- Its header is cut, and it is received. -/
theorem received_iff_notified : ∃ css : List (List Char),
    [(encode (stream [notified])).take 9, (encode (stream [notified])).drop 9] = css.map encode ∧
      (∀ cs ∈ css, cs.head? ≠ some '\uFEFF') ∧ Readable [notified] css :=
  (received_iff [notified] _ (by decide +kernel)).mp (by decide +kernel)

/-- The same, with a letter that has two bytes and one unit. -/
def accented : Message :=
  ⟨.framed, "\x7b\"jsonrpc\":\"2.0\",\"method\":\"\u00e9\"\x7d".toList, by decide,
    fun line => nomatch line⟩

/-- Its header tells one unit more than it has, and the loop waits for it. -/
theorem message_waits : ¬ ∀ (ms : List Message) (chunks : List (List UInt8)),
    chunks.flatten = encode (stream ms) → received chunks = ms.map fun m => units m.text := by
  intro all
  have none : received [encode (stream [accented])] = [] := by decide +kernel
  have one := all [accented] [encode (stream [accented])] (List.append_nil _)
  rw [none] at one
  cases one

end Codery.Stdio
