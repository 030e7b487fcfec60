import Codery.StdioLoop

/-! What the turns of the read loop take out of a buffer that holds the beginning of what is sent. -/

namespace Codery.Stdio

open Utf16

variable {items after stay : List Item} {i l : Item} {n : ℕ} {us buf future left : List ℕ}
  {messages texts : List (List ℕ)}

theorem sent_append (xs ys : List Item) : sent (xs ++ ys) = sent xs ++ sent ys := List.flatMap_append

theorem sent_cons (i : Item) (after : List Item) : sent (i :: after) = i.sent ++ sent after :=
  List.flatMap_cons

theorem sent_framed (framed : i.length = some n) (after : List Item) :
    sent (i :: after) = lengthLine n ++ (blankLine ++ (i.text ++ sent after)) := by
  rw [sent_cons, Item.sent, framed]
  simp only [List.append_assoc]

theorem sent_line (line : i.length = none) (after : List Item) :
    sent (i :: after) = i.text ++ 10 :: sent after := by
  rw [sent_cons, Item.sent, line, List.append_assoc]
  rfl

theorem length_sent_framed (framed : i.length = some n) (after : List Item) :
    (sent (i :: after)).length = (lengthLine n).length + 4 + (i.text ++ sent after).length := by
  rw [sent_framed framed, List.length_append, List.length_append, show blankLine.length = 4 from rfl]
  omega

theorem length_sent_line (line : i.length = none) (after : List Item) :
    (sent (i :: after)).length = i.text.length + 1 + (sent after).length := by
  rw [sent_line line, List.length_append, List.length_cons]
  omega

/-- Every message adds to what is sent. -/
theorem length_sent_cons (i : Item) (after : List Item) :
    (sent after).length < (sent (i :: after)).length := by
  cases length : i.length with
  | none =>
    rw [length_sent_line length]
    omega
  | some n =>
    rw [length_sent_framed length, List.length_append]
    omega

theorem length_sent_suffix (suffix : stay <:+ items) : (sent stay).length ≤ (sent items).length := by
  obtain ⟨gone, rfl⟩ := suffix
  rw [sent_append, List.length_append]
  omega

/-- Two ends of what is sent that both begin with a message: the same, or one is past the other. -/
theorem suffix_cases {j : Item} {after' : List Item} (one : i :: after <:+ items)
    (other : j :: after' <:+ items) :
    i = j ∧ after = after' ∨ i :: after <:+ after' ∨ j :: after' <:+ after := by
  rcases List.suffix_or_suffix_of_suffix one other with inside | inside
  · rcases List.suffix_cons_iff.mp inside with same | inside
    · exact .inl (List.cons.inj same)
    · exact .inr (.inl inside)
  · rcases List.suffix_cons_iff.mp inside with same | inside
    · exact .inl ⟨(List.cons.inj same).1.symm, (List.cons.inj same).2.symm⟩
    · exact .inr (.inr inside)

theorem Item.not_cr (i : Item) : ¬ [13] <:+ i.text := by
  obtain ⟨vs, u, same, last⟩ := i.enclosed.last
  rintro ⟨ws, ends⟩
  rw [same] at ends
  have cr : u = 13 := (List.cons.inj (List.append_inj' ends rfl).2).1.symm
  omega

theorem lf_lengthLine (n : ℕ) : 10 ∉ lengthLine n := by
  simp [lengthLine, contentLength_eq, not_digit_lf (isDigit_units n)]

/-- Two beginnings of one text: the first ends in the second, or goes on behind it. -/
theorem beginnings {a b c d : List ℕ} (same : a ++ b = c ++ d) :
    (∃ inner u, c = a ++ inner ++ [u]) ∨ ∃ rest, a = c ++ rest ∧ rest ++ b = d := by
  rcases List.append_eq_append_iff.mp same with ⟨rest, rfl, rfl⟩ | ⟨rest, rfl, rfl⟩
  · rcases List.eq_nil_or_concat' rest with rfl | ⟨inner, u, rfl⟩
    · exact .inr ⟨[], by rw [List.append_nil, List.append_nil], rfl⟩
    · exact .inl ⟨inner, u, (List.append_assoc ..).symm⟩
  · exact .inr ⟨rest, rfl, rfl⟩

/-- A header is found when its last line end is there. -/
theorem findHeader_part {part inner : List ℕ} {u : ℕ}
    (split : lengthLine n ++ blankLine = part ++ inner ++ [u]) : findHeader part = none := by
  have start : part ++ inner = lengthLine n ++ [13, 10, 13] := by
    rw [show blankLine = [13, 10, 13] ++ [10] from rfl, ← List.append_assoc] at split
    exact (List.append_inj' split rfl).1.symm
  have one : (part ++ inner).count 10 = 1 := by
    rw [start, List.count_append, List.count_eq_zero.mpr (lf_lengthLine n)]
    rfl
  rw [List.count_append] at one
  exact findHeader_none (by omega)

theorem findHeader_item (line : i.length = none) : findHeader (i.text ++ 10 :: buf) = findHeader buf :=
  findHeader_line (i.oneLine line) i.not_cr

/-- Where a header is found: it is the first one that is sent. -/
theorem find_cases (arrived : buf ++ future = sent items) : findHeader buf = none ∨
    ∃ lines i after n rest, items = lines ++ i :: after ∧ (∀ l ∈ lines, l.length = none) ∧
      i.length = some n ∧ findHeader buf = some (n, rest) ∧ rest ++ future = i.text ++ sent after := by
  induction items generalizing buf with
  | nil =>
    obtain ⟨rfl, -⟩ := List.append_eq_nil_iff.mp arrived
    exact .inl rfl
  | cons i items ih =>
    cases length : i.length with
    | none =>
      rw [sent_line length, ← List.singleton_append, ← List.append_assoc] at arrived
      rcases beginnings arrived with ⟨inner, u, split⟩ | ⟨rest, rfl, more⟩
      · have text : i.text = buf ++ inner := (List.append_inj' split rfl).1
        have few := List.count_eq_zero.mpr (i.oneLine length)
        rw [text, List.count_append] at few
        exact .inl (findHeader_none (by omega))
      · rw [List.append_assoc, List.singleton_append, findHeader_item length]
        rcases ih more with none | ⟨lines, j, after, n, body, rfl, all, header, found, more⟩
        · exact .inl none
        · exact .inr ⟨i :: lines, j, after, n, body, rfl, List.forall_mem_cons.mpr ⟨length, all⟩,
            header, found, more⟩
    | some n =>
      rw [sent_framed length, ← List.append_assoc] at arrived
      rcases beginnings arrived with ⟨inner, u, split⟩ | ⟨rest, rfl, more⟩
      · exact .inl (findHeader_part split)
      · rw [List.append_assoc]
        exact .inr ⟨[], i, items, n, rest, rfl, fun _ mem => (nomatch mem), length,
          findHeader_lengthLine n rest, more⟩

/-- What a turn can be, when the buffer and what is to come make what is sent. -/
inductive Turn (items : List Item) (buf future : List ℕ) : Option (Option (List ℕ) × List ℕ) → Prop
  | quiet (unbroken : 10 ∉ buf) : Turn items buf future none
  | waiting {lines after : List Item} {i : Item} {n : ℕ} {rest : List ℕ}
    (split : items = lines ++ i :: after) (plain : ∀ l ∈ lines, l.length = none)
    (header : i.length = some n) (more : rest ++ future = i.text ++ sent after)
    (less : rest.length < n) :
    Turn items buf future none
  | stray {message left : List ℕ} {i : Item} {after : List Item} {n : ℕ} (other : ¬ Enclosed message)
    (inside : i :: after <:+ items) (header : i.length = some n)
    (fault : n ≠ i.text.length ∨ future.length = (i.text ++ sent after).length + 1 ∨
      future.length = (i.text ++ sent after).length + 2) :
    Turn items buf future (some (some message, left))
  | framed {lines after : List Item} {i : Item} {left : List ℕ} (split : items = lines ++ i :: after)
    (plain : ∀ l ∈ lines, l.length = none) (header : i.length = some i.text.length)
    (more : left ++ future = sent after) (found : findHeader buf ≠ none) :
    Turn items buf future (some (some i.text, left))
  | line {after : List Item} {i : Item} {left : List ℕ} (split : items = i :: after)
    (plain : i.length = none) (more : left ++ future = sent after) (unheaded : findHeader left = none) :
    Turn items buf future (some (some i.text, left))

/-- Without a header, the loop takes the first line. -/
theorem turn_broken (unheaded : findHeader buf = none) (unbroken : 10 ∉ us)
    (split : buf = us ++ 10 :: left) :
    turn buf = some (if 0 < (trim us).length then some (trim us) else none, left) := by
  have nl : buf.idxOf 10 = us.length := by
    rw [split, List.idxOf_append_of_notMem unbroken, List.idxOf_cons_self, Nat.add_zero]
  have inside : us.length < buf.length := by
    rw [split, List.length_append, List.length_cons]
    omega
  have behind : (us ++ 10 :: left).drop (us.length + 1) = left := by
    rw [← List.singleton_append, ← List.append_assoc, List.drop_left' (by simp)]
  rw [turn, unheaded]
  dsimp only
  rw [nl, if_pos inside, split, List.take_left, behind]

theorem turn_line (unheaded : findHeader buf = none) (line : i.length = none)
    (split : buf = i.text ++ 10 :: left) : turn buf = some (some i.text, left) := by
  obtain ⟨u, vs, first, -⟩ := i.enclosed.first
  have visible : 0 < i.text.length := by
    rw [first, List.length_cons]
    omega
  rw [turn_broken unheaded (i.oneLine line) split, i.enclosed.trim, if_pos visible]

theorem turn_quiet (unheaded : findHeader buf = none) (unbroken : 10 ∉ buf) : turn buf = none := by
  rw [turn, unheaded]
  dsimp only
  rw [List.idxOf_eq_length unbroken, if_neg (Nat.lt_irrefl _)]

theorem trim_first {u : ℕ} (visible : isBlank u = false) (us : List ℕ) :
    ∃ vs, trim (u :: us) = u :: vs := by
  rw [trim, List.dropWhile_cons_of_neg (by simp [visible]), List.reverse_cons, List.dropWhile_append]
  split
  · rw [List.dropWhile_cons_of_neg (by simp [visible])]
    exact ⟨[], rfl⟩
  · rw [List.reverse_append]
    exact ⟨_, rfl⟩

/-- What stands before a blank line is taken for a message. -/
theorem turn_stray (unheaded : findHeader buf = none) (split : buf = lengthLine n ++ 13 :: 10 :: left) :
    ∃ message, turn buf = some (some message, left) ∧ ¬ Enclosed message := by
  have joined : buf = (lengthLine n ++ [13]) ++ 10 :: left := by simp [split]
  have unbroken : 10 ∉ lengthLine n ++ [13] := by simp [lf_lengthLine n]
  have begins : ∃ us, lengthLine n ++ [13] = 67 :: us := ⟨_, by rw [lengthLine, contentLength_eq]; rfl⟩
  obtain ⟨us, begins⟩ := begins
  obtain ⟨vs, message⟩ := trim_first (u := 67) (by decide) us
  refine ⟨67 :: vs, ?_, fun enclosed => ?_⟩
  · rw [turn_broken unheaded unbroken joined, begins, message, if_pos (by simp)]
  · obtain ⟨u, ws, same, bracket⟩ := enclosed.first
    obtain ⟨rfl, -⟩ := List.cons.inj same
    omega

theorem turn_unheaded (arrived : buf ++ future = sent items) (unheaded : findHeader buf = none) :
    Turn items buf future (turn buf) := by
  have quiet (unbroken : 10 ∉ buf) : Turn items buf future (turn buf) := by
    rw [turn_quiet unheaded unbroken]
    exact .quiet unbroken
  cases items with
  | nil =>
    refine quiet ?_
    rw [(List.append_eq_nil_iff.mp arrived).1]
    exact List.not_mem_nil
  | cons i after =>
    cases length : i.length with
    | none =>
      rw [sent_line length, ← List.singleton_append, ← List.append_assoc] at arrived
      rcases beginnings arrived with ⟨inner, u, split⟩ | ⟨left, joined, more⟩
      · have text : i.text = buf ++ inner := (List.append_inj' split rfl).1
        exact quiet fun mem => i.oneLine length (text ▸ List.mem_append_left _ mem)
      · rw [List.append_assoc, List.singleton_append] at joined
        rw [turn_line unheaded length joined]
        refine .line rfl length more ?_
        rwa [joined, findHeader_item length] at unheaded
    | some n =>
      have size := congrArg List.length arrived
      rw [sent_framed length, ← List.append_assoc] at arrived
      rcases beginnings arrived with ⟨inner, u, split⟩ | ⟨rest, joined, -⟩
      · have start : buf ++ inner = (lengthLine n ++ [13, 10]) ++ [13] := by
          rw [show blankLine = [13, 10] ++ [13] ++ [10] from rfl, ← List.append_assoc,
            ← List.append_assoc] at split
          exact (List.append_inj' split rfl).1.symm
        rcases beginnings start with ⟨inner', u', split'⟩ | ⟨left, joined, more⟩
        · have part : lengthLine n ++ [13] = buf ++ inner' := by
            rw [show [13, 10] = [13] ++ [10] from rfl, ← List.append_assoc] at split'
            exact (List.append_inj' split' rfl).1
          refine quiet fun mem => ?_
          have whole : 10 ∈ lengthLine n ++ [13] := part ▸ List.mem_append_left _ mem
          simp [lf_lengthLine n] at whole
        · have left_length := congrArg List.length more
          have buf_length := congrArg List.length joined
          rw [List.append_assoc] at joined
          obtain ⟨message, took, other⟩ := turn_stray unheaded joined
          rw [took]
          refine .stray other (List.suffix_refl _) length (.inr ?_)
          rw [length_sent_framed length] at size
          simp only [List.length_append, List.length_cons, List.length_nil] at *
          omega
      · rw [joined, List.append_assoc, findHeader_lengthLine] at unheaded
        cases unheaded

theorem turn_cases (arrived : buf ++ future = sent items) : Turn items buf future (turn buf) := by
  rcases find_cases arrived with unheaded | ⟨lines, i, after, n, rest, rfl, all, header, found, more⟩
  · exact turn_unheaded arrived unheaded
  · rw [turn, found]
    dsimp only
    split
    next less => exact .waiting rfl all header more less
    next enough =>
      have length : (rest.take n).length = n := List.length_take_of_le (Nat.le_of_not_lt enough)
      have pre : rest.take n <+: i.text ++ sent after := by
        rw [← more]
        exact (List.take_prefix n rest).trans (List.prefix_append rest future)
      have text := List.prefix_or_prefix_of_prefix pre (List.prefix_append i.text (sent after))
      by_cases same : rest.take n = i.text
      · rw [same] at length
        rw [← length] at header
        rw [same]
        refine .framed rfl all header ?_ (by rw [found]; rintro ⟨⟩)
        have joined := List.take_append_drop n rest
        rw [same] at joined
        rw [← joined, List.append_assoc] at more
        exact List.append_cancel_left more
      · refine .stray (fun enclosed => same ?_) (List.suffix_append lines _) header (.inl ?_)
        · rcases text with short | long
          · exact enclosed.eq_of_prefix i.enclosed short
          · exact (i.enclosed.eq_of_prefix enclosed long).symm
        · rintro rfl
          rcases text with short | long
          · exact same (short.eq_of_length length)
          · exact same (long.eq_of_length length.symm).symm

/-! ### What a chunk brings -/

/-- The turns of the loop, until it breaks off. -/
inductive Drains : List ℕ → List (List ℕ) → List ℕ → Prop
  | stop {buf : List ℕ} (idle : turn buf = none) : Drains buf [] buf
  | go {buf rest left : List ℕ} {message : Option (List ℕ)} {messages : List (List ℕ)}
    (took : turn buf = some (message, rest)) (more : Drains rest messages left) :
    Drains buf (message.toList ++ messages) left

theorem turn_shorter {message : Option (List ℕ)} (took : turn buf = some (message, left)) :
    left.length < buf.length := by
  unfold turn at took
  split at took
  next n rest found =>
    obtain ⟨gone, digits, rfl, -⟩ := findHeader_some found
    split at took
    · cases took
    · cases took
      rw [contentLength_eq]
      simp only [List.length_append, List.length_cons, List.length_drop]
      omega
  · dsimp only at took
    split at took
    next inside =>
      cases took
      rw [List.length_drop]
      omega
    · cases took

theorem drainFor_drains {turns : ℕ} (enough : buf.length ≤ turns) :
    Drains buf (drainFor turns buf).1 (drainFor turns buf).2 := by
  induction turns generalizing buf with
  | zero =>
    rw [List.eq_nil_of_length_eq_zero (Nat.le_zero.mp enough)]
    exact .stop rfl
  | succ turns ih =>
    rw [drainFor]
    split
    next idle => exact .stop idle
    next message rest took =>
      have shorter := turn_shorter took
      exact .go took (ih (by omega))

theorem drain_drains (buf : List ℕ) : Drains buf (drain buf).1 (drain buf).2 := drainFor_drains le_rfl

theorem Drains.idle (drains : Drains buf messages left) : turn left = none := by
  induction drains with
  | stop idle => exact idle
  | go _ _ ih => exact ih

/-- What the messages of a chunk are when none is lost: first framed ones, then lines, behind which
the buffer has no header. -/
structure Ordered (gone : List Item) (left : List ℕ) : Prop where
  sized : ∀ i ∈ gone, ∀ n, i.length = some n → n = i.text.length
  ordered : ∃ framed lines, gone = framed ++ lines ∧ (∀ i ∈ framed, i.length ≠ none) ∧
    (∀ i ∈ lines, i.length = none) ∧ (lines ≠ [] → findHeader left = none)

theorem Ordered.framed {gone : List Item} (ordered : Ordered gone left)
    (header : i.length = some i.text.length) : Ordered (i :: gone) left where
  sized := List.forall_mem_cons.mpr
    ⟨fun n other => Option.some.inj (other.symm.trans header), ordered.sized⟩
  ordered := by
    obtain ⟨framed, lines, rfl, all, plain, last⟩ := ordered.ordered
    refine ⟨i :: framed, lines, rfl, List.forall_mem_cons.mpr ⟨?_, all⟩, plain, last⟩
    rw [header]
    rintro ⟨⟩

/-- Behind a line, there are only lines. -/
theorem Ordered.behind {gone before inner : List Item} (ordered : Ordered gone left)
    (split : gone = before ++ l :: inner) (line : l.length = none) :
    (∀ i ∈ inner, i.length = none) ∧ findHeader left = none := by
  obtain ⟨framed, lines, rfl, all, plain, last⟩ := ordered.ordered
  have rest : l :: inner <:+ lines := by
    rcases List.append_eq_append_iff.mp split with ⟨rest, -, same⟩ | ⟨rest, rfl, same⟩
    · exact same ▸ List.suffix_append rest _
    · cases rest with
      | nil => exact ⟨[], same⟩
      | cons j rest =>
        obtain ⟨rfl, -⟩ := List.cons.inj same
        exact absurd line (all l (by simp))
  refine ⟨fun i mem => plain i (rest.subset (List.mem_cons_of_mem l mem)), last ?_⟩
  rintro rfl
  cases List.suffix_nil.mp rest

/-- A chunk gives something that no message is, or messages that are sent, in their order. -/
theorem Drains.spec (drains : Drains buf messages left) (arrived : buf ++ future = sent items) :
    (∃ m ∈ messages, ¬ Enclosed m) ∨ ∃ gone stay, items = gone ++ stay ∧ left ++ future = sent stay ∧
      List.Sublist messages (gone.map Item.text) ∧
      (findHeader buf = none → (∀ i ∈ gone, i.length = none) ∧ findHeader left = none) ∧
      (messages = gone.map Item.text → Ordered gone left) := by
  induction drains generalizing items with
  | stop idle =>
    refine .inr ⟨[], items, rfl, arrived, .slnil, fun none => ⟨List.forall_mem_nil _, none⟩, fun _ => ?_⟩
    exact ⟨List.forall_mem_nil _, [], [], rfl, List.forall_mem_nil _, List.forall_mem_nil _,
      fun absurd => (absurd rfl).elim⟩
  | @go buf rest left message messages took more ih =>
    have turned := turn_cases arrived
    rw [took] at turned
    cases turned with
    | stray other => exact .inl ⟨_, by simp, other⟩
    | @framed lines after i _ split plain header next found =>
      rcases ih next with ⟨m, mem, other⟩ | ⟨gone, stay, rfl, arrived', sub, -, order⟩
      · exact .inl ⟨m, List.mem_append_right _ mem, other⟩
      · refine .inr ⟨lines ++ i :: gone, stay, by simp [split], arrived', ?_,
          fun none => absurd none found, fun same => ?_⟩
        · rw [List.map_append, List.map_cons]
          exact (sub.cons_cons _).trans (List.sublist_append_right _ _)
        · have sizes := congrArg List.length same
          have short := sub.length_le
          simp only [Option.toList_some, List.singleton_append, List.length_cons, List.length_append,
            List.length_map] at sizes short
          obtain rfl : lines = [] := List.eq_nil_of_length_eq_zero (by omega)
          exact (order (sub.eq_of_length (by rw [List.length_map]; omega))).framed header
    | @line after i _ split plain next unheaded =>
      rcases ih next with ⟨m, mem, other⟩ | ⟨gone, stay, rfl, arrived', sub, kept, order⟩
      · exact .inl ⟨m, List.mem_append_right _ mem, other⟩
      · obtain ⟨lines, none⟩ := kept unheaded
        refine .inr ⟨i :: gone, stay, split, arrived', ?_,
          fun _ => ⟨List.forall_mem_cons.mpr ⟨plain, lines⟩, none⟩, fun same => ?_⟩
        · exact sub.cons_cons _
        · have ordered := order (List.cons.inj same).2
          have unsized : ∀ n, i.length = some n → n = i.text.length := fun n header =>
            nomatch plain.symm.trans header
          exact ⟨List.forall_mem_cons.mpr ⟨unsized, ordered.sized⟩, [], i :: gone, rfl,
            List.forall_mem_nil _, List.forall_mem_cons.mpr ⟨plain, lines⟩, fun _ => none⟩

theorem readTexts_cons (buf us : List ℕ) (texts : List (List ℕ)) : ∃ messages left,
    Drains (buf ++ us) messages left ∧ readTexts buf (us :: texts) = messages ++ readTexts left texts :=
  ⟨_, _, drain_drains _, rfl⟩

theorem readTexts_spec (arrived : buf ++ texts.flatten = sent items) :
    (∃ m ∈ readTexts buf texts, ¬ Enclosed m) ∨
      List.Sublist (readTexts buf texts) (items.map Item.text) := by
  induction texts generalizing buf items with
  | nil => exact .inr (List.nil_sublist _)
  | cons us texts ih =>
    obtain ⟨messages, left, drains, read⟩ := readTexts_cons buf us texts
    rw [List.flatten_cons, ← List.append_assoc] at arrived
    rw [read]
    rcases drains.spec arrived with ⟨m, mem, other⟩ | ⟨gone, stay, rfl, arrived', sub, -⟩
    · exact .inl ⟨m, List.mem_append_left _ mem, other⟩
    rcases ih arrived' with ⟨m, mem, other⟩ | rest
    · exact .inl ⟨m, List.mem_append_right _ mem, other⟩
    · rw [List.map_append]
      exact .inr (sub.append rest)

/-- Where as many messages are read as are sent, and nothing else, they are those. -/
theorem readTexts_eq (arrived : buf ++ texts.flatten = sent items)
    (all : ∀ m ∈ readTexts buf texts, Enclosed m) (size : (readTexts buf texts).length = items.length) :
    readTexts buf texts = items.map Item.text := by
  rcases readTexts_spec arrived with ⟨m, mem, other⟩ | sub
  · exact absurd (all m mem) other
  · exact sub.eq_of_length (by rw [size, List.length_map])

/-- If all messages are read, each chunk gives those that it completes. -/
theorem readTexts_split (arrived : buf ++ (us :: texts).flatten = sent items)
    (all : readTexts buf (us :: texts) = items.map Item.text) :
    ∃ gone stay left, items = gone ++ stay ∧ left ++ texts.flatten = sent stay ∧ turn left = none ∧
      readTexts left texts = stay.map Item.text ∧ Ordered gone left := by
  obtain ⟨messages, left, drains, read⟩ := readTexts_cons buf us texts
  rw [List.flatten_cons, ← List.append_assoc] at arrived
  rw [read] at all
  have enclosed : ∀ m ∈ messages ++ readTexts left texts, Enclosed m := by
    rw [all]
    intro m mem
    obtain ⟨i, -, rfl⟩ := List.mem_map.mp mem
    exact i.enclosed
  obtain ⟨here, there⟩ := List.forall_mem_append.mp enclosed
  rcases drains.spec arrived with ⟨m, mem, other⟩ | ⟨gone, stay, rfl, arrived', sub, -, ordered⟩
  · exact absurd (here m mem) other
  rcases readTexts_spec arrived' with ⟨m, mem, other⟩ | rest
  · exact absurd (there m mem) other
  have sizes := congrArg List.length all
  have short := sub.length_le
  have short' := rest.length_le
  simp only [List.length_append, List.length_map] at sizes short short'
  have same := sub.eq_of_length (by rw [List.length_map]; omega)
  have same' := rest.eq_of_length (by rw [List.length_map]; omega)
  exact ⟨gone, stay, left, rfl, arrived', drains.idle, same', ordered same⟩

/-! ### Which chunks are read -/

/-- After some chunk, so many units are to come. -/
def Pending (texts : List (List ℕ)) (k : ℕ) : Prop := ∃ a b, texts = a ++ b ∧ b.flatten.length = k

/-- When the loop reads all messages: the headers tell their lengths, no chunk ends in a blank line
behind a header, and between a line and a header that follows a chunk ends. -/
structure Legible (items : List Item) (texts : List (List ℕ)) : Prop where
  sized : ∀ i ∈ items, ∀ n, i.length = some n → n = i.text.length
  headers : ∀ i after n, i :: after <:+ items → i.length = some n → ∀ k, Pending texts k →
    k ≠ (i.text ++ sent after).length + 1 ∧ k ≠ (i.text ++ sent after).length + 2
  apart : ∀ l i after n, l :: i :: after <:+ items → l.length = none → i.length = some n →
    ∃ k, Pending texts k ∧ (i.text ++ sent after).length + 3 ≤ k ∧ k ≤ (sent (i :: after)).length

variable {k : ℕ}

theorem pending_cons :
    Pending (us :: texts) k ↔ k = (us :: texts).flatten.length ∨ Pending texts k := by
  constructor
  · rintro ⟨a, b, same, rfl⟩
    cases a with
    | nil => exact .inl (by rw [same, List.nil_append])
    | cons u a => exact .inr ⟨a, b, (List.cons.inj same).2, rfl⟩
  · rintro (rfl | ⟨a, b, rfl, size⟩)
    · exact ⟨[], us :: texts, rfl, rfl⟩
    · exact ⟨us :: a, b, rfl, size⟩

theorem Pending.le (pending : Pending texts k) : k ≤ texts.flatten.length := by
  obtain ⟨a, b, rfl, rfl⟩ := pending
  rw [List.flatten_append, List.length_append]
  omega

theorem pending_all (texts : List (List ℕ)) : Pending texts texts.flatten.length :=
  ⟨[], texts, rfl, rfl⟩

theorem length_of_unbroken {pre rest : List ℕ} (same : buf ++ future = pre ++ rest) (broken : 10 ∈ pre)
    (unbroken : 10 ∉ buf) : rest.length < future.length := by
  by_contra more
  have sizes := congrArg List.length same
  rw [List.length_append, List.length_append] at sizes
  have inside : pre <+: buf := List.prefix_of_prefix_length_le
    (same ▸ List.prefix_append pre rest) (List.prefix_append buf future) (by omega)
  exact unbroken (inside.subset broken)

/-- What is sent up to the first line end of a header, and what follows. -/
theorem sent_header (before : List Item) (header : i.length = some n) (after : List Item) :
    sent (before ++ i :: after) =
      (sent before ++ lengthLine n ++ [13, 10]) ++ 13 :: 10 :: (i.text ++ sent after) := by
  rw [sent_append, sent_framed header, show blankLine = [13, 10] ++ [13, 10] from rfl]
  simp only [List.append_assoc, List.cons_append, List.nil_append]

/-- Before the first line end has arrived, all that is behind it in a header is to come. -/
theorem header_ahead (arrived : buf ++ future = sent items) (inside : i :: after <:+ items)
    (header : i.length = some n) (unbroken : 10 ∉ buf) :
    (i.text ++ sent after).length + 2 < future.length := by
  obtain ⟨before, rfl⟩ := inside
  rw [sent_header before header] at arrived
  exact length_of_unbroken arrived (by simp) unbroken

/-- An end of the messages is among those to come, or all of those are behind its first. -/
theorem suffix_stay {gone : List Item} (inside : i :: after <:+ gone ++ stay) :
    i :: after <:+ stay ∨ stay <:+ after := by
  rcases List.suffix_or_suffix_of_suffix inside (List.suffix_append gone stay) with there | past
  · exact .inl there
  rcases List.suffix_cons_iff.mp past with rfl | past
  · exact .inl (List.suffix_refl _)
  · exact .inr past

/-- Where the loop has broken off, no blank line behind a header is cut. -/
theorem headers_of_idle (arrived : buf ++ future = sent items) (idle : turn buf = none)
    (sized : ∀ i ∈ items, ∀ n, i.length = some n → n = i.text.length) (inside : i :: after <:+ items)
    (header : i.length = some n) : future.length ≠ (i.text ++ sent after).length + 1 ∧
      future.length ≠ (i.text ++ sent after).length + 2 := by
  have turned := turn_cases arrived
  rw [idle] at turned
  cases turned with
  | quiet unbroken =>
    have longer := header_ahead arrived inside header unbroken
    omega
  | @waiting lines after' j n' rest split plain header' more less =>
    have other : j :: after' <:+ items := split ▸ List.suffix_append ..
    have whole := sized j (other.subset List.mem_cons_self) n' header'
    have size := congrArg List.length more
    simp only [List.length_append] at size ⊢
    rcases suffix_cases inside other with ⟨rfl, rfl⟩ | past | past
    · omega
    · have bound := length_sent_suffix past
      rw [length_sent_framed header, List.length_append] at bound
      omega
    · have bound := length_sent_suffix past
      rw [length_sent_framed header', List.length_append] at bound
      omega

theorem unbroken_of_idle (idle : turn buf = none) (unheaded : findHeader buf = none) : 10 ∉ buf := by
  intro broken
  rw [turn, unheaded] at idle
  dsimp only at idle
  rw [if_pos (List.idxOf_lt_length_of_mem broken)] at idle
  cases idle

/-- If all messages are read, the chunks are legible. -/
theorem Legible.of_read (arrived : buf ++ texts.flatten = sent items) (idle : turn buf = none)
    (all : readTexts buf texts = items.map Item.text) : Legible items texts := by
  induction texts generalizing buf items with
  | nil =>
    obtain rfl : items = [] := List.map_eq_nil_iff.mp all.symm
    exact ⟨fun _ mem => (nomatch mem), fun _ _ _ suffix => (nomatch List.suffix_nil.mp suffix),
      fun _ _ _ _ suffix => (nomatch List.suffix_nil.mp suffix)⟩
  | cons us texts ih =>
    obtain ⟨gone, stay, left, rfl, arrived', idle', rest, ordered⟩ := readTexts_split arrived all
    have later := ih arrived' idle' rest
    have sized : ∀ i ∈ gone ++ stay, ∀ n, i.length = some n → n = i.text.length :=
      List.forall_mem_append.mpr ⟨ordered.sized, later.sized⟩
    have size := congrArg List.length arrived'
    rw [List.length_append] at size
    refine ⟨sized, fun i after n inside header k pending => ?_,
      fun l i after n inside line header => ?_⟩
    · rcases pending_cons.mp pending with rfl | pending
      · exact headers_of_idle arrived idle sized inside header
      rcases suffix_stay inside with there | past
      · exact later.headers i after n there header k pending
      · have bound := length_sent_suffix past
        have le := pending.le
        rw [List.length_append]
        omega
    · rcases suffix_stay inside with there | past
      · obtain ⟨k, pending, bounds⟩ := later.apart l i after n there line header
        exact ⟨k, pending_cons.mpr (.inr pending), bounds⟩
      obtain ⟨before, split⟩ := inside
      rcases List.suffix_cons_iff.mp past with rfl | ⟨inner, rfl⟩
      · -- The line is the last message that the chunk gives.
        have last : gone = before ++ l :: [] :=
          List.append_cancel_right (split.symm.trans (List.append_cons before l (i :: after)))
        have unbroken := unbroken_of_idle idle' (ordered.behind last line).2
        have longer := header_ahead arrived' (List.suffix_refl _) header unbroken
        exact ⟨_, pending_cons.mpr (.inr (pending_all texts)), by omega, by omega⟩
      · have both : gone = before ++ l :: (i :: inner) :=
          (List.append_left_inj stay).mp (by simpa using split.symm)
        exact nomatch header.symm.trans ((ordered.behind both line).1 i List.mem_cons_self)

/-- The buffer has no line end, or it has the header of the first message and not all of its text. -/
def Calm (items : List Item) (buf future : List ℕ) : Prop :=
  10 ∉ buf ∨ ∃ i after n, items = i :: after ∧ i.length = some n ∧ (sent after).length < future.length

/-- No line of which the end is there is before a header. -/
theorem Calm.behind (calm : Calm items buf future) (arrived : buf ++ future = sent items)
    (inside : l :: i :: after <:+ items) (line : l.length = none) :
    (sent (i :: after)).length < future.length := by
  rcases calm with unbroken | ⟨j, rest, n, rfl, header, less⟩
  · obtain ⟨before, rfl⟩ := inside
    have split : sent (before ++ l :: i :: after) =
        (sent before ++ l.text ++ [10]) ++ sent (i :: after) := by
      rw [sent_append, sent_line line]
      simp only [List.append_assoc, List.singleton_append]
    rw [split] at arrived
    exact length_of_unbroken arrived (by simp) unbroken
  · rcases List.suffix_cons_iff.mp inside with same | past
    · rw [(List.cons.inj same).1] at line
      cases header.symm.trans line
    · exact (length_sent_cons l _).trans_le (length_sent_suffix past) |>.trans less

/-- What has arrived so far is cut in no blank line behind a header, and has no header behind a line. -/
structure Clear (items : List Item) (future : List ℕ) : Prop where
  sized : ∀ i ∈ items, ∀ n, i.length = some n → n = i.text.length
  headers : ∀ i after n, i :: after <:+ items → i.length = some n →
    future.length ≠ (i.text ++ sent after).length + 1 ∧
      future.length ≠ (i.text ++ sent after).length + 2
  apart : ∀ l i after n, l :: i :: after <:+ items → l.length = none → i.length = some n →
    (i.text ++ sent after).length < future.length

theorem Clear.suffix (clear : Clear items future) (suffix : stay <:+ items) : Clear stay future where
  sized i mem := clear.sized i (suffix.subset mem)
  headers i after n inside := clear.headers i after n (inside.trans suffix)
  apart l i after n inside := clear.apart l i after n (inside.trans suffix)

/-- Where the header of a message has arrived, no line is before it. -/
theorem Clear.first {lines : List Item} (clear : Clear (lines ++ i :: after) future)
    (plain : ∀ l ∈ lines, l.length = none) (header : i.length = some n) {rest : List ℕ}
    (more : rest ++ future = i.text ++ sent after) : lines = [] := by
  rcases List.eq_nil_or_concat' lines with none | ⟨before, l, rfl⟩
  · exact none
  · have later := clear.apart l i after n ⟨before, by simp⟩ (plain l (by simp)) header
    have size := congrArg List.length more
    rw [List.length_append] at size
    omega

theorem Drains.exact (drains : Drains buf messages left) (arrived : buf ++ future = sent items)
    (clear : Clear items future) : ∃ gone stay, items = gone ++ stay ∧ left ++ future = sent stay ∧
      messages = gone.map Item.text ∧ Calm stay left future := by
  induction drains generalizing items with
  | @stop buf idle =>
    refine ⟨[], items, rfl, arrived, rfl, ?_⟩
    have turned := turn_cases arrived
    rw [idle] at turned
    cases turned with
    | quiet unbroken => exact .inl unbroken
    | @waiting lines after i n rest split plain header more less =>
      subst split
      obtain rfl := clear.first plain header more
      refine .inr ⟨i, after, n, rfl, header, ?_⟩
      rw [clear.sized i List.mem_cons_self n header] at less
      have size := congrArg List.length more
      rw [List.length_append, List.length_append] at size
      omega
  | @go buf rest left message messages took more ih =>
    have turned := turn_cases arrived
    rw [took] at turned
    cases turned with
    | @stray message _ i after n other inside header fault =>
      rcases fault with wrong | cut
      · exact absurd (clear.sized i (inside.subset List.mem_cons_self) n header) wrong
      · have whole := clear.headers i after n inside header
        omega
    | @framed lines after i _ split plain header next found =>
      subst split
      have body : (i.text ++ rest) ++ future = i.text ++ sent after := by rw [List.append_assoc, next]
      obtain rfl := clear.first plain header body
      obtain ⟨gone, stay, rfl, arrived', same, calm⟩ := ih next (clear.suffix (List.suffix_cons ..))
      exact ⟨i :: gone, stay, rfl, arrived', congrArg (i.text :: ·) same, calm⟩
    | @line after i _ split plain next unheaded =>
      subst split
      obtain ⟨gone, stay, rfl, arrived', same, calm⟩ := ih next (clear.suffix (List.suffix_cons ..))
      exact ⟨i :: gone, stay, rfl, arrived', congrArg (i.text :: ·) same, calm⟩

theorem lf_sent (i : Item) (after : List Item) : 10 ∈ sent (i :: after) := by
  cases length : i.length with
  | none => simp [sent_line length]
  | some n => simp [sent_framed length, blankLine]

/-- Legible chunks are read. -/
theorem Legible.read (legible : Legible items texts) (arrived : buf ++ texts.flatten = sent items)
    (calm : Calm items buf texts.flatten) : readTexts buf texts = items.map Item.text := by
  induction texts generalizing buf items with
  | nil =>
    rw [List.flatten_nil, List.append_nil] at arrived
    rcases calm with unbroken | ⟨i, after, n, -, -, less⟩
    · cases items with
      | nil => rfl
      | cons i after => exact absurd (lf_sent i after) (arrived ▸ unbroken)
    · cases less
  | cons us texts ih =>
    obtain ⟨messages, left, drains, read⟩ := readTexts_cons buf us texts
    have cut (l i : Item) (after : List Item) (inside : l :: i :: after <:+ items)
        (line : l.length = none) {k : ℕ} (pending : Pending (us :: texts) k) (le : k ≤ (sent (i :: after)).length) :
        Pending texts k := by
      rcases pending_cons.mp pending with rfl | pending
      · exact absurd (calm.behind arrived inside line) (by omega)
      · exact pending
    have clear : Clear items texts.flatten := by
      refine ⟨legible.sized, fun i after n inside header => ?_,
        fun l i after n inside line header => ?_⟩
      · exact legible.headers i after n inside header _ (pending_cons.mpr (.inr (pending_all texts)))
      · obtain ⟨k, pending, low, high⟩ := legible.apart l i after n inside line header
        have le := (cut l i after inside line pending high).le
        omega
    rw [List.flatten_cons, ← List.append_assoc] at arrived
    obtain ⟨gone, stay, rfl, arrived', same, calm'⟩ := drains.exact arrived clear
    have later : Legible stay texts := by
      refine ⟨fun i mem => legible.sized i (List.mem_append_right _ mem),
        fun i after n inside header k pending => legible.headers i after n
          (inside.trans (List.suffix_append ..)) header k (pending_cons.mpr (.inr pending)),
        fun l i after n inside line header => ?_⟩
      have inside' := inside.trans (List.suffix_append gone stay)
      obtain ⟨k, pending, low, high⟩ := legible.apart l i after n inside' line header
      exact ⟨k, cut l i after inside' line pending high, low, high⟩
    rw [read, same, ih later arrived' calm', List.map_append]

/-- The loop reads all messages exactly where the chunks are legible. -/
theorem readTexts_iff (arrived : texts.flatten = sent items) :
    readTexts [] texts = items.map Item.text ↔ Legible items texts := by
  have whole : [] ++ texts.flatten = sent items := arrived
  exact ⟨.of_read whole rfl, fun legible => legible.read whole (.inl List.not_mem_nil)⟩

end Codery.Stdio
