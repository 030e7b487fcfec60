import Mathlib.Data.List.Infix
import Codery.Reading
import Codery.S6

/-! The rows of `ss -tlnp`: `parse_listening_ports` of `diagnose.rs` reads the ports off their fields,
`check_port_listening` of `mcp.rs` searches their text. -/

namespace Codery.Ss

open Codery.S6

/-! ### The fields -/

variable {s t : List Char} {p : UInt16} {c : Char}

/-- The digits of a port. -/
def digits (p : UInt16) : List Char := Nat.toDigits 10 p.toNat

theorem toList_port (p : UInt16) : (toString p).toList = digits p := String.toList_ofList

theorem digits_digit (mem : c ∈ digits p) : c.isDigit = true := isDigit_of_mem_toDigits mem

theorem digits_no_colon : ':' ∉ digits p := fun mem => absurd (digits_digit mem) (by decide)

/-- A number as `parse` takes it: digits, perhaps behind a plus. -/
theorem parseU16_iff : parseU16 (String.ofList s) = some p ↔
    ∃ ds, (s = ds ∨ s = '+' :: ds) ∧ ds ≠ [] ∧ ds.all Char.isDigit = true ∧
      ds.foldl (fun n c => 10 * n + (c.toNat - '0'.toNat)) 0 = p.toNat := by
  have number (ds : List Char) :
      (if ds ≠ [] ∧ ds.all Char.isDigit ∧
          ds.foldl (fun n c => 10 * n + (c.toNat - '0'.toNat)) 0 < 65536 then
        some (UInt16.ofNat (ds.foldl (fun n c => 10 * n + (c.toNat - '0'.toNat)) 0)) else none) =
        some p ↔ ds ≠ [] ∧ ds.all Char.isDigit = true ∧
          ds.foldl (fun n c => 10 * n + (c.toNat - '0'.toNat)) 0 = p.toNat := by
    generalize ds.foldl (fun n c => 10 * n + (c.toNat - '0'.toNat)) 0 = value
    constructor
    · intro read
      split at read
      case isTrue ok =>
        refine ⟨ok.1, ok.2.1, ?_⟩
        rw [← Option.some.inj read, UInt16.toNat_ofNat_of_lt' ok.2.2]
      case isFalse => cases read
    · rintro ⟨some, all, rfl⟩
      rw [if_pos ⟨some, all, p.toNat_lt⟩, UInt16.ofNat_toNat]
  simp only [parseU16, String.toList_ofList]
  split
  case h_1 rest =>
    rw [number]
    constructor
    · exact fun read => ⟨rest, .inr rfl, read⟩
    · rintro ⟨ds, same | same, read⟩
      · rw [← same] at read
        exact absurd (List.all_eq_true.mp read.2.1 '+' List.mem_cons_self) (by decide)
      · cases same
        exact read
  case h_2 other =>
    rw [number]
    constructor
    · exact fun read => ⟨s, .inl rfl, read⟩
    · rintro ⟨ds, rfl | same, read⟩
      · exact read
      · exact absurd same (other ds)

theorem parseU16_digits (p : UInt16) : parseU16 (String.ofList (digits p)) = some p :=
  parseU16_iff.mpr ⟨_, .inl rfl, toDigits_ne_nil, all_isDigit_toDigits, foldl_toDigits _⟩

/-- What a field ends in is read from its last colon on. -/
theorem portField_iff : portField (String.ofList s) = some p ↔
    ∃ a b, s = a ++ ':' :: b ∧ ':' ∉ b ∧ parseU16 (String.ofList b) = some p := by
  rw [portField, String.toList_ofList]
  constructor
  · intro read
    split at read
    case isTrue colon =>
      have whole := cut_at (List.mem_reverse.mpr colon)
      refine ⟨((s.reverse.dropWhile (· ≠ ':')).tail).reverse, (s.reverse.takeWhile (· ≠ ':')).reverse,
        ?_, fun inside => not_mem_takeWhile_ne (List.mem_reverse.mp inside), read⟩
      rw [← List.reverse_inj, List.reverse_append, List.reverse_cons, List.reverse_reverse,
        List.reverse_reverse, List.append_assoc, List.singleton_append]
      exact whole
    case isFalse => cases read
  · rintro ⟨a, b, rfl, alone, read⟩
    have kept : ∀ c ∈ b.reverse, decide (c ≠ ':') = true := fun c mem =>
      decide_eq_true fun same => alone (same ▸ List.mem_reverse.mp mem)
    have last : (a ++ ':' :: b).reverse.takeWhile (· ≠ ':') = b.reverse := by
      rw [List.reverse_append, List.reverse_cons, List.append_assoc, List.singleton_append,
        List.takeWhile_append_of_pos kept, List.takeWhile_cons_of_neg (by decide), List.append_nil]
    rw [if_pos (by simp), last, List.reverse_reverse, read]

/-- A port is read off a field only if the field ends in a digit. -/
theorem portField_last (read : portField (String.ofList s) = some p) :
    ∃ c, s.getLast? = some c ∧ c.isDigit = true := by
  obtain ⟨a, b, rfl, -, number⟩ := portField_iff.mp read
  obtain ⟨ds, same, some, all, -⟩ := parseU16_iff.mp number
  obtain ⟨init, c, rfl⟩ := List.eq_nil_or_concat' ds |>.resolve_left some
  refine ⟨c, ?_, List.all_eq_true.mp all c (by simp)⟩
  rcases same with rfl | rfl
  · rw [← List.cons_append, ← List.append_assoc, List.getLast?_concat]
  · rw [← List.cons_append, ← List.cons_append, ← List.append_assoc, List.getLast?_concat]

theorem portField_none (ends : s.getLast? = some c) (other : c.isDigit = false) :
    portField (String.ofList s) = none := by
  refine Option.eq_none_iff_forall_ne_some.mpr fun p read => ?_
  obtain ⟨d, last, digit⟩ := portField_last read
  rw [ends] at last
  cases last
  rw [digit] at other
  cases other

theorem portField_no_colon (absent : ':' ∉ s) : portField (String.ofList s) = none := by
  rw [portField, String.toList_ofList, if_neg absent]

theorem portField_port (s : List Char) (p : UInt16) :
    portField (String.ofList (s ++ ':' :: digits p)) = some p :=
  portField_iff.mpr ⟨s, digits p, rfl, digits_no_colon, parseU16_digits p⟩

/-! ### The rows -/

def solid (t : List Char) : Bool := t.all fun c => !isWhitespace c

/-- A text without blanks. -/
structure Word where
  chars : List Char
  solid : solid chars = true

/-- An address, without the port. -/
inductive Address
  | v4 (a b c d : UInt8)
  | v6 (groups : Word)
  | any

/-- A local address, perhaps of one interface, and its port. -/
structure Local where
  address : Address
  scope : Option Word
  port : UInt16

/-- Who has the socket open. -/
structure Process where
  name : Word
  pid : ℕ
  fd : ℕ

structure Row where
  recvQ : ℕ
  sendQ : ℕ
  locl : Local
  peer : Address
  users : List Process
  /-- How many blanks stand behind each column, beyond the one that has to. -/
  gap : ℕ → ℕ

def Address.chars : Address → List Char
  | .v4 a b c d => Nat.toDigits 10 a.toNat ++ '.' :: (Nat.toDigits 10 b.toNat ++
      '.' :: (Nat.toDigits 10 c.toNat ++ '.' :: Nat.toDigits 10 d.toNat))
  | .v6 groups => '[' :: (groups.chars ++ [']'])
  | .any => ['*']

def Local.host (l : Local) : List Char :=
  l.address.chars ++ match l.scope with
    | none => []
    | some interface => '%' :: interface.chars

def Local.chars (l : Local) : List Char := l.host ++ ':' :: digits l.port

def Process.chars (x : Process) : List Char :=
  "(\"".toList ++ x.name.chars ++ "\",pid=".toList ++ Nat.toDigits 10 x.pid ++ ",fd=".toList ++
    Nat.toDigits 10 x.fd ++ ")".toList

/-- The process column. -/
def usersColumn (l : List Process) : List Char :=
  "users:(".toList ++ [','].intercalate (l.map Process.chars) ++ [')']

def Row.columns (r : Row) : List (List Char) :=
  ["LISTEN".toList, Nat.toDigits 10 r.recvQ, Nat.toDigits 10 r.sendQ, r.locl.chars,
    r.peer.chars ++ [':', '*']] ++ if r.users = [] then [] else [usersColumn r.users]

/-- Columns with blanks between them, and perhaps behind the last. -/
def spaced (gap : ℕ → ℕ) : List (List Char) → List Char
  | [] => []
  | [w] => w ++ List.replicate (gap 0) ' '
  | w :: ws => w ++ ' ' :: (List.replicate (gap 0) ' ' ++ spaced (fun i => gap (i + 1)) ws)

def Row.chars (r : Row) : List Char := spaced r.gap r.columns

/-- The header line. -/
structure Header where
  chars : List Char
  unbroken : '\n' ∉ chars
  last : chars.getLast? ≠ some '\r'

def listing (header : Header) (rows : List Row) : String :=
  String.ofList (header.chars ++ '\n' :: rows.flatMap fun r => r.chars ++ ['\n'])

/-! ### What is read off the rows -/

variable {w : List Char} {ws : List (List Char)} {gap : ℕ → ℕ} {n : ℕ}

theorem solid_iff : solid t = true ↔ ∀ c ∈ t, isWhitespace c = false := by
  simp [solid, List.all_eq_true]

@[simp] theorem solid_append : solid (s ++ t) = true ↔ solid s = true ∧ solid t = true := by
  simp [solid]

@[simp] theorem solid_cons : solid (c :: t) = true ↔ isWhitespace c = false ∧ solid t = true := by
  simp [solid]

@[simp] theorem solid_nil : solid [] = true := rfl

@[simp] theorem solid_toDigits : solid (Nat.toDigits 10 n) = true :=
  solid_iff.mpr digits_solid

@[simp] theorem solid_digits : solid (digits p) = true := solid_toDigits

theorem solid_lit {x : String} (lit : x = String.ofList t) (whole : solid t = true) :
    solid x.toList = true := by
  rwa [toList_lit lit]

theorem Address.solid (a : Address) : solid a.chars = true := by
  have dot : isWhitespace '.' = false := by decide
  cases a with
  | v4 a b c d => simp [Address.chars, dot]
  | v6 groups =>
    have brackets : isWhitespace '[' = false ∧ isWhitespace ']' = false := by decide
    simp [Address.chars, groups.solid, brackets]
  | any => decide

theorem Local.solid_host (l : Local) : solid l.host = true := by
  rw [Local.host, solid_append]
  refine ⟨l.address.solid, ?_⟩
  cases l.scope with
  | none => rfl
  | some interface => exact solid_cons.mpr ⟨by decide, interface.solid⟩

theorem Process.solid (x : Process) : solid x.chars = true := by
  unfold Process.chars
  rw [solid_append, solid_append, solid_append, solid_append, solid_append, solid_append]
  exact ⟨⟨⟨⟨⟨⟨solid_lit rfl (by decide), x.name.solid⟩, solid_lit rfl (by decide)⟩, solid_toDigits⟩,
    solid_lit rfl (by decide)⟩, solid_toDigits⟩, solid_lit rfl (by decide)⟩

theorem usersColumn_solid (l : List Process) : solid (usersColumn l) = true := by
  have inner : solid ([','].intercalate (l.map Process.chars)) = true := by
    induction l with
    | nil => rfl
    | cons x l ih =>
      cases l with
      | nil => simpa using x.solid
      | cons y l =>
        rw [List.map_cons, List.map_cons, List.intercalate_cons_cons, solid_append, solid_append,
          ← List.map_cons]
        exact ⟨⟨x.solid, by decide⟩, ih⟩
  unfold usersColumn
  rw [solid_append, solid_append]
  exact ⟨⟨solid_lit rfl (by decide), inner⟩, by decide⟩

theorem Row.columns_solid (r : Row) : ∀ w ∈ r.columns, w ≠ [] ∧ solid w = true := by
  have last : ∀ w ∈ (if r.users = [] then [] else [usersColumn r.users]), w ≠ [] ∧ solid w = true := by
    intro w mem
    split at mem
    · cases mem
    · cases List.mem_singleton.mp mem
      exact ⟨List.append_ne_nil_of_right_ne_nil _ (List.cons_ne_nil _ _), usersColumn_solid _⟩
  simp only [Row.columns, List.forall_mem_append, List.forall_mem_cons]
  refine ⟨⟨⟨by simp, solid_lit rfl (by decide)⟩, ⟨toDigits_ne_nil, solid_toDigits⟩,
    ⟨toDigits_ne_nil, solid_toDigits⟩, ⟨by simp [Local.chars], ?_⟩, ⟨by simp, ?_⟩, nofun⟩, last⟩
  · rw [Local.chars, solid_append, solid_cons]
    exact ⟨r.locl.solid_host, by decide, solid_digits⟩
  · rw [solid_append]
    exact ⟨r.peer.solid, by decide⟩

theorem words_blanks : words isWhitespace (List.replicate n ' ' ++ t) = words isWhitespace t := by
  induction n with
  | zero => rfl
  | succ n ih => rw [List.replicate_succ, List.cons_append, words_sep (by decide), ih]

theorem words_spaced (columns : ∀ w ∈ ws, w ≠ [] ∧ solid w = true) :
    words isWhitespace (spaced gap ws) = ws := by
  induction ws generalizing gap with
  | nil => rfl
  | cons w ws ih =>
    obtain ⟨⟨some, whole⟩, rest⟩ := List.forall_mem_cons.mp columns
    have first (t : List Char) :
        words isWhitespace (w ++ ' ' :: t) = w :: words isWhitespace t :=
      words_first some (solid_iff.mp whole) (by decide)
    cases ws with
    | nil =>
      rw [spaced]
      cases gap 0 with
      | zero =>
        rw [List.replicate_zero, List.append_nil, words, List.splitOnP_eq_singleton,
          List.filter_cons_of_pos (by simpa using some), List.filter_nil]
        simpa using solid_iff.mp whole
      | succ n =>
        have blanks : words isWhitespace (List.replicate n ' ') = [] := by
          rw [← List.append_nil (List.replicate n ' '), words_blanks]
          rfl
        rw [List.replicate_succ, first, blanks]
    | cons v ws =>
      rw [spaced, first, words_blanks, ih rest]
      exact List.cons_ne_nil v ws

theorem mem_spaced (mem : c ∈ spaced gap ws) : c = ' ' ∨ ∃ w ∈ ws, c ∈ w := by
  induction ws generalizing gap with
  | nil => cases mem
  | cons w ws ih =>
    cases ws with
    | nil =>
      rcases List.mem_append.mp mem with inside | blank
      · exact .inr ⟨w, List.mem_cons_self, inside⟩
      · exact .inl (List.eq_of_mem_replicate blank)
    | cons v ws =>
      rcases List.mem_append.mp mem with inside | mem
      · exact .inr ⟨w, List.mem_cons_self, inside⟩
      rcases List.mem_cons.mp mem with blank | mem
      · exact .inl blank
      rcases List.mem_append.mp mem with blank | later
      · exact .inl (List.eq_of_mem_replicate blank)
      · exact (ih later).imp_right fun ⟨x, there, inside⟩ => ⟨x, List.mem_cons_of_mem _ there, inside⟩

/-- A row is a line. -/
theorem Row.unbroken (r : Row) : Unbroken r.chars := by
  have absent (c : Char) (blank : isWhitespace c = true) (other : c ≠ ' ') : c ∉ r.chars := by
    intro mem
    rcases mem_spaced mem with same | ⟨w, here, inside⟩
    · exact other same
    · have whole := solid_iff.mp (r.columns_solid w here).2 c inside
      rw [blank] at whole
      cases whole
  exact ⟨absent '\n' (by decide) (by decide),
    fun last => absent '\r' (by decide) (by decide) (List.mem_of_getLast? last)⟩

theorem lines_listing (header : Header) (rows : List Row) :
    (lines (listing header rows)).tail = rows.map fun r => String.ofList r.chars := by
  rw [lines, listing, String.toList_ofList, Caddy.linesFrom_line header.unbroken header.last,
    List.map_cons, List.tail_cons]
  induction rows with
  | nil => rfl
  | cons r rows ih =>
    rw [List.flatMap_cons, List.append_assoc, List.singleton_append,
      Caddy.linesFrom_line r.unbroken.newline r.unbroken.last, List.map_cons, ih, List.map_cons]

theorem splitWhitespace_row (r : Row) :
    splitWhitespace (String.ofList r.chars) = r.columns.map String.ofList := by
  have split : words isWhitespace r.chars = r.columns := words_spaced r.columns_solid
  rw [splitWhitespace, String.toList_ofList, ← split]
  rfl

def columnPort (w : List Char) : Option UInt16 := portField (String.ofList w)

/-- Of the columns of a row only the local one ends in a port. -/
theorem ports_row (r : Row) : r.columns.filterMap columnPort = [r.locl.port] := by
  have number (n : ℕ) : columnPort (Nat.toDigits 10 n) = none :=
    portField_no_colon fun mem => absurd (isDigit_of_mem_toDigits mem) (by decide)
  have state : columnPort "LISTEN".toList = none := portField_none (c := 'N') rfl (by decide)
  have locl : columnPort r.locl.chars = some r.locl.port := portField_port _ _
  have peer : columnPort (r.peer.chars ++ [':', '*']) = none :=
    portField_none (c := '*') (by simp) (by decide)
  have processes : columnPort (usersColumn r.users) = none :=
    portField_none (c := ')') List.getLast?_concat (by decide)
  rw [Row.columns, List.filterMap_append, List.filterMap_cons_none state,
    List.filterMap_cons_none (number _), List.filterMap_cons_none (number _),
    List.filterMap_cons_some locl, List.filterMap_cons_none peer, List.filterMap_nil]
  split
  · rfl
  · rw [List.filterMap_cons_none processes, List.filterMap_nil]
    rfl

theorem parseListeningPorts_rows (header : Header) (rows : List Row) :
    parseListeningPorts (listing header rows) = rows.map fun r => r.locl.port := by
  rw [parseListeningPorts, lines_listing]
  induction rows with
  | nil => rfl
  | cons r rows ih =>
    have first : (splitWhitespace (String.ofList r.chars)).filterMap portField = [r.locl.port] := by
      rw [splitWhitespace_row, List.filterMap_map]
      exact ports_row r
    rw [List.map_cons, List.flatMap_cons, first, ih, List.singleton_append, List.map_cons]

/-- What is read off a listing are the local ports of its rows, and no other number. -/
theorem mem_listening_iff (header : Header) (rows : List Row) (p : UInt16) :
    p ∈ parseListeningPorts (listing header rows) ↔ ∃ r ∈ rows, r.locl.port = p := by
  rw [parseListeningPorts_rows, List.mem_map]

/-! ### Searching the text -/

/-- The lines `check_port_listening` keeps: the header, and those that contain the port behind a
colon. -/
def matching (raw : String) (port : UInt16) : List String :=
  ((lines raw).zipIdx.filter fun x =>
    x.2 == 0 || decide (':' :: (toString port).toList <:+: x.1.toList)).map (·.1)

def checkPortListening (raw : String) (port : UInt16) : String :=
  let found := matching raw port
  let shown := if found.length ≤ 1 then found ++ ["(no listeners found for this port)"] else found
  "\n".intercalate shown ++ "\n\n---\nGuidance: If no listener found, the service may not be running or " ++
    "port mapping may be wrong. Use get_status to check."

/-- A line is shown besides the header. -/
def Shows (raw : String) (port : UInt16) : Prop := 1 < (matching raw port).length

/-- The lines behind the header. -/
def body (raw : String) : List (List Char) := (linesFrom [] raw.toList).tail

/-- The port stands behind a colon. -/
def Occurs (p : UInt16) (line : List Char) : Prop := ':' :: digits p <:+: line

instance : Decidable (Occurs p t) := inferInstanceAs (Decidable (_ <:+: _))

/-- And nothing, or a blank, behind it. -/
def Stands (p : UInt16) (line : List Char) : Prop :=
  ∃ s u, line = s ++ (':' :: digits p ++ u) ∧ ∀ c, u.head? = some c → isWhitespace c = true

/-- And something else behind it, as in a longer number. -/
def Torn (p : UInt16) (line : List Char) : Prop :=
  ∃ s c u, line = s ++ (':' :: digits p ++ c :: u) ∧ isWhitespace c = false

/-- A field ends in the port with a plus or zeros before it. -/
def Respelt (p : UInt16) (line : List Char) : Prop :=
  ∃ w ∈ words isWhitespace line, ∃ s plus k, w = s ++ ':' :: (plus ++ (List.replicate k '0' ++ digits p)) ∧
    (plus = [] ∧ 0 < k ∨ plus = ['+'])

variable {raw : String} {line : List Char}

theorem occurs_iff : Occurs p line ↔ Stands p line ∨ Torn p line := by
  constructor
  · rintro ⟨s, u, rfl⟩
    cases u with
    | nil => exact .inl ⟨s, [], by simp, nofun⟩
    | cons c u =>
      cases blank : isWhitespace c with
      | false => exact .inr ⟨s, c, u, by simp, blank⟩
      | true =>
        refine .inl ⟨s, c :: u, by simp, fun d first => ?_⟩
        cases first
        exact blank
  · rintro (⟨s, u, rfl, -⟩ | ⟨s, c, u, rfl, -⟩)
    · exact ⟨s, u, List.append_assoc ..⟩
    · exact ⟨s, c :: u, List.append_assoc ..⟩

theorem portField_spelled : portField (String.ofList s) = some p ↔
    ∃ a plus k, s = a ++ ':' :: (plus ++ (List.replicate k '0' ++ digits p)) ∧
      (plus = [] ∨ plus = ['+']) := by
  constructor
  · intro read
    obtain ⟨a, b, rfl, -, number⟩ := portField_iff.mp read
    obtain ⟨ds, spelled, some, all, value⟩ := parseU16_iff.mp number
    obtain ⟨k, same⟩ := digits_spelled some (List.all_eq_true.mp all)
    rw [value] at same
    rcases spelled with rfl | rfl
    · exact ⟨a, [], k, by rw [same]; rfl, .inl rfl⟩
    · exact ⟨a, ['+'], k, by rw [same]; rfl, .inr rfl⟩
  · rintro ⟨a, plus, k, rfl, sign⟩
    have zeros : ∀ c ∈ List.replicate k '0' ++ digits p, c.isDigit = true := by
      intro c mem
      rcases List.mem_append.mp mem with zero | digit
      · rw [List.eq_of_mem_replicate zero]
        decide
      · exact digits_digit digit
    have value : (List.replicate k '0' ++ digits p).foldl
        (fun n c => 10 * n + (c.toNat - '0'.toNat)) 0 = p.toNat := by
      rw [← Nat.ofDigitChars_eq_foldl, Nat.ofDigitChars_append, Nat.ofDigitChars_replicate_zero,
        Nat.mul_zero, digits, Nat.ofDigitChars_ten_toDigits]
    have colon : ':' ∉ plus ++ (List.replicate k '0' ++ digits p) := by
      intro mem
      rcases List.mem_append.mp mem with inside | inside
      · rcases sign with rfl | rfl
        · cases inside
        · cases List.mem_singleton.mp inside
      · exact absurd (zeros ':' inside) (by decide)
    refine portField_iff.mpr ⟨a, _, rfl, colon, parseU16_iff.mpr ⟨List.replicate k '0' ++ digits p, ?_,
      List.append_ne_nil_of_right_ne_nil _ toDigits_ne_nil, List.all_eq_true.mpr zeros, value⟩⟩
    exact sign.imp (fun none => by rw [none, List.nil_append]) fun plus => by rw [plus]; rfl

/-- How a port gets into the set: it stands as the code prints ports, or it is spelt otherwise. -/
theorem field_iff : (∃ w ∈ words isWhitespace line, portField (String.ofList w) = some p) ↔
    Stands p line ∨ Respelt p line := by
  constructor
  · rintro ⟨w, mem, read⟩
    obtain ⟨a, plus, k, rfl, sign⟩ := portField_spelled.mp read
    rcases sign with rfl | rfl
    · cases k with
      | zero =>
        obtain ⟨s, u, place, behind⟩ := word_place mem
        refine .inl ⟨s ++ a, u, ?_, behind⟩
        rw [place]
        simp
      | succ k => exact .inr ⟨_, mem, a, [], k + 1, rfl, .inl ⟨rfl, k.succ_pos⟩⟩
    · exact .inr ⟨_, mem, a, ['+'], k, rfl, .inr rfl⟩
  · rintro (⟨s, u, rfl, behind⟩ | ⟨w, mem, a, plus, k, rfl, sign⟩)
    · have whole : solid (':' :: digits p) = true := solid_cons.mpr ⟨by decide, solid_digits⟩
      obtain ⟨v, mem⟩ := word_at (List.cons_ne_nil _ _) (solid_iff.mp whole) behind
      exact ⟨_, mem, portField_port v p⟩
    · exact ⟨_, mem, portField_spelled.mpr ⟨a, plus, k, rfl, sign.imp And.left id⟩⟩

theorem mem_listening_text : p ∈ parseListeningPorts raw ↔
    (∃ line ∈ body raw, Stands p line) ∨ ∃ line ∈ body raw, Respelt p line := by
  have fields (line : List Char) : p ∈ (splitWhitespace (String.ofList line)).filterMap portField ↔
      Stands p line ∨ Respelt p line := by
    have split : splitWhitespace (String.ofList line) = (words isWhitespace line).map String.ofList := by
      rw [splitWhitespace, String.toList_ofList, words]
    rw [← field_iff, split, List.filterMap_map, List.mem_filterMap]
    rfl
  rw [parseListeningPorts, List.mem_flatMap, lines, ← List.map_tail]
  simp only [List.mem_map, exists_exists_and_eq_and, fields, ← exists_or, ← and_or_left]
  rfl

theorem filter_behind (keep : String → Bool) (l : List String) (n : ℕ) :
    ((l.zipIdx (n + 1)).filter fun x => x.2 == 0 || keep x.1).map (·.1) = l.filter keep := by
  induction l generalizing n with
  | nil => rfl
  | cons x l ih =>
    rw [List.zipIdx_cons, List.filter_cons, List.filter_cons]
    cases keep x <;> simp [ih]

theorem shows_iff : Shows raw p ↔ ∃ line ∈ body raw, Occurs p line := by
  rw [Shows, matching, toList_port, body, lines]
  cases linesFrom [] raw.toList with
  | nil => simp
  | cons header l =>
    rw [List.map_cons, List.zipIdx_cons, List.filter_cons_of_pos (by rfl), List.map_cons,
      filter_behind fun x => decide (':' :: digits p <:+: x.toList), List.length_cons,
      Nat.lt_add_left_iff_pos, List.length_pos_iff_exists_mem]
    simp [Occurs]

/-- The two agree where the port stands in the listing; and where it does not, as long as its digits
as part of something else and other spellings of it come together. -/
theorem shows_agree_iff (raw : String) (p : UInt16) :
    (Shows raw p ↔ p ∈ parseListeningPorts raw) ↔
      (∃ line ∈ body raw, Stands p line) ∨
        ((∃ line ∈ body raw, Torn p line) ↔ ∃ line ∈ body raw, Respelt p line) := by
  rw [shows_iff, mem_listening_text]
  simp only [occurs_iff, and_or_left, exists_or]
  by_cases there : ∃ line ∈ body raw, Stands p line
  · exact iff_of_true (iff_of_true (.inl there) (.inl there)) (.inl there)
  · rw [or_iff_right there, or_iff_right there, or_iff_right there]

theorem Row.stands (r : Row) : Stands r.locl.port r.chars := by
  have column : r.locl.chars ∈ words isWhitespace r.chars := by
    rw [Row.chars, words_spaced r.columns_solid]
    simp [Row.columns]
  obtain ⟨s, u, place, behind⟩ := word_place column
  refine ⟨s ++ r.locl.host, u, ?_, behind⟩
  rw [place, Local.chars]
  simp

/-- Of a listing of rows: the two agree where a row has the port, or no row has it as part of
something else. -/
theorem shows_agree_rows (header : Header) (rows : List Row) (p : UInt16) :
    (Shows (listing header rows) p ↔ p ∈ parseListeningPorts (listing header rows)) ↔
      (∃ r ∈ rows, r.locl.port = p) ∨ ∀ r ∈ rows, ¬ Torn p r.chars := by
  have behind : body (listing header rows) = rows.map Row.chars := by
    have texts := congrArg (List.map String.toList) (lines_listing header rows)
    simpa [lines, ← List.map_tail, body, Function.comp_def] using texts
  have shown : Shows (listing header rows) p ↔ ∃ r ∈ rows, Occurs p r.chars := by
    rw [shows_iff, behind]
    simp
  rw [shown, mem_listening_iff]
  by_cases there : ∃ r ∈ rows, r.locl.port = p
  · obtain ⟨r, mem, rfl⟩ := there
    exact iff_of_true (iff_of_true ⟨r, mem, occurs_iff.mpr (.inl r.stands)⟩ ⟨r, mem, rfl⟩)
      (.inl ⟨r, mem, rfl⟩)
  · have unread : ∀ r ∈ rows, ¬ Stands p r.chars := by
      intro r mem stands
      refine there ((mem_listening_iff header rows p).mp (mem_listening_text.mpr (.inl ?_)))
      exact ⟨r.chars, behind ▸ List.mem_map_of_mem mem, stands⟩
    rw [iff_false_right there, or_iff_right there, not_exists]
    simp only [not_and]
    exact forall₂_congr fun r mem => not_congr (occurs_iff.trans (or_iff_right (unread r mem)))

/-- A row with port 8080 only: it is shown for port 80. -/
def rows8080 : String :=
  "State Recv-Q Send-Q Local Address:Port Peer Address:Port\nLISTEN 0 4096 0.0.0.0:8080 0.0.0.0:*\n"

theorem shows_disagree : ¬ ∀ (raw : String) (p : UInt16),
    Shows raw p ↔ p ∈ parseListeningPorts raw := by
  intro agree
  have shown : Shows rows8080 80 := shows_iff.mpr (by decide +kernel)
  have absent : ¬ 80 ∈ parseListeningPorts rows8080 := by decide +kernel
  exact absent ((agree rows8080 80).mp shown)

end Codery.Ss
