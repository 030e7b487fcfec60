import Codery.Commands
import Codery.Numerals
import Codery.EnvFile
import Codery.Brackets

/-! The report of the supervised services (`s6.rs`): the lines `svstat_batch_cmd` prints, and what
`parse_svstat_batch` and `get_app_status` make of them. -/

namespace Codery.S6

open Metrics (parseU64)

structure SvcStat where
  name : String
  up : Bool
  pid : ℤ
  uptimeSecs : ℕ
  deriving DecidableEq

def parseLine (line : String) : Option SvcStat :=
  let cs := line.toList
  if '|' ∈ cs then
    let name := cs.takeWhile (· ≠ '|')
    let rest := (cs.dropWhile (· ≠ '|')).tail
    if name = [] then none
    else match words isWhitespace rest with
      | up :: pid :: uptimeSecs :: _ =>
        (parseI64 (String.ofList pid)).bind fun pid =>
          (parseU64 (String.ofList uptimeSecs)).map fun uptimeSecs =>
            { name := String.ofList name, up := up == "true".toList, pid, uptimeSecs }
      | _ => none
  else none

def parseSvstatBatch (output : String) : List SvcStat := (lines output).filterMap parseLine

/-- An entry of `services` in the answer of `get_app_status`. -/
structure ServiceStatus where
  name : String
  pid : ℤ
  status : String
  uptimeSecs : ℕ
  source : String
  subdomain : Option String
  internalPort : Option UInt16
  deriving DecidableEq

/-- What `get_app_status` answers for the rows and the output it has read. -/
def services (apps : List AppRecord) (output : String) : List ServiceStatus :=
  (parseSvstatBatch output).map fun st =>
    let row := apps.find? (·.name == st.name)
    { name := st.name
      pid := st.pid
      status := if st.up then "running" else "down"
      uptimeSecs := st.uptimeSecs
      source := (row.map (·.source)).getD "build"
      subdomain := row.map (·.subdomain)
      internalPort := row.map (·.internalPort) }

/-! ### The shell command -/

/-- What `s6-svstat -o up,pid,updownfor` tells of a service. -/
structure Report where
  up : Bool
  pid : ℤ
  updownfor : ℕ
  pid_lower : -2 ^ 63 ≤ pid
  pid_upper : pid < 2 ^ 63
  updownfor_upper : updownfor < 2 ^ 64

def Report.text (r : Report) : String :=
  (if r.up then "true" else "false") ++ " " ++ toString r.pid ++ " " ++ toString r.updownfor

/-- `$(..)` drops the line ends at the end. -/
def substituted (s : String) : String :=
  String.ofList (s.toList.reverse.dropWhile (· = '\n')).reverse

/-- What the loop of `svstat_batch_cmd` prints for the directory `/run/service/<name>/`. -/
def svstatLine (name : String) (r : Report) : String :=
  let n := substituted name
  if Mcp.s6InternalServices.contains n then "" else n ++ "|" ++ r.text ++ "\n"

/-- The output, for the directories in the order the shell lists them. -/
def svstatBatch (listing : List (String × Report)) : String :=
  String.join (listing.map fun s => svstatLine s.1 s.2)

def Report.stat (r : Report) (name : String) : SvcStat := ⟨name, r.up, r.pid, r.updownfor⟩

variable {name : String} {r : Report} {st : SvcStat} {output line : String}

theorem substituted_of_unbroken (unbroken : '\n' ∉ name.toList) : substituted name = name := by
  have kept : name.toList.reverse.dropWhile (· = '\n') = name.toList.reverse := by
    cases last : name.toList.reverse with
    | nil => rfl
    | cons c cs =>
      have mem : c ∈ name.toList := List.mem_reverse.mp (last ▸ List.mem_cons_self)
      rw [List.dropWhile_cons_of_neg]
      simpa using fun same : c = '\n' => unbroken (same ▸ mem)
  rw [substituted, kept, List.reverse_reverse, String.ofList_toList]

/-! ### What is parsed -/

theorem parseLine_some (parsed : parseLine line = some st) :
    st.name ≠ "" ∧ '|' ∉ st.name.toList ∧ ∀ c ∈ st.name.toList, c ∈ line.toList := by
  simp only [parseLine] at parsed
  split at parsed
  case isFalse => cases parsed
  split at parsed
  case isTrue => cases parsed
  case isFalse nonempty =>
    split at parsed
    case h_2 => cases parsed
    case h_1 =>
      obtain ⟨pid, _, parsed⟩ := Option.bind_eq_some_iff.mp parsed
      obtain ⟨uptime, _, rfl⟩ := Option.map_eq_some_iff.mp parsed
      refine ⟨fun empty => nonempty (by simpa using empty), ?_, fun c mem => ?_⟩
      · rw [String.toList_ofList]
        exact not_mem_takeWhile_ne
      · rw [String.toList_ofList] at mem
        exact (List.takeWhile_sublist _).mem mem

/-- No name is reported that is empty, has a bar in it or goes over a line end. -/
theorem mem_parseSvstatBatch (mem : st ∈ parseSvstatBatch output) :
    st.name ≠ "" ∧ '|' ∉ st.name.toList ∧ '\n' ∉ st.name.toList := by
  obtain ⟨line, here, parsed⟩ := List.mem_filterMap.mp mem
  obtain ⟨nonempty, bar, inside⟩ := parseLine_some parsed
  obtain ⟨cs, there, rfl⟩ := List.mem_map.mp here
  refine ⟨nonempty, bar, fun broken => ?_⟩
  have mem := inside _ broken
  rw [String.toList_ofList] at mem
  exact Caddy.linesFrom_unbroken List.not_mem_nil there mem

/-- A text of one line. -/
structure Unbroken (s : List Char) : Prop where
  newline : '\n' ∉ s
  last : s.getLast? ≠ some '\r'

theorem parseSvstatBatch_line {cs : List Char} (unbroken : Unbroken cs) (rest : String) :
    parseSvstatBatch (String.ofList cs ++ "\n" ++ rest) =
      (parseLine (String.ofList cs)).toList ++ parseSvstatBatch rest := by
  have split : linesFrom [] (String.ofList cs ++ "\n" ++ rest).toList =
      cs :: linesFrom [] rest.toList := by
    rw [String.toList_append, String.toList_append, String.toList_ofList, List.append_assoc]
    exact Caddy.linesFrom_line unbroken.newline unbroken.last
  rw [parseSvstatBatch, lines, split, List.map_cons, List.filterMap_cons]
  cases parseLine (String.ofList cs) <;> rfl

/-! ### What is printed -/

/-- The name of a service that is reported under it. -/
structure Reportable (name : String) : Prop where
  nonempty : name ≠ ""
  bar : '|' ∉ name.toList
  newline : '\n' ∉ name.toList
  listed : Mcp.s6InternalServices.contains name = false

def upText (up : Bool) : List Char := if up then "true".toList else "false".toList

theorem toList_text (r : Report) : r.text.toList =
    upText r.up ++ ' ' :: ((toString r.pid).toList ++ ' ' :: Nat.toDigits 10 r.updownfor) := by
  have up : (if r.up then "true" else "false").toList = upText r.up := by cases r.up <;> rfl
  simp only [Report.text, String.toList_append, up, toList_toString_nat, List.append_assoc]
  rfl

theorem upText_solid (up : Bool) : ∀ c ∈ upText up, isWhitespace c = false := by
  have solid : (upText up).all (fun c => !isWhitespace c) = true := by cases up <;> decide
  intro c mem
  simpa using List.all_eq_true.mp solid c mem

theorem upText_true (up : Bool) : (upText up == "true".toList) = up := by cases up <;> decide

/-- Neither a line end nor a blank is in a number. -/
theorem int_solid {z : ℤ} : ∀ c ∈ (toString z).toList, isWhitespace c = false := by
  intro c mem
  obtain digit | rfl := mem_toString_int mem
  · exact isDigit_solid digit
  · decide

theorem digits_solid {n : ℕ} : ∀ c ∈ Nat.toDigits 10 n, isWhitespace c = false :=
  fun _ mem => isDigit_solid (isDigit_of_mem_toDigits mem)

theorem solid_unbroken {cs : List Char} (solid : ∀ c ∈ cs, isWhitespace c = false) :
    '\n' ∉ cs := fun mem => absurd (solid _ mem) (by decide)

theorem words_text (r : Report) : words isWhitespace r.text.toList =
    [upText r.up, (toString r.pid).toList, Nat.toDigits 10 r.updownfor] := by
  have last : words isWhitespace (Nat.toDigits 10 r.updownfor) = [Nat.toDigits 10 r.updownfor] := by
    rw [words, List.splitOnP_eq_singleton fun c mem => by simp [digits_solid c mem],
      List.filter_cons_of_pos (by simp), List.filter_nil]
  rw [toList_text, words_first (by cases r.up <;> decide) (upText_solid _) (by decide),
    words_first toString_int_ne_nil int_solid (by decide), last]

theorem parseLine_report {name : String} (nonempty : name ≠ "") (bar : '|' ∉ name.toList)
    (r : Report) : parseLine (name ++ "|" ++ r.text) = some (r.stat name) := by
  have whole : (name ++ "|" ++ r.text).toList = name.toList ++ '|' :: r.text.toList := by
    rw [String.toList_append, String.toList_append, List.append_assoc]
    rfl
  have mem : '|' ∈ name.toList ++ '|' :: r.text.toList := by simp
  have solid : ∀ c ∈ name.toList, decide (c ≠ '|') = true := fun c mem =>
    decide_eq_true fun same => bar (same ▸ mem)
  have cut : (name.toList ++ '|' :: r.text.toList).takeWhile (· ≠ '|') = name.toList := by
    rw [List.takeWhile_append_of_pos solid, List.takeWhile_cons_of_neg (by simp), List.append_nil]
  have rest : (name.toList ++ '|' :: r.text.toList).dropWhile (· ≠ '|') = '|' :: r.text.toList := by
    rw [List.dropWhile_append_of_pos solid, List.dropWhile_cons_of_neg (by simp)]
  have chars : name.toList ≠ [] := fun none => nonempty (String.toList_eq_nil_iff.mp none)
  have number : String.ofList (Nat.toDigits 10 r.updownfor) = toString r.updownfor := by
    rw [← toList_toString_nat, String.ofList_toList]
  simp only [parseLine, whole, if_pos mem, cut, rest, if_neg chars, List.tail_cons, words_text,
    String.ofList_toList, parseI64_toString r.pid_lower r.pid_upper, number,
    parseU64_toString r.updownfor_upper, upText_true]
  rfl

theorem unbroken_report (newline : '\n' ∉ name.toList) (r : Report) :
    Unbroken (name ++ "|" ++ r.text).toList where
  newline := by
    simp only [String.toList_append, List.mem_append, toList_text, List.mem_cons, not_or]
    exact ⟨⟨newline, by decide⟩, solid_unbroken (upText_solid _), by decide,
      solid_unbroken int_solid, by decide, solid_unbroken digits_solid⟩
  last := by
    intro last
    have mem : '\r' ∈ Nat.toDigits 10 r.updownfor := by
      simp only [String.toList_append, toList_text, List.getLast?_append, List.getLast?_cons]
        at last
      cases end_ : (Nat.toDigits 10 r.updownfor).getLast? with
      | none => exact absurd (List.getLast?_eq_none_iff.mp end_) toDigits_ne_nil
      | some c =>
        have same : c = '\r' := by simpa [end_] using last
        exact same ▸ List.mem_of_getLast? end_
    exact absurd (digits_solid _ mem) (by decide)

theorem svstatLine_of_reportable (ok : Reportable name) :
    svstatLine name r = name ++ "|" ++ r.text ++ "\n" := by
  simp only [svstatLine, substituted_of_unbroken ok.newline, ok.listed, Bool.false_eq_true, if_false]

/-- The services of s6 are passed over. -/
theorem svstatLine_internal (internal : Mcp.s6InternalServices.contains name = true) :
    svstatLine name r = "" := by
  have unbroken : ∀ n ∈ Mcp.s6InternalServices, '\n' ∉ n.toList := by decide
  have same := substituted_of_unbroken (unbroken name (List.contains_iff_mem.mp internal))
  simp only [svstatLine, same, internal, if_true]

/-- The line of a service is read as what it reports, under the name of the service. -/
theorem parseSvstatBatch_svstatLine (ok : Reportable name) (r : Report) (rest : String) :
    parseSvstatBatch (svstatLine name r ++ rest) = r.stat name :: parseSvstatBatch rest := by
  have printed : svstatLine name r = String.ofList (name ++ "|" ++ r.text).toList ++ "\n" := by
    rw [svstatLine_of_reportable ok, String.ofList_toList]
  rw [printed, parseSvstatBatch_line (unbroken_report ok.newline r), String.ofList_toList,
    parseLine_report ok.nonempty ok.bar]
  rfl

/-- Only such names are reported. -/
theorem reportable_of_parsed (printed : r.stat name ∈ parseSvstatBatch (svstatLine name r)) :
    Reportable name := by
  obtain ⟨nonempty, bar, newline⟩ := mem_parseSvstatBatch printed
  have bar : '|' ∉ name.toList := bar
  have newline : '\n' ∉ name.toList := newline
  refine ⟨nonempty, bar, newline, ?_⟩
  by_contra listed
  rw [Bool.not_eq_false] at listed
  have nothing : parseSvstatBatch "" = [] := by decide
  rw [svstatLine_internal listed, nothing] at printed
  cases printed

end Codery.S6
