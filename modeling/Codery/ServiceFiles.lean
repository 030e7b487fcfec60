import Codery.Effect.Rely
import Codery.ImageNames

/-! The directory of service definitions: what `mcp.rs` writes there and what `service_def.rs` loads,
while both happen at once. -/

namespace Codery.ServiceFiles

open Codery.Effect

/-! ### Names of files -/

/-- The name before its last `.`, if that is not its first character, and what is behind it. -/
def splitName (file : String) : Option (String × String) :=
  match file.toList.reverse.dropWhile (· ≠ '.') with
  | _ :: c :: rest => some (String.ofList (c :: rest).reverse,
    String.ofList (file.toList.reverse.takeWhile (· ≠ '.')).reverse)
  | _ => none

/-- `Path::extension`. -/
def extension (file : String) : Option String := (splitName file).map (·.2)

/-- `Path::file_stem`. -/
def fileStem (file : String) : String := ((splitName file).map (·.1)).getD file

/-- `Path::with_extension`. -/
def withExtension (file ext : String) : String := fileStem file ++ "." ++ ext

/-! ### The directory -/

structure Dir where
  /-- Whether there is a directory at all. -/
  there : Bool
  files : List (String × String)
  nodup : (files.map (·.1)).Nodup

namespace Dir

def read (d : Dir) (file : String) : Option String := d.files.lookup file

def remove (d : Dir) (file : String) : Dir where
  there := d.there
  files := d.files.filter (·.1 ≠ file)
  nodup := d.nodup.sublist (List.filter_sublist.map _)

def put (d : Dir) (file text : String) : Dir where
  there := d.there
  files := (file, text) :: (d.remove file).files
  nodup := by
    refine List.nodup_cons.mpr ⟨fun mem => ?_, (d.remove file).nodup⟩
    obtain ⟨x, kept, same⟩ := List.mem_map.mp mem
    have other : x.1 ≠ file := by simpa using (List.mem_filter.mp kept).2
    exact other same

def create (d : Dir) : Dir := { d with there := true }

end Dir

inductive Call
  | dirExists
  | createDirAll
  | readDir
  | fileExists (file : String)
  | read (file : String)
  | create (file : String)
  | fill (file text : String)
  | rename (file file' : String)
  | remove (file : String)

def sig : Signature where
  Call := Call
  Reply
    | .dirExists => Bool
    | .createDirAll => Except String Unit
    | .readDir => Except String (List (Option String))
    | .fileExists _ => Bool
    | .read _ => Except String String
    | .create _ => Except String Unit
    | .fill _ _ => Except String Unit
    | .rename _ _ => Except String Unit
    | .remove _ => Except String Unit

/-- What the system makes of a call: whether it fails, in which order it lists the entries and which
it cannot read, and how much it writes before it fails. -/
structure Choice where
  fails : Option String := none
  entries : List (Option String) := []
  written : ℕ := 0

/-- The entries are those of the directory, each once, less the ones that cannot be read. -/
def Dir.Lists (d : Dir) (entries : List (Option String)) : Prop :=
  entries.reduceOption.Nodup ∧ (∀ file ∈ entries.reduceOption, file ∈ d.files.map (·.1)) ∧
    entries.length = d.files.length

instance (d : Dir) (entries : List (Option String)) : Decidable (d.Lists entries) :=
  inferInstanceAs (Decidable (_ ∧ _ ∧ _))

def noSuchFile : String := "No such file or directory (os error 2)"

def answer (c : Call) (o : Choice) (d : Dir) : Option (sig.Reply c × Dir) :=
  match c with
  | .dirExists => some (o.fails.isNone && d.there, d)
  | .createDirAll => some (match o.fails with
    | some e => (.error e, d)
    | none => (.ok (), d.create))
  | .readDir => match o.fails with
    | some e => some (.error e, d)
    | none => if d.Lists o.entries then some (.ok o.entries, d) else none
  | .fileExists file => some (o.fails.isNone && (d.read file).isSome, d)
  | .read file => some (match o.fails, d.read file with
    | some e, _ => .error e
    | none, some text => .ok text
    | none, none => .error noSuchFile, d)
  | .create file => some (match o.fails with
    | some e => (.error e, d)
    | none => (.ok (), d.put file ""))
  | .fill file text => some (match o.fails with
    | some e => (.error e, d.put file (String.ofList (text.toList.take o.written)))
    | none => (.ok (), d.put file text))
  | .rename file file' => some (match o.fails with
    | some e => (.error e, d)
    | none => match d.read file with
      | some text => (.ok (), (d.remove file).put file' text)
      | none => (.error noSuchFile, d))
  | .remove file => some (match o.fails with
    | some e => (.error e, d)
    | none => if (d.read file).isSome then (.ok (), d.remove file) else (.error noSuchFile, d))

abbrev H : StepRel sig Dir := handler answer fun _ _ => true

abbrev Io (α : Type) := ExceptT String (Prog sig) α

def call (c : Call) : Io (sig.Reply c) := ExceptT.lift (ask (S := sig) c)

def ofExcept {α : Type} (x : Except String α) : Io α := ExceptT.mk (.ret x)

/-- `map_err`, with a text before the error. -/
def mapErr {α : Type} (message : String) (x : Except String α) : Except String α :=
  x.mapError fun e => message ++ ": " ++ e

/-- `context`: the error that is shown, over its cause. -/
def context {α : Type} (message : String) (x : Except String α) : Except String α :=
  x.mapError fun _ => message

/-! ### The tools and the loader -/

/-- What is outside of the repository: the characters, and `serde_yaml`. -/
structure Yaml where
  alphabet : Alphabet
  parse : String → Except String ServiceDef

variable (y : Yaml)

/-- The file of a service, in the directory. -/
def servicePath (name : String) : Except String String := do
  validateServiceName y.alphabet name
  return name ++ ".yml"

def path (file : String) : String := servicesDir ++ "/" ++ file

def listServices : Io (List String) := do
  if !(← call .dirExists) then return []
  else
    let entries ← ofExcept (mapErr "failed to read services dir" (← call .readDir))
    let names := (entries.reduceOption.filter fun file => extension file = some "yml").map fileStem
    return names.mergeSort fun a b => decide (a ≤ b)

def getService (name : String) : Io String := do
  let file ← ofExcept (servicePath y name)
  match ← call (.read file) with
  | .error _ => throw ("service '" ++ name ++ "' not found at " ++ path file)
  | .ok content =>
    return content ++ "\n\n---\nGuidance: Edit with upsert_service, then reload_routes to apply " ++
      "routing changes."

/-- `std::fs::write` of the temporary file. -/
def writeTmp (tmp yaml : String) : Io Unit := do
  let message := "failed to write " ++ path tmp
  ofExcept (mapErr message (← call (.create tmp)))
  ofExcept (mapErr message (← call (.fill tmp yaml)))

def upsertService (name yaml : String) : Io String := do
  ofExcept (validateServiceName y.alphabet name)
  let d ← ofExcept (mapErr "invalid service YAML" (y.parse yaml))
  if d.service ≠ name then
    throw ("service field '" ++ d.service ++ "' in YAML does not match name parameter '" ++ name ++ "'")
  else do
    ofExcept (mapErr ("failed to create " ++ servicesDir) (← call .createDirAll))
    let file ← ofExcept (servicePath y name)
    let tmp := withExtension file "yml.tmp"
    writeTmp tmp yaml
    ofExcept (mapErr ("failed to rename " ++ path tmp ++ " to " ++ path file)
      (← call (.rename tmp file)))
    return "service '" ++ name ++ "' written to \"" ++ path file ++ "\" (" ++
      toString yaml.utf8ByteSize ++ " bytes)"

def deleteService (name : String) : Io String := do
  let file ← ofExcept (servicePath y name)
  if !(← call (.fileExists file)) then
    throw ("service '" ++ name ++ "' not found at " ++ path file)
  else do
    ofExcept (mapErr ("failed to delete " ++ path file) (← call (.remove file)))
    return "service '" ++ name ++ "' deleted from " ++ path file

/-- `ServiceDef::load`. -/
def load (service : String) : Io ServiceDef := do
  let file := service ++ ".yml"
  let data ← ofExcept
    (context ("failed to read service definition at " ++ path file) (← call (.read file)))
  ofExcept (context ("failed to parse " ++ path file) (y.parse data))

/-- The loop of `load_all`. -/
def loadFiles : List (Option String) → Io (List ServiceDef)
  | [] => return []
  | none :: _ => throw "failed to read directory entry"
  | some file :: entries =>
    if extension file = some "yml" then do
      let data ← ofExcept (context ("failed to read " ++ path file) (← call (.read file)))
      let d ← ofExcept (context ("failed to parse " ++ path file) (y.parse data))
      return d :: (← loadFiles entries)
    else loadFiles entries

/-- `ServiceDef::load_all`. -/
def loadAll : Io (List ServiceDef) := do
  if !(← call .dirExists) then return []
  else
    let entries ← ofExcept (context ("failed to read " ++ servicesDir) (← call .readDir))
    loadFiles y entries

inductive Operation
  | list
  | get (name : String)
  | upsert (name yaml : String)
  | delete (name : String)
  | load (service : String)
  | loadAll

inductive Answer
  | text (s : String)
  | names (l : List String)
  | defs (l : List ServiceDef)

def perform : Operation → Prog sig (Except String Answer)
  | .list => (Answer.names <$> listServices).run
  | .get name => (Answer.text <$> getService y name).run
  | .upsert name yaml => (Answer.text <$> upsertService y name yaml).run
  | .delete name => (Answer.text <$> deleteService y name).run
  | .load service => ((fun d => Answer.defs [d]) <$> load y service).run
  | .loadAll => (Answer.defs <$> loadAll y).run

/-! ### Names -/

section

variable {n e file : String}

theorem splitName_dot (some : n ≠ "") (plain : '.' ∉ e.toList) :
    splitName (n ++ "." ++ e) = .some (n, e) := by
  have reversed : (n ++ "." ++ e).toList.reverse = e.toList.reverse ++ '.' :: n.toList.reverse := by
    simp
  have each : ∀ c ∈ e.toList.reverse, decide (c ≠ '.') = true := by
    intro c mem
    exact decide_eq_true fun same => plain (same ▸ List.mem_reverse.mp mem)
  have dropped : (e.toList.reverse ++ '.' :: n.toList.reverse).dropWhile (fun c => decide (c ≠ '.')) =
      '.' :: n.toList.reverse := by
    rw [List.dropWhile_append_of_pos each, List.dropWhile_cons_of_neg (by decide)]
  have taken : (e.toList.reverse ++ '.' :: n.toList.reverse).takeWhile (fun c => decide (c ≠ '.')) =
      e.toList.reverse := by
    rw [List.takeWhile_append_of_pos each, List.takeWhile_cons_of_neg (by decide), List.append_nil]
  unfold splitName
  rw [reversed, dropped, taken]
  cases first : n.toList.reverse with
  | nil =>
    have none : n.toList = [] := List.reverse_eq_nil_iff.mp first
    exact absurd (String.toList_inj.mp none) some
  | cons c cs =>
    have whole : (c :: cs).reverse = n.toList := by rw [← first, List.reverse_reverse]
    show Option.some (String.ofList (c :: cs).reverse, String.ofList e.toList.reverse.reverse) = _
    rw [whole, List.reverse_reverse, String.ofList_toList, String.ofList_toList]

theorem splitName_some {a b : String} (split : splitName file = .some (a, b)) :
    file = a ++ "." ++ b := by
  unfold splitName at split
  split at split
  case h_1 dot c rest dropped =>
    cases split
    have whole := List.takeWhile_append_dropWhile (p := fun c => decide (c ≠ '.'))
      (l := file.toList.reverse)
    have point : dot = '.' := by
      have stops := List.head?_dropWhile_not (fun c => decide (c ≠ '.')) file.toList.reverse
      rw [dropped] at stops
      simpa using stops
    rw [dropped, point] at whole
    generalize file.toList.reverse.takeWhile (fun c => decide (c ≠ '.')) = behind at whole ⊢
    have chars : file.toList = (behind ++ '.' :: c :: rest).reverse := by
      rw [whole, List.reverse_reverse]
    apply String.toList_inj.mp
    rw [chars]
    simp
  case h_2 => cases split

/-- The name of a definition file is that of its service. -/
theorem fileStem_yml (yml : extension file = .some "yml") : file = fileStem file ++ ".yml" := by
  obtain ⟨⟨a, b⟩, split, rfl⟩ := Option.map_eq_some_iff.mp yml
  rw [fileStem, split]
  exact (splitName_some split).trans (String.append_assoc ..)

theorem extension_yml (some : n ≠ "") : extension (n ++ ".yml") = .some "yml" := by
  have split := splitName_dot (e := "yml") some (by decide)
  rw [String.append_assoc] at split
  exact congrArg (Option.map (·.2)) split

theorem withExtension_yml (some : n ≠ "") :
    withExtension (n ++ ".yml") "yml.tmp" = n ++ ".yml.tmp" := by
  have split := splitName_dot (e := "yml") some (by decide)
  rw [String.append_assoc] at split
  have stem : fileStem (n ++ ".yml") = n := by
    rw [fileStem, show splitName (n ++ ".yml") = _ from split]
    rfl
  rw [withExtension, stem, String.append_assoc]
  rfl

theorem extension_tmp (n : String) : extension (n ++ ".yml.tmp") = .some "tmp" := by
  have more : n ++ ".yml" ≠ "" := by
    intro empty
    have := congrArg String.length empty
    simp at this
  have split := splitName_dot (e := "tmp") more (by decide)
  rw [String.append_assoc, String.append_assoc] at split
  exact congrArg (Option.map (·.2)) split

theorem yml_inj {m : String} : n ++ ".yml" = m ++ ".yml" ↔ n = m := by
  constructor
  · intro same
    have chars := congrArg String.toList same
    simp only [String.toList_append, List.append_left_inj] at chars
    exact String.toList_inj.mp chars
  · rintro rfl
    rfl

theorem tmp_inj {m : String} : n ++ ".yml.tmp" = m ++ ".yml.tmp" ↔ n = m := by
  constructor
  · intro same
    have chars := congrArg String.toList same
    simp only [String.toList_append, List.append_left_inj] at chars
    exact String.toList_inj.mp chars
  · rintro rfl
    rfl

theorem tmp_ne_yml (n m : String) : n ++ ".yml.tmp" ≠ m ++ ".yml" := by
  intro same
  have last := congrArg (fun s => s.toList.reverse.head?) same
  simp at last

end

/-! ### Reading and writing -/

namespace Dir

variable {d : Dir} {file g text : String}

theorem lookup_filter (l : List (String × String)) :
    (l.filter (·.1 ≠ file)).lookup g = if g = file then none else l.lookup g := by
  induction l with
  | nil => simp
  | cons x l ih =>
    obtain ⟨f, t⟩ := x
    by_cases kept : f = file
    · subst kept
      rw [List.filter_cons_of_neg (by simp), ih, List.lookup_cons]
      split
      case isTrue => rfl
      case isFalse other => rw [beq_eq_false_iff_ne.mpr other]
    · rw [List.filter_cons_of_pos (by simpa using kept), List.lookup_cons, List.lookup_cons, ih]
      cases same : g == f with
      | true => exact (if_neg fun last => kept (eq_of_beq same ▸ last)).symm
      | false => rfl

theorem read_remove : (d.remove file).read g = if g = file then none else d.read g :=
  lookup_filter d.files

theorem read_put : (d.put file text).read g = if g = file then some text else d.read g := by
  rw [read, put, List.lookup_cons]
  by_cases same : g = file
  · subst same
    simp
  · have other : (g == file) = false := beq_eq_false_iff_ne.mpr same
    rw [other, if_neg same]
    exact (read_remove).trans (if_neg same)

end Dir

end Codery.ServiceFiles
