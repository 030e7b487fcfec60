import Codery.Effect.Safety
import Mathlib.Data.List.Dedup
import Mathlib.Data.List.Infix

/-! A directory tree and the calls that change it.  Every call may fail, and a call that does its
work in several steps may fail after any of them. -/

namespace Codery.Effect

abbrev FilePath := List String

inductive Node
  | file (text : String) (executable : Bool)
  | dir
  deriving DecidableEq

/-- A tree: what is there is there in a directory. -/
structure Files where
  entries : List (FilePath × Node)
  rooted : ∀ p, (entries.lookup p).isSome → p = [] ∨ entries.lookup p.dropLast = some .dir

namespace Files

theorem lookup_filter {α β : Type} [BEq α] [LawfulBEq α] (keep : α → Bool) (l : List (α × β))
    (a : α) : (l.filter fun e => keep e.1).lookup a = if keep a then l.lookup a else none := by
  induction l with
  | nil => simp
  | cons e l ih =>
    obtain ⟨b, x⟩ := e
    by_cases same : a = b
    · subst same
      cases kept : keep a with
      | true => simp [kept]
      | false =>
        rw [List.filter_cons_of_neg (by simp [kept]), ih, kept]
        rfl
    · have other : (a == b) = false := beq_eq_false_iff_ne.mpr same
      cases kept : keep b <;> simp [List.lookup_cons, kept, other, ih]

def node (fs : Files) (p : FilePath) : Option Node := fs.entries.lookup p

def empty : Files := ⟨[], by simp⟩

@[simp] theorem node_empty (p : FilePath) : empty.node p = none := rfl

variable {fs fs' : Files} {p q g : FilePath} {x : Node} {n text : String}

theorem parent (there : (fs.node p).isSome) : p = [] ∨ fs.node p.dropLast = some .dir :=
  fs.rooted p there

/-- What lies below a path is there only if the path is a directory. -/
theorem dir_of_below {t : FilePath} (there : (fs.node (p ++ n :: t)).isSome) :
    fs.node p = some .dir := by
  induction t using List.reverseRecOn with
  | nil =>
    rcases fs.parent there with none | found
    · simp at none
    · simpa using found
  | append_singleton t m ih =>
    rcases fs.parent there with none | found
    · simp at none
    · refine ih ?_
      rw [show p ++ n :: (t ++ [m]) = (p ++ n :: t) ++ [m] by simp, List.dropLast_concat] at found
      rw [found]
      rfl

/-- Whether a file at `p` may be run. -/
def executable (fs : Files) (p : FilePath) : Bool :=
  match fs.node p with
  | some (.file _ x) => x
  | _ => false

/-- There is a directory for `p` to be in. -/
def HasParent (fs : Files) (p : FilePath) : Prop := p = [] ∨ fs.node p.dropLast = some .dir

instance : Decidable (fs.HasParent p) := inferInstanceAs (Decidable (_ ∨ _))

/-- Put `x` at `p`, where no directory becomes a file. -/
def put (fs : Files) (p : FilePath) (x : Node) (parent : fs.HasParent p)
    (kind : fs.node p = some .dir → x = .dir) : Files where
  entries := (p, x) :: fs.entries
  rooted q there := by
    have old (r : FilePath) (found : fs.node r = some .dir) :
        List.lookup r ((p, x) :: fs.entries) = some .dir := by
      by_cases same : r = p
      · subst same
        rw [List.lookup_cons_self, kind found]
      · rw [List.lookup_cons, beq_eq_false_iff_ne.mpr same]
        exact found
    by_cases same : q = p
    · subst same
      exact parent.imp id (old _)
    · rw [List.lookup_cons, beq_eq_false_iff_ne.mpr same] at there
      exact (fs.rooted q there).imp id (old _)

@[simp] theorem node_put {parent : fs.HasParent p} {kind : fs.node p = some .dir → x = .dir} :
    (fs.put p x parent kind).node = Function.update fs.node p (some x) := by
  funext q
  by_cases same : q = p
  · subst same
    simp [node, put]
  · simp [node, put, List.lookup_cons, beq_eq_false_iff_ne.mpr same, Function.update_of_ne same]

/-- Take away what is at the paths of `gone` and below them. -/
def without (fs : Files) (gone : List FilePath) : Files where
  entries := fs.entries.filter fun e => !gone.any (·.isPrefixOf e.1)
  rooted q there := by
    rw [lookup_filter (fun r : FilePath => !gone.any (·.isPrefixOf r))] at there
    split at there
    case isTrue kept =>
      refine (fs.rooted q there).imp id fun found => ?_
      rw [lookup_filter (fun r : FilePath => !gone.any (·.isPrefixOf r)), if_pos ?_, found]
      simp only [Bool.not_eq_true', List.any_eq_false, List.isPrefixOf_iff_prefix] at kept ⊢
      exact fun g mem below => kept g mem (below.trans (List.dropLast_prefix q))
    case isFalse => cases there

theorem node_without (gone : List FilePath) :
    (fs.without gone).node q = if gone.any (·.isPrefixOf q) then none else fs.node q := by
  simp only [node, without]
  rw [lookup_filter (fun r : FilePath => !gone.any (·.isPrefixOf r))]
  cases gone.any (·.isPrefixOf q) <;> rfl

/-- The names in the directory `p`. -/
def children (fs : Files) (p : FilePath) : List String :=
  (fs.entries.filterMap fun e => if e.1.dropLast = p then e.1.getLast? else none).dedup

theorem mem_children : n ∈ fs.children p ↔ (fs.node (p ++ [n])).isSome := by
  simp only [children, List.mem_dedup, List.mem_filterMap, node, List.lookup_isSome_iff]
  constructor
  · rintro ⟨e, mem, found⟩
    split at found
    case isTrue here =>
      refine ⟨e, mem, ?_⟩
      rw [beq_iff_eq, ← here, List.dropLast_append_getLast? n found]
    case isFalse => cases found
  · rintro ⟨e, mem, same⟩
    rw [beq_iff_eq] at same
    exact ⟨e, mem, by simp [← same]⟩

/-! ### Calls -/

/-- `create_dir` on a path that may be there already. -/
def mkdir (fs : Files) (p : FilePath) : Option Files :=
  match fs.node p with
  | some .dir => some fs
  | some (.file _ _) => none
  | none => if parent : fs.HasParent p then some (fs.put p .dir parent fun _ => rfl) else none

/-- What `std::fs::write` leaves; a file keeps its permissions. -/
def store (fs : Files) (p : FilePath) (text : String) : Option Files :=
  if ok : fs.HasParent p ∧ fs.node p ≠ some .dir then
    some (fs.put p (.file text (fs.executable p)) ok.1 fun dir => absurd dir ok.2)
  else none

def chmod (fs : Files) (p : FilePath) : Option Files :=
  match found : fs.node p with
  | some (.file text _) =>
    some (fs.put p (.file text true) (fs.parent (by simp [found])) fun dir => by
      rw [found] at dir
      cases dir)
  | _ => none

inductive Call
  | createDirAll (p : FilePath)
  | readDir (p : FilePath)
  /-- The next of the entries of a directory that is being read. -/
  | nextEntry
  | isDir (p : FilePath)
  | removeDirAll (p : FilePath)
  | write (p : FilePath) (text : String)
  /-- `set_permissions` with the mode 755. -/
  | setExecutable (p : FilePath)
  | removeFile (p : FilePath)

@[reducible] def Call.Reply : Call → Type
  | .readDir _ => Except String (List String)
  | .isDir _ => Bool
  | _ => Except String Unit

abbrev sig : Signature.{0} := ⟨Call, Call.Reply⟩

/-- How far a call comes, and in what order a directory is read. -/
inductive Choice
  | ok
  | fail
  | torn (n : ℕ)
  | gone (paths : List FilePath)
  | listed (names : List String)

def missing : String := "No such file or directory (os error 2)"
def notDir : String := "Not a directory (os error 20)"
def failed : String := "Input/output error (os error 5)"

/-- A call that has done its work, or could not. -/
def done (fs : Files) (error : String) : Option Files → Except String Unit × Files
  | some fs' => (.ok (), fs')
  | none => (.error error, fs)

def Call.answer : (c : Call) → Choice → Files → Option (c.Reply × Files)
  | .createDirAll p, .ok, fs => some (done fs notDir (p.inits.foldlM mkdir fs))
  | .createDirAll p, .torn n, fs =>
    ((p.inits.take n).foldlM mkdir fs).map fun fs' => (.error failed, fs')
  | .createDirAll _, _, _ => none
  | .readDir p, .listed names, fs =>
    if fs.node p = some .dir ∧ names.Perm (fs.children p) then some (.ok names, fs) else none
  | .readDir _, .fail, fs => some (.error failed, fs)
  | .readDir _, _, _ => none
  | .nextEntry, .ok, fs => some (.ok (), fs)
  | .nextEntry, .fail, fs => some (.error failed, fs)
  | .nextEntry, _, _ => none
  | .isDir p, .ok, fs => some (fs.node p = some .dir, fs)
  -- `Path::is_dir` is false where the path cannot be examined.
  | .isDir _, .fail, fs => some (false, fs)
  | .isDir _, _, _ => none
  | .removeDirAll p, .ok, fs =>
    some (done fs notDir (if fs.node p = some .dir then some (fs.without [p]) else none))
  | .removeDirAll p, .gone paths, fs =>
    if paths.all (p.isPrefixOf ·) then some (.error failed, fs.without paths) else none
  | .removeDirAll _, _, _ => none
  | .write p text, .ok, fs => some (done fs missing (fs.store p text))
  | .write p text, .torn n, fs =>
    (fs.store p (.ofList (text.toList.take n))).map fun fs' => (.error failed, fs')
  | .write _ _, .fail, fs => some (.error failed, fs)
  | .write _ _, _, _ => none
  | .setExecutable p, .ok, fs => some (done fs missing (fs.chmod p))
  | .setExecutable _, .fail, fs => some (.error failed, fs)
  | .setExecutable _, _, _ => none
  | .removeFile p, .ok, fs =>
    some (done fs missing
      (if (fs.node p).isSome ∧ fs.node p ≠ some .dir then some (fs.without [p]) else none))
  | .removeFile _, .fail, fs => some (.error failed, fs)
  | .removeFile _, _, _ => none

/-- The steps of a file system: every choice is open to the environment. -/
abbrev steps : StepRel sig Files := handler Call.answer fun _ _ => true

/-! ### What a step can do -/

theorem mkdir_some (made : fs.mkdir p = some fs') :
    fs'.node = Function.update fs.node p (some .dir) := by
  unfold mkdir at made
  split at made
  next found =>
    cases made
    rw [← found, Function.update_eq_self]
  next => cases made
  next =>
    split at made <;> cases made
    exact node_put

theorem mkdirs_some {ps : List FilePath} (made : ps.foldlM mkdir fs = some fs') :
    fs'.node q = if q ∈ ps then some .dir else fs.node q := by
  induction ps generalizing fs with
  | nil =>
    cases made
    simp
  | cons p ps ih =>
    rw [List.foldlM_cons] at made
    obtain ⟨fs₁, first, rest⟩ := Option.bind_eq_some_iff.mp made
    rw [ih rest, mkdir_some first]
    by_cases later : q ∈ ps
    · simp [later]
    · by_cases same : q = p <;> simp [later, same]

theorem store_some (stored : fs.store p text = some fs') :
    fs'.node = Function.update fs.node p (some (.file text (fs.executable p))) := by
  unfold store at stored
  split at stored <;> cases stored
  exact node_put

theorem chmod_some (changed : fs.chmod p = some fs') :
    ∃ text x, fs.node p = some (.file text x) ∧
      fs'.node = Function.update fs.node p (some (.file text true)) := by
  unfold chmod at changed
  split at changed <;> cases changed
  next text x found => exact ⟨text, x, found, node_put⟩

theorem node_without_one : (fs.without [p]).node q = if p <+: q then none else fs.node q := by
  rw [node_without]
  by_cases below : p <+: q <;> simp [below]

theorem done_ok {error : String} {made : Option Files} {r : Except String Unit}
    (ans : done fs error made = (r, fs')) :
    r = .ok () ∧ made = some fs' ∨ r = .error error ∧ made = none ∧ fs' = fs := by
  cases made <;> cases ans
  · exact .inr ⟨rfl, rfl, rfl⟩
  · exact .inl ⟨rfl, rfl⟩

section Steps

variable {c : Call} {r : c.Reply} {e : Except String Unit}

theorem step_createDirAll (step : steps (.createDirAll p) fs e fs') :
    (∃ ps : List FilePath, (∀ q ∈ ps, q <+: p) ∧
        ∀ q, fs'.node q = if q ∈ ps then some .dir else fs.node q) ∧
      (e = .ok () → ∀ q, q <+: p → fs'.node q = some .dir) := by
  obtain ⟨o, -, ans⟩ := step
  cases o with
  | ok =>
    rcases done_ok (Option.some.inj ans) with ⟨rfl, made⟩ | ⟨rfl, -, rfl⟩
    · refine ⟨⟨p.inits, by simp, fun q => mkdirs_some made⟩, fun _ q below => ?_⟩
      rw [mkdirs_some made, if_pos ((List.mem_inits q p).mpr below)]
    · exact ⟨⟨[], by simp⟩, nofun⟩
  | torn n =>
    obtain ⟨made, found, same⟩ := Option.map_eq_some_iff.mp ans
    cases same
    refine ⟨⟨_, fun q mem => ?_, fun q => mkdirs_some found⟩, nofun⟩
    exact (List.mem_inits q p).mp (List.mem_of_mem_take mem)
  | _ => cases ans

theorem step_readDir {r : Except String (List String)} (step : steps (.readDir p) fs r fs') :
    fs' = fs ∧ ∀ names, r = .ok names → fs.node p = some .dir ∧ names.Perm (fs.children p) := by
  obtain ⟨o, -, ans⟩ := step
  cases o with
  | listed names =>
    simp only [Call.answer] at ans
    split at ans <;> cases ans
    next found =>
      refine ⟨rfl, fun names' same => ?_⟩
      cases same
      exact found
  | fail =>
    cases ans
    exact ⟨rfl, nofun⟩
  | _ => cases ans

theorem step_nextEntry (step : steps .nextEntry fs e fs') : fs' = fs := by
  obtain ⟨o, -, ans⟩ := step
  cases o <;> cases ans <;> rfl

theorem step_isDir {r : Bool} (step : steps (.isDir p) fs r fs') :
    fs' = fs ∧ (r = true → fs.node p = some .dir) := by
  obtain ⟨o, -, ans⟩ := step
  cases o <;> cases ans <;> simp

theorem step_removeDirAll (step : steps (.removeDirAll p) fs e fs') :
    (∀ q, fs'.node q = fs.node q ∨ p <+: q ∧ fs'.node q = none) ∧
      (e = .ok () → ∀ q, p <+: q → fs'.node q = none) := by
  obtain ⟨o, -, ans⟩ := step
  cases o with
  | ok =>
    rcases done_ok (Option.some.inj ans) with ⟨rfl, made⟩ | ⟨rfl, -, rfl⟩
    · split at made <;> cases made
      refine ⟨fun q => ?_, fun _ q below => by rw [node_without_one, if_pos below]⟩
      rw [node_without_one]
      split
      case isTrue below => exact .inr ⟨below, rfl⟩
      case isFalse => exact .inl rfl
    · exact ⟨fun _ => .inl rfl, nofun⟩
  | gone paths =>
    simp only [Call.answer] at ans
    split at ans <;> cases ans
    next inside =>
      refine ⟨fun q => ?_, nofun⟩
      rw [node_without]
      split
      case isTrue taken =>
        obtain ⟨g, mem, below⟩ := List.any_eq_true.mp taken
        have under := List.isPrefixOf_iff_prefix.mp (List.all_eq_true.mp inside g mem)
        exact .inr ⟨under.trans (List.isPrefixOf_iff_prefix.mp below), rfl⟩
      case isFalse => exact .inl rfl
  | _ => cases ans

theorem step_write (step : steps (.write p text) fs e fs') :
    (fs'.node = fs.node ∨
        ∃ t, fs'.node = Function.update fs.node p (some (.file t (fs.executable p)))) ∧
      (e = .ok () →
        fs'.node = Function.update fs.node p (some (.file text (fs.executable p)))) := by
  obtain ⟨o, -, ans⟩ := step
  cases o with
  | ok =>
    rcases done_ok (Option.some.inj ans) with ⟨rfl, stored⟩ | ⟨rfl, -, rfl⟩
    · exact ⟨.inr ⟨text, store_some stored⟩, fun _ => store_some stored⟩
    · exact ⟨.inl rfl, nofun⟩
  | torn n =>
    obtain ⟨made, stored, same⟩ := Option.map_eq_some_iff.mp ans
    cases same
    exact ⟨.inr ⟨_, store_some stored⟩, nofun⟩
  | fail =>
    cases ans
    exact ⟨.inl rfl, nofun⟩
  | _ => cases ans

theorem step_setExecutable (step : steps (.setExecutable p) fs e fs') :
    (e = .ok () ∧ ∃ text x, fs.node p = some (.file text x) ∧
        fs'.node = Function.update fs.node p (some (.file text true))) ∨
      e ≠ .ok () ∧ fs' = fs := by
  obtain ⟨o, -, ans⟩ := step
  cases o with
  | ok =>
    rcases done_ok (Option.some.inj ans) with ⟨rfl, changed⟩ | ⟨rfl, -, rfl⟩
    · exact .inl ⟨rfl, chmod_some changed⟩
    · exact .inr ⟨nofun, rfl⟩
  | fail =>
    cases ans
    exact .inr ⟨nofun, rfl⟩
  | _ => cases ans

theorem step_removeFile (step : steps (.removeFile p) fs e fs') :
    (e = .ok () ∧ fs'.node = Function.update fs.node p none) ∨ e ≠ .ok () ∧ fs' = fs := by
  obtain ⟨o, -, ans⟩ := step
  cases o with
  | ok =>
    rcases done_ok (Option.some.inj ans) with ⟨rfl, removed⟩ | ⟨rfl, -, rfl⟩
    · split at removed <;> cases removed
      next file =>
        refine .inl ⟨rfl, funext fun q => ?_⟩
        rw [node_without_one]
        by_cases same : q = p
        · simp [same]
        · rw [Function.update_of_ne same]
          split
          case isTrue below =>
            obtain ⟨t, rfl⟩ := below
            cases t with
            | nil => simp at same
            | cons n t =>
              refine (Option.not_isSome_iff_eq_none.mp fun there => ?_).symm
              exact file.2 (dir_of_below there)
          case isFalse => rfl
    · exact .inr ⟨nofun, rfl⟩
  | fail =>
    cases ans
    exact .inr ⟨nofun, rfl⟩
  | _ => cases ans

/-- The paths a call may change. -/
def Call.Touches (q : FilePath) : Call → Prop
  | .createDirAll p => q <+: p
  | .removeDirAll p => p <+: q
  | .write p _ => q = p
  | .setExecutable p => q = p
  | .removeFile p => q = p
  | _ => False

theorem untouched (step : steps c fs r fs') (other : ¬ c.Touches q) : fs'.node q = fs.node q := by
  cases c with
  | createDirAll p =>
    obtain ⟨⟨ps, inside, same⟩, -⟩ := step_createDirAll step
    rw [same, if_neg fun mem => other (inside q mem)]
  | readDir p => rw [(step_readDir step).1]
  | nextEntry => rw [step_nextEntry step]
  | isDir p => rw [(step_isDir step).1]
  | removeDirAll p =>
    rcases (step_removeDirAll step).1 q with same | ⟨below, -⟩
    · exact same
    · exact absurd below other
  | write p text =>
    rcases (step_write step).1 with same | ⟨t, same⟩
    · rw [same]
    · rw [same, Function.update_of_ne other]
  | setExecutable p =>
    rcases step_setExecutable step with ⟨-, _, _, -, same⟩ | ⟨-, rfl⟩
    · rw [same, Function.update_of_ne other]
    · rfl
  | removeFile p =>
    rcases step_removeFile step with ⟨-, same⟩ | ⟨-, rfl⟩
    · rw [same, Function.update_of_ne other]
    · rfl

/-- What a call may put where. -/
def Call.Makes (fs : Files) (q : FilePath) (x : Node) : Call → Prop
  | .createDirAll p => q <+: p ∧ x = .dir
  | .write p _ => q = p ∧ ∃ t, x = .file t (fs.executable p)
  | .setExecutable p => q = p ∧ ∃ t y, fs.node p = some (.file t y) ∧ x = .file t true
  | _ => False

/-- Whatever comes of a call, what is there afterwards was there before or was put there. -/
theorem made (step : steps c fs r fs') (there : fs'.node q = some x) :
    fs.node q = some x ∨ c.Makes fs q x := by
  by_cases touched : c.Touches q
  case neg => exact .inl (untouched step touched ▸ there)
  cases c with
  | createDirAll p =>
    obtain ⟨⟨ps, inside, same⟩, -⟩ := step_createDirAll step
    rw [same] at there
    split at there
    · cases there
      exact .inr ⟨touched, rfl⟩
    · exact .inl there
  | readDir p => exact touched.elim
  | nextEntry => exact touched.elim
  | isDir p => exact touched.elim
  | removeDirAll p =>
    rcases (step_removeDirAll step).1 q with same | ⟨-, none⟩
    · exact .inl (same ▸ there)
    · simp [none] at there
  | write p text =>
    cases touched
    rcases (step_write step).1 with same | ⟨t, same⟩
    · exact .inl (same ▸ there)
    · rw [same, Function.update_self] at there
      cases there
      exact .inr ⟨rfl, t, rfl⟩
  | setExecutable p =>
    cases touched
    rcases step_setExecutable step with ⟨-, t, y, found, same⟩ | ⟨-, rfl⟩
    · rw [same, Function.update_self] at there
      cases there
      exact .inr ⟨rfl, t, y, found, rfl⟩
    · exact .inl there
  | removeFile p =>
    cases touched
    rcases step_removeFile step with ⟨-, same⟩ | ⟨-, rfl⟩
    · simp [same] at there
    · exact .inl there

end Steps

/-! ### Programs -/

/-- A fallible program on files. -/
abbrev Io (α : Type) := ExceptT String (Prog sig) α

def createDirAll (p : FilePath) : Io Unit := ExceptT.mk (ask (S := sig) (.createDirAll p))

def readDir (p : FilePath) : Io (List String) := ExceptT.mk (ask (S := sig) (.readDir p))

def nextEntry : Io Unit := ExceptT.mk (ask (S := sig) .nextEntry)

def isDir (p : FilePath) : Io Bool := ExceptT.lift (ask (S := sig) (.isDir p))

def removeDirAll (p : FilePath) : Io Unit := ExceptT.mk (ask (S := sig) (.removeDirAll p))

def write (p : FilePath) (text : String) : Io Unit := ExceptT.mk (ask (S := sig) (.write p text))

def setExecutable (p : FilePath) : Io Unit := ExceptT.mk (ask (S := sig) (.setExecutable p))

def removeFile (p : FilePath) : Io Unit := ExceptT.mk (ask (S := sig) (.removeFile p))

variable {α : Type}

/-- `.with_context(..)`. -/
def Io.context (message : String) (x : Io α) : Io α := x.adapt fun _ => message

/-- `let _ = ..`: go on whatever `x` returned. -/
def Io.ignore (x : Io α) : Io Unit := ExceptT.lift (x.run >>= fun _ => .ret ())

section Rules

variable {W : Type} {H I : StepRel sig W} {w : W} {x : Io α} {message : String}

theorem Io.context_only {P : Call → Prop} (hx : x.run.Only P) :
    (Io.context message x).run.Only P := Prog.Only.bind hx fun _ => trivial

theorem Io.ignore_only {P : Call → Prop} (hx : x.run.Only P) : (Io.ignore x).run.Only P :=
  Prog.Only.liftE (Prog.Only.bind hx fun _ => trivial)

theorem Io.context_safe {R Q : Except String α → W → Prop} (hx : Safe H I R x.run w)
    (ok : ∀ a w', R (.ok a) w' → Q (.ok a) w')
    (error : ∀ e w', R (.error e) w' → Q (.error message) w') :
    Safe H I Q (Io.context message x).run w := by
  refine Safe.bind hx fun r w' h => ?_
  cases r with
  | ok a => exact ok a w' h
  | error e => exact error e w' h

end Rules

end Files

end Codery.Effect
