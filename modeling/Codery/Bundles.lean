import Codery.Routes
import Codery.Effect.Files
import Mathlib.Data.String.Basic

/-! The s6 service bundles that `sync_s6` renders from the `apps` table (`db.rs`). -/

namespace Codery.Db

open Codery.Effect Codery.Effect.Files

/-- `Path::join` with a relative path that does not go up. -/
def join (p : FilePath) (name : String) : FilePath :=
  p ++ ((name.toList.splitOn '/').map String.ofList).filter fun part => part ≠ "" ∧ part ≠ "."

/-- `Path::display` of a path below the directory `dir`. -/
def display (dir : String) (p : FilePath) : String := "/".intercalate (dir :: p)

def shellQuote (s : String) : String :=
  "'" ++ .ofList (s.toList.flatMap fun c => if c = '\x27' then "'\\''".toList else [c]) ++ "'"

def exportLine (pair : String × String) : String :=
  "export " ++ pair.1 ++ "=" ++ shellQuote pair.2 ++ "\n\n"

/-- The lines for `env`, in the order of their keys. -/
def exportLines (env : Option (List (String × String))) : String :=
  .join (((env.getD []).insertionSort (·.1 ≤ ·.1)).map exportLine)

def renderRun (app : AppRecord) : String :=
  "#!/bin/bash\n" ++
  ". /usr/local/bin/s6-load-locale-env\n" ++
  "export PATH=\"/nix/var/nix/profiles/default/bin:$PATH\"\n" ++
  "export HOME=/home/gem\n" ++
  exportLines app.env ++
  "cd " ++ shellQuote app.directory ++ "\n\n" ++
  "exec /command/s6-setuidgid " ++ shellQuote app.user ++ " bash -c " ++ shellQuote app.command ++
  "\n\n"

theorem insertionSort_perm {α : Type} {le : α → α → Prop} [DecidableRel le] [Std.Total le]
    [IsTrans α le] {l l' : List α} (perm : l.Perm l')
    (antisymm : ∀ a ∈ l, ∀ b ∈ l, le a b → le b a → a = b) :
    l.insertionSort le = l'.insertionSort le := by
  refine List.Perm.eq_of_pairwise (fun a b mem mem' => ?_) (List.pairwise_insertionSort le l)
    (List.pairwise_insertionSort le l')
    (((List.perm_insertionSort le l).trans perm).trans (List.perm_insertionSort le l').symm)
  rw [List.mem_insertionSort] at mem mem'
  exact antisymm a mem b (perm.mem_iff.mpr mem')

/-- The order in which the `HashMap` of the environment is walked does not show. -/
theorem exportLines_perm {env env' : List (String × String)} (perm : env.Perm env')
    (keys : (env.map (·.1)).Nodup) : exportLines (some env) = exportLines (some env') := by
  have total : Std.Total fun a b : String × String => a.1 ≤ b.1 := ⟨fun a b => le_total a.1 b.1⟩
  have transitive : IsTrans (String × String) fun a b => a.1 ≤ b.1 :=
    ⟨fun _ _ _ first second => le_trans first second⟩
  have sorted : env.insertionSort (·.1 ≤ ·.1) = env'.insertionSort (·.1 ≤ ·.1) :=
    insertionSort_perm perm fun a here b there le ge =>
      List.inj_on_of_nodup_map keys here there (le_antisymm le ge)
  exact congrArg (fun l => String.join (l.map exportLine)) sorted

def renderFinish (policy : String) : String :=
  if policy = "on_failure" then
    "#!/bin/bash\nif [ \"$1\" = \"0\" ]; then exec /command/s6-svc -d .; fi\nexit 0\n"
  else "#!/bin/bash\nexec /command/s6-svc -d .\n"

def writeExecutable (dir : String) (p : FilePath) (content : String) : Io Unit := do
  Io.context ("failed to write " ++ display dir p) (write p content)
  setExecutable p

def writeBundle (dir : String) (app : AppRecord) : Io Unit := do
  let bdir := join [] app.name
  createDirAll (join bdir "dependencies.d")
  write (join bdir "type") "longrun\n"
  write (join (join bdir "dependencies.d") "base") ""
  write (join bdir "timeout-kill") "10000\n"
  writeExecutable dir (join bdir "run") (renderRun app)
  if app.restart = "always" then Io.ignore (removeFile (join bdir "finish"))
  else writeExecutable dir (join bdir "finish") (renderFinish app.restart)

def writeBundles (dir : String) : List AppRecord → Io Unit
  | [] => pure ()
  | app :: apps => do
    writeBundle dir app
    writeBundles dir apps

def managed (apps : List AppRecord) (name : String) : Bool :=
  apps.any fun a => a.name == name && a.source == "runtime"

def pruneEntry (dir : String) (apps : List AppRecord) (name : String) : Io Unit := do
  nextEntry
  let isDir ← isDir [name]
  if isDir ∧ managed apps name = false then
    Io.context ("failed to prune " ++ display dir [name]) (removeDirAll [name])
  else pure ()

/-- The loop over the entries of the directory. -/
def prune (dir : String) (apps : List AppRecord) : List String → Io Unit
  | [] => pure ()
  | name :: names => do
    pruneEntry dir apps name
    prune dir apps names

/-- `sync_s6_to_dir`, once the table has been listed.  Paths are below `dir`. -/
def syncS6ToDir (dir : String) (apps : List AppRecord) : Io Unit := do
  Io.context ("failed to create " ++ dir) (createDirAll [])
  let names ← readDir []
  prune dir apps names
  writeBundles dir (apps.filter (·.source == "runtime"))

/-! ### What the directory is for -/

/-- The bundle of an app, below its directory. -/
def bundle (app : AppRecord) (q : FilePath) : Option Node :=
  if q = [] then some .dir
  else if q = ["dependencies.d"] then some .dir
  else if q = ["dependencies.d", "base"] then some (.file "" false)
  else if q = ["type"] then some (.file "longrun\n" false)
  else if q = ["timeout-kill"] then some (.file "10000\n" false)
  else if q = ["run"] then some (.file (renderRun app) true)
  else if q = ["finish"] ∧ app.restart ≠ "always" then
    some (.file (renderFinish app.restart) true)
  else none

/-- What the directory holds for a table: a bundle for each row with source `runtime`. -/
def rendered (apps : List AppRecord) : FilePath → Option Node
  | [] => some .dir
  | name :: q =>
    (apps.find? fun a => a.name == name && a.source == "runtime").bind fun app => bundle app q

/-- A name of one path component, and not one that starts with a dot. -/
structure PlainName (name : String) : Prop where
  nonempty : name ≠ ""
  slash : '/' ∉ name.toList
  dot : '.' ∉ name.toList

/-- A table of apps: its names are plain, and distinct as its constraint has it. -/
structure PlainTable (apps : List AppRecord) : Prop where
  plain : ∀ a ∈ apps, PlainName a.name
  distinct : (apps.map (·.name)).Nodup

/-- What syncs of any such tables can leave, the unfinished ones included. -/
inductive Left (dir : String) : Files → Prop
  | empty : Left dir .empty
  | sync {fs fs' : Files} {apps : List AppRecord} {p : Prog Files.sig (Except String Unit)} :
      Left dir fs → PlainTable apps → Reaches steps ((syncS6ToDir dir apps).run, fs) (p, fs') →
        Left dir fs'

/-- Note where the sync goes on past an error although something is there that should not be: the
directory of an app without a bundle that `is_dir` could not examine, a `finish` that `remove_file`
could not remove. -/
def dropped (apps : List AppRecord) :
    (c : Files.Call) → Files → c.Reply → List FilePath → List FilePath
  | .isDir p, fs, r, left =>
    if r = false ∧ (fs.node p).isSome ∧ (rendered apps p).isNone then p :: left else left
  | .removeFile p, fs, r, left =>
    if r ≠ .ok () ∧ (fs.node p).isSome ∧ (rendered apps p).isNone then p :: left else left
  | _, _, _, left => left

end Codery.Db
