import Codery.Bundles
import Codery.Effect.Ghost

/-! A sync makes the bundle directory what the `apps` table renders to, whatever earlier syncs have
left in it, unless it goes on past an error. -/

namespace Codery.Db

open Codery.Effect Codery.Effect.Files

variable {apps table : List AppRecord} {app : AppRecord} {n name dir : String} {p q : FilePath}
  {fs fs' : Files} {x y : Node}

/-! ### Paths and bundles -/

theorem join_plain (slash : '/' ∉ name.toList) (nonempty : name ≠ "") (dot : name ≠ ".") :
    join p name = p ++ [name] := by
  have whole : name.toList.splitOn '/' = [name.toList] := by
    rw [List.splitOn, List.splitOnP_eq_singleton]
    exact fun c mem => beq_eq_false_iff_ne.mpr fun same => slash (same ▸ mem)
  rw [join, whole, List.map_singleton, String.ofList_toList, List.filter_cons_of_pos]
  · rfl
  · simp [nonempty, dot]

theorem PlainName.join (plain : PlainName name) : Db.join [] name = [name] := by
  refine join_plain plain.slash plain.nonempty fun same => plain.dot ?_
  rw [same]
  decide

@[simp] theorem join_type : join p "type" = p ++ ["type"] :=
  join_plain (by decide) (by decide) (by decide)
@[simp] theorem join_dependencies : join p "dependencies.d" = p ++ ["dependencies.d"] :=
  join_plain (by decide) (by decide) (by decide)
@[simp] theorem join_base : join p "base" = p ++ ["base"] :=
  join_plain (by decide) (by decide) (by decide)
@[simp] theorem join_timeout : join p "timeout-kill" = p ++ ["timeout-kill"] :=
  join_plain (by decide) (by decide) (by decide)
@[simp] theorem join_run : join p "run" = p ++ ["run"] :=
  join_plain (by decide) (by decide) (by decide)
@[simp] theorem join_finish : join p "finish" = p ++ ["finish"] :=
  join_plain (by decide) (by decide) (by decide)

theorem rendered_bundle (plain : PlainTable apps) (mem : app ∈ apps) (runtime : app.source = "runtime") :
    rendered apps (app.name :: q) = bundle app q := by
  have found : apps.find? (fun a => a.name == app.name && a.source == "runtime") = some app := by
    rw [List.find?_eq_some_iff_append]
    obtain ⟨before, after, rfl⟩ := List.append_of_mem mem
    refine ⟨by simp [runtime], before, after, rfl, fun a earlier => ?_⟩
    have distinct := plain.distinct
    rw [List.map_append, List.nodup_append] at distinct
    have other := distinct.2.2 a.name (List.mem_map_of_mem earlier) app.name (by simp)
    simp [other]
  rw [rendered, found]
  rfl

theorem rendered_unmanaged (unmanaged : managed apps n = false) : rendered apps (n :: q) = none := by
  rw [rendered, List.find?_eq_none.mpr fun a mem => ?_]
  · rfl
  · simpa using List.any_eq_false.mp unmanaged a mem

theorem rendered_managed (row : managed apps n = true) : rendered apps [n] = some .dir := by
  rw [rendered]
  obtain ⟨a, found⟩ := Option.isSome_iff_exists.mp (List.find?_isSome.mpr (List.any_eq_true.mp row))
  rw [found]
  rfl

/-- The paths a bundle can have. -/
def parts : List FilePath :=
  [["finish"], ["run"], ["timeout-kill"], ["dependencies.d", "base"], ["type"], ["dependencies.d"], []]

/-- The permission of a file, and of a directory none. -/
def kind : Node → Option Bool
  | .file _ executable => some executable
  | .dir => none

/-- The kind of what a bundle has at one of its paths. -/
def kindAt (q : FilePath) : Option Bool :=
  if q = [] ∨ q = ["dependencies.d"] then none else some (q = ["run"] ∨ q = ["finish"])

theorem bundle_finish (other : app.restart ≠ "always") :
    bundle app ["finish"] = some (.file (renderFinish app.restart) true) := by
  simp [bundle, other]

theorem bundle_finish_always (always : app.restart = "always") : bundle app ["finish"] = none := by
  simp [bundle, always]

theorem bundle_some (found : bundle app q = some x) : q ∈ parts ∧ kind x = kindAt q := by
  unfold bundle at found
  split_ifs at found <;> cases found <;> simp [parts, kind, kindAt, *]

theorem rendered_some (found : rendered apps (n :: q) = some x) :
    q ∈ parts ∧ kind x = kindAt q := by
  obtain ⟨app, -, found⟩ := Option.bind_eq_some_iff.mp found
  exact bundle_some found

/-- Whatever is there is of the kind that a bundle has there, or is about to be made executable. -/
def Shaped (fs : Files) : Prop :=
  ∀ n q x, fs.node (n :: q) = some x →
    q ∈ parts ∧ (kind x = kindAt q ∨ kind x = some false ∧ kindAt q = some true)

theorem Shaped.not_executable (shaped : Shaped fs) (plain : kindAt q = some false) :
    fs.executable (n :: q) = false := by
  unfold executable
  split
  next text e found =>
    rcases (shaped n q _ found).2 with same | ⟨same, -⟩
    · exact Option.some.inj (same.trans plain)
    · exact Option.some.inj same
  next => rfl

/-- What the sync of `apps` may do: it puts only what belongs there. -/
def Planned (apps : List AppRecord) : Files.Call → Prop
  | .createDirAll p => ∀ q, q <+: p → rendered apps q = some .dir
  | .write p _ => ∃ text e, rendered apps p = some (.file text e)
  | .setExecutable p => ∃ text, rendered apps p = some (.file text true)
  | _ => True

section Planned

variable {c : Files.Call} {r : c.Reply}

theorem Planned.makes (planned : Planned apps c) (makes : c.Makes fs q x) :
    (rendered apps q).isSome := by
  cases c with
  | createDirAll p => simp [planned q makes.1]
  | write p =>
    obtain ⟨rfl, -⟩ := makes
    obtain ⟨text, e, belongs⟩ := planned
    simp [belongs]
  | setExecutable p =>
    obtain ⟨rfl, -⟩ := makes
    obtain ⟨text, belongs⟩ := planned
    simp [belongs]
  | _ => exact makes.elim

theorem Planned.shaped (planned : Planned apps c) (step : steps c fs r fs') (shaped : Shaped fs) :
    Shaped fs' := by
  intro n q x there
  rcases made step there with before | makes
  · exact shaped n q x before
  cases c with
  | createDirAll p =>
    obtain ⟨below, rfl⟩ := makes
    obtain ⟨mem, same⟩ := rendered_some (planned _ below)
    exact ⟨mem, .inl same⟩
  | write p =>
    obtain ⟨rfl, t, rfl⟩ := makes
    obtain ⟨text, e, belongs⟩ := planned
    obtain ⟨mem, same⟩ := rendered_some belongs
    refine ⟨mem, ?_⟩
    cases e with
    | false =>
      rw [shaped.not_executable same.symm]
      exact .inl same
    | true =>
      cases fs.executable (n :: q) with
      | false => exact .inr ⟨rfl, same.symm⟩
      | true => exact .inl same
  | setExecutable p =>
    obtain ⟨rfl, t, e, -, rfl⟩ := makes
    obtain ⟨text, belongs⟩ := planned
    obtain ⟨mem, same⟩ := rendered_some belongs
    exact ⟨mem, .inl same⟩
  | _ => exact makes.elim

end Planned

section Only

variable (plain : PlainTable apps)
include plain

theorem createDependencies_planned (mem : app ∈ apps) (runtime : app.source = "runtime") :
    Planned apps (.createDirAll [app.name, "dependencies.d"]) := by
  intro q below
  have prefixes := (List.mem_inits q _).mpr below
  simp only [List.inits, List.map_cons, List.map_nil, List.mem_cons, List.not_mem_nil, or_false]
    at prefixes
  rcases prefixes with rfl | rfl | rfl
  · rfl
  · exact rendered_bundle plain mem runtime
  · exact rendered_bundle plain mem runtime

theorem writeExecutable_planned (mem : app ∈ apps) (runtime : app.source = "runtime")
    {text : String} (belongs : bundle app q = some (.file text true)) :
    (writeExecutable dir (app.name :: q) text).run.Only (Planned apps) := by
  have there := (rendered_bundle plain mem runtime).trans belongs
  refine Prog.Only.bindE (Io.context_only (Prog.Only.ask ⟨text, true, there⟩)) fun _ => ?_
  exact Prog.Only.ask ⟨text, there⟩

theorem writeBundle_planned (mem : app ∈ apps) (runtime : app.source = "runtime") :
    (writeBundle dir app).run.Only (Planned apps) := by
  have there (q : FilePath) : rendered apps (app.name :: q) = bundle app q :=
    rendered_bundle plain mem runtime
  simp only [writeBundle, (plain.plain app mem).join, join_type, join_dependencies, join_base,
    join_timeout, join_run, join_finish, List.cons_append, List.nil_append]
  refine Prog.Only.bindE (Prog.Only.ask (createDependencies_planned plain mem runtime)) fun _ => ?_
  refine Prog.Only.bindE (Prog.Only.ask ⟨_, _, there _⟩) fun _ => ?_
  refine Prog.Only.bindE (Prog.Only.ask ⟨_, _, there _⟩) fun _ => ?_
  refine Prog.Only.bindE (Prog.Only.ask ⟨_, _, there _⟩) fun _ => ?_
  refine Prog.Only.bindE (writeExecutable_planned plain mem runtime rfl) fun _ => ?_
  split
  case isTrue => exact Io.ignore_only (Prog.Only.ask trivial)
  case isFalse other => exact writeExecutable_planned plain mem runtime (bundle_finish other)

theorem writeBundles_planned {rows : List AppRecord}
    (rows_sub : ∀ a ∈ rows, a ∈ apps ∧ a.source = "runtime") :
    (writeBundles dir rows).run.Only (Planned apps) := by
  induction rows with
  | nil => trivial
  | cons a rows ih =>
    obtain ⟨mem, runtime⟩ := rows_sub a (by simp)
    refine Prog.Only.bindE (writeBundle_planned plain mem runtime) fun _ => ?_
    exact ih fun b later => rows_sub b (by simp [later])

omit plain in
theorem pruneEntry_planned : (pruneEntry dir apps name).run.Only (Planned apps) := by
  refine Prog.Only.bindE (Prog.Only.ask trivial) fun _ => ?_
  refine Prog.Only.bindE (Prog.Only.liftE (Prog.Only.ask trivial)) fun isDir => ?_
  split
  · exact Io.context_only (Prog.Only.ask trivial)
  · trivial

omit plain in
theorem prune_planned (names : List String) : (prune dir apps names).run.Only (Planned apps) := by
  induction names with
  | nil => trivial
  | cons name names ih => exact Prog.Only.bindE pruneEntry_planned fun _ => ih

theorem syncS6ToDir_planned : (syncS6ToDir dir apps).run.Only (Planned apps) := by
  refine Prog.Only.bindE (Io.context_only (Prog.Only.ask ?_)) fun _ => ?_
  · intro q below
    rw [List.prefix_nil.mp below]
    rfl
  refine Prog.Only.bindE (Prog.Only.ask trivial) fun names => ?_
  refine Prog.Only.bindE (prune_planned names) fun _ => writeBundles_planned plain ?_
  simp +contextual

end Only

/-- Every history leaves bundles of the usual shape. -/
theorem Left.shaped (history : Left dir fs) : Shaped fs := by
  induction history with
  | empty => exact nofun
  | sync _ plain run ih =>
    refine Safe.everyState (Q := fun _ _ => True) ?_ ih _ _ run
    refine ((syncS6ToDir_planned plain).keeps ih ?_).mono ?_ fun _ _ _ => trivial
    · exact fun _ _ _ _ step planned shaped => planned.shaped step shaped
    · exact fun _ _ _ _ _ kept => kept.2.2

/-! ### What a sync brings about -/

/-- The steps of the file system, beside the errors the sync of `apps` has gone on past. -/
abbrev drops (apps : List AppRecord) : StepRel Files.sig (Files × List FilePath) :=
  ghost steps (dropped apps)

theorem dropped_examined {left : List FilePath} : dropped apps (.isDir p) fs true left = left := by
  simp [dropped]

theorem dropped_removed {left : List FilePath} :
    dropped apps (.removeFile p) fs (.ok ()) left = left := by
  simp [dropped]

theorem dropped_absent {left : List FilePath} {r : Except String Unit} (absent : fs.node p = none) :
    dropped apps (.removeFile p) fs r left = left := by
  simp [dropped, absent]

theorem dropped_stuck {left : List FilePath} {r : Except String Unit} (failed : r ≠ .ok ())
    (there : (fs.node p).isSome) (unwanted : rendered apps p = none) :
    dropped apps (.removeFile p) fs r left = p :: left := by
  simp [dropped, failed, there, unwanted]

/-- If `p` ends without an error, it ends in `T`. -/
abbrev Yields {α : Type} (apps : List AppRecord) (T : α → Files × List FilePath → Prop)
    (p : Prog Files.sig (Except String α)) (s : Files × List FilePath) : Prop :=
  Safe (drops apps) (fun _ _ _ _ => True) (fun r s' => ∀ a, r = .ok a → T a s') p s

variable {α β : Type} {s s' before : Files × List FilePath}

theorem Yields.bind {T : α → Files × List FilePath → Prop} {U : β → Files × List FilePath → Prop}
    {f : α → Io β} {x : Io α} (first : Yields apps T x.run s)
    (next : ∀ a s', T a s' → Yields apps U (f a).run s') : Yields apps U (x >>= f).run s :=
  Safe.bindE first (fun a s' after => next a s' (after a rfl)) nofun

theorem Yields.context {T : α → Files × List FilePath → Prop} {x : Io α} {message : String}
    (inner : Yields apps T x.run s) : Yields apps T (Io.context message x).run s := by
  refine Io.context_safe inner (fun a s' after b same => ?_) nofun
  cases same
  exact after a rfl

/-- Where the sync has got: the names in `pruning` are still to be looked at, and the rows in
`writing` to be written. All else is as it should be, but for what the sync has gone on past. -/
structure Syncing (apps : List AppRecord) (pruning : List String) (writing : List AppRecord)
    (s : Files × List FilePath) : Prop where
  shaped : Shaped s.1
  top : s.1.node [] = some .dir
  looked : ∀ n ∈ pruning, s.1.node [n] = some .dir
  settled : ∀ n q, n ∉ pruning → n ∉ writing.map (·.name) → (∀ g ∈ s.2, ¬ g <+: n :: q) →
    s.1.node (n :: q) = rendered apps (n :: q)
  left : ∀ g ∈ s.2, ∃ n q, g = n :: q ∧ n ∉ pruning ∧ n ∉ writing.map (·.name) ∧
    (s.1.node g).isSome ∧ rendered apps g = none

/-- A sync that is through has left nothing behind exactly where its result is as it should be. -/
theorem Syncing.rendered (sync : Syncing apps [] [] s) (none : s.2 = []) :
    s.1.node = rendered apps := by
  funext p
  cases p with
  | nil => exact sync.top
  | cons n q => exact sync.settled n q (by simp) (by simp) (by simp [none])

theorem Syncing.clear (sync : Syncing apps [] [] s) (same : s.1.node = Db.rendered apps) :
    s.2 = [] := by
  refine List.eq_nil_iff_forall_not_mem.mpr fun g mem => ?_
  obtain ⟨n, q, rfl, -, -, there, unwanted⟩ := sync.left g mem
  simp [same, unwanted] at there

section Prune

variable {names : List String} {rows : List AppRecord}

/-- An entry that need not be looked at: its bundle is to be written. -/
theorem Syncing.skip (sync : Syncing apps (n :: names) rows s) (row : n ∈ rows.map (·.name)) :
    Syncing apps names rows s where
  shaped := sync.shaped
  top := sync.top
  looked m later := sync.looked m (.tail _ later)
  settled m q looked written := by
    have other : m ≠ n := fun same => written (same ▸ row)
    exact sync.settled m q (by simp [other, looked]) written
  left g mem := by
    obtain ⟨m, q, rfl, looked, rest⟩ := sync.left g mem
    exact ⟨m, q, rfl, fun later => looked (.tail _ later), rest⟩

/-- The directory of an app without a bundle, which could not be examined. -/
theorem Syncing.pass (sync : Syncing apps (n :: names) rows s) (fresh : n ∉ names)
    (row : n ∉ rows.map (·.name)) (unmanaged : managed apps n = false) :
    Syncing apps names rows (s.1, [n] :: s.2) where
  shaped := sync.shaped
  top := sync.top
  looked m later := sync.looked m (.tail _ later)
  settled m q looked written clear := by
    have other : m ≠ n := by
      rintro rfl
      exact clear [m] (.head _) ⟨q, rfl⟩
    exact sync.settled m q (by simp [other, looked]) written fun g mem => clear g (.tail _ mem)
  left g mem := by
    cases mem with
    | head =>
      refine ⟨n, [], rfl, fresh, row, ?_, rendered_unmanaged unmanaged⟩
      simp [sync.looked n (.head _)]
    | tail _ mem =>
      obtain ⟨m, q, rfl, looked, rest⟩ := sync.left g mem
      exact ⟨m, q, rfl, fun later => looked (.tail _ later), rest⟩

/-- The directory of an app without a bundle, once it is removed. -/
theorem Syncing.remove (sync : Syncing apps (n :: names) rows s) (fresh : n ∉ names)
    (unmanaged : managed apps n = false) (step : steps (.removeDirAll [n]) s.1 (.ok ()) fs') :
    Syncing apps names rows (fs', s.2) := by
  have untouched (m : String) (q : FilePath) (other : m ≠ n) :
      fs'.node (m :: q) = s.1.node (m :: q) := by
    refine Files.untouched step fun below => other ?_
    exact (List.cons_prefix_cons.mp below).1.symm
  have planned : Planned apps (.removeDirAll [n]) := trivial
  refine ⟨planned.shaped step sync.shaped, ?_, ?_, ?_, ?_⟩
  · rw [← sync.top]
    exact Files.untouched step (by simp [Files.Call.Touches])
  · intro m later
    rw [untouched m [] fun same => fresh (same ▸ later)]
    exact sync.looked m (.tail _ later)
  · intro m q looked written clear
    by_cases same : m = n
    · subst same
      rw [rendered_unmanaged unmanaged]
      exact (step_removeDirAll step).2 rfl _ ⟨q, rfl⟩
    · rw [untouched m q same]
      exact sync.settled m q (by simp [same, looked]) written clear
  · intro g mem
    obtain ⟨m, q, rfl, looked, rest⟩ := sync.left g mem
    rw [untouched m q fun same => looked (same ▸ .head _)]
    exact ⟨m, q, rfl, fun later => looked (.tail _ later), rest⟩

theorem pruneEntry_yields (sync : Syncing apps (n :: names) rows s) (fresh : n ∉ names)
    (rows_managed : ∀ m, m ∈ rows.map (·.name) ↔ managed apps m = true) :
    Yields apps (fun _ s' => Syncing apps names rows s') (pruneEntry dir apps n).run s := by
  rintro r s₁ ⟨step, noted⟩
  refine ⟨trivial, ?_⟩
  obtain rfl : s₁ = s := Prod.ext (step_nextEntry step) noted
  cases r with
  | error e => exact nofun
  | ok =>
    rintro r s₂ ⟨step, noted⟩
    refine ⟨trivial, ?_⟩
    have kept := (step_isDir step).1
    cases found : managed apps n with
    | true =>
      obtain rfl : s₂ = s₁ :=
        Prod.ext kept (noted.trans (if_neg (by simp [rendered_managed found])))
      change Yields apps _ (if _ then _ else _ : Io Unit).run s₂
      rw [if_neg (by simp)]
      exact fun _ _ => sync.skip ((rows_managed n).mpr found)
    | false =>
      change Yields apps _ (if _ then _ else _ : Io Unit).run s₂
      cases r with
      | false =>
        have there : (s₁.1.node [n]).isSome := by simp [sync.looked n (.head _)]
        obtain rfl : s₂ = (s₁.1, [n] :: s₁.2) :=
          Prod.ext kept (noted.trans (if_pos ⟨rfl, there, by simp [rendered_unmanaged found]⟩))
        rw [if_neg (by simp)]
        exact fun _ _ => sync.pass fresh (by simp [rows_managed, found]) found
      | true =>
        obtain rfl : s₂ = s₁ := Prod.ext kept (noted.trans dropped_examined)
        rw [if_pos (by simp)]
        refine Yields.context ?_
        rintro r s₃ ⟨step, noted⟩
        refine ⟨trivial, fun a ok => ?_⟩
        cases ok
        rw [show s₃ = (s₃.1, s₂.2) from Prod.ext rfl noted]
        exact sync.remove fresh found step

theorem prune_yields (sync : Syncing apps names rows s) (distinct : names.Nodup)
    (rows_managed : ∀ m, m ∈ rows.map (·.name) ↔ managed apps m = true) :
    Yields apps (fun _ s' => Syncing apps [] rows s') (prune dir apps names).run s := by
  induction names generalizing s with
  | nil => exact fun _ _ => sync
  | cons n names ih =>
    obtain ⟨fresh, distinct⟩ := List.nodup_cons.mp distinct
    exact (pruneEntry_yields sync fresh rows_managed).bind fun _ s' after => ih after distinct

end Prune

/-! ### Writing a bundle -/

/-- The paths `done` of the bundle of `app` are written, and all since `before` was in there. -/
structure Writing (apps : List AppRecord) (app : AppRecord) (before : Files × List FilePath)
    (done : List FilePath) (s : Files × List FilePath) : Prop where
  shaped : Shaped s.1
  top : s.1.node [] = some .dir
  others : ∀ n q, n ≠ app.name → s.1.node (n :: q) = before.1.node (n :: q)
  written : ∀ q ∈ done, s.1.node (app.name :: q) = bundle app q
  noted : s.2 = before.2

namespace Writing

variable {done : List FilePath} {c : Files.Call} {r : c.Reply} {text : String}

theorem keep (w : Writing apps app before done s) (planned : Planned apps c)
    (step : drops apps c s r s')
    (inside : ∀ p, c.Touches p → ∃ q, p = app.name :: q ∧ q ∉ done) (quiet : s'.2 = s.2) :
    Writing apps app before done s' where
  shaped := planned.shaped step.1 w.shaped
  top := by
    rw [untouched step.1 fun touched => by simpa using inside [] touched]
    exact w.top
  others n q other := by
    rw [untouched step.1 fun touched => ?_, w.others n q other]
    obtain ⟨_, same, -⟩ := inside _ touched
    exact other (List.cons.inj same).1
  written q mem := by
    rw [untouched step.1 fun touched => ?_, w.written q mem]
    obtain ⟨q', same, fresh⟩ := inside _ touched
    exact fresh ((List.cons.inj same).2 ▸ mem)
  noted := quiet.trans w.noted

theorem add (w : Writing apps app before done s) (now : s.1.node (app.name :: q) = bundle app q) :
    Writing apps app before (q :: done) s :=
  { w with written := List.forall_mem_cons.mpr ⟨now, w.written⟩ }

variable (plain : PlainTable apps) (mem : app ∈ apps) (runtime : app.source = "runtime")
include plain mem runtime

theorem write (w : Writing apps app before done s) (fresh : q ∉ done)
    (belongs : bundle app q = some (.file text false)) :
    Yields apps (fun _ s' => Writing apps app before (q :: done) s')
      (Files.write (app.name :: q) text).run s := by
  rintro r s' step
  refine ⟨trivial, fun a ok => ?_⟩
  cases ok
  have there := (rendered_bundle plain mem runtime).trans belongs
  have planned : Planned apps (.write (app.name :: q) text) := ⟨text, false, there⟩
  refine (w.keep planned step ?_ step.2).add ?_
  · rintro p rfl
    exact ⟨q, rfl, fresh⟩
  · rw [(step_write step.1).2 rfl, Function.update_self, belongs,
      w.shaped.not_executable (bundle_some belongs).2.symm]

theorem writeExecutable (w : Writing apps app before done s) (fresh : q ∉ done)
    (belongs : bundle app q = some (.file text true)) :
    Yields apps (fun _ s' => Writing apps app before (q :: done) s')
      (Db.writeExecutable dir (app.name :: q) text).run s := by
  have there := (rendered_bundle plain mem runtime).trans belongs
  have inside (p : FilePath) (same : p = app.name :: q) : ∃ q, p = app.name :: q ∧ q ∉ done :=
    ⟨q, same, fresh⟩
  have stored : Yields apps (fun _ s' => Writing apps app before done s' ∧
      ∃ e, s'.1.node (app.name :: q) = some (.file text e))
      (Io.context ("failed to write " ++ display dir (app.name :: q))
        (Files.write (app.name :: q) text)).run s := by
    refine Yields.context ?_
    intro r s₁ step
    refine ⟨trivial, fun a ok => ?_⟩
    cases ok
    have planned : Planned apps (.write (app.name :: q) text) := ⟨text, true, there⟩
    refine ⟨w.keep planned step inside step.2, s.1.executable (app.name :: q), ?_⟩
    rw [(step_write step.1).2 rfl, Function.update_self]
  refine stored.bind fun _ s₁ ⟨w, e, now⟩ => ?_
  intro r s₂ step
  refine ⟨trivial, fun a ok => ?_⟩
  cases ok
  have planned : Planned apps (.setExecutable (app.name :: q)) := ⟨text, there⟩
  refine (w.keep planned step inside step.2).add ?_
  rcases step_setExecutable step.1 with ⟨-, t, e', found, same⟩ | ⟨failed, -⟩
  · cases now.symm.trans found
    rw [same, Function.update_self, belongs]
  · exact absurd rfl failed

theorem start {rows : List AppRecord} (sync : Syncing apps [] rows s)
    (step : drops apps (.createDirAll [app.name, "dependencies.d"]) s (.ok ()) s') :
    Writing apps app s [["dependencies.d"], []] s' where
  shaped := (createDependencies_planned plain mem runtime).shaped step.1 sync.shaped
  top := (step_createDirAll step.1).2 rfl [] (List.nil_prefix)
  others n q other := untouched step.1 fun below => other (List.cons_prefix_cons.mp below).1
  written q mem := by
    rw [(step_createDirAll step.1).2 rfl _ ?_]
    · rcases List.mem_pair.mp mem with rfl | rfl <;> rfl
    · rcases List.mem_pair.mp mem with rfl | rfl <;> simp
  noted := step.2

omit plain mem runtime in
/-- What no table has in a bundle is not there. -/
theorem whole (w : Writing apps app before done s) (rest : q ∈ parts → q ∈ done) :
    s.1.node (app.name :: q) = bundle app q := by
  by_cases part : q ∈ parts
  · exact w.written q (rest part)
  cases found : s.1.node (app.name :: q) with
  | some x => exact absurd (w.shaped _ _ x found).1 part
  | none =>
    cases belongs : bundle app q with
    | some x => exact absurd (bundle_some belongs).1 part
    | none => rfl

/-- The bundle is written, but for what may be left in it. -/
theorem row {rows : List AppRecord} {left : List FilePath} (w : Writing apps app before done s)
    (sync : Syncing apps [] (app :: rows) before) (fresh : app.name ∉ rows.map (·.name))
    (here : ∀ q, (∀ g ∈ left, ¬ g <+: app.name :: q) →
      s.1.node (app.name :: q) = bundle app q)
    (grown : left = s.2 ∨ ∃ q, left = (app.name :: q) :: s.2 ∧
      (s.1.node (app.name :: q)).isSome ∧ bundle app q = none) :
    Syncing apps [] rows (s.1, left) := by
  have there (q : FilePath) : rendered apps (app.name :: q) = bundle app q :=
    rendered_bundle plain mem runtime
  have older : ∀ g ∈ before.2, g ∈ left := by
    rw [← w.noted]
    rcases grown with rfl | ⟨q, rfl, -⟩
    · exact fun _ mem => mem
    · exact fun _ mem => .tail _ mem
  have kept : ∀ g ∈ before.2, ∃ n q, g = n :: q ∧ n ∉ ([] : List String) ∧
      n ∉ rows.map (·.name) ∧ (s.1.node g).isSome ∧ rendered apps g = none := by
    intro g mem
    obtain ⟨n, q, rfl, looked, unwritten, rest⟩ := sync.left g mem
    rw [List.map_cons, List.mem_cons, not_or] at unwritten
    rw [w.others n q unwritten.1]
    exact ⟨n, q, rfl, looked, unwritten.2, rest⟩
  refine ⟨w.shaped, w.top, nofun, fun n q _ written clear => ?_, fun g mem => ?_⟩
  · by_cases same : n = app.name
    · subst same
      rw [there]
      exact here q clear
    · rw [w.others n q same]
      exact sync.settled n q (List.not_mem_nil) (by simpa [same] using written)
        fun g mem => clear g (older g mem)
  · rcases grown with rfl | ⟨q, rfl, found, unwanted⟩
    · exact kept g (w.noted ▸ mem)
    · cases mem with
      | head => exact ⟨app.name, q, rfl, List.not_mem_nil, fresh, found, (there q).trans unwanted⟩
      | tail _ mem => exact kept g (w.noted ▸ mem)

end Writing

section Write

variable {rows : List AppRecord} (plain : PlainTable apps) (mem : app ∈ apps)
  (runtime : app.source = "runtime")
include plain mem runtime

/-- `remove_file` for a row that is always restarted: whatever comes of it, the sync goes on. -/
theorem removeFinish_yields {done : List FilePath} (w : Writing apps app before done s)
    (sync : Syncing apps [] (app :: rows) before) (fresh : app.name ∉ rows.map (·.name))
    (rest : ∀ q ∈ parts, q ∈ ["finish"] :: done) (todo : ["finish"] ∉ done)
    (always : app.restart = "always") :
    Yields apps (fun _ s' => Syncing apps [] rows s')
      (Io.ignore (removeFile [app.name, "finish"])).run s := by
  have unwanted := bundle_finish_always always
  rintro r s' ⟨step, noted⟩
  refine ⟨trivial, fun _ _ => ?_⟩
  rcases step_removeFile step with ⟨rfl, same⟩ | ⟨failed, same⟩
  · have planned : Planned apps (.removeFile [app.name, "finish"]) := trivial
    have inside (p : FilePath) (touched : p = [app.name, "finish"]) :
        ∃ q, p = app.name :: q ∧ q ∉ done := ⟨_, touched, todo⟩
    have w := (w.keep planned ⟨step, noted⟩ inside (noted.trans dropped_removed)).add
      (q := ["finish"]) (by rw [same, Function.update_self, unwanted])
    exact w.row plain mem runtime sync fresh (fun q _ => w.whole (rest q)) (.inl rfl)
  · rw [show s' = (s.1, s'.2) from Prod.ext same rfl]
    cases found : s.1.node [app.name, "finish"] with
    | none =>
      have w := w.add (q := ["finish"]) (by rw [found, unwanted])
      have quiet := noted.trans (dropped_absent found)
      exact w.row plain mem runtime sync fresh (fun q _ => w.whole (rest q)) (.inl quiet)
    | some x =>
      have there : (s.1.node [app.name, "finish"]).isSome := by simp [found]
      have stuck := noted.trans
        (dropped_stuck failed there ((rendered_bundle plain mem runtime).trans unwanted))
      refine w.row plain mem runtime sync fresh (fun q clear => w.whole fun part => ?_)
        (.inr ⟨_, stuck, there, unwanted⟩)
      -- Everything but the script that is left is written.
      cases rest q part with
      | head => exact absurd (List.prefix_refl _) (clear _ (stuck ▸ .head _))
      | tail _ mem => exact mem

theorem writeBundle_yields (sync : Syncing apps [] (app :: rows) s)
    (fresh : app.name ∉ rows.map (·.name)) :
    Yields apps (fun _ s' => Syncing apps [] rows s') (writeBundle dir app).run s := by
  simp only [writeBundle, (plain.plain app mem).join, join_type, join_dependencies, join_base,
    join_timeout, join_run, join_finish, List.cons_append, List.nil_append]
  have started : Yields apps (fun _ s' => Writing apps app s [["dependencies.d"], []] s')
      (createDirAll [app.name, "dependencies.d"]).run s := by
    rintro r s' step
    refine ⟨trivial, fun _ ok => ?_⟩
    cases ok
    exact Writing.start plain mem runtime sync step
  refine started.bind fun _ s₁ w => ?_
  refine (w.write plain mem runtime (by simp) rfl).bind fun _ s₂ w => ?_
  refine (w.write plain mem runtime (by simp) rfl).bind fun _ s₃ w => ?_
  refine (w.write plain mem runtime (by simp) rfl).bind fun _ s₄ w => ?_
  refine (w.writeExecutable plain mem runtime (by simp) rfl).bind fun _ s₅ w => ?_
  split
  case isTrue always =>
    exact removeFinish_yields plain mem runtime w sync fresh (fun _ part => part) (by simp) always
  case isFalse other =>
    refine (w.writeExecutable plain mem runtime (by simp) (bundle_finish other)).mono
      (fun _ _ _ _ _ h => h) fun r s₆ w a ok => ?_
    have w := w a ok
    exact w.row plain mem runtime sync fresh (fun q _ => w.whole fun part => part) (.inl rfl)

end Write

/-! ### Whole syncs -/

theorem mem_runtime {m : String} :
    m ∈ (apps.filter (·.source == "runtime")).map (·.name) ↔ managed apps m = true := by
  simp only [managed, List.mem_map, List.mem_filter, List.any_eq_true, Bool.and_eq_true, beq_iff_eq]
  constructor
  · rintro ⟨a, ⟨mem, runtime⟩, same⟩
    exact ⟨a, mem, same, runtime⟩
  · rintro ⟨a, mem, same, runtime⟩
    exact ⟨a, ⟨mem, runtime⟩, same⟩

/-- What is listed is all there is to look at. -/
theorem Syncing.start {names : List String} (shaped : Shaped fs) (top : fs.node [] = some .dir)
    (listed : names.Perm (fs.children [])) :
    Syncing apps names (apps.filter (·.source == "runtime")) (fs, []) := by
  have child (n : String) : n ∈ names ↔ (fs.node [n]).isSome := listed.mem_iff.trans mem_children
  refine ⟨shaped, top, fun n mem => ?_, fun n q unlisted unmanaged _ => ?_, nofun⟩
  · obtain ⟨x, found⟩ := Option.isSome_iff_exists.mp ((child n).mp mem)
    have directory : kindAt [] = none := rfl
    have kind := (shaped n [] x found).2
    rw [directory] at kind
    cases x with
    | dir => exact found
    | file text e => simp [Db.kind] at kind
  · rw [mem_runtime, Bool.not_eq_true] at unmanaged
    rw [rendered_unmanaged unmanaged]
    refine Option.not_isSome_iff_eq_none.mp fun there => unlisted ((child n).mpr ?_)
    cases q with
    | nil => exact there
    | cons m t =>
      rw [dir_of_below (p := [n]) there]
      rfl

/-- There is no more than belongs there, and so nothing to go on past. -/
structure Within (apps : List AppRecord) (s : Files × List FilePath) : Prop where
  inside : ∀ q, (s.1.node q).isSome → (rendered apps q).isSome
  unnoted : s.2 = []

theorem within_step {c : Files.Call} {r : c.Reply} (planned : Planned apps c)
    (step : drops apps c s r s') (within : Within apps s) : Within apps s' := by
  obtain ⟨step, noted⟩ := step
  refine ⟨fun q there => ?_, ?_⟩
  · obtain ⟨x, found⟩ := Option.isSome_iff_exists.mp there
    rcases made step found with before | makes
    · exact within.inside q (by simp [before])
    · exact planned.makes makes
  · have wanted (p : FilePath) : ¬ ((s.1.node p).isSome ∧ (rendered apps p).isNone) := by
      rintro ⟨there, unwanted⟩
      have belongs := within.inside p there
      rw [Option.isNone_iff_eq_none] at unwanted
      simp [unwanted] at belongs
    rw [noted, within.unnoted]
    cases c with
    | isDir p => exact if_neg fun both => wanted p both.2
    | removeFile p => exact if_neg fun both => wanted p both.2
    | _ => rfl

section Sync

variable (plain : PlainTable apps)
include plain

theorem writeBundles_yields {rows : List AppRecord}
    (runtime : ∀ a ∈ rows, a ∈ apps ∧ a.source = "runtime") (distinct : (rows.map (·.name)).Nodup)
    (sync : Syncing apps [] rows s) :
    Yields apps (fun _ s' => Syncing apps [] [] s') (writeBundles dir rows).run s := by
  induction rows generalizing s with
  | nil => exact fun _ _ => sync
  | cons app rows ih =>
    obtain ⟨fresh, distinct⟩ := List.nodup_cons.mp distinct
    obtain ⟨mem, source⟩ := runtime app (.head _)
    exact (writeBundle_yields plain mem source sync fresh).bind fun _ s' after =>
      ih (fun a later => runtime a (.tail _ later)) distinct after

theorem syncS6ToDir_yields (shaped : Shaped fs) :
    Yields apps (fun _ s' => Syncing apps [] [] s') (syncS6ToDir dir apps).run (fs, []) := by
  have made : Yields apps (fun _ s' => Shaped s'.1 ∧ s'.1.node [] = some .dir ∧ s'.2 = [])
      (Io.context ("failed to create " ++ dir) (createDirAll [])).run (fs, []) := by
    refine Yields.context ?_
    rintro r s' ⟨step, noted⟩
    refine ⟨trivial, fun _ ok => ?_⟩
    cases ok
    have planned : Planned apps (.createDirAll []) := by
      intro q below
      rw [List.prefix_nil.mp below]
      rfl
    exact ⟨planned.shaped step shaped, (step_createDirAll step).2 rfl [] (List.prefix_refl _), noted⟩
  refine made.bind fun _ s₁ ⟨shaped, top, unnoted⟩ => ?_
  rintro r s₂ ⟨step, noted⟩
  refine ⟨trivial, ?_⟩
  obtain ⟨same, listing⟩ := step_readDir step
  obtain rfl : s₂ = (s₁.1, []) := Prod.ext same (noted.trans unnoted)
  cases r with
  | error e => exact nofun
  | ok names =>
    obtain ⟨-, listed⟩ := listing names rfl
    have started := @Syncing.start apps _ _ shaped top listed
    have unrepeated : names.Nodup := listed.nodup_iff.mpr (List.nodup_dedup _)
    refine (prune_yields started unrepeated fun _ => mem_runtime).bind fun _ s' after => ?_
    refine writeBundles_yields plain (by simp +contextual) ?_ after
    exact plain.distinct.sublist (List.filter_sublist.map _)

/-- A sync of a directory that holds no more than is rendered has nothing to go on past. -/
theorem syncS6ToDir_again (shaped : Shaped fs) (same : fs.node = rendered apps)
    (run : Finishes steps (syncS6ToDir dir apps).run fs (.ok ()) fs') : fs'.node = rendered apps := by
  obtain ⟨left, run⟩ : ∃ left, Reaches (drops apps) _ (_, (fs', left)) := run.record []
  have start : Within apps (fs, []) := ⟨fun q there => same ▸ there, rfl⟩
  have only : (syncS6ToDir dir apps).run.Only (Planned apps) := syncS6ToDir_planned plain
  have within := only.keeps (H := drops apps) start fun _ _ _ _ step planned =>
    within_step planned step
  have nothing : left = [] := (within.finishes run).unnoted
  subst nothing
  exact ((syncS6ToDir_yields plain shaped).finishes run _ rfl).rendered rfl

end Sync

/-- After a sync that succeeds, the directory is what the table renders to exactly if the sync has
gone on past no error that mattered; and then a further sync changes nothing. -/
theorem bundles_rendered_iff {left : List FilePath} (history : Left dir fs) (plain : PlainTable apps)
    (run : Finishes (drops apps) (syncS6ToDir dir apps).run (fs, []) (.ok ()) (fs', left)) :
    (fs'.node = rendered apps ↔ left = []) ∧
      (fs'.node = rendered apps → ∀ fs'',
        Finishes steps (syncS6ToDir dir apps).run fs' (.ok ()) fs'' → fs''.node = fs'.node) := by
  have after := (syncS6ToDir_yields plain history.shaped).finishes run () rfl
  refine ⟨⟨after.clear, after.rendered⟩, fun same fs'' again => ?_⟩
  rw [syncS6ToDir_again plain after.shaped same again, same]

/-! An app whose restart policy changes from `on_failure` to `always`. -/

def restartOnFailure : AppRecord where
  name := "api"
  subdomain := "api"
  internalPort := 3001
  command := "bun run start"
  directory := "/home/gem/projects/api"
  restart := "on_failure"

def restartAlways : AppRecord := { restartOnFailure with restart := "always" }

theorem plain_restart {app : AppRecord} (name : app.name = "api") : PlainTable [app] where
  plain a mem := by
    rw [List.mem_singleton.mp mem, name]
    exact ⟨by decide, by decide, by decide⟩
  distinct := List.nodup_singleton _

/-- What the environment does: every call does its work, and `names` are listed. -/
def syncing (names : List String) (calls : ℕ) : List Files.Choice :=
  .ok :: .listed names :: List.replicate calls .ok

/-- The directory after a sync with the old policy, and one with the new one. -/
theorem restart_runs (last : Files.Choice) (left : List FilePath) (stays : Bool)
    (played : ((play Files.Call.answer (fun _ _ => true) (syncing [] 8)
        ((syncS6ToDir "/opt/codery/apps-s6.d" [restartOnFailure]).run, .empty)).bind fun x =>
      playShow (noting Files.Call.answer (dropped [restartAlways])) (fun _ _ => true)
        (fun s => (s.2, (s.1.node ["api", "finish"]).isSome)) (syncing ["api"] 8 ++ [last])
        (syncS6ToDir "/opt/codery/apps-s6.d" [restartAlways]).run (x.2, [])) =
      some (some (.ok ()), left, stays)) :
    ∃ fs fs', Left "/opt/codery/apps-s6.d" fs ∧
      Finishes (drops [restartAlways]) (syncS6ToDir "/opt/codery/apps-s6.d" [restartAlways]).run
        (fs, []) (.ok ()) (fs', left) ∧ (fs'.node ["api", "finish"]).isSome = stays := by
  obtain ⟨⟨p, fs⟩, first, second⟩ := Option.bind_eq_some_iff.mp played
  obtain ⟨⟨fs', g⟩, run, seen⟩ := playShow_finishes _ _ second
  cases seen
  refine ⟨fs, fs', ?_, Reaches.mono handler_noting run, rfl⟩
  exact .sync .empty (plain_restart rfl) (play_reaches _ _ first)

theorem bundles_rendered_iff_restart : ∃ fs fs', Left "/opt/codery/apps-s6.d" fs ∧
    Finishes (drops [restartAlways]) (syncS6ToDir "/opt/codery/apps-s6.d" [restartAlways]).run
      (fs, []) (.ok ()) (fs', []) ∧ fs'.node = rendered [restartAlways] := by
  obtain ⟨fs, fs', history, run, -⟩ := restart_runs .ok [] false (by decide)
  exact ⟨fs, fs', history, run, (bundles_rendered_iff history (plain_restart rfl) run).1.mpr rfl⟩

/-- `remove_file` fails, the sync succeeds, and the old policy's script stays. -/
theorem bundles_not_always_rendered :
    ¬ ∀ dir apps fs fs', Left dir fs → PlainTable apps →
      Finishes steps (syncS6ToDir dir apps).run fs (.ok ()) fs' → fs'.node = rendered apps := by
  intro all
  obtain ⟨fs, fs', history, run, stays⟩ := restart_runs .fail [["api", "finish"]] true
    (by decide)
  have same := all _ _ fs fs' history (plain_restart rfl) run.erase
  have none : rendered [restartAlways] ["api", "finish"] = none := by decide
  simp [same, none] at stays

end Codery.Db
