import Codery.BundleSync
import Codery.S6

/-! The name of an app as `add_app` accepts it: as the directory of its bundle, and as the name its
service is reported under. -/

namespace Codery.Db

open Codery.Effect Codery.Effect.Files Codery.S6

/-- The check of the name in `add_app`. -/
def accepts (name : String) : Bool := !name.toList.any fun c => c = ' ' ∨ c = '/' ∨ c = '.'

/-- What the entry of a directory can be called. -/
structure EntryName (name : String) : Prop where
  nonempty : name ≠ ""
  here : name ≠ "."
  up : name ≠ ".."
  slash : '/' ∉ name.toList
  nul : '\x00' ∉ name.toList

/-- The services of the container: those of the table, the ones of s6, and others that are well
named. -/
def Listing (apps : List AppRecord) (listing : List (String × Report)) : Prop :=
  ∀ s ∈ listing, (∃ a ∈ apps, a.name = s.1) ∨ Mcp.s6InternalServices.contains s.1 = true ∨
    Reportable s.1 ∧ Mcp.exited s.1 = false

/-- The entry for the service of an app. -/
def Reports (a : AppRecord) (r : Report) (e : ServiceStatus) : Prop :=
  e.name = a.name ∧ e.pid = r.pid ∧ e.status = (if r.up then "running" else "down") ∧
    e.uptimeSecs = r.updownfor ∧ e.source = a.source ∧ e.subdomain = some a.subdomain ∧
    e.internalPort = some a.internalPort

/-- The names of a table do in all their places: `dir` is the directory of the bundles. -/
structure NamesHold (dir : String) (apps : List AppRecord) : Prop where
  /-- The bundle of an app is a child of the directory, of its own. -/
  child : ∀ a ∈ apps, EntryName a.name ∧ join [] a.name = [a.name] ∧
    ∀ b ∈ apps, join [] b.name = join [] a.name → b = a
  /-- A sync writes it there. -/
  written : ∀ fs fs' left, Left dir fs →
    Finishes (drops apps) (syncS6ToDir dir apps).run (fs, []) (.ok ()) (fs', left) →
      ∀ a ∈ apps, a.source = "runtime" →
        ∀ q x, bundle a q = some x → fs'.node (a.name :: q) = some x
  /-- A sync without the app takes it away, where no call fails that the sync goes on past. -/
  pruned : ∀ a ∈ apps, ∀ fs fs' left, Left dir fs →
    Finishes (drops (apps.filter (·.name ≠ a.name)))
      (syncS6ToDir dir (apps.filter (·.name ≠ a.name))).run (fs, []) (.ok ()) (fs', left) →
        ∀ q, fs'.node (a.name :: q) = none ∨ ∃ g ∈ left, g <+: a.name :: q
  /-- The line of the service is read as a report of the app. -/
  line : ∀ a ∈ apps, ∀ r : Report,
    parseSvstatBatch (svstatLine a.name r) = [r.stat a.name]
  /-- `get_app_status` answers, and with the app under its name, whatever comes on stderr. -/
  status : ∀ listing, Listing apps listing → ∀ a ∈ apps, ∀ r, (a.name, r) ∈ listing → ∀ errors,
    Mcp.exited (svstatBatch listing ++ errors) = false ∧
      ∃ e ∈ services apps (svstatBatch listing ++ errors), Reports a r e

/-- What a name has to be for that, beyond the check of `add_app`. -/
structure SoundName (name : String) : Prop where
  reportable : Reportable name
  nul : '\x00' ∉ name.toList
  /-- It does not look like the failure of a command. -/
  unexited : Mcp.exited name = false

variable {dir name : String} {apps : List AppRecord} {a : AppRecord} {r : Report}
  {listing : List (String × Report)} {errors : String}

theorem accepts_iff : accepts name = true ↔
    ' ' ∉ name.toList ∧ '/' ∉ name.toList ∧ '.' ∉ name.toList := by
  simp only [accepts, Bool.not_eq_true', List.any_eq_false, decide_eq_true_eq]
  constructor
  · intro none
    exact ⟨fun mem => none _ mem (.inl rfl), fun mem => none _ mem (.inr (.inl rfl)),
      fun mem => none _ mem (.inr (.inr rfl))⟩
  · rintro ⟨blank, slash, dot⟩ c mem (rfl | rfl | rfl)
    · exact blank mem
    · exact slash mem
    · exact dot mem

theorem plainTable_of_accepted (accepted : ∀ a ∈ apps, accepts a.name = true)
    (distinct : (apps.map (·.name)).Nodup) (nonempty : ∀ a ∈ apps, a.name ≠ "") :
    PlainTable apps where
  plain a mem :=
    ⟨nonempty a mem, (accepts_iff.mp (accepted a mem)).2.1, (accepts_iff.mp (accepted a mem)).2.2⟩
  distinct := distinct

theorem PlainTable.filter (plain : PlainTable apps) (keep : AppRecord → Bool) :
    PlainTable (apps.filter keep) where
  plain a mem := plain.plain a (List.mem_of_mem_filter mem)
  distinct := plain.distinct.sublist (List.filter_sublist.map _)

/-! ### The directory -/

/-- What leads to a part of a bundle is a part of it. -/
theorem bundle_prefix {q g : FilePath} {x : Node} (there : bundle a q = some x) (below : g <+: q) :
    (bundle a g).isSome := by
  have inner : g = [] ∨ g = q ∨ g = ["dependencies.d"] := by
    have mem := (bundle_some there).1
    simp only [parts, List.mem_cons, List.not_mem_nil, or_false] at mem
    rcases mem with rfl | rfl | rfl | rfl | rfl | rfl | rfl
    all_goals
      simp only [List.prefix_cons_iff, List.prefix_nil] at below
      grind
  obtain rfl | rfl | rfl := inner
  · rfl
  · rw [there]
    rfl
  · rfl

theorem sync_writes (plain : PlainTable apps) {fs fs' : Files} {left : List FilePath}
    (history : Left dir fs)
    (run : Finishes (drops apps) (syncS6ToDir dir apps).run (fs, []) (.ok ()) (fs', left))
    (mem : a ∈ apps) (runtime : a.source = "runtime") {q : FilePath} {x : Node}
    (belongs : bundle a q = some x) : fs'.node (a.name :: q) = some x := by
  have after := (syncS6ToDir_yields plain history.shaped).finishes run () rfl
  have there := (rendered_bundle plain mem runtime).trans belongs
  rw [← there]
  refine after.settled _ _ (by simp) (by simp) fun g noted below => ?_
  obtain ⟨n, t, rfl, -, -, -, unwanted⟩ := after.left g noted
  obtain ⟨rfl, inside⟩ := List.cons_prefix_cons.mp below
  have wanted := bundle_prefix belongs inside
  rw [← rendered_bundle plain mem runtime, unwanted] at wanted
  cases wanted

theorem sync_prunes (plain : PlainTable apps) {fs fs' : Files} {left : List FilePath}
    (history : Left dir fs)
    (run : Finishes (drops apps) (syncS6ToDir dir apps).run (fs, []) (.ok ()) (fs', left))
    (gone : managed apps name = false) (q : FilePath) :
    fs'.node (name :: q) = none ∨ ∃ g ∈ left, g <+: name :: q := by
  have after := (syncS6ToDir_yields plain history.shaped).finishes run () rfl
  by_cases noted : ∃ g ∈ left, g <+: name :: q
  · exact .inr noted
  · refine .inl ?_
    rw [← rendered_unmanaged gone (q := q)]
    exact after.settled _ _ (by simp) (by simp) fun g mem below => noted ⟨g, mem, below⟩

/-! ### The report -/

theorem exited_bar {t : String} (exited : Mcp.exited (name ++ "|" ++ t) = true) :
    Mcp.exited name = true := by
  have start : "[exited".toList <+: (name.toList ++ ['|']) ++ t.toList := by
    have whole := List.isPrefixOf_iff_prefix.mp exited
    rwa [String.toList_append, String.toList_append] at whole
  refine List.isPrefixOf_iff_prefix.mpr ?_
  obtain short | long := List.prefix_or_prefix_of_prefix start (List.prefix_append _ t.toList)
  · obtain whole | inside := List.prefix_concat_iff.mp short
    · have mem : '|' ∈ "[exited".toList := whole ▸ by simp
      exact absurd mem (by decide)
    · exact inside
  · have mem : '|' ∈ "[exited".toList := long.subset (by simp)
    exact absurd mem (by decide)

theorem exited_append {t : String} (exited : Mcp.exited name = true) :
    Mcp.exited (name ++ t) = true := by
  refine List.isPrefixOf_iff_prefix.mpr ?_
  rw [String.toList_append]
  exact (List.isPrefixOf_iff_prefix.mp exited).trans (List.prefix_append _ _)

theorem svstatBatch_cons (s : String × Report) :
    svstatBatch (s :: listing) ++ errors =
      svstatLine s.1 s.2 ++ (svstatBatch listing ++ errors) := by
  rw [svstatBatch, List.map_cons, String.join_cons, String.append_assoc]
  rfl

/-- The lines of a listing, read back. -/
theorem parse_listing (named : ∀ s ∈ listing,
      Mcp.s6InternalServices.contains s.1 = true ∨ Reportable s.1) :
    parseSvstatBatch (svstatBatch listing ++ errors) =
      (listing.filter fun s => !Mcp.s6InternalServices.contains s.1).map (fun s => s.2.stat s.1) ++
        parseSvstatBatch errors := by
  induction listing with
  | nil => rfl
  | cons s listing ih =>
    obtain ⟨here, rest⟩ := List.forall_mem_cons.mp named
    rw [svstatBatch_cons]
    cases here with
    | inl internal =>
      rw [svstatLine_internal internal, List.filter_cons_of_neg (by simpa using internal)]
      exact (congrArg parseSvstatBatch (String.empty_append)).trans (ih rest)
    | inr ok =>
      rw [parseSvstatBatch_svstatLine ok, List.filter_cons_of_pos (by rw [ok.listed]; rfl), ih rest]
      rfl

/-- A listing with a service that is not one of s6 does not look like a failure. -/
theorem listing_unexited (named : ∀ s ∈ listing, Mcp.s6InternalServices.contains s.1 = true ∨
      Reportable s.1 ∧ Mcp.exited s.1 = false)
    (mem : (name, r) ∈ listing) (ok : Reportable name) :
    Mcp.exited (svstatBatch listing ++ errors) = false := by
  induction listing with
  | nil => cases mem
  | cons s listing ih =>
    obtain ⟨here, rest⟩ := List.forall_mem_cons.mp named
    rw [svstatBatch_cons]
    obtain internal | ⟨named, unexited⟩ := here
    · rw [svstatLine_internal internal, String.empty_append]
      cases List.mem_cons.mp mem with
      | inl same =>
        subst same
        rw [ok.listed] at internal
        cases internal
      | inr mem => exact ih rest mem
    · rw [svstatLine_of_reportable named, String.append_assoc, String.append_assoc]
      by_contra exited
      rw [Bool.not_eq_false, String.append_assoc, ← String.append_assoc] at exited
      rw [exited_bar exited] at unexited
      cases unexited

/-- The row `get_app_status` finds for a name of the table. -/
theorem find_row (distinct : (apps.map (·.name)).Nodup) (mem : a ∈ apps) :
    apps.find? (·.name == a.name) = some a := by
  induction apps with
  | nil => cases mem
  | cons b apps ih =>
    simp only [List.map_cons, List.nodup_cons, List.mem_map, not_exists, not_and] at distinct
    rw [List.find?_cons]
    cases List.mem_cons.mp mem with
    | inl same => simp [same]
    | inr mem =>
      have other : (b.name == a.name) = false := by
        simpa using fun same : b.name = a.name => distinct.1 a mem same.symm
      rw [other]
      exact ih distinct.2 mem

theorem entryName_of_sound (accepted : accepts name = true) (sound : SoundName name) :
    EntryName name where
  nonempty := sound.reportable.nonempty
  here same := (accepts_iff.mp accepted).2.2 (by simp [same])
  up same := (accepts_iff.mp accepted).2.2 (by simp [same])
  slash := (accepts_iff.mp accepted).2.1
  nul := sound.nul

/-- What a name has to be, from the line and the answer for its service alone. -/
theorem NamesHold.sound (hold : NamesHold dir apps) (r : Report) (mem : a ∈ apps) :
    SoundName a.name := by
  have ok : Reportable a.name := by
    refine reportable_of_parsed (r := r) ?_
    rw [hold.line a mem r]
    exact List.mem_singleton_self _
  refine ⟨ok, (hold.child a mem).1.nul, ?_⟩
  by_contra exited
  rw [Bool.not_eq_false] at exited
  have listing : Listing apps [(a.name, r)] := by
    intro s here
    cases List.mem_singleton.mp here
    exact .inl ⟨a, mem, rfl⟩
  have answered := (hold.status _ listing a mem r (List.mem_singleton_self _) "").1
  have output : svstatBatch [(a.name, r)] ++ "" = a.name ++ ("|" ++ r.text ++ "\n") := by
    simp only [svstatBatch, List.map_cons, List.map_nil, String.join_cons, String.join_nil,
      String.append_empty, svstatLine_of_reportable ok, String.append_assoc]
  rw [output, exited_append exited] at answered
  cases answered

theorem Listing.named (of : Listing apps listing) (sound : ∀ a ∈ apps, SoundName a.name)
    (s : String × Report) (mem : s ∈ listing) :
    Mcp.s6InternalServices.contains s.1 = true ∨ Reportable s.1 ∧ Mcp.exited s.1 = false := by
  obtain ⟨a, here, same⟩ | internal | other := of s mem
  · exact .inr (same ▸ ⟨(sound a here).reportable, (sound a here).unexited⟩)
  · exact .inl internal
  · exact .inr other

theorem status_of_sound (distinct : (apps.map (·.name)).Nodup)
    (sound : ∀ a ∈ apps, SoundName a.name) (of : Listing apps listing) (mem : a ∈ apps)
    (here : (a.name, r) ∈ listing) :
    Mcp.exited (svstatBatch listing ++ errors) = false ∧
      ∃ e ∈ services apps (svstatBatch listing ++ errors), Reports a r e := by
  refine ⟨listing_unexited (of.named sound) here (sound a mem).reportable, ?_⟩
  have parsed : r.stat a.name ∈ parseSvstatBatch (svstatBatch listing ++ errors) := by
    rw [parse_listing fun s mem => (of.named sound s mem).imp id And.left]
    refine List.mem_append_left _ (List.mem_map.mpr ⟨_, List.mem_filter.mpr ⟨here, ?_⟩, rfl⟩)
    rw [(sound a mem).reportable.listed]
    rfl
  refine ⟨_, List.mem_map_of_mem parsed, ?_⟩
  have row : apps.find? (·.name == (r.stat a.name).name) = some a := find_row distinct mem
  simp only [row, Option.map_some, Option.getD_some]
  exact ⟨rfl, rfl, rfl, rfl, rfl, rfl, rfl⟩

/-- The names that `add_app` accepts hold in all their places exactly if none is empty, has a bar, a
line end or a NUL in it, is that of a service of s6 or begins like a failure. -/
theorem namesHold_iff (accepted : ∀ a ∈ apps, accepts a.name = true)
    (distinct : (apps.map (·.name)).Nodup) :
    NamesHold dir apps ↔ ∀ a ∈ apps, SoundName a.name := by
  constructor
  · intro hold a mem
    exact hold.sound ⟨true, 1, 0, by decide, by decide, by decide⟩ mem
  · intro sound
    have plain := plainTable_of_accepted accepted distinct
      fun a mem => (sound a mem).reportable.nonempty
    refine ⟨fun a mem => ⟨entryName_of_sound (accepted a mem) (sound a mem), (plain.plain a mem).join,
      fun b here same => ?_⟩, ?_, ?_, ?_, ?_⟩
    · rw [(plain.plain b here).join, (plain.plain a mem).join, List.cons.injEq] at same
      exact List.inj_on_of_nodup_map distinct here mem same.1
    · intro fs fs' left history run a mem runtime q x belongs
      exact sync_writes plain history run mem runtime belongs
    · intro a mem fs fs' left history run q
      refine sync_prunes (plain.filter _) history run (List.any_eq_false.mpr fun b here => ?_) q
      have other := (List.mem_filter.mp here).2
      simp_all
    · intro a mem r
      have read := parseSvstatBatch_svstatLine (sound a mem).reportable r ""
      rw [String.append_empty] at read
      exact read
    · intro listing of a mem r here errors
      exact status_of_sound distinct sound of mem here

theorem namesHold_api : NamesHold "/opt/codery/apps-s6.d" [restartAlways] := by
  refine (namesHold_iff (by decide) (by decide)).mpr fun a mem => ?_
  cases List.mem_singleton.mp mem
  exact ⟨⟨by decide, by decide, by decide, by decide⟩, by decide, by decide⟩

/-- An app with a bar in its name, and its service, which is up. -/
def barred : AppRecord := { restartAlways with name := "a|b" }

def barredReport : Report := ⟨true, 12, 42, by decide, by decide, by decide⟩

/-- The name is accepted, and its service reported as another one, which is down. -/
theorem barred_line :
    accepts barred.name = true ∧
      parseSvstatBatch (svstatLine barred.name barredReport) = [⟨"a", false, 12, 42⟩] ∧
      ¬ NamesHold "/opt/codery/apps-s6.d" [barred] := by
  have read : parseSvstatBatch (svstatLine barred.name barredReport) = [⟨"a", false, 12, 42⟩] := by
    decide +kernel
  refine ⟨by decide, read, fun hold => ?_⟩
  have right := hold.line barred (List.mem_singleton_self _) barredReport
  rw [read] at right
  exact absurd right (by decide)

/-- The empty name is accepted too, and its bundle is the directory itself. -/
example : accepts "" = true ∧ join [] "" = [] := by decide

end Codery.Db
