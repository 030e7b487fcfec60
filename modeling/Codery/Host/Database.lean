import Codery.Routes
import Codery.Host.Docker

/-! `codery.db` and the SQL statements `db.rs` runs on it. -/

namespace Codery

/-- The `apps` table.  The two columns that `init` adds may be missing from an older one. -/
structure AppsTable where
  hasNoCache : Bool
  hasSource : Bool
  rows : List AppRecord
  deriving DecidableEq

structure Database where
  apps : Option AppsTable := none
  previews : Option (List PreviewRecord) := none
  deriving DecidableEq

/-! The errors SQLite raises. -/

def noTable (table : String) : String := "no such table: " ++ table
def noColumn (column : String) : String := "no such column: " ++ column
def noColumnNamed (column : String) : String := "table apps has no column named " ++ column
def duplicateColumn (column : String) : String := "duplicate column name: " ++ column
def notUnique (column : String) : String := "UNIQUE constraint failed: " ++ column

namespace AppsTable

def Migrated (t : AppsTable) : Prop := t.hasNoCache = true ∧ t.hasSource = true

/-- The first of the two columns `init` adds that `t` lacks. -/
def lacks (t : AppsTable) : Option String :=
  if t.hasNoCache = false then some "no_cache" else if t.hasSource = false then some "source" else none

def created : AppsTable := { hasNoCache := false, hasSource := false, rows := [] }

/-- `ALTER TABLE apps ADD COLUMN`, with the default of the column in every row. -/
def addNoCache (t : AppsTable) : AppsTable :=
  { t with hasNoCache := true, rows := t.rows.map fun r => { r with noCache := false } }

def addSource (t : AppsTable) : AppsTable :=
  { t with hasSource := true, rows := t.rows.map fun r => { r with source := "runtime" } }

def insert (t : AppsTable) (app : AppRecord) : Except String Unit × AppsTable :=
  if t.rows.any (·.name == app.name) then (.error (notUnique "apps.name"), t)
  else if t.rows.any (·.subdomain == app.subdomain) then (.error (notUnique "apps.subdomain"), t)
  else (.ok (), { t with rows := t.rows ++ [app] })

def delete (t : AppsTable) (name : String) : Except String Nat × AppsTable :=
  (.ok (t.rows.countP (·.name == name)), { t with rows := t.rows.filter (·.name != name) })

def setSource (t : AppsTable) (name source : String) : Except String Nat × AppsTable :=
  (.ok (t.rows.countP (·.name == name)),
    { t with rows := t.rows.map fun r => if r.name == name then { r with source } else r })

end AppsTable

namespace Database

/-- Both tables exist, with every column the queries name. -/
def Complete (d : Database) : Prop :=
  (∃ t, d.apps = some t ∧ t.Migrated) ∧ d.previews.isSome

inductive Call
  | open
  | createApps
  | addNoCache
  | addSource
  | createPreviews
  | insertApp (app : AppRecord)
  | deleteApp (name : String)
  | updateSource (name source : String)
  | selectApps
  | countPort (port : UInt16)
  | upsertPreview (preview : PreviewRecord)
  | deletePreview (service : String)
  | selectPreviews

@[reducible] def Call.Reply : Call → Type
  | .deleteApp _ => Except String Nat
  | .updateSource _ _ => Except String Nat
  | .selectApps => Except String (List AppRecord)
  | .countPort _ => Except String Nat
  | .deletePreview _ => Except String Nat
  | .selectPreviews => Except String (List PreviewRecord)
  | _ => Except String Unit

/-- Run a statement on `apps`; `missing` is the error it meets for a column it names. -/
def onApps {α : Type} (d : Database) (missing : AppsTable → Option String)
    (f : AppsTable → Except String α × AppsTable) : Except String α × Database :=
  match d.apps with
  | none => (.error (noTable "apps"), d)
  | some t =>
    match missing t with
    | some e => (.error e, d)
    | none => ((f t).1, { d with apps := some (f t).2 })

def onPreviews {α : Type} (d : Database)
    (f : List PreviewRecord → Except String α × List PreviewRecord) : Except String α × Database :=
  match d.previews with
  | none => (.error (noTable "previews"), d)
  | some rows => ((f rows).1, { d with previews := some (f rows).2 })

/-- `INSERT .. ON CONFLICT(service) DO UPDATE`; a subdomain another service holds is an error. -/
def upsert (rows : List PreviewRecord) (p : PreviewRecord) :
    Except String Unit × List PreviewRecord :=
  if rows.any fun r => r.subdomain == p.subdomain && r.service != p.service then
    (.error (notUnique "previews.subdomain"), rows)
  else (.ok (), rows.filter (·.service != p.service) ++ [p])

def delete (rows : List PreviewRecord) (service : String) :
    Except String Nat × List PreviewRecord :=
  (.ok (rows.countP (·.service == service)), rows.filter (·.service != service))

/-- What a statement does when the disk and the locks let it run. -/
def Call.run : (c : Call) → Database → c.Reply × Database
  | .open, d => (.ok (), d)
  | .createApps, d =>
    match d.apps with
    | none => (.ok (), { d with apps := some AppsTable.created })
    | some _ => (.ok (), d)
  | .addNoCache, d =>
    match d.apps with
    | none => (.error (noTable "apps"), d)
    | some t =>
      if t.hasNoCache then (.error (duplicateColumn "no_cache"), d)
      else (.ok (), { d with apps := some t.addNoCache })
  | .addSource, d =>
    match d.apps with
    | none => (.error (noTable "apps"), d)
    | some t =>
      if t.hasSource then (.error (duplicateColumn "source"), d)
      else (.ok (), { d with apps := some t.addSource })
  | .createPreviews, d =>
    match d.previews with
    | none => (.ok (), { d with previews := some [] })
    | some _ => (.ok (), d)
  | .insertApp app, d =>
    onApps d (fun t => t.lacks.map noColumnNamed) (AppsTable.insert · app)
  | .deleteApp name, d => onApps d (fun _ => none) (AppsTable.delete · name)
  | .updateSource name source, d =>
    onApps d (fun t => if t.hasSource then none else some (noColumn "source"))
      (AppsTable.setSource · name source)
  | .selectApps, d =>
    onApps d (fun t => t.lacks.map noColumn)
      fun t => (.ok (t.rows.insertionSort (·.name ≤ ·.name)), t)
  | .countPort port, d =>
    onApps d (fun _ => none) fun t => (.ok (t.rows.countP (·.internalPort == port)), t)
  | .upsertPreview p, d => onPreviews d (upsert · p)
  | .deletePreview service, d => onPreviews d (delete · service)
  | .selectPreviews, d =>
    onPreviews d fun rows => (.ok (rows.insertionSort (·.service ≤ ·.service)), rows)

/-- The reply of a statement that could not run. -/
def Call.failed : (c : Call) → c.Reply
  | .deleteApp _ => .error "disk I/O error"
  | .updateSource _ _ => .error "disk I/O error"
  | .selectApps => .error "disk I/O error"
  | .countPort _ => .error "disk I/O error"
  | .deletePreview _ => .error "disk I/O error"
  | .selectPreviews => .error "disk I/O error"
  | .open => .error "disk I/O error"
  | .createApps => .error "disk I/O error"
  | .addNoCache => .error "disk I/O error"
  | .addSource => .error "disk I/O error"
  | .createPreviews => .error "disk I/O error"
  | .insertApp _ => .error "disk I/O error"
  | .upsertPreview _ => .error "disk I/O error"

def Call.answer (c : Call) (o : Choice) (d : Database) : Option (c.Reply × Database) :=
  o.fallible (c.run d) (c.failed, d)

/-- The statements of `init` that add a column; it drops whatever error they return. -/
def Call.Alters : Call → Bool
  | .addNoCache => true
  | .addSource => true
  | _ => false

/-- A call that reads or changes rows, rather than the schema. -/
def Call.Queries : Call → Prop
  | .open | .createApps | .addNoCache | .addSource | .createPreviews => False
  | _ => True

/-- A call that only reads. -/
def Call.Reads : Call → Prop
  | .open | .selectApps | .countPort _ | .selectPreviews => True
  | _ => False

/-- A call that may change the previews. -/
def Call.WritesPreviews : Call → Prop
  | .createPreviews | .upsertPreview _ | .deletePreview _ => True
  | _ => False

/-- The rows of `previews`, none as long as there is no such table. -/
def previewRows (d : Database) : List PreviewRecord := d.previews.getD []

/-! What a statement can have done to the schema, and to the previews. -/

section Inversion

variable {o : Choice} {d d' : Database} {t : AppsTable}

theorem answer_run {c : Call} {r : c.Reply} (h : c.answer o d = some (r, d')) :
    o = .ok ∧ (r, d') = c.run d ∨ o = .fail ∧ r = c.failed ∧ d' = d := by
  cases o with
  | ok => exact .inl ⟨rfl, (Option.some.inj h).symm⟩
  | fail => cases h; exact .inr ⟨rfl, rfl, rfl⟩
  | _ => cases h

/-- A table keeps the columns it has. -/
def AppsTable.Extends (t t' : AppsTable) : Prop :=
  (t.hasNoCache = true → t'.hasNoCache = true) ∧ (t.hasSource = true → t'.hasSource = true)

theorem onApps_extends {α : Type} {missing : AppsTable → Option String}
    {f : AppsTable → Except String α × AppsTable} (hf : ∀ t, AppsTable.Extends t (f t).2)
    (ht : d.apps = some t) :
    ∃ t', (onApps d missing f).2.apps = some t' ∧ AppsTable.Extends t t' := by
  simp only [onApps, ht]
  cases missing t with
  | some e => exact ⟨t, ht, id, id⟩
  | none => exact ⟨(f t).2, rfl, hf t⟩

@[simp] theorem onApps_previews {α : Type} {missing : AppsTable → Option String}
    {f : AppsTable → Except String α × AppsTable} :
    (onApps d missing f).2.previews = d.previews := by
  unfold onApps
  split
  · rfl
  · split <;> rfl

@[simp] theorem onPreviews_apps {α : Type}
    {f : List PreviewRecord → Except String α × List PreviewRecord} :
    (onPreviews d f).2.apps = d.apps := by
  unfold onPreviews
  split <;> rfl

theorem insert_extends (app : AppRecord) (t : AppsTable) :
    AppsTable.Extends t (t.insert app).2 := by
  unfold AppsTable.insert
  split
  · exact ⟨id, id⟩
  · split <;> exact ⟨id, id⟩

theorem run_extends (c : Call) (ht : d.apps = some t) :
    ∃ t', (c.run d).2.apps = some t' ∧ AppsTable.Extends t t' := by
  cases c with
  | addNoCache =>
    simp only [Call.run, ht]
    split
    · exact ⟨t, ht, id, id⟩
    · exact ⟨_, rfl, fun _ => rfl, id⟩
  | addSource =>
    simp only [Call.run, ht]
    split
    · exact ⟨t, ht, id, id⟩
    · exact ⟨_, rfl, id, fun _ => rfl⟩
  | createApps => exact ⟨t, by simp [Call.run, ht], id, id⟩
  | createPreviews => exact ⟨t, by simp only [Call.run]; split <;> exact ht, id, id⟩
  | insertApp app => exact onApps_extends (insert_extends app) ht
  | deleteApp => exact onApps_extends (fun _ => ⟨id, id⟩) ht
  | updateSource => exact onApps_extends (fun _ => ⟨id, id⟩) ht
  | selectApps => exact onApps_extends (fun _ => ⟨id, id⟩) ht
  | countPort => exact onApps_extends (fun _ => ⟨id, id⟩) ht
  | «open» => exact ⟨t, ht, id, id⟩
  | upsertPreview => exact ⟨t, by simpa [Call.run] using ht, id, id⟩
  | deletePreview => exact ⟨t, by simpa [Call.run] using ht, id, id⟩
  | selectPreviews => exact ⟨t, by simpa [Call.run] using ht, id, id⟩

theorem run_previews (c : Call) (hc : ¬ c.WritesPreviews) :
    (c.run d).2.previews = d.previews := by
  cases c with
  | createApps | addNoCache | addSource =>
    simp only [Call.run]
    repeat' split
    all_goals rfl
  | insertApp | deleteApp | updateSource | selectApps | countPort => exact onApps_previews
  | «open» => rfl
  | selectPreviews =>
    simp only [Call.run, onPreviews]
    split
    · rfl
    · next rows h => exact h.symm
  | createPreviews | upsertPreview | deletePreview => exact absurd trivial hc

theorem onApps_reads {α : Type} {missing : AppsTable → Option String}
    {f : AppsTable → Except String α} :
    (onApps d missing fun t => (f t, t)).2 = d := by
  unfold onApps
  split
  · rfl
  · next t ht =>
    split
    · rfl
    · simp [← ht]

theorem onPreviews_reads {α : Type} {f : List PreviewRecord → Except String α} :
    (onPreviews d fun rows => (f rows, rows)).2 = d := by
  unfold onPreviews
  split
  · rfl
  · next rows h => simp [← h]

theorem answer_reads {c : Call} {r : c.Reply} (ans : c.answer o d = some (r, d'))
    (hc : c.Reads) : d' = d := by
  cases answer_run ans with
  | inl ran =>
    rw [show d' = (c.run d).2 from congrArg Prod.snd ran.2]
    cases c with
    | «open» => rfl
    | selectApps | countPort => exact onApps_reads
    | selectPreviews => exact onPreviews_reads
    | _ => exact hc.elim
  | inr failed => exact failed.2.2

theorem run_previews_isSome (c : Call) (h : d.previews.isSome) : (c.run d).2.previews.isSome := by
  obtain ⟨rows, h⟩ := Option.isSome_iff_exists.mp h
  by_cases hc : c.WritesPreviews
  · cases c with
    | createPreviews | upsertPreview | deletePreview => simp [Call.run, onPreviews, h]
    | _ => exact hc.elim
  · simp [run_previews c hc, h]

theorem Complete.run (c : Call) (h : d.Complete) : (c.run d).2.Complete := by
  obtain ⟨⟨t, ht, migrated⟩, previews⟩ := h
  obtain ⟨t', ht', more⟩ := run_extends c ht
  exact ⟨⟨t', ht', more.1 migrated.1, more.2 migrated.2⟩, run_previews_isSome c previews⟩

theorem Complete.answer {c : Call} {r : c.Reply} (h : d.Complete)
    (ans : c.answer o d = some (r, d')) : d'.Complete := by
  cases answer_run ans with
  | inl ran =>
    rw [show d' = (c.run d).2 from congrArg Prod.snd ran.2]
    exact h.run c
  | inr failed =>
    rw [failed.2.2]
    exact h

theorem answer_previews {c : Call} {r : c.Reply} (ans : c.answer o d = some (r, d'))
    (hc : ¬ c.WritesPreviews) : d'.previews = d.previews := by
  cases answer_run ans with
  | inl ran =>
    rw [show d' = (c.run d).2 from congrArg Prod.snd ran.2]
    exact run_previews c hc
  | inr failed => rw [failed.2.2]

theorem answer_createPreviews {r : Except String Unit}
    (ans : Call.createPreviews.answer o d = some (r, d')) : d'.previewRows = d.previewRows := by
  rcases answer_run ans with ⟨_, ran⟩ | ⟨_, _, rfl⟩
  · simp only [Call.run] at ran
    split at ran <;> cases ran
    · next h => simp [previewRows, h]
    · rfl
  · rfl

theorem answer_deletePreview {s : String} {r : Except String Nat}
    (ans : (Call.deletePreview s).answer o d = some (r, d')) :
    d'.previewRows = d.previewRows ∧ (∀ n, r ≠ .ok n) ∨
      d'.previewRows = d.previewRows.filter (·.service != s) ∧
        r = .ok (d.previewRows.countP (·.service == s)) := by
  rcases answer_run ans with ⟨_, ran⟩ | ⟨_, rfl, rfl⟩
  · simp only [Call.run, onPreviews] at ran
    split at ran <;> cases ran
    · exact .inl ⟨rfl, by simp⟩
    · next rows h => exact .inr (by simp [previewRows, h, delete])
  · exact .inl ⟨rfl, by simp [Call.failed]⟩

theorem answer_upsertPreview {p : PreviewRecord} {r : Except String Unit}
    (ans : (Call.upsertPreview p).answer o d = some (r, d')) :
    r ≠ .ok () ∨ d'.previewRows = d.previewRows.filter (·.service != p.service) ++ [p] := by
  rcases answer_run ans with ⟨_, ran⟩ | ⟨_, rfl, rfl⟩
  · simp only [Call.run, onPreviews] at ran
    split at ran <;> cases ran
    · exact .inl (by simp)
    · next rows h =>
      simp only [upsert]
      split
      · exact .inl (by simp)
      · exact .inr (by simp [previewRows, h])
  · exact .inl (by simp [Call.failed])

theorem answer_selectPreviews {r : Except String (List PreviewRecord)}
    (ans : Call.selectPreviews.answer o d = some (r, d')) {rows : List PreviewRecord}
    (ok : r = .ok rows) : rows = d.previewRows.insertionSort (·.service ≤ ·.service) := by
  subst ok
  rcases answer_run ans with ⟨_, ran⟩ | ⟨_, failed, _⟩
  · simp only [Call.run, onPreviews] at ran
    split at ran <;> cases ran
    next h => simp [previewRows, h]
  · cases failed

end Inversion

end Database

end Codery
