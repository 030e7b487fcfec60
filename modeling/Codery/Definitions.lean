import Codery.ServiceFiles
import Mathlib.Data.String.Basic

/-! The definitions of services while they are written, deleted and loaded at once: each file holds a
whole one. -/

namespace Codery.ServiceFiles

open Codery.Effect

variable (y : Yaml)

/-! ### What every operation keeps to -/

/-- Every definition file is one, of the service it is named after. -/
def Sound (d : Dir) : Prop :=
  ∀ file text, d.read file = some text → extension file = some "yml" →
    ∃ def', y.parse text = .ok def' ∧ file = def'.service ++ ".yml"

def Operation.Writes : Operation → String → Prop
  | .upsert name _, file => file = name ++ ".yml" ∨ file = name ++ ".yml.tmp"
  | .delete name, file => file = name ++ ".yml"
  | _, _ => False

/-- A step of an operation: definitions stay sound, and other files as they are. -/
def Keeps (op : Operation) (d d' : Dir) : Prop :=
  (Sound y d → Sound y d') ∧ ∀ file, ¬ op.Writes file → d'.read file = d.read file

/-- What an operation guarantees of a call. -/
def Guarantees (op : Operation) (c : Call) (d : Dir) : Prop :=
  ∀ r d', H c d r d' → Keeps y op d d'

/-- What others do to the files, of which `own` are left alone. -/
def Others (own : String → Prop) (d d' : Dir) : Prop :=
  (Sound y d → Sound y d') ∧ ∀ file, own file → d'.read file = d.read file

/-- What an operation returns, in the directory then. -/
def Fits (own : String → Prop) : Operation → Except String Answer → Dir → Prop
  | .upsert name yaml, r, d => ∀ a, r = .ok a →
    (∃ def', y.parse yaml = .ok def' ∧ def'.service = name) ∧
      (own (name ++ ".yml") → d.read (name ++ ".yml") = some yaml)
  | .delete name, r, d => ∀ a, r = .ok a → own (name ++ ".yml") → d.read (name ++ ".yml") = none
  | .load service, r, _ => service ≠ "" →
    (∀ a, r = .ok a → ∃ def', a = .defs [def'] ∧ def'.service = service) ∧
      r ≠ .error ("failed to parse " ++ path (service ++ ".yml"))
  | .loadAll, r, _ => (∀ a, r = .ok a → ∃ defs, a = .defs defs ∧ (defs.map (·.service)).Nodup) ∧
      ∀ file, r ≠ .error ("failed to parse " ++ path file)
  | .list, r, _ => ∀ a, r = .ok a → ∃ names, a = .names names ∧ names.Nodup ∧
      names.Pairwise (· ≤ ·)
  | .get _, _, _ => True

section

variable {y} {d d' : Dir} {own : String → Prop} {op : Operation} {c : Call}

theorem Sound.same (sound : Sound y d) (same : ∀ file, d'.read file = d.read file) : Sound y d' :=
  fun file text read yml => sound file text (same file ▸ read) yml

theorem keeps_same (same : ∀ file, d'.read file = d.read file) : Keeps y op d d' :=
  ⟨fun sound => sound.same same, fun file _ => same file⟩

/-- A write to a file that is no definition. -/
theorem keeps_put {file text : String} (other : extension file ≠ some "yml") (writes : op.Writes file) :
    Keeps y op d (d.put file text) := by
  constructor
  · intro sound g t read yml
    rw [Dir.read_put] at read
    split at read
    case isTrue same => exact absurd (same ▸ yml) other
    case isFalse => exact sound g t read yml
  · intro g free
    rw [Dir.read_put, if_neg fun same : g = file => free (same ▸ writes)]

theorem keeps_remove {file : String} (writes : op.Writes file) : Keeps y op d (d.remove file) := by
  constructor
  · intro sound g t read yml
    rw [Dir.read_remove] at read
    split at read
    case isTrue => cases read
    case isFalse => exact sound g t read yml
  · intro g free
    rw [Dir.read_remove, if_neg fun same : g = file => free (same ▸ writes)]

/-- A definition in the place of another one. -/
theorem keeps_rename {file file' text : String} {def' : ServiceDef} (parsed : y.parse text = .ok def')
    (named : file' = def'.service ++ ".yml") (writes : op.Writes file) (writes' : op.Writes file') :
    Keeps y op d ((d.remove file).put file' text) := by
  constructor
  · intro sound g t read yml
    rw [Dir.read_put] at read
    split at read
    case isTrue same =>
      cases read
      exact ⟨def', parsed, same.trans named⟩
    case isFalse => exact (keeps_remove writes).1 sound g t read yml
  · intro g free
    rw [Dir.read_put, if_neg fun same : g = file' => free (same ▸ writes'), Dir.read_remove,
      if_neg fun same : g = file => free (same ▸ writes)]

/-- A call that only looks at the files. -/
def Call.looks : Call → Bool
  | .dirExists | .createDirAll | .readDir | .fileExists _ | .read _ => true
  | _ => false

theorem step_looks {r : sig.Reply c} (looks : c.looks = true) (step : H c d r d') :
    ∀ file, d'.read file = d.read file := by
  obtain ⟨o, -, answered⟩ := step
  cases c
  case dirExists | fileExists | read =>
    rw [← (Prod.mk.inj (Option.some.inj answered)).2]
    exact fun _ => rfl
  case createDirAll =>
    simp only [answer] at answered
    split at answered
    all_goals
      rw [← (Prod.mk.inj (Option.some.inj answered)).2]
      exact fun _ => rfl
  case readDir =>
    simp only [answer] at answered
    split at answered
    · rw [← (Prod.mk.inj (Option.some.inj answered)).2]
      exact fun _ => rfl
    · split at answered
      · rw [← (Prod.mk.inj (Option.some.inj answered)).2]
        exact fun _ => rfl
      · cases answered
  all_goals cases looks

theorem step_read {file text : String} (step : H (.read file) d (.ok text) d') :
    d.read file = some text := by
  obtain ⟨o, -, answered⟩ := step
  have reply := (Prod.mk.inj (Option.some.inj answered)).1
  split at reply
  · cases reply
  case h_2 read => rw [read, Except.ok.inj reply]
  · cases reply

theorem step_readDir {entries : List (Option String)} (step : H .readDir d (.ok entries) d') :
    d.Lists entries := by
  obtain ⟨o, -, answered⟩ := step
  simp only [answer] at answered
  split at answered
  · cases (Prod.mk.inj (Option.some.inj answered)).1
  · split at answered
    case isTrue lists =>
      rw [← Except.ok.inj (Prod.mk.inj (Option.some.inj answered)).1]
      exact lists
    case isFalse => cases answered

theorem step_create {file : String} {r : Except String Unit} (step : H (.create file) d r d') :
    d' = d ∨ d' = d.put file "" := by
  obtain ⟨o, -, answered⟩ := step
  have answered := Option.some.inj answered
  split at answered
  · exact .inl (Prod.mk.inj answered).2.symm
  · exact .inr (Prod.mk.inj answered).2.symm

theorem step_fill {file text : String} {r : Except String Unit} (step : H (.fill file text) d r d') :
    ∃ written, d' = d.put file written ∧ (r = .ok () → written = text) := by
  obtain ⟨o, -, answered⟩ := step
  have answered := Option.some.inj answered
  split at answered
  · obtain ⟨rfl, rfl⟩ := Prod.mk.inj answered
    exact ⟨_, rfl, fun same => by cases same⟩
  · obtain ⟨rfl, rfl⟩ := Prod.mk.inj answered
    exact ⟨_, rfl, fun _ => rfl⟩

theorem step_rename {file file' : String} {r : Except String Unit}
    (step : H (.rename file file') d r d') : d' = d ∧ r ≠ .ok () ∨
      ∃ text, d.read file = some text ∧ d' = (d.remove file).put file' text := by
  obtain ⟨o, -, answered⟩ := step
  have answered := Option.some.inj answered
  split at answered
  · obtain ⟨rfl, rfl⟩ := Prod.mk.inj answered
    exact .inl ⟨rfl, fun same => by cases same⟩
  · split at answered
    case h_1 text read => exact .inr ⟨text, read, (Prod.mk.inj answered).2.symm⟩
    · obtain ⟨rfl, rfl⟩ := Prod.mk.inj answered
      exact .inl ⟨rfl, fun same => by cases same⟩

theorem step_remove {file : String} {r : Except String Unit} (step : H (.remove file) d r d') :
    d' = d ∧ r ≠ .ok () ∨ d' = d.remove file := by
  obtain ⟨o, -, answered⟩ := step
  have answered := Option.some.inj answered
  split at answered
  · obtain ⟨rfl, rfl⟩ := Prod.mk.inj answered
    exact .inl ⟨rfl, fun same => by cases same⟩
  · split at answered
    · exact .inr (Prod.mk.inj answered).2.symm
    · obtain ⟨rfl, rfl⟩ := Prod.mk.inj answered
      exact .inl ⟨rfl, fun same => by cases same⟩

theorem Others.trans {d'' : Dir} (first : Others y own d d') (next : Others y own d' d'') :
    Others y own d d'' :=
  ⟨fun sound => next.1 (first.1 sound), fun file mine => (next.2 file mine).trans (first.2 file mine)⟩

/-- The program runs among others, which leave the files `own` alone. -/
abbrev Behaves (y : Yaml) (own : String → Prop) (op : Operation) {α : Type} (p : Prog sig α) (d : Dir)
    (Q : α → Dir → Prop) : Prop :=
  Safe (among H (Others y own)) (fun c d _ _ => Guarantees y op c d) Q p d

section Rules

variable {α β : Type} {Q : Except String β → Dir → Prop}

theorem behaves_call {f : sig.Reply c → Io β} (keeps : Guarantees y op c d)
    (next : ∀ r d₁ d', H c d r d₁ → Others y own d₁ d' → Behaves y own op (f r).run d' Q) :
    Behaves y own op (call c >>= f).run d Q := by
  rintro r d' ⟨d₁, step, others⟩
  exact ⟨keeps, next r d₁ d' step others⟩

theorem behaves_look {f : sig.Reply c → Io β} (looks : c.looks = true)
    (next : ∀ r d₁ d', H c d r d₁ → Others y own d d' → Behaves y own op (f r).run d' Q) :
    Behaves y own op (call c >>= f).run d Q := by
  refine behaves_call (fun r d' step => keeps_same (step_looks looks step)) ?_
  intro r d₁ d' step others
  have same := step_looks looks step
  exact next r d₁ d' step (Others.trans ⟨fun sound => sound.same same, fun file _ => same file⟩ others)

theorem behaves_ofExcept {x : Except String α} {f : α → Io β}
    (ok : ∀ a, x = .ok a → Behaves y own op (f a).run d Q)
    (error : ∀ e, x = .error e → Q (.error e) d) :
    Behaves y own op (ofExcept x >>= f).run d Q := by
  cases x with
  | ok a => exact ok a rfl
  | error e => exact error e rfl

theorem behaves_map {x : Io α} {f : α → β} {P : Except String α → Dir → Prop}
    (spec : Behaves y own op x.run d P) (imp : ∀ r d, P r d → Q (r.map f) d) :
    Behaves y own op (f <$> x).run d Q :=
  Safe.bind spec fun r d' holds => by
    cases r with
    | ok a => exact imp (.ok a) d' holds
    | error e => exact imp (.error e) d' holds

end Rules

/-! ### Each operation among the others -/

theorem mapError_ok {α : Type} {x : Except String α} {f : String → String} {a : α}
    (ok : x.mapError f = .ok a) : x = .ok a := by
  cases x with
  | ok b => exact congrArg Except.ok (Except.ok.inj ok)
  | error e => cases ok

theorem mapError_error {α : Type} {x : Except String α} {f : String → String} {e : String}
    (failed : x.mapError f = .error e) : ∃ e', e = f e' := by
  cases x with
  | ok b => cases failed
  | error e' => exact ⟨e', (Except.error.inj failed).symm⟩

theorem validate_ne {alphabet : Alphabet} {name : String}
    (valid : validateServiceName alphabet name = .ok ()) : name ≠ "" := by
  rintro rfl
  cases valid

theorem servicePath_ok {name file : String} (ok : servicePath y name = .ok file) :
    name ≠ "" ∧ file = name ++ ".yml" := by
  unfold servicePath at ok
  cases valid : validateServiceName y.alphabet name with
  | ok _ =>
    rw [valid] at ok
    exact ⟨validate_ne valid, (Except.ok.inj ok).symm⟩
  | error e =>
    rw [valid] at ok
    cases ok

theorem writeTmp_spec {tmp yaml : String} (writes : op.Writes tmp)
    (other : extension tmp ≠ some "yml") (mine : own tmp) :
    Behaves y own op (writeTmp tmp yaml).run d fun r d' => r = .ok () → d'.read tmp = some yaml := by
  have threw : ∀ {e : String} {P : Prop}, (Except.error e : Except String Unit) = .ok () → P :=
    fun same => by cases same
  refine behaves_call (fun r d' step => ?_) fun created d₁ d₂ _ _ => ?_
  · obtain rfl | rfl := step_create step
    · exact keeps_same fun _ => rfl
    · exact keeps_put other writes
  refine behaves_ofExcept (fun _ _ => ?_) fun _ _ => threw
  refine behaves_call (fun r d' step => ?_) fun filled d₃ d₄ step others => ?_
  · obtain ⟨written, rfl, -⟩ := step_fill step
    exact keeps_put other writes
  obtain ⟨written, rfl, whole⟩ := step_fill step
  cases filled with
  | error e => exact threw
  | ok _ => exact fun _ => by rw [others.2 tmp mine, Dir.read_put, if_pos rfl, whole rfl]

theorem upsert_spec {name yaml : String} (tmp : own (name ++ ".yml.tmp")) :
    Behaves y own (.upsert name yaml) (upsertService y name yaml).run d fun r d' => ∀ a, r = .ok a →
      (∃ def', y.parse yaml = .ok def' ∧ def'.service = name) ∧
        (own (name ++ ".yml") → d'.read (name ++ ".yml") = some yaml) := by
  have threw : ∀ {e : String} {P : String → Prop} a, Except.error e = .ok a → P a :=
    fun _ same => by cases same
  refine behaves_ofExcept (fun _ _ => ?_) fun _ _ => threw
  refine behaves_ofExcept (fun def' parsed => ?_) fun _ _ => threw
  have parsed := mapError_ok parsed
  by_cases named : def'.service = name
  case neg =>
    rw [if_pos named]
    exact threw
  rw [if_neg (not_not_intro named)]
  refine behaves_look rfl fun made _ d₁ _ _ => ?_
  refine behaves_ofExcept (fun _ _ => ?_) fun _ _ => threw
  refine behaves_ofExcept (fun file path => ?_) fun _ _ => threw
  obtain ⟨nonempty, rfl⟩ := servicePath_ok path
  have writes : (Operation.upsert name yaml).Writes (name ++ ".yml.tmp") := .inr rfl
  have other : extension (name ++ ".yml.tmp") ≠ some "yml" := by
    rw [extension_tmp]
    decide
  rw [withExtension_yml nonempty]
  refine Safe.bindE (writeTmp_spec writes other tmp) ?_ fun _ _ _ => threw
  rintro _ d₂ written
  have held := written rfl
  refine behaves_call (fun r d' step => ?_) fun renamed d₃ d₄ step others => ?_
  · obtain ⟨rfl, -⟩ | ⟨text, read, rfl⟩ := step_rename step
    · exact keeps_same fun _ => rfl
    · cases held.symm.trans read
      exact keeps_rename parsed (by rw [named]) writes (.inl rfl)
  refine behaves_ofExcept (fun _ succeeded => ?_) fun _ _ => threw
  intro a _
  refine ⟨⟨def', parsed, named⟩, fun mine => ?_⟩
  rw [others.2 _ mine]
  obtain ⟨-, failed⟩ | ⟨text, read, rfl⟩ := step_rename step
  · exact absurd (mapError_ok succeeded) failed
  · cases held.symm.trans read
    rw [Dir.read_put, if_pos rfl]

theorem delete_spec {name : String} :
    Behaves y own (.delete name) (deleteService y name).run d fun r d' => ∀ a, r = .ok a →
      own (name ++ ".yml") → d'.read (name ++ ".yml") = none := by
  have threw : ∀ {e : String} {P : String → Prop} a, Except.error e = .ok a → P a :=
    fun _ same => by cases same
  refine behaves_ofExcept (fun file path => ?_) fun _ _ => threw
  obtain ⟨-, rfl⟩ := servicePath_ok path
  refine behaves_look rfl fun there _ d₁ _ _ => ?_
  cases there with
  | false => exact threw
  | true =>
    refine behaves_call (fun r d' step => ?_) fun removed d₂ d₃ step others => ?_
    · obtain ⟨rfl, -⟩ | rfl := step_remove step
      · exact keeps_same fun _ => rfl
      · exact keeps_remove rfl
    refine behaves_ofExcept (fun _ succeeded => ?_) fun _ _ => threw
    intro a _ mine
    rw [others.2 _ mine]
    obtain ⟨-, failed⟩ | rfl := step_remove step
    · exact absurd (mapError_ok succeeded) failed
    · rw [Dir.read_remove, if_pos rfl]

theorem get_spec {name : String} :
    Behaves y own (.get name) (getService y name).run d fun _ _ => True := by
  refine behaves_ofExcept (fun file _ => ?_) fun _ _ => trivial
  refine behaves_look rfl fun r _ d₁ _ _ => ?_
  cases r <;> trivial

theorem read_ne_parse (s t : String) : "failed to read " ++ s ≠ "failed to parse " ++ t := by
  intro same
  have cut := congrArg (fun s => s.toList.drop 10) same
  simp at cut

theorem load_spec {service : String} (sound : Sound y d) :
    Behaves y own (.load service) (load y service).run d fun r _ => service ≠ "" →
      (∀ def', r = .ok def' → def'.service = service) ∧
        r ≠ .error ("failed to parse " ++ path (service ++ ".yml")) := by
  refine behaves_look rfl fun r d₁ d₂ step others => ?_
  refine behaves_ofExcept (fun data read => ?_) fun e failed _ => ?_
  · rw [mapError_ok read] at step
    have parses : service ≠ "" → ∃ def', y.parse data = .ok def' ∧ def'.service = service := by
      intro named
      obtain ⟨def', parsed, same⟩ := sound _ _ (step_read step) (extension_yml named)
      exact ⟨def', parsed, (yml_inj.mp same).symm⟩
    intro named
    obtain ⟨def', parsed, same⟩ := parses named
    rw [parsed]
    refine ⟨?_, fun same => by cases same⟩
    rintro _ ⟨rfl⟩
    exact same
  · obtain ⟨e', rfl⟩ := mapError_error failed
    refine ⟨fun _ same => (by cases same), fun same => ?_⟩
    have cut := congrArg (fun s => s.toList.drop 10) (Except.error.inj same)
    simp at cut

/-- What is loaded of the entries are the definitions of some of them, in their order. -/
theorem loadFiles_spec (sound : Sound y d) (entries : List (Option String)) :
    Behaves y own .loadAll (loadFiles y entries).run d fun r _ =>
      (∀ defs, r = .ok defs →
        (defs.map fun x => x.service ++ ".yml").Sublist entries.reduceOption) ∧
          ∀ file, r ≠ .error ("failed to parse " ++ path file) := by
  induction entries generalizing d with
  | nil =>
    refine ⟨?_, fun _ same => by cases same⟩
    rintro _ ⟨rfl⟩
    exact .slnil
  | cons entry entries ih =>
    cases entry with
    | none =>
      refine ⟨fun _ same => (by cases same), fun file same => ?_⟩
      exact read_ne_parse "directory entry" _ (Except.error.inj same)
    | some file =>
      have head : (some file :: entries).reduceOption = file :: entries.reduceOption := rfl
      rw [head]
      unfold loadFiles
      split
      case isFalse =>
        refine Safe.post (ih sound) fun r d' holds => ⟨fun defs same => ?_, holds.2⟩
        exact (holds.1 defs same).cons file
      case isTrue yml =>
        refine behaves_look rfl fun r d₁ d₂ step others => ?_
        refine behaves_ofExcept (fun data read => ?_) fun e failed => ?_
        · have text : d.read file = some data := by
            rw [mapError_ok read] at step
            exact step_read step
          obtain ⟨def', parsed, same⟩ := sound _ _ text yml
          rw [parsed]
          refine behaves_ofExcept (fun _ given => ?_) fun _ failed => by cases failed
          cases given
          refine Safe.bindE (ih (others.1 sound)) ?_ ?_
          · rintro defs d' ⟨sub, -⟩
            refine ⟨?_, fun _ same => by cases same⟩
            rintro _ ⟨rfl⟩
            rw [List.map_cons, ← same]
            exact (sub defs rfl).cons_cons file
          · rintro e d' ⟨-, unparsed⟩
            refine ⟨fun _ same => (by cases same), fun file same => unparsed file same⟩
        · obtain ⟨e', rfl⟩ := mapError_error failed
          refine ⟨fun _ same => (by cases same), fun g same => ?_⟩
          exact read_ne_parse _ _ (Except.error.inj same)

theorem loadAll_spec (sound : Sound y d) :
    Behaves y own .loadAll (loadAll y).run d fun r _ =>
      (∀ defs, r = .ok defs → (defs.map (·.service)).Nodup) ∧
        ∀ file, r ≠ .error ("failed to parse " ++ path file) := by
  refine behaves_look rfl fun there _ d₁ _ others => ?_
  cases there with
  | false =>
    refine ⟨?_, fun _ same => by cases same⟩
    rintro _ ⟨rfl⟩
    exact List.nodup_nil
  | true =>
    refine behaves_look rfl fun r d₂ d₃ step others' => ?_
    refine behaves_ofExcept (fun entries listed => ?_) fun e failed => ?_
    · rw [mapError_ok listed] at step
      have lists := step_readDir step
      refine Safe.post (loadFiles_spec (others'.1 (others.1 sound)) entries) ?_
      rintro r d' ⟨sub, unparsed⟩
      refine ⟨fun defs same => ?_, unparsed⟩
      have nodup : ((defs.map (·.service)).map (· ++ ".yml")).Nodup := by
        rw [List.map_map]
        exact lists.1.sublist (sub defs same)
      exact .of_map _ nodup
    · obtain ⟨e', rfl⟩ := mapError_error failed
      refine ⟨fun _ same => (by cases same), fun g same => ?_⟩
      exact read_ne_parse _ _ (Except.error.inj same)

theorem list_spec :
    Behaves y own .list listServices.run d fun r _ =>
      ∀ names, r = .ok names → names.Nodup ∧ names.Pairwise (· ≤ ·) := by
  refine behaves_look rfl fun there _ d₁ _ _ => ?_
  cases there with
  | false =>
    rintro _ ⟨rfl⟩
    exact ⟨List.nodup_nil, List.Pairwise.nil⟩
  | true =>
    refine behaves_look rfl fun r d₂ d₃ step _ => ?_
    refine behaves_ofExcept (fun entries listed => ?_) fun e _ _ same => by cases same
    rw [mapError_ok listed] at step
    have lists := step_readDir step
    rintro _ ⟨rfl⟩
    constructor
    · refine (List.mergeSort_perm _ _).nodup_iff.mpr ?_
      refine (lists.1.filter _).map_on fun file mem file' mem' same => ?_
      have yml := of_decide_eq_true (List.mem_filter.mp mem).2
      have yml' := of_decide_eq_true (List.mem_filter.mp mem').2
      rw [fileStem_yml yml, fileStem_yml yml', same]
    · have transitive : ∀ a b c : String, decide (a ≤ b) → decide (b ≤ c) → decide (a ≤ c) :=
        fun a b c le le' => decide_eq_true (le_trans (of_decide_eq_true le) (of_decide_eq_true le'))
      have total : ∀ a b : String, decide (a ≤ b) || decide (b ≤ a) :=
        fun a b => by simpa using le_total a b
      exact (List.pairwise_mergeSort transitive total _).imp fun le => of_decide_eq_true le

theorem perform_spec (sound : Sound y d)
    (tmp : ∀ name yaml, op = .upsert name yaml → own (name ++ ".yml.tmp")) :
    Behaves y own op (perform y op) d (Fits y own op) := by
  cases op with
  | list =>
    refine behaves_map list_spec fun r d' holds a same => ?_
    cases r with
    | ok names =>
      cases same
      exact ⟨names, rfl, holds names rfl⟩
    | error e => cases same
  | get name => exact behaves_map get_spec fun _ _ _ => trivial
  | upsert name yaml =>
    refine behaves_map (upsert_spec (tmp name yaml rfl)) fun r d' holds a same => ?_
    cases r with
    | ok s => exact holds s rfl
    | error e => cases same
  | delete name =>
    refine behaves_map delete_spec fun r d' holds a same => ?_
    cases r with
    | ok s => exact holds s rfl
    | error e => cases same
  | load service =>
    refine behaves_map (load_spec sound) fun r d' holds named => ?_
    cases r with
    | ok def' =>
      refine ⟨?_, fun same => by cases same⟩
      rintro _ ⟨rfl⟩
      exact ⟨def', rfl, (holds named).1 def' rfl⟩
    | error e =>
      exact ⟨fun _ same => (by cases same), fun same => (holds named).2 (by rw [Except.error.inj same])⟩
  | loadAll =>
    refine behaves_map (loadAll_spec sound) fun r d' holds => ?_
    cases r with
    | ok defs =>
      refine ⟨?_, fun _ same => by cases same⟩
      rintro _ ⟨rfl⟩
      exact ⟨defs, rfl, holds.1 defs rfl⟩
    | error e =>
      exact ⟨fun _ same => (by cases same),
        fun file same => holds.2 file (by rw [Except.error.inj same])⟩

/-! ### The definitions of a sound directory -/

theorem Dir.mem_files {file text : String} : (file, text) ∈ d.files ↔ d.read file = some text := by
  constructor
  · intro mem
    have nodup := d.nodup
    rw [read]
    generalize d.files = l at mem nodup
    induction l with
    | nil => cases mem
    | cons x l ih =>
      obtain ⟨absent, nodup⟩ := List.nodup_cons.mp nodup
      rcases List.mem_cons.mp mem with rfl | mem
      · exact List.lookup_cons_self
      · have other : (file == x.1) = false :=
          beq_eq_false_iff_ne.mpr fun same => absent (List.mem_map.mpr ⟨_, mem, same⟩)
        rw [List.lookup_cons, other]
        exact ih mem nodup
  · intro found
    obtain ⟨l₁, l₂, whole, -⟩ := List.lookup_eq_some_iff.mp found
    rw [whole]
    exact List.mem_append_right l₁ (.head l₂)

/-- What the entry of a directory defines. -/
def defined (y : Yaml) (x : String × String) : Option ServiceDef :=
  if extension x.1 = some "yml" then (y.parse x.2).toOption else none

theorem defined_some {x : String × String} {def' : ServiceDef} :
    defined y x = some def' ↔ extension x.1 = some "yml" ∧ y.parse x.2 = .ok def' := by
  unfold defined
  split
  case isTrue yml => cases y.parse x.2 <;> simp [Except.toOption, yml]
  case isFalse other => simp [other]

theorem map_defined {l : List (String × String)}
    (named : ∀ x ∈ l, ∀ def', defined y x = some def' → x.1 = def'.service ++ ".yml") :
    ((l.filterMap (defined y)).map fun def' => def'.service ++ ".yml").Sublist (l.map (·.1)) := by
  induction l with
  | nil => exact .slnil
  | cons x l ih =>
    have rest := ih fun x mem => named x (.tail _ mem)
    cases defines : defined y x with
    | none =>
      rw [List.filterMap_cons_none defines]
      exact rest.cons x.1
    | some def' =>
      rw [List.filterMap_cons_some defines, List.map_cons, List.map_cons,
        named x (.head _) def' defines]
      exact rest.cons_cons _

/-- The definitions of the files are what `Services` says they are. -/
theorem Sound.services (sound : Sound y d) : ∃ services : Services, ∀ service ≠ "",
    services.load service =
      (d.read (service ++ ".yml")).bind fun text => (y.parse text).toOption := by
  have named {x : String × String} {def' : ServiceDef} (mem : x ∈ d.files)
      (defines : defined y x = some def') : x.1 = def'.service ++ ".yml" := by
    obtain ⟨yml, parsed⟩ := defined_some.mp defines
    obtain ⟨def'', parsed', same⟩ := sound x.1 x.2 (Dir.mem_files.mp mem) yml
    cases parsed.symm.trans parsed'
    exact same
  have nodup : (((d.files.filterMap (defined y)).map (·.service)).map (· ++ ".yml")).Nodup := by
    rw [List.map_map]
    exact d.nodup.sublist (map_defined fun x mem def' defines => named mem defines)
  refine ⟨⟨d.files.filterMap (defined y), .of_map _ nodup⟩, fun service some => ?_⟩
  cases read : d.read (service ++ ".yml") with
  | none =>
    refine List.find?_eq_none.mpr fun def' mem same => ?_
    obtain ⟨x, mem, defines⟩ := List.mem_filterMap.mp mem
    have file : x.1 = service ++ ".yml" := by rw [named mem defines, eq_of_beq same]
    rw [← file, Dir.mem_files.mp mem] at read
    cases read
  | some text =>
    obtain ⟨def', parsed, same⟩ := sound _ _ read (extension_yml some)
    have mem : def' ∈ d.files.filterMap (defined y) :=
      List.mem_filterMap.mpr ⟨_, Dir.mem_files.mpr read, defined_some.mpr ⟨extension_yml some, parsed⟩⟩
    have same : def'.service = service := (yml_inj.mp same).symm
    rw [Option.bind_some, parsed]
    cases found : Services.load ⟨d.files.filterMap (defined y), .of_map _ nodup⟩ service with
    | none => exact absurd (beq_iff_eq.mpr same) (List.find?_eq_none.mp found def' mem)
    | some def'' =>
      have only := List.inj_on_of_nodup_map (.of_map _ nodup) (Services.load_mem found) mem
        ((Services.load_service found).trans same.symm)
      rw [only]
      rfl

end

/-! ### All of them at once -/

section

variable {ι : Type} (ops : ι → Operation)

/-- The files that no operation but `i` writes. -/
def Own (i : ι) (file : String) : Prop := ∀ j, j ≠ i → ¬ (ops j).Writes file

theorem interferes : Interferes H (fun i => Others y (Own ops i))
    (fun i => Guarantees y (ops i)) where
  idle _ _ := ⟨fun sound => sound, fun _ _ => rfl⟩
  trans _ _ _ _ first next := first.trans next
  step _ j ne _ _ r d' step guarantees :=
    ⟨(guarantees r d' step).1, fun file mine => (guarantees r d' step).2 file (mine j (Ne.symm ne))⟩

/-- However the tools and the loaders run into each other, fail, and are broken off: every definition
file is the whole definition of the service it is named after, so that together they are what
`Services` takes them for, and each operation returns what it is to. No definition is written by two
at once. -/
theorem definitions_sound [DecidableEq ι]
    (apart : ∀ i j name yaml yaml', i ≠ j → ops i = .upsert name yaml → ops j ≠ .upsert name yaml')
    {d₀ : Dir} (sound : Sound y d₀) {x : Pool sig ι (Except String Answer)} {d : Dir}
    (run : Pool.Reaches H (fun _ _ => True) (Pool.start fun i => perform y (ops i), d₀) (x, d)) :
    Sound y d ∧
      (∃ services : Services, ∀ service ≠ "", services.load service =
        (d.read (service ++ ".yml")).bind fun text => (y.parse text).toOption) ∧
      ∀ i r, x.prog i = .ret r → Fits y (Own ops i) (ops i) r d := by
  have each (i : ι) (d : Dir) (others : Others y (Own ops i) d₀ d) :
      Behaves y (Own ops i) (ops i) (perform y (ops i)) d (Fits y (Own ops i) (ops i)) := by
    refine perform_spec (others.1 sound) fun name yaml same j ne writes => ?_
    cases other : ops j with
    | upsert name' yaml' =>
      rw [other] at writes
      obtain definition | temporary := writes
      · exact tmp_ne_yml _ _ definition
      · obtain rfl := tmp_inj.mp temporary
        exact apart i j name yaml yaml' (Ne.symm ne) same other
    | delete name' =>
      rw [other] at writes
      exact tmp_ne_yml _ _ writes
    | list | get | load | loadAll =>
      rw [other] at writes
      exact writes
  have kept : Sound y d := Pool.relies_keeps (interferes y ops) each
    (fun _ _ _ r d' step guarantees sound => (guarantees r d' step).1 sound) sound run
  exact ⟨kept, kept.services, fun i r ret => (Pool.relies (interferes y ops) each run).returned
    (interferes y ops) ret⟩

end

/-- A definition, and what `serde_yaml` reads in it. -/
def paseoYaml : String :=
  "service: paseo\nimage: ghcr.io/coderyoss/codery:paseo-\x7bsha\x7d\nport_scheme:\n" ++
  "  blue_offset: 10000\n  green_offset: 20000\nhealth_check:\n  type: docker\n" ++
  "  timeout_secs: 60\nvolumes: []\nnetwork: codery-net\n"

def paseoDef : ServiceDef where
  service := "paseo"
  image := "ghcr.io/coderyoss/codery:paseo-\x7bsha\x7d"
  portScheme := ⟨10000, 20000⟩
  healthCheck := .docker 60
  network := "codery-net"

def paseoOnly : Yaml where
  alphabet := Scenario.ascii
  parse text := if text = paseoYaml then .ok paseoDef else .error "missing field"

def emptyDir : Dir := ⟨false, [], List.nodup_nil⟩

/-- It is written while all definitions are loaded. -/
def writing : Bool → Operation
  | true => .upsert "paseo" paseoYaml
  | false => .loadAll

theorem definitions_sound_writing : ∃ x d,
    Pool.Reaches H (fun _ _ => True)
        (Pool.start fun i => perform paseoOnly (writing i), emptyDir) (x, d) ∧
      d.read "paseo.yml" = some paseoYaml ∧ Sound paseoOnly d := by
  have apart : ∀ i j name yaml yaml', i ≠ j → writing i = .upsert name yaml →
      writing j ≠ .upsert name yaml' := by
    intro i j name yaml yaml' ne upserts upserts'
    cases i <;> cases j
    case true.true | false.false => exact ne rfl
    case true.false => cases upserts'
    case false.true => cases upserts
  have sound : Sound paseoOnly emptyDir := fun _ _ read => by cases read
  have played : (playPool answer (fun _ _ => true) (fun _ _ => True)
      [(true, {}), (true, {}), (false, {}), (false, { entries := [some "paseo.yml.tmp"] }), (true, {}),
        (true, {})]
      (Pool.start fun i => perform paseoOnly (writing i), emptyDir)).map
        (fun z => z.2.read "paseo.yml") = some (some paseoYaml) := by decide +kernel
  obtain ⟨⟨x, d⟩, run, shown⟩ := Option.map_eq_some_iff.mp played
  have reached := playPool_reaches run
  exact ⟨x, d, reached, shown, (definitions_sound paseoOnly writing apart sound reached).1⟩

end Codery.ServiceFiles
