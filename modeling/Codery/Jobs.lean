import Codery.McpExec
import Mathlib.Algebra.Group.Nat.Defs

/-! What `codery_exec` promises about job ids and job records, and how far the truncated clock
reading behind an id carries it. -/

namespace Codery.McpExec

open Codery.Effect

section Ids

def hexDigit (c : Char) : ℕ := if c.isDigit then c.toNat - 48 else c.toNat - 87

def hexNat (cs : List Char) : ℕ := cs.foldl (fun n c => 16 * n + hexDigit c) 0

theorem hexDigit_digitChar {d : ℕ} (h : d < 16) : hexDigit d.digitChar = d := by
  have all : ∀ d < 16, hexDigit (Nat.digitChar d) = d := by decide
  exact all d h

theorem hexNat_concat (cs : List Char) (c : Char) :
    hexNat (cs ++ [c]) = 16 * hexNat cs + hexDigit c := by
  simp [hexNat]

theorem hexNat_toDigits (n : ℕ) : hexNat (Nat.toDigits 16 n) = n := by
  induction n using Nat.strongRecOn with
  | ind n ih =>
    rw [Nat.toDigits_eq_if (by decide)]
    split
    · next small => simp [hexNat, hexDigit_digitChar small]
    · next large =>
      rw [hexNat_concat, ih (n / 16) (by omega), hexDigit_digitChar (Nat.mod_lt _ (by decide))]
      exact Nat.div_add_mod n 16

theorem hexNat_replicate (k : ℕ) (cs : List Char) :
    hexNat (List.replicate k '0' ++ cs) = hexNat cs := by
  induction k with
  | zero => rfl
  | succ k ih =>
    rw [List.replicate_succ, List.cons_append, ← ih]
    rfl

theorem hexNat_genId (nanos : ℕ) : hexNat (genId nanos).toList = nanos % 2 ^ 48 := by
  rw [genId, String.toList_ofList, List.leftpad, hexNat_replicate, hexNat_toDigits]
  exact Nat.and_two_pow_sub_one_eq_mod nanos 48

theorem genId_eq_iff {m n : ℕ} : genId m = genId n ↔ m % 2 ^ 48 = n % 2 ^ 48 := by
  constructor
  · intro same
    rw [← hexNat_genId, ← hexNat_genId, same]
  · intro same
    have masked : m &&& 0xFFFFFFFFFFFF = n &&& 0xFFFFFFFFFFFF := by
      rw [show 0xFFFFFFFFFFFF = 2 ^ 48 - 1 from rfl, Nat.and_two_pow_sub_one_eq_mod,
        Nat.and_two_pow_sub_one_eq_mod, same]
    rw [genId, genId, masked]

end Ids

variable {logDir bin : String} {d t : Daemon} {e : Event}

theorem spawnWith_ok {args : List String} {timeoutSecs : ℕ} {sys : Launch} {s : Spawn}
    (h : spawnWith logDir bin args timeoutSecs sys = .ok s) :
    s.stage = .starting ∧ s.nanos = sys.nanos ∧ s.id = genId s.nanos := by
  simp only [spawnWith, bind, Except.bind, pure, Except.pure, throw, throwThe,
    MonadExceptOf.throw] at h
  repeat' split at h
  all_goals cases h
  exact ⟨rfl, rfl, rfl⟩

namespace Daemon

/-- What an event does, each way through `step`. -/
inductive Happens (d : Daemon) : Event → Daemon → Prop
  | spawned {args timeoutSecs sys s} : s.stage = .starting → s.id = genId s.nanos →
      d.Happens (.spawn args timeoutSecs sys) { d with spawns := d.spawns ++ [s] }
  | refused {args timeoutSecs sys} : d.Happens (.spawn args timeoutSecs sys) d
  | registered {k s} : d.spawns[k]? = some s → s.stage = .starting →
      d.Happens (.register k) (d.register k s)
  | finished {k s how now} : d.spawns[k]? = some s → s.stage = .waiting →
      d.Happens (.finish k how now) (d.finish k s how now)

theorem step_cases (h : d.step logDir bin e = some t) : d.Happens e t := by
  cases e with
  | spawn args timeoutSecs sys =>
    simp only [step] at h
    split at h
    · next accepted =>
      cases h
      obtain ⟨fresh, -, named⟩ := spawnWith_ok accepted
      exact .spawned fresh named
    · cases h
      exact .refused
  | register k =>
    simp only [step] at h
    split at h
    · next s found =>
      split at h
      · next fresh =>
        cases h
        exact .registered found fresh
      · cases h
    · cases h
  | finish k how now =>
    simp only [step] at h
    split at h
    · next s found =>
      split at h
      · next waits =>
        split at h
        · cases h
        · cases h
          exact .finished found waits
      · cases h
    · cases h

/-- The registered spawns read different lower 48 bits of the clock. -/
def Distinct (d : Daemon) : Prop :=
  ∀ (i j : ℕ) (a b : Spawn), d.spawns[i]? = some a → d.spawns[j]? = some b → a.Registered →
    b.Registered → a.nanos % 2 ^ 48 = b.nanos % 2 ^ 48 → i = j

/-- The registry holds the record of each registered spawn, and nothing else. -/
structure Filed (d : Daemon) : Prop where
  known : ∀ (k : ℕ) (s : Spawn), d.spawns[k]? = some s → s.Registered →
    d.registry.lookup s.id = some s.record
  whose : ∀ id job, d.registry.lookup id = some job →
    ∃ (k : ℕ) (s : Spawn), d.spawns[k]? = some s ∧ s.Registered ∧ s.id = id

def Named (d : Daemon) : Prop :=
  ∀ (k : ℕ) (s : Spawn), d.spawns[k]? = some s → s.id = genId s.nanos

theorem getElem?_append_cases {xs : List Spawn} {i : ℕ} {s a : Spawn}
    (h : (xs ++ [s])[i]? = some a) : xs[i]? = some a ∨ a = s := by
  rw [List.getElem?_append] at h
  split at h
  · exact .inl h
  · exact .inr (List.mem_singleton.mp (List.mem_of_getElem? h))

theorem getElem?_set_cases {xs : List Spawn} {k i : ℕ} {s a : Spawn}
    (h : (xs.set k s)[i]? = some a) : (i = k ∧ a = s) ∨ (i ≠ k ∧ xs[i]? = some a) := by
  rw [List.getElem?_set] at h
  split at h
  · next same =>
    split at h
    · exact .inl ⟨same.symm, (Option.some.inj h).symm⟩
    · cases h
  · next other => exact .inr ⟨Ne.symm other, h⟩

theorem getElem?_set_new {xs : List Spawn} {k : ℕ} {s a : Spawn} (h : xs[k]? = some a) :
    (xs.set k s)[k]? = some s := by
  have small := (List.getElem?_eq_some_iff.mp h).1
  rw [List.getElem?_set_self small]

theorem Named.step (h : d.Named) (hstep : d.step logDir bin e = some t) : t.Named := by
  cases step_cases hstep with
  | @spawned _ _ _ s _ named =>
    intro k a ha
    rcases getElem?_append_cases ha with old | rfl
    · exact h k a old
    · exact named
  | refused => exact h
  | @registered k s found =>
    intro i a ha
    rcases getElem?_set_cases ha with ⟨-, rfl⟩ | ⟨-, old⟩
    · exact h k s found
    · exact h i a old
  | @finished k s _ _ found =>
    intro i a ha
    rcases getElem?_set_cases ha with ⟨-, rfl⟩ | ⟨-, old⟩
    · exact h k s found
    · exact h i a old

/-- A spawn keeps its clock reading, and stays registered. -/
theorem spawns_step (hstep : d.step logDir bin e = some t) {k : ℕ} {s : Spawn}
    (found : d.spawns[k]? = some s) :
    ∃ s', t.spawns[k]? = some s' ∧ s'.nanos = s.nanos ∧ (s.Registered → s'.Registered) := by
  cases step_cases hstep with
  | spawned =>
    have old := (List.getElem?_eq_some_iff.mp found).1
    exact ⟨s, by rw [List.getElem?_append_left old, found], rfl, id⟩
  | refused => exact ⟨s, found, rfl, id⟩
  | @registered i a ha =>
    by_cases same : k = i
    · subst same
      obtain rfl := Option.some.inj (found.symm.trans ha)
      exact ⟨_, getElem?_set_new found, rfl, fun _ => nofun⟩
    · exact ⟨s, by rw [register, List.getElem?_set_ne (Ne.symm same), found], rfl, id⟩
  | @finished i a _ _ ha =>
    by_cases same : k = i
    · subst same
      obtain rfl := Option.some.inj (found.symm.trans ha)
      exact ⟨_, getElem?_set_new found, rfl, fun _ => nofun⟩
    · exact ⟨s, by rw [finish, List.getElem?_set_ne (Ne.symm same), found], rfl, id⟩

theorem Distinct.before (h : t.Distinct) (hstep : d.step logDir bin e = some t) : d.Distinct := by
  intro i j a b ha hb ra rb same
  obtain ⟨a', ha', na, ra'⟩ := spawns_step hstep ha
  obtain ⟨b', hb', nb, rb'⟩ := spawns_step hstep hb
  exact h i j a' b' ha' hb' (ra' ra) (rb' rb) (by rw [na, nb, same])

theorem Distinct.ids (h : d.Distinct) (named : d.Named) {i j : ℕ} {a b : Spawn}
    (ha : d.spawns[i]? = some a) (hb : d.spawns[j]? = some b) (ra : a.Registered)
    (rb : b.Registered) (other : i ≠ j) : a.id ≠ b.id := by
  intro same
  rw [named i a ha, named j b hb, genId_eq_iff] at same
  exact other (h i j a b ha hb ra rb same)

/-- Where the readings stay distinct, a task writes into the record of its own spawn. -/
theorem Filed.insert {k : ℕ} {s : Spawn} (s' : Spawn) (h : d.Filed) (found : d.spawns[k]? = some s)
    (same : s'.id = s.id) (registered : s'.Registered)
    (apart : ∀ i a, d.spawns[i]? = some a → a.Registered → i ≠ k → a.id ≠ s.id) :
    (⟨d.registry.insert s.id s'.record, d.spawns.set k s'⟩ : Daemon).Filed where
  known := by
    intro i a ha ra
    rcases getElem?_set_cases ha with ⟨-, rfl⟩ | ⟨other, old⟩
    · rw [same, AList.lookup_insert]
    · rw [AList.lookup_insert_ne (apart i a old ra other)]
      exact h.known i a old ra
  whose := by
    intro id job hjob
    by_cases own : id = s.id
    · subst own
      exact ⟨k, s', getElem?_set_new found, registered, same⟩
    · rw [AList.lookup_insert_ne own] at hjob
      obtain ⟨i, a, ha, ra, rfl⟩ := h.whose id job hjob
      have other : i ≠ k := by
        rintro rfl
        obtain rfl := Option.some.inj (found.symm.trans ha)
        exact own rfl
      exact ⟨i, a, by rw [List.getElem?_set_ne (Ne.symm other), ha], ra, rfl⟩

/-- A spawn that is registered afterwards has an id of its own. -/
theorem Distinct.apart {k : ℕ} {s s' : Spawn} (h : t.Distinct) (named : t.Named)
    (moved : t.spawns = d.spawns.set k s') (found : d.spawns[k]? = some s) (same : s'.id = s.id)
    (registered : s'.Registered) :
    ∀ i a, d.spawns[i]? = some a → a.Registered → i ≠ k → a.id ≠ s.id := by
  intro i a ha ra other
  have there : t.spawns[i]? = some a := by rw [moved, List.getElem?_set_ne (Ne.symm other), ha]
  have here : t.spawns[k]? = some s' := by rw [moved, getElem?_set_new found]
  rw [← same]
  exact h.ids named there here ra registered other

theorem finish_registry {k : ℕ} {s : Spawn} (how : Ending) (now : ℕ) (h : d.Filed)
    (found : d.spawns[k]? = some s) (waits : s.stage = .waiting) :
    (d.finish k s how now).registry = d.registry.insert s.id (how.update now s.job) := by
  have registered : s.Registered := by rw [Spawn.Registered, waits]; nofun
  have record : s.record = s.job := by rw [Spawn.record, waits]
  rw [finish, h.known k s found registered, record]

theorem Filed.step (h : d.Filed) (named : d.Named) (distinct : t.Distinct)
    (hstep : d.step logDir bin e = some t) : t.Filed := by
  have namedAfter := named.step hstep
  cases step_cases hstep with
  | @spawned _ _ _ s fresh _ =>
    constructor
    · intro i a ha ra
      rcases getElem?_append_cases ha with old | rfl
      · exact h.known i a old ra
      · exact absurd fresh ra
    · intro id job hjob
      obtain ⟨i, a, ha, own⟩ := h.whose id job hjob
      have old := (List.getElem?_eq_some_iff.mp ha).1
      exact ⟨i, a, by rw [List.getElem?_append_left old, ha], own⟩
  | refused => exact h
  | @registered k s found _ =>
    have registered : { s with stage := .waiting }.Registered := nofun
    have apart := distinct.apart namedAfter rfl found rfl registered
    exact h.insert { s with stage := .waiting } found rfl registered apart
  | @finished k s how now found waits =>
    have ended : { s with stage := .ended how now }.Registered := nofun
    have apart := distinct.apart namedAfter rfl found rfl ended
    have written : d.finish k s how now = ⟨d.registry.insert s.id (how.update now s.job),
        d.spawns.set k { s with stage := .ended how now }⟩ :=
      congrArg (Daemon.mk · _) (finish_registry _ _ h found waits)
    rw [written]
    exact h.insert { s with stage := .ended how now } found rfl ended apart

end Daemon

/-- The outcome of a spawn, as far as its task has come. -/
def Stage.outcome : Stage → JobStatus × Option ℤ
  | .ended (.exited code) _ => (if code = some 0 then .done else .failed, code)
  | .ended .waitError _ => (.failed, none)
  | .ended .timedOut _ => (.timeout, none)
  | _ => (.running, none)

theorem Spawn.record_eq (s : Spawn) :
    s.record = { s.record with
      id := s.id
      args := s.args
      pid := s.pid
      startedAt := s.startedAt
      status := s.stage.outcome.1
      exitCode := s.stage.outcome.2
      logPath := s.logPath } := by
  cases stage : s.stage with
  | starting => simp [Spawn.record, Stage.outcome, stage, Spawn.job]
  | waiting => simp [Spawn.record, Stage.outcome, stage, Spawn.job]
  | ended how finishedAt =>
    cases how <;> simp [Spawn.record, Stage.outcome, stage, Spawn.job, Ending.update]

/-- The returned ids are pairwise distinct, and `status` of an id reports the spawn that returned
it. -/
structure Daemon.Faithful (d : Daemon) : Prop where
  ids : ∀ (i j : ℕ) (a b : Spawn), d.spawns[i]? = some a → d.spawns[j]? = some b →
    a.Registered → b.Registered → a.id = b.id → i = j
  reports : ∀ (k : ℕ) (s : Spawn), d.spawns[k]? = some s → s.Registered →
    ∀ readTail now tailBytes, status readTail now d s.id tailBytes =
      .ok ⟨s.id, s.stage.outcome.1, s.stage.outcome.2, now - s.startedAt, s.logPath,
        readTail s.logPath tailBytes⟩

/-- A step leaves the record of a finished job as it is, and gives no id to another job. -/
structure Kept (m : Move Daemon Event) : Prop where
  finished : ∀ id job, m.source.registry.lookup id = some job → job.status ≠ .running →
    m.target.registry.lookup id = some job
  own : ∀ id job, m.source.registry.lookup id = some job →
    ∃ job', m.target.registry.lookup id = some job' ∧ job'.args = job.args ∧ job'.pid = job.pid ∧
      job'.startedAt = job.startedAt ∧ job'.logPath = job.logPath

namespace Daemon

theorem Filed.faithful (h : d.Filed) (named : d.Named) (distinct : d.Distinct) : d.Faithful where
  ids i j a b ha hb ra rb same := by
    by_contra other
    exact distinct.ids named ha hb ra rb other same
  reports k s found registered readTail now tailBytes := by
    rw [status, h.known k s found registered, s.record_eq]

theorem Faithful.distinct (h : d.Faithful) (named : d.Named) : d.Distinct := by
  intro i j a b ha hb ra rb same
  refine h.ids i j a b ha hb ra rb ?_
  rw [named i a ha, named j b hb, genId_eq_iff, same]

theorem Filed.kept (h : d.Filed) (named : t.Named) (distinct : t.Distinct)
    (hstep : d.step logDir bin e = some t) : Kept ⟨d, e, t⟩ := by
  have same {e : Event} {t : Daemon} (registry : t.registry = d.registry) : Kept ⟨d, e, t⟩ := by
    constructor
    · intro id job hjob _
      exact registry ▸ hjob
    · intro id job hjob
      exact ⟨job, registry ▸ hjob, rfl, rfl, rfl, rfl⟩
  cases step_cases hstep with
  | spawned => exact same rfl
  | refused => exact same rfl
  | @registered k s found fresh =>
    have registered : { s with stage := .waiting }.Registered := nofun
    have apart := distinct.apart named rfl found rfl registered
    have kept : ∀ id job, d.registry.lookup id = some job →
        (d.register k s).registry.lookup id = some job := by
      intro id job hjob
      obtain ⟨i, a, ha, ra, rfl⟩ := h.whose id job hjob
      have other : i ≠ k := by
        rintro rfl
        obtain rfl := Option.some.inj (found.symm.trans ha)
        exact ra fresh
      rw [register, AList.lookup_insert_ne (apart i a ha ra other), hjob]
    constructor
    · exact fun id job hjob _ => kept id job hjob
    · exact fun id job hjob => ⟨job, kept id job hjob, rfl, rfl, rfl, rfl⟩
  | @finished k s how now found waits =>
    have registered : s.Registered := by rw [Spawn.Registered, waits]; nofun
    have running : d.registry.lookup s.id = some s.job := by
      rw [h.known k s found registered, Spawn.record, waits]
    have registry := finish_registry how now h found waits
    constructor
    · intro id job hjob ended
      have other : id ≠ s.id := by
        rintro rfl
        obtain rfl := Option.some.inj (running.symm.trans hjob)
        exact ended rfl
      rw [registry, AList.lookup_insert_ne other, hjob]
    · intro id job hjob
      by_cases same : id = s.id
      · subst same
        obtain rfl := Option.some.inj (running.symm.trans hjob)
        refine ⟨how.update now s.job, by rw [registry, AList.lookup_insert], ?_⟩
        cases how <;> exact ⟨rfl, rfl, rfl, rfl⟩
      · exact ⟨job, by rw [registry, AList.lookup_insert_ne same, hjob], rfl, rfl, rfl, rfl⟩

end Daemon

variable {l : List (Move Daemon Event)}

theorem named_run (run : (bridge logDir bin).Run l d) : Machine.Always Daemon.Named l d := by
  refine run.always ?_ fun d e t hd hstep => hd.step hstep
  rintro d rfl
  intro k s found
  simp [Daemon.initial] at found

theorem filed_run (run : (bridge logDir bin).Run l d) (distinct : d.Distinct) :
    Machine.Always (fun d => d.Named ∧ d.Distinct ∧ d.Filed) l d := by
  have before := run.always_back (fun d e t hstep h => h.before hstep) distinct
  have filed : Machine.Always (fun d => d.Named ∧ d.Filed) l d := by
    refine run.always_of (C := fun m => m.target.Distinct) ?_ ?_ (run.targets before)
    · rintro d rfl
      exact ⟨nofun, nofun, nofun⟩
    · rintro d e t ⟨named, filed⟩ distinct hstep
      exact ⟨named.step hstep, filed.step named distinct hstep⟩
  exact (filed.and before).imp fun d h => ⟨h.1.1, h.2, h.1.2⟩

/-- Ids stay distinct, `status` stays faithful and records stay untouched throughout a run exactly
when no two registered spawns read clock values that agree in their lower 48 bits. -/
theorem jobs_iff (run : (bridge logDir bin).Run l d) :
    (Machine.Always Daemon.Faithful l d ∧ ∀ m ∈ l, Kept m) ↔ d.Distinct := by
  constructor
  · rintro ⟨faithful, -⟩
    exact faithful.1.distinct (named_run run).1
  · intro distinct
    have filed := filed_run run distinct
    refine ⟨filed.imp fun d h => h.2.2.faithful h.1 h.2.1, ?_⟩
    refine run.moves filed fun d e t hd ht hstep => ?_
    exact hd.2.2.kept ht.1 ht.2.1 hstep

/-- A build at a reading of the clock, with nothing in its way. -/
def build (nanos : ℕ) : Event :=
  .spawn ["build"] 0 ⟨true, .ok (), nanos, nanos / 1000000000, .ok (), .ok (), .ok none⟩

theorem distinct_of_nodup (h : (d.spawns.map (·.nanos % 2 ^ 48)).Nodup) : d.Distinct := by
  intro i j a b ha hb _ _ same
  have small : i < (d.spawns.map (·.nanos % 2 ^ 48)).length := by
    rw [List.length_map]
    exact (List.getElem?_eq_some_iff.mp ha).1
  refine (List.getElem?_inj small h).mp ?_
  rw [List.getElem?_map, List.getElem?_map, ha, hb]
  exact congrArg some same

/-- A build fails, and another one runs. -/
theorem jobs_iff_two : ∃ l d, (bridge "/var/log/codery-ci-mcp" "/opt/codery/codery-ci").Run l d ∧
    d.spawns.map (·.stage) = [.ended (.exited (some 1)) 1700000009, .waiting] ∧
    Machine.Always Daemon.Faithful l d := by
  have played : ∃ l d, (bridge "/var/log/codery-ci-mcp" "/opt/codery/codery-ci").Run l d ∧
      decide (d.spawns.map (fun s => (s.nanos, s.stage)) =
        [(1700000000000000000, .ended (.exited (some 1)) 1700000009),
          (1700000005000000000, .waiting)]) = true :=
    Machine.exists_run rfl
      [build 1700000000000000000, .register 0, build 1700000005000000000,
        .finish 0 (.exited (some 1)) 1700000009, .register 1]
      (by decide)
  obtain ⟨l, d, run, seen⟩ := played
  have spawns := of_decide_eq_true seen
  have stages := congrArg (List.map Prod.snd) spawns
  have readings := congrArg (List.map fun x => x.1 % 2 ^ 48) spawns
  rw [List.map_map] at stages readings
  refine ⟨l, d, run, stages, ((jobs_iff run).mpr (distinct_of_nodup ?_)).1⟩
  rw [show d.spawns.map (·.nanos % 2 ^ 48) = _ from readings]
  decide

/-- Two builds spawned at different moments, 2⁴⁸ nanoseconds apart, share an id. -/
theorem not_always_faithful :
    ¬ ∀ l d, (bridge "/var/log/codery-ci-mcp" "/opt/codery/codery-ci").Run l d →
      (d.spawns.map (·.nanos)).Nodup →
      Machine.Always Daemon.Faithful l d ∧ ∀ m ∈ l, Kept m := by
  intro always
  have played : ∃ l d, (bridge "/var/log/codery-ci-mcp" "/opt/codery/codery-ci").Run l d ∧
      decide (d.spawns.map (fun s => (s.nanos, s.stage)) =
        [(1700000000000000000, .waiting), (1700281474976710656, .waiting)]) = true :=
    Machine.exists_run rfl
      [build 1700000000000000000, .register 0, build 1700281474976710656, .register 1]
      (by decide)
  obtain ⟨l, d, run, seen⟩ := played
  have spawns := of_decide_eq_true seen
  obtain ⟨a, b, both⟩ := List.length_eq_two.mp (by simpa using congrArg List.length spawns)
  simp only [both, List.map_cons, List.map_nil, List.cons.injEq, Prod.mk.injEq] at spawns
  obtain ⟨⟨nanosA, stageA⟩, ⟨nanosB, stageB⟩, -⟩ := spawns
  have different : (d.spawns.map (·.nanos)).Nodup := by simp [both, nanosA, nanosB]
  have distinct := (always l d run different).1.1.distinct (named_run run).1
  have slot : a.nanos % 2 ^ 48 = b.nanos % 2 ^ 48 := by omega
  have same := distinct 0 1 a b (by rw [both]; rfl) (by rw [both]; rfl)
    (by rw [Spawn.Registered, stageA]; decide) (by rw [Spawn.Registered, stageB]; decide) slot
  cases same

end Codery.McpExec
