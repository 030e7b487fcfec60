import Codery.Dashboard
import Codery.Scenario

/-! A service is in `rollback_lock`, and its container carries `rolling_back`, exactly as long as a
rollback of it is executing, unless the future of a rollback is dropped. -/

namespace Codery.Dashboard

open Codery.Effect

variable {site : Site} {s service : String} {op : Option String} {α β : Type}
  {p : Prog sig α} {sh sh' : Shared} {o : Choice} {d d' : Server} {i j : ℕ} {r : Request}

/-! ### What is left of a request that has entered -/

/-- A call that leaves the set and the map as they are. -/
def Plain : Call → Prop
  | .host _ => True
  | .connect => True
  | .broadcastStatus => True
  | _ => False

/-- `p` runs inside a rollback of `s`: `op` is the container whose operation it has inserted, and it
removes the operation before it returns. -/
def Tidy (s : String) : Option String → Prog sig α → Prop
  | op, .ret _ => op = none
  | _, .call (.enter _) _ => False
  | _, .call (.leave _) _ => False
  | op, .call (.insertOp c v) k =>
    op = none ∧ v = .rollingBack ∧ (∃ color, c = containerName s color) ∧ ∀ r, Tidy s (some c) (k r)
  | op, .call (.removeOp c) k => op = some c ∧ ∀ r, Tidy s none (k r)
  | op, .call (.host _) k => ∀ r, Tidy s op (k r)
  | op, .call .connect k => ∀ r, Tidy s op (k r)
  | op, .call .broadcastStatus k => ∀ r, Tidy s op (k r)

theorem Tidy.call_plain {c : Call} {k : c.Reply → Prog sig α} (plain : Plain c) :
    Tidy s op (.call c k) ↔ ∀ r, Tidy s op (k r) := by
  cases c with
  | host => exact Iff.rfl
  | connect => exact Iff.rfl
  | broadcastStatus => exact Iff.rfl
  | _ => exact plain.elim

/-- A program that leaves the map alone, and then a tidy one. -/
theorem Tidy.plain_bind {f : α → Prog sig β} (plain : p.Only Plain) (next : ∀ a, Tidy s op (f a)) :
    Tidy s op (p >>= f) := by
  induction p with
  | ret a => exact next a
  | call c k ih => exact (Tidy.call_plain plain.1).mpr fun r => ih r (plain.2 r)

theorem Tidy.bind {f : α → Prog sig β} (first : Tidy s op p) (next : ∀ a, Tidy s none (f a)) :
    Tidy s op (p >>= f) := by
  induction p generalizing op with
  | ret a =>
    rw [show op = none from first]
    exact next a
  | call c k ih =>
    cases c with
    | enter => exact first.elim
    | leave => exact first.elim
    | insertOp c v => exact ⟨first.1, first.2.1, first.2.2.1, fun r => ih r (first.2.2.2 r)⟩
    | removeOp c => exact ⟨first.1, fun r => ih r (first.2 r)⟩
    | host => exact fun r => ih r (first r)
    | connect => exact fun r => ih r (first r)
    | broadcastStatus => exact fun r => ih r (first r)

theorem Tidy.plain_bindE {x : Handler α} {f : α → Handler β} (plain : x.run.Only Plain)
    (next : ∀ a, Tidy s none (f a).run) : Tidy s none (x >>= f).run := by
  rw [ExceptT.run_bind]
  refine Tidy.plain_bind plain fun r => ?_
  cases r with
  | ok a => exact next a
  | error e => exact rfl

theorem attempt_bind (x : Handler α) (f : Except String α → Handler β) :
    (attempt x >>= f).run = x.run >>= fun r => (f r).run := by
  rw [ExceptT.run_bind]
  exact Prog.bind_assoc x.run (fun r => .ret (Except.ok r)) _

theorem embed_plain (p : Prog Codery.sig α) : (embed p).Only Plain := by
  induction p with
  | ret a => trivial
  | call c k ih => exact ⟨trivial, ih⟩

theorem ofExcept_tidy (x : Except String α) : Tidy s none (ofExcept x).run := rfl

theorem rollBack_tidy : Tidy s none (rollBack s).run := by
  refine Tidy.plain_bindE (embed_plain _) fun d => ?_
  refine Tidy.plain_bindE ⟨trivial, fun _ => trivial⟩ fun connected => ?_
  refine Tidy.plain_bindE trivial fun _ => ?_
  refine Tidy.plain_bindE (embed_plain _) fun active => ?_
  refine ⟨rfl, rfl, ⟨active, rfl⟩, fun _ _ => ?_⟩
  change Tidy s _ (attempt _ >>= _ : Handler Unit).run
  rw [attempt_bind]
  refine Tidy.plain_bind (embed_plain _) fun result => ?_
  exact ⟨rfl, fun _ _ => ofExcept_tidy _⟩

theorem runRollback_tidy : Tidy s none (runRollback s).run := by
  refine Tidy.plain_bindE (embed_plain _) fun acquired => ?_
  cases acquired with
  | error e => exact rfl
  | ok =>
    change Tidy s _ (attempt _ >>= _ : Handler Unit).run
    rw [attempt_bind]
    refine Tidy.bind rollBack_tidy fun result => ?_
    exact Tidy.plain_bindE (embed_plain _) fun _ => ofExcept_tidy _

/-- What is left of a request that is in the set: a tidy program, and then the removal. -/
def Inside (s : String) (op : Option String) (p : Prog sig Response) : Prop :=
  ∃ body : Prog sig (Except String Unit), Tidy s op body ∧
    p = body >>= fun result => .call (.leave s) fun _ => .ret (respond result)

theorem entered_inside : Inside s none (entered s) := ⟨_, runRollback_tidy, rfl⟩

/-- What a plain call leaves as it is. -/
theorem answer_plain {c : Call} {r : c.Reply} (plain : Plain c)
    (ans : c.answer site o sh = some (r, sh')) :
    sh'.rollbackLock = sh.rollbackLock ∧ sh'.ops = sh.ops := by
  cases c with
  | host c =>
    obtain ⟨x, -, same⟩ := Option.map_eq_some_iff.mp ans
    cases same
    exact ⟨rfl, rfl⟩
  | connect => cases o <;> cases ans <;> exact ⟨rfl, rfl⟩
  | broadcastStatus =>
    cases o <;> cases ans
    exact ⟨rfl, rfl⟩
  | _ => exact plain.elim

/-- What the next call of a request in the set can be, and what it leaves. -/
theorem Inside.step {c : Call} {k : c.Reply → Prog sig Response} {r : c.Reply}
    (inside : Inside s op (.call c k)) (ans : c.answer site o sh = some (r, sh')) :
    ((∃ a, k r = .ret a) ∧ op = none ∧ sh'.ops = sh.ops ∧
        sh'.rollbackLock = Function.update sh.rollbackLock s false) ∨
      sh'.rollbackLock = sh.rollbackLock ∧
        (Inside s op (k r) ∧ sh'.ops = sh.ops ∨
          op = none ∧ (∃ color, Inside s (some (containerName s color)) (k r) ∧
            sh'.ops = Function.update sh.ops (containerName s color) (some .rollingBack)) ∨
          ∃ c, op = some c ∧ Inside s none (k r) ∧ sh'.ops = Function.update sh.ops c none) := by
  obtain ⟨body, tidy, same⟩ := inside
  cases body with
  | ret a =>
    cases same
    cases o <;> cases ans
    exact .inl ⟨⟨_, rfl⟩, tidy, rfl, rfl⟩
  | call c k' =>
    cases same
    by_cases plain : Plain c
    · obtain ⟨lock, ops⟩ := answer_plain plain ans
      exact .inr ⟨lock, .inl ⟨⟨_, (Tidy.call_plain plain).mp tidy r, rfl⟩, ops⟩⟩
    cases c with
    | enter => exact tidy.elim
    | leave => exact tidy.elim
    | insertOp c v =>
      obtain ⟨none, rfl, ⟨color, rfl⟩, rest⟩ := tidy
      cases o <;> cases ans
      exact .inr ⟨rfl, .inr (.inl ⟨none, color, ⟨_, rest _, rfl⟩, rfl⟩)⟩
    | removeOp c =>
      obtain ⟨some, rest⟩ := tidy
      cases o <;> cases ans
      exact .inr ⟨rfl, .inr (.inr ⟨c, some, ⟨_, rest _, rfl⟩, rfl⟩)⟩
    | _ => exact absurd trivial plain

theorem not_inside_ret {a : Response} : ¬ Inside s op (.ret a) := by
  rintro ⟨body, -, same⟩
  cases body <;> cases same

/-- An operation that is still there is still to be removed. -/
theorem Inside.keeps {c : Call} {k : c.Reply → Prog sig Response} {r : c.Reply} {n : String}
    (inside : Inside s (some n) (.call c k)) (ans : c.answer site o sh = some (r, sh'))
    (there : sh'.ops n = some .rollingBack) : Inside s (some n) (k r) := by
  rcases inside.step ans with ⟨-, none, -⟩ | ⟨-, ⟨stays, -⟩ | ⟨none, -⟩ | ⟨c, same, -, ops⟩⟩
  · cases none
  · exact stays
  · cases none
  · cases same
    simp [ops] at there

/-- Only requests that are inside await anything. -/
theorem Inside.entered (inside : Inside r.service op r.rest) : r.entered = true := by
  obtain ⟨body, tidy, same⟩ := inside
  cases body with
  | ret a => simp [Request.entered, same]
  | call c k =>
    cases c with
    | enter => exact tidy.elim
    | _ => simp [Request.entered, same]

theorem not_suspended (waiting : r.rest = postRollback r.service) : r.suspended = false := by
  simp [Request.suspended, waiting, postRollback, Call.awaits]

/-! ### The invariant -/

/-- Request `i` is a rollback of `s` that is in the set and has put its operation on `op`. -/
def Server.Holds (d : Server) (i : ℕ) (s : String) (op : Option String) : Prop :=
  ∃ r, d.requests i = some r ∧ r.service = s ∧ Inside s op r.rest

/-- The service is in the set, and no rollback of it is executing. -/
def Server.Leaked (d : Server) (s : String) : Prop :=
  d.rollbackLock s = true ∧ ¬ d.RollingBack s

/-- A request is at its check, or is in the set. -/
def Server.Staged (d : Server) : Prop :=
  ∀ i r, d.requests i = some r → r.rest = postRollback r.service ∨ ∃ op, d.Holds i r.service op

structure Server.Inv (d : Server) : Prop where
  fresh : ∀ i, d.next ≤ i → d.requests i = none
  staged : d.Staged
  locked : ∀ i s op, d.Holds i s op → d.rollbackLock s = true
  alone : ∀ i j s op op', d.Holds i s op → d.Holds j s op' → i = j
  carried : ∀ c, d.ops c = some .rollingBack → ∃ s color, c = containerName s color ∧
    ((∃ i, d.Holds i s (some c)) ∨ d.Leaked s)

theorem Server.Holds.rollingBack (holds : d.Holds i s op) : d.RollingBack s := by
  obtain ⟨r, found, rfl, inside⟩ := holds
  exact ⟨i, r, found, rfl, inside.entered⟩

theorem Server.Staged.holds (staged : d.Staged) (rolling : d.RollingBack s) :
    ∃ i op, d.Holds i s op := by
  obtain ⟨i, r, found, rfl, entered⟩ := rolling
  rcases staged i r found with waiting | ⟨op, holds⟩
  · simp [Request.entered, waiting, postRollback] at entered
  · exact ⟨i, op, holds⟩

theorem Server.Leaked.keep (leaked : d.Leaked s) (staged : d'.Staged)
    (lock : d'.rollbackLock s = d.rollbackLock s)
    (holds : ∀ i op, d'.Holds i s op → ∃ j op', d.Holds j s op') : d'.Leaked s := by
  refine ⟨lock.trans leaked.1, fun rolling => leaked.2 ?_⟩
  obtain ⟨i, op, inside⟩ := staged.holds rolling
  obtain ⟨j, op', before⟩ := holds i op inside
  exact before.rollingBack

/-- The invariant still holds, and no leak is new. -/
def Server.Sound (d d' : Server) : Prop := d'.Inv ∧ ∀ s, d'.Leaked s → d.Leaked s

/-- The requests in the set and the set are as before, and no `rolling_back` is new. -/
theorem Server.Inv.quiet (inv : d.Inv) (fresh : ∀ i, d'.next ≤ i → d'.requests i = none)
    (staged : d'.Staged) (holds : ∀ i s op, d'.Holds i s op ↔ d.Holds i s op)
    (lock : d'.rollbackLock = d.rollbackLock)
    (ops : ∀ c, d'.ops c = some .rollingBack → d.ops c = some .rollingBack) : d.Sound d' := by
  refine ⟨⟨fresh, staged, fun i s op inside => ?_, fun i j s op op' first second => ?_,
    fun c rolling => ?_⟩, fun s leaked => ?_⟩
  · exact lock ▸ inv.locked i s op ((holds i s op).mp inside)
  · exact inv.alone i j s op op' ((holds i s op).mp first) ((holds j s op').mp second)
  · obtain ⟨s, color, name, ⟨i, carries⟩ | leaked⟩ := inv.carried c (ops c rolling)
    · exact ⟨s, color, name, .inl ⟨i, (holds i s _).mpr carries⟩⟩
    · refine ⟨s, color, name, .inr (leaked.keep staged (by rw [lock]) fun i op inside => ?_)⟩
      exact ⟨i, op, (holds i s op).mp inside⟩
  · exact leaked.keep inv.staged (by rw [lock]) fun i op inside => ⟨i, op, (holds i s op).mpr inside⟩

section Update

variable {x : Option Request}

theorem holds_other (updated : d'.requests = Function.update d.requests i x) (other : j ≠ i) :
    d'.Holds j s op ↔ d.Holds j s op := by
  rw [Server.Holds, Server.Holds, updated, Function.update_of_ne other]

theorem holds_self (updated : d'.requests = Function.update d.requests i x) :
    d'.Holds i s op ↔ ∃ r, x = some r ∧ r.service = s ∧ Inside s op r.rest := by
  rw [Server.Holds, updated, Function.update_self]

theorem holds_gone (updated : d'.requests = Function.update d.requests i none) :
    d'.Holds j s op ↔ j ≠ i ∧ d.Holds j s op := by
  by_cases same : j = i
  · subst same
    simp [holds_self updated]
  · simp [holds_other updated same, same]

theorem staged_update (updated : d'.requests = Function.update d.requests i x) (staged : d.Staged)
    (new : ∀ r, x = some r → r.rest = postRollback r.service ∨ ∃ op, Inside r.service op r.rest) :
    d'.Staged := by
  intro j r found
  by_cases same : j = i
  · subst same
    rw [updated, Function.update_self] at found
    refine (new r found).imp id fun ⟨op, inside⟩ => ⟨op, ?_⟩
    exact (holds_self updated).mpr ⟨r, found, rfl, inside⟩
  · rw [updated, Function.update_of_ne same] at found
    exact (staged j r found).imp id fun ⟨op, holds⟩ => ⟨op, (holds_other updated same).mpr holds⟩

theorem fresh_update (updated : d'.requests = Function.update d.requests i x)
    (found : d.requests i = some r) (inv : d.Inv) (next : d'.next = d.next) :
    ∀ j, d'.next ≤ j → d'.requests j = none := by
  intro j past
  have old := inv.fresh j (next ▸ past)
  have other : j ≠ i := by
    rintro rfl
    rw [found] at old
    cases old
  rw [updated, Function.update_of_ne other, old]

end Update

theorem not_inside_waiting : ¬ Inside s op (postRollback service) := by
  rintro ⟨body, tidy, same⟩
  cases body with
  | ret a => cases same
  | call c k =>
    obtain ⟨rfl, -⟩ := Prog.call.inj same
    exact tidy

theorem Inside.resume {p : Prog sig Response} (inside : Inside s op p) : r.resume p = some { r with rest := p } := by
  obtain ⟨body, -, rfl⟩ := inside
  cases body <;> rfl

/-! ### What the events leave of it -/

/-- A request that is not in the set comes or goes. -/
theorem holds_idle {x : Option Request} (updated : d'.requests = Function.update d.requests i x)
    (old : ∀ s op, ¬ d.Holds i s op) (new : ∀ r, x = some r → r.rest = postRollback r.service) :
    d'.Holds j s op ↔ d.Holds j s op := by
  by_cases same : j = i
  · subst same
    refine iff_of_false (fun inside => ?_) (old s op)
    obtain ⟨r, found, rfl, inside⟩ := (holds_self updated).mp inside
    exact not_inside_waiting (new r found ▸ inside)
  · exact holds_other updated same

theorem Server.Inv.post (inv : d.Inv)
    (updated : d'.requests =
      Function.update d.requests d.next (some ⟨service, postRollback service⟩))
    (next : d'.next = d.next + 1) (shared : d'.toShared = d.toShared) : d.Sound d' := by
  have waiting : ∀ r, some (⟨service, postRollback service⟩ : Request) = some r →
      r.rest = postRollback r.service := by
    intro r same
    cases same
    rfl
  have idle : ∀ s op, ¬ d.Holds d.next s op := by
    rintro s op ⟨r, found, -⟩
    rw [inv.fresh d.next le_rfl] at found
    cases found
  refine inv.quiet (fun j past => ?_) (staged_update updated inv.staged fun r same => ?_)
    (fun j s op => holds_idle updated idle waiting) (by rw [shared]) fun c rolling => shared ▸ rolling
  · rw [updated, Function.update_of_ne (by omega)]
    exact inv.fresh j (by omega)
  · exact .inl (waiting r same)

theorem idle_of_waiting (found : d.requests i = some r)
    (waiting : r.rest = postRollback r.service) : ¬ d.Holds i s op := by
  rintro ⟨r', same, -, inside⟩
  cases found.symm.trans same
  exact not_inside_waiting (waiting ▸ inside)

theorem Server.Inv.refuse (inv : d.Inv) (found : d.requests i = some r)
    (waiting : r.rest = postRollback r.service)
    (updated : d'.requests = Function.update d.requests i none) (next : d'.next = d.next)
    (shared : d'.toShared = d.toShared) : d.Sound d' :=
  inv.quiet (fresh_update updated found inv next) (staged_update updated inv.staged nofun)
    (fun _ _ _ => holds_idle updated (fun _ _ => idle_of_waiting found waiting) nofun)
    (by rw [shared]) fun _ rolling => shared ▸ rolling

/-- A request enters the set. -/
theorem Server.Inv.enter (inv : d.Inv) (found : d.requests i = some r)
    (waiting : r.rest = postRollback r.service) (free : d.rollbackLock r.service = false)
    (updated : d'.requests = Function.update d.requests i (some { r with rest := Dashboard.entered r.service }))
    (next : d'.next = d.next)
    (lock : d'.rollbackLock = Function.update d.rollbackLock r.service true)
    (ops : d'.ops = d.ops) : d.Sound d' := by
  have staged : d'.Staged := staged_update updated inv.staged fun r' same => by
    cases same
    exact .inr ⟨_, entered_inside⟩
  have here : d'.Holds i r.service none := (holds_self updated).mpr ⟨_, rfl, rfl, entered_inside⟩
  have before (j : ℕ) (s : String) (op : Option String) (inside : d'.Holds j s op) :
      j = i ∧ s = r.service ∨ j ≠ i ∧ d.Holds j s op ∧ s ≠ r.service := by
    by_cases same : j = i
    · subst same
      obtain ⟨r', rfl', rfl, -⟩ := (holds_self updated).mp inside
      cases rfl'
      exact .inl ⟨rfl, rfl⟩
    · have old := (holds_other updated same).mp inside
      refine .inr ⟨same, old, ?_⟩
      rintro rfl
      simp [inv.locked _ _ _ old] at free
  refine ⟨⟨fresh_update updated found inv next, staged, ?_, ?_, ?_⟩, ?_⟩
  · intro j s op inside
    rw [lock]
    rcases before j s op inside with ⟨-, rfl⟩ | ⟨-, old, other⟩
    · simp
    · rw [Function.update_of_ne other]
      exact inv.locked j s op old
  · intro j j' s op op' first second
    rcases before j s op first with ⟨rfl, rfl⟩ | ⟨-, old, other⟩ <;>
      rcases before j' _ op' second with ⟨rfl, same⟩ | ⟨-, old', other'⟩
    · rfl
    · exact absurd rfl other'
    · exact absurd same other
    · exact inv.alone j j' s op op' old old'
  · intro c rolling
    obtain ⟨s, color, name, ⟨j, carries⟩ | leaked⟩ := inv.carried c (ops ▸ rolling)
    · refine ⟨s, color, name, .inl ⟨j, (holds_other updated ?_).mpr carries⟩⟩
      rintro rfl
      exact idle_of_waiting found waiting carries
    · have other : s ≠ r.service := by
        rintro rfl
        simp [leaked.1] at free
      refine ⟨s, color, name, .inr (leaked.keep staged ?_ fun j op inside => ?_)⟩
      · rw [lock, Function.update_of_ne other]
      · rcases before j s op inside with ⟨-, same⟩ | ⟨-, old, -⟩
        · exact absurd same other
        · exact ⟨j, op, old⟩
  · intro s leaked
    have other : s ≠ r.service := by
      rintro rfl
      exact leaked.2 here.rollingBack
    refine leaked.keep inv.staged (by rw [lock, Function.update_of_ne other]) fun j op inside => ?_
    refine ⟨j, op, (holds_other updated ?_).mpr inside⟩
    rintro rfl
    exact idle_of_waiting found waiting inside

/-- What a change of one request in the set leaves of the others, and of a leak. -/
theorem leaked_update {x : Option Request} (holds : d.Holds i service op)
    (updated : d'.requests = Function.update d.requests i x)
    (own : ∀ r, x = some r → r.service = service) (staged : d'.Staged)
    (lock : s ≠ service → d'.rollbackLock s = d.rollbackLock s) (leaked : d.Leaked s) :
    d'.Leaked s := by
  have other : s ≠ service := by
    rintro rfl
    exact leaked.2 holds.rollingBack
  refine leaked.keep staged (lock other) fun j op inside => ?_
  by_cases same : j = i
  · subst same
    obtain ⟨r, found, rfl, -⟩ := (holds_self updated).mp inside
    exact absurd (own r found) other
  · exact ⟨j, op, (holds_other updated same).mp inside⟩

/-- A request leaves the set, and responds. -/
theorem Server.Inv.leave (inv : d.Inv) (found : d.requests i = some r)
    (holds : d.Holds i r.service none) (bare : ∀ c, ¬ d.Holds i r.service (some c))
    (updated : d'.requests = Function.update d.requests i none) (next : d'.next = d.next)
    (lock : d'.rollbackLock = Function.update d.rollbackLock r.service false)
    (ops : d'.ops = d.ops) : d.Sound d' := by
  have staged : d'.Staged := staged_update updated inv.staged nofun
  refine ⟨⟨fresh_update updated found inv next, staged, fun j s op inside => ?_, ?_, ?_⟩, ?_⟩
  · obtain ⟨ne, old⟩ := (holds_gone updated).mp inside
    have other : s ≠ r.service := by
      rintro rfl
      exact ne (inv.alone _ _ _ _ _ old holds)
    rw [lock, Function.update_of_ne other]
    exact inv.locked j s op old
  · intro j j' s op op' first second
    exact inv.alone _ _ _ _ _ ((holds_gone updated).mp first).2
      ((holds_gone updated).mp second).2
  · intro c rolling
    obtain ⟨s, color, name, ⟨j, carries⟩ | leaked⟩ := inv.carried c (ops ▸ rolling)
    · refine ⟨s, color, name, .inl ⟨j, (holds_other updated ?_).mpr carries⟩⟩
      rintro rfl
      obtain ⟨r', same, rfl, inside⟩ := carries
      cases found.symm.trans same
      exact bare c ⟨r, found, rfl, inside⟩
    · refine ⟨s, color, name, .inr (leaked_update holds updated nofun staged ?_ leaked)⟩
      exact fun other => by rw [lock, Function.update_of_ne other]
  · intro s leaked
    have other : s ≠ r.service := by
      rintro rfl
      have out := leaked.1
      rw [lock, Function.update_self] at out
      cases out
    refine leaked.keep inv.staged (by rw [lock, Function.update_of_ne other]) fun j op inside => ?_
    refine ⟨j, op, (holds_gone updated).mpr ⟨?_, inside⟩⟩
    rintro rfl
    obtain ⟨r', same, rfl, -⟩ := inside
    cases found.symm.trans same
    exact other rfl

/-- The future of a request in the set is dropped. -/
theorem Server.Inv.drop (inv : d.Inv) (found : d.requests i = some r)
    (holds : d.Holds i r.service op)
    (updated : d'.requests = Function.update d.requests i none) (next : d'.next = d.next)
    (lock : d'.rollbackLock = d.rollbackLock) (ops : d'.ops = d.ops) :
    d'.Inv ∧ d'.Leaked r.service := by
  have staged : d'.Staged := staged_update updated inv.staged nofun
  have here : d'.Leaked r.service := by
    refine ⟨lock ▸ inv.locked i _ op holds, fun rolling => ?_⟩
    obtain ⟨j, op', inside⟩ := staged.holds rolling
    obtain ⟨ne, old⟩ := (holds_gone updated).mp inside
    exact ne (inv.alone _ _ _ _ _ old holds)
  refine ⟨⟨fresh_update updated found inv next, staged, fun j s op inside => ?_, ?_, ?_⟩, here⟩
  · exact lock ▸ inv.locked j s op ((holds_gone updated).mp inside).2
  · intro j j' s op op' first second
    exact inv.alone _ _ _ _ _ ((holds_gone updated).mp first).2
      ((holds_gone updated).mp second).2
  · intro c rolling
    obtain ⟨s, color, name, ⟨j, carries⟩ | leaked⟩ := inv.carried c (ops ▸ rolling)
    · by_cases same : j = i
      · subst same
        obtain ⟨r', same, rfl, -⟩ := carries
        cases found.symm.trans same
        exact ⟨_, color, name, .inr here⟩
      · exact ⟨s, color, name, .inl ⟨j, (holds_other updated same).mpr carries⟩⟩
    · refine ⟨s, color, name, .inr (leaked_update holds updated nofun staged ?_ leaked)⟩
      exact fun _ => by rw [lock]

/-- A request in the set takes a step and stays in it; it may put `rolling_back` on a container. -/
theorem Server.Inv.advance {rest : Prog sig Response} (inv : d.Inv) (found : d.requests i = some r)
    (holds : d.Holds i r.service op) {op' : Option String} (inside : Inside r.service op' rest)
    (updated : d'.requests = Function.update d.requests i (some { r with rest }))
    (next : d'.next = d.next) (lock : d'.rollbackLock = d.rollbackLock)
    (ops : ∀ c, d'.ops c = some .rollingBack →
      d.ops c = some .rollingBack ∧ (d.Holds i r.service (some c) → Inside r.service (some c) rest) ∨
        (∃ color, c = containerName r.service color) ∧ Inside r.service (some c) rest) :
    d.Sound d' := by
  have staged : d'.Staged := staged_update updated inv.staged fun r' same => by
    cases same
    exact .inr ⟨op', inside⟩
  have here {c : Option String} (inside : Inside r.service c rest) : d'.Holds i r.service c :=
    (holds_self updated).mpr ⟨_, rfl, rfl, inside⟩
  have before {j : ℕ} {s : String} {op : Option String} (inside : d'.Holds j s op) :
      ∃ op, d.Holds j s op := by
    by_cases same : j = i
    · subst same
      obtain ⟨r', same, rfl, -⟩ := (holds_self updated).mp inside
      cases same
      exact ⟨_, holds⟩
    · exact ⟨op, (holds_other updated same).mp inside⟩
  refine ⟨⟨fresh_update updated found inv next, staged, fun j s op inside => ?_, ?_, ?_⟩, ?_⟩
  · obtain ⟨_, old⟩ := before inside
    exact lock ▸ inv.locked j s _ old
  · intro j j' s op op' first second
    obtain ⟨_, first⟩ := before first
    obtain ⟨_, second⟩ := before second
    exact inv.alone _ _ _ _ _ first second
  · intro c rolling
    rcases ops c rolling with ⟨old, kept⟩ | ⟨⟨color, name⟩, carries⟩
    · obtain ⟨s, color, name, ⟨j, carries⟩ | leaked⟩ := inv.carried c old
      · by_cases same : j = i
        · subst same
          obtain ⟨r', same, rfl, inside⟩ := carries
          cases found.symm.trans same
          exact ⟨_, color, name, .inl ⟨j, here (kept ⟨r, found, rfl, inside⟩)⟩⟩
        · exact ⟨s, color, name, .inl ⟨j, (holds_other updated same).mpr carries⟩⟩
      · refine ⟨s, color, name, .inr (leaked_update holds updated ?_ staged ?_ leaked)⟩
        · intro r' same
          cases same
          rfl
        · exact fun _ => by rw [lock]
    · exact ⟨_, color, name, .inl ⟨i, here carries⟩⟩
  · refine fun s leaked => leaked.keep inv.staged (by rw [lock]) fun j op inside' => ?_
    by_cases same : j = i
    · subst same
      obtain ⟨r', same, rfl, -⟩ := inside'
      cases found.symm.trans same
      exact ⟨j, op', here inside⟩
    · exact ⟨j, op, (holds_other updated same).mpr inside'⟩

theorem answer_enter {new : Bool} (ans : (Call.enter s).answer site o sh = some (new, sh')) :
    (sh.rollbackLock s = true ∧ new = false ∧ sh' = sh) ∨
      sh.rollbackLock s = false ∧ new = true ∧
        sh' = { sh with rollbackLock := Function.update sh.rollbackLock s true } := by
  cases o with
  | ok =>
    simp only [Call.answer] at ans
    split at ans <;> cases ans
    next held => exact .inl ⟨held, rfl, rfl⟩
    next free => exact .inr ⟨Bool.eq_false_iff.mpr free, rfl, rfl⟩
  | _ => cases ans

theorem Server.Inv.sound_step (inv : d.Inv) (step : d.step site (.step i o) = some d') :
    d.Sound d' := by
  simp only [Server.step] at step
  split at step
  case h_1 => cases step
  case h_2 r found =>
    split at step
    case h_1 => cases step
    case h_2 c k rest =>
      obtain ⟨⟨reply, shared⟩, ans, rfl⟩ := Option.map_eq_some_iff.mp step
      rcases inv.staged i r found with waiting | ⟨op, holds⟩
      · cases rest.symm.trans waiting
        rcases answer_enter ans with ⟨-, rfl, rfl⟩ | ⟨free, rfl, rfl⟩
        · exact inv.refuse found waiting rfl rfl rfl
        · refine inv.enter found waiting free ?_ rfl rfl rfl
          exact congrArg (Function.update d.requests i) entered_inside.resume
      · obtain ⟨r', same, -, inside⟩ := id holds
        cases found.symm.trans same
        have keeps (c : String) (rolling : shared.ops c = some .rollingBack)
            (carries : d.Holds i r.service (some c)) : Inside r.service (some c) (k reply) := by
          obtain ⟨r', same, -, inside⟩ := carries
          cases found.symm.trans same
          exact (rest ▸ inside : Inside r.service (some c) (.call _ k)).keeps ans rolling
        rw [rest] at inside
        rcases inside.step ans with ⟨⟨a, ret⟩, rfl, ops, lock⟩ | ⟨lock, ⟨stays, ops⟩ |
          ⟨-, ⟨color, stays, ops⟩⟩ | ⟨c', -, stays, ops⟩⟩
        · refine inv.leave found holds (fun c carries => ?_) ?_ rfl lock ops
          · obtain ⟨r', same, -, inside'⟩ := carries
            cases found.symm.trans same
            rw [rest] at inside'
            rcases inside'.step ans with ⟨-, none, -⟩ | ⟨-, ⟨stays, -⟩ | ⟨-, _, stays, -⟩ | ⟨_, -, stays, -⟩⟩
            · cases none
            all_goals exact not_inside_ret (ret ▸ stays)
          · simp [ret, Request.resume]
        · refine inv.advance found holds stays ?_ rfl lock fun c rolling => .inl ⟨?_, keeps c rolling⟩
          · exact congrArg (Function.update d.requests i) stays.resume
          · exact ops ▸ rolling
        · refine inv.advance found holds stays ?_ rfl lock fun c rolling => ?_
          · exact congrArg (Function.update d.requests i) stays.resume
          · by_cases same : c = containerName r.service color
            · exact .inr ⟨⟨color, same⟩, same ▸ stays⟩
            · refine .inl ⟨?_, keeps c rolling⟩
              simpa [ops, Function.update_of_ne same] using rolling
        · refine inv.advance found holds stays ?_ rfl lock fun c rolling => .inl ⟨?_, keeps c rolling⟩
          · exact congrArg (Function.update d.requests i) stays.resume
          · by_cases same : c = c'
            · simp [ops, same] at rolling
            · simpa [ops, Function.update_of_ne same] using rolling

theorem Server.Inv.sound_drop (inv : d.Inv) (step : d.step site (.drop i) = some d') :
    d'.Inv ∧ ∃ s, d'.Leaked s := by
  simp only [Server.step] at step
  split at step
  case h_1 => cases step
  case h_2 r found =>
    split at step
    case isTrue suspended =>
      rcases inv.staged i r found with waiting | ⟨op, holds⟩
      · simp [not_suspended waiting] at suspended
      · suffices left : d'.Inv ∧ d'.Leaked r.service from ⟨left.1, _, left.2⟩
        cases step
        exact inv.drop found holds rfl rfl rfl rfl
    case isFalse => cases step

/-- A change of the map that puts `rolling_back` nowhere, or one of the host. -/
theorem Server.Inv.sound_shared {shared : Shared} (inv : d.Inv)
    (lock : shared.rollbackLock = d.rollbackLock)
    (ops : ∀ c, shared.ops c = some .rollingBack → d.ops c = some .rollingBack) :
    d.Sound { d with toShared := shared } :=
  inv.quiet inv.fresh inv.staged (fun _ _ _ => Iff.rfl) lock ops

theorem update_ops {ops : String → Option Op} {c c' : String} {v : Option Op}
    (v_ne : v ≠ some .rollingBack) (rolling : Function.update ops c v c' = some .rollingBack) :
    ops c' = some .rollingBack := by
  by_cases same : c' = c
  · subst same
    exact absurd (Function.update_self c' v ops ▸ rolling) v_ne
  · rwa [Function.update_of_ne same] at rolling

theorem action_ops {action : Action} {ops : String → Option Op} {c c' : String}
    (rolling : action.update c ops c' = some .rollingBack) : ops c' = some .rollingBack := by
  cases action with
  | start => exact update_ops (v := none) nofun rolling
  | other => exact rolling
  | die =>
    simp only [Action.update] at rolling
    split at rolling
    · exact update_ops (v := none) nofun rolling
    · exact rolling
  | stop =>
    simp only [Action.update] at rolling
    split at rolling
    · exact update_ops (v := none) nofun rolling
    · exact rolling

/-- Every event but a drop keeps the invariant and leaks nothing. -/
theorem Server.Inv.sound {e : Event} (inv : d.Inv) (step : d.step site e = some d')
    (stays : e.isDrop = false) : d.Sound d' := by
  cases e with
  | post service =>
    cases step
    exact inv.post rfl rfl rfl
  | step i o => exact inv.sound_step step
  | drop i => cases stays
  | docker action container =>
    cases step
    exact inv.sound_shared rfl fun _ => action_ops
  | dispatch button container =>
    cases step
    exact inv.sound_shared rfl fun _ => update_ops (by cases button <;> nofun)
  | expire container =>
    cases step
    exact inv.sound_shared rfl fun _ => update_ops (v := none) nofun
  | outside host =>
    cases step
    exact inv.sound_shared rfl fun _ rolling => rolling

theorem inv_start (start : d.Started) : d.Inv := by
  obtain ⟨requests, -, ops⟩ := start
  have none (i : ℕ) : d.requests i = .none := by rw [requests]
  refine ⟨fun i _ => none i, fun i r found => ?_, fun i s op holds => ?_,
    fun i j s op op' holds => ?_, fun c rolling => ?_⟩
  · simp [none] at found
  · obtain ⟨r, found, -⟩ := holds
    simp [none] at found
  · obtain ⟨r, found, -⟩ := holds
    simp [none] at found
  · simp [ops] at rolling

theorem Server.Inv.step {e : Event} (inv : d.Inv) (step : d.step site e = some d') : d'.Inv := by
  cases drops : e.isDrop with
  | false => exact (inv.sound step drops).1
  | true =>
    cases e with
    | drop i => exact (inv.sound_drop step).1
    | _ => cases drops

theorem inv_run {l : List (Move Server Event)} (run : (server site).Run l d) :
    Machine.Always Server.Inv l d :=
  run.always (fun _ => inv_start) fun _ _ _ inv step => inv.step step

/-- Where nothing is leaked, the operations are tied, too. -/
theorem Server.Inv.tied_iff (inv : d.Inv) : d.Tied ↔ ∀ s, ¬ d.Leaked s := by
  constructor
  · exact fun tied s leaked => leaked.2 (tied.1 s leaked.1)
  · intro sound
    have held (s : String) (lock : d.rollbackLock s = true) : d.RollingBack s :=
      not_not.mp fun idle => sound s ⟨lock, idle⟩
    refine ⟨held, fun s color rolling => ?_⟩
    obtain ⟨s', color', name, ⟨i, carries⟩ | leaked⟩ := inv.carried _ rolling
    · rw [(containerName_inj.mp name).1]
      exact carries.rollingBack
    · exact absurd leaked (sound s')

/-- `rollback_lock` and `rolling_back` are tied to the execution of a rollback throughout a run
exactly when the future of no request is dropped in it. -/
theorem rollback_tied_iff {l : List (Move Server Event)} (run : (server site).Run l d) :
    Machine.Always Server.Tied l d ↔ ∀ m ∈ l, m.event.isDrop = false := by
  refine run.always_iff (inv_run run) (fun d start => ?_) fun d e d' inv tied step => ?_
  · refine (inv_start start).tied_iff.mpr fun s leaked => ?_
    have out := leaked.1
    simp [start.2.1] at out
  · rw [(inv.step step).tied_iff]
    rw [inv.tied_iff] at tied
    cases drops : e.isDrop with
    | false =>
      simp only [iff_true]
      exact fun s leaked => tied s ((inv.sound step drops).2 s leaked)
    | true =>
      cases e with
      | drop i =>
        obtain ⟨-, s, leaked⟩ := inv.sound_drop step
        exact iff_of_false (fun none => none s leaked) (by simp)
      | _ => cases drops

/-- A rollback of paseo, up to the health of the container it is about to start. -/
def rollingBack : List Event := .post "paseo" :: List.replicate 7 (.step 0 .ok)

theorem started : Server.Started { host := Scenario.serving } := ⟨rfl, rfl, rfl⟩

theorem rollback_tied_iff_paseo : ∃ l d, (server Scenario.site).Run l d ∧
    d.ops "codery-paseo-blue" = some .rollingBack ∧ Machine.Always Server.Tied l d := by
  have played : ∃ l d, (server Scenario.site).Run l d ∧
      l.map (·.event) = rollingBack.reverse ∧
      decide (d.ops "codery-paseo-blue" = some .rollingBack) = true :=
    Machine.exists_run_of started rollingBack (by decide)
  obtain ⟨l, d, run, events, carried⟩ := played
  refine ⟨l, d, run, of_decide_eq_true carried, (rollback_tied_iff run).mpr fun m mem => ?_⟩
  have event : m.event ∈ rollingBack := by
    rw [← List.mem_reverse, ← events]
    exact List.mem_map_of_mem mem
  rcases List.mem_cons.mp event with same | same
  · rw [same]
    rfl
  · rw [List.eq_of_mem_replicate same]
    rfl

/-- The client disconnects while the status is broadcast: the service stays in the set, and the next
rollback of it is refused although none is executing. -/
theorem not_always_tied :
    ¬ ∀ l d, (server Scenario.site).Run l d → Machine.Always Server.Tied l d := by
  intro always
  have played : ∃ l d, (server Scenario.site).Run l d ∧
      (d.rollbackLock "paseo" && (d.requests 0).isNone && (d.requests 1).isNone &&
        d.next == 2) = true :=
    Machine.exists_run started (rollingBack ++ [.drop 0, .post "paseo", .step 1 .ok])
      (by decide)
  obtain ⟨l, d, run, seen⟩ := played
  simp only [Bool.and_eq_true, Option.isNone_iff_eq_none, beq_iff_eq] at seen
  obtain ⟨⟨⟨held, first⟩, second⟩, next⟩ := seen
  obtain ⟨i, r, found, -⟩ := (always l d run).1.1 "paseo" held
  have past : i < 2 := by
    by_contra past
    rw [(inv_run run).1.fresh i (by omega)] at found
    cases found
  obtain rfl | rfl : i = 0 ∨ i = 1 := by omega
  · rw [first] at found
    cases found
  · rw [second] at found
    cases found

end Codery.Dashboard
