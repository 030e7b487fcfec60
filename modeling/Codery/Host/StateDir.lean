import Codery.Host.Docker

/-! The small text files under `/opt/codery/state` (`state.rs`). -/

namespace Codery

inductive File
  | missing
  | unreadable
  | text (s : String)
  deriving DecidableEq

structure StateDir where
  color : String → File
  sha : String → File

namespace StateDir

/-- The color `read_active` returns; `none` where it fails. -/
def active (d : StateDir) (service : String) : Option Color :=
  match d.color service with
  | .missing => some .blue
  | .unreadable => none
  | .text s => some (colorOf s)

def activeSha (d : StateDir) (service : String) : Option String :=
  match d.sha service with
  | .text s => if trim s = "" then none else some (trim s)
  | _ => none

inductive Call
  | readColor (service : String)
  | writeColor (service text : String)
  | readSha (service : String)
  | writeSha (service text : String)

@[reducible] def Call.Reply : Call → Type
  | .readColor _ => File
  | .writeColor _ _ => Except String Unit
  | .readSha _ => File
  | .writeSha _ _ => Except String Unit

/-- A failed write leaves the old content, or any prefix of the new one. -/
def write (f : String → File) (service text : String) (o : Choice) :
    Option (Except String Unit × (String → File)) :=
  match o with
  | .ok => some (.ok (), Function.update f service (.text text))
  | .fail => some (.error "write failed", f)
  | .torn n =>
    some (.error "write failed",
      Function.update f service (.text (String.ofList (text.toList.take n))))
  | _ => none

def Call.answer : (c : Call) → Choice → StateDir → Option (c.Reply × StateDir)
  | .readColor s, .ok, d => some (d.color s, d)
  | .readColor _, _, _ => none
  | .writeColor s text, o, d =>
    (write d.color s text o).map fun x => (x.1, { d with color := x.2 })
  | .readSha s, .ok, d => some (d.sha s, d)
  | .readSha _, _, _ => none
  | .writeSha s text, o, d =>
    (write d.sha s text o).map fun x => (x.1, { d with sha := x.2 })

def Call.Writes : Call → Prop
  | .writeColor _ _ => True
  | .writeSha _ _ => True
  | _ => False

section Inversion

variable {o : Choice} {d d' : StateDir} {s text : String}

theorem write_some {f : String → File} {x : Except String Unit × (String → File)}
    (h : write f s text o = some x) :
    x = (.ok (), Function.update f s (.text text)) ∨
      x.1 ≠ .ok () ∧ (x.2 = f ∨ ∃ t, x.2 = Function.update f s (.text t)) := by
  cases o with
  | ok => cases h; exact .inl rfl
  | fail => cases h; exact .inr ⟨by simp, .inl rfl⟩
  | torn n => cases h; exact .inr ⟨by simp, .inr ⟨_, rfl⟩⟩
  | _ => cases h

theorem answer_readColor {r : File} (h : (Call.readColor s).answer o d = some (r, d')) :
    r = d.color s ∧ d' = d := by
  cases o <;> cases h
  exact ⟨rfl, rfl⟩

theorem answer_readSha {r : File} (h : (Call.readSha s).answer o d = some (r, d')) :
    r = d.sha s ∧ d' = d := by
  cases o <;> cases h
  exact ⟨rfl, rfl⟩

theorem answer_quiet {c : Call} {r : c.Reply} (h : c.answer o d = some (r, d')) (hc : ¬ c.Writes) :
    d' = d := by
  cases c with
  | readColor => exact (answer_readColor h).2
  | readSha => exact (answer_readSha h).2
  | writeColor => exact absurd trivial hc
  | writeSha => exact absurd trivial hc

theorem answer_writeColor {r : Except String Unit}
    (h : (Call.writeColor s text).answer o d = some (r, d')) :
    d'.sha = d.sha ∧
      (r = .ok () ∧ d'.color = Function.update d.color s (.text text) ∨
        r ≠ .ok () ∧ (d'.color = d.color ∨ ∃ t, d'.color = Function.update d.color s (.text t))) := by
  obtain ⟨x, hx, same⟩ := Option.map_eq_some_iff.mp h
  cases same
  refine ⟨rfl, ?_⟩
  rcases write_some hx with rfl | ⟨fails, left⟩
  · exact .inl ⟨rfl, rfl⟩
  · exact .inr ⟨fails, left⟩

theorem answer_writeSha {r : Except String Unit}
    (h : (Call.writeSha s text).answer o d = some (r, d')) :
    d'.color = d.color ∧
      (r = .ok () → d'.sha = Function.update d.sha s (.text text)) := by
  obtain ⟨x, hx, same⟩ := Option.map_eq_some_iff.mp h
  cases same
  refine ⟨rfl, ?_⟩
  rcases write_some hx with rfl | ⟨fails, _⟩
  · exact fun _ => rfl
  · exact fun ok => absurd ok fails

theorem answer_writeSha_other {r : Except String Unit}
    (h : (Call.writeSha s text).answer o d = some (r, d')) {s' : String} (hs : s' ≠ s) :
    d'.sha s' = d.sha s' := by
  obtain ⟨x, hx, same⟩ := Option.map_eq_some_iff.mp h
  cases same
  rcases write_some hx with rfl | ⟨_, same | ⟨t, same⟩⟩ <;> simp [*]

theorem answer_writeColor_ok {c : Color}
    (h : (Call.writeColor s (c.asStr ++ "\n")).answer o d = some (.ok (), d')) :
    d'.active s = some c := by
  rcases (answer_writeColor h).2 with ⟨_, same⟩ | ⟨fails, _⟩
  · simp [active, same]
  · exact absurd rfl fails

end Inversion

end StateDir

end Codery
