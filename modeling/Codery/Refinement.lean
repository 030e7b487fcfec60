import Codery.LifecycleSpecs
import Codery.Slots

/-! The host, seen as the blue/green pair of one service: a call whose guard holds is a step of
the abstract machine. -/

namespace Codery

open Effect

def Host.view (h : Host) (s : String) : Slots where
  active := h.active s
  slot := h.slot s
  filed := h.proxy.caddyfile.bind (·.routed s)
  routed := h.proxy.loaded.routed s

@[simp] theorem view_active (h : Host) (s : String) : (h.view s).active = h.active s := rfl

@[simp] theorem view_slot (h : Host) (s : String) : (h.view s).slot = h.slot s := rfl

@[simp] theorem view_routed (h : Host) (s : String) :
    (h.view s).routed = h.proxy.loaded.routed s := rfl

/-- The action a change of part `p` is, for service `s`. -/
def Part.act (s : String) : Part → Slots.Act
  | .container n =>
    if n = containerName s .blue then .replace .blue
    else if n = containerName s .green then .replace .green
    else .idle
  | .caddyfile => .rewrite
  | .loaded => .reload
  | _ => .idle

def Call.act (s : String) : Call → Slots.Act
  | .state (.writeColor s' text) => if s' = s then .promote (colorOf text) else .idle
  | c => c.part.act s

variable {site : Site} {P : Part → Prop} {h h' : Host} {s : String} {a b c : Color}
  {aligned vetted : Prop}

@[simp] theorem act_container : (Part.container (containerName s c)).act s = .replace c := by
  cases c <;> simp [Part.act]

theorem act_of_quiet {p : Part} (hp : p.quiet = true) : p.act s = .idle := by
  cases p <;> first | rfl | cases hp

theorem Call.act_of_part {x : Call} (hx : ∀ s, x.part ≠ .color s) : x.act s = x.part.act s := by
  unfold Call.act
  split
  · exact absurd rfl (hx _)
  · rfl

theorem view_eq (same : h.SameBut P h') (active : ¬ P (.color s))
    (slot : ∀ c, ¬ P (.container (containerName s c))) (filed : ¬ P .caddyfile)
    (routed : ¬ P .loaded) : h'.view s = h.view s := by
  simp only [Host.view, same.active active, same.caddyfile filed, same.loaded routed,
    Slots.mk.injEq, true_and, and_true]
  funext c
  exact same.slot (slot c)

theorem reload_effect {r : Except String Unit}
    (step : steps site (.proxy .reloadCaddy) h r h') :
    Slots.Effect .reload (h.view s) (h'.view s) := by
  obtain ⟨_, _, ans⟩ := step
  obtain ⟨answered, same⟩ := answer_proxy ans
  rcases Proxy.answer_reloadCaddy answered with ⟨_, file⟩ | ⟨_, kept⟩
  · have kept : h'.proxy.caddyfile = h.proxy.caddyfile := Proxy.answer_caddyfile answered nofun
    have reloaded : h'.view s = { h.view s with routed := (h.view s).filed } := by
      rw [same]
      simp [Host.view, Host.active, kept, file]
      rfl
    rw [reloaded]
    exact .reload
  · rw [kept] at same
    rw [same]
    exact .keep

theorem part_effect {x : Call} {r : x.Reply} (step : steps site x h r h')
    (hx : ∀ s, x.part ≠ .color s) : Slots.Effect (x.part.act s) (h.view s) (h'.view s) := by
  have same : h.SameBut (· = x.part) h' := steps_sameBut step rfl
  have idle (hc : ∀ c, x.part ≠ .container (containerName s c)) (hf : x.part ≠ .caddyfile)
      (hl : x.part ≠ .loaded) : h'.view s = h.view s :=
    view_eq same (hx s).symm (fun c => (hc c).symm) hf.symm hl.symm
  cases hp : x.part with
  | container n =>
    by_cases hn : ∃ c, n = containerName s c
    · obtain ⟨c, rfl⟩ := hn
      rw [act_container]
      have replaced : h'.view s =
          { h.view s with slot := Function.update (h.view s).slot c (h'.slot s c) } := by
        rw [hp] at same
        simp only [Host.view, same.active (by simp), same.caddyfile (by simp),
          same.loaded (by simp), Slots.mk.injEq, true_and, and_true]
        funext e
        by_cases he : e = c
        · simp [he]
        · rw [Function.update_of_ne he]
          exact same.slot (by simpa using he)
      rw [replaced]
      exact .replace _
    · have none (c : Color) : n ≠ containerName s c := fun eq => hn ⟨c, eq⟩
      rw [idle (by simpa [hp] using none) (by simp [hp]) (by simp [hp])]
      simp only [Part.act, none, if_false]
      exact .idle
  | caddyfile =>
    have refiled : h'.view s =
        { h.view s with filed := h'.proxy.caddyfile.bind (·.routed s) } := by
      rw [hp] at same
      simp only [Host.view, same.active (by simp), same.loaded (by simp), Slots.mk.injEq,
        true_and, and_true]
      funext c
      exact same.slot (by simp)
    rw [refiled]
    exact .rewrite _
  | loaded =>
    cases x with
    | proxy d =>
      cases d with
      | reloadCaddy => exact reload_effect step
      | _ => cases hp
    | docker d => cases d <;> cases hp
    | state d => cases d <;> cases hp
    | db d => cases d <;> cases hp
    | _ => cases hp
  | _ =>
    rw [idle (by simp [hp]) (by simp [hp]) (by simp [hp])]
    exact .idle

/-- Recording a color changes that record only, and leaves it with some color. -/
theorem writeColor_effect {text : String} {r : Except String Unit}
    (step : steps site (.state (.writeColor s text)) h r h') :
    Slots.Effect (.promote (colorOf text)) (h.view s) (h'.view s) := by
  have same : h.SameBut (· = .color s) h' := steps_sameBut step rfl
  have recorded : h'.view s = { h.view s with active := h'.active s } := by
    simp only [Host.view, same.caddyfile (by simp), same.loaded (by simp), Slots.mk.injEq,
      true_and, and_true]
    funext c
    exact same.slot (by simp)
  obtain ⟨_, _, ans⟩ := step
  rw [recorded]
  rcases (StateDir.answer_writeColor (answer_state ans).1).2 with ⟨_, file⟩ | ⟨_, file | ⟨t, file⟩⟩
  · rw [show h'.active s = some (colorOf text) by simp [Host.active, StateDir.active, file]]
    exact .promote _
  · rw [show h'.active s = h.active s by simp [Host.active, StateDir.active, file]]
    exact .refuse
  · rw [show h'.active s = some (colorOf t) by simp [Host.active, StateDir.active, file]]
    exact .promote _

theorem call_effect {x : Call} {r : x.Reply} (step : steps site x h r h') :
    Slots.Effect (x.act s) (h.view s) (h'.view s) := by
  by_cases hx : ∀ s, x.part ≠ .color s
  · rw [Call.act_of_part hx]
    exact part_effect step hx
  · obtain ⟨s', color⟩ := not_forall_not.mp hx
    cases x with
    | state d =>
      cases d with
      | writeColor s'' text =>
        by_cases eq : s'' = s
        · subst eq
          simp only [Call.act, if_true]
          exact writeColor_effect step
        · simp only [Call.act, eq, if_false]
          rw [view_eq (steps_sameBut (P := (· = .color s'')) step rfl) (by simpa using Ne.symm eq)
            (by simp) (by simp) (by simp)]
          exact .idle
      | _ => cases color
    | docker d => cases d <;> cases color
    | db d => cases d <;> cases color
    | proxy d => cases d <;> cases color
    | _ => cases color

/-- The host refines the blue/green pair. -/
theorem call_refines {x : Call} {r : x.Reply} (step : steps site x h r h')
    (guard : (h.view s).Guard aligned vetted (x.act s)) :
    Slots.Step aligned vetted (x.act s) (h.view s) (h'.view s) := ⟨guard, call_effect step⟩

end Codery
