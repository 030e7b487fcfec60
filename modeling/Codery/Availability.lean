import Codery.Scenario

/-! What stays up while the operations on a service run one after the other, whatever fails. -/

namespace Codery

open Effect

variable {site : Site} {h h' h₀ : Host} {s : String} {op : Operation}

/-! ### The recorded container -/

/-- The container of the recorded color is running. -/
def Host.Live (h : Host) (s : String) : Prop := ∃ c, h.active s = some c ∧ h.Up s c

theorem live_view : (h.view s).Live ↔ h.Live s := Iff.rfl

theorem step_live {aligned vetted : Prop} {x : Call} {r : x.Reply} (step : steps site x h r h')
    (guard : Guarded s aligned vetted x h r h') (live : h.Live s) : h'.Live s :=
  live_view.mp ((call_refines step guard).live (live_view.mpr live))

theorem Operation.live (locks : op.Locks s) (live : h.Live s) :
    Safe (steps site) (fun _ _ _ h' => h'.Live s) (fun _ h' => h'.Live s) op.perform h := by
  have guarded : Safe (steps site) (Guarded s False False) (fun _ _ => True) op.perform h :=
    Operation.guarded locks False.elim False.elim
  refine (guarded.carry live fun x _ _ _ step guard live => step_live step guard live).mono ?_ ?_
  · exact fun _ _ _ _ _ kept => kept.2.2
  · exact fun _ _ kept => kept.2

theorem live_throughout (live : h₀.Live s) :
    SerialStates (steps site) Operation.perform (fun op _ => op.Locks s) (Host.Live · s) h₀ :=
  serialStates_of_safe live fun _ _ live locks => Operation.live locks live

theorem serving_throughout :
    SerialStates (steps Scenario.site) Operation.perform (fun op _ => op.Locks "paseo")
      (Host.Live · "paseo") Scenario.serving :=
  live_throughout ⟨.blue, by decide, _, rfl, rfl⟩

/-! ### The routed container -/

/-- The step does not take down a container that Caddy routes the service to. -/
def KeepsRouted (s : String) : StepRel sig Host := fun _ h _ h' =>
  ∀ c, h.proxy.loaded.RoutesTo s c → h.Up s c → h'.Up s c

theorem step_keepsRouted {vetted : Prop} {x : Call} {r : x.Reply} (step : steps site x h r h')
    (guard : Guarded s True vetted x h r h') : KeepsRouted s x h r h' :=
  fun _ routed up => (call_refines step guard).routed_up trivial routed up

/-- Operations that start with Caddy routing the service, if at all, to the recorded color take
no routed container down. -/
theorem routed_kept :
    SerialSteps (steps site) Operation.perform (fun op h => op.Locks s ∧ h.Aligned s)
      (KeepsRouted s) h₀ := by
  apply serialSteps_of_safe
  intro op h start
  have guarded : Safe (steps site) (Guarded s True False) (fun _ _ => True) op.perform h :=
    Operation.guarded start.1 (fun _ => start.2) False.elim
  exact guarded.mono (fun _ _ _ _ step guard => step_keepsRouted step guard) fun _ _ _ => trivial

/-- After a deploy whose reload failed, `cancel-preview` stops the container Caddy still routes
to. -/
theorem routed_stopped :
    ¬ SerialSteps (steps Scenario.site) Operation.perform (fun op _ => op.Locks "paseo")
      (KeepsRouted "paseo") Scenario.serving := by
  have played : playStep (Call.answer Scenario.site) anyChoice Operation.perform
      [Scenario.failedReload] (.cancelPreview "paseo") (Scenario.oks 3) .ok
      (fun _ h h' => decide (h.proxy.loaded.RoutesTo "paseo" .blue ∧ h.Up "paseo" .blue ∧
        ¬ h'.Up "paseo" .blue)) Scenario.serving = some true := by decide
  refine not_serialSteps ?_ ?_ ?_ played
  · intro x hx _
    cases List.mem_singleton.mp hx
    rfl
  · exact fun _ => rfl
  · intro _ _ _ _ bad keeps
    have bad := of_decide_eq_true bad
    exact bad.2.2 (keeps _ bad.1 bad.2.1)

/-! ### The promoted container -/

/-- A color is recorded only while its container has passed a health check. -/
def PromotesHealthy (s : String) : StepRel sig Host := fun x h _ _ =>
  ∀ c : Color, x = .state (.writeColor s (c.asStr ++ "\n")) →
    ∃ k, h.slot s c = some k ∧ k.healthPassed = true

theorem step_promotesHealthy {aligned : Prop} {x : Call} {r : x.Reply}
    (guard : Guarded s aligned True x h r h') : PromotesHealthy s x h r h' := by
  intro c same
  subst same
  simp only [Guarded, Call.act, if_true, colorOf_asStr] at guard
  obtain ⟨_, k, slot, _, passed⟩ := guard
  exact ⟨k, slot, passed trivial⟩

theorem healthy_promoted :
    SerialSteps (steps site) Operation.perform (fun op h => op.Locks s ∧ op.Vetted site h)
      (PromotesHealthy s) h₀ := by
  apply serialSteps_of_safe
  intro op h start
  have guarded : Safe (steps site) (Guarded s False True) (fun _ _ => True) op.perform h :=
    Operation.guarded start.1 False.elim fun _ => start.2
  exact guarded.mono (fun _ _ _ _ _ guard => step_promotesHealthy guard) fun _ _ _ => trivial

/-- The step records green while its container has passed no health check. -/
def recordsUnchecked (x : Call) (h : Host) : Bool :=
  match x with
  | .state (.writeColor s text) => s == "paseo" && text == Color.green.asStr ++ "\n" &&
      (h.slot "paseo" .green).all (!·.healthPassed)
  | _ => false

theorem not_promotesHealthy {x : Call} {r : x.Reply} (bad : recordsUnchecked x h = true) :
    ¬ PromotesHealthy "paseo" x h r h' := by
  intro promotes
  unfold recordsUnchecked at bad
  split at bad
  · simp only [Bool.and_eq_true, beq_iff_eq] at bad
    obtain ⟨⟨rfl, rfl⟩, unchecked⟩ := bad
    obtain ⟨k, slot, passed⟩ := promotes .green rfl
    rw [slot] at unchecked
    simp [passed] at unchecked
  · cases bad

/-- A preview whose health check ended in an error is promoted by `cutover --sha`. -/
theorem unhealthy_promoted :
    ¬ SerialSteps (steps Scenario.selfCheckedSite) Operation.perform
      (fun op _ => op.Locks "paseo") (PromotesHealthy "paseo") Scenario.serving := by
  have played : playStep (Call.answer Scenario.selfCheckedSite) anyChoice Operation.perform
      [Scenario.failedPreview] (.cutover "paseo" (some "v2")) (Scenario.oks 13) .ok
      (fun x h _ => recordsUnchecked x h) Scenario.serving = some true := by decide
  refine not_serialSteps ?_ ?_ ?_ played
  · intro x hx _
    cases List.mem_singleton.mp hx
    rfl
  · exact fun _ => rfl
  · exact fun _ _ _ _ bad => not_promotesHealthy bad

end Codery
