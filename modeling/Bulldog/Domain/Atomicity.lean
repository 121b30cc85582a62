import Bulldog.Domain.Attenuation

/-!
# Changes and their audit events

The registry checks a call, changes its domains under the lock, and only then hands an event to the
audit sinks. So a call that fails a check changes nothing, and a call whose event is refused has
changed what it would have changed anyway. `AuditedAt` says that of a call, and goes through its
steps.
-/

namespace Bulldog.Domain

variable {α β : Type} {s : Domains}

/-- What the sinks do with an event. -/
abbrev Sink := Event → Except Exc Unit

/-- Whatever the sinks do, the call either fails a check and changes nothing, or makes its change and
then hands over one event. -/
def AuditedAt (s : Domains) (m : Sink → Action Domains Exc α) : Prop :=
  (∃ e, ∀ sink, m sink s = (.error e, s)) ∨
    ∃ event a s', ∀ sink, m sink s = ((sink event).map fun _ => a, s')

/-- A check first. -/
theorem AuditedAt.lift_bind (x : Except Exc β) {k : β → Sink → Action Domains Exc α}
    (h : ∀ b, AuditedAt s (k b)) : AuditedAt s fun sink => liftM x >>= fun b => k b sink := by
  rcases x with e | b
  · exact .inl ⟨e, fun _ => rfl⟩
  · exact h b

/-- A look at the domains first. -/
theorem AuditedAt.read_bind {k : Domains → Sink → Action Domains Exc α} (h : AuditedAt s (k s)) :
    AuditedAt s fun sink => .read >>= fun s' => k s' sink := h

/-- The end of a call: its change, its event, and what it returns. -/
theorem AuditedAt.change (f : Domains → Domains) (event : Event) (a : α) :
    AuditedAt s fun sink => do
      .update f
      sink event
      return a := by
  refine .inr ⟨event, a, f s, fun sink => ?_⟩
  rcases h : sink event with _ | _ <;> simp only [bind, Action.update, liftM, monadLift, h] <;> rfl

/-- The result does not matter. -/
theorem AuditedAt.discard {m : Sink → Action Domains Exc α} (h : AuditedAt s m) :
    AuditedAt s fun sink => m sink >>= fun _ => pure () := by
  rcases h with ⟨e, h⟩ | ⟨event, a, s', h⟩
  · refine .inl ⟨e, fun sink => ?_⟩
    change (m sink >>= fun _ => pure ()) s = _
    rw [Action.bind_apply, h]
  · refine .inr ⟨event, (), s', fun sink => ?_⟩
    change (m sink >>= fun _ => pure ()) s = _
    rw [Action.bind_apply, h]
    rcases sink event with _ | _ <;> rfl

namespace Registry

variable (R : Registry)

theorem auditedAt_createRoot (newId : Str) (birth : Birth) :
    AuditedAt s fun sink => R.createRoot sink newId birth := by
  unfold createRoot
  refine .lift_bind _ fun _ => .lift_bind _ fun _ => .lift_bind _ fun _ => .lift_bind _ fun _ => ?_
  exact .change _ _ _

theorem auditedAt_spawnChild (newId parentId : Str) (birth : Birth) :
    AuditedAt s fun sink => R.spawnChild sink newId parentId birth := by
  unfold spawnChild
  refine .lift_bind _ fun _ => .read_bind (.lift_bind _ fun _ => .lift_bind _ fun _ => ?_)
  exact .change _ _ _

theorem auditedAt_transitionGoal (id goal reason approver : Str) :
    AuditedAt s fun sink => R.transitionGoal sink id goal reason approver := by
  unfold transitionGoal
  refine .lift_bind _ fun _ => .read_bind (.lift_bind _ fun _ => .lift_bind _ fun _ => ?_)
  exact .change _ _ _

/-- The calls that make domains and change goals. -/
def IsLifecycle : Call → Prop
  | .createRoot .. | .spawnChild .. | .transitionGoal .. => True
  | .freeze .. | .freezeRoot .. => False

theorem auditedAt_perform {call : Call} (h : IsLifecycle call) :
    AuditedAt s fun sink => R.perform sink call := by
  cases call with
  | createRoot newId birth => exact (R.auditedAt_createRoot newId birth).discard
  | spawnChild newId parentId birth => exact (R.auditedAt_spawnChild newId parentId birth).discard
  | transitionGoal id goal reason approver =>
    exact (R.auditedAt_transitionGoal id goal reason approver).discard
  | freeze id reason => exact h.elim
  | freezeRoot rootId reason => exact h.elim

/-- A call that raises has failed a check, and then the domains are as they were, or its event was
refused, and then they are as a call that returns leaves them. -/
theorem raised_unchanged_or_unaudited (sink : Sink) (call : Call) (hcall : IsLifecycle call)
    {s s' : Domains} {e : Exc} (h : R.perform sink call s = (.error e, s')) :
    (s' = s ∧ ∀ sink', R.perform sink' call s = (.error e, s)) ∨
      ∃ event, sink event = .error e ∧ ∀ sink', sink' event = .ok () →
        R.perform sink' call s = (.ok (), s') := by
  rcases R.auditedAt_perform (s := s) hcall with ⟨e', hcheck⟩ | ⟨event, a, s'', hchange⟩
  · have heq := (hcheck sink).symm.trans h
    obtain ⟨rfl, rfl⟩ : e' = e ∧ s = s' := by simpa using heq
    exact .inl ⟨rfl, hcheck⟩
  · have heq := (hchange sink).symm.trans h
    rcases hsink : sink event with e' | _
    · rw [hsink] at heq
      obtain ⟨rfl, rfl⟩ : e' = e ∧ s'' = s' := by simpa [Except.map] using heq
      refine .inr ⟨event, hsink, fun sink' hsink' => ?_⟩
      have hreturn := hchange sink'
      rw [hsink'] at hreturn
      exact hreturn
    · rw [hsink] at heq
      simp [Except.map] at heq

end Registry

/-- A ledger that refuses every event. -/
def refusingSink : Sink := fun _ => .error (auditIntegrityError "refusing append to invalid ledger")

/-- A root without a prompt. -/
def unprompted : Call := .createRoot "root" { spawner with initialPrompt := [] }

/-- It is refused before anything changes. -/
theorem unprompted_unchanged : ∃ e,
    smallRegistry.perform (fun _ => .ok ()) unprompted [] = (.error e, []) := by
  obtain ⟨e, s', h⟩ : ∃ e s', smallRegistry.perform (fun _ => .ok ()) unprompted [] =
      (.error e, s') := ⟨_, _, rfl⟩
  refine ⟨e, ?_⟩
  rcases smallRegistry.raised_unchanged_or_unaudited _ unprompted trivial h with
    ⟨rfl, -⟩ | ⟨event, hevent, -⟩
  · exact h
  · cases hevent

/-- A root whose event is refused is there all the same. -/
theorem refused_root_stays : ¬ ∀ (R : Registry) (sink : Sink) (call : Call) (s s' : Domains)
    (e : Exc), Registry.IsLifecycle call → R.perform sink call s = (.error e, s') → s' = s := by
  intro h
  obtain ⟨e, d, hd⟩ : ∃ e d, smallRegistry.perform refusingSink (.createRoot "root" spawner) [] =
      (.error e, [d]) := ⟨_, _, rfl⟩
  exact absurd (h smallRegistry refusingSink (.createRoot "root" spawner) [] _ e trivial hd) (List.cons_ne_nil _ _)

end Bulldog.Domain
