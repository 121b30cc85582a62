import Bulldog.Containment
import Bulldog.Dispatch.Gate

/-!
# The approved executable and the executed one

`_binding_failure` compares the canonical forms of the action's resource and of the command's
executable, but the sandbox gets the command as it is written. The kernel resolves slashes and dots
as `normpath` does; it knows nothing of percent escapes, and to it a backslash is a letter.
`binding_denotes_iff` says for which commands the two readings are one.
-/

namespace Bulldog

namespace Dispatch

namespace BulldogRuntime

variable {rt : BulldogRuntime} {env : Env}

/-- A command that passes `_binding_failure` has the canonical executable of the action. -/
theorem executables_of_bound {action : ActionRequest} {command : List Str}
    (h : rt.bindingFailure env action command = none) :
    ∃ path, Canonicalizer.canonicalizeFilesystemResource rt.engine.urllib action.resource = .ok path ∧
      Canonicalizer.canonicalizeFilesystemResource rt.engine.urllib (command.headD []) =
        .ok path := by
  unfold bindingFailure at h
  rcases hexecutables : rt.executables action command with e | ⟨authorized, requested⟩ <;>
    rw [hexecutables] at h <;> dsimp only at h
  · split_ifs at h
  · split_ifs at h with _ _ hne
    simp only [executables, bind_eq_ok] at hexecutables
    obtain ⟨a, ha, r, hr, hpair⟩ := hexecutables
    obtain ⟨rfl, rfl⟩ := Prod.mk.inj (Except.ok.inj hpair)
    rw [not_not] at hne
    exact ⟨a, ha, hne ▸ hr⟩

/-- The text of the executable that goes to the sandbox denotes the path that was approved exactly
when it has neither percent escapes nor backslashes. -/
theorem binding_denotes_iff (rt : BulldogRuntime) (env : Env) (action : ActionRequest)
    (command : List Str) (h : rt.bindingFailure env action command = none) :
    Canonicalizer.canonicalizeFilesystemResource rt.engine.urllib action.resource =
        .ok (normpath (command.headD [])) ↔
      unquote (command.headD []) = command.headD [] ∧ '\\' ∉ command.headD [] := by
  obtain ⟨path, hauthorized, hrequested⟩ := executables_of_bound h
  rw [hauthorized, ← Canonicalizer.canonical_eq_normpath_iff hrequested, Except.ok.injEq]

/-- A runtime that binds the executable only. -/
def looseRuntime : BulldogRuntime := { smallDispatcher.runtime with requireFullArgvBinding := false }

/-- An approved run of `/bin/true`. -/
def trueAction : ActionRequest where
  actor := "agent"
  task := "task"
  operation := "execute"
  resource := "/bin/true"
  capability := .processExec
  grantedCapabilities := {.processExec}
  provenance := [.human]
  parentCapabilities := none
  irreversible := false
  externalSideEffect := false
  metadata := []

theorem true_bound : looseRuntime.bindingFailure calmHost trueAction ["/bin/./true".toList] = none ∧
    Canonicalizer.canonicalizeFilesystemResource looseRuntime.engine.urllib trueAction.resource =
      .ok (normpath "/bin/./true".toList) :=
  have h : looseRuntime.bindingFailure calmHost trueAction ["/bin/./true".toList] = none := by
    decide +kernel
  ⟨h, (binding_denotes_iff _ _ _ _ h).2 ⟨by decide +kernel, by decide⟩⟩

/-- The escape of a letter is approved as that letter, and goes to the sandbox as an escape. -/
theorem escaped_letter_bound :
    looseRuntime.bindingFailure calmHost trueAction ["/bin/%74rue".toList] = none ∧
      Canonicalizer.canonicalizeFilesystemResource looseRuntime.engine.urllib trueAction.resource ≠
        .ok (normpath "/bin/%74rue".toList) := by
  decide +kernel

end BulldogRuntime

end Dispatch

end Bulldog
