import Bulldog.Lib.Simulation

/-!
# Stacks of filters

A process that confines itself adds a filter to those it has, and a request is let through where every filter lets
it through. A child gets its parent's filters, and nothing takes a filter away, so that what one filter refuses is
refused in the process and in all its descendants, whatever they do.
-/

namespace Bulldog

/-- The requests that are let through. -/
abbrev RequestFilter (ρ : Type) := Set ρ

/-- The requests that every filter of a stack lets through. -/
def letThrough {ρ : Type} (stack : List (RequestFilter ρ)) : Set ρ := {r | ∀ f ∈ stack, r ∈ f}

section Stack

variable {ρ : Type} {f : RequestFilter ρ} {stack stack' : List (RequestFilter ρ)}

@[simp] theorem letThrough_nil : letThrough ([] : List (RequestFilter ρ)) = Set.univ := by
  simp [letThrough]

@[simp] theorem letThrough_cons (f : RequestFilter ρ) (stack : List (RequestFilter ρ)) :
    letThrough (f :: stack) = f ∩ letThrough stack := by
  ext r
  simp [letThrough]

/-- One filter is enough to refuse. -/
theorem letThrough_subset (h : f ∈ stack) : letThrough stack ⊆ f := fun _ hr => hr f h

end Stack

/-! ## Families of processes -/

/-- What a process does about its filters. -/
inductive ProcessEvent (ρ : Type) where
  /-- `pid` adds a filter. -/
  | confine (pid : ℕ) (f : RequestFilter ρ)
  /-- `parent` starts `child`. -/
  | fork (parent child : ℕ)
  /-- `pid` ends, and its number may be given to another. -/
  | exit (pid : ℕ)

/-- The filters of the processes that there are. -/
abbrev Processes (ρ : Type) := ℕ → Option (List (RequestFilter ρ))

variable {ρ : Type}

/-- The processes after an event. One that the kernel does not let happen changes nothing. -/
def Processes.after (ps : Processes ρ) : ProcessEvent ρ → Processes ρ
  | .confine pid f => fun p => if p = pid then (ps p).map (f :: ·) else ps p
  | .fork parent child => fun p => if p = child ∧ (ps child).isNone then ps parent else ps p
  | .exit pid => fun p => if p = pid then none else ps p

/-- The processes that come from those of a set, after an event. -/
def kin (ps : Processes ρ) (family : Set ℕ) : ProcessEvent ρ → Set ℕ
  | .confine _ _ => family
  | .fork parent child => {p | p ∈ family ∨ p = child ∧ (ps child).isNone = true ∧ parent ∈ family}
  | .exit pid => family \ {pid}

/-- The processes and a family of them, with what may happen. -/
def families : System (Processes ρ × Set ℕ) where
  init _ := True
  next s s' := ∃ event, s' = (s.1.after event, kin s.1 s.2 event)

/-- Every process of the family has the filter. -/
def Confined (f : RequestFilter ρ) (s : Processes ρ × Set ℕ) : Prop :=
  ∀ pid ∈ s.2, ∃ stack, s.1 pid = some stack ∧ f ∈ stack

/-- Each event keeps a family confined. -/
theorem Confined.next {f : RequestFilter ρ} {s s' : Processes ρ × Set ℕ} (h : Confined f s)
    (hnext : families.next s s') : Confined f s' := by
  obtain ⟨event, rfl⟩ := hnext
  intro pid hpid
  cases event with
  | confine p g =>
    obtain ⟨stack, hstack, hf⟩ := h pid hpid
    simp only [Processes.after, hstack]
    split_ifs
    · exact ⟨g :: stack, rfl, List.mem_cons_of_mem _ hf⟩
    · exact ⟨stack, rfl, hf⟩
  | fork parent child =>
    simp only [Processes.after]
    rcases hpid with hpid | ⟨rfl, hnone, hparent⟩
    · obtain ⟨stack, hstack, hf⟩ := h pid hpid
      -- a pid that is in use is not given to a child
      rw [if_neg fun hp => by simp [← hp.1, hstack] at hp]
      exact ⟨stack, hstack, hf⟩
    · rw [if_pos ⟨rfl, hnone⟩]
      exact h parent hparent
  | exit p =>
    obtain ⟨hmem, hne⟩ := hpid
    obtain ⟨stack, hstack, hf⟩ := h pid hmem
    simp only [Processes.after]
    have hne' : pid ≠ p := fun heq => hne heq
    rw [if_neg hne']
    exact ⟨stack, hstack, hf⟩

/-- What a filter refuses is refused in the whole family, after any events. -/
theorem confined_run {f : RequestFilter ρ} {s s' : Processes ρ × Set ℕ} (h : Confined f s)
    (hrun : families.Run s s') {pid : ℕ} (hpid : pid ∈ s'.2) :
    ∃ stack, s'.1 pid = some stack ∧ letThrough stack ⊆ f := by
  obtain ⟨stack, hstack, hf⟩ := hrun.invariant (P := Confined f) (fun _ _ h => h.next) h pid hpid
  exact ⟨stack, hstack, letThrough_subset hf⟩

end Bulldog
