import Mathlib

/-!
# Systems and simulations

A system is its initial states and the relation between a state and a next one. An invariant holds in every
reachable state. A simulation answers each step of one system by some steps of another, and so carries the
other's invariants over.
-/

namespace Bulldog

/-- A transition system. -/
structure System (σ : Type) where
  init : σ → Prop
  next : σ → σ → Prop

namespace System

variable {σ τ : Type} {S : System σ} {s s' : σ}

/-- Some steps. -/
def Run (S : System σ) : σ → σ → Prop := Relation.ReflTransGen S.next

/-- The state of some run from an initial state. -/
def Reachable (S : System σ) (s : σ) : Prop := ∃ s₀, S.init s₀ ∧ S.Run s₀ s

theorem Run.refl (s : σ) : S.Run s s := Relation.ReflTransGen.refl

theorem Run.single (h : S.next s s') : S.Run s s' := Relation.ReflTransGen.single h

theorem Run.trans {s'' : σ} (h : S.Run s s') (h' : S.Run s' s'') : S.Run s s'' :=
  Relation.ReflTransGen.trans h h'

theorem Reachable.run (h : S.Reachable s) (hrun : S.Run s s') : S.Reachable s' := by
  obtain ⟨s₀, hinit, h⟩ := h
  exact ⟨s₀, hinit, h.trans hrun⟩

/-- What every step keeps, every run keeps. -/
theorem Run.invariant {P : σ → Prop} (hstep : ∀ s s', P s → S.next s s' → P s') (h : S.Run s s')
    (hs : P s) : P s' := by
  induction h with
  | refl => exact hs
  | tail _ hnext ih => exact hstep _ _ ih hnext

/-- An invariant. -/
theorem Reachable.invariant {P : σ → Prop} (hinit : ∀ s, S.init s → P s)
    (hstep : ∀ s s', P s → S.next s s' → P s') (h : S.Reachable s) : P s := by
  obtain ⟨s₀, h₀, hrun⟩ := h
  exact hrun.invariant hstep (hinit s₀ h₀)

/-- `R` relates the states of `S` to those of `T` so that `T` can follow `S`. -/
structure Simulation (S : System σ) (T : System τ) (R : σ → τ → Prop) : Prop where
  init : ∀ s, S.init s → ∃ t, T.Reachable t ∧ R s t
  next : ∀ s s' t, T.Reachable t → R s t → S.next s s' → ∃ t', T.Run t t' ∧ R s' t'

/-- Every reachable state of the one has a reachable state of the other. -/
theorem Simulation.reachable {T : System τ} {R : σ → τ → Prop} (h : Simulation S T R)
    (hs : S.Reachable s) : ∃ t, T.Reachable t ∧ R s t := by
  refine hs.invariant (P := fun s => ∃ t, T.Reachable t ∧ R s t) h.init fun s s' ht hnext => ?_
  obtain ⟨t, ht, hR⟩ := ht
  obtain ⟨t', hrun, hR'⟩ := h.next s s' t ht hR hnext
  exact ⟨t', ht.run hrun, hR'⟩

end System

end Bulldog
