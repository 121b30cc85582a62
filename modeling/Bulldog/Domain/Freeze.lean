import Bulldog.Domain.Attenuation

/-!
# Frozen families

`freeze_root` marks every domain of a family at once. Thawing is no operation, and a child needs an
active parent of its family, so a frozen family stays frozen and gets no new members, whatever
other calls do.
-/

namespace Bulldog.Domain

open Registry

variable {R : Registry} {r : Str} {s s' : Domains}

/-- Every domain of the family is frozen. -/
def Frozen (r : Str) (s : Domains) : Prop := ∀ d ∈ s, d.rootDomainId = r → d.frozen = true

/-- The charters of the family. -/
def family (r : Str) (s : Domains) : List Charter := (charters s).filter (·.rootDomainId = r)

/-- A call during which `_new_id` does not return `r`, nor an id in use. -/
def Registry.StepAvoiding (R : Registry) (r : Str) (s s' : Domains) : Prop :=
  ∃ sink call, Fresh call s ∧ call.newId ≠ some r ∧ (R.perform sink call s).2 = s'

/-- The locked section of `freeze_root` freezes the family. -/
theorem frozen_freezeFamily (r reason : Str) (s : Domains) :
    Frozen r (freezeFamily r reason s) := by
  intro d hd hroot
  obtain ⟨e, -, rfl⟩ := List.mem_map.1 hd
  split_ifs at hroot ⊢ with h
  · rfl
  · exact absurd hroot h

theorem charters_map {f : SecurityDomain → SecurityDomain}
    (hf : ∀ d, (f d).toCharter = d.toCharter) : charters (s.map f) = charters s := by
  rw [charters, List.map_map]
  exact List.map_congr_left fun d _ => hf d

theorem family_freezeFamily (r reason : Str) (s : Domains) :
    family r (freezeFamily r reason s) = family r s := by
  rw [family, freezeFamily, charters_map, family]
  intro d
  split_ifs <;> rfl

/-- A new domain of another family. -/
theorem Frozen.concat (h : Frozen r s) {d : SecurityDomain} (hd : d.rootDomainId ≠ r) :
    Frozen r (s ++ [d]) ∧ family r (s ++ [d]) = family r s := by
  constructor
  · intro e he hroot
    rcases List.mem_append.1 he with he | he
    · exact h e he hroot
    · exact absurd (List.mem_singleton.1 he ▸ hroot) hd
  · rw [family, charters, List.map_append, List.filter_append]
    simp [family, charters, hd]

/-- A change leaves a frozen family frozen and as it is. -/
theorem Frozen.change {newId : Option Str} (h : Frozen r s) (hc : Change R newId s s')
    (hid : newId ≠ some r) : Frozen r s' ∧ family r s' = family r s := by
  cases hc with
  | same => exact ⟨h, rfl⟩
  | root d hnew hroot _ _ =>
    refine h.concat fun hr => hid ?_
    rw [hnew, hroot.root, hr]
  | child d p _ hp hactive hlink _ _ _ =>
    refine h.concat fun hr => ?_
    have hfrozen := h p hp (hlink.within.root.symm.trans hr)
    rw [hactive] at hfrozen
    cases hfrozen
  | modify f hcharter hfrozen =>
    constructor
    · intro d hd hroot
      obtain ⟨e, he, rfl⟩ := List.mem_map.1 hd
      rw [hcharter] at hroot
      exact hfrozen e (h e he hroot)
    · rw [family, charters_map hcharter, family]

/-- A run leaves a frozen family frozen and as it is. -/
theorem Frozen.run (h : Frozen r s) (hrun : Relation.ReflTransGen (R.StepAvoiding r) s s') :
    Frozen r s' ∧ family r s' = family r s := by
  induction hrun with
  | refl => exact ⟨h, rfl⟩
  | tail _ hstep ih =>
    obtain ⟨sink, call, hfresh, hid, rfl⟩ := hstep
    obtain ⟨hfrozen, hfamily⟩ := ih.1.change (perform_change sink call hfresh) hid
    exact ⟨hfrozen, hfamily.trans ih.2⟩

/-- A domain stays under its id, with its charter. -/
theorem Change.find? {newId : Option Str} (h : Change R newId s s') {id : Str}
    {d : SecurityDomain} (hd : s.find? (·.domainId = id) = some d) :
    ∃ d', s'.find? (·.domainId = id) = some d' ∧ d'.toCharter = d.toCharter := by
  cases h with
  | same => exact ⟨d, hd, rfl⟩
  | root e | child e => exact ⟨d, by rw [List.find?_append, hd, Option.some_or], rfl⟩
  | modify f hcharter _ =>
    refine ⟨f d, ?_, hcharter d⟩
    have hid : (fun d : SecurityDomain => decide (d.domainId = id)) ∘ f =
        fun d : SecurityDomain => decide (d.domainId = id) := by
      funext e
      exact congrArg (fun c : Charter => decide (c.domainId = id)) (hcharter e)
    rw [List.find?_map, hid, hd, Option.map_some]

theorem find?_run (hrun : Relation.ReflTransGen R.Step s s') {id : Str} {d : SecurityDomain}
    (hd : s.find? (·.domainId = id) = some d) :
    ∃ d', s'.find? (·.domainId = id) = some d' ∧ d'.toCharter = d.toCharter := by
  induction hrun with
  | refl => exact ⟨d, hd, rfl⟩
  | tail _ hstep ih =>
    obtain ⟨sink, call, hfresh, rfl⟩ := hstep
    obtain ⟨e, he, hcharter⟩ := ih
    obtain ⟨d', hd', hcharter'⟩ := (perform_change sink call hfresh).find? he
    exact ⟨d', hd', hcharter'.trans hcharter⟩

/-- A call that avoids an id is a call. -/
theorem Registry.StepAvoiding.step (h : R.StepAvoiding r s s') : R.Step s s' := by
  obtain ⟨sink, call, hfresh, -, heq⟩ := h
  exact ⟨sink, call, hfresh, heq⟩

end Bulldog.Domain
