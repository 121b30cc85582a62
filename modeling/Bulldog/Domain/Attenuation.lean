import Mathlib
import Bulldog.Lib.Forest
import Bulldog.Domain.Registry

/-!
# Attenuation of authority

What a call of the registry can do to its domains, said once (`Change`), and what follows for whole
runs: the charters only ever grow by a root or by a child within its parent's authority, so every
domain is within the authority of all its ancestors.
-/

namespace Bulldog.Domain

open Forest

/-! ## Calls -/

/-- A call of the registry. -/
inductive Call where
  | createRoot (newId : Str) (birth : Birth)
  | spawnChild (newId parentId : Str) (birth : Birth)
  | transitionGoal (domainId nextGoal reason approvedBy : Str)
  | freeze (domainId reason : Str)
  | freezeRoot (rootId reason : Str)

/-- The id that `_new_id` returns during the call. -/
def Call.newId : Call → Option Str
  | .createRoot newId _ | .spawnChild newId _ _ => some newId
  | _ => none

namespace Registry

variable (R : Registry)

/-- The call, less its result. -/
def perform (sink : Event → Except Exc Unit) : Call → Action Domains Exc Unit
  | .createRoot newId birth => do let _ ← R.createRoot sink newId birth
  | .spawnChild newId parentId birth => do let _ ← R.spawnChild sink newId parentId birth
  | .transitionGoal domainId nextGoal reason approvedBy => do
    let _ ← R.transitionGoal sink domainId nextGoal reason approvedBy
  | .freeze domainId reason => freeze sink domainId reason
  | .freezeRoot rootId reason => freezeRoot sink rootId reason

/-- The ids that `_new_id` returns are fresh. -/
def Fresh (call : Call) (domains : Domains) : Prop :=
  ∀ id ∈ call.newId, ∀ d ∈ domains, d.domainId ≠ id

/-- A call takes the registry from one state to another, whether it returns or raises. -/
def Step (s s' : Domains) : Prop :=
  ∃ sink call, Fresh call s ∧ (R.perform sink call s).2 = s'

end Registry

/-- A root domain. -/
structure Charter.IsRoot (c : Charter) : Prop where
  parent : c.parentDomainId = none
  root : c.domainId = c.rootDomainId

/-- A domain of the family of another, within its authority. -/
structure Charter.Within (c p : Charter) : Prop where
  ceiling : c.capabilityCeiling ⊆ p.capabilityCeiling
  hosts : c.egressHosts ⊆ p.egressHosts
  provenance : p.provenance <+: c.provenance
  spawn : .agentSpawn ∈ p.capabilityCeiling
  root : c.rootDomainId = p.rootDomainId

instance : IsTrans Charter Charter.Within where
  trans _ _ _ h₁ h₂ := ⟨h₁.ceiling.trans h₂.ceiling, h₁.hosts.trans h₂.hosts,
    h₂.provenance.trans h₁.provenance, h₂.spawn, h₁.root.trans h₂.root⟩

/-- A child. -/
structure Charter.Link (c p : Charter) : Prop where
  parent : c.parentDomainId = some p.domainId
  within : c.Within p

/-- What a call that is given the id `newId` can do to the domains. -/
inductive Change (R : Registry) (newId : Option Str) (s : Domains) : Domains → Prop where
  | same : Change R newId s s
  | root (d : SecurityDomain) (hid : newId = some d.domainId) (hroot : d.IsRoot)
      (hdepth : d.spawnDepth = 0) (hfresh : ∀ e ∈ s, e.domainId ≠ d.domainId) :
      Change R newId s (s ++ [d])
  | child (d p : SecurityDomain) (hid : newId = some d.domainId) (hp : p ∈ s)
      (hactive : p.frozen = false) (hlink : d.Link p.toCharter)
      (hdepth : d.spawnDepth = p.spawnDepth + 1) (hbound : d.spawnDepth ≤ R.maxSpawnDepth)
      (hfresh : ∀ e ∈ s, e.domainId ≠ d.domainId) : Change R newId s (s ++ [d])
  /-- A change of the fields that are no part of the charter, which leaves frozen domains frozen. -/
  | modify (f : SecurityDomain → SecurityDomain) (hcharter : ∀ d, (f d).toCharter = d.toCharter)
      (hfrozen : ∀ d, d.frozen = true → (f d).frozen = true) : Change R newId s (s.map f)

namespace Registry

variable {R : Registry}

theorem put_of_fresh {d : SecurityDomain} {s : Domains} (h : ∀ e ∈ s, e.domainId ≠ d.domainId) :
    put d s = s ++ [d] := by
  rw [put, if_neg]
  simpa using h

theorem get_eq_ok {id : Str} {s : Domains} {d : SecurityDomain} :
    get id s = .ok d ↔ s.find? (·.domainId = id) = some d := orRaise_eq_ok

theorem requireActive_eq_ok {id : Str} {s : Domains} {d : SecurityDomain} :
    requireActive id s = .ok d ↔ s.find? (·.domainId = id) = some d ∧ d.frozen = false := by
  simp only [requireActive, bind_eq_ok, raiseIf_eq_ok, get_eq_ok]
  constructor
  · rintro ⟨a, ha, -, hfrozen, ⟨⟩⟩
    exact ⟨ha, by simpa using hfrozen⟩
  · rintro ⟨hd, hfrozen⟩
    exact ⟨d, hd, (), by simpa using hfrozen, rfl⟩

/-- What `spawn_child` checks. -/
theorem child_eq_ok {p : Charter} {newId : Str} {birth : Birth} {d : SecurityDomain}
    (h : R.child p newId birth = .ok d) :
    d.domainId = newId ∧ d.Link p ∧ d.spawnDepth = p.spawnDepth + 1 ∧
      d.spawnDepth ≤ R.maxSpawnDepth := by
  simp only [child, bind_eq_ok, raiseIf_eq_ok, not_not, not_lt] at h
  obtain ⟨-, hspawn, -, hceiling, hosts, -, -, hhosts, -, hdepth, intent, -, model, -, hd⟩ := h
  cases hd
  exact ⟨rfl, ⟨rfl, ⟨hceiling, hhosts, List.prefix_append _ _, hspawn, rfl⟩⟩, rfl, hdepth⟩

theorem change_createRoot {sink : Event → Except Exc Unit} {newId : Str} {birth : Birth}
    {s : Domains} (hfresh : ∀ d ∈ s, d.domainId ≠ newId) :
    Change R (some newId) s (R.createRoot sink newId birth s).2 := by
  rw [← Action.wp_state (P := Change R (some newId) s)]
  unfold createRoot
  simp only [Action.wp_bind, Action.wp_update, Action.wp_pure]
  refine Action.wp_lift_intro (fun _ _ => ?_) fun _ => .same
  refine Action.wp_lift_intro (fun intent _ => ?_) fun _ => .same
  refine Action.wp_lift_intro (fun model _ => ?_) fun _ => .same
  refine Action.wp_lift_intro (fun hosts _ => ?_) fun _ => .same
  rw [put_of_fresh hfresh]
  exact Action.wp_lift_intro (fun _ _ => .root _ rfl ⟨rfl, rfl⟩ rfl hfresh)
    fun _ => .root _ rfl ⟨rfl, rfl⟩ rfl hfresh

theorem change_spawnChild {sink : Event → Except Exc Unit} {newId parentId : Str} {birth : Birth}
    {s : Domains} (hfresh : ∀ d ∈ s, d.domainId ≠ newId) :
    Change R (some newId) s (R.spawnChild sink newId parentId birth s).2 := by
  rw [← Action.wp_state (P := Change R (some newId) s)]
  unfold spawnChild
  simp only [Action.wp_bind, Action.wp_read, Action.wp_update, Action.wp_pure]
  refine Action.wp_lift_intro (fun _ _ => ?_) fun _ => .same
  refine Action.wp_lift_intro (fun p hp => ?_) fun _ => .same
  refine Action.wp_lift_intro (fun d hd => ?_) fun _ => .same
  obtain ⟨hfind, hactive⟩ := requireActive_eq_ok.1 hp
  obtain ⟨hid, hlink, hdepth, hbound⟩ := child_eq_ok hd
  have hnew : ∀ e ∈ s, e.domainId ≠ d.domainId := by rwa [hid]
  have hchange := Change.child d p (congrArg some hid.symm) (List.mem_of_find?_eq_some hfind) hactive
    hlink hdepth hbound hnew
  rw [put_of_fresh hnew]
  exact Action.wp_lift_intro (fun _ _ => hchange) fun _ => hchange

theorem change_modify {newId : Option Str} {id : Str} {f : SecurityDomain → SecurityDomain} {s : Domains}
    (hcharter : ∀ d, (f d).toCharter = d.toCharter)
    (hfrozen : ∀ d, d.frozen = true → (f d).frozen = true) : Change R newId s (modify id f s) := by
  refine .modify _ (fun d => ?_) fun d hd => ?_
  · split_ifs
    · exact hcharter d
    · rfl
  · split_ifs
    · exact hfrozen d hd
    · exact hd

theorem change_transitionGoal {sink : Event → Except Exc Unit} {id goal reason by' : Str}
    {s : Domains} : Change R none s (R.transitionGoal sink id goal reason by' s).2 := by
  rw [← Action.wp_state (P := Change R none s)]
  unfold transitionGoal
  simp only [Action.wp_bind, Action.wp_read, Action.wp_update, Action.wp_pure]
  refine Action.wp_lift_intro (fun _ _ => ?_) fun _ => .same
  refine Action.wp_lift_intro (fun d _ => ?_) fun _ => .same
  refine Action.wp_lift_intro (fun hash _ => ?_) fun _ => .same
  exact Action.wp_lift_intro (fun _ _ => change_modify (fun _ => rfl) fun _ hd => hd)
    fun _ => change_modify (fun _ => rfl) fun _ hd => hd

theorem change_freeze {sink : Event → Except Exc Unit} {id reason : Str} {s : Domains} :
    Change R none s (freeze sink id reason s).2 := by
  rw [← Action.wp_state (P := Change R none s)]
  unfold freeze
  simp only [Action.wp_bind, Action.wp_read, Action.wp_update]
  refine Action.wp_lift_intro (fun d _ => ?_) fun _ => .same
  exact Action.wp_lift_intro (fun _ _ => change_modify (fun _ => rfl) fun _ _ => rfl)
    fun _ => change_modify (fun _ => rfl) fun _ _ => rfl

/-- The state after `freeze_root`, whether its audit emission returns or raises. -/
theorem freezeRoot_state (sink : Event → Except Exc Unit) (rootId reason : Str) (s : Domains) :
    (freezeRoot sink rootId reason s).2 = freezeFamily rootId reason s := by
  rw [← Action.wp_state (P := (· = freezeFamily rootId reason s))]
  unfold freezeRoot
  simp only [Action.wp_bind, Action.wp_read, Action.wp_update]
  exact Action.wp_lift_intro (fun _ _ => rfl) fun _ => rfl

theorem change_freezeFamily {rootId reason : Str} {s : Domains} :
    Change R none s (freezeFamily rootId reason s) := by
  refine .modify _ (fun d => ?_) fun d hd => ?_
  · split_ifs <;> rfl
  · split_ifs
    · rfl
    · exact hd

/-- A call is a change. -/
theorem perform_change (sink : Event → Except Exc Unit) (call : Call) {s : Domains}
    (hfresh : Fresh call s) : Change R call.newId s (R.perform sink call s).2 := by
  cases call with
  | createRoot newId birth =>
    rw [perform, Action.discard_state]
    exact change_createRoot (hfresh newId rfl)
  | spawnChild newId parentId birth =>
    rw [perform, Action.discard_state]
    exact change_spawnChild (hfresh newId rfl)
  | transitionGoal id goal reason approver =>
    rw [perform, Action.discard_state]
    exact change_transitionGoal
  | freeze id reason => exact change_freeze
  | freezeRoot rootId reason =>
    rw [perform, freezeRoot_state]
    exact change_freezeFamily

end Registry

/-! ## Charters -/

/-- The charters of the domains. -/
def charters (s : Domains) : List Charter := s.map SecurityDomain.toCharter

/-- What a change does to the charters. -/
theorem Change.charters {R : Registry} {newId : Option Str} {s s' : Domains}
    (h : Change R newId s s') :
    charters s' = charters s ∨ ∃ d : SecurityDomain, charters s' = charters s ++ [d.toCharter] ∧
      (∀ c ∈ charters s, c.domainId ≠ d.domainId) ∧
      (d.IsRoot ∧ d.spawnDepth = 0 ∨ ∃ p ∈ charters s, d.Link p ∧
        d.spawnDepth = p.spawnDepth + 1 ∧ d.spawnDepth ≤ R.maxSpawnDepth) := by
  have hids : ∀ d : SecurityDomain, (∀ e ∈ s, e.domainId ≠ d.domainId) →
      ∀ c ∈ Domain.charters s, c.domainId ≠ d.domainId := fun d hfresh c hc => by
    obtain ⟨e, he, rfl⟩ := List.mem_map.1 hc
    exact hfresh e he
  cases h with
  | same => exact .inl rfl
  | root d _ hroot hdepth hfresh =>
    exact .inr ⟨d, by simp [Domain.charters], hids d hfresh, .inl ⟨hroot, hdepth⟩⟩
  | child d p _ hp _ hlink hdepth hbound hfresh =>
    exact .inr ⟨d, by simp [Domain.charters], hids d hfresh,
      .inr ⟨p.toCharter, List.mem_map_of_mem hp, hlink, hdepth, hbound⟩⟩
  | modify f hcharter _ =>
    refine .inl ?_
    rw [Domain.charters, List.map_map]
    exact List.map_congr_left fun d _ => hcharter d

/-- The charters of a registry: distinct ids, bounded depths, and each a root or below another. -/
structure Lawful (R : Registry) (cs : List Charter) : Prop where
  nodup : (cs.map Charter.domainId).Nodup
  bound : ∀ c ∈ cs, c.spawnDepth ≤ R.maxSpawnDepth
  rooted : Rooted cs Charter.Link Charter.IsRoot Charter.spawnDepth

theorem Lawful.change {R : Registry} {newId : Option Str} {s s' : Domains}
    (hs : Lawful R (charters s)) (h : Change R newId s s') : Lawful R (charters s') := by
  rcases h.charters with heq | ⟨d, heq, hfresh, hd⟩
  · rwa [heq]
  rw [heq]
  refine ⟨?_, fun c hc => ?_, ⟨fun c hc => ?_⟩⟩
  · rw [List.map_append, List.nodup_append]
    refine ⟨hs.nodup, List.nodup_singleton _, ?_⟩
    intro id hid id' hid' heq
    obtain ⟨c, hc, rfl⟩ := List.mem_map.1 hid
    exact hfresh c hc (heq.trans (List.mem_singleton.1 hid'))
  · rcases List.mem_append.1 hc with hc | hc
    · exact hs.bound c hc
    · obtain rfl := List.mem_singleton.1 hc
      rcases hd with ⟨-, hdepth⟩ | ⟨p, -, -, -, hbound⟩
      · omega
      · exact hbound
  · rcases List.mem_append.1 hc with hc | hc
    · rcases hs.rooted.up c hc with hroot | ⟨p, hp, hlink⟩
      · exact .inl hroot
      · exact .inr ⟨p, List.mem_append_left _ hp, hlink⟩
    · obtain rfl := List.mem_singleton.1 hc
      rcases hd with hroot | ⟨p, hp, hlink, hdepth, -⟩
      · exact .inl hroot
      · exact .inr ⟨p, List.mem_append_left _ hp, hlink, hdepth⟩

/-- Every run keeps the law. -/
theorem lawful_run {R : Registry} {s : Domains} (h : Relation.ReflTransGen R.Step [] s) :
    Lawful R (charters s) := by
  induction h with
  | refl => exact ⟨List.nodup_nil, nofun, ⟨nofun⟩⟩
  | tail _ hstep ih =>
    obtain ⟨sink, call, hfresh, rfl⟩ := hstep
    exact ih.change (Registry.perform_change sink call hfresh)

/-- A run only adds charters. -/
theorem charters_run {R : Registry} {s s' : Domains} (h : Relation.ReflTransGen R.Step s s') :
    charters s <+: charters s' := by
  induction h with
  | refl => exact List.prefix_rfl
  | tail _ hstep ih =>
    obtain ⟨sink, call, hfresh, rfl⟩ := hstep
    rcases (Registry.perform_change sink call hfresh).charters with heq | ⟨d, heq, -⟩
    · rwa [heq]
    · rw [heq]
      exact ih.trans (List.prefix_append _ _)

/-- In a lawful registry a domain is found under its id. -/
theorem find?_of_mem {R : Registry} {s : Domains} (h : Lawful R (charters s)) {d : SecurityDomain}
    (hd : d ∈ s) : s.find? (·.domainId = d.domainId) = some d := by
  have hnodup : (s.map (·.domainId)).Nodup := by
    have hn := h.nodup
    rwa [charters, List.map_map] at hn
  have hsome : (s.find? (·.domainId = d.domainId)).isSome := List.find?_isSome.2 ⟨d, hd, by simp⟩
  obtain ⟨e, he⟩ := Option.isSome_iff_exists.1 hsome
  have hid : e.domainId = d.domainId := by simpa using List.find?_some he
  rw [he, List.inj_on_of_nodup_map hnodup (List.mem_of_find?_eq_some he) hd hid]

/-- The chain of a domain: its ancestors are domains of the registry, from its parent up to its
root, and it is within the authority of each. -/
structure Attenuated (R : Registry) (s : Domains) (d : SecurityDomain) (ancestors : List Charter) :
    Prop where
  registered : ∀ a ∈ ancestors, ∃ e ∈ s, e.toCharter = a
  links : (d.toCharter :: ancestors).IsChain fun c p => c.parentDomainId = some p.domainId
  depth : ancestors.length = d.spawnDepth ∧ d.spawnDepth ≤ R.maxSpawnDepth
  root : ∃ c, (d.toCharter :: ancestors).getLast? = some c ∧ c.parentDomainId = none ∧
    c.domainId = d.rootDomainId
  ceiling : ∀ a ∈ ancestors, d.capabilityCeiling ⊆ a.capabilityCeiling
  hosts : ∀ a ∈ ancestors, d.egressHosts ⊆ a.egressHosts
  provenance : ∀ a ∈ ancestors, a.provenance <+: d.provenance
  spawn : ∀ a ∈ ancestors, .agentSpawn ∈ a.capabilityCeiling

/-- In every reachable registry every domain has a chain of ancestors that ends at its root, and is
within the authority of all of them; and what it was created with never changes. -/
theorem authority_attenuation (R : Registry) {s : Domains}
    (h : Relation.ReflTransGen R.Step [] s) :
    ∀ d ∈ s, (∃ ancestors, Attenuated R s d ancestors) ∧
      ∀ s', Relation.ReflTransGen R.Step s s' →
        ∃ d', s'.find? (·.domainId = d.domainId) = some d' ∧ d'.toCharter = d.toCharter := by
  intro d hd
  have hlaw := lawful_run h
  have hmem : d.toCharter ∈ charters s := List.mem_map_of_mem hd
  constructor
  · obtain ⟨ancestors, hchain, hlen⟩ := hlaw.rooted.exists_chain hmem
    have hwithin := hchain.forall_of_links (r := Charter.Within) fun _ _ hlink => hlink.within
    refine ⟨ancestors, ⟨fun a ha => ?_, hchain.links.imp fun _ _ hlink => hlink.parent,
      ⟨hlen, hlaw.bound _ hmem⟩, ⟨_, List.getLast?_eq_some_getLast _, hchain.last.parent, ?_⟩,
      fun a ha => (hwithin a ha).ceiling, fun a ha => (hwithin a ha).hosts,
      fun a ha => (hwithin a ha).provenance, fun a ha => (hwithin a ha).spawn⟩⟩
    · exact List.mem_map.1 (hchain.mem a ha)
    · rw [hchain.last.root]
      have hlast := List.getLast_mem (List.cons_ne_nil d.toCharter ancestors)
      rcases List.mem_cons.1 hlast with heq | hlast
      · rw [heq]
      · exact (hwithin _ hlast).root.symm
  · intro s' h'
    have hlaw' := lawful_run (h.trans h')
    obtain ⟨d', hd', heq⟩ := List.mem_map.1 ((charters_run h').subset hmem)
    refine ⟨d', ?_, heq⟩
    rw [← heq]
    exact find?_of_mem hlaw' hd'

/-- A registry of ASCII hosts that allows one generation of children. -/
def smallRegistry : Registry :=
  ⟨.standard, .ascii, 1, false⟩

/-- An agent that may spawn agents. -/
def spawner : Birth := ⟨"agent", "goal", [.agentSpawn], [.human], ["a.example"], none, none⟩

/-- A root and its child. -/
def smallFamily : Domains :=
  (smallRegistry.perform (fun _ => .ok ()) (.spawnChild "child" "root" spawner)
    (smallRegistry.perform (fun _ => .ok ()) (.createRoot "root" spawner) []).2).2

/-- The child of the small family has its chain. -/
theorem child_attenuated : Relation.ReflTransGen smallRegistry.Step [] smallFamily ∧
    ∃ d ∈ smallFamily, d.spawnDepth = 1 ∧ ∃ ancestors, Attenuated smallRegistry smallFamily d ancestors := by
  have hrun : Relation.ReflTransGen smallRegistry.Step [] smallFamily := by
    refine (Relation.ReflTransGen.single ?_).tail ⟨_, .spawnChild "child" "root" spawner, ?_, rfl⟩
    · exact ⟨_, .createRoot "root" spawner, nofun, rfl⟩
    · rintro id ⟨⟩ d hd
      obtain rfl := List.mem_singleton.1 hd
      decide
  obtain ⟨d, hd, hdepth⟩ : ∃ d ∈ smallFamily, d.spawnDepth = 1 :=
    ⟨_, List.mem_cons_of_mem _ List.mem_cons_self, rfl⟩
  exact ⟨hrun, d, hd, hdepth, (authority_attenuation smallRegistry hrun d hd).1⟩

end Bulldog.Domain
