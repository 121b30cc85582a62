import Bulldog.Adversary.Registry
import Mathlib

/-!
# Swarms

A record joins the swarm of the first record that is similar, and similarity is not transitive; a task without a
token is not even similar to itself. So equal tasks are in one swarm exactly as long as, whenever a task is seen that
another record has, the first similar record is in the swarm of that task. Where similarity is an equivalence of the
tasks that occur, the swarms are its classes, and their sizes do not depend on the order of the observations.
-/

namespace Bulldog.Adversary

variable {threshold : ℚ} {lower : Str → Str}

/-! ## Similarity -/

theorem taskSimilarity_comm (a b : Str) : taskSimilarity lower a b = taskSimilarity lower b a := by
  unfold taskSimilarity
  dsimp only
  rw [Finset.inter_comm, Finset.union_comm]
  exact if_congr or_comm rfl rfl

theorem Similar.symm {a b : Str} (h : Similar threshold lower a b) : Similar threshold lower b a := by
  unfold Similar at h ⊢
  rwa [taskSimilarity_comm]

/-- A task is similar to itself exactly where it has a token. -/
theorem similar_self_iff (hpos : 0 < threshold) (hone : threshold ≤ 1) (task : Str) :
    Similar threshold lower task task ↔ normalize lower task ≠ ∅ := by
  unfold Similar taskSimilarity
  dsimp only
  rw [Finset.inter_self, Finset.union_self]
  by_cases hempty : normalize lower task = ∅
  · rw [if_pos (.inl hempty)]
    exact iff_of_false (not_le.2 hpos) (not_not.2 hempty)
  · rw [if_neg (not_or.2 ⟨hempty, hempty⟩),
      trueDiv_self (Finset.card_pos.2 (Finset.nonempty_iff_ne_empty.2 hempty))]
    exact iff_of_true hone hempty

/-! ## Names -/

theorem swarmName_ne_nil (n : ℕ) : swarmName n ≠ [] :=
  fun h => absurd (congrArg List.length h) (by rw [swarmName, List.length_append]; simp)

theorem swarmName_injective : Function.Injective swarmName := by
  intro m n h
  have hdigits := congrArg (fun s => Nat.ofDigitChars 10 s 0) (List.append_cancel_left h)
  simpa only [threeDigits, Nat.ofDigitChars_append, Nat.ofDigitChars_replicate_zero, Nat.mul_zero,
    Nat.ofDigitChars_ten_toDigits] using hdigits

/-! ## One call -/

/-- What holds of every registry: labels and numbers are those of one record each, a record with a task has a
swarm, and the names of swarms have been given out. -/
structure Sound (g : Registry) : Prop where
  labels : (g.records.map AttackerRecord.label).Nodup
  ids : (g.records.map AttackerRecord.attackerId).Nodup
  bound : ∀ r ∈ g.records, r.attackerId < g.records.length
  tasks : ∀ r ∈ g.records, r.initialTask ≠ [] ↔ r.swarmId ≠ []
  named : ∀ r ∈ g.records, r.swarmId ≠ [] → ∃ k ≤ g.swarmCounter, r.swarmId = swarmName k

theorem Sound.initial : Sound .initial where
  labels := List.nodup_nil
  ids := List.nodup_nil
  bound := nofun
  tasks := nofun
  named := nofun

/-- The records of other labels. -/
def Registry.others (g : Registry) (label : Str) : List AttackerRecord := g.records.filter (·.label ≠ label)

/-- The record of a label, or the one that it will have. -/
def Registry.known (g : Registry) (label : Str) : AttackerRecord := (g.recordFor label).1

variable {g : Registry} {label : Str}

/-- The record is the one with its label, and the one with its number. -/
theorem recordFor_spec (hg : Sound g) (label : Str) : g.known label ∈ (g.recordFor label).2 ∧
    (g.known label).label = label ∧
    ((g.recordFor label).2.map AttackerRecord.label).Nodup ∧
    ((g.recordFor label).2.map AttackerRecord.attackerId).Nodup ∧
    (∀ r ∈ (g.recordFor label).2, r.attackerId < (g.recordFor label).2.length) ∧
    (g.recordFor label).2.filter (·.label ≠ label) = g.others label ∧
    (g.known label ∈ g.records ∨
      g.known label = .new g.records.length label ∧ ∀ r ∈ g.records, r.label ≠ label) := by
  unfold Registry.known Registry.recordFor
  rcases hfind : g.findByLabel label with _ | record
  · -- a new label, and the next number
    have hlabel : ∀ r ∈ g.records, r.label ≠ label := by simpa [Registry.findByLabel] using hfind
    dsimp only
    refine ⟨List.mem_append_right _ (List.mem_singleton_self _), rfl, ?_, ?_, ?_, ?_, .inr ⟨rfl, hlabel⟩⟩
    · rw [List.map_append, List.map_singleton, List.nodup_append]
      refine ⟨hg.labels, List.nodup_singleton _, ?_⟩
      rintro _ hmem _ hlast rfl
      obtain ⟨r, hr, rfl⟩ := List.mem_map.1 hmem
      exact hlabel r hr (List.mem_singleton.1 hlast)
    · rw [List.map_append, List.map_singleton, List.nodup_append]
      refine ⟨hg.ids, List.nodup_singleton _, ?_⟩
      rintro _ hmem _ hlast rfl
      obtain ⟨r, hr, rfl⟩ := List.mem_map.1 hmem
      exact absurd (List.mem_singleton.1 hlast) (hg.bound r hr).ne
    · intro r hr
      rw [List.length_append, List.length_singleton]
      rcases List.mem_append.1 hr with hr | hr
      · exact (hg.bound r hr).trans (Nat.lt_succ_self _)
      · rw [List.mem_singleton.1 hr]
        exact Nat.lt_succ_self _
    · rw [List.filter_append, Registry.others, List.filter_cons_of_neg (by simp [AttackerRecord.new])]
      exact List.append_nil _
  · -- the record that there is
    have hmem := List.mem_of_find?_eq_some hfind
    have hlabel : record.label = label := by simpa using List.find?_some hfind
    exact ⟨hmem, hlabel, hg.labels, hg.ids, hg.bound, rfl, .inl hmem⟩

/-- What a call leaves: a record of the label, with the task that is seen and the swarm for it, where one is, and
as before elsewhere; and the other records. -/
structure Observed (threshold : ℚ) (lower : Str → Str) (g : Registry) (o : Observation) (record : AttackerRecord)
    (g' : Registry) : Prop where
  label : record.label = o.label
  mem : ∀ s, s ∈ g'.records ↔ s = record ∨ s ∈ g.others o.label
  labels : (g'.records.map AttackerRecord.label).Nodup
  ids : (g'.records.map AttackerRecord.attackerId).Nodup
  bound : ∀ r ∈ g'.records, r.attackerId < g'.records.length
  seen : o.initialTask ≠ [] → record.initialTask = o.initialTask ∧
    (record.swarmId, g'.swarmCounter) =
      swarmOf threshold lower (g.others o.label) o.initialTask g.swarmCounter
  unseen : o.initialTask = [] → record.initialTask = (g.known o.label).initialTask ∧
    record.swarmId = (g.known o.label).swarmId ∧ g'.swarmCounter = g.swarmCounter

/-- The record that a call writes. -/
theorem upsert_eq (threshold : ℚ) (lower : Str → Str) (g : Registry) (o : Observation) :
    ∃ record counter, g.upsert threshold lower o = (record, ⟨(g.recordFor o.label).2.map fun r =>
        if r.attackerId = (g.known o.label).attackerId then record else r, counter⟩) ∧
      record.attackerId = (g.known o.label).attackerId ∧ record.label = (g.known o.label).label ∧
      (o.initialTask ≠ [] → record.initialTask = o.initialTask ∧ (record.swarmId, counter) =
        swarmOf threshold lower
          ((g.recordFor o.label).2.filter (·.attackerId ≠ (g.known o.label).attackerId)) o.initialTask
          g.swarmCounter) ∧
      (o.initialTask = [] → record.initialTask = (g.known o.label).initialTask ∧
        record.swarmId = (g.known o.label).swarmId ∧ counter = g.swarmCounter) := by
  unfold Registry.upsert Registry.known
  rcases g.recordFor o.label with ⟨record, records⟩
  dsimp only
  by_cases htask : o.initialTask = []
  · rw [if_neg (not_not.2 htask)]
    split_ifs with hfindings
    · exact ⟨_, _, rfl, rfl, rfl, fun h => absurd htask h, fun _ => ⟨rfl, rfl, rfl⟩⟩
    · exact ⟨_, _, rfl, rfl, rfl, fun h => absurd htask h, fun _ => ⟨rfl, rfl, rfl⟩⟩
  · rw [if_pos htask]
    split_ifs with hfindings
    · exact ⟨_, _, rfl, rfl, rfl, fun _ => ⟨rfl, rfl⟩, fun h => absurd h htask⟩
    · exact ⟨_, _, rfl, rfl, rfl, fun _ => ⟨rfl, rfl⟩, fun h => absurd h htask⟩

/-- The records of other numbers are those of other labels. -/
theorem others_eq (hg : Sound g) (label : Str) :
    (g.recordFor label).2.filter (·.attackerId ≠ (g.known label).attackerId) = g.others label := by
  obtain ⟨hmem, hlabel, hlabels, hids, -, hothers, -⟩ := recordFor_spec hg label
  rw [← hothers]
  refine List.filter_congr fun r hr => decide_eq_decide.2 (not_congr ⟨fun h => ?_, fun h => ?_⟩)
  · rw [List.inj_on_of_nodup_map hids hr hmem h, hlabel]
  · rw [List.inj_on_of_nodup_map hlabels hr hmem (h.trans hlabel.symm)]

variable (threshold lower) in
theorem upsert_observed (hg : Sound g) (o : Observation) :
    Observed threshold lower g o (g.upsert threshold lower o).1 (g.upsert threshold lower o).2 := by
  obtain ⟨hmem, hlabel, hlabels, hids, hbound, hothers, -⟩ := recordFor_spec hg o.label
  obtain ⟨record, counter, heq, hid, hname, hseen, hunseen⟩ :=
    upsert_eq threshold lower g o
  rw [others_eq hg] at hseen
  rw [heq]
  -- the record that is replaced is the one of the label
  have hone : ∀ r ∈ (g.recordFor o.label).2,
      r.attackerId = (g.known o.label).attackerId ↔ r.label = o.label := fun r hr =>
    ⟨fun h => (List.inj_on_of_nodup_map hids hr hmem h) ▸ hlabel,
      fun h => congrArg _ (List.inj_on_of_nodup_map hlabels hr hmem (h.trans hlabel.symm))⟩
  refine ⟨hname.trans hlabel, fun s => ?_, ?_, ?_, ?_, hseen, hunseen⟩
  · rw [List.mem_map, ← hothers]
    constructor
    · rintro ⟨r, hr, rfl⟩
      split_ifs with hr'
      · exact .inl rfl
      · exact .inr (List.mem_filter.2 ⟨hr, decide_eq_true fun h => hr' ((hone r hr).2 h)⟩)
    · rintro (rfl | hs)
      · exact ⟨_, hmem, if_pos rfl⟩
      · obtain ⟨hs, hne⟩ := List.mem_filter.1 hs
        exact ⟨s, hs, if_neg fun h => of_decide_eq_true hne ((hone s hs).1 h)⟩
  · rw [List.map_map]
    convert hlabels using 1
    refine List.map_congr_left fun r hr => ?_
    dsimp only [Function.comp_apply]
    split_ifs with hr'
    · exact (hname.trans hlabel).trans ((hone r hr).1 hr').symm
    · rfl
  · rw [List.map_map]
    convert hids using 1
    refine List.map_congr_left fun r hr => ?_
    dsimp only [Function.comp_apply]
    split_ifs with hr'
    · exact hid.trans hr'.symm
    · rfl
  · intro r hr
    obtain ⟨r', hr', rfl⟩ := List.mem_map.1 hr
    rw [List.length_map]
    split_ifs with h
    · exact hid ▸ hbound _ hmem
    · exact hbound _ hr'

variable (threshold lower) in
/-- A swarm is that of the first similar record, or a new one. -/
theorem swarmOf_spec (others : List AttackerRecord) (task : Str) (counter : ℕ) :
    (∃ first, firstSimilar threshold lower others task = some first ∧
      swarmOf threshold lower others task counter = (first.swarmId, counter)) ∨
    firstSimilar threshold lower others task = none ∧
      swarmOf threshold lower others task counter = (swarmName (counter + 1), counter + 1) := by
  unfold swarmOf
  cases hfirst : firstSimilar threshold lower others task with
  | none => exact .inr ⟨rfl, rfl⟩
  | some first => exact .inl ⟨first, rfl, rfl⟩

/-- The swarm of the record, where a task is seen: that of the first similar record, or a new one. -/
theorem Observed.joins {o : Observation} {record : AttackerRecord} {g' : Registry}
    (h : Observed threshold lower g o record g') (htask : o.initialTask ≠ []) :
    (∃ first, firstSimilar threshold lower (g.others o.label) o.initialTask = some first ∧
      record.swarmId = first.swarmId ∧ g'.swarmCounter = g.swarmCounter) ∨
    firstSimilar threshold lower (g.others o.label) o.initialTask = none ∧
      record.swarmId = swarmName (g.swarmCounter + 1) ∧ g'.swarmCounter = g.swarmCounter + 1 := by
  have hseen := (h.seen htask).2
  rcases swarmOf_spec threshold lower (g.others o.label) o.initialTask g.swarmCounter with
    ⟨first, hfirst, hswarm⟩ | ⟨hfirst, hswarm⟩
  · exact .inl ⟨first, hfirst, Prod.mk.inj (hseen.trans hswarm)⟩
  · exact .inr ⟨hfirst, Prod.mk.inj (hseen.trans hswarm)⟩

theorem firstSimilar_some {others : List AttackerRecord} {task : Str} {first : AttackerRecord}
    (h : firstSimilar threshold lower others task = some first) :
    first ∈ others ∧ first.initialTask ≠ [] ∧ Similar threshold lower task first.initialTask ∧
      first.swarmId ≠ [] := by
  unfold firstSimilar at h
  have hfound := List.find?_some h
  exact ⟨List.mem_of_find?_eq_some h, of_decide_eq_true hfound⟩

theorem firstSimilar_none {others : List AttackerRecord} {task : Str}
    (h : firstSimilar threshold lower others task = none) {other : AttackerRecord} (hmem : other ∈ others)
    (htask : other.initialTask ≠ []) (hswarm : other.swarmId ≠ []) :
    ¬Similar threshold lower task other.initialTask := fun hsimilar =>
  List.find?_eq_none.1 h other hmem (decide_eq_true ⟨htask, hsimilar, hswarm⟩)

theorem mem_of_mem_others {r : AttackerRecord} (h : r ∈ g.others label) : r ∈ g.records := (List.mem_filter.1 h).1

/-- A record of the label as it was, where it is seen without a task. -/
theorem known_spec (hg : Sound g) (label : Str) :
    g.known label ∈ g.records ∨ (g.known label).initialTask = [] ∧ (g.known label).swarmId = [] := by
  obtain ⟨-, -, -, -, -, -, hknown⟩ := recordFor_spec hg label
  exact hknown.imp_right fun h => by rw [h.1]; exact ⟨rfl, rfl⟩

theorem Sound.upsert (hg : Sound g) (o : Observation) : Sound (g.upsert threshold lower o).2 := by
  have hstep := upsert_observed threshold lower hg o
  generalize (g.upsert threshold lower o).1 = record at hstep
  generalize (g.upsert threshold lower o).2 = g' at hstep ⊢
  -- what is new is in the record that is written
  have hrecord : g.swarmCounter ≤ g'.swarmCounter ∧ (record.initialTask ≠ [] ↔ record.swarmId ≠ []) ∧
      (record.swarmId ≠ [] → ∃ k ≤ g'.swarmCounter, record.swarmId = swarmName k) := by
    by_cases htask : o.initialTask = []
    · obtain ⟨h₁, h₂, h₃⟩ := hstep.unseen htask
      rw [h₁, h₂, h₃]
      rcases known_spec hg o.label with hknown | ⟨h₁, h₂⟩
      · exact ⟨le_rfl, hg.tasks _ hknown, hg.named _ hknown⟩
      · rw [h₁, h₂]
        exact ⟨le_rfl, iff_of_false (not_not.2 rfl) (not_not.2 rfl), fun h => absurd rfl h⟩
    · rw [(hstep.seen htask).1]
      rcases hstep.joins htask with ⟨first, hfirst, hswarm, hcounter⟩ | ⟨-, hswarm, hcounter⟩
      · obtain ⟨hmem, -, -, hne⟩ := firstSimilar_some hfirst
        rw [hswarm, hcounter]
        exact ⟨le_rfl, iff_of_true htask hne, hg.named _ (mem_of_mem_others hmem)⟩
      · rw [hswarm, hcounter]
        exact ⟨Nat.le_succ _, iff_of_true htask (swarmName_ne_nil _), fun _ => ⟨_, le_rfl, rfl⟩⟩
  refine ⟨hstep.labels, hstep.ids, hstep.bound, fun r hr => ?_, fun r hr => ?_⟩
  · rcases (hstep.mem r).1 hr with rfl | hr
    · exact hrecord.2.1
    · exact hg.tasks r (mem_of_mem_others hr)
  · rcases (hstep.mem r).1 hr with rfl | hr
    · exact hrecord.2.2
    · intro h
      obtain ⟨k, hk, hname⟩ := hg.named r (mem_of_mem_others hr) h
      exact ⟨k, hk.trans hrecord.1, hname⟩

/-- No record has the name that is given out next. -/
theorem Sound.fresh (hg : Sound g) {r : AttackerRecord} (hr : r ∈ g.records) :
    r.swarmId ≠ swarmName (g.swarmCounter + 1) := by
  intro h
  obtain ⟨k, hk, hname⟩ := hg.named r hr (h ▸ swarmName_ne_nil _)
  exact absurd (swarmName_injective (hname.symm.trans h)) (by omega)

/-! ## Runs -/

variable (threshold lower) in
theorem run_append (os : List Observation) (o : Observation) :
    run threshold lower (os ++ [o]) = ((run threshold lower os).upsert threshold lower o).2 := by
  rw [run, List.foldl_append]
  rfl

variable (threshold lower) in
theorem sound_run (os : List Observation) : Sound (run threshold lower os) := by
  induction os using List.reverseRecOn with
  | nil => exact Sound.initial
  | append_singleton os o ih =>
    rw [run_append]
    exact ih.upsert o

/-- Equal tasks are in one swarm. -/
def SameTask (g : Registry) : Prop :=
  ∀ r ∈ g.records, ∀ s ∈ g.records, r.initialTask ≠ [] → r.initialTask = s.initialTask → r.swarmId = s.swarmId

instance (g : Registry) : Decidable (SameTask g) :=
  inferInstanceAs (Decidable (∀ r ∈ g.records, ∀ s ∈ g.records, _ → _ → _))

/-- Where another record has the task that is seen, the first similar record is in its swarm. -/
def Settles (threshold : ℚ) (lower : Str → Str) (g : Registry) (o : Observation) : Prop :=
  o.initialTask ≠ [] → ∀ s ∈ g.others o.label, s.initialTask = o.initialTask →
    (firstSimilar threshold lower (g.others o.label) o.initialTask).map AttackerRecord.swarmId = some s.swarmId

/-- A property of every pair of records holds after a call where it holds of the other pairs before. -/
theorem forall_pairs_iff {o : Observation} {record : AttackerRecord} {g' : Registry}
    (h : Observed threshold lower g o record g') {p : AttackerRecord → AttackerRecord → Prop}
    (hrefl : p record record) (hsymm : ∀ r s, p r s → p s r)
    (hothers : ∀ r ∈ g.others o.label, ∀ s ∈ g.others o.label, p r s) :
    (∀ r ∈ g'.records, ∀ s ∈ g'.records, p r s) ↔ ∀ s ∈ g.others o.label, p record s := by
  constructor
  · exact fun hall s hs => hall record ((h.mem record).2 (.inl rfl)) s ((h.mem s).2 (.inr hs))
  · intro hnew r hr s hs
    rcases (h.mem r).1 hr with rfl | hr <;> rcases (h.mem s).1 hs with rfl | hs
    · exact hrefl
    · exact hnew s hs
    · exact hsymm _ _ (hnew r hr)
    · exact hothers r hr s hs

/-- One call keeps equal tasks in one swarm exactly where it settles. -/
theorem sameTask_upsert_iff (hg : Sound g) (hsame : SameTask g) (o : Observation) :
    SameTask (g.upsert threshold lower o).2 ↔ Settles threshold lower g o := by
  have hstep := upsert_observed threshold lower hg o
  generalize (g.upsert threshold lower o).1 = record at hstep
  generalize (g.upsert threshold lower o).2 = g' at hstep ⊢
  have hiff := forall_pairs_iff hstep
    (p := fun r s => r.initialTask ≠ [] → r.initialTask = s.initialTask → r.swarmId = s.swarmId)
    (fun _ _ => rfl) (fun r s h hs heq => (h (heq ▸ hs) heq.symm).symm)
    fun r hr s hs => hsame r (mem_of_mem_others hr) s (mem_of_mem_others hs)
  refine hiff.trans ?_
  by_cases htask : o.initialTask = []
  · -- nothing is assigned: the record is as before
    obtain ⟨h₁, h₂, -⟩ := hstep.unseen htask
    refine iff_of_true (fun s hs => ?_) fun h => absurd htask h
    rw [h₁, h₂]
    rcases known_spec hg o.label with hknown | ⟨hnil, -⟩
    · exact hsame _ hknown s (mem_of_mem_others hs)
    · exact fun h => absurd hnil h
  · rw [Settles, (hstep.seen htask).1, imp_iff_right htask]
    refine forall₂_congr fun s hs => ?_
    rw [imp_iff_right htask, eq_comm (a := o.initialTask)]
    refine imp_congr_right fun heq => ?_
    rcases hstep.joins htask with ⟨first, hfirst, hswarm, -⟩ | ⟨hfirst, hswarm, -⟩
    · -- the record joins the swarm of the first similar one
      rw [hfirst, hswarm, Option.map_some, Option.some.injEq]
    · -- a new swarm is not that of the other record
      rw [hfirst, hswarm, Option.map_none]
      exact iff_of_false (fun h => hg.fresh (mem_of_mem_others hs) h.symm) nofun

variable (threshold lower) in
/-- Equal tasks stay in one swarm in exactly the runs whose calls all settle. -/
theorem sameTask_run_iff (os : List Observation) :
    (∀ pre, pre <+: os → SameTask (run threshold lower pre)) ↔
      ∀ pre o, pre ++ [o] <+: os → Settles threshold lower (run threshold lower pre) o := by
  constructor
  · intro h pre o hpre
    rw [← sameTask_upsert_iff (sound_run threshold lower pre) (h pre ((List.prefix_append _ _).trans hpre)), ← run_append]
    exact h _ hpre
  · intro h pre hpre
    induction pre using List.reverseRecOn with
    | nil => exact fun r hr => absurd hr List.not_mem_nil
    | append_singleton pre o ih =>
      rw [run_append, sameTask_upsert_iff (sound_run threshold lower pre) (ih ((List.prefix_append _ _).trans hpre))]
      exact h pre o hpre

/-! ## Classes -/

/-- Similarity is an equivalence of some tasks: they have tokens, and it is transitive. -/
structure Classes (threshold : ℚ) (lower : Str → Str) (tasks : Str → Prop) : Prop where
  tokens : ∀ a, tasks a → normalize lower a ≠ ∅
  trans : ∀ a b c, tasks a → tasks b → tasks c → Similar threshold lower a b → Similar threshold lower b c →
    Similar threshold lower a c

/-- The tasks that some calls see. -/
def SeenIn (os : List Observation) (task : Str) : Prop := task ≠ [] ∧ ∃ o ∈ os, o.initialTask = task

theorem Classes.mono {tasks tasks' : Str → Prop} (h : Classes threshold lower tasks)
    (hsub : ∀ a, tasks' a → tasks a) : Classes threshold lower tasks' where
  tokens a ha := h.tokens a (hsub a ha)
  trans a b c ha hb hc := h.trans a b c (hsub a ha) (hsub b hb) (hsub c hc)

/-- Records with tasks share a swarm exactly where their tasks are similar. -/
def Clustered (threshold : ℚ) (lower : Str → Str) (g : Registry) : Prop :=
  ∀ r ∈ g.records, ∀ s ∈ g.records, r.initialTask ≠ [] → s.initialTask ≠ [] →
    (r.swarmId = s.swarmId ↔ Similar threshold lower r.initialTask s.initialTask)

/-- The last task of a label, or the empty text. -/
def latest (os : List Observation) (label : Str) : Str :=
  os.foldl (fun task o => if o.label = label ∧ o.initialTask ≠ [] then o.initialTask else task) []

theorem latest_append (os : List Observation) (o : Observation) (label : Str) :
    latest (os ++ [o]) label =
      if o.label = label ∧ o.initialTask ≠ [] then o.initialTask else latest os label := by
  rw [latest, List.foldl_append]
  rfl

/-- A task that is kept for a label has been seen of it. -/
theorem seen_of_latest {os : List Observation} {label : Str} (h : latest os label ≠ []) :
    SeenIn os (latest os label) ∧ ∃ o ∈ os, o.label = label := by
  induction os using List.reverseRecOn with
  | nil => exact absurd rfl h
  | append_singleton os o ih =>
    rw [latest_append] at h ⊢
    split_ifs at h ⊢ with ho
    · have hmem := List.mem_append_right os (List.mem_singleton_self o)
      exact ⟨⟨ho.2, o, hmem, rfl⟩, o, hmem, ho.1⟩
    · obtain ⟨⟨hne, o', hmem, heq⟩, o'', hmem', hlabel⟩ := ih h
      exact ⟨⟨hne, o', List.mem_append_left _ hmem, heq⟩, o'', List.mem_append_left _ hmem', hlabel⟩

theorem latest_unseen {os : List Observation} {label : Str} (h : ∀ o ∈ os, o.label ≠ label) :
    latest os label = [] := by
  by_contra hne
  obtain ⟨-, o, ho, hlabel⟩ := seen_of_latest hne
  exact h o ho hlabel

variable (threshold lower) in
/-- The records of a run: one for each label that occurs, with its last task. -/
theorem records_run (os : List Observation) :
    (∀ r ∈ (run threshold lower os).records, r.initialTask = latest os r.label) ∧
    ∀ label, (∃ r ∈ (run threshold lower os).records, r.label = label) ↔ ∃ o ∈ os, o.label = label := by
  induction os using List.reverseRecOn with
  | nil => exact ⟨nofun, fun label => by simp [run, Registry.initial]⟩
  | append_singleton os o ih =>
    obtain ⟨htasks, hlabels⟩ := ih
    have hsound := sound_run threshold lower os
    have hstep := upsert_observed threshold lower hsound o
    rw [run_append]
    generalize hg : run threshold lower os = g at htasks hlabels hsound hstep ⊢
    generalize (g.upsert threshold lower o).1 = record at hstep
    generalize (g.upsert threshold lower o).2 = g' at hstep ⊢
    constructor
    · intro r hr
      rw [latest_append]
      rcases (hstep.mem r).1 hr with rfl | hr
      · by_cases htask : o.initialTask = []
        · rw [if_neg fun h => h.2 htask, (hstep.unseen htask).1, hstep.label]
          -- a label that is new has no task
          obtain ⟨-, hlabel, -, -, -, -, hknown⟩ := recordFor_spec hsound o.label
          rcases hknown with hknown | ⟨hknown, hnew⟩
          · rw [htasks _ hknown, hlabel]
          · rw [hknown]
            by_contra hne
            obtain ⟨r, hr, hr'⟩ := (hlabels _).2 (seen_of_latest (Ne.symm hne)).2
            exact hnew r hr hr'
        · rw [if_pos ⟨hstep.label.symm, htask⟩, (hstep.seen htask).1]
      · have hne : r.label ≠ o.label := of_decide_eq_true (List.mem_filter.1 hr).2
        rw [if_neg fun h => hne h.1.symm]
        exact htasks r (mem_of_mem_others hr)
    · -- the labels are those before, and the one that is seen
      intro label
      constructor
      · rintro ⟨r, hr, rfl⟩
        rcases (hstep.mem r).1 hr with rfl | hr
        · exact ⟨o, List.mem_append_right _ (List.mem_singleton_self o), hstep.label.symm⟩
        · obtain ⟨o', ho', hlabel⟩ := (hlabels _).1 ⟨r, mem_of_mem_others hr, rfl⟩
          exact ⟨o', List.mem_append_left _ ho', hlabel⟩
      · rintro ⟨o', ho', rfl⟩
        by_cases hlabel : o'.label = o.label
        · exact ⟨record, (hstep.mem _).2 (.inl rfl), hstep.label.trans hlabel.symm⟩
        · rcases List.mem_append.1 ho' with ho' | ho'
          · obtain ⟨r, hr, hr'⟩ := (hlabels _).2 ⟨o', ho', rfl⟩
            exact ⟨r, (hstep.mem r).2 (.inr (List.mem_filter.2 ⟨hr, decide_eq_true (hr' ▸ hlabel)⟩)), hr'⟩
          · rw [List.mem_singleton.1 ho'] at hlabel
            exact absurd rfl hlabel

/-- One call keeps the records of similar tasks together. -/
theorem Clustered.upsert (hpos : 0 < threshold) (hone : threshold ≤ 1) (hg : Sound g)
    (hclustered : Clustered threshold lower g) (o : Observation) {tasks : Str → Prop}
    (hclasses : Classes threshold lower tasks) (ho : o.initialTask ≠ [] → tasks o.initialTask)
    (hrecords : ∀ r ∈ g.records, r.initialTask ≠ [] → tasks r.initialTask) :
    Clustered threshold lower (g.upsert threshold lower o).2 := by
  have hstep := upsert_observed threshold lower hg o
  generalize (g.upsert threshold lower o).1 = record at hstep
  generalize (g.upsert threshold lower o).2 = g' at hstep ⊢
  have hself : ∀ a, tasks a → Similar threshold lower a a := fun a ha =>
    (similar_self_iff hpos hone a).2 (hclasses.tokens a ha)
  have hrecord : record.initialTask ≠ [] → tasks record.initialTask := fun hne => by
    by_cases htask : o.initialTask = []
    · rw [(hstep.unseen htask).1] at hne ⊢
      rcases known_spec hg o.label with hknown | ⟨hnil, -⟩
      · exact hrecords _ hknown hne
      · exact absurd hnil hne
    · rw [(hstep.seen htask).1]
      exact ho htask
  refine (forall_pairs_iff hstep (p := fun r s => r.initialTask ≠ [] → s.initialTask ≠ [] →
      (r.swarmId = s.swarmId ↔ Similar threshold lower r.initialTask s.initialTask))
    (fun hr _ => iff_of_true rfl (hself _ (hrecord hr)))
    (fun r s h hs hr => eq_comm.trans ((h hr hs).trans ⟨Similar.symm, Similar.symm⟩))
    fun r hr s hs => hclustered r (mem_of_mem_others hr) s (mem_of_mem_others hs)).2 fun s hs hne hs' => ?_
  have hsg := mem_of_mem_others hs
  by_cases htask : o.initialTask = []
  · rw [(hstep.unseen htask).1] at hne ⊢
    rw [(hstep.unseen htask).2.1]
    rcases known_spec hg o.label with hknown | ⟨hnil, -⟩
    · exact hclustered _ hknown s hsg hne hs'
    · exact absurd hnil hne
  · have ht := ho htask
    have hts := hrecords s hsg hs'
    rw [(hstep.seen htask).1]
    rcases hstep.joins htask with ⟨first, hfirst, hswarm, -⟩ | ⟨hfirst, hswarm, -⟩
    · -- the classes of the first similar record and of the task are one
      obtain ⟨hmem, hne', hsimilar, -⟩ := firstSimilar_some hfirst
      have hmem' := mem_of_mem_others hmem
      have htf := hrecords first hmem' hne'
      rw [hswarm, hclustered first hmem' s hsg hne' hs']
      exact ⟨hclasses.trans _ _ _ ht htf hts hsimilar, hclasses.trans _ _ _ htf ht hts hsimilar.symm⟩
    · -- no other record is similar, and the swarm is new
      rw [hswarm]
      exact iff_of_false (fun h => hg.fresh hsg h.symm)
        (firstSimilar_none hfirst hs hs' ((hg.tasks s hsg).1 hs'))

theorem clustered_run (hpos : 0 < threshold) (hone : threshold ≤ 1) {os : List Observation}
    (hclasses : Classes threshold lower (SeenIn os)) : Clustered threshold lower (run threshold lower os) := by
  induction os using List.reverseRecOn with
  | nil => exact fun r hr => absurd hr List.not_mem_nil
  | append_singleton os o ih =>
    have hsub : ∀ a, SeenIn os a → SeenIn (os ++ [o]) a := fun a ⟨hne, o', ho', heq⟩ =>
      ⟨hne, o', List.mem_append_left _ ho', heq⟩
    rw [run_append]
    refine (ih (hclasses.mono hsub)).upsert hpos hone (sound_run threshold lower os) o hclasses
      (fun hne => ⟨hne, o, List.mem_append_right _ (List.mem_singleton_self o), rfl⟩) fun r hr hne => ?_
    rw [(records_run threshold lower os).1 r hr] at hne ⊢
    exact hsub _ (seen_of_latest hne).1

/-! ## The order of the observations -/

/-- The count of `tabulate` at the swarm of a label. -/
def swarmSize (g : Registry) (label : Str) : ℕ :=
  ((g.findByLabel label).bind fun r => g.tabulate.swarms.lookup r.swarmId).getD 0

/-- How many labels have last been seen with a task like that of a label. -/
def similarLabels (threshold : ℚ) (lower : Str → Str) (os : List Observation) (labels : List Str)
    (label : Str) : ℕ :=
  labels.countP fun l => latest os l ≠ [] ∧ Similar threshold lower (latest os label) (latest os l)

theorem swarms_lookup (g : Registry) {swarm : Str} (hne : swarm ≠ []) {r : AttackerRecord} (hr : r ∈ g.records)
    (heq : r.swarmId = swarm) :
    g.tabulate.swarms.lookup swarm = some (g.records.countP (·.swarmId = swarm)) := by
  have hmem : swarm ∈ (g.records.map AttackerRecord.swarmId).filter (· ≠ []) :=
    List.mem_filter.2 ⟨heq ▸ List.mem_map_of_mem hr, decide_eq_true hne⟩
  rw [Registry.tabulate, lookup_tally, if_pos hmem,
    List.count_filter (p := fun x => decide (x ≠ [])) (decide_eq_true hne), List.count, List.countP_map]
  exact congrArg some (List.countP_congr fun s _ => by simp)

theorem swarmSize_run (hpos : 0 < threshold) (hone : threshold ≤ 1) {os : List Observation}
    (hclasses : Classes threshold lower (SeenIn os)) (label : Str) :
    swarmSize (run threshold lower os) label = if latest os label = [] then 0 else
      similarLabels threshold lower os ((run threshold lower os).records.map AttackerRecord.label) label := by
  have hsound := sound_run threshold lower os
  have hclustered := clustered_run hpos hone hclasses
  obtain ⟨htasks, hlabels⟩ := records_run threshold lower os
  generalize run threshold lower os = g at hsound hclustered htasks hlabels ⊢
  unfold swarmSize
  rcases hfind : g.findByLabel label with _ | r
  · -- a label that does not occur has no task
    rw [Option.bind_none, Option.getD_none]
    split_ifs with hlatest
    · rfl
    · obtain ⟨r, hr, hr'⟩ := (hlabels label).2 (seen_of_latest hlatest).2
      have hnone : ∀ r ∈ g.records, r.label ≠ label := by simpa [Registry.findByLabel] using hfind
      exact absurd hr' (hnone r hr)
  · have hr := List.mem_of_find?_eq_some hfind
    have hr' : r.label = label := by simpa using List.find?_some hfind
    rw [Option.bind_some, ← hr', ← htasks r hr]
    split_ifs with htask
    · -- no task, so no swarm, which is not counted
      have hnil : r.swarmId = [] := not_not.1 fun h => (hsound.tasks r hr).2 h htask
      have hmem : r.swarmId ∉ (g.records.map AttackerRecord.swarmId).filter (· ≠ []) := fun h =>
        absurd hnil (of_decide_eq_true (List.mem_filter.1 h).2)
      rw [Registry.tabulate, lookup_tally, if_neg hmem]
      rfl
    · rw [swarms_lookup g ((hsound.tasks r hr).1 htask) hr rfl, Option.getD_some, similarLabels, List.countP_map]
      -- the records of the swarm are those with a similar task
      refine List.countP_congr fun s hs => ?_
      rw [decide_eq_true_iff, Function.comp_apply, decide_eq_true_iff, ← htasks r hr, ← htasks s hs]
      constructor
      · intro heq
        have hs' : s.initialTask ≠ [] := (hsound.tasks s hs).2 (heq ▸ (hsound.tasks r hr).1 htask)
        exact ⟨hs', (hclustered r hr s hs htask hs').1 heq.symm⟩
      · exact fun h => ((hclustered r hr s hs htask h.1).2 h.2).symm

/-- Where the classes are those of the tasks, the counts are those of the last tasks. -/
theorem swarmSize_perm (hpos : 0 < threshold) (hone : threshold ≤ 1) {os os' : List Observation}
    (hclasses : Classes threshold lower (SeenIn os)) (hperm : os'.Perm os)
    (hlatest : ∀ label, latest os' label = latest os label) (label : Str) :
    swarmSize (run threshold lower os') label = swarmSize (run threshold lower os) label := by
  have hclasses' : Classes threshold lower (SeenIn os') :=
    hclasses.mono fun a ⟨hne, o, ho, heq⟩ => ⟨hne, o, hperm.mem_iff.1 ho, heq⟩
  -- the labels of both are the same, each once
  have hlabels : ((run threshold lower os').records.map AttackerRecord.label).Perm
      ((run threshold lower os).records.map AttackerRecord.label) := by
    refine (List.perm_ext_iff_of_nodup (sound_run threshold lower os').labels (sound_run threshold lower os).labels).2 fun l => ?_
    rw [List.mem_map, List.mem_map, (records_run threshold lower os').2 l, (records_run threshold lower os).2 l]
    simp only [hperm.mem_iff]
  rw [swarmSize_run hpos hone hclasses', swarmSize_run hpos hone hclasses, hlatest, similarLabels, similarLabels,
    hlabels.countP_eq]
  simp only [hlatest]

/-- Where every task that is seen has a token and similarity is transitive on them, equal tasks are in one swarm
in every state, the swarms are the classes of the last tasks, and the counts are the same for every order of the
calls that leaves each label its last task. -/
theorem swarms_are_classes (threshold : ℚ) (lower : Str → Str) (hpos : 0 < threshold) (hone : threshold ≤ 1)
    (os : List Observation) (hclasses : Classes threshold lower (SeenIn os)) :
    (∀ pre, pre <+: os →
      SameTask (run threshold lower pre) ∧ Clustered threshold lower (run threshold lower pre)) ∧
    ∀ os', os'.Perm os → (∀ label, latest os' label = latest os label) →
      ∀ label, swarmSize (run threshold lower os') label = swarmSize (run threshold lower os) label := by
  refine ⟨fun pre hpre => ?_, fun os' hperm hlatest label =>
    swarmSize_perm hpos hone hclasses hperm hlatest label⟩
  have hclasses' : Classes threshold lower (SeenIn pre) :=
    hclasses.mono fun a ⟨hne, o, ho, heq⟩ => ⟨hne, o, hpre.subset ho, heq⟩
  have hclustered := clustered_run hpos hone hclasses'
  refine ⟨fun r hr s hs hne heq => ?_, hclustered⟩
  rw [hclustered r hr s hs hne (heq ▸ hne), ← heq, similar_self_iff hpos hone, (records_run threshold lower pre).1 r hr]
  rw [(records_run threshold lower pre).1 r hr] at hne
  exact hclasses'.tokens _ (seen_of_latest hne).1

/-- `str.lower` of a text of ASCII. -/
def asciiLower (s : Str) : Str := s.map Char.toLower

/-- A call with a task and nothing else. -/
def Observation.ofTask (label task : String) : Observation := ⟨label.toList, none, task.toList, []⟩

/-- Three attackers with two tasks. -/
def copied : List Observation := [.ofTask "a" "copy keys", .ofTask "b" "wait", .ofTask "c" "copy keys"]

/-- The same three in another order. -/
def copiedLater : List Observation := [.ofTask "b" "wait", .ofTask "c" "copy keys", .ofTask "a" "copy keys"]

theorem copied_seen {task : Str} (h : SeenIn copied task) : task = "copy keys".toList ∨ task = "wait".toList := by
  obtain ⟨-, o, ho, rfl⟩ := h
  simp only [copied, List.mem_cons, List.not_mem_nil, or_false] at ho
  rcases ho with rfl | rfl | rfl
  · exact .inl rfl
  · exact .inr rfl
  · exact .inl rfl

theorem copied_classes : Classes (3 / 5) asciiLower (SeenIn copied) where
  tokens a ha := by
    rcases copied_seen ha with rfl | rfl <;> decide +kernel
  trans a b c ha hb hc := by
    rcases copied_seen ha with rfl | rfl <;> rcases copied_seen hb with rfl | rfl <;>
      rcases copied_seen hc with rfl | rfl <;> decide +kernel

theorem copiedLater_perm : copiedLater.Perm copied :=
  @List.perm_append_comm _ (copiedLater.take 2) (copiedLater.drop 2)

theorem copied_latest (label : Str) : latest copiedLater label = latest copied label := by
  by_cases hlabel : label = "a".toList ∨ label = "b".toList ∨ label = "c".toList
  · rcases hlabel with rfl | rfl | rfl <;> decide +kernel
  · -- a label that is not seen has no task
    have hunseen : ∀ o ∈ copied, o.label ≠ label := by
      intro o ho h
      simp only [copied, List.mem_cons, List.not_mem_nil, or_false] at ho
      rcases ho with rfl | rfl | rfl
      · exact hlabel (.inl h.symm)
      · exact hlabel (.inr (.inl h.symm))
      · exact hlabel (.inr (.inr h.symm))
    rw [latest_unseen hunseen, latest_unseen fun o ho => hunseen o (copiedLater_perm.mem_iff.1 ho)]

/-- The two with one task share a swarm, and are counted alike in both orders. -/
theorem copied_together :
    SameTask (run (3 / 5) asciiLower copied) ∧
      swarmSize (run (3 / 5) asciiLower copiedLater) "a".toList =
        swarmSize (run (3 / 5) asciiLower copied) "a".toList := by
  obtain ⟨hsame, hsize⟩ :=
    swarms_are_classes (3 / 5) asciiLower (by norm_num) (by norm_num) copied copied_classes
  exact ⟨(hsame _ List.prefix_rfl).1, hsize _ copiedLater_perm copied_latest _⟩

/-- A task without a token is in a new swarm each time. And where the first record of a swarm changes its task, the
next one with the task of another record of the swarm can find a second swarm first. -/
theorem swarms_split :
    ¬SameTask (run (3 / 5) asciiLower [.ofTask "a" "!!!", .ofTask "b" "!!!"]) ∧
    ¬SameTask (run (1 / 2) asciiLower [.ofTask "a" "copy", .ofTask "b" "keys", .ofTask "c" "copy keys",
      .ofTask "a" "wait", .ofTask "d" "copy keys"]) ∧
    swarmSize (run (1 / 2) asciiLower [.ofTask "a" "copy", .ofTask "b" "keys", .ofTask "c" "copy keys"])
      "a".toList = 2 ∧
    swarmSize (run (1 / 2) asciiLower [.ofTask "b" "keys", .ofTask "a" "copy", .ofTask "c" "copy keys"])
      "a".toList = 1 := by
  decide +kernel

end Bulldog.Adversary
