import Mathlib
import Bulldog.Lib.Division
import Bulldog.Lib.Text

/-!
# The adversary registry

`registry.py` of the adversary layer: a record for each label, with the task that was last seen of it, and a
swarm that a record joins when a task is seen. It joins the swarm of the first other record with a similar task,
and a new one where there is none; the other records stay in their swarms.

`str.lower` is a parameter. A record's `attacker_id` is a new number, as `uuid4` gives a new text, and a float is
its rational value.
-/

namespace Bulldog.Adversary

/-! ## Tasks -/

/-- The characters of `[a-z0-9]`. -/
def isTokenChar (c : Char) : Bool := ('a' ≤ c && c ≤ 'z') || ('0' ≤ c && c ≤ '9')

/-- The runs of token characters of a text, after a run that is not over. -/
def tokenRuns : Str → Str → List Str
  | run, [] => if run = [] then [] else [run.reverse]
  | run, c :: s =>
    if isTokenChar c then tokenRuns (c :: run) s
    else (if run = [] then [] else [run.reverse]) ++ tokenRuns [] s

/-- `_normalize(task)`. -/
def normalize (lower : Str → Str) (task : Str) : Finset Str := (tokenRuns [] (lower task)).toFinset

/-- `task_similarity(a, b)`. -/
def taskSimilarity (lower : Str → Str) (a b : Str) : ℚ :=
  let left := normalize lower a
  let right := normalize lower b
  if left = ∅ ∨ right = ∅ then 0 else trueDiv (left ∩ right).card (left ∪ right).card

/-! ## Records -/

/-- `ModelFingerprint`, of which the registry reads the family. -/
structure ModelFingerprint where
  family : Str
  deriving DecidableEq

/-- `AttackerRecord`, less its times. -/
structure AttackerRecord where
  attackerId : ℕ
  label : Str
  swarmId : Str
  fingerprint : Option ModelFingerprint
  initialTask : Str
  findings : List Str
  quarantined : Bool
  observationCount : ℕ
  deriving DecidableEq

/-- `AttackerRecord(label=label)`. -/
def AttackerRecord.new (attackerId : ℕ) (label : Str) : AttackerRecord :=
  ⟨attackerId, label, [], none, [], [], false, 0⟩

/-- The arguments of `upsert`, where no findings are as an empty list. -/
structure Observation where
  label : Str
  fingerprint : Option ModelFingerprint
  initialTask : Str
  findings : List Str

/-- `AdversaryRegistry`, less its threshold. -/
structure Registry where
  /-- The values of `_records`, in insertion order. -/
  records : List AttackerRecord
  swarmCounter : ℕ

/-- `AdversaryRegistry(...)`. -/
def Registry.initial : Registry := ⟨[], 0⟩

/-- `f"{n:03d}"`. -/
def threeDigits (n : ℕ) : Str := List.replicate (3 - (Nat.toDigits 10 n).length) '0' ++ Nat.toDigits 10 n

/-- `f"swarm-{n:03d}"`. -/
def swarmName (n : ℕ) : Str := "swarm-".toList ++ threeDigits n

section

variable (threshold : ℚ) (lower : Str → Str)

/-- `task_similarity(a, b) >= self._swarm_threshold`. -/
def Similar (a b : Str) : Prop := threshold ≤ taskSimilarity lower a b

instance (a b : Str) : Decidable (Similar threshold lower a b) :=
  inferInstanceAs (Decidable (threshold ≤ taskSimilarity lower a b))

/-- The first of some records that `_assign_swarm` takes the swarm of a task from. -/
def firstSimilar (others : List AttackerRecord) (task : Str) : Option AttackerRecord :=
  others.find? fun other =>
    other.initialTask ≠ [] ∧ Similar threshold lower task other.initialTask ∧ other.swarmId ≠ []

/-- What `_assign_swarm` finds for a task beside the other records: a swarm, and the counter. -/
def swarmOf (others : List AttackerRecord) (task : Str) (counter : ℕ) : Str × ℕ :=
  match firstSimilar threshold lower others task with
  | some other => (other.swarmId, counter)
  | none => (swarmName (counter + 1), counter + 1)

/-- `_assign_swarm(record)`. -/
def Registry.assignSwarm (registry : Registry) (record : AttackerRecord) : AttackerRecord × ℕ :=
  let (swarm, counter) := swarmOf threshold lower
    (registry.records.filter (·.attackerId ≠ record.attackerId)) record.initialTask registry.swarmCounter
  ({ record with swarmId := swarm }, counter)

/-- `_find_by_label(label)`. -/
def Registry.findByLabel (registry : Registry) (label : Str) : Option AttackerRecord :=
  registry.records.find? (·.label = label)

/-- The record that an observation is of, and the records with it. -/
def Registry.recordFor (registry : Registry) (label : Str) : AttackerRecord × List AttackerRecord :=
  match registry.findByLabel label with
  | some record => (record, registry.records)
  | none =>
    (.new registry.records.length label, registry.records ++ [.new registry.records.length label])

/-- `sorted(set(record.findings) | set(findings))`. -/
def mergeFindings (old new : List Str) : List Str := (old ++ new).dedup.insertionSort (· ≤ ·)

/-- `upsert(label, fingerprint, initial_task, findings)`. -/
def Registry.upsert (registry : Registry) (o : Observation) : AttackerRecord × Registry :=
  let (record, records) := registry.recordFor o.label
  let record := { record with
    observationCount := record.observationCount + 1
    fingerprint := o.fingerprint.or record.fingerprint }
  let (record, counter) :=
    if o.initialTask ≠ [] then
      Registry.assignSwarm threshold lower ⟨records, registry.swarmCounter⟩
        { record with initialTask := o.initialTask }
    else (record, registry.swarmCounter)
  let record :=
    if o.findings ≠ [] then { record with findings := mergeFindings record.findings o.findings } else record
  (record, ⟨records.map fun r => if r.attackerId = record.attackerId then record else r, counter⟩)

/-- The registry after some calls. -/
def run (observations : List Observation) : Registry :=
  observations.foldl (fun registry o => (registry.upsert threshold lower o).2) .initial

end

/-! ## The table -/

/-- `d[key] = d.get(key, 0) + 1`. -/
def bump (counts : AList fun _ : Str => ℕ) (key : Str) : AList fun _ : Str => ℕ :=
  counts.insert key ((counts.lookup key).getD 0 + 1)

/-- How often each key occurs. -/
def tally (keys : List Str) : AList fun _ : Str => ℕ := keys.foldl bump ∅

/-- What `tabulate` returns. -/
structure Table where
  totalAttackers : ℕ
  byModelFamily : AList fun _ : Str => ℕ
  swarms : AList fun _ : Str => ℕ
  quarantined : ℕ

/-- `tabulate()`. -/
def Registry.tabulate (registry : Registry) : Table where
  totalAttackers := registry.records.length
  byModelFamily := tally (registry.records.map fun r =>
    (r.fingerprint.map ModelFingerprint.family).getD "unknown".toList)
  swarms := tally ((registry.records.map AttackerRecord.swarmId).filter (· ≠ []))
  quarantined := registry.records.countP (·.quarantined)

theorem lookup_tally (keys : List Str) (key : Str) :
    (tally keys).lookup key = if key ∈ keys then some (keys.count key) else none := by
  induction keys using List.reverseRecOn with
  | nil => rfl
  | append_singleton keys k ih =>
    rw [tally, List.foldl_append, List.foldl_cons, List.foldl_nil, ← tally, bump]
    by_cases hkey : key = k
    · subst hkey
      have hmem : key ∈ keys ++ [key] := List.mem_append_right _ (List.mem_singleton_self _)
      rw [AList.lookup_insert, ih, if_pos hmem, List.count_append, List.count_singleton_self]
      split_ifs with hkeys
      · rfl
      · rw [List.count_eq_zero_of_not_mem hkeys]
        rfl
    · rw [AList.lookup_insert_ne hkey, ih, List.count_append]
      simp [hkey, Ne.symm hkey]

end Bulldog.Adversary
