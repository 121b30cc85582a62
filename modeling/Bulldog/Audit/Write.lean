import Bulldog.Audit.Records
import Bulldog.Audit.Verify
import Bulldog.Lib.Json.Extend
import Bulldog.Lib.Json.Python
import Bulldog.Lib.Lines
import Bulldog.Models

/-!
# Writing any value

`append_event` takes any Python value as data, and `_append_payload` hashes the value itself while
`_verify_unlocked` hashes what it reads back. `_append_payload` is given here with the data as it
is, and with whatever stands for the remote collector.
-/

namespace Bulldog

namespace Audit

open Anchor

variable {F : Type} [PyFloat F]

/-! ## Payloads -/

/-- The payload of `append_event`. -/
def eventPayload (timestamp eventType : Str) (data : PyValue F) : PyFields F :=
  [("record_type", .str "runtime_event"), ("timestamp", .str timestamp),
    ("event_type", .str eventType), ("data", data)]

/-- The payload of `append`, where the evaluation's risk is the float `risk`. -/
def evaluationPayload (timestamp : Str) (action : ActionRequest) (evaluation : Evaluation) (risk : F) :
    PyFields F :=
  [("record_type", .str "action_evaluation"), ("timestamp", .str timestamp),
    ("actor", .str action.actor), ("task", .str action.task),
    ("operation", .str action.operation), ("resource", .str action.resource),
    ("capability", .str action.capability.value),
    ("provenance", .list (action.provenance.map fun p => .str p.value)),
    ("decision", .str evaluation.decision.value), ("risk", .float risk),
    ("reasons", .list (evaluation.reasons.map fun r => .str r)),
    ("hard_block", .bool evaluation.hardBlock),
    ("metadata", .dict ((action.metadata.insertionSort fun a b => a.1.toList ≤ b.1.toList).map
      fun kv => (.str kv.1, .str kv.2)))]

/-- What is appended to a ledger. -/
inductive Entry (F : Type) where
  | event (timestamp eventType : Str) (data : PyValue F)
  | evaluation (timestamp : Str) (action : ActionRequest) (evaluation : Evaluation) (risk : F)

/-- What `append_event` and `append` hand to `_append_payload`. -/
def Entry.payload : Entry F → PyFields F
  | .event timestamp eventType data => eventPayload timestamp eventType data
  | .evaluation timestamp action outcome risk => evaluationPayload timestamp action outcome risk

omit [PyFloat F] in
theorem Entry.nodup_keys (entry : Entry F) : (entry.payload.map Prod.fst).Nodup := by
  cases entry with
  | event timestamp eventType data =>
    change (["record_type".toList, "timestamp".toList, "event_type".toList,
      "data".toList] : List Str).Nodup
    decide
  | evaluation timestamp action outcome risk =>
    change (["record_type".toList, "timestamp".toList, "actor".toList, "task".toList,
      "operation".toList, "resource".toList, "capability".toList, "provenance".toList,
      "decision".toList, "risk".toList, "reasons".toList, "hard_block".toList,
      "metadata".toList] : List Str).Nodup
    decide

/-! ## Appending -/

/-- What `_append_payload` knows of the remote collector. -/
structure Remote (F : Type) where
  /-- Whether there is a versioned transport. -/
  framed : Bool
  /-- `_verify_remote_checkpoint`. -/
  check : Disk → RemoteCheck
  /-- `_write_remote_anchor`, with what it leaves in the remote checkpoint. -/
  deliver : ℕ → Str → PyFields F → Except Exc (Option Bytes)

/-- There is no remote collector. -/
def Remote.none : Remote F where
  framed := false
  check _ _ _ := Option.none
  deliver _ _ _ := .ok Option.none

/-- `existing.head_hash` as a value. -/
def previousValue : Option Str → PyValue F
  | some p => .str p
  | none => .none

variable (C : Crypto) (B : Builtins F) (P : PySort F) (ledger : LedgerOptions)

/-- The text that `_calculate_hash` hashes. -/
def hashedText (payload : PyFields F) : Except Exc Str :=
  orRaise (P.dumps ⟨false, true⟩ (payload.erase "record_hash").value) (.builtin .typeError)

/-- The hash of a text. -/
def hashOf (text : Str) : Str := hexdigest (C.sha256 (encodeUtf8 text))

/-- `json.dumps(record, sort_keys=True) + "\n"`. -/
def encodedRecord (record : PyFields F) : Except Exc Str :=
  (orRaise (P.dumps ⟨true, true⟩ record.value) (.builtin .typeError)).map (· ++ ['\n'])

/-- What `_write_anchor` leaves in the external anchor. -/
def LedgerOptions.anchorFile (F : Type) [PyFloat F] (sequence : ℕ) (head : Str) :
    Except Exc (Option Bytes) :=
  match ledger.anchorKey with
  | none => .ok none
  | some key => do
    let mac ← mac C key sequence head
    let file ← jsonFile (F := F)
      [("sequence", .int sequence), ("head_hash", .str head), ("mac", .str mac)]
    return some file

/-- `_append_payload(payload)`. -/
def LedgerOptions.appendPayload (remote : Remote F) (payload : PyFields F) :
    Action Disk Exc Str := do
  let disk ← .read
  let existing ← ledger.verifyWith C B (remote.check disk) disk true true
  raiseIf (!existing.valid) (Setting.refusal existing.error)
  let record := payload.set "previous_hash" (previousValue existing.headHash)
  let text ← hashedText P record
  let hash := hashOf C text
  let record := record.set "record_hash" (.str hash)
  let line ← encodedRecord P record
  raiseIf (remote.framed = true ∧ (encodeUtf8 line).length > 60 * 1024)
    (auditIntegrityError "audit record exceeds transport framing budget")
  raiseIf ((disk.ledger.getD []).length + (encodeUtf8 line).length > ledger.maxLedgerBytes)
    (auditIntegrityError "audit storage budget exhausted")
  .update fun disk => { disk with ledger := some (disk.ledger.getD [] ++ encodeUtf8 line) }
  .update fun disk => { disk with head := some (encodeUtf8 (hash ++ ['\n'])) }
  let anchor ← ledger.anchorFile C F (existing.records + 1) hash
  .update fun disk => { disk with anchor := anchor.or disk.anchor }
  let checkpoint ← remote.deliver (existing.records + 1) hash record
  .update fun disk => { disk with remote := checkpoint.or disk.remote }
  return hash

/-- `append_event(event_type, data)` and `append(action, evaluation)`. -/
def LedgerOptions.append (remote : Remote F) : Entry F → Action Disk Exc Str
  | .event timestamp eventType data => do
    raiseIf (eventType = []) (Exc.raised .valueError "event_type cannot be empty")
    ledger.appendPayload C B P remote (eventPayload timestamp eventType data)
  | .evaluation timestamp action outcome risk =>
    ledger.appendPayload C B P remote (evaluationPayload timestamp action outcome risk)

/-- `verify()`. -/
def LedgerOptions.verify (remote : Remote F) (disk : Disk) : Except Exc AuditVerification :=
  ledger.verifyWith C B (remote.check disk) disk true true

/-! ## What an append leaves -/

/-- The record that `_append_payload` writes, with its hash. -/
def sealedRecord (payload : PyFields F) (previous : Option Str) (hash : Str) : PyFields F :=
  (payload.set "previous_hash" (previousValue previous)).set "record_hash" (.str hash)

/-- What a call of `_append_payload` that returns `hash` found and left. -/
structure Appended (remote : Remote F) (payload : PyFields F) (disk disk' : Disk)
    (existing : AuditVerification) (hash : Str) : Prop where
  verified : ledger.verify C B remote disk = .ok existing
  valid : existing.valid = true
  text : ∃ text, hashedText P (payload.set "previous_hash" (previousValue existing.headHash)) =
    .ok text ∧ hash = hashOf C text
  line : ∃ line, encodedRecord P (sealedRecord payload existing.headHash hash) = .ok line ∧
    (disk.ledger.getD []).length + (encodeUtf8 line).length ≤ ledger.maxLedgerBytes ∧
    disk'.ledger = some (disk.ledger.getD [] ++ encodeUtf8 line)
  head : disk'.head = some (encodeUtf8 (hash ++ ['\n']))
  anchor : ∃ anchor, ledger.anchorFile C F (existing.records + 1) hash = .ok anchor ∧
    disk'.anchor = anchor.or disk.anchor

variable {C B P ledger}

theorem appendPayload_wp (remote : Remote F) (payload : PyFields F) (disk : Disk) :
    (ledger.appendPayload C B P remote payload).wp
      (fun hash disk' => ∃ existing, Appended C B P ledger remote payload disk disk' existing hash)
      (fun _ _ => True) disk := by
  unfold LedgerOptions.appendPayload
  simp only [Action.wp_bind, Action.wp_read, Action.wp_update, Action.wp_pure]
  refine Action.wp_lift_intro (fun existing hverify => ?_) fun _ => trivial
  refine Action.wp_lift_intro (fun _ hvalid => ?_) fun _ => trivial
  refine Action.wp_lift_intro (fun text htext => ?_) fun _ => trivial
  refine Action.wp_lift_intro (fun line hline => ?_) fun _ => trivial
  refine Action.wp_lift_intro (fun _ _ => ?_) fun _ => trivial
  refine Action.wp_lift_intro (fun _ hbudget => ?_) fun _ => trivial
  refine Action.wp_lift_intro (fun anchor hanchor => ?_) fun _ => trivial
  refine Action.wp_lift_intro (fun checkpoint _ => ?_) fun _ => trivial
  have hvalid : existing.valid = true := by simpa using raiseIf_eq_ok.1 hvalid
  exact ⟨existing, hverify, hvalid, ⟨text, htext, rfl⟩,
    ⟨line, hline, not_lt.1 (raiseIf_eq_ok.1 hbudget), rfl⟩, rfl, ⟨anchor, hanchor, rfl⟩⟩

/-- A call of `append_event` or `append` that returns has appended its payload. -/
theorem append_eq_ok {remote : Remote F} {entry : Entry F} {disk disk' : Disk} {hash : Str}
    (h : ledger.append C B P remote entry disk = (.ok hash, disk')) :
    ∃ existing, Appended C B P ledger remote entry.payload disk disk' existing hash := by
  have hpayload : ledger.appendPayload C B P remote entry.payload disk = (.ok hash, disk') := by
    cases entry with
    | event timestamp eventType data =>
      rw [LedgerOptions.append, Action.bind_apply, Action.lift_apply] at h
      rcases hraise : raiseIf (eventType = []) (Exc.raised .valueError "event_type cannot be empty")
        with e | u
      · rw [hraise] at h
        cases h
      · rw [hraise] at h
        exact h
    | evaluation timestamp action outcome risk => exact h
  have hwp : (ledger.appendPayload C B P remote entry.payload).wp _ _ disk :=
    appendPayload_wp remote entry.payload disk
  rw [Action.wp, hpayload] at hwp
  exact hwp

theorem refusal_ne_builtin (fault : Option Fault) (cls : ExcClass) :
    Exc.builtin cls ≠ Setting.refusal fault := by
  rcases fault with _ | ⟨text, _ | cause⟩ <;> nofun

/-- The refusal is told apart from the other messages by its first letter. -/
theorem refusal_ne_raised (fault : Option Fault) (cls : ExcClass) {message : String}
    (hm : message.toList.head? ≠ some 'r') : Exc.raised cls message ≠ Setting.refusal fault := by
  rcases fault with _ | ⟨text, _ | cause⟩
  · rintro ⟨⟩
    exact hm rfl
  · intro h
    obtain ⟨-, rfl⟩ := Exc.raised.inj h
    rw [String.toList_append] at hm
    exact hm rfl
  · nofun

theorem hashedText_error {payload : PyFields F} {e : Exc} (h : hashedText P payload = .error e) :
    e = .builtin .typeError := by
  unfold hashedText orRaise at h
  split at h
  · cases h
  · exact (Except.error.inj h).symm

theorem encodedRecord_error {record : PyFields F} {e : Exc} (h : encodedRecord P record = .error e) :
    e = .builtin .typeError := by
  unfold encodedRecord orRaise at h
  split at h
  · cases h
  · exact (Except.error.inj h).symm

theorem raiseIf_eq_error {ε : Type} {c : Prop} [Decidable c] {e e' : ε}
    (h : raiseIf c e = .error e') : c ∧ e' = e := by
  unfold raiseIf at h
  split_ifs at h with hc
  exact ⟨hc, (Except.error.inj h).symm⟩

theorem anchorFile_error {sequence : ℕ} {head : Str} {e : Exc}
    (h : ledger.anchorFile C F sequence head = .error e) :
    e = auditIntegrityError "audit anchor key is missing" ∨ e = .builtin .valueError := by
  unfold LedgerOptions.anchorFile at h
  split at h
  · cases h
  · next key _ =>
    rcases hmac : mac C key sequence head with e' | m
    · rw [hmac] at h
      obtain rfl : e' = e := Except.error.inj h
      unfold mac at hmac
      split at hmac
      · cases hmac
      · exact .inl (Except.error.inj hmac).symm
    · rw [hmac] at h
      rcases hfile : jsonFile (F := F)
        [("sequence", .int sequence), ("head_hash", .str head), ("mac", .str m)] with e' | file
      · simp only [bind, Except.bind, hfile] at h
        obtain rfl : e' = e := Except.error.inj h
        unfold jsonFile at hfile
        split at hfile
        · cases hfile
        · exact .inr (Except.error.inj hfile).symm
      · simp only [bind, Except.bind, hfile] at h
        cases h

/-- A ledger that verifies is not refused. -/
theorem append_not_refused {disk : Disk} {v : AuditVerification}
    (hverify : ledger.verify C B .none disk = .ok v) (hvalid : v.valid = true) (entry : Entry F)
    (fault : Option Fault) :
    (ledger.append C B P .none entry disk).1 ≠ .error (Setting.refusal fault) := by
  have hpayload : ∀ payload : PyFields F, (ledger.appendPayload C B P .none payload).wp
      (fun _ _ => True) (fun e _ => e ≠ Setting.refusal fault) disk := by
    intro payload
    unfold LedgerOptions.appendPayload
    simp only [Action.wp_bind, Action.wp_read, Action.wp_update, Action.wp_pure]
    refine Action.wp_lift_of_ok hverify ?_
    refine Action.wp_raiseIf_of_not (by simp [hvalid]) ?_
    refine (Action.wp_lift _).2 ⟨fun text _ => ?_, fun e he => ?_⟩
    · refine (Action.wp_lift _).2 ⟨fun line _ => ?_, fun e he => ?_⟩
      · refine Action.wp_raiseIf_of_not (by simp [Remote.none]) ?_
        refine (Action.wp_lift _).2 ⟨fun _ _ => ?_, fun e he => ?_⟩
        · refine (Action.wp_lift _).2 ⟨fun anchor _ => ?_, fun e he => ?_⟩
          · exact Action.wp_lift_of_ok rfl trivial
          · rcases anchorFile_error he with rfl | rfl
            · exact refusal_ne_raised fault _ (by decide)
            · exact refusal_ne_builtin fault _
        · rw [(raiseIf_eq_error he).2]
          exact refusal_ne_raised fault _ (by decide)
      · rw [encodedRecord_error he]
        exact refusal_ne_builtin fault _
    · rw [hashedText_error he]
      exact refusal_ne_builtin fault _
  have hentry : (ledger.append C B P .none entry).wp (fun _ _ => True)
      (fun e _ => e ≠ Setting.refusal fault) disk := by
    cases entry with
    | event timestamp eventType data =>
      rw [LedgerOptions.append, Action.wp_bind]
      refine (Action.wp_lift _).2 ⟨fun _ _ => hpayload _, fun e he => ?_⟩
      rw [(raiseIf_eq_error he).2]
      exact refusal_ne_raised fault _ (by decide)
    | evaluation timestamp action outcome risk => exact hpayload _
  intro herror
  unfold Action.wp at hentry
  split at hentry
  · next heq =>
    rw [heq] at herror
    cases herror
  · next heq =>
    rw [heq] at herror
    exact hentry (Except.error.inj herror)

/-! ## The line of a record -/

/-- The JSON value `R` of a sealed record, the text that was hashed for it, and its line. -/
structure Line (C : Crypto) (previous : Option Str) (hash : Str) (R : Fields F) : Prop where
  nodup : R.keys.Nodup
  writable : (Json.obj R.sort).writable true = true
  hash_eq : R.get "record_hash" = some (.str hash)
  previous_eq : R.get "previous_hash" = some (previousJson previous)
  hashed_writable : (Json.obj (R.erase "record_hash").sort).writable true = true
  hashed : hash = hashOf C ((Json.obj (R.erase "record_hash").sort).render ⟨false, true⟩)

/-- What is hashed and what is encoded come from one JSON value. -/
theorem exists_line {payload : PyFields F} {previous : Option Str} {hash text line : Str}
    (hnd : (payload.map Prod.fst).Nodup)
    (htext : hashedText P (payload.set "previous_hash" (previousValue previous)) = .ok text)
    (hhash : hash = hashOf C text)
    (hline : encodedRecord P (sealedRecord payload previous hash) = .ok line) :
    ∃ R, (sealedRecord payload previous hash).fields P = some R ∧ Line C previous hash R ∧
      text = (Json.obj (R.erase "record_hash").sort).render ⟨false, true⟩ ∧
      line = (Json.obj R.sort).render ⟨true, true⟩ ++ ['\n'] := by
  have hnd₁ := nodup_keys_set hnd "previous_hash" (previousValue previous)
  have hnd₂ := nodup_keys_set hnd₁ "record_hash" (PyValue.str hash)
  obtain ⟨t, ht, rfl⟩ : ∃ t, P.dumps ⟨true, true⟩ (sealedRecord payload previous hash).value =
      some t ∧ t ++ ['\n'] = line := by
    unfold encodedRecord at hline
    rcases hdumps : orRaise (P.dumps ⟨true, true⟩ (sealedRecord payload previous hash).value)
      (Exc.builtin .typeError) with e | t
    · rw [hdumps] at hline
      cases hline
    · rw [hdumps] at hline
      exact ⟨t, orRaise_eq_ok.1 hdumps, Except.ok.inj hline⟩
  obtain ⟨R, hR, hw, rfl⟩ := fields_of_dumps hnd₂ ht
  obtain ⟨R', hR', hw', rfl⟩ := fields_of_dumps (nodup_keys_erase hnd₁ _) (orRaise_eq_ok.1 htext)
  have herase : R' = R.erase "record_hash" := by
    have hsealed := fields_erase hR "record_hash"
    rw [erase_set, hR'] at hsealed
    exact Option.some.inj hsealed
  refine ⟨R, hR, ⟨?_, hw, ?_, ?_, herase ▸ hw', ?_⟩, by rw [herase], rfl⟩
  · rw [keys_fields hR]
    exact hnd₂
  · rw [get_fields hR, lookup_set_self]
    rfl
  · rw [get_fields hR, lookup_set_of_ne _ _ (by decide), lookup_set_self]
    cases previous <;> rfl
  · rw [hhash, herase]

/-- A call that returned wrote the line of a sealed record. -/
theorem Appended.exists_line {remote : Remote F} {payload : PyFields F} {disk disk' : Disk}
    {existing : AuditVerification} {hash : Str} (hnd : (payload.map Prod.fst).Nodup)
    (h : Appended C B P ledger remote payload disk disk' existing hash) :
    ∃ R, (sealedRecord payload existing.headHash hash).fields P = some R ∧
      Line C existing.headHash hash R ∧
      hashedText P (payload.set "previous_hash" (previousValue existing.headHash)) =
        .ok ((Json.obj (R.erase "record_hash").sort).render ⟨false, true⟩) ∧
      (disk.ledger.getD []).length +
        (encodeUtf8 ((Json.obj R.sort).render ⟨true, true⟩ ++ ['\n'])).length ≤
          ledger.maxLedgerBytes ∧
      disk'.ledger = some (disk.ledger.getD [] ++
        encodeUtf8 ((Json.obj R.sort).render ⟨true, true⟩ ++ ['\n'])) := by
  obtain ⟨text, htext, hhash⟩ := h.text
  obtain ⟨line, hline, hbudget, hfile⟩ := h.line
  obtain ⟨R, hR, hR', rfl, rfl⟩ := Audit.exists_line hnd htext hhash hline
  exact ⟨R, hR, hR', htext, hbudget, hfile⟩

end Audit

end Bulldog
