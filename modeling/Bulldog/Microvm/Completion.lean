import Bulldog.Audit.RelayAgreement
import Bulldog.Lib.Json.Size
import Bulldog.Microvm.Channel

/-!
# The completion record

At the end of `run_session` the guest appends what its one execution did to the ledger, over the
relay, and sends it to the host with the verdict on the ledger. The streams of the workload are cut to
4096 characters each, while the ledger's line, the relay's frame and the control frame are bounded in
bytes. `completion_framed_iff` says for which streams all three go through: the escapes of what is
kept of them must leave room in the ledger's line, which is the tightest of the three.
-/

namespace Bulldog.Microvm

open Anchor Audit

variable {F : Type} [PyFloat F]

/-! ## The evidence -/

/-- What `run_session` reads off an `ExecutionResult`, with `asdict` of its two records. -/
structure GuestResult (F : Type) where
  executed : Bool
  returncode : Option ℤ
  decision : Str
  sandboxed : Bool
  malwareScanPerformed : Bool
  sandboxAttestation : Json F
  sandboxSetupMs : Json F
  workloadToReapMs : Json F
  stdout : Str
  stderr : Str
  traceState : Json F

/-- An optional integer. -/
def intJson : Option ℤ → Json F
  | some i => .int i
  | none => .null

/-- `evidence` as it is appended, where nothing remains of the workload. -/
def evidence (C : Crypto) (result : GuestResult F) (session : Str) (dispatchTotalMs : F) : Fields F :=
  [("executed", .bool result.executed), ("returncode", intJson result.returncode),
    ("decision", .str result.decision), ("sandboxed", .bool result.sandboxed),
    ("malware_scan_performed", .bool result.malwareScanPerformed),
    ("sandbox_attestation", result.sandboxAttestation),
    ("sandbox_setup_ms", result.sandboxSetupMs),
    ("workload_to_reap_ms", result.workloadToReapMs),
    ("stdout", .str (result.stdout.take 4096)), ("stderr", .str (result.stderr.take 4096)),
    ("stdout_sha256", .str (hexdigest (C.sha256 (encodeUtf8 result.stdout)))),
    ("trace", result.traceState), ("dispatch_total_ms", .float dispatchTotalMs),
    ("session", .str session), ("remaining_workload_cgroups", .arr []),
    ("remaining_snapshots", .arr [])]

/-- `asdict(audit)` of a valid ledger. -/
def auditJson (audit : AuditVerification) : Json F :=
  .obj [("valid", .bool audit.valid), ("records", .int audit.records), ("error_index", .null),
    ("error", .null), ("head_hash", previousJson audit.headHash)]

/-- `evidence` as it is sent to the host. -/
def resultPayload (evidence : Fields F) (audit : AuditVerification) (auditCompletionMs : F) :
    Fields F :=
  evidence ++ [("audit".toList, auditJson audit),
    ("audit_completion_ms".toList, .float auditCompletionMs)]

/-- The payload of `append_event('guest_completion', evidence)`. -/
def completionPayload (timestamp : Str) (evidence : Fields F) : Fields F :=
  [("record_type", .str "runtime_event"), ("timestamp", .str timestamp),
    ("event_type", .str "guest_completion"), ("data", .obj evidence)]

/-- Its record. -/
def completionRecord (timestamp : Str) (evidence : Fields F) (previous : Option Str) (hash : Str) :
    Fields F :=
  completionPayload timestamp evidence ++
    [("previous_hash".toList, previousJson previous), ("record_hash".toList, .str hash)]

theorem sealRecord_completion {S : Setting F} {timestamp hash : Str} {evidence record : Fields F}
    {previous : Option Str}
    (h : S.sealRecord (completionPayload timestamp evidence) previous = .ok (record, hash)) :
    record = completionRecord timestamp evidence previous hash ∧ isHex64 hash = true := by
  obtain ⟨hash', hcalc, heq⟩ := bind_eq_ok.1 h
  obtain ⟨rfl, rfl⟩ := Prod.mk.inj (Except.ok.inj heq)
  exact ⟨rfl, isHex64_calculateHash hcalc⟩

theorem exists_sealRecord (S : Setting F) (timestamp : Str) {evidence : Fields F}
    (previous : Option Str) (hwritable : (Json.obj evidence).writable true = true) :
    ∃ record hash, S.sealRecord (completionPayload timestamp evidence) previous =
      .ok (record, hash) := by
  have hprevious : (previousJson previous : Json F).writable true = true := by
    cases previous <;> rfl
  have hbody : (Json.obj (completionPayload timestamp evidence ++
      [("previous_hash".toList, previousJson previous)])).writable true = true :=
    Bool.and_eq_true_iff.2 ⟨hwritable, Bool.and_eq_true_iff.2 ⟨hprevious, rfl⟩⟩
  have hhash : calculateHash S.crypto ((completionPayload timestamp evidence).set "previous_hash"
      (previousJson previous)) = .ok _ :=
    calculateHash_eq_ok.2 ⟨_, dumps_eq_some.2 ⟨hbody, rfl⟩, rfl⟩
  exact ⟨_, _, bind_eq_ok.2 ⟨_, hhash, rfl⟩⟩

/-! ## Sizes -/

/-- The text of a value as the ledger writes it. -/
def spacedLength (fs : Fields F) : ℕ := ((Json.obj fs).norm.render ⟨true, true⟩).length

theorem spacedLength_eq (fs : Fields F) (hne : fs ≠ []) : spacedLength fs + 1 =
    1 + (fs.map fun kv => fieldSize ⟨true, true⟩ (kv.1, kv.2.norm)).sum :=
  length_render_norm_obj ⟨true, true⟩ fs hne

/-- The streams add the length of their escapes to the evidence. -/
theorem spacedLength_evidence (C : Crypto) (result : GuestResult F) (session : Str)
    (dispatchTotalMs : F) :
    spacedLength (evidence C result session dispatchTotalMs) =
      spacedLength (evidence C { result with stdout := [], stderr := [] } session dispatchTotalMs) +
        escapedLength (result.stdout.take 4096) + escapedLength (result.stderr.take 4096) := by
  have hhex (b : Bytes) : (renderStr true (hexdigest (C.sha256 b))).length = 66 :=
    length_renderStr_hex (isHex64_hexdigest (C.sha256_length b)) true
  have hfull := spacedLength_eq (evidence C result session dispatchTotalMs)
    (List.cons_ne_nil _ _)
  have hblank := spacedLength_eq
    (evidence C { result with stdout := [], stderr := [] } session dispatchTotalMs)
    (List.cons_ne_nil _ _)
  simp only [evidence, List.map_cons, List.map_nil, List.sum_cons, List.sum_nil, fieldSize, Json.norm,
    Json.render, length_renderStr, hhex, List.take_nil, escapedLength_nil] at hfull hblank ⊢
  omega

/-- A digest of zeros, as long as any. -/
def zeroHash : Str := List.replicate 64 '0'

/-- The line of the record grows with the evidence. -/
theorem spacedLength_completionRecord (timestamp : Str) (e e' : Fields F) (previous : Option Str)
    {hash : Str} (hhash : isHex64 hash = true) :
    spacedLength (completionRecord timestamp e previous hash) + spacedLength e' =
      spacedLength (completionRecord timestamp e' previous zeroHash) + spacedLength e := by
  have h := length_renderStr_hex hhash true
  have h₀ := length_renderStr_hex (t := zeroHash) (by decide) true
  have hrecord := spacedLength_eq (completionRecord timestamp e previous hash)
    (List.cons_ne_nil _ _)
  have hrecord' := spacedLength_eq (completionRecord timestamp e' previous zeroHash)
    (List.cons_ne_nil _ _)
  have hstr (t : Str) : ((Json.str t : Json F).norm.render ⟨true, true⟩).length =
    (renderStr true t).length := rfl
  simp only [completionRecord, completionPayload, List.cons_append, List.nil_append, List.map_cons,
    List.map_nil, List.sum_cons, List.sum_nil, fieldSize, hstr, h, h₀] at hrecord hrecord' ⊢
  simp only [spacedLength] at hrecord hrecord' ⊢
  omega

/-- The text of a value as it goes into a frame. -/
def compactLength (fs : Fields F) : ℕ := ((Json.obj fs).norm.render ⟨false, true⟩).length

theorem compactLength_eq (fs : Fields F) (hne : fs ≠ []) : compactLength fs =
    1 + (fs.map fun kv => fieldSize ⟨false, true⟩ (kv.1, kv.2.norm)).sum :=
  length_render_norm_obj ⟨false, true⟩ fs hne

theorem compactLength_le (fs : Fields F) : compactLength fs ≤ spacedLength fs :=
  length_render_compact true _

theorem length_renderInt_le {n : ℕ} (hn : n < 10 ^ 7) : (renderInt (n : ℤ)).length ≤ 7 := by
  rw [renderInt, if_neg (by omega), Int.natAbs_natCast,
    Nat.length_toDigits_le_iff (by omega) (by omega)]
  exact hn

/-- A previous hash is `null` or a digest. -/
theorem length_previousJson_le {previous : Option Str} (h : ∀ hash ∈ previous, isHex64 hash = true) :
    ((previousJson previous : Json F).norm.render ⟨false, true⟩).length ≤ 66 := by
  rcases previous with _ | hash
  · exact Nat.le_of_ble_eq_true rfl
  · exact (length_renderStr_hex (h hash rfl) true).le

theorem length_auditJson_le {audit : AuditVerification} (hrecords : audit.records < 10 ^ 7)
    (hhead : ∀ hash ∈ audit.headHash, isHex64 hash = true) :
    ((auditJson audit : Json F).norm.render ⟨false, true⟩).length ≤ 200 := by
  have hint := length_renderInt_le hrecords
  have hprevious := length_previousJson_le (F := F) hhead
  have hbool : ((Json.bool audit.valid : Json F).norm.render ⟨false, true⟩).length ≤ 5 := by
    cases audit.valid <;> exact Nat.le_of_ble_eq_true rfl
  have hnull : ((Json.null : Json F).norm.render ⟨false, true⟩).length = 4 := rfl
  have hrendered : ((Json.int audit.records : Json F).norm.render ⟨false, true⟩).length ≤ 7 := hint
  have hkeys : (renderStr true "valid").length = 7 ∧ (renderStr true "records").length = 9 ∧
      (renderStr true "error_index").length = 13 ∧ (renderStr true "error").length = 7 ∧
      (renderStr true "head_hash").length = 11 := by decide
  obtain ⟨h₁, h₂, h₃, h₄, h₅⟩ := hkeys
  have hsize := length_render_norm_obj ⟨false, true⟩ [("valid".toList,
      Json.bool (F := F) audit.valid), ("records".toList, .int audit.records),
    ("error_index".toList, .null), ("error".toList, .null),
    ("head_hash".toList, previousJson audit.headHash)] (List.cons_ne_nil _ _)
  have hpad : (Style.pad ⟨false, true⟩).length = 0 := rfl
  simp only [List.map_cons, List.map_nil, List.sum_cons, List.sum_nil, fieldSize, h₁, h₂, h₃, h₄, h₅,
    hnull, hpad] at hsize
  rw [auditJson]
  omega

/-- The frame of `channel.send('result', evidence)`. -/
theorem length_result_frame {C : Crypto} {channel : SessionChannel} {timestamp hash : Str}
    {e message : Fields F} {previous : Option Str} {audit : AuditVerification} {ms : F}
    (hne : e ≠ []) (hline : spacedLength (completionRecord timestamp e previous hash) ≤ 60 * 1024)
    (hsession : isHex64 channel.session = true) (hsent : channel.sent = 1)
    (hrecords : audit.records < 10 ^ 7) (hhead : ∀ hash ∈ audit.headHash, isHex64 hash = true)
    (hms : (PyFloat.text ms).length ≤ 24)
    (hmessage : authenticate C (control channel.session (channel.sent + 1) "result"
      (resultPayload e audit ms)) channel.key channel.side.purpose = .ok message) :
    compactLength message ≤ maxFrame := by
  obtain ⟨mac, hmac, hset⟩ := bind_eq_ok.1 hmessage
  have hmac : isHex64 mac = true := by
    obtain ⟨body, -, hbody⟩ := bind_eq_ok.1 hmac
    obtain rfl := Except.ok.inj hbody
    exact isHex64_hexdigest (C.hmac_length _ _)
  have hmessage : message = control channel.session (channel.sent + 1) "result"
      (resultPayload e audit ms) ++ [("mac".toList, .str mac)] := (Except.ok.inj hset).symm
  -- the evidence is part of the record's line, and the frame has little beside it
  have hrecord := spacedLength_eq (completionRecord timestamp e previous hash)
    (List.cons_ne_nil _ _)
  simp only [completionRecord, completionPayload, List.cons_append, List.nil_append, List.map_cons,
    List.map_nil, List.sum_cons, List.sum_nil, fieldSize] at hrecord hline
  have hevidence := compactLength_le e
  have hsum := compactLength_eq e hne
  have hpayload := compactLength_eq (resultPayload e audit ms)
    (List.append_ne_nil_of_left_ne_nil hne _)
  have hframe := compactLength_eq (message) (by rw [hmessage]; exact List.cons_ne_nil _ _)
  have hint := length_renderInt_le (n := channel.sent + 1) (by omega)
  have haudit := length_auditJson_le (F := F) hrecords hhead
  have hs := length_renderStr_hex hsession true
  have hm := length_renderStr_hex hmac true
  have hkeys : (renderStr true "version").length = 9 ∧ (renderStr true "session").length = 9 ∧
      (renderStr true "sequence").length = 10 ∧ (renderStr true "kind").length = 6 ∧
      (renderStr true "payload").length = 9 ∧ (renderStr true "mac").length = 5 ∧
      (renderStr true "audit").length = 7 ∧
      (renderStr true "audit_completion_ms").length = 21 ∧
      (renderStr true "result").length = 8 := by decide
  obtain ⟨k₁, k₂, k₃, k₄, k₅, k₆, k₇, k₈, k₉⟩ := hkeys
  have hstr (t : Str) : ((Json.str t : Json F).norm.render ⟨false, true⟩).length =
    (renderStr true t).length := rfl
  have hnum (i : ℤ) : ((Json.int i : Json F).norm.render ⟨false, true⟩).length =
    (renderInt i).length := rfl
  have hfloat : ((Json.float ms : Json F).norm.render ⟨false, true⟩).length =
    (PyFloat.text ms).length := rfl
  have hone : (renderInt 1).length = 1 := by decide
  have hpad : (Style.pad ⟨false, true⟩).length = 0 := rfl
  rw [hmessage] at hframe ⊢
  simp only [control, List.cons_append, List.nil_append, List.map_cons, List.map_nil, List.sum_cons,
    List.sum_nil, fieldSize, hstr, hnum, hpad, hone, hs, hm, k₁, k₂, k₃, k₄, k₅, k₆, k₉] at hframe ⊢
  simp only [resultPayload, List.map_append, List.sum_append, List.map_cons, List.map_nil,
    List.sum_cons, List.sum_nil, fieldSize, hfloat, hpad, k₇, k₈] at hpayload hsum hframe ⊢
  simp only [maxFrame, compactLength, spacedLength] at hevidence hsum hpayload hframe hrecord hline ⊢
  omega

/-! ## Appending -/

/-- What refuses a record that is too long for the transport. -/
def framingRefusal : Exc := auditIntegrityError "audit record exceeds transport framing budget"

section Append

variable {σ : Type} {S : Setting F} {transport : Transport F σ}

/-- `append_event(event_type, data)`. -/
def appendEvent (S : Setting F) (transport : Transport F σ) (timestamp eventType : Str)
    (data : Fields F) : Action σ Exc Str := do
  raiseIf (eventType = []) (Exc.builtin .valueError)
  S.appendPayloadOver transport [("record_type", .str "runtime_event"),
    ("timestamp", .str timestamp), ("event_type", .str eventType), ("data", .obj data)]

theorem writeAnchorOver_ne (sequence : ℕ) (head : Str) (s : σ) :
    (S.writeAnchorOver transport sequence head).wp (fun _ _ => True)
      (fun e _ => e ≠ framingRefusal) s := by
  unfold Setting.writeAnchorOver
  split
  · trivial
  · next key _ =>
    simp only [Action.wp_bind, Action.wp_lift, Action.wp_update]
    refine ⟨fun _ _ => ⟨fun _ _ => trivial, fun e he => ?_⟩, fun e he => ?_⟩
    · unfold jsonFile at he
      split at he
      · cases he
      · obtain rfl := Except.error.inj he
        decide
    · unfold mac at he
      split at he
      · cases he
      · obtain rfl := Except.error.inj he
        decide

theorem writeRemoteAnchorOver_ne (sequence : ℕ) (head : Str) (record : Fields F) (s : σ) :
    (S.writeRemoteAnchorOver transport sequence head record).wp (fun _ _ => True)
      (fun e _ => e ≠ framingRefusal) s := by
  unfold Setting.writeRemoteAnchorOver
  rw [Action.wp_handle]
  exact Action.wp_of_forall (fun _ _ => trivial) fun _ _ => nofun

theorem length_recordLine_encoded (record : Fields F) :
    (encodeUtf8 (recordLine record ++ ['\n'])).length = spacedLength record + 1 := by
  rw [encodeUtf8_append, List.length_append, recordLine,
    length_encodeUtf8_printable (printable_render true _)]
  rfl

/-- An append to a valid ledger is refused by the framing budget exactly when the line of its record
is longer than it. -/
theorem appendPayloadOver_refused_iff (transport : Transport F σ) (s : σ)
    {payload record : Fields F} {hash : Str} {existing : AuditVerification}
    (hverify : S.ledger.verifyUnlocked S.crypto S.builtins (transport.disk s) true true =
      .ok existing) (hvalid : existing.valid = true)
    (hseal : S.sealRecord payload existing.headHash = .ok (record, hash))
    (hwritable : (Json.obj record).writable true = true) :
    (S.appendPayloadOver transport payload s).1 = .error framingRefusal ↔
      60 * 1024 < spacedLength record + 1 := by
  have hline := length_recordLine_encoded record
  by_cases hlong : 60 * 1024 < spacedLength record + 1
  · refine iff_of_true ?_ hlong
    have hwp : (S.appendPayloadOver transport payload).wp (fun _ _ => False)
        (fun e _ => e = framingRefusal) s := by
      unfold Setting.appendPayloadOver
      simp only [Action.wp_bind, Action.wp_read, Action.wp_update]
      refine Action.wp_lift_of_ok hverify (Action.wp_raiseIf_of_not (by simp [hvalid]) ?_)
      refine Action.wp_lift_of_ok hseal (Action.wp_lift_of_ok (jsonFile_eq hwritable) ?_)
      rw [Action.wp_lift, hline, raiseIf, if_pos hlong]
      exact ⟨fun _ h => (by cases h), fun e he => (Except.error.inj he).symm⟩
    unfold Action.wp at hwp
    split at hwp
    · exact hwp.elim
    · next h =>
      rw [h, hwp]
  · refine iff_of_false ?_ hlong
    have hwp : (S.appendPayloadOver transport payload).wp (fun _ _ => True)
        (fun e _ => e ≠ framingRefusal) s := by
      unfold Setting.appendPayloadOver
      simp only [Action.wp_bind, Action.wp_read, Action.wp_update]
      refine Action.wp_lift_of_ok hverify (Action.wp_raiseIf_of_not (by simp [hvalid]) ?_)
      refine Action.wp_lift_of_ok hseal (Action.wp_lift_of_ok (jsonFile_eq hwritable) ?_)
      refine Action.wp_raiseIf_of_not (by rw [hline]; exact hlong) ?_
      rw [Action.wp_lift]
      refine ⟨fun _ _ => ?_, fun e he => ?_⟩
      · refine Action.wp_mono (writeAnchorOver_ne _ _ _) (fun _ s' _ => ?_) fun _ _ => id
        exact Action.wp_mono (writeRemoteAnchorOver_ne _ _ _ s') (fun _ _ _ => trivial) fun _ _ => id
      · unfold raiseIf at he
        split_ifs at he
        obtain rfl := Except.error.inj he
        decide
    unfold Action.wp at hwp
    intro heq
    split at hwp
    · next h => rw [h] at heq; cases heq
    · next h =>
      rw [h] at heq
      exact hwp (Except.error.inj heq)

end Append

/-! ## The three frames -/

section Guest

variable {R : Relay F}

open Relay

/-- The completion record of the guest goes through: the ledger does not refuse it for its length, the
relay frame is within `MAX_FRAME`, and the control channel does not refuse the result for its length
once the ledger is found valid. -/
structure Framed (R : Relay F) (net : RelayNetwork) (channel : SessionChannel) (timestamp : Str)
    (evidence : Fields F) (auditCompletionMs : F) (existing : AuditVerification) (w : RelayWorld) :
    Prop where
  record : (appendEvent R.guest (R.port net) timestamp "guest_completion" evidence w).1 ≠
    .error framingRefusal
  relay : ∀ record hash message frame,
    R.guest.sealRecord (completionPayload timestamp evidence) existing.headHash =
      .ok (record, hash) →
    checkpoint R.crypto R.ledger.identity.session (existing.records + 1) record
      R.ledger.identity.key true = .ok message →
    canonical message = .ok frame → (frame ++ [10]).length ≤ maxFrame
  control : ∀ audit,
    R.guest.ledger.verifyUnlocked R.crypto R.builtins
      (appendEvent R.guest (R.port net) timestamp "guest_completion" evidence w).2.disk true true =
        .ok audit → audit.valid = true →
    channel.prepare R.crypto "result" (.obj (resultPayload evidence audit auditCompletionMs)) ≠
      .error (anchorError "control frame exceeds limit")

/-- The escapes of what is kept of the streams fit into the line of the record, beside the rest. -/
def StreamsFit (C : Crypto) (result : GuestResult F) (session timestamp : Str) (dispatchTotalMs : F)
    (previous : Option Str) : Prop :=
  escapedLength (result.stdout.take 4096) + escapedLength (result.stderr.take 4096) +
    spacedLength (completionRecord timestamp (evidence C { result with stdout := [], stderr := [] }
      session dispatchTotalMs) previous zeroHash) + 1 ≤ 60 * 1024

theorem appendEvent_completion {σ : Type} (S : Setting F) (transport : Transport F σ)
    (timestamp : Str) (e : Fields F) (s : σ) :
    appendEvent S transport timestamp "guest_completion" e s =
      S.appendPayloadOver transport (completionPayload timestamp e) s := rfl

/-- The line of the record is as long as that with empty streams, and their escapes. -/
theorem streamsFit_iff (C : Crypto) (result : GuestResult F) (session timestamp : Str)
    (dispatchTotalMs : F) (previous : Option Str) {hash : Str} (hhash : isHex64 hash = true) :
    StreamsFit C result session timestamp dispatchTotalMs previous ↔
      spacedLength (completionRecord timestamp (evidence C result session dispatchTotalMs) previous
        hash) + 1 ≤ 60 * 1024 := by
  have hrecord := spacedLength_completionRecord timestamp (evidence C result session dispatchTotalMs)
    (evidence C { result with stdout := [], stderr := [] } session dispatchTotalMs) previous hhash
  have hstreams := spacedLength_evidence C result session dispatchTotalMs
  unfold StreamsFit
  omega

/-- The hash of a ledger's last record is a digest. -/
theorem isHex64_lastHash {C : Crypto} {rs : List (Fields F × Str)} (hc : Chained C none rs) :
    ∀ hash ∈ lastHash none rs, isHex64 hash = true := by
  intro hash hhash
  rcases List.eq_nil_or_concat rs with rfl | ⟨init, last, rfl⟩
  · cases hhash
  · rw [List.concat_eq_append] at hhash hc
    rw [lastHash_concat] at hhash
    obtain rfl := Option.some.inj hhash
    obtain ⟨previous, hsealed⟩ := hc.sealed last (by simp)
    exact hsealed.isHex64

/-- A valid ledger of a guest has fewer records than a sequence number may count, and its head is a
digest. -/
theorem Ordered.audit {w : RelayWorld} (h : R.Ordered w) {audit : AuditVerification}
    (hverify : R.guest.ledger.verifyUnlocked R.crypto R.builtins w.disk true true = .ok audit)
    (hvalid : audit.valid = true) :
    audit.records + 1 < 10 ^ 7 ∧ ∀ hash ∈ audit.headHash, isHex64 hash = true := by
  obtain ⟨rs, e, u, c, h⟩ := h
  obtain ⟨hrecords, hhead, -⟩ := h.disk.verify_valid h.acknowledged_le h.length_lt hverify hvalid
  have h₁ := h.behind
  have h₂ := h.submitted
  have h₃ := h.bound
  rw [hrecords, hhead]
  exact ⟨by omega, isHex64_lastHash h.disk.chained⟩

theorem length_canonical {fs : Fields F} {b : Bytes} (h : canonical fs = .ok b) :
    b.length = compactLength fs := by
  obtain ⟨t, ht, rfl⟩ := canonical_eq_ok.1 h
  obtain ⟨-, rfl⟩ := dumps_eq_some.1 ht
  rw [length_encodeUtf8_printable (printable_render false _), compactLength]

theorem canonical_error {fs : Fields F} {e : Exc} (h : canonical fs = .error e) :
    e = .builtin .valueError := by
  unfold canonical at h
  split at h
  · cases h
  · exact (Except.error.inj h).symm

theorem ok_bind {α β : Type} (a : α) (f : α → Except Exc β) : (Except.ok a >>= f) = f a := rfl

/-- What the control channel refuses for its length is longer than a frame. -/
theorem prepare_result {C : Crypto} {channel : SessionChannel} {payload : Fields F}
    (h : ∀ message, authenticate C (control channel.session (channel.sent + 1) "result" payload)
      channel.key channel.side.purpose = .ok message → compactLength message ≤ maxFrame) :
    channel.prepare C "result" (.obj payload) ≠ .error (anchorError "control frame exceeds limit") := by
  have hkind : ¬ ("result".toList = "execute".toList ∧
      (channel.side ≠ .host ∨ channel.executed = true)) := fun hexecute =>
    absurd hexecute.1 (by decide)
  have hknown : ¬ "result".toList ∉ kinds := not_not.2 (by decide)
  unfold SessionChannel.prepare
  rw [raiseIf, if_neg hkind, raiseIf, if_neg hknown]
  simp only [ok_bind]
  rcases hmessage : authenticate C (control channel.session (channel.sent + 1) "result" payload)
    channel.key channel.side.purpose with e | message
  · -- a message that cannot be written is a `ValueError`
    obtain ⟨_, h₀⟩ : ∃ e', canonical ((control channel.session (channel.sent + 1) "result"
        payload).erase "mac") = .error e' := by
      rcases hbody : canonical ((control channel.session (channel.sent + 1) "result"
        payload).erase "mac") with e' | body
      · exact ⟨e', rfl⟩
      · rw [authenticate, macOf, hbody] at hmessage
        cases hmessage
    rw [authenticate, macOf, h₀] at hmessage
    obtain rfl := Except.error.inj hmessage
    rw [canonical_error h₀]
    exact fun herr => by cases herr
  · rcases hencoded : canonical message with e | encoded
    · simp only [ok_bind, hencoded]
      rw [canonical_error hencoded]
      exact fun herr => by cases herr
    · have hle := h message hmessage
      rw [← length_canonical hencoded] at hle
      simp only [ok_bind, hencoded, raiseIf, if_neg (not_lt.2 hle)]
      exact fun herr => by cases herr

/-- The completion record goes through exactly when the escapes of the streams leave room for the
rest of it in the ledger's line. -/
theorem completion_framed_iff (R : Relay F) (ops : List (Op F)) (net : RelayNetwork)
    (channel : SessionChannel) (timestamp : Str) (result : GuestResult F)
    (dispatchTotalMs auditCompletionMs : F) (existing : AuditVerification)
    (hsession : isHex64 channel.session = true) (hsent : channel.sent = 1)
    (hms : (PyFloat.text auditCompletionMs).length ≤ 24)
    (hwf : (Json.obj (evidence R.crypto result channel.session dispatchTotalMs)).WF)
    (hwritable : (Json.obj (evidence R.crypto result channel.session dispatchTotalMs)).writable
      false = true)
    (hverify : R.guest.ledger.verifyUnlocked R.crypto R.builtins (R.run ops).disk true true =
      .ok existing) (hvalid : existing.valid = true) :
    Framed R net channel timestamp (evidence R.crypto result channel.session dispatchTotalMs)
        auditCompletionMs existing (R.run ops) ↔
      StreamsFit R.crypto result channel.session timestamp dispatchTotalMs existing.headHash := by
  generalize hevidence : evidence R.crypto result channel.session dispatchTotalMs = e at hwf hwritable ⊢
  have hordered := R.ordered_run ops
  obtain ⟨hrecords, hhead⟩ := Ordered.audit hordered hverify hvalid
  -- the record is sealed, and its line is what the condition is about
  have hkeys : ["record_type".toList, "timestamp".toList, "event_type".toList,
    "data".toList].Nodup := by decide
  have hpayload : (Json.obj (completionPayload timestamp e)).WF :=
    ⟨hkeys, trivial, trivial, trivial, hwf, trivial⟩
  have hwritable' : (Json.obj (completionPayload timestamp e)).writable false = true :=
    Bool.and_eq_true_iff.2 ⟨hwritable, rfl⟩
  obtain ⟨record, hash, hseal⟩ := exists_sealRecord R.guest timestamp existing.headHash
    (Json.writable_mono hwritable)
  have hsealed := sealRecord_sealed R.guest hpayload hseal
  obtain ⟨rfl, hhash⟩ := sealRecord_completion hseal
  have hrefused : (R.guest.appendPayloadOver (R.port net) (completionPayload timestamp e)
      (R.run ops)).1 = .error framingRefusal ↔ _ :=
    appendPayloadOver_refused_iff (R.port net) (R.run ops) hverify hvalid hseal hsealed.writable
  rw [streamsFit_iff R.crypto result channel.session timestamp dispatchTotalMs existing.headHash hhash,
    hevidence]
  constructor
  · intro hframed
    rw [← not_lt]
    exact fun hlong => hframed.record (hrefused.2 hlong)
  · intro hfits
    refine ⟨fun herr => absurd (hrefused.1 herr) (not_lt.2 hfits), ?_, ?_⟩
    · intro record' hash' message frame hseal' hmessage hframe
      obtain ⟨rfl, rfl⟩ := Prod.mk.inj (Except.ok.inj (hseal.symm.trans hseal'))
      have hform := recordForm_of_sealed hsealed
        (fits_of_sealed hwritable' hseal (by rw [length_recordLine_encoded]; exact hfits)) hrecords
        R.ledger.identity.session_hex
      have hmessage' := hform.checkpoint_eq R.ledger.identity.key
      obtain rfl := Except.ok.inj (hmessage.symm.trans hmessage')
      obtain rfl := Except.ok.inj (hframe.symm.trans (hform.canonical_eq R.ledger.identity.key))
      rw [List.length_append]
      exact hform.length_frame R.ledger.identity.key
    · intro audit haudit hauditvalid
      obtain ⟨hauditrecords, haudithead⟩ := Ordered.audit
        (hordered.append net hpayload hwritable') haudit hauditvalid
      refine prepare_result fun message hmessage => ?_
      exact length_result_frame (by rw [← hevidence]; exact List.cons_ne_nil _ _)
        ((Nat.le_succ _).trans hfits) hsession hsent (by omega) haudithead hms hmessage

end Guest

/-! ## A guest on standard output -/

def sampleSession : Str := List.replicate 64 'a'

def sampleMaster : Bytes := List.replicate 32 0x6b

/-- The identity that a store with the sample master gives the sample session. -/
def sampleIdentity : AnchorIdentity where
  session := sampleSession
  key := Crypto.standard.hmac sampleMaster
    (encodeUtf8 ("bull-anchor-session-v1:".toList ++ sampleSession))
  session_hex := by decide
  key_length := by rw [Crypto.hmac_length]

theorem sampleIdentity_paired :
    sessionKey .standard sampleMaster sampleSession = .ok sampleIdentity.key := by
  rw [sessionKey, if_neg (by decide)]
  rfl

/-- A guest with a ledger of 64 MiB. -/
def sampleRelay : Relay Literal where
  crypto := .standard
  builtins := plainBuiltins
  wide _ _ := none
  ledger := ⟨⟨64 * 1024 * 1024, none⟩, sampleIdentity⟩
  evidence := ⟨sampleMaster, 64 * 1024 * 1024, by decide⟩
  upstream := sampleIdentity
  collector := ⟨sampleMaster, 64 * 1024 * 1024, by decide⟩
  session_eq := rfl
  paired := sampleIdentity_paired
  upstream_paired := sampleIdentity_paired

/-- An execution with these streams. -/
def sampleResult (stdout stderr : Str) : GuestResult Literal where
  executed := true
  returncode := some 0
  decision := "ALLOW"
  sandboxed := true
  malwareScanPerformed := true
  sandboxAttestation := .null
  sandboxSetupMs := .null
  workloadToReapMs := .null
  stdout := stdout
  stderr := stderr
  traceState := .null

/-- The float `1.5`. -/
def sampleMs : Literal := .finite "1.5" (by decide)

def sampleEvidence (stdout stderr : Str) : Fields Literal :=
  evidence .standard (sampleResult stdout stderr) sampleSession sampleMs

/-- A network that delivers. -/
def sampleNetwork : RelayNetwork := ⟨.delivered, 0, ⟨.delivered, 0⟩⟩

theorem sample_verified : sampleRelay.guest.ledger.verifyUnlocked sampleRelay.crypto
    sampleRelay.builtins (sampleRelay.run []).disk true true = .ok ⟨true, 0, none, none, none⟩ := by
  decide +kernel

theorem sampleEvidence_wf (stdout stderr : Str) : (Json.obj (sampleEvidence stdout stderr)).WF := by
  have hkeys : ((sampleEvidence stdout stderr).map Prod.fst).Nodup := by
    simp only [sampleEvidence, evidence, List.map_cons, List.map_nil]
    decide
  refine ⟨hkeys, trivial, trivial, trivial, trivial, trivial, trivial, trivial, trivial, trivial, trivial,
    trivial, trivial, trivial, trivial, trivial, trivial, trivial⟩

theorem sampleEvidence_writable (stdout stderr : Str) :
    (Json.obj (sampleEvidence stdout stderr)).writable false = true := by
  have hcode : (intJson (some 0) : Json Literal).writable false = true := by decide
  have hms : PyFloat.finite sampleMs = true := rfl
  simp only [sampleEvidence, evidence, sampleResult, Json.writable, writableFields, writableItems,
    hcode, hms, Bool.and_true, Bool.or_true]

/-- Streams of printable text go through. -/
theorem hello_framed : ∃ channel : SessionChannel, Framed sampleRelay sampleNetwork channel "t"
    (sampleEvidence "hello" "") sampleMs ⟨true, 0, none, none, none⟩ (sampleRelay.run []) := by
  refine ⟨⟨sampleSession, sampleMaster, .guest, 1, 1, false, true⟩, ?_⟩
  refine (completion_framed_iff sampleRelay [] sampleNetwork
    ⟨sampleSession, sampleMaster, .guest, 1, 1, false, true⟩ "t" (sampleResult "hello" "") sampleMs
    sampleMs _ (by decide) rfl (by decide) (sampleEvidence_wf _ _) (sampleEvidence_writable _ _)
    sample_verified rfl).2 ?_
  unfold StreamsFit
  decide +kernel

/-- Two streams of 4096 characters above the Basic Multilingual Plane are refused, with little beside
them. -/
theorem emoji_refused :
    sampleRelay.guest.ledger.verifyUnlocked sampleRelay.crypto sampleRelay.builtins
      (sampleRelay.run []).disk true true = .ok ⟨true, 0, none, none, none⟩ ∧
    spacedLength (sampleEvidence [] []) ≤ 8192 ∧
    (appendEvent sampleRelay.guest (sampleRelay.port sampleNetwork) "t" "guest_completion"
      (sampleEvidence (List.replicate 4096 '😀') (List.replicate 4096 '😀')) (sampleRelay.run [])).1 =
      .error framingRefusal := by
  refine ⟨sample_verified, by decide +kernel, ?_⟩
  have hwritable := Json.writable_mono
    (sampleEvidence_writable (List.replicate 4096 '😀') (List.replicate 4096 '😀'))
  obtain ⟨record, hash, hseal⟩ := exists_sealRecord sampleRelay.guest "t" none hwritable
  have hkeys : ["record_type".toList, "timestamp".toList, "event_type".toList,
    "data".toList].Nodup := by decide
  have hwf : (Json.obj (completionPayload "t" (sampleEvidence (List.replicate 4096 '😀')
      (List.replicate 4096 '😀')))).WF :=
    ⟨hkeys, trivial, trivial, trivial, sampleEvidence_wf _ _, trivial⟩
  have hsealed := sealRecord_sealed sampleRelay.guest hwf hseal
  obtain ⟨rfl, hhash⟩ := sealRecord_completion hseal
  rw [appendEvent_completion, appendPayloadOver_refused_iff _ _ sample_verified rfl hseal hsealed.writable,
    ← not_le]
  intro hfits
  have hstreams : StreamsFit .standard
      (sampleResult (List.replicate 4096 '😀') (List.replicate 4096 '😀')) sampleSession "t" sampleMs
      none := (streamsFit_iff _ _ _ _ _ _ hhash).2 hfits
  have hescapes : (escapeChar true '😀').length = 12 := by decide
  have htake : (List.replicate 4096 '😀').take 4096 = List.replicate 4096 '😀' :=
    List.take_of_length_le (List.length_replicate ..).le
  unfold StreamsFit at hstreams
  simp only [sampleResult, htake, escapedLength_replicate, hescapes] at hstreams
  omega

end Bulldog.Microvm
