import Bulldog.Audit.Integrity
import Bulldog.Audit.RelayAgreement
import Bulldog.Microvm.Completion

/-!
# Acknowledgements that come late

The port between a guest and its relay is a stream. A `submit` that gives up before its
acknowledgement arrives leaves it there, and the next one reads it as its own. An acknowledgement
names a sequence and a head but not the submission that it answers: the late one of an append passes
for that of the recovery, and the recovery's own is then read by the next append, which refuses it.
-/

namespace Bulldog.Audit

open Anchor

variable {F : Type} [PyFloat F]

/-! ## The stream -/

/-- The guest, the relay and the collector, with what the guest has not read of the port. -/
structure StreamWorld extends RelayWorld where
  stream : Bytes
  /-- How many frames the relay did not answer. The code does not keep this. -/
  silent : ℕ

namespace Relay

variable (R : Relay F)

/-- The relay gets a frame. It answers nothing where `handle` raises. -/
def answerFrame (net : RelayNetwork) (frame : Bytes) : Action StreamWorld Exc Unit := fun w =>
  match R.handle net frame w.toRelayWorld with
  | (.ok answer, w') => (.ok (), ⟨w', w.stream ++ answer, w.silent⟩)
  | (.error _, w') => (.ok (), ⟨w', w.stream, w.silent + 1⟩)

/-- The loop of `submit` that reads a line, byte by byte. What it read is gone where it raises. -/
def readAck : Action StreamWorld Exc Bytes := fun w =>
  let raw := w.stream.takeWhile (· ≠ 10)
  if maxFrame < raw.length then
    (.error (anchorError "relay acknowledgement exceeds size limit"),
      { w with stream := w.stream.drop (maxFrame + 1) })
  else if raw.length = w.stream.length then
    (.error (anchorError "relay acknowledgement timeout"), { w with stream := [] })
  else (.ok raw, { w with stream := w.stream.drop (raw.length + 1) })

/-- What `submit` does with a line. -/
def takeAck (sequence : ℕ) (record : Fields F) : Action StreamWorld Exc (Fields F) := do
  let raw ← readAck
  let ack ← decode R.wide raw
  let head ← orRaise ((record.get "record_hash").bind strOf) (Exc.builtin .keyError)
  R.ledger.identity.checkAck R.crypto ack sequence head
  return ack

/-- `RelayAnchorTransport.submit(sequence, record)` on a port that loses nothing. Where it is `late`,
the deadline passes after the frame is written and before a line is read. -/
def submitStream (net : RelayNetwork) (late : Bool) (sequence : ℕ) (record : Fields F) :
    Action StreamWorld Exc (Fields F) := do
  let message ← checkpoint R.crypto R.ledger.identity.session sequence record
    R.ledger.identity.key true
  let encoded ← canonical message
  raiseIf ((encoded ++ [10]).length > maxFrame) (anchorError "audit record exceeds framing limit")
  R.answerFrame net encoded
  .onlyIf (late = true) (.raise (anchorError "relay acknowledgement timeout"))
  R.takeAck sequence record

/-- The guest's transport. -/
def streamPort (net : RelayNetwork) (late : Bool) : Transport F StreamWorld where
  disk w := w.disk
  setDisk disk w := { w with disk }
  submit := R.submitStream net late

/-- A call of the guest, and whether its `submit` gives up before anything arrives. -/
inductive StreamOp (F : Type) [PyFloat F] where
  | append (payload : { payload : Fields F // (Json.obj payload).WF ∧
      (Json.obj payload).writable false = true }) (net : RelayNetwork) (late : Bool)
  | reconcile (net : RelayNetwork) (late : Bool)

/-- The call gave up on an acknowledgement. -/
def StreamOp.late : StreamOp F → Bool
  | .append _ _ late | .reconcile _ late => late

/-- The state after a call. -/
def streamStep (w : StreamWorld) : StreamOp F → StreamWorld
  | .append payload net late => (R.guest.appendPayloadOver (R.streamPort net late) payload.1 w).2
  | .reconcile net late => (R.guest.reconcileRemoteOver (R.streamPort net late) w).2

/-- The state after a run from empty stores and an empty port. -/
def streamRun (ops : List (StreamOp F)) : StreamWorld := ops.foldl R.streamStep ⟨blank, [], 0⟩

/-- The ledger can write this payload: the local checks of `_append_payload`, apart from the validity
of the ledger. -/
def Writable (w : StreamWorld) (payload : Fields F) : Prop :=
  ∃ existing record hash encoded,
    R.ledger.verifyUnlocked R.crypto R.builtins w.disk true true = .ok existing ∧
    R.guest.sealRecord payload existing.headHash = .ok (record, hash) ∧
    jsonFile record = .ok encoded ∧ encoded.length ≤ 60 * 1024 ∧
    (w.disk.ledger.getD []).length + encoded.length ≤ R.ledger.maxLedgerBytes

/-- The call comes as far as its `submit`. -/
def Submits (w : StreamWorld) : StreamOp F → Prop
  | .append payload _ _ => R.Writable w payload.1
  | .reconcile _ _ => w.disk.ledger ≠ none

variable {R} {rs : List (Fields F × Str)} {x : Fields F × Str} {e u c i : ℕ} {w : StreamWorld}
  {net : RelayNetwork}

/-! ## One submission -/

/-- The line that acknowledges a head. -/
def ackLine (R : Relay F) (sequence : ℕ) (head : Str) : Bytes :=
  ackFrame F R.crypto R.ledger.identity.session sequence head R.ledger.identity.key ++ [10]

/-- What is at the front of the port is read, and what comes after it stays. -/
theorem readAck_line {raw rest : Bytes} (hraw : (10 : UInt8) ∉ raw) (hlen : raw.length ≤ maxFrame)
    (hstream : w.stream = raw ++ [10] ++ rest) :
    readAck w = (.ok raw, { w with stream := rest }) := by
  have htake : w.stream.takeWhile (fun b : UInt8 => decide (b ≠ 10)) = raw := by
    rw [hstream, List.append_assoc, List.takeWhile_append_of_pos]
    · simp
    · intro b hb
      simp only [ne_eq, decide_not, Bool.not_eq_true', decide_eq_false_iff_not]
      rintro rfl
      exact hraw hb
  have hshort : raw.length ≠ w.stream.length := by
    rw [hstream, List.length_append, List.length_append, List.length_singleton]
    omega
  have hdrop : w.stream.drop (raw.length + 1) = rest := by
    have hlength : raw.length + 1 = (raw ++ [10]).length := by simp
    rw [hstream, hlength, List.drop_left]
  unfold readAck
  simp only [htake, if_neg (not_lt.2 hlen), if_neg hshort, hdrop]

/-- An acknowledgement at the front of the port passes for the submission that it names, and for no
other. -/
theorem takeAck_line {q : ℕ} {h head : Str} {record : Fields F} {sequence : ℕ} {rest : Bytes}
    (hq : q < 10 ^ 7) (hh : isHex64 h = true)
    (hhead : (record.get "record_hash").bind strOf = some head)
    (hstream : w.stream = ackLine R q h ++ rest) :
    ∃ result, R.takeAck sequence record w = (result, { w with stream := rest }) ∧
      (q = sequence ∧ h = head →
        result = .ok (ackMessage R.crypto R.ledger.identity.session q h R.ledger.identity.key :
          Fields F).norm) ∧
      (¬ (q = sequence ∧ h = head) → ∃ e, result = .error e) := by
  have hlen := length_ackFrame (F := F) R.crypto R.ledger.identity.key hq
    R.ledger.identity.session_hex hh
  have hread : readAck w = (.ok (ackFrame F R.crypto R.ledger.identity.session q h
      R.ledger.identity.key), { w with stream := rest }) :=
    readAck_line (not_mem_encodeUtf8 (printable_render false _)) hlen hstream
  have hdecode := decode_canonical R.wide (wf_ackMessage R.crypto R.ledger.identity.session q h
    R.ledger.identity.key) (canonical_ackMessage (F := F) _ _ _ _ hq) hlen
  have hresult : R.takeAck sequence record w =
      ((R.ledger.identity.checkAck R.crypto (ackMessage R.crypto R.ledger.identity.session q h
          R.ledger.identity.key : Fields F).norm sequence head).map fun _ =>
        (ackMessage R.crypto R.ledger.identity.session q h R.ledger.identity.key : Fields F).norm,
        { w with stream := rest }) := by
    simp only [takeAck, Action.bind_apply, Action.lift_apply, Action.pure_apply, hread, hdecode,
      hhead, orRaise]
    rcases R.ledger.identity.checkAck R.crypto (ackMessage R.crypto R.ledger.identity.session q h
      R.ledger.identity.key : Fields F).norm sequence head with _ | _ <;> rfl
  refine ⟨_, hresult, ?_, fun hother => ?_⟩
  · rintro ⟨rfl, rfl⟩
    have hcheck : R.ledger.identity.checkAck R.crypto (ackMessage R.crypto R.ledger.identity.session q
        h R.ledger.identity.key : Fields F).norm q h = .ok () := R.guest.checkAck_ackMessage h hq
    rw [hcheck]
    rfl
  · rcases hcheck : R.ledger.identity.checkAck R.crypto (ackMessage R.crypto
      R.ledger.identity.session q h R.ledger.identity.key : Fields F).norm sequence head with exc | _
    · exact ⟨exc, rfl⟩
    · exact absurd (R.guest.eq_of_checkAck hcheck) hother

/-- What a frame of the last record does to the three parties and to the port. -/
theorem Inv.answerFrame (h : R.Inv rs e u c w.toRelayWorld) (hx : rs[i]? = some x)
    {sub : Submission} (hsub : (R.submissions 1 none rs)[i]? = some sub) (net : RelayNetwork) :
    ∃ e' u' w', R.answerFrame net sub.frame w = (.ok (), w') ∧ R.Inv rs e' u' c w'.toRelayWorld ∧
      w'.disk = w.disk ∧
      (w'.silent = w.silent + 1 ∧ w'.stream = w.stream ∨
        w'.silent = w.silent ∧ e' = i + 1 ∧ u' = i + 1 ∧
          w'.stream = w.stream ++ ackLine R (i + 1) x.2) ∧
      (rs.length = i + 1 → rs.length ≤ 1000000 →
        net.evidenceBytes + maxFrame + 16384 ≤ R.evidence.maxBytes →
        net.upstream.fate = .delivered →
        net.upstream.pageBytes + maxFrame + 16384 ≤ R.collector.maxBytes →
        w'.silent = w.silent) := by
  obtain ⟨e', u', result, w', hhandle, hinv, hdisk, hanswer, hlive⟩ := h.handle hx hsub net
  unfold Relay.answerFrame
  rw [hhandle]
  rcases result with exc | answer
  · refine ⟨e', u', _, rfl, hinv, hdisk, .inl ⟨rfl, rfl⟩, fun hlen hmax hb₁ hfate hb₂ => ?_⟩
    obtain ⟨answer, ha⟩ := hlive hlen hmax hb₁ hfate hb₂
    cases ha
  · obtain ⟨he, hu, rfl⟩ := hanswer answer rfl
    exact ⟨e', u', _, rfl, hinv, hdisk, .inr ⟨rfl, he, hu, rfl⟩, fun _ _ _ _ _ => rfl⟩

/-- A submission of the last record: its frame, and what is then read of the port. -/
theorem submitStream_apply (h : R.Inv rs e u c w.toRelayWorld) (hx : rs[i]? = some x)
    {record : Fields F} (hrecord : record = x.1 ∨ record = x.1.norm) (net : RelayNetwork)
    (late : Bool) : ∃ sub, (R.submissions 1 none rs)[i]? = some sub ∧
      (record.get "record_hash").bind strOf = some x.2 ∧
      R.submitStream net late (i + 1) record w = (do
        R.answerFrame net sub.frame
        .onlyIf (late = true) (.raise (anchorError "relay acknowledgement timeout"))
        R.takeAck (i + 1) record : Action StreamWorld Exc (Fields F)) w := by
  obtain ⟨previous, hform, hat⟩ := submission_at h.disk.chained h.fits h.length_lt hx
  obtain ⟨message, hmessage, hcanonical, hhead⟩ : ∃ message,
      checkpoint R.crypto R.ledger.identity.session (i + 1) record R.ledger.identity.key true =
        .ok message ∧
      canonical message = .ok (recordSubmission R.crypto R.ledger.identity.session (i + 1) x.2
        previous x.1 R.ledger.identity.key).frame ∧
      (record.get "record_hash").bind strOf = some x.2 := by
    rcases hrecord with rfl | rfl
    · exact ⟨_, hform.checkpoint_eq _, hform.canonical_eq _, by rw [hform.hash_eq]; rfl⟩
    · refine ⟨_, hform.norm.checkpoint_eq _, ?_, by rw [hform.norm.hash_eq]; rfl⟩
      rw [hform.norm.canonical_eq, frame_norm]
  have hlen := hform.length_frame R.ledger.identity.key
  refine ⟨_, hat, hhead, ?_⟩
  unfold submitStream
  rw [Action.bind_apply, Action.lift_apply, hmessage]
  dsimp only
  rw [Action.bind_apply, Action.lift_apply, hcanonical]
  dsimp only
  rw [Action.bind_apply, Action.lift_apply, raiseIf, List.length_append, List.length_singleton,
    if_neg (not_lt.2 hlen)]

/-- A delivery that gives up: the acknowledgement stays on the port. -/
theorem Inv.deliver_late (h : R.Inv rs e u c w.toRelayWorld) (hx : rs[i]? = some x)
    {record : Fields F} (hrecord : record = x.1 ∨ record = x.1.norm) (net : RelayNetwork) :
    ∃ exc e' u' w', R.guest.writeRemoteAnchorOver (R.streamPort net true) (i + 1) x.2 record w =
        (.error exc, w') ∧ R.Inv rs e' u' c w'.toRelayWorld ∧ w'.disk = w.disk ∧
      (w'.silent = w.silent → w'.stream = w.stream ++ ackLine R (i + 1) x.2) ∧
      (rs.length = i + 1 → rs.length ≤ 1000000 →
        net.evidenceBytes + maxFrame + 16384 ≤ R.evidence.maxBytes →
        net.upstream.fate = .delivered →
        net.upstream.pageBytes + maxFrame + 16384 ≤ R.collector.maxBytes →
        w'.silent = w.silent) := by
  obtain ⟨sub, hsub, hhead, hsubmit⟩ := R.submitStream_apply h hx hrecord net true
  obtain ⟨e', u', w', hanswer, hinv, hdisk, hport, hlive⟩ := h.answerFrame hx hsub net
  have hraise : (R.streamPort net true).submit (i + 1) record w =
      (.error (anchorError "relay acknowledgement timeout"), w') := by
    change R.submitStream net true (i + 1) record w = _
    rw [hsubmit, Action.bind_apply, hanswer]
    rfl
  refine ⟨.wrapped .auditIntegrityError "remote audit anchor delivery failed: "
    (anchorError "relay acknowledgement timeout"), e', u', w', ?_, hinv, hdisk, fun hsilent => ?_,
    hlive⟩
  · simp only [Setting.writeRemoteAnchorOver, Action.handle, Action.bind_apply, hraise, Action.raise]
  · rcases hport with ⟨hmore, -⟩ | ⟨-, -, -, hstream⟩
    · omega
    · exact hstream

/-- Reading an acknowledgement does not count as a silent relay. -/
theorem takeAck_silent (sequence : ℕ) (record : Fields F) (v : StreamWorld) :
    (R.takeAck sequence record).wp (fun _ v' => v'.silent = v.silent)
      (fun _ v' => v'.silent = v.silent) v := by
  have hread : readAck.wp (fun _ v' => v'.silent = v.silent)
      (fun _ v' => v'.silent = v.silent) v := by
    refine Action.wp_state (P := fun v' : StreamWorld => v'.silent = v.silent) |>.2 ?_
    unfold readAck
    dsimp only
    split_ifs <;> rfl
  unfold takeAck
  rw [Action.wp_bind]
  refine Action.wp_mono hread (fun raw v' hv => ?_) fun _ _ hv => hv
  simp only [Action.wp_bind, Action.wp_lift, Action.wp_pure, hv, implies_true, and_self]

/-- What follows the reading of an acknowledgement leaves the count of silences alone. -/
theorem silent_of_submit {sequence : ℕ} {head : Str} {record : Fields F} {net : RelayNetwork} {late : Bool}
    {w₁ w' : StreamWorld} {result : Except Exc Unit}
    (hsubmit : (R.streamPort net late).submit sequence record w = R.takeAck sequence record w₁)
    (hresult : R.guest.writeRemoteAnchorOver (R.streamPort net late) sequence head record w =
      (result, w')) : w'.silent = w₁.silent := by
  have hmove : ∀ (Q : Fields F → StreamWorld → Prop) (E : Exc → StreamWorld → Prop),
      (R.takeAck sequence record).wp Q E w₁ →
      ((R.streamPort net late).submit sequence record).wp Q E w := by
    intro Q E hwp
    unfold Action.wp
    rw [hsubmit]
    exact hwp
  have hquiet : (R.guest.writeRemoteAnchorOver (R.streamPort net late) sequence head record).wp
      (fun _ w' => w'.silent = w₁.silent) (fun _ w' => w'.silent = w₁.silent) w := by
    simp only [Setting.writeRemoteAnchorOver, Action.wp_handle, Action.wp_bind, Action.wp_raise]
    refine hmove _ _ (Action.wp_mono (R.takeAck_silent sequence record w₁) (fun ack w' hw => ?_)
      fun _ _ hw => hw)
    simp only [Action.wp_lift, Action.wp_update]
    exact ⟨fun _ _ => ⟨fun _ _ => hw, fun _ _ => hw⟩, fun _ _ => hw⟩
  unfold Action.wp at hquiet
  rw [hresult] at hquiet
  cases result <;> exact hquiet

/-- A delivery that waits: it reads what is at the front of the port, its own acknowledgement or an
older one. -/
theorem Inv.deliver_prompt (h : R.Inv rs e u c w.toRelayWorld) (hi : rs.length = i + 1)
    (hx : rs[i]? = some x) {record : Fields F} (hrecord : record = x.1 ∨ record = x.1.norm)
    (net : RelayNetwork) {q : ℕ} {head : Str} {rest : Bytes} (hq : q < 10 ^ 7)
    (hhex : isHex64 head = true)
    (hfront : w.stream ++ ackLine R (i + 1) x.2 = ackLine R q head ++ rest) :
    ∃ result w', R.guest.writeRemoteAnchorOver (R.streamPort net false) (i + 1) x.2 record w =
        (result, w') ∧
      (w'.silent = w.silent → w'.stream = rest ∧ w'.disk.anchor = w.disk.anchor ∧
        (q = i + 1 ∧ head = x.2 → result = .ok () ∧
          R.Inv rs rs.length rs.length rs.length w'.toRelayWorld) ∧
        (¬ (q = i + 1 ∧ head = x.2) → (∃ exc, result = .error exc) ∧
          R.Inv rs rs.length rs.length c w'.toRelayWorld)) ∧
      (rs.length ≤ 1000000 → net.evidenceBytes + maxFrame + 16384 ≤ R.evidence.maxBytes →
        net.upstream.fate = .delivered →
        net.upstream.pageBytes + maxFrame + 16384 ≤ R.collector.maxBytes →
        w'.silent = w.silent) := by
  obtain ⟨sub, hsub, hhead, hsubmit⟩ := R.submitStream_apply h hx hrecord net false
  obtain ⟨e', u', w₁, hanswer, hinv, hdisk, hport, hlive⟩ := h.answerFrame hx hsub net
  have htake : (R.streamPort net false).submit (i + 1) record w =
      R.takeAck (i + 1) record w₁ := by
    change R.submitStream net false (i + 1) record w = _
    rw [hsubmit, Action.bind_apply, hanswer]
    rfl
  rcases hresult : R.guest.writeRemoteAnchorOver (R.streamPort net false) (i + 1) x.2 record w with
    ⟨result, w'⟩
  have hsilent := silent_of_submit htake hresult
  refine ⟨result, w', rfl, fun hsame => ?_, fun hmax hb₁ hfate hb₂ =>
    hsilent.trans (hlive hi hmax hb₁ hfate hb₂)⟩
  rcases hport with ⟨hmore, -⟩ | ⟨-, rfl, rfl, hstream⟩
  · omega
  rw [hfront] at hstream
  obtain ⟨taken, htaken, hown, hother⟩ := takeAck_line hq hhex hhead hstream
  rw [htaken] at htake
  simp only [Setting.writeRemoteAnchorOver, Action.handle, Action.bind_apply, htake] at hresult
  by_cases hmine : q = i + 1 ∧ head = x.2
  · obtain rfl := hown hmine
    obtain ⟨rfl, rfl⟩ := hmine
    have hfile : jsonFile (ackMessage R.crypto R.ledger.identity.session (i + 1) x.2
        R.ledger.identity.key : Fields F).norm = .ok (encodeUtf8 (recordLine (ackMessage (F := F)
          R.crypto R.ledger.identity.session (i + 1) x.2 R.ledger.identity.key) ++ ['\n'])) := by
      rw [jsonFile, ← Json.norm_obj, dumps_norm]
      exact jsonFile_eq (Json.writable_mono (writable_ackMessage _ _ _ _ hq))
    have hcheck : R.guest.ledger.identity.checkAck R.guest.crypto (ackMessage R.crypto
        R.ledger.identity.session (i + 1) x.2 R.ledger.identity.key : Fields F).norm (i + 1) x.2 =
        .ok () := R.guest.checkAck_ackMessage x.2 hq
    simp only [Action.lift_apply, Action.update, hcheck, hfile] at hresult
    obtain ⟨rfl, rfl⟩ := Prod.mk.inj hresult
    have hanchor : w₁.disk.anchor = w.disk.anchor := by rw [hdisk]
    refine ⟨rfl, hanchor, fun _ => ⟨rfl, ?_⟩, fun hne => absurd ⟨rfl, rfl⟩ hne⟩
    refine ⟨⟨hinv.disk.chained, hinv.disk.ledger, hinv.disk.head, hinv.disk.size, ?_⟩, hinv.fits,
      ?_, ?_, le_rfl, le_rfl, le_rfl, by omega, ?_⟩
    · rw [hi, Setting.remoteFile, hx]
      rfl
    · rw [hi]
      exact hinv.evidence
    · rw [hi]
      exact hinv.rows
    · rw [hi]
      exact hinv.bound
  · obtain ⟨exc, rfl⟩ := hother hmine
    simp only [Action.raise] at hresult
    obtain ⟨rfl, rfl⟩ := Prod.mk.inj hresult
    have hanchor : w₁.disk.anchor = w.disk.anchor := by rw [hdisk]
    exact ⟨rfl, hanchor, fun hyes => absurd hyes hmine, fun _ => ⟨⟨_, rfl⟩, hi ▸ hinv⟩⟩

/-! ## Between the calls -/

/-- `_write_anchor` has a key where it has a path. -/
def AnchorUsable (R : Relay F) : Prop :=
  ∀ key ∈ R.ledger.anchorKey, ∃ k : Bytes, key = some k ∧ k ≠ []

/-- The local anchor, where there is one, names the last record. -/
def Anchored (R : Relay F) (rs : List (Fields F × Str)) (disk : Disk) : Prop :=
  ∃ a, R.ledger.readAnchor R.crypto R.builtins disk = .ok a ∧
    ∀ x ∈ a, x.1 = (rs.length : ℤ) ∧ x.2 = (lastHash none rs).getD []

/-- The three parties and the local anchor have the same records. -/
structure Settled (R : Relay F) (rs : List (Fields F × Str)) (w : StreamWorld) : Prop where
  inv : R.Inv rs rs.length rs.length rs.length w.toRelayWorld
  anchored : R.Anchored rs w.disk

theorem Anchored.congr {disk disk' : Disk} (h : R.Anchored rs disk)
    (hdisk : disk'.anchor = disk.anchor) : R.Anchored rs disk' := by
  have hread : R.ledger.readAnchor R.crypto R.builtins disk' =
      R.ledger.readAnchor R.crypto R.builtins disk := by
    unfold LedgerOptions.readAnchor
    rw [hdisk]
  unfold Anchored
  rw [hread]
  exact h

theorem settled_blank (R : Relay F) : R.Settled [] ⟨blank, [], 0⟩ := by
  refine ⟨R.inv_blank, none, ?_, nofun⟩
  unfold LedgerOptions.readAnchor
  rcases R.ledger.anchorKey with _ | key <;> rfl

/-- The ledger verifies, with its anchors. -/
theorem Settled.verify (h : R.Settled rs w) :
    R.ledger.verifyUnlocked R.crypto R.builtins w.disk true true =
      .ok ⟨true, rs.length, none, none, lastHash none rs⟩ := by
  have hdisk := h.inv.disk
  by_cases hrs : rs = []
  · subst hrs
    have hledger : w.disk.ledger = none := hdisk.ledger
    have hhead : w.disk.head = none := hdisk.head
    have hremote : w.disk.remote = none := hdisk.remote
    unfold AuditLedger.verifyUnlocked LedgerOptions.verifyWith AuditLedger.verifyRemoteCheckpoint
    rw [hledger]
    simp [Disk.headText, hhead, hremote, bind, Except.bind, pure, Except.pure, lastHash]
  · obtain ⟨i, x, hi, hlast, hx⟩ := Setting.exists_last hrs
    have hhash : lastHash none rs = some x.2 := by
      rw [lastHash, hlast]
      rfl
    obtain ⟨previous, hsealed⟩ := hdisk.chained.sealed x (List.mem_of_getElem? hx)
    have hhead : w.disk.headText true = .ok (some x.2) := by
      refine headText_digest hsealed.isHex64 ?_
      rw [hdisk.head, hlast]
      rfl
    have hlt : i + 1 < 10 ^ 7 := hi ▸ h.inv.length_lt
    have hfile : w.disk.remote = some (encodeUtf8 (recordLine (ackMessage (F := F) R.crypto
        R.ledger.identity.session (i + 1) x.2 R.ledger.identity.key) ++ ['\n'])) := by
      rw [hdisk.remote, hi, Setting.remoteFile, hx]
      rfl
    have hcheck : R.ledger.checkRemote R.crypto F w.disk rs.length (some x.2) = .ok () := by
      unfold AuditLedger.checkRemote
      simp only [hfile, orRaise, readText_jsonFile, bind, Except.bind, loads_jsonFile
        (wf_ackMessage _ _ _ _ _) (Json.writable_mono (writable_ackMessage _ _ _ _ hlt))]
      rw [hi]
      exact R.guest.checkAck_ackMessage x.2 hlt
    unfold AuditLedger.verifyUnlocked LedgerOptions.verifyWith
    rw [hdisk.ledger]
    have hsize : ¬ (encodeUtf8 (ledgerText rs)).length > R.ledger.maxLedgerBytes :=
      not_lt.2 hdisk.size
    have hlines : verifyLines R.crypto F none 0 0 (rs.map fun x => recordLine x.1) =
        .ok (.inr (lastHash none rs, 0 + rs.length)) := verifyLines_chained hdisk.chained 0 0
    simp only [if_neg hrs, if_neg hsize, decodeUtf8_encodeUtf8, orRaise, lines_ledgerText, hlines,
      bind, Except.bind, Nat.zero_add]
    refine (verifyCheckpoints_valid.2 ⟨rfl, ⟨_, hhead, ?_⟩, fun _ => h.anchored, fun _ => ?_⟩).1
    · rintro t ⟨⟩
      rw [hhash]
      rfl
    · unfold AuditLedger.verifyRemoteCheckpoint
      rw [if_neg fun hz => hrs (List.length_eq_zero_iff.1 hz.1), hhash, hcheck]

theorem anchorFile_ok (hkey : R.AnchorUsable) {n : ℕ} (hn : n < 10 ^ 7) (head : Str) :
    ∃ anchor, R.ledger.anchorFile R.crypto F n head = .ok anchor := by
  unfold LedgerOptions.anchorFile
  rcases hoption : R.ledger.anchorKey with _ | key
  · exact ⟨none, rfl⟩
  · obtain ⟨k, rfl, hne⟩ := hkey key hoption
    obtain ⟨b, k, rfl⟩ := List.exists_cons_of_ne_nil hne
    have hwritable : (Json.obj (F := F) [("sequence", .int n), ("head_hash", .str head),
        ("mac", .str (hexdigest (R.crypto.hmac (b :: k) (encodeUtf8 (renderInt n ++ ':' :: head)))))]
        ).writable true = true :=
      Bool.and_eq_true_iff.2 ⟨Json.writable_mono (writable_sequence hn), rfl⟩
    exact ⟨_, bind_eq_ok.2 ⟨_, rfl, bind_eq_ok.2 ⟨_, jsonFile_eq hwritable, rfl⟩⟩⟩

/-- `_write_anchor` leaves a local anchor that names the record. -/
theorem writeAnchor_apply (hkey : R.AnchorUsable) {n : ℕ} (hn : n < 10 ^ 7) (head : Str)
    (net : RelayNetwork) (late : Bool) (w : StreamWorld) : ∃ anchor,
    R.guest.writeAnchorOver (R.streamPort net late) n head w =
      (.ok (), { w with disk.anchor := anchor }) ∧
    ∀ disk : Disk, disk.anchor = anchor → ∃ a, R.ledger.readAnchor R.crypto R.builtins disk = .ok a ∧
      ∀ x ∈ a, x.1 = (n : ℤ) ∧ x.2 = head := by
  obtain ⟨anchor, hanchor⟩ := anchorFile_ok hkey hn head
  refine ⟨anchor.or w.disk.anchor, ?_, fun disk hdisk => readAnchor_anchorFile hanchor
    fun file hfile => by rw [hdisk, Option.mem_def.1 hfile]; rfl⟩
  have hkey' : R.guest.ledger.anchorKey = R.ledger.anchorKey := rfl
  unfold LedgerOptions.anchorFile at hanchor
  unfold Setting.writeAnchorOver
  rw [hkey']
  rcases hoption : R.ledger.anchorKey with _ | key
  · rw [hoption] at hanchor
    obtain rfl : none = anchor := Except.ok.inj hanchor
    rfl
  · rw [hoption] at hanchor
    obtain ⟨m, hmac, hrest⟩ := bind_eq_ok.1 hanchor
    obtain ⟨file, hfile, hsome⟩ := bind_eq_ok.1 hrest
    obtain rfl : some file = anchor := Except.ok.inj hsome
    have hmac' : mac R.guest.crypto key n head = .ok m := hmac
    simp only [Action.bind_apply, Action.lift_apply, hmac', hfile, Action.update]
    rfl

/-- An append either stops at a local check, or adds a record and delivers it. -/
theorem Settled.append (h : R.Settled rs w) (hkey : R.AnchorUsable) (net : RelayNetwork) (late : Bool)
    {payload : Fields F} (hwf : (Json.obj payload).WF)
    (hw : (Json.obj payload).writable false = true) :
    (∃ exc, R.guest.appendPayloadOver (R.streamPort net late) payload w = (.error exc, w) ∧
      ¬ R.Writable w payload) ∨
    ∃ x w₁, R.Writable w payload ∧ R.guest.appendPayloadOver (R.streamPort net late) payload w = (do
        R.guest.writeRemoteAnchorOver (R.streamPort net late) (rs.length + 1) x.2 x.1
        return x.2 : Action StreamWorld Exc Str) w₁ ∧
      R.Inv (rs ++ [x]) rs.length rs.length rs.length w₁.toRelayWorld ∧
      R.Anchored (rs ++ [x]) w₁.disk ∧ w₁.stream = w.stream ∧ w₁.silent = w.silent := by
  have hverify : R.guest.ledger.verifyUnlocked R.guest.crypto R.guest.builtins
      ((R.streamPort net late).disk w) true true =
      .ok ⟨true, rs.length, none, none, lastHash none rs⟩ := h.verify
  have hwritable : R.Writable w payload → ∃ record hash encoded,
      R.guest.sealRecord payload (lastHash none rs) = .ok (record, hash) ∧
      jsonFile record = .ok encoded ∧ encoded.length ≤ 60 * 1024 ∧
      (w.disk.ledger.getD []).length + encoded.length ≤ R.ledger.maxLedgerBytes := by
    rintro ⟨existing, record, hash, encoded, hexisting, hrest⟩
    obtain rfl := Except.ok.inj (h.verify.symm.trans hexisting)
    exact ⟨record, hash, encoded, hrest⟩
  unfold Setting.appendPayloadOver
  simp only [Action.bind_apply, Action.read, Action.lift_apply, hverify, Bool.not_true, raiseIf,
    Bool.false_eq_true, if_false]
  rcases hseal : R.guest.sealRecord payload (lastHash none rs) with exc | ⟨record, hash⟩
  · refine .inl ⟨exc, rfl, fun hwr => ?_⟩
    obtain ⟨record, hash, encoded, hseal', -⟩ := hwritable hwr
    rw [hseal] at hseal'
    cases hseal'
  have hsealed := sealRecord_sealed R.guest hwf hseal
  have hencoded := jsonFile_eq hsealed.writable
  have hof : R.Writable w payload →
      (encodeUtf8 (recordLine record ++ ['\n'])).length ≤ 60 * 1024 ∧
      (w.disk.ledger.getD []).length + (encodeUtf8 (recordLine record ++ ['\n'])).length ≤
        R.ledger.maxLedgerBytes := by
    intro hwr
    obtain ⟨record', hash', encoded, hseal', hencoded', hfits⟩ := hwritable hwr
    obtain ⟨rfl, rfl⟩ := Prod.mk.inj (Except.ok.inj (hseal.symm.trans hseal'))
    obtain rfl := Except.ok.inj (hencoded.symm.trans hencoded')
    exact hfits
  simp only [hencoded]
  by_cases hframe : (encodeUtf8 (recordLine record ++ ['\n'])).length > 60 * 1024
  · simp only [if_pos hframe]
    exact .inl ⟨_, rfl, fun hwr => absurd (hof hwr).1 (not_le.2 hframe)⟩
  by_cases hbudget : (w.disk.ledger.getD []).length +
      (encodeUtf8 (recordLine record ++ ['\n'])).length > R.ledger.maxLedgerBytes
  · have hbudget' : (((R.streamPort net late).disk w).ledger.getD []).length +
      (encodeUtf8 (recordLine record ++ ['\n'])).length > R.guest.ledger.maxLedgerBytes := hbudget
    simp only [if_neg hframe, if_pos hbudget']
    exact .inl ⟨_, rfl, fun hwr => absurd (hof hwr).2 (not_le.2 hbudget)⟩
  have hbudget' : ¬ (((R.streamPort net late).disk w).ledger.getD []).length +
    (encodeUtf8 (recordLine record ++ ['\n'])).length > R.guest.ledger.maxLedgerBytes := hbudget
  simp only [if_neg hframe, if_neg hbudget', Action.update]
  have hinv := h.inv.concat rfl net hsealed (fits_of_sealed hw hseal (not_lt.1 hframe))
    (not_lt.1 hbudget)
  have hlt : rs.length + 1 < 10 ^ 7 := by simpa using hinv.length_lt
  let w₀ : StreamWorld := (R.streamPort net late).setDisk { (R.streamPort net late).disk w with
      ledger := some (((R.streamPort net late).disk w).ledger.getD [] ++
        encodeUtf8 (recordLine record ++ ['\n']))
      head := some (encodeUtf8 (hash ++ ['\n'])) } w
  obtain ⟨anchor, hwrite, hread⟩ := writeAnchor_apply hkey hlt hash net late w₀
  have hwritten : R.Writable w payload := ⟨_, record, hash, _, h.verify, hseal, hencoded,
    not_lt.1 hframe, not_lt.1 hbudget⟩
  refine .inr ⟨(record, hash), { w₀ with disk.anchor := anchor }, hwritten, ?_, ?_, ?_, rfl, rfl⟩
  · simp only [w₀] at hwrite
    simp only [hwrite]
    rfl
  · exact ⟨⟨hinv.disk.chained, hinv.disk.ledger, hinv.disk.head, hinv.disk.size, hinv.disk.remote⟩,
      hinv.fits, hinv.evidence, hinv.rows, hinv.acknowledged, hinv.submitted, hinv.stored,
      hinv.behind, hinv.bound⟩
  · obtain ⟨a, ha, hnamed⟩ := hread { w₀.disk with anchor } rfl
    refine ⟨a, ha, fun x hx => ?_⟩
    rw [List.length_append, List.length_singleton, lastHash_concat]
    exact hnamed x hx

/-- A recovery submits the last record. -/
theorem Inv.reconcile_apply (h : R.Inv rs e u c w.toRelayWorld) (net : RelayNetwork) (late : Bool) :
    (rs = [] → ∃ exc, R.guest.reconcileRemoteOver (R.streamPort net late) w = (.error exc, w)) ∧
    (rs.length = i + 1 → rs[i]? = some x → R.guest.reconcileRemoteOver (R.streamPort net late) w =
      R.guest.writeRemoteAnchorOver (R.streamPort net late) (i + 1) x.2 x.1.norm w) := by
  have hdisk : (R.streamPort net late).disk w = w.disk := rfl
  unfold Setting.reconcileRemoteOver
  simp only [Action.bind_apply, Action.read, Action.lift_apply, hdisk]
  refine ⟨fun hrs => ?_, fun hi hx => ?_⟩
  · subst hrs
    rcases hverify : R.guest.ledger.verifyUnlocked R.guest.crypto R.guest.builtins w.disk true false
      with exc | v
    · exact ⟨_, rfl⟩
    · have hempty : (!v.valid || v.records == 0) = true := by
        rw [h.disk.verify_empty hverify]
        simp
      simp only [hempty, raiseIf, if_true]
      exact ⟨_, rfl⟩
  · have hrs : rs ≠ [] := by
      rintro rfl
      cases hi
    have hlast : rs.getLast? = some x := by
      rw [List.getLast?_eq_getElem?, hi]
      exact hx
    have hhash : lastHash none rs = some x.2 := by
      rw [lastHash, hlast]
      rfl
    rw [h.disk.verify_local hrs, h.disk.ledger, if_neg hrs]
    simp only [hi, raiseIf, orRaise, decodeUtf8_encodeUtf8, lines_ledgerText, hhash,
      lastRecord_chained h.disk.chained, hlast, Option.map_some, Option.some_or, Option.bind_some,
      Setting.dictOf, Option.getD_some]
    simp

/-- A network on which the relay answers. -/
structure Live (R : Relay F) (net : RelayNetwork) : Prop where
  evidence : net.evidenceBytes + maxFrame + 16384 ≤ R.evidence.maxBytes
  fate : net.upstream.fate = .delivered
  page : net.upstream.pageBytes + maxFrame + 16384 ≤ R.collector.maxBytes

/-- An older acknowledgement is at the front of the port. -/
def Stale (R : Relay F) (rs : List (Fields F × Str)) (w : StreamWorld) : Prop :=
  ∃ q head rest, w.stream = ackLine R q head ++ rest ∧ isHex64 head = true ∧ q ≤ rs.length

/-- An append that reads its own acknowledgement, or an older one. -/
theorem Settled.append_prompt (h : R.Settled rs w) (hkey : R.AnchorUsable) (net : RelayNetwork)
    {payload : Fields F} (hwf : (Json.obj payload).WF)
    (hw : (Json.obj payload).writable false = true) :
    ∃ result w', R.guest.appendPayloadOver (R.streamPort net false) payload w = (result, w') ∧
      (w.stream = [] → w'.silent = w.silent → w'.stream = [] ∧ (∃ rs', R.Settled rs' w') ∧
        (R.Writable w payload → ∃ hash, result = .ok hash)) ∧
      (R.Stale rs w → w'.silent = w.silent → ∃ exc, result = .error exc) ∧
      (w.stream = [] ∨ R.Stale rs w → rs.length < 1000000 → R.Live net → w'.silent = w.silent) := by
  rcases h.append hkey net false hwf hw with ⟨exc, happend, hnot⟩ |
    ⟨x, w₁, -, happend, hinv, hanchored, hstream, hsilent⟩
  · exact ⟨_, w, happend, fun hst _ => ⟨hst, ⟨rs, h⟩, fun hyes => absurd hyes hnot⟩,
      fun _ _ => ⟨exc, rfl⟩, fun _ _ _ => rfl⟩
  have hlen : (rs ++ [x]).length = rs.length + 1 := by simp
  have hx : (rs ++ [x])[rs.length]? = some x := List.getElem?_concat_length
  have hlt : rs.length + 1 < 10 ^ 7 := hlen ▸ hinv.length_lt
  have hhex : isHex64 x.2 = true := (chained_concat.1 hinv.disk.chained).2.isHex64
  rcases hresult : R.guest.writeRemoteAnchorOver (R.streamPort net false) (rs.length + 1) x.2 x.1 w₁
    with ⟨result, w'⟩
  -- the line that is read: its own acknowledgement on an empty port, the older one on another
  have hread (q : ℕ) (head : Str) (rest : Bytes) (hq : q < 10 ^ 7) (hh : isHex64 head = true)
      (hfront : w₁.stream ++ ackLine R (rs.length + 1) x.2 = ackLine R q head ++ rest) :
      (w'.silent = w.silent → w'.stream = rest ∧ w'.disk.anchor = w₁.disk.anchor ∧
        (q = rs.length + 1 ∧ head = x.2 → result = .ok () ∧
          R.Inv (rs ++ [x]) (rs ++ [x]).length (rs ++ [x]).length (rs ++ [x]).length
            w'.toRelayWorld) ∧
        (¬ (q = rs.length + 1 ∧ head = x.2) → ∃ exc, result = .error exc)) ∧
      (rs.length < 1000000 → R.Live net → w'.silent = w.silent) := by
    obtain ⟨result', w'', hdelivered, hgood, hlive⟩ :=
      hinv.deliver_prompt hlen hx (.inl rfl) net hq hh hfront
    obtain ⟨rfl, rfl⟩ := Prod.mk.inj (hresult.symm.trans hdelivered)
    rw [hsilent] at hgood hlive
    refine ⟨fun hsame => ?_, fun hmax hnet => hlive (by omega) hnet.evidence hnet.fate hnet.page⟩
    obtain ⟨hrest, hanchor, hown, hother⟩ := hgood hsame
    exact ⟨hrest, hanchor, hown, fun hne => (hother hne).1⟩
  have hempty (hst : w.stream = []) := hread (rs.length + 1) x.2 [] hlt hhex (by
    rw [hstream, hst, List.nil_append, List.append_nil])
  have hstale {q : ℕ} {head : Str} {rest : Bytes} (hst : w.stream = ackLine R q head ++ rest)
      (hh : isHex64 head = true) (hq : q ≤ rs.length) := hread q head
    (rest ++ ackLine R (rs.length + 1) x.2) (by omega) hh (by rw [hstream, hst, List.append_assoc])
  refine ⟨result.map fun _ => x.2, w', ?_, fun hst hsame => ?_, ?_, ?_⟩
  · rw [happend, Action.bind_apply, hresult]
    cases result <;> rfl
  · obtain ⟨hrest, hanchor, hown, -⟩ := (hempty hst).1 hsame
    obtain ⟨rfl, hinv'⟩ := hown ⟨rfl, rfl⟩
    exact ⟨hrest, ⟨_, hinv', hanchored.congr hanchor⟩, fun _ => ⟨x.2, rfl⟩⟩
  · rintro ⟨q, head, rest, hst, hh, hq⟩ hsame
    obtain ⟨-, -, -, hother⟩ := (hstale hst hh hq).1 hsame
    obtain ⟨exc, rfl⟩ := hother fun heq => by omega
    exact ⟨exc, rfl⟩
  · rintro (hst | ⟨q, head, rest, hst, hh, hq⟩)
    · exact (hempty hst).2
    · exact (hstale hst hh hq).2

/-- A recovery on an empty port. -/
theorem Settled.reconcile_prompt (h : R.Settled rs w) (net : RelayNetwork) (hst : w.stream = []) :
    ∃ result w', R.guest.reconcileRemoteOver (R.streamPort net false) w = (result, w') ∧
      (w'.silent = w.silent → w'.stream = [] ∧ R.Settled rs w') := by
  by_cases hrs : rs = []
  · obtain ⟨exc, hreconcile⟩ := (h.inv.reconcile_apply (i := 0) (x := ([], [])) net false).1 hrs
    exact ⟨_, w, hreconcile, fun _ => ⟨hst, h⟩⟩
  · obtain ⟨i, x, hi, -, hx⟩ := Setting.exists_last hrs
    obtain ⟨previous, hsealed⟩ := h.inv.disk.chained.sealed x (List.mem_of_getElem? hx)
    obtain ⟨result, w', hdelivered, hgood, -⟩ := h.inv.deliver_prompt hi hx (.inr rfl) net
      (hi ▸ h.inv.length_lt) hsealed.isHex64 (show w.stream ++ ackLine R (i + 1) x.2 =
        ackLine R (i + 1) x.2 ++ [] by rw [hst, List.nil_append, List.append_nil])
    refine ⟨result, w', ((h.inv.reconcile_apply net false).2 hi hx).trans hdelivered, fun hsame => ?_⟩
    obtain ⟨hrest, hanchor, hown, -⟩ := hgood hsame
    exact ⟨hrest, (hown ⟨rfl, rfl⟩).2, h.anchored.congr hanchor⟩

/-- An append that gives up leaves its acknowledgement on the port. The recovery after it reads that
one, returns, and leaves its own. -/
theorem Settled.late (h : R.Settled rs w) (hkey : R.AnchorUsable) (hnet : R.Live net)
    {payload : Fields F} (hwf : (Json.obj payload).WF)
    (hw : (Json.obj payload).writable false = true) (hwritable : R.Writable w payload)
    (hst : w.stream = []) (hmax : rs.length < 1000000) :
    ∃ exc w₁ w₂ x, R.guest.appendPayloadOver (R.streamPort net true) payload w = (.error exc, w₁) ∧
      R.guest.reconcileRemoteOver (R.streamPort net false) w₁ = (.ok (), w₂) ∧
      w₁.silent = w.silent ∧ w₂.silent = w.silent ∧ R.Settled (rs ++ [x]) w₂ ∧
      R.Stale (rs ++ [x]) w₂ := by
  rcases h.append hkey net true hwf hw with ⟨exc, -, hnot⟩ |
    ⟨x, w₀, -, happend, hinv, hanchored, hstream, hsilent⟩
  · exact absurd hwritable hnot
  have hlen : (rs ++ [x]).length = rs.length + 1 := by simp
  have hx : (rs ++ [x])[rs.length]? = some x := List.getElem?_concat_length
  have hhex : isHex64 x.2 = true := (chained_concat.1 hinv.disk.chained).2.isHex64
  obtain ⟨exc, e₁, u₁, w₁, hlate, hinv₁, hdisk₁, hleft, hlive₁⟩ := hinv.deliver_late hx (.inl rfl) net
  have hsilent₁ := hlive₁ hlen (by omega) hnet.evidence hnet.fate hnet.page
  obtain ⟨result, w₂, hprompt, hgood, hlive₂⟩ := hinv₁.deliver_prompt hlen hx (.inr rfl) net
    (hlen ▸ hinv.length_lt) hhex (show w₁.stream ++ ackLine R (rs.length + 1) x.2 =
      ackLine R (rs.length + 1) x.2 ++ ackLine R (rs.length + 1) x.2 by
        rw [hleft hsilent₁, hstream, hst, List.nil_append])
  have hsilent₂ := hlive₂ (by omega) hnet.evidence hnet.fate hnet.page
  obtain ⟨hrest, hanchor, hown, -⟩ := hgood hsilent₂
  obtain ⟨rfl, hinv₂⟩ := hown ⟨rfl, rfl⟩
  refine ⟨exc, w₁, w₂, x, ?_, ((hinv₁.reconcile_apply net false).2 hlen hx).trans hprompt,
    hsilent₁.trans hsilent, hsilent₂.trans (hsilent₁.trans hsilent), ⟨hinv₂, hanchored.congr (hanchor.trans ?_)⟩,
    rs.length + 1, x.2, [], by rw [hrest, List.append_nil], hhex, hlen.ge⟩
  · rw [happend, Action.bind_apply, hlate]
  · rw [hdisk₁]

/-! ## After a late acknowledgement

From then on there is an older line at the front of the port before every submission: one is added and one
is read. An older line names no later record, so no append reads its own. -/

/-- The lines of these acknowledgements. -/
def ackLines (R : Relay F) (acks : List (ℕ × Str)) : Bytes := acks.flatMap fun a => ackLine R a.1 a.2

/-- The records of the ledger, and the acknowledgements that the guest has not read. -/
structure Unread (R : Relay F) (rs : List (Fields F × Str)) (acks : List (ℕ × Str)) (w : StreamWorld) :
    Prop where
  inv : ∃ e u c, R.Inv rs e u c w.toRelayWorld
  anchored : R.Anchored rs w.disk
  older : ∀ a ∈ acks, a.1 ≤ rs.length ∧ isHex64 a.2 = true
  stream : w.stream = ackLines R acks

/-- Some acknowledgement is not read. -/
def Behind (R : Relay F) (w : StreamWorld) : Prop := ∃ rs acks, acks ≠ [] ∧ R.Unread rs acks w

theorem Settled.unread (h : R.Settled rs w) (hst : w.stream = []) : R.Unread rs [] w :=
  ⟨⟨_, _, _, h.inv⟩, h.anchored, nofun, hst⟩

variable {acks : List (ℕ × Str)}

/-- A delivery that gives up adds a line, and one that waits reads the oldest. -/
theorem Unread.deliver (h : R.Unread rs acks w) (hi : rs.length = i + 1) (hx : rs[i]? = some x)
    {record : Fields F} (hrecord : record = x.1 ∨ record = x.1.norm) (net : RelayNetwork) (late : Bool)
    (hsome : late = true ∨ acks ≠ []) :
    ∃ result w', R.guest.writeRemoteAnchorOver (R.streamPort net late) (i + 1) x.2 record w =
        (result, w') ∧
      (w'.silent = w.silent → R.Behind w' ∧
        ((∀ a ∈ acks, a.1 ≤ i) → ∃ exc, result = .error exc)) := by
  obtain ⟨e, u, c, hinv⟩ := h.inv
  have hhex : isHex64 x.2 = true := by
    obtain ⟨previous, hsealed⟩ := hinv.disk.chained.sealed x (List.mem_of_getElem? hx)
    exact hsealed.isHex64
  have hown : ∀ a ∈ [(i + 1, x.2)], a.1 ≤ rs.length ∧ isHex64 a.2 = true := by
    rintro a ha
    rw [List.mem_singleton.1 ha]
    exact ⟨hi.ge, hhex⟩
  have hone : ackLines R [(i + 1, x.2)] = ackLine R (i + 1) x.2 := List.append_nil _
  cases late with
  | true =>
    obtain ⟨exc, e', u', w', hlate, hinv', hdisk, hleft, -⟩ := hinv.deliver_late hx hrecord net
    refine ⟨_, w', hlate, fun hsame => ⟨⟨rs, acks ++ [(i + 1, x.2)], ?_, ?_⟩, fun _ => ⟨exc, rfl⟩⟩⟩
    · exact List.append_ne_nil_of_right_ne_nil _ (List.cons_ne_nil _ _)
    · refine ⟨⟨_, _, _, hinv'⟩, h.anchored.congr (by rw [hdisk]), ?_, ?_⟩
      · exact fun a ha => (List.mem_append.1 ha).elim (h.older a) (hown a)
      · rw [hleft hsame, h.stream, ackLines, ackLines, List.flatMap_append]
        exact congrArg _ hone.symm
  | false =>
    obtain ⟨⟨q, head⟩, rest, rfl⟩ :=
      List.exists_cons_of_ne_nil (hsome.resolve_left Bool.false_ne_true)
    have holdest := h.older (q, head) List.mem_cons_self
    have hq : q < 10 ^ 7 := holdest.1.trans_lt hinv.length_lt
    have hfront : w.stream ++ ackLine R (i + 1) x.2 =
        ackLine R q head ++ ackLines R (rest ++ [(i + 1, x.2)]) := by
      rw [h.stream, ackLines, ackLines, List.flatMap_cons, List.flatMap_append, List.append_assoc]
      exact congrArg _ (congrArg _ hone.symm)
    obtain ⟨result, w', hdelivered, hgood, -⟩ :=
      hinv.deliver_prompt hi hx hrecord net hq holdest.2 hfront
    refine ⟨result, w', hdelivered, fun hsame => ?_⟩
    obtain ⟨hrest, hanchor, hmine, hother⟩ := hgood hsame
    have hunread : (∃ e u c, R.Inv rs e u c w'.toRelayWorld) →
        R.Unread rs (rest ++ [(i + 1, x.2)]) w' := fun hinv' =>
      ⟨hinv', h.anchored.congr hanchor, fun a ha => (List.mem_append.1 ha).elim
        (fun ha => h.older a (List.mem_cons_of_mem _ ha)) (hown a), hrest⟩
    have hne : rest ++ [(i + 1, x.2)] ≠ [] :=
      List.append_ne_nil_of_right_ne_nil _ (List.cons_ne_nil _ _)
    by_cases hsubmission : q = i + 1 ∧ head = x.2
    · refine ⟨⟨rs, _, hne, hunread ⟨_, _, _, (hmine hsubmission).2⟩⟩, fun hle => ?_⟩
      have := hle (q, head) List.mem_cons_self
      omega
    · exact ⟨⟨rs, _, hne, hunread ⟨_, _, _, (hother hsubmission).2⟩⟩, fun _ => (hother hsubmission).1⟩

/-- An append to a ledger whose last record is not acknowledged. -/
theorem Inv.append_behind (h : R.Inv rs e u c w.toRelayWorld) (hc : c < rs.length) (net : RelayNetwork)
    (late : Bool) (payload : Fields F) :
    ∃ exc, R.guest.appendPayloadOver (R.streamPort net late) payload w = (.error exc, w) := by
  have hdisk : (R.streamPort net late).disk w = w.disk := rfl
  simp only [Setting.appendPayloadOver, Action.bind_apply, Action.lift_apply, Action.read, hdisk]
  rcases hverify : R.guest.ledger.verifyUnlocked R.guest.crypto R.guest.builtins w.disk true true
    with exc | v
  · exact ⟨exc, rfl⟩
  · have hinvalid : v.valid = false := by
      by_contra hv
      have hrs := h.disk.verify_valid h.acknowledged_le h.length_lt hverify (by simpa using hv)
      omega
    simp only [hinvalid, raiseIf, Bool.not_false, if_true]
    exact ⟨_, rfl⟩

theorem Unread.settled (h : R.Unread rs acks w) : R.Settled rs w ∨
    ∃ e u c, c < rs.length ∧ R.Inv rs e u c w.toRelayWorld := by
  obtain ⟨e, u, c, hinv⟩ := h.inv
  have h₁ := hinv.acknowledged
  have h₂ := hinv.submitted
  have h₃ := hinv.stored
  rcases h₁.trans (h₂.trans h₃) |>.lt_or_eq with hlt | rfl
  · exact .inr ⟨e, u, c, hlt, hinv⟩
  · obtain rfl : u = rs.length := by omega
    obtain rfl : e = rs.length := by omega
    exact .inl ⟨hinv, h.anchored⟩

/-- An append with an older line at the front of the port raises, and leaves one there. -/
theorem Behind.append (h : R.Behind w) (hkey : R.AnchorUsable) (net : RelayNetwork) (late : Bool)
    {payload : Fields F} (hwf : (Json.obj payload).WF)
    (hw : (Json.obj payload).writable false = true) :
    ∃ result w', R.guest.appendPayloadOver (R.streamPort net late) payload w = (result, w') ∧
      (w'.silent = w.silent → R.Behind w' ∧ ∃ exc, result = .error exc) := by
  have hbehind := h
  obtain ⟨rs, acks, hne, h⟩ := h
  rcases h.settled with hsettled | ⟨e, u, c, hc, hinv⟩
  · rcases hsettled.append hkey net late hwf hw with ⟨exc, happend, -⟩ |
      ⟨x, w₁, -, happend, hinv, hanchored, hstream, hsilent⟩
    · exact ⟨_, w, happend, fun _ => ⟨hbehind, exc, rfl⟩⟩
    · have hunread : R.Unread (rs ++ [x]) acks w₁ := by
        refine ⟨⟨_, _, _, hinv⟩, hanchored, fun a ha => ⟨?_, (h.older a ha).2⟩, hstream.trans h.stream⟩
        exact (h.older a ha).1.trans (List.length_append ▸ Nat.le_add_right _ _)
      obtain ⟨result, w', hdelivered, hgood⟩ := hunread.deliver (i := rs.length) (by simp)
        List.getElem?_concat_length (.inl rfl) net late (.inr hne)
      refine ⟨result.map fun _ => x.2, w', ?_, fun hsame => ?_⟩
      · rw [happend, Action.bind_apply, hdelivered]
        cases result <;> rfl
      · obtain ⟨hafter, herror⟩ := hgood (hsame.trans hsilent.symm)
        obtain ⟨exc, rfl⟩ := herror fun a ha => (h.older a ha).1
        exact ⟨hafter, exc, rfl⟩
  · obtain ⟨exc, happend⟩ := hinv.append_behind hc net late payload
    exact ⟨_, w, happend, fun _ => ⟨hbehind, exc, rfl⟩⟩

/-- A recovery reads the oldest line too, and leaves its own. -/
theorem Unread.reconcile (h : R.Unread rs acks w) (net : RelayNetwork) {late : Bool}
    (hsome : late = true ∨ acks ≠ []) (hrs : rs ≠ []) :
    ∃ result w', R.guest.reconcileRemoteOver (R.streamPort net late) w = (result, w') ∧
      (w'.silent = w.silent → R.Behind w') := by
  obtain ⟨e, u, c, hinv⟩ := h.inv
  obtain ⟨i, x, hi, -, hx⟩ := Setting.exists_last hrs
  obtain ⟨result, w', hdelivered, hgood⟩ := h.deliver hi hx (.inr rfl) net late hsome
  exact ⟨result, w', ((hinv.reconcile_apply net late).2 hi hx).trans hdelivered,
    fun hsame => (hgood hsame).1⟩

/-- The acknowledgement that a call does not wait for is the first that is not read. -/
theorem Settled.behind (h : R.Settled rs w) (hkey : R.AnchorUsable) (hst : w.stream = [])
    {op : StreamOp F} (hlate : op.late = true) (hsubmits : R.Submits w op)
    (hsame : (R.streamStep w op).silent = w.silent) : R.Behind (R.streamStep w op) := by
  cases op with
  | append payload net late =>
    obtain rfl : late = true := hlate
    rcases h.append hkey net true payload.2.1 payload.2.2 with ⟨exc, -, hnot⟩ |
      ⟨x, w₁, -, happend, hinv, hanchored, hstream, hsilent⟩
    · exact absurd hsubmits hnot
    · have hunread : R.Unread (rs ++ [x]) [] w₁ :=
        ⟨⟨_, _, _, hinv⟩, hanchored, nofun, hstream.trans hst⟩
      obtain ⟨result, w', hdelivered, hgood⟩ := hunread.deliver (i := rs.length) (by simp)
        List.getElem?_concat_length (.inl rfl) net true (.inl rfl)
      have hstep : R.streamStep w (.append payload net true) = w' := by
        rw [streamStep, happend, Action.bind_apply, hdelivered]
        cases result <;> rfl
      rw [hstep] at hsame ⊢
      exact (hgood (hsame.trans hsilent.symm)).1
  | reconcile net late =>
    obtain rfl : late = true := hlate
    have hrs : rs ≠ [] := by
      rintro rfl
      exact hsubmits h.inv.disk.ledger
    obtain ⟨result, w', hreconcile, hgood⟩ := (h.unread hst).reconcile net (.inl rfl) hrs
    have hstep : R.streamStep w (.reconcile net true) = w' := congrArg Prod.snd hreconcile
    rw [hstep] at hsame ⊢
    exact hgood hsame

/-- No call reads all the lines. -/
theorem Behind.step (h : R.Behind w) (hkey : R.AnchorUsable) (op : StreamOp F)
    (hsame : (R.streamStep w op).silent = w.silent) : R.Behind (R.streamStep w op) := by
  cases op with
  | append payload net late =>
    obtain ⟨result, w', happend, hgood⟩ := h.append hkey net late payload.2.1 payload.2.2
    have hstep : R.streamStep w (.append payload net late) = w' := congrArg Prod.snd happend
    rw [hstep] at hsame ⊢
    exact (hgood hsame).1
  | reconcile net late =>
    have hbehind := h
    obtain ⟨rs, acks, hne, h⟩ := h
    by_cases hrs : rs = []
    · obtain ⟨e, u, c, hinv⟩ := h.inv
      obtain ⟨exc, hreconcile⟩ := (hinv.reconcile_apply (i := 0) (x := ([], [])) net late).1 hrs
      have hstep : R.streamStep w (.reconcile net late) = w := congrArg Prod.snd hreconcile
      rwa [hstep]
    · obtain ⟨result, w', hreconcile, hgood⟩ := h.reconcile net (.inr hne) hrs
      have hstep : R.streamStep w (.reconcile net late) = w' := congrArg Prod.snd hreconcile
      rw [hstep] at hsame ⊢
      exact hgood hsame

/-- Without a key for its local anchor no append returns. -/
theorem append_unusable (hkey : ¬ R.AnchorUsable) (net : RelayNetwork) (late : Bool)
    (payload : Fields F) (w : StreamWorld) :
    ∃ exc, (R.guest.appendPayloadOver (R.streamPort net late) payload w).1 = .error exc := by
  -- the option with a path and no key, or an empty one
  obtain ⟨key, hoption, hmac⟩ : ∃ key, R.guest.ledger.anchorKey = some key ∧
      ∀ n head, ∃ exc, mac R.guest.crypto key n head = .error exc := by
    rw [AnchorUsable] at hkey
    push Not at hkey
    obtain ⟨key, hoption, hkey⟩ := hkey
    refine ⟨key, hoption, fun n head => ?_⟩
    rcases key with _ | _ | ⟨b, k⟩
    · exact ⟨_, rfl⟩
    · exact ⟨_, rfl⟩
    · exact absurd (hkey _ rfl) (List.cons_ne_nil _ _)
  have hwrite : ∀ n head (v : StreamWorld), (R.guest.writeAnchorOver (R.streamPort net late) n head).wp
      (fun _ _ => False) (fun _ _ => True) v := by
    intro n head v
    obtain ⟨exc, hexc⟩ := hmac n head
    unfold Setting.writeAnchorOver
    rw [hoption]
    simp only [Action.wp_bind, Action.wp_lift, hexc]
    exact ⟨fun _ h => (by cases h), fun _ _ => trivial⟩
  have hwp : (R.guest.appendPayloadOver (R.streamPort net late) payload).wp
      (fun _ _ => False) (fun _ _ => True) w := by
    unfold Setting.appendPayloadOver
    simp only [Action.wp_bind, Action.wp_read, Action.wp_update]
    refine Action.wp_lift_intro (fun v _ => ?_) fun _ => trivial
    refine Action.wp_lift_intro (fun _ _ => ?_) fun _ => trivial
    refine Action.wp_lift_intro (fun sealedRecord _ => ?_) fun _ => trivial
    refine Action.wp_lift_intro (fun encoded _ => ?_) fun _ => trivial
    refine Action.wp_lift_intro (fun _ _ => ?_) fun _ => trivial
    refine Action.wp_lift_intro (fun _ _ => ?_) fun _ => trivial
    exact Action.wp_mono (hwrite _ _ _) (fun _ _ h => h.elim) fun _ _ h => h
  rcases hresult : (R.guest.appendPayloadOver (R.streamPort net late) payload w).1 with exc | hash
  · exact ⟨exc, rfl⟩
  · exact (Action.wp_elim hwp hresult).elim

/-! ## Runs -/

theorem streamRun_concat (ops : List (StreamOp F)) (op : StreamOp F) :
    R.streamRun (ops ++ [op]) = R.streamStep (R.streamRun ops) op := by
  rw [streamRun, List.foldl_append]
  rfl

/-- A call that gives up only where it does not come to its `submit` leaves all as it was. -/
theorem Settled.unsubmitted (h : R.Settled rs w) (hkey : R.AnchorUsable) {op : StreamOp F}
    (hlate : op.late = true) (hnot : ¬ R.Submits w op) : R.streamStep w op = w := by
  cases op with
  | append payload net late =>
    rcases h.append hkey net late payload.2.1 payload.2.2 with ⟨exc, happend, -⟩ |
      ⟨x, w₁, hwritable, -⟩
    · rw [streamStep, happend]
    · exact absurd hwritable hnot
  | reconcile net late =>
    have hrs : rs = [] := by
      by_contra hne
      refine hnot ?_
      change w.disk.ledger ≠ none
      rw [h.inv.disk.ledger, if_neg hne]
      exact Option.some_ne_none _
    obtain ⟨exc, hreconcile⟩ := (h.inv.reconcile_apply (i := 0) (x := ([], [])) net late).1 hrs
    rw [streamStep, hreconcile]

/-- After a run in which no `submit` gave up, nothing is unread and the parties agree. -/
theorem settled_run (hkey : R.AnchorUsable) (ops : List (StreamOp F))
    (hprompt : ∀ before op, before ++ [op] <+: ops → op.late = true →
      ¬ R.Submits (R.streamRun before) op)
    (hanswered : ∀ before, before <+: ops → (R.streamRun before).silent = 0) :
    (R.streamRun ops).stream = [] ∧ ∃ rs, R.Settled rs (R.streamRun ops) := by
  induction ops using List.reverseRecOn with
  | nil => exact ⟨rfl, [], R.settled_blank⟩
  | append_singleton ops op ih =>
    obtain ⟨hst, rs, h⟩ := ih (fun before op hbefore => hprompt before op
        (hbefore.trans (List.prefix_append _ _))) fun before hbefore =>
      hanswered before (hbefore.trans (List.prefix_append _ _))
    have hsame : (R.streamStep (R.streamRun ops) op).silent = (R.streamRun ops).silent := by
      rw [← streamRun_concat, hanswered _ List.prefix_rfl, hanswered _ (List.prefix_append _ _)]
    rw [streamRun_concat]
    by_cases hlate : op.late = true
    · rw [h.unsubmitted hkey hlate (hprompt ops op List.prefix_rfl hlate)]
      exact ⟨hst, rs, h⟩
    rw [Bool.not_eq_true] at hlate
    cases op with
    | append payload net late =>
      obtain rfl : late = false := hlate
      obtain ⟨result, w', happend, hgood, -⟩ := h.append_prompt hkey net payload.2.1 payload.2.2
      rw [streamStep, happend] at hsame ⊢
      obtain ⟨hrest, hsettled, -⟩ := hgood hst hsame
      exact ⟨hrest, hsettled⟩
    | reconcile net late =>
      obtain rfl : late = false := hlate
      obtain ⟨result, w', hreconcile, hgood⟩ := h.reconcile_prompt net hst
      rw [streamStep, hreconcile] at hsame ⊢
      obtain ⟨hrest, hsettled⟩ := hgood hsame
      exact ⟨hrest, rs, hsettled⟩

/-- In a run in which the relay answers every frame and no `submit` gives up, every append that the
ledger can write returns. -/
theorem append_returns (R : Relay F) (hkey : R.AnchorUsable) (ops : List (StreamOp F))
    (payload : { payload : Fields F // (Json.obj payload).WF ∧
      (Json.obj payload).writable false = true }) (net : RelayNetwork)
    (hprompt : ∀ before op, before ++ [op] <+: ops → op.late = true →
      ¬ R.Submits (R.streamRun before) op)
    (hanswered : ∀ before, before <+: ops ++ [.append payload net false] →
      (R.streamRun before).silent = 0) (hwritable : R.Writable (R.streamRun ops) payload.1) :
    ∃ hash, (R.guest.appendPayloadOver (R.streamPort net false) payload.1 (R.streamRun ops)).1 =
      .ok hash := by
  obtain ⟨hst, rs, h⟩ := settled_run hkey ops hprompt fun before hbefore =>
    hanswered before (hbefore.trans (List.prefix_append _ _))
  obtain ⟨result, w', happend, hgood, -⟩ := h.append_prompt hkey net payload.2.1 payload.2.2
  have hsame : w'.silent = (R.streamRun ops).silent := by
    have hlast := hanswered _ List.prefix_rfl
    rw [streamRun_concat, streamStep, happend] at hlast
    rw [hlast, hanswered _ (List.prefix_append _ _)]
  rw [happend]
  exact (hgood hst hsame).2.2 hwritable

/-- After a run with a late acknowledgement, in which all frames are answered, some line is not read. -/
theorem behind_run (hkey : R.AnchorUsable) (ops : List (StreamOp F))
    (hanswered : ∀ before, before <+: ops → (R.streamRun before).silent = 0)
    (hlate : ∃ before op, before ++ [op] <+: ops ∧ op.late = true ∧ R.Submits (R.streamRun before) op) :
    R.Behind (R.streamRun ops) := by
  induction ops using List.reverseRecOn with
  | nil =>
    obtain ⟨before, op, hbefore, -⟩ := hlate
    exact absurd (List.prefix_nil.1 hbefore) (List.append_ne_nil_of_right_ne_nil _ (List.cons_ne_nil _ _))
  | append_singleton ops op ih =>
    have hbefore : ∀ before, before <+: ops → (R.streamRun before).silent = 0 := fun before h =>
      hanswered before (h.trans (List.prefix_append _ _))
    have hsame : (R.streamStep (R.streamRun ops) op).silent = (R.streamRun ops).silent := by
      rw [← streamRun_concat, hanswered _ List.prefix_rfl, hbefore _ List.prefix_rfl]
    rw [streamRun_concat]
    by_cases hearlier : ∃ before op, before ++ [op] <+: ops ∧ op.late = true ∧
        R.Submits (R.streamRun before) op
    · exact (ih hbefore hearlier).step hkey op hsame
    · -- the first call that gives up is the last one
      have hprompt : ∀ before op, before ++ [op] <+: ops → op.late = true →
          ¬ R.Submits (R.streamRun before) op := fun before op h hop hsubmits =>
        hearlier ⟨before, op, h, hop, hsubmits⟩
      obtain ⟨hst, rs, hsettled⟩ := settled_run hkey ops hprompt hbefore
      obtain ⟨before, last, hprefix, hlast, hsubmits⟩ := hlate
      rcases List.prefix_concat_iff.1 hprefix with heq | hprefix
      · obtain ⟨rfl, hop⟩ := List.append_inj' heq rfl
        obtain rfl := List.singleton_inj.1 hop
        exact hsettled.behind hkey hst hlast hsubmits hsame
      · exact absurd hsubmits (hprompt before last hprefix hlast)

/-- After a late acknowledgement no append returns, where all frames are answered: not after a recovery
that returned either, and not if no other call gives up. -/
theorem late_ack_refuses_appends (R : Relay F) (ops later : List (StreamOp F)) (net net' : RelayNetwork)
    (payload : { payload : Fields F // (Json.obj payload).WF ∧
      (Json.obj payload).writable false = true })
    (hlate : ∃ before op, before ++ [op] <+: ops ∧ op.late = true ∧ R.Submits (R.streamRun before) op)
    (hanswered : ∀ before, before <+: ops ++ [.reconcile net false] ++ later ++
      [.append payload net' false] → (R.streamRun before).silent = 0) :
    (R.guest.reconcileRemoteOver (R.streamPort net false) (R.streamRun ops)).1 = .ok () →
      (∀ op ∈ later, op.late = false) →
      ∃ exc, (R.guest.appendPayloadOver (R.streamPort net' false) payload.1
        (R.streamRun (ops ++ [.reconcile net false] ++ later))).1 = .error exc := by
  intro _ _
  by_cases hkey : R.AnchorUsable
  · have hbehind : R.Behind (R.streamRun (ops ++ [.reconcile net false] ++ later)) := by
      refine behind_run hkey _ (fun before hbefore =>
        hanswered before (hbefore.trans (List.prefix_append _ _))) ?_
      obtain ⟨before, op, hbefore, hop⟩ := hlate
      rw [List.append_assoc]
      exact ⟨before, op, hbefore.trans (List.prefix_append _ _), hop⟩
    obtain ⟨result, w', happend, hgood⟩ := hbehind.append hkey net' false payload.2.1 payload.2.2
    have hsame : w'.silent = (R.streamRun (ops ++ [.reconcile net false] ++ later)).silent := by
      have hlast := hanswered _ List.prefix_rfl
      rw [streamRun_concat, streamStep, happend] at hlast
      rw [hlast, hanswered _ (List.prefix_append _ _)]
    rw [happend]
    exact (hgood hsame).2
  · exact append_unusable hkey net' false payload.1 _

/-- An append whose acknowledgement comes late, a recovery that returns, and then an append that is
refused, though the relay answers each of the three frames. -/
theorem late_run (hkey : R.AnchorUsable) (hnet : R.Live net)
    (payload : { payload : Fields F // (Json.obj payload).WF ∧
      (Json.obj payload).writable false = true })
    (hwritable : ∀ rs w, R.Settled rs w → rs.length ≤ 1 → R.Writable w payload.1) :
    (R.guest.reconcileRemoteOver (R.streamPort net false)
      (R.streamRun [.append payload net true])).1 = .ok () ∧
    R.Writable (R.streamRun [.append payload net true, .reconcile net false]) payload.1 ∧
    (∀ before, before <+: [.append payload net true, .reconcile net false,
      .append payload net false] → (R.streamRun before).silent = 0) ∧
    ∃ exc, (R.guest.appendPayloadOver (R.streamPort net false) payload.1
      (R.streamRun [.append payload net true, .reconcile net false])).1 = .error exc := by
  have h₀ := R.settled_blank
  obtain ⟨exc, w₁, w₂, x, happend, hreconcile, hsilent₁, hsilent₂, h₂, hstale⟩ := h₀.late hkey hnet
    payload.2.1 payload.2.2 (hwritable _ _ h₀ (Nat.zero_le _)) rfl (by simp)
  have hfirst : R.streamRun [.append payload net true] = w₁ := congrArg Prod.snd happend
  have hsecond : R.streamRun [.append payload net true, .reconcile net false] = w₂ := by
    refine (streamRun_concat [.append payload net true] _).trans ?_
    rw [hfirst]
    exact congrArg Prod.snd hreconcile
  -- the second append reads what the recovery left
  obtain ⟨result, w₃, hagain, -, hrefused, hlive⟩ :=
    h₂.append_prompt hkey net payload.2.1 payload.2.2
  have hanswered := hlive (.inr hstale) (by simp) hnet
  have hthird : R.streamRun [.append payload net true, .reconcile net false,
      .append payload net false] = w₃ := by
    refine (streamRun_concat [.append payload net true, .reconcile net false] _).trans ?_
    rw [hsecond]
    exact congrArg Prod.snd hagain
  refine ⟨?_, ?_, fun before hbefore => ?_, ?_⟩
  · rw [hfirst, hreconcile]
  · rw [hsecond]
    exact hwritable _ _ h₂ (by simp)
  · have hcases : before = [] ∨ before = [.append payload net true] ∨
        before = [.append payload net true, .reconcile net false] ∨
        before = [.append payload net true, .reconcile net false, .append payload net false] := by
      simpa using (List.mem_inits _ _).2 hbefore
    rcases hcases with rfl | rfl | rfl | rfl
    · rfl
    · rw [hfirst]
      exact hsilent₁
    · rw [hsecond]
      exact hsilent₂
    · rw [hthird]
      exact hanswered.trans hsilent₂
  · rw [hsecond, hagain]
    exact hrefused hstale hanswered

/-! ## A late acknowledgement -/

open Microvm

/-- A small event. -/
def samplePayload : { payload : Fields Literal // (Json.obj payload).WF ∧
    (Json.obj payload).writable false = true } :=
  ⟨completionPayload "t" [], by
    have hkeys : ["record_type".toList, "timestamp".toList, "event_type".toList,
      "data".toList].Nodup := by decide
    exact ⟨hkeys, trivial, trivial, trivial, ⟨List.nodup_nil, trivial⟩, trivial⟩, rfl⟩

theorem sample_usable : sampleRelay.AnchorUsable := fun _ h => nomatch h

theorem sample_live : sampleRelay.Live sampleNetwork := ⟨by decide, rfl, by decide⟩

/-- The line of the small event is short. -/
theorem length_sample {previous : Option Str} (hprevious : ∀ p ∈ previous, isHex64 p = true)
    {hash : Str} (hhash : isHex64 hash = true) :
    spacedLength (completionRecord (F := Literal) "t" [] previous hash) ≤ 1000 := by
  have hzero :
      spacedLength (completionRecord (F := Literal) "t" [] (some zeroHash) zeroHash) ≤ 1000 := by
    decide +kernel
  have hnone : spacedLength (completionRecord (F := Literal) "t" [] none zeroHash) ≤ 1000 := by
    decide +kernel
  have hsame := spacedLength_completionRecord (F := Literal) "t" [] [] previous hhash
  rcases previous with _ | p
  · omega
  · have hp := length_renderStr_hex (hprevious p rfl) true
    have h₀ := length_renderStr_hex (t := zeroHash) (by decide) true
    have hrecord := spacedLength_eq (completionRecord (F := Literal) "t" [] (some p) zeroHash)
      (List.cons_ne_nil _ _)
    have hrecord' := spacedLength_eq (completionRecord (F := Literal) "t" [] (some zeroHash) zeroHash)
      (List.cons_ne_nil _ _)
    have hstr (t : Str) : ((Json.str t : Json Literal).norm.render ⟨true, true⟩).length =
      (renderStr true t).length := rfl
    simp only [completionRecord, completionPayload, previousJson, List.cons_append, List.nil_append,
      List.map_cons, List.map_nil, List.sum_cons, List.sum_nil, fieldSize, hstr, hp, h₀]
      at hrecord hrecord' hzero hsame ⊢
    omega

/-- The ledger can write the small event twice. -/
theorem sample_writable {rs : List (Fields Literal × Str)} {w : StreamWorld}
    (h : sampleRelay.Settled rs w) (hshort : rs.length ≤ 1) :
    sampleRelay.Writable w samplePayload.1 := by
  obtain ⟨record, hash, hseal⟩ := exists_sealRecord sampleRelay.guest "t" (lastHash none rs)
    (show (Json.obj ([] : Fields Literal)).writable true = true from rfl)
  have hsealed := sealRecord_sealed sampleRelay.guest samplePayload.2.1 hseal
  obtain ⟨rfl, hhash⟩ := sealRecord_completion hseal
  have hline := length_sample (isHex64_lastHash h.inv.disk.chained) hhash
  have hledger : (w.disk.ledger.getD []).length ≤ 61441 := by
    rw [h.inv.disk.ledger]
    rcases rs with _ | ⟨x, _ | ⟨y, rs⟩⟩
    · exact Nat.zero_le _
    · have hx := (h.inv.fits x (by simp)).2
      rw [if_neg (List.cons_ne_nil _ _), Option.getD_some]
      have htext : ledgerText [x] = recordLine x.1 ++ ['\n'] := by simp [ledgerText]
      rw [htext, length_recordLine_encoded]
      exact Nat.succ_le_succ hx
    · simp at hshort
  refine ⟨_, _, _, _, h.verify, hseal, jsonFile_eq hsealed.writable, ?_, ?_⟩
  · rw [length_recordLine_encoded]
    omega
  · rw [length_recordLine_encoded]
    have hmax : sampleRelay.ledger.maxLedgerBytes = 64 * 1024 * 1024 := rfl
    rw [hmax]
    omega

/-- A late acknowledgement in a small run. -/
theorem late_ack_refuses_append :
    (sampleRelay.guest.reconcileRemoteOver (sampleRelay.streamPort sampleNetwork false)
      (sampleRelay.streamRun [.append samplePayload sampleNetwork true])).1 = .ok () ∧
    sampleRelay.Writable (sampleRelay.streamRun [.append samplePayload sampleNetwork true,
      .reconcile sampleNetwork false]) samplePayload.1 ∧
    (sampleRelay.streamRun [.append samplePayload sampleNetwork true, .reconcile sampleNetwork false,
      .append samplePayload sampleNetwork false]).silent = 0 ∧
    ∃ exc, (sampleRelay.guest.appendPayloadOver (sampleRelay.streamPort sampleNetwork false)
      samplePayload.1 (sampleRelay.streamRun [.append samplePayload sampleNetwork true,
        .reconcile sampleNetwork false])).1 = .error exc := by
  obtain ⟨hreconciled, hwritable, hanswered, hrefused⟩ := late_run sample_usable sample_live
    samplePayload fun _ _ h hshort => sample_writable h hshort
  exact ⟨hreconciled, hwritable, hanswered _ List.prefix_rfl, hrefused⟩

/-- The append after the recovery, by the general fact. -/
theorem sample_refused :
    ∃ exc, (sampleRelay.guest.appendPayloadOver (sampleRelay.streamPort sampleNetwork false)
      samplePayload.1 (sampleRelay.streamRun ([.append samplePayload sampleNetwork true] ++
        [.reconcile sampleNetwork false] ++ []))).1 = .error exc := by
  obtain ⟨hreconciled, -, hanswered, -⟩ := late_run sample_usable sample_live samplePayload
    fun _ _ h hshort => sample_writable h hshort
  refine late_ack_refuses_appends sampleRelay [.append samplePayload sampleNetwork true] []
    sampleNetwork sampleNetwork samplePayload ⟨[], _, List.prefix_rfl, rfl, ?_⟩ hanswered hreconciled
    (fun _ h => absurd h List.not_mem_nil)
  exact sample_writable sampleRelay.settled_blank (Nat.zero_le _)

end Relay

end Bulldog.Audit
