import Bulldog.Anchor.Evidence
import Bulldog.Audit.Agreement

/-!
# The host relay

A guest has no network: `RelayAnchorTransport` of `audit_transport.py` writes its checkpoints, with
their records, to a port, and `HostAnchorRelay` on the host keeps them in an anchor store of its own
and submits their hashes to the collector. The ledger's code is the same over any transport, so it
is given here over any, and the HTTPS transport is one of them.
-/

namespace Bulldog.Audit

open Anchor

variable {F : Type} [PyFloat F]

/-! ## A ledger over any transport -/

/-- Where a ledger's files are in a state, and the transport that it submits checkpoints through. -/
structure Transport (F σ : Type) where
  disk : σ → Disk
  setDisk : Disk → σ → σ
  submit : ℕ → Fields F → Action σ Exc (Fields F)

namespace Setting

variable (S : Setting F) {σ : Type} (transport : Transport F σ)

/-- `_write_anchor(sequence=sequence, head_hash=head_hash)`. -/
def writeAnchorOver (sequence : ℕ) (head : Str) : Action σ Exc Unit :=
  match S.ledger.anchorKey with
  | none => pure ()
  | some key => do
    let mac ← mac S.crypto key sequence head
    let file ← jsonFile (F := F)
      [("sequence", .int sequence), ("head_hash", .str head), ("mac", .str mac)]
    .update fun s => transport.setDisk { transport.disk s with anchor := some file } s

/-- `_write_remote_anchor(sequence=sequence, head_hash=head_hash, record=record)`. -/
def writeRemoteAnchorOver (sequence : ℕ) (head : Str) (record : Fields F) : Action σ Exc Unit :=
  .handle (do
      let ack ← transport.submit sequence record
      S.ledger.identity.checkAck S.crypto ack sequence head
      let file ← jsonFile ack
      .update fun s => transport.setDisk { transport.disk s with remote := some file } s)
    fun e => .raise (.wrapped .auditIntegrityError "remote audit anchor delivery failed: " e)

/-- `_append_payload(payload)`. -/
def appendPayloadOver (payload : Fields F) : Action σ Exc Str := do
  let s ← .read
  let existing ← S.ledger.verifyUnlocked S.crypto S.builtins (transport.disk s) true true
  raiseIf (!existing.valid) (refusal existing.error)
  let (record, hash) ← S.sealRecord payload existing.headHash
  let encoded ← jsonFile record
  raiseIf (encoded.length > 60 * 1024)
    (auditIntegrityError "audit record exceeds transport framing budget")
  raiseIf (((transport.disk s).ledger.getD []).length + encoded.length > S.ledger.maxLedgerBytes)
    (auditIntegrityError "audit storage budget exhausted")
  .update fun s => transport.setDisk { transport.disk s with
    ledger := some ((transport.disk s).ledger.getD [] ++ encoded)
    head := some (encodeUtf8 (hash ++ ['\n'])) } s
  S.writeAnchorOver transport (existing.records + 1) hash
  S.writeRemoteAnchorOver transport (existing.records + 1) hash record
  return hash

/-- `reconcile_remote()`. -/
def reconcileRemoteOver : Action σ Exc Unit := do
  let s ← .read
  let result ← S.ledger.verifyUnlocked S.crypto S.builtins (transport.disk s) true false
  raiseIf (!result.valid || result.records == 0)
    (auditIntegrityError "cannot recover an empty or invalid local ledger")
  let file ← orRaise (transport.disk s).ledger (Exc.builtin .osError)
  let text ← orRaise (decodeUtf8 file) (Exc.builtin .unicodeError)
  let last ← lastRecord (F := F) none (Str.lines text)
  let record ← orRaise (last.bind dictOf) (Exc.builtin .assertionError)
  S.writeRemoteAnchorOver transport result.records (result.headHash.getD []) record

/-- `HTTPSAnchorTransport`. -/
def https (net : Network) : Transport F World where
  disk := World.disk
  setDisk disk w := { w with disk }
  submit := S.submit net

theorem appendPayload_eq_over (net : Network) (payload : Fields F) :
    S.appendPayload net payload = S.appendPayloadOver (S.https net) payload := rfl

theorem reconcileRemote_eq_over (net : Network) :
    S.reconcileRemote net = S.reconcileRemoteOver (S.https net) := rfl

end Setting

/-! ## The relay -/

/-- A guest's ledger, the relay on its host, and the collector. -/
structure Relay (F : Type) where
  crypto : Crypto
  builtins : Builtins F
  /-- The decoders of UTF-16 and UTF-32. -/
  wide : Encoding → Bytes → Option Str
  /-- The guest's ledger, with the identity of its transport. -/
  ledger : AuditLedger
  /-- `HostAnchorRelay.evidence`. -/
  evidence : AnchorStore
  /-- The identity of `HostAnchorRelay.upstream`. -/
  upstream : AnchorIdentity
  collector : AnchorStore
  /-- The constructor refuses a relay for another session. -/
  session_eq : upstream.session = ledger.identity.session
  /-- Each of the two identities holds the key that the store at its other end derives. -/
  paired : sessionKey crypto evidence.master ledger.identity.session = .ok ledger.identity.key
  upstream_paired : sessionKey crypto collector.master upstream.session = .ok upstream.key

/-- The guest's files, the collector's rows with the frames sent to it, and the relay's rows. -/
structure RelayWorld extends World where
  evidence : List Row

/-- What becomes of the guest's frame and of the relay's request, with the sizes of the two
databases when they get there. -/
structure RelayNetwork where
  port : Fate
  evidenceBytes : ℕ
  upstream : Network

namespace Relay

variable (R : Relay F)

/-- The guest and the store of the relay. -/
def guest : Setting F where
  crypto := R.crypto
  builtins := R.builtins
  wide := R.wide
  ledger := R.ledger
  store := R.evidence
  paired := R.paired

/-- The relay's transport and the collector. -/
def host : Setting F where
  crypto := R.crypto
  builtins := R.builtins
  wide := R.wide
  ledger := { R.ledger with identity := R.upstream }
  store := R.collector
  paired := R.upstream_paired

/-- `HostAnchorRelay.handle(raw)`. -/
def handle (net : RelayNetwork) (raw : Bytes) : Action RelayWorld Exc Bytes := do
  let message ← decode (F := F) R.wide raw
  raiseIf ((message.get "session").bind strOf ≠ some R.upstream.session)
    (anchorError "relay rejects foreign session")
  raiseIf ((message.get "record").isNone = true)
    (anchorError "relay requires complete local audit evidence")
  let ack ← .zoom RelayWorld.evidence (fun evidence w => { w with evidence })
    (R.evidence.accept R.crypto message net.evidenceBytes)
  -- Local evidence deliberately survives a failed upstream submission.
  let sequence ← orRaise ((message.get "sequence").bind sequenceOf) (Exc.builtin .keyError)
  let record ← orRaise ((message.get "record").bind Setting.dictOf) (Exc.builtin .typeError)
  let _ ← .zoom RelayWorld.toWorld (fun world w => { w with toWorld := world })
    (R.host.submit net.upstream sequence record)
  let encoded ← canonical ack
  return encoded ++ [10]

/-- A line written to the port, and the answer. The relay answers nothing where it raises. -/
def exchange (net : RelayNetwork) (line : Bytes) : Action RelayWorld Exc Bytes :=
  match net.port with
  | .lost => .raise (anchorError "relay acknowledgement timeout")
  | .delivered => .handle (R.handle net line) fun _ =>
      .raise (anchorError "relay acknowledgement timeout")
  | .answerLost => do
    let _ ← .handle (R.handle net line) fun _ => pure []
    .raise (anchorError "relay acknowledgement timeout")

/-- The line that `submit` reads off the port, byte by byte. -/
def readLine (answer : Bytes) : Except Exc Bytes := do
  let raw := answer.takeWhile (· ≠ 10)
  raiseIf (raw.length > maxFrame) (anchorError "relay acknowledgement exceeds size limit")
  raiseIf (raw.length = answer.length) (anchorError "relay acknowledgement timeout")
  return raw

/-- `RelayAnchorTransport.submit(sequence, record)` of a ledger record, whose hash is a string. -/
def submit (net : RelayNetwork) (sequence : ℕ) (record : Fields F) :
    Action RelayWorld Exc (Fields F) := do
  let message ← checkpoint R.crypto R.ledger.identity.session sequence record
    R.ledger.identity.key true
  let encoded ← canonical message
  raiseIf ((encoded ++ [10]).length > maxFrame) (anchorError "audit record exceeds framing limit")
  let answer ← R.exchange net encoded
  let raw ← readLine answer
  let ack ← decode R.wide raw
  let head ← orRaise ((record.get "record_hash").bind strOf) (Exc.builtin .keyError)
  R.ledger.identity.checkAck R.crypto ack sequence head
  return ack

/-- The guest's transport. -/
def port (net : RelayNetwork) : Transport F RelayWorld where
  disk w := w.disk
  setDisk disk w := { w with disk }
  submit := R.submit net

/-- A call of the guest, with what becomes of its messages. -/
inductive Op (F : Type) [PyFloat F] where
  /-- `append` and `append_event`, on the payload that they make. -/
  | append (payload : { payload : Fields F // (Json.obj payload).WF ∧
      (Json.obj payload).writable false = true }) (net : RelayNetwork)
  /-- `reconcile_remote`. -/
  | reconcile (net : RelayNetwork)

/-- The state after a call. -/
def perform (w : RelayWorld) : Op F → RelayWorld
  | .append payload net => (R.guest.appendPayloadOver (R.port net) payload.1 w).2
  | .reconcile net => (R.guest.reconcileRemoteOver (R.port net) w).2

/-- No files, no rows, and nothing sent. -/
def blank : RelayWorld := ⟨Setting.blank, []⟩

/-- The state after a run from empty stores. -/
def run (ops : List (Op F)) : RelayWorld := ops.foldl R.perform blank

end Relay

end Bulldog.Audit
