import Bulldog.Anchor.Checkpoint
import Bulldog.Audit.Ledger

/-!
# Appending to the ledger

`_append_payload` and `reconcile_remote` of `audit.py`, the HTTPS transport that they submit
checkpoints through, and the collector at its other end. What the network does with a request is
part of the call, and so is the size of the collector's database.
-/

namespace Bulldog.Audit

open Anchor

variable {F : Type} [PyFloat F]

/-- The ledger's files, the collector's rows, and the frames sent so far. -/
structure World where
  disk : Disk
  rows : List Row
  sent : List Bytes

/-- What becomes of a request. -/
inductive Fate where
  /-- The collector gets it, and its answer arrives. -/
  | delivered
  /-- The collector never gets it. -/
  | lost
  /-- The collector gets it, and its answer is lost. -/
  | answerLost
  deriving DecidableEq

/-- What the network does with the request of a call, and the size of the collector's database when
it gets there. -/
structure Network where
  fate : Fate
  pageBytes : ℕ

/-- The two ends of a transport, and the libraries between them. -/
structure Setting (F : Type) where
  crypto : Crypto
  builtins : Builtins F
  /-- The decoders of UTF-16 and UTF-32. -/
  wide : Encoding → Bytes → Option Str
  ledger : AuditLedger
  store : AnchorStore
  /-- The ledger's identity holds the key that the collector derives for its session. -/
  paired : sessionKey crypto store.master ledger.identity.session = .ok ledger.identity.key

namespace Setting

variable (S : Setting F)

/-- `Handler.do_POST` on the body of a well-framed request: the body of the answer, or the exception
that it answers with status 409. -/
def post (raw : Bytes) (pageBytes : ℕ) : Action (List Row) Exc Bytes := do
  raiseIf (raw.length = 0 ∨ raw.length > maxFrame) (anchorError "invalid content length")
  let message ← decode (F := F) S.wide raw
  let ack ← S.store.accept S.crypto message pageBytes
  canonical ack

/-- `opener.open(request)`, which raises where there is no answer and where its status is not 200. -/
def exchange (net : Network) (frame : Bytes) : Action World Exc Bytes := do
  .update fun w => { w with sent := w.sent ++ [frame] }
  match net.fate with
  | .lost => .raise (.builtin .osError)
  | .delivered =>
    .handle (.zoom World.rows (fun rows w => { w with rows }) (S.post frame net.pageBytes))
      fun _ => .raise (.builtin .osError)
  | .answerLost => do
    let _ ← .handle (.zoom World.rows (fun rows w => { w with rows }) (S.post frame net.pageBytes))
      fun _ => pure []
    .raise (.builtin .osError)

/-- `HTTPSAnchorTransport.submit(sequence, record)` of a ledger record, whose hash is a string. -/
def submit (net : Network) (sequence : ℕ) (record : Fields F) : Action World Exc (Fields F) := do
  let message ← checkpoint S.crypto S.ledger.identity.session sequence record
    S.ledger.identity.key false
  let encoded ← canonical message
  raiseIf (encoded.length > maxFrame) (anchorError "audit record exceeds framing limit")
  let answer ← S.exchange net encoded
  let ack ← decode S.wide (answer.take (maxFrame + 1))
  let head ← orRaise ((record.get "record_hash").bind strOf) (Exc.builtin .keyError)
  S.ledger.identity.checkAck S.crypto ack sequence head
  return ack

/-- `_write_anchor(sequence=sequence, head_hash=head_hash)`. -/
def writeAnchor (sequence : ℕ) (head : Str) : Action World Exc Unit :=
  match S.ledger.anchorKey with
  | none => pure ()
  | some key => do
    let mac ← mac S.crypto key sequence head
    let file ← jsonFile (F := F)
      [("sequence", .int sequence), ("head_hash", .str head), ("mac", .str mac)]
    .update fun w => { w with disk := { w.disk with anchor := some file } }

/-- `_write_remote_anchor(sequence=sequence, head_hash=head_hash, record=record)`. -/
def writeRemoteAnchor (net : Network) (sequence : ℕ) (head : Str) (record : Fields F) :
    Action World Exc Unit :=
  .handle (do
      let ack ← S.submit net sequence record
      S.ledger.identity.checkAck S.crypto ack sequence head
      let file ← jsonFile ack
      .update fun w => { w with disk := { w.disk with remote := some file } })
    fun e => .raise (.wrapped .auditIntegrityError "remote audit anchor delivery failed: " e)

/-- The exception that refuses to append to a ledger with this fault. -/
def refusal : Option Fault → Exc
  | some ⟨text, some cause⟩ =>
    .wrapped .auditIntegrityError ("refusing append to invalid ledger: " ++ text) cause
  | some ⟨text, none⟩ => auditIntegrityError ("refusing append to invalid ledger: " ++ text)
  | none => auditIntegrityError "refusing append to invalid ledger: None"

/-- The record that `_append_payload` makes of a payload, and its hash. -/
def sealRecord (payload : Fields F) (previous : Option Str) : Except Exc (Fields F × Str) := do
  let record := payload.set "previous_hash" (previousJson previous)
  let hash ← calculateHash S.crypto record
  return (record.set "record_hash" (.str hash), hash)

/-- `_append_payload(payload)`. -/
def appendPayload (net : Network) (payload : Fields F) : Action World Exc Str := do
  let w ← .read
  let existing ← S.ledger.verifyUnlocked S.crypto S.builtins w.disk true true
  raiseIf (!existing.valid) (refusal existing.error)
  let (record, hash) ← S.sealRecord payload existing.headHash
  let encoded ← jsonFile record
  raiseIf (encoded.length > 60 * 1024)
    (auditIntegrityError "audit record exceeds transport framing budget")
  raiseIf ((w.disk.ledger.getD []).length + encoded.length > S.ledger.maxLedgerBytes)
    (auditIntegrityError "audit storage budget exhausted")
  .update fun w =>
    { w with disk := { w.disk with
        ledger := some (w.disk.ledger.getD [] ++ encoded)
        head := some (encodeUtf8 (hash ++ ['\n'])) } }
  S.writeAnchor (existing.records + 1) hash
  S.writeRemoteAnchor net (existing.records + 1) hash record
  return hash

/-- The last record that `reconcile_remote` reads. -/
def lastRecord : Option (Json F) → List Str → Except Exc (Option (Json F))
  | last, [] => .ok last
  | last, line :: rest =>
    if Str.strip line = [] then lastRecord last rest
    else do
      let record ← orRaise (loads line) (.builtin .valueError)
      lastRecord (some record) rest

/-- A `dict`. -/
def dictOf : Json F → Option (Fields F)
  | .obj fs => some fs
  | _ => none

/-- `reconcile_remote()`. -/
def reconcileRemote (net : Network) : Action World Exc Unit := do
  let w ← .read
  let result ← S.ledger.verifyUnlocked S.crypto S.builtins w.disk true false
  raiseIf (!result.valid || result.records == 0)
    (auditIntegrityError "cannot recover an empty or invalid local ledger")
  let file ← orRaise w.disk.ledger (Exc.builtin .osError)
  let text ← orRaise (decodeUtf8 file) (Exc.builtin .unicodeError)
  let last ← lastRecord (F := F) none (Str.lines text)
  let record ← orRaise (last.bind dictOf) (Exc.builtin .assertionError)
  S.writeRemoteAnchor net result.records (result.headHash.getD []) record

end Setting

end Bulldog.Audit
