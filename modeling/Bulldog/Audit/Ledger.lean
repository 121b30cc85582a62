import Bulldog.Anchor.Store

/-!
# The audit ledger

`AuditLedger` of `audit.py` with a versioned transport: one record a line, each with the hash of the
record before it, and beside the ledger a head checkpoint, an optional external anchor, and the last
acknowledgement of the remote collector. A file that is not UTF-8 is refused before its first line.
-/

namespace Bulldog.Audit

open Anchor

variable {F : Type} [PyFloat F]

/-! ## Transports -/

/-- `AnchorIdentity`. -/
structure AnchorIdentity where
  session : Str
  key : Bytes
  /-- `__post_init__` refuses anything else. -/
  session_hex : isHex64 session = true
  key_length : 32 ≤ key.length

/-- `AnchorIdentity.check_ack(ack, sequence, head_hash)`. -/
def AnchorIdentity.checkAck (C : Crypto) (identity : AnchorIdentity) (ack : Fields F)
    (sequence : ℕ) (head : Str) : Except Exc Unit := do
  verify C ack identity.key "acknowledgement"
  let body ← canonical (ack.erase "mac")
  let expected ← canonical (ackFields (F := F) identity.session sequence head)
  raiseIf (body ≠ expected) (anchorError "acknowledgement identity mismatch")

/-! ## The ledger -/

/-- `AuditLedger`, less its files and its transport. -/
structure LedgerOptions where
  maxLedgerBytes : ℕ
  /-- Whether there is an `anchor_path`, and then the `anchor_key`. -/
  anchorKey : Option (Option Bytes)

/-- `AuditLedger` with a transport, less its files. -/
structure AuditLedger extends LedgerOptions where
  identity : AnchorIdentity

/-- The files of a ledger. -/
structure Disk where
  /-- `path`. -/
  ledger : Option Bytes
  /-- `head_path`. -/
  head : Option Bytes
  /-- `anchor_path`. -/
  anchor : Option Bytes
  /-- `remote_checkpoint_path`. -/
  remote : Option Bytes
  deriving DecidableEq

/-- Why a ledger is not valid: a text, and the exception whose text follows it. -/
structure Fault where
  text : String
  cause : Option Exc
  deriving DecidableEq

/-- `AuditVerification`. -/
structure AuditVerification where
  valid : Bool
  records : ℕ
  errorIndex : Option ℕ
  error : Option Fault
  headHash : Option Str
  deriving DecidableEq

/-- `AuditVerification(False, ...)`. -/
def AuditVerification.invalid (records : ℕ) (errorIndex : Option ℕ) (error : Fault)
    (headHash : Option Str) : AuditVerification :=
  ⟨false, records, errorIndex, some error, headHash⟩

/-- `_calculate_hash(payload)`. -/
def calculateHash (C : Crypto) (payload : Fields F) : Except Exc Str :=
  match dumps ⟨false, true⟩ true (.obj (payload.erase "record_hash")) with
  | some text => .ok (hexdigest (C.sha256 (encodeUtf8 text)))
  | none => .error (.builtin .valueError)

/-- `_mac(key, sequence=sequence, head_hash=head_hash)`, where no key and an empty one are refused
alike. -/
def mac (C : Crypto) (key : Option Bytes) (sequence : ℤ) (head : Str) : Except Exc Str :=
  match key with
  | some (b :: key) =>
    .ok (hexdigest (C.hmac (b :: key) (encodeUtf8 (renderInt sequence ++ ':' :: head))))
  | _ => .error (auditIntegrityError "audit anchor key is missing")

/-- `read_text(encoding="utf-8")`. -/
def readText (file : Bytes) : Except Exc Str :=
  (orRaise (decodeUtf8 file) (.builtin .unicodeError)).map Str.universalNewlines

/-- What `_write_atomic_json` leaves in the file. -/
def jsonFile (payload : Fields F) : Except Exc Bytes :=
  match dumps ⟨true, true⟩ true (.obj payload) with
  | some text => .ok (encodeUtf8 (text ++ ['\n']))
  | none => .error (.builtin .valueError)

/-- The body of `_read_anchor` under its `try`. -/
def parseAnchor (B : Builtins F) (file : Bytes) : Except Exc (ℤ × Str × Str) := do
  let text ← readText file
  let value ← orRaise (loads (F := F) text) (.builtin .valueError)
  let .obj data := value | .error (.builtin .typeError)
  let sequence ← orRaise (Fields.get data "sequence") (.builtin .keyError)
  let sequence ← orRaise (B.int sequence) (.builtin .valueError)
  let head ← orRaise (Fields.get data "head_hash") (.builtin .keyError)
  let mac ← orRaise (Fields.get data "mac") (.builtin .keyError)
  return (sequence, B.str head, B.str mac)

/-- `_read_anchor()`, with the sequence and the head as its caller converts them. -/
def LedgerOptions.readAnchor (C : Crypto) (B : Builtins F) (ledger : LedgerOptions) (disk : Disk) :
    Except Exc (Option (ℤ × Str)) :=
  match ledger.anchorKey, disk.anchor with
  | some key, some file =>
    match parseAnchor B file with
    | .error e => .error (.wrapped .auditIntegrityError "invalid external anchor: " e)
    | .ok (sequence, head, supplied) => do
      let expected ← mac C key sequence head
      raiseIf (!isAscii supplied) (.builtin .typeError)
      raiseIf (supplied ≠ expected)
        (auditIntegrityError "external audit anchor signature mismatch")
      return some (sequence, head)
  | _, _ => .ok none

/-- The body of `_verify_remote_checkpoint` under its `try`. -/
def AuditLedger.checkRemote (C : Crypto) (F : Type) [PyFloat F] (ledger : AuditLedger)
    (disk : Disk) (records : ℕ) (head : Option Str) : Except Exc Unit := do
  let file ← orRaise disk.remote (.builtin .osError)
  let text ← readText file
  let value ← orRaise (loads (F := F) text) (.builtin .valueError)
  let .obj data := value | .error (.builtin .attributeError)
  ledger.identity.checkAck C data records (head.getD [])

/-- `_verify_remote_checkpoint(records=records, head_hash=head_hash)`. -/
def AuditLedger.verifyRemoteCheckpoint (C : Crypto) (F : Type) [PyFloat F] (ledger : AuditLedger)
    (disk : Disk) (records : ℕ) (head : Option Str) : Option Fault :=
  if records = 0 ∧ disk.remote = none then none
  else match ledger.checkRemote C F disk records head with
    | .error e => some ⟨"remote audit checkpoint invalid: ", some e⟩
    | .ok () => none

/-- The loop of `_verify_unlocked` over the lines, from line `index` on: the verification that it
returns early, or the last hash and the number of records. -/
def verifyLines (C : Crypto) (F : Type) [PyFloat F] (previous : Option Str) (records index : ℕ) :
    List Str → Except Exc (AuditVerification ⊕ (Option Str × ℕ))
  | [] => .ok (.inr (previous, records))
  | raw :: rest =>
    if Str.strip raw = [] then verifyLines C F previous records (index + 1) rest
    else match loads (F := F) (Str.strip raw) with
      | none =>
        .ok (.inl (.invalid records (some index) ⟨"invalid JSON: ", some (.builtin .valueError)⟩
          previous))
      | some (.obj record) =>
        match (Fields.get record "record_hash").bind strOf with
        | none =>
          .ok (.inl (.invalid records (some index) ⟨"missing record_hash", none⟩ previous))
        | some stored =>
          if previousHash ((Fields.get record "previous_hash").getD .null) ≠ some previous then
            .ok (.inl (.invalid records (some index) ⟨"previous_hash mismatch", none⟩ previous))
          else do
            let hash ← calculateHash C record
            if hash ≠ stored then
              .ok (.inl (.invalid records (some index) ⟨"record_hash mismatch", none⟩ previous))
            else verifyLines C F (some stored) (records + 1) (index + 1) rest
      | some _ => .error (.builtin .attributeError)

/-- `head_path.read_text(encoding="utf-8").strip()`, where the head is to be verified and there is
one. -/
def Disk.headText (disk : Disk) (verifyHead : Bool) : Except Exc (Option Str) :=
  match verifyHead, disk.head with
  | true, some file => (readText file).map fun text => some (Str.strip text)
  | _, _ => .ok none

/-- What `_verify_remote_checkpoint` finds for a number of records and a head. -/
abbrev RemoteCheck := ℕ → Option Str → Option Fault

/-- The part of `_verify_unlocked` after the loop. -/
def LedgerOptions.verifyCheckpoints (C : Crypto) (B : Builtins F) (ledger : LedgerOptions)
    (remote : RemoteCheck) (disk : Disk) (verifyHead verifyAnchor : Bool) (previous : Option Str)
    (records : ℕ) : Except Exc AuditVerification := do
  let checkpoint ← disk.headText verifyHead
  if checkpoint.any (· ≠ previous.getD []) then
    return .invalid records none ⟨"head checkpoint mismatch", none⟩ previous
  else if !verifyAnchor then
    return ⟨true, records, none, none, previous⟩
  else match ledger.readAnchor C B disk with
    | .error (.raised .auditIntegrityError message) =>
      return .invalid records none ⟨message, none⟩ previous
    | .error (.wrapped .auditIntegrityError message cause) =>
      return .invalid records none ⟨message, some cause⟩ previous
    | .error e => .error e
    | .ok anchor =>
      if anchor.any (·.1 ≠ (records : ℤ)) then
        return .invalid records none ⟨"external anchor sequence mismatch", none⟩ previous
      else if anchor.any (·.2 ≠ previous.getD []) then
        return .invalid records none ⟨"external anchor head mismatch", none⟩ previous
      else match remote records previous with
        | some fault => return .invalid records none fault previous
        | none => return ⟨true, records, none, none, previous⟩

/-- `_verify_unlocked(verify_head=verify_head, verify_anchor=verify_anchor)`, where
`_verify_remote_checkpoint` finds what `remote` says. -/
def LedgerOptions.verifyWith (C : Crypto) (B : Builtins F) (ledger : LedgerOptions)
    (remote : RemoteCheck) (disk : Disk) (verifyHead verifyAnchor : Bool) :
    Except Exc AuditVerification :=
  match disk.ledger with
  | none => do
    let checkpoint ← disk.headText verifyHead
    if checkpoint.any (· ≠ []) then
      return .invalid 0 none ⟨"ledger missing but head checkpoint exists", none⟩ none
    else match remote 0 none with
      | some fault => return .invalid 0 none fault none
      | none => return ⟨true, 0, none, none, none⟩
  | some file =>
    if file.length > ledger.maxLedgerBytes then
      .ok (.invalid 0 none ⟨"audit storage budget exceeded", none⟩ none)
    else do
      let text ← orRaise (decodeUtf8 file) (.builtin .unicodeError)
      match ← verifyLines C F none 0 0 (Str.lines text) with
      | .inl early => return early
      | .inr (previous, records) =>
        ledger.verifyCheckpoints C B remote disk verifyHead verifyAnchor previous records

/-- `_verify_unlocked` with a transport. -/
def AuditLedger.verifyUnlocked (C : Crypto) (B : Builtins F) (ledger : AuditLedger) (disk : Disk)
    (verifyHead verifyAnchor : Bool) : Except Exc AuditVerification :=
  ledger.verifyWith C B (ledger.verifyRemoteCheckpoint C F disk) disk verifyHead verifyAnchor

end Bulldog.Audit
