import Bulldog.Audit.Write

/-!
# A verification that may raise

`_verify_unlocked` catches what `json.loads` raises, and what the external anchor and the remote checkpoint raise
while they are parsed. It does not catch what a file that is not UTF-8 raises, nor `record.get` of a value that is
no object, nor `encode` of a text with a lone surrogate, nor `hmac.compare_digest` of a text that is not ASCII. Here
it stands with all of these, with the stack that `json` and `str` need, and with the lines that a text stream gives
before it comes to a byte that is wrong.

A text is of characters. Where `json.loads` reads a lone surrogate, U+FFFD stands for it here, and the hash and the
encoding, in which the two differ, are told apart by the text that was read.
-/

namespace Bulldog.Audit

open Anchor

variable {F : Type} [PyFloat F]

/-! ## The interpreter -/

/-- What the files do not say. -/
structure Interpreter (F : Type) where
  /-- The lines that a text stream gives of a file that is not UTF-8, before it raises. -/
  lead : Bytes → List Str
  /-- Whether there is stack for `json.loads`. -/
  reads : Str → Bool
  /-- Whether there is stack for `json.dumps`. -/
  writes : Fields F → Bool
  /-- Whether there is stack for `str`. -/
  spells : Json F → Bool
  /-- What `json.loads` reads of a text with lone surrogates. -/
  lone : Str → Option (Json F)
  /-- The hash of the record that a text with lone surrogates is read as. -/
  loneHash : Str → Option Str
  /-- Whether the head in a checkpoint has no lone surrogate. -/
  encodes : Bytes → Bool

/-- Stack for everything, a text stream that decodes a file at once, and no text with a lone surrogate. -/
def Interpreter.unbounded (F : Type) : Interpreter F where
  lead _ := []
  reads _ := true
  writes _ := true
  spells _ := true
  lone _ := none
  loneHash _ := none
  encodes _ := true

/-- `json.loads(text)`. -/
def Interpreter.loads (I : Interpreter F) (text : Str) : Except Exc (Json F) := do
  raiseIf (I.reads text = false) (.builtin .runtimeError)
  orRaise ((Bulldog.loads text).or (I.lone text)) (.builtin .valueError)

/-- `_calculate_hash(payload)` of what `text` is read as. -/
def Interpreter.calculateHash (I : Interpreter F) (C : Crypto) (text : Str) (payload : Fields F) :
    Except Exc Str := do
  raiseIf (I.writes payload = false) (.builtin .runtimeError)
  match I.loneHash text with
  | some hash => return hash
  | none => Audit.calculateHash C payload

/-- The lines of a file. -/
def Interpreter.lines (I : Interpreter F) (file : Bytes) : List Str :=
  match decodeUtf8 file with
  | some text => Str.lines text
  | none => I.lead file

/-! ## Verifying -/

/-- What `_verify_unlocked` makes of a line. -/
inductive LineOutcome where
  | blank
  | fault (fault : Fault)
  | record (hash : Str)
  deriving DecidableEq

section

variable (I : Interpreter F) (C : Crypto) (B : Builtins F)

/-- One turn of the loop. -/
def Interpreter.checkLine (previous : Option Str) (raw : Str) : Except Exc LineOutcome :=
  if Str.strip raw = [] then .ok .blank
  else match I.loads (Str.strip raw) with
    | .error e => .ok (.fault ⟨"invalid JSON: ", some e⟩)
    | .ok (.obj record) =>
      match (Fields.get record "record_hash").bind strOf with
      | none => .ok (.fault ⟨"missing record_hash", none⟩)
      | some stored =>
        if previousHash ((Fields.get record "previous_hash").getD .null) ≠ some previous then
          .ok (.fault ⟨"previous_hash mismatch", none⟩)
        else do
          let hash ← I.calculateHash C (Str.strip raw) record
          if hash ≠ stored then return .fault ⟨"record_hash mismatch", none⟩ else return .record stored
    -- `record.get` of a value that is no object
    | .ok _ => .error (.builtin .attributeError)

/-- The loop. -/
def Interpreter.scan (previous : Option Str) (records index : ℕ) :
    List Str → Except Exc (AuditVerification ⊕ (Option Str × ℕ))
  | [] => .ok (.inr (previous, records))
  | raw :: rest => do
    match ← I.checkLine C previous raw with
    | .blank => Interpreter.scan previous records (index + 1) rest
    | .fault fault => return .inl (.invalid records (some index) fault previous)
    | .record hash => Interpreter.scan (some hash) (records + 1) (index + 1) rest

/-- The body of `_read_anchor` under its `try`, and the same part of `_verify_remote_checkpoint`. -/
def Interpreter.parseCheckpoint (file : Bytes) : Except Exc (ℤ × Str × Str) := do
  let text ← readText file
  let value ← I.loads text
  let .obj data := value | .error (.builtin .typeError)
  let sequence ← orRaise (Fields.get data "sequence") (.builtin .keyError)
  let sequence ← orRaise (B.int sequence) (.builtin .valueError)
  let head ← orRaise (Fields.get data "head_hash") (.builtin .keyError)
  raiseIf (I.spells head = false) (.builtin .runtimeError)
  let mac ← orRaise (Fields.get data "mac") (.builtin .keyError)
  raiseIf (I.spells mac = false) (.builtin .runtimeError)
  return (sequence, B.str head, B.str mac)

/-- `_read_anchor()`, with the sequence and the head as its caller converts them. -/
def Interpreter.readAnchor (ledger : LedgerOptions) (disk : Disk) : Except Exc (Option (ℤ × Str)) :=
  match ledger.anchorKey, disk.anchor with
  | some key, some file =>
    match I.parseCheckpoint B file with
    | .error e => .error (.wrapped .auditIntegrityError "invalid external anchor: " e)
    | .ok (sequence, head, supplied) => do
      let expected ← mac C key sequence head
      raiseIf (!I.encodes file) (.builtin .unicodeError)
      raiseIf (!isAscii supplied) (.builtin .typeError)
      raiseIf (supplied ≠ expected) (auditIntegrityError "external audit anchor signature mismatch")
      return some (sequence, head)
  | _, _ => .ok none

/-- The remote collector. -/
inductive Collector where
  | off
  | transport (identity : AnchorIdentity)
  /-- `remote_anchor_url` and `remote_anchor_key`, which `__init__` refuses where it is empty. -/
  | url (key : Bytes) (nonempty : key ≠ [])

/-- The body of `_verify_remote_checkpoint` under its `try`, with a transport. -/
def Interpreter.checkTransport (identity : AnchorIdentity) (disk : Disk) (records : ℕ) (head : Option Str) :
    Except Exc Unit := do
  let file ← orRaise disk.remote (.builtin .osError)
  let text ← readText file
  let value ← I.loads text
  let .obj data := value | .error (.builtin .attributeError)
  identity.checkAck C data records (head.getD [])

/-- The body of `_verify_remote_checkpoint` under its `try`, with a URL: the fields, and the MAC that they should
have. -/
def Interpreter.checkUrl (key : Bytes) (file : Bytes) : Except Exc ((ℤ × Str × Str) × Str) := do
  let (sequence, head, supplied) ← I.parseCheckpoint B file
  let expected ← mac C (some key) sequence head
  raiseIf (!I.encodes file) (.builtin .unicodeError)
  return ((sequence, head, supplied), expected)

/-- `_verify_remote_checkpoint(records=records, head_hash=head_hash)`. -/
def Interpreter.verifyRemote (collector : Collector) (disk : Disk) (records : ℕ) (head : Option Str) :
    Except Exc (Option Fault) :=
  match collector with
  | .off => .ok none
  | .transport identity =>
    if records = 0 ∧ disk.remote = none then .ok none
    else match I.checkTransport C identity disk records head with
      | .error e => .ok (some ⟨"remote audit checkpoint invalid: ", some e⟩)
      | .ok () => .ok none
  | .url key _ =>
    match disk.remote with
    | none => .ok (if records = 0 then none else some ⟨"remote audit checkpoint missing", none⟩)
    | some file =>
      match I.checkUrl C B key file with
      | .error e => .ok (some ⟨"invalid remote audit checkpoint: ", some e⟩)
      | .ok ((sequence, remoteHead, supplied), expected) => do
        -- `hmac.compare_digest` is outside the `try`
        raiseIf (!isAscii supplied) (.builtin .typeError)
        if supplied ≠ expected then return some ⟨"remote audit checkpoint signature mismatch", none⟩
        else if sequence ≠ records then return some ⟨"remote audit checkpoint sequence mismatch", none⟩
        else if remoteHead ≠ head.getD [] then return some ⟨"remote audit checkpoint head mismatch", none⟩
        else return none

variable (ledger : LedgerOptions) (collector : Collector) (disk : Disk) (verifyHead verifyAnchor : Bool)

/-- The part of `_verify_unlocked` after the loop. -/
def Interpreter.verifyCheckpoints (previous : Option Str) (records : ℕ) : Except Exc AuditVerification := do
  let checkpoint ← disk.headText verifyHead
  if checkpoint.any (· ≠ previous.getD []) then
    return .invalid records none ⟨"head checkpoint mismatch", none⟩ previous
  else if !verifyAnchor then
    return ⟨true, records, none, none, previous⟩
  else match I.readAnchor C B ledger disk with
    | .error (.raised .auditIntegrityError message) => return .invalid records none ⟨message, none⟩ previous
    | .error (.wrapped .auditIntegrityError message cause) =>
      return .invalid records none ⟨message, some cause⟩ previous
    | .error e => .error e
    | .ok anchor =>
      if anchor.any (·.1 ≠ (records : ℤ)) then
        return .invalid records none ⟨"external anchor sequence mismatch", none⟩ previous
      else if anchor.any (·.2 ≠ previous.getD []) then
        return .invalid records none ⟨"external anchor head mismatch", none⟩ previous
      else match ← I.verifyRemote C B collector disk records previous with
        | some fault => return .invalid records none fault previous
        | none => return ⟨true, records, none, none, previous⟩

/-- `_verify_unlocked(verify_head=verify_head, verify_anchor=verify_anchor)`. -/
def Interpreter.verifyUnlocked : Except Exc AuditVerification :=
  match disk.ledger with
  | none => do
    let checkpoint ← disk.headText verifyHead
    if checkpoint.any (· ≠ []) then
      return .invalid 0 none ⟨"ledger missing but head checkpoint exists", none⟩ none
    else match ← I.verifyRemote C B collector disk 0 none with
      | some fault => return .invalid 0 none fault none
      | none => return ⟨true, 0, none, none, none⟩
  | some file =>
    if file.length > ledger.maxLedgerBytes then
      .ok (.invalid 0 none ⟨"audit storage budget exceeded", none⟩ none)
    else do
      match ← I.scan C none 0 0 (I.lines file) with
      | .inl early => return early
      | .inr (previous, records) => do
        -- the stream raises after the lines that it gives
        raiseIf (decodeUtf8 file = none) (.builtin .unicodeError)
        I.verifyCheckpoints C B ledger collector disk verifyHead verifyAnchor previous records

/-- `_append_payload`, which goes on with `write` where the ledger is valid. -/
def Interpreter.appendPayload (write : AuditVerification → Action Disk Exc Str) : Action Disk Exc Str := do
  let disk ← .read
  let existing ← I.verifyUnlocked C B ledger collector disk true true
  raiseIf (!existing.valid) (Setting.refusal existing.error)
  write existing

end

variable {I : Interpreter F} {C : Crypto} {B : Builtins F} {ledger : LedgerOptions} {collector : Collector}
  {disk : Disk} {verifyHead verifyAnchor : Bool}

/-! ## Without bounds -/

theorem loads_unbounded (text : Str) :
    (Interpreter.unbounded F).loads text = orRaise (Bulldog.loads text) (.builtin .valueError) := by
  change orRaise ((Bulldog.loads text).or none) _ = _
  rw [Option.or_none]

theorem calculateHash_unbounded (text : Str) (payload : Fields F) :
    (Interpreter.unbounded F).calculateHash C text payload = calculateHash C payload := rfl

theorem parseCheckpoint_unbounded (file : Bytes) :
    (Interpreter.unbounded F).parseCheckpoint B file = parseAnchor B file := by
  unfold Interpreter.parseCheckpoint parseAnchor
  simp only [loads_unbounded]
  rfl

theorem scan_unbounded (previous : Option Str) (records index : ℕ) (lines : List Str) :
    (Interpreter.unbounded F).scan C previous records index lines =
      verifyLines C F previous records index lines := by
  induction lines generalizing previous records index with
  | nil => rfl
  | cons raw rest ih =>
    rw [Interpreter.scan, verifyLines, Interpreter.checkLine]
    by_cases hblank : Str.strip raw = []
    · rw [if_pos hblank, if_pos hblank]
      exact ih _ _ _
    · rw [if_neg hblank, if_neg hblank, loads_unbounded]
      rcases hloads : loads (F := F) (Str.strip raw) with _ | (_ | _ | _ | _ | _ | _ | record)
      case some.obj =>
        dsimp only [orRaise]
        rcases hstored : (Fields.get record "record_hash").bind strOf with _ | stored
        · rfl
        · dsimp only
          by_cases hprevious : previousHash ((Fields.get record "previous_hash").getD .null) ≠ some previous
          · rw [if_pos hprevious, if_pos hprevious]
            rfl
          · rw [if_neg hprevious, if_neg hprevious, calculateHash_unbounded]
            rcases calculateHash C record with e | hash
            · rfl
            · by_cases hhash : hash ≠ stored
              · simp only [bind, Except.bind, if_pos hhash]
                rfl
              · simp only [bind, Except.bind, if_neg hhash]
                exact ih _ _ _
      all_goals rfl

theorem readAnchor_unbounded :
    (Interpreter.unbounded F).readAnchor C B ledger disk = ledger.readAnchor C B disk := by
  unfold Interpreter.readAnchor LedgerOptions.readAnchor
  simp only [parseCheckpoint_unbounded]
  rfl

theorem verifyUnlocked_unbounded {remote : RemoteCheck}
    (hremote : ∀ records head,
      (Interpreter.unbounded F).verifyRemote C B collector disk records head = .ok (remote records head)) :
    (Interpreter.unbounded F).verifyUnlocked C B ledger collector disk verifyHead verifyAnchor =
      ledger.verifyWith C B remote disk verifyHead verifyAnchor := by
  have hcheckpoints : ∀ previous records,
      (Interpreter.unbounded F).verifyCheckpoints C B ledger collector disk verifyHead verifyAnchor previous
        records =
        ledger.verifyCheckpoints C B remote disk verifyHead verifyAnchor previous records := by
    intro previous records
    unfold Interpreter.verifyCheckpoints LedgerOptions.verifyCheckpoints
    rw [readAnchor_unbounded, hremote]
    rfl
  unfold Interpreter.verifyUnlocked LedgerOptions.verifyWith
  rcases disk.ledger with _ | file
  · dsimp only
    rw [hremote]
    rfl
  · dsimp only
    split_ifs
    · rfl
    · rw [scan_unbounded, Interpreter.lines]
      rcases hdecode : decodeUtf8 file with _ | text
      · rfl
      · simp only [hcheckpoints]
        rfl

/-- With a transport this is the verification of the ledger. -/
theorem verifyUnlocked_transport (identity : AnchorIdentity) :
    (Interpreter.unbounded F).verifyUnlocked C B ledger (.transport identity) disk verifyHead verifyAnchor =
      AuditLedger.verifyUnlocked C B ⟨ledger, identity⟩ disk verifyHead verifyAnchor := by
  refine verifyUnlocked_unbounded fun records head => ?_
  unfold Interpreter.verifyRemote AuditLedger.verifyRemoteCheckpoint
  dsimp only
  split_ifs
  · rfl
  · have hcheck : (Interpreter.unbounded F).checkTransport C identity disk records head =
        AuditLedger.checkRemote C F ⟨ledger, identity⟩ disk records head := by
      refine bind_congr fun file => bind_congr fun text => ?_
      exact congrArg (fun value => value >>= _) (loads_unbounded text)
    rw [hcheck]
    rcases AuditLedger.checkRemote C F ⟨ledger, identity⟩ disk records head with e | _ <;> rfl

/-- What `_append_payload` does with a valid ledger. -/
def LedgerOptions.writeRecord (C : Crypto) (P : PySort F) (ledger : LedgerOptions) (remote : Remote F)
    (payload : PyFields F) (existing : AuditVerification) : Action Disk Exc Str := do
  let disk ← .read
  let record := payload.set "previous_hash" (previousValue existing.headHash)
  let text ← hashedText P record
  let hash := hashOf C text
  let record := record.set "record_hash" (.str hash)
  let line ← encodedRecord P record
  raiseIf (remote.framed = true ∧ (encodeUtf8 line).length > 60 * 1024)
    (auditIntegrityError "audit record exceeds transport framing budget")
  raiseIf ((disk.ledger.getD []).length + (encodeUtf8 line).length > ledger.maxLedgerBytes)
    (auditIntegrityError "audit storage budget exhausted")
  .update fun disk => { disk with ledger := some (disk.ledger.getD [] ++ encodeUtf8 line) }
  .update fun disk => { disk with head := some (encodeUtf8 (hash ++ ['\n'])) }
  let anchor ← ledger.anchorFile C F (existing.records + 1) hash
  .update fun disk => { disk with anchor := anchor.or disk.anchor }
  let checkpoint ← remote.deliver (existing.records + 1) hash record
  .update fun disk => { disk with remote := checkpoint.or disk.remote }
  return hash

/-- The appending of a record is the check and the write. -/
theorem appendPayload_unbounded (P : PySort F) {remote : Remote F} (payload : PyFields F)
    (hremote : ∀ disk records head,
      (Interpreter.unbounded F).verifyRemote C B collector disk records head =
        .ok (remote.check disk records head)) :
    (Interpreter.unbounded F).appendPayload C B ledger collector (ledger.writeRecord C P remote payload) =
      ledger.appendPayload C B P remote payload := by
  funext disk
  unfold Interpreter.appendPayload LedgerOptions.appendPayload
  rw [Action.read_bind_apply, Action.read_bind_apply, verifyUnlocked_unbounded (hremote disk), Action.bind_apply,
    Action.bind_apply, Action.lift_apply]
  rcases ledger.verifyWith C B (remote.check disk) disk true true with e | existing
  · rfl
  · rcases existing with ⟨_ | _, _, _, _, _⟩ <;> rfl

end Bulldog.Audit
