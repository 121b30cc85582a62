import Bulldog.Anchor.Checkpoint
import Bulldog.Anchor.History

/-!
# The Cloudflare collector

`deploy/cloudflare-audit/src/index.ts`: the Worker that takes the same checkpoints as the anchor
store, with one conditional `INSERT` and a look at the row that is then there. Of a row it reads the
columns that the anchor store has; `previous_hash` and `created_at` are written only.
-/

namespace Bulldog.Anchor

variable {F : Type} [PyFloat F]

/-- A message in the `previous_hash` form, as both collectors get it: an object with distinct keys,
with a `previous_hash` and no `record`, and without floats, which the two languages write
differently. -/
structure CheckpointMessage (F : Type) where
  fields : Fields F
  nodup : fields.keys.Nodup
  hasPrevious : "previous_hash".toList ∈ fields.keys
  noRecord : "record".toList ∉ fields.keys
  noFloat : ∀ kv ∈ fields, ∀ f, kv.2 ≠ .float f

namespace Worker

/-- `canonical(value)` of an object: compact JSON with sorted keys, as `JSON.stringify` writes
strings and integers. -/
def canonical (value : Fields F) : Str := (Json.obj value).norm.render ⟨false, false⟩

/-- The MAC of an object without its `mac` field. -/
def macOf (C : Crypto) (body : Fields F) (key : Bytes) (purpose : String) : Str :=
  hexdigest (C.hmac key (encodeUtf8 (purpose.toList ++ '\x00' :: canonical (body.erase "mac"))))

/-- `authenticate(body, key, purpose)`. -/
def authenticate (C : Crypto) (body : Fields F) (key : Bytes) (purpose : String) : Fields F :=
  body.erase "mac" ++ [("mac".toList, .str (macOf C body key purpose))]

/-- `deriveSessionKey(master, session)`. -/
def deriveSessionKey (C : Crypto) (master : Bytes) (session : Str) : Except Exc Bytes := do
  raiseIf (!isHex64 session) (jsError "invalid session")
  raiseIf (master.length < 32) (jsError "master key too short")
  return C.hmac master (encodeUtf8 ("bull-anchor-session-v1:".toList ++ session))

/-- `verifyMac(message, key, purpose)`. -/
def verifyMac (C : Crypto) (message : Fields F) (key : Bytes) (purpose : String) :
    Except Exc Unit := do
  let supplied ← orRaise ((message.get "mac").bind strOf) (jsError "missing mac")
  raiseIf (macOf C message key purpose ≠ supplied) (jsError "authentication failed")

/-- `message.previous_hash ?? null`, where it is null or a digest. -/
def previousOf (message : Fields F) : Option (Option Str) :=
  match (message.get "previous_hash").getD .null with
  | .null => some none
  | .str p => if isHex64 p then some (some p) else none
  | _ => none

/-- The part of `fetch` before the database. -/
def examine (C : Crypto) (master : Bytes) (message : Fields F) : Except Exc Submission := do
  raiseIf (message.keys.any (· ∉ hashFields)) (jsError "unexpected field")
  raiseIf (!(message.get "version").any versionOne) (jsError "invalid checkpoint")
  let session ← orRaise ((message.get "session").bind headOf) (jsError "invalid checkpoint")
  let sequence ← orRaise ((message.get "sequence").bind sequenceOf) (jsError "invalid checkpoint")
  let head ← orRaise ((message.get "head_hash").bind headOf) (jsError "invalid checkpoint")
  let previous ← orRaise (previousOf message) (jsError "invalid checkpoint")
  let key ← deriveSessionKey C master session
  verifyMac C message key "checkpoint"
  return { session, sequence, head, previous := some previous,
           frame := encodeUtf8 (canonical message), key }

/-- The `WHERE` clause of the `INSERT`. -/
def Admits (last : Option Row) (sub : Submission) : Prop :=
  sub.sequence = (last.map (·.sequence + 1)).getD 1 ∧
    (sub.previous.bind id).getD [] = (last.map Row.head).getD []

instance (last : Option Row) (sub : Submission) : Decidable (Admits last sub) :=
  inferInstanceAs (Decidable (_ ∧ _))

/-- `SELECT ... WHERE session = ? AND sequence = ?`. -/
def rowAt (rows : List Row) (session : Str) (sequence : ℕ) : Option Row :=
  rows.find? fun row => row.session = session ∧ row.sequence = sequence

/-- `INSERT ... SELECT ... WHERE ... ON CONFLICT(session, sequence) DO NOTHING`. -/
def insert (rows : List Row) (sub : Submission) : List Row :=
  if Admits (latest rows sub.session) sub ∧ rowAt rows sub.session sub.sequence = none then
    rows ++ [sub.row]
  else rows

/-- `fetch` on a message in an accepted HTTP frame: the acknowledgement, or the exception that it
answers with `reject()`. -/
def fetch (C : Crypto) (master : Bytes) (message : Fields F) :
    Action (List Row) Exc (Fields F) := do
  let sub ← examine C master message
  .update (insert · sub)
  let rows ← .read
  let row ← orRaise (rowAt rows sub.session sub.sequence)
    (jsError "replay, conflict, or sequence gap")
  raiseIf (row.head ≠ sub.head ∨ row.frame ≠ sub.frame) (jsError "replay, conflict, or sequence gap")
  return authenticate C (ackFields sub.session sub.sequence sub.head) sub.key "acknowledgement"

/-- The rows after a sequence of messages, from an empty database. -/
def rowsAfter (C : Crypto) (master : Bytes) (ms : List (Fields F)) : List Row :=
  ms.foldl (fun rows m => (fetch C master m rows).2) []

theorem rowsAfter_concat (C : Crypto) (master : Bytes) (ms : List (Fields F)) (m : Fields F) :
    rowsAfter C master (ms ++ [m]) = (fetch C master m (rowsAfter C master ms)).2 := by
  simp [rowsAfter]

end Worker

end Bulldog.Anchor
