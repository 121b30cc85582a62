import Mathlib
import Bulldog.Lib.Action
import Bulldog.Anchor.Message

/-!
# The anchor store

`AnchorStore` of `anchor_service.py`, which takes a session's checkpoints one after the other.
-/

namespace Bulldog.Anchor

variable {F : Type} [PyFloat F]

/-- A row of the table `checkpoints`. -/
structure Row where
  session : Str
  sequence : ℕ
  head : Str
  frame : Bytes
  deriving DecidableEq

/-- `AnchorStore`, less its database. -/
structure AnchorStore where
  master : Bytes
  maxBytes : ℕ
  /-- The constructor refuses a shorter key. -/
  master_length : 32 ≤ master.length

/-- What `accept` has read off a message when it opens the database. -/
structure Submission where
  session : Str
  sequence : ℕ
  head : Str
  /-- The previous hash where it is a string or `None`, which are the values that the store compares
  it with, and nothing where it is some other value. -/
  previous : Option (Option Str)
  frame : Bytes
  key : Bytes
  deriving DecidableEq

/-- The row that `accept` inserts. -/
def Submission.row (sub : Submission) : Row := ⟨sub.session, sub.sequence, sub.head, sub.frame⟩

/-- A previous hash as the store compares it. -/
def previousHash : Json F → Option (Option Str)
  | .null => some none
  | .str s => some (some s)
  | _ => none

/-- `set(message) == fields`. -/
def hasFields (message : Fields F) (fields : List Str) : Bool :=
  message.keys.all (· ∈ fields) && fields.all (· ∈ message.keys)

/-- The fields of every checkpoint. -/
def baseFields : List Str :=
  ["version".toList, "session".toList, "sequence".toList, "head_hash".toList, "mac".toList]

/-- `message["sequence"]` where it is an integer from 1 to 1,000,000. -/
def sequenceOf : Json F → Option ℕ
  | .int i => if 1 ≤ i ∧ i ≤ 1000000 then some i.toNat else none
  | _ => none

/-- `message["head_hash"]` where it is a digest. -/
def headOf : Json F → Option Str
  | .str s => if isHex64 s then some s else none
  | _ => none

/-- A string. -/
def strOf : Json F → Option Str
  | .str s => some s
  | _ => none

/-- `record.get("record_hash") != head or sha256(canonical(body)) != head`. -/
def checkRecord (C : Crypto) (record : Fields F) (head : Str) : Except Exc Unit := do
  raiseIf ((record.get "record_hash").bind strOf ≠ some head) (anchorError "record hash mismatch")
  let body ← canonical (record.erase "record_hash")
  raiseIf (hexdigest (C.sha256 body) ≠ head) (anchorError "record hash mismatch")

/-- The previous hash that a checkpoint carries, in its record or in a field of its own. -/
def previousOf (C : Crypto) (message : Fields F) (head : Str) :
    Except Exc (Option (Option Str)) :=
  match message.get "record" with
  | some (.obj record) => do
    checkRecord C record head
    return previousHash ((Fields.get record "previous_hash").getD .null)
  | some _ => .error (anchorError "invalid record")
  | none => .ok (previousHash ((message.get "previous_hash").getD .null))

/-- `message["version"]` is the integer 1. -/
def versionOne : Json F → Bool
  | .int i => i == 1
  | _ => false

/-- The part of `AnchorStore.accept` before the database: every check that the message alone
decides. -/
def AnchorStore.examine (C : Crypto) (store : AnchorStore) (message : Fields F) :
    Except Exc Submission := do
  raiseIf (!(hasFields message ("record".toList :: baseFields) ||
      hasFields message ("previous_hash".toList :: baseFields)) ||
      !(message.get "version").any versionOne) (anchorError "invalid checkpoint fields")
  let session ← orRaise ((message.get "session").bind strOf)
    (anchorError "invalid session or master key")
  let key ← sessionKey C store.master session
  let frame ← canonical message
  raiseIf (frame.length > maxFrame) (anchorError "frame exceeds size limit")
  verify C message key "checkpoint"
  let sequence ← orRaise ((message.get "sequence").bind sequenceOf) (anchorError "invalid sequence")
  let head ← orRaise ((message.get "head_hash").bind headOf) (anchorError "invalid record")
  let previous ← previousOf C message head
  return { session, sequence, head, previous, frame, key }

/-- `SELECT ... WHERE session=?`. -/
def sessionRows (rows : List Row) (session : Str) : List Row := rows.filter (·.session = session)

/-- `SELECT ... WHERE session=? ORDER BY sequence DESC LIMIT 1`. -/
def latest (rows : List Row) (session : Str) : Option Row :=
  (sessionRows rows session).argmax Row.sequence

/-- The fields of the acknowledgement of `(session, sequence, head)`. -/
def ackFields (session : Str) (sequence : ℕ) (head : Str) : Fields F :=
  [("version", .int 1), ("session", .str session), ("sequence", .int sequence),
    ("head_hash", .str head), ("accepted", .bool true)]

/-- The acknowledgement of `(session, sequence, head)`. -/
def acknowledge (C : Crypto) (session : Str) (sequence : ℕ) (head : Str) (key : Bytes) :
    Except Exc (Fields F) :=
  authenticate C (ackFields session sequence head) key "acknowledgement"

/-- The submission is exactly the latest committed frame. -/
def Submission.Retry (last : Option Row) (sub : Submission) : Prop :=
  ∃ row ∈ last, sub.sequence = row.sequence ∧ sub.frame = row.frame

/-- The submission is the checkpoint after `last`. -/
def Submission.Next (last : Option Row) (sub : Submission) : Prop :=
  sub.sequence = (match last with | some row => row.sequence + 1 | none => 1) ∧
    sub.previous = some (last.map Row.head)

instance (last : Option Row) (sub : Submission) : Decidable (sub.Retry last) :=
  inferInstanceAs (Decidable (∃ row ∈ last, _))

instance (last : Option Row) (sub : Submission) : Decidable (sub.Next last) :=
  inferInstanceAs (Decidable (_ ∧ _))

/-- The transaction of `AnchorStore.accept`. `pageBytes` is what `PRAGMA page_count` times
`PRAGMA page_size` gives in it. -/
def AnchorStore.commit (store : AnchorStore) (sub : Submission) (pageBytes : ℕ) :
    Action (List Row) Exc Unit := .transaction do
  let rows ← .read
  let last := latest rows sub.session
  -- Lost acknowledgement: exactly the latest committed frame only.
  if sub.Retry last then return ()
  else
    raiseIf (¬ sub.Next last) (anchorError "checkpoint replay or conflicting history")
    raiseIf (pageBytes + sub.frame.length + 16384 > store.maxBytes)
      (anchorError "audit storage budget exhausted")
    .update (· ++ [sub.row])

/-- `AnchorStore.accept(message)`. -/
def AnchorStore.accept (C : Crypto) (store : AnchorStore) (message : Fields F) (pageBytes : ℕ) :
    Action (List Row) Exc (Fields F) := do
  let sub ← store.examine C message
  store.commit sub pageBytes
  acknowledge C sub.session sub.sequence sub.head sub.key

/-! ## The checks see the normal form only -/

omit [PyFloat F] in
theorem hasFields_norm (message : Fields F) (fields : List Str) :
    hasFields message.norm fields = hasFields message fields := by
  rw [Bool.eq_iff_iff]
  simp [hasFields, Fields.mem_keys_norm]

omit [PyFloat F] in
/-- A test of a field that sees the normal form only. -/
theorem bind_norm {α : Type} {f : Json F → Option α} (hf : ∀ v, f v.norm = f v) (fs : Fields F)
    (k : Str) : (fs.norm.get k).bind f = (fs.get k).bind f := by
  rw [Fields.get_norm, Option.bind_map]
  exact congrArg _ (funext hf)

omit [PyFloat F] in
theorem strOf_norm (v : Json F) : strOf v.norm = strOf v := by
  cases v <;> rfl

omit [PyFloat F] in
/-- A missing previous hash reads as `None`. -/
theorem previous_norm (fs : Fields F) (k : Str) :
    previousHash ((fs.norm.get k).getD .null) = previousHash ((fs.get k).getD .null) := by
  rw [Fields.get_norm]
  rcases fs.get k with _ | v
  · rfl
  · cases v <;> rfl

theorem checkRecord_norm (C : Crypto) (record : Fields F) (head : Str) :
    checkRecord C record.norm head = checkRecord C record head := by
  simp only [checkRecord, ← Fields.erase_norm, canonical_norm, bind_norm strOf_norm]

theorem previousOf_norm (C : Crypto) (message : Fields F) (head : Str) :
    previousOf C message.norm head = previousOf C message head := by
  simp only [previousOf, Fields.get_norm (k := "record".toList), previous_norm]
  rcases message.get "record" with _ | v
  · rfl
  · cases v with
    | obj record =>
      rw [Option.map_some, Json.norm_obj]
      simp only [checkRecord_norm, previous_norm]
    | _ => rfl

/-- `examine` sees the normal form only. -/
theorem AnchorStore.examine_norm (C : Crypto) (store : AnchorStore) (message : Fields F) :
    store.examine C message.norm = store.examine C message := by
  have hsequence : ∀ v : Json F, sequenceOf v.norm = sequenceOf v := fun v => by cases v <;> rfl
  have hhead : ∀ v : Json F, headOf v.norm = headOf v := fun v => by cases v <;> rfl
  have hversion : (message.norm.get "version").any versionOne =
      (message.get "version").any versionOne := by
    rw [Fields.get_norm, Option.any_map]
    exact congrArg (Option.any · _) (funext fun v => by cases v <;> rfl)
  simp only [examine, hasFields_norm, canonical_norm, verify_norm, previousOf_norm, hversion,
    bind_norm strOf_norm, bind_norm hsequence, bind_norm hhead]

/-- Messages with the same canonical frame are examined alike. -/
theorem AnchorStore.examine_congr (C : Crypto) (store : AnchorStore) {m m' : Fields F}
    (h : m.norm = m'.norm) : store.examine C m = store.examine C m' := by
  rw [← examine_norm, h, examine_norm]

/-- What `examine` checks of a message, and what it reads off it. -/
structure AnchorStore.Examined (C : Crypto) (store : AnchorStore) (message : Fields F)
    (sub : Submission) : Prop where
  fields : hasFields message ("record".toList :: baseFields) = true ∨
    hasFields message ("previous_hash".toList :: baseFields) = true
  version : (message.get "version").any versionOne = true
  session : (message.get "session").bind strOf = some sub.session
  key : sessionKey C store.master sub.session = .ok sub.key
  frame : canonical message = .ok sub.frame
  frame_length : sub.frame.length ≤ maxFrame
  verified : verify C message sub.key "checkpoint" = .ok ()
  sequence : (message.get "sequence").bind sequenceOf = some sub.sequence
  head : (message.get "head_hash").bind headOf = some sub.head
  previous : previousOf C message sub.head = .ok sub.previous

/-- `examine` lets through exactly what passes its checks. -/
theorem AnchorStore.examine_eq_ok {C : Crypto} {store : AnchorStore} {message : Fields F}
    {sub : Submission} :
    store.examine C message = .ok sub ↔ store.Examined C message sub := by
  simp only [examine, bind_eq_ok, raiseIf_eq_ok, orRaise_eq_ok, Bool.or_eq_true,
    Bool.not_eq_true', Bool.or_eq_false_iff, not_or, not_and_or, Bool.not_eq_false]
  constructor
  · rintro ⟨_, ⟨hf, hv⟩, s, hs, key, hk, frame, hfr, _, hl, _, hve, q, hq, h, hh, p, hp, hsub⟩
    cases hsub
    exact ⟨hf, hv, hs, hk, hfr, not_lt.1 hl, hve, hq, hh, hp⟩
  · intro h
    exact ⟨(), ⟨h.fields, h.version⟩, _, h.session, _, h.key, _, h.frame, (),
      not_lt.2 h.frame_length, (), h.verified, _, h.sequence, _, h.head, _, h.previous, rfl⟩

omit [PyFloat F] in
theorem sequenceOf_le {v : Json F} {n : ℕ} (h : sequenceOf v = some n) : 1 ≤ n ∧ n ≤ 1000000 := by
  unfold sequenceOf at h
  split at h
  · split_ifs at h with hi
    simp only [Option.some.injEq] at h
    omega
  · cases h

/-! ## What a call does -/

omit [PyFloat F] in
theorem sequenceOf_lt {v : Json F} {n : ℕ} (h : sequenceOf v = some n) : n < 10 ^ 7 :=
  lt_of_le_of_lt (sequenceOf_le h).2 (by omega)

/-- A sequence of a few digits can be written. -/
theorem writable_sequence {n : ℕ} (h : n < 10 ^ 7) : (Json.int n : Json F).writable false = true :=
  decide_eq_true ((Nat.length_toDigits_le_iff (by omega) (by decide)).2
    (lt_of_lt_of_le h (Nat.pow_le_pow_right (by omega) (by decide))))

theorem writable_ackFields (session : Str) {sequence : ℕ} (head : Str) (h : sequence < 10 ^ 7) :
    (Json.obj (ackFields session sequence head) : Json F).writable false = true := by
  have hq := writable_sequence (F := F) h
  have h1 := writable_sequence (F := F) (n := 1) (by omega)
  simp only [ackFields, Json.writable, writableFields, Bool.and_true, Bool.true_and] at hq h1 ⊢
  rw [hq, Bool.and_true]
  exact h1

/-- The canonical bytes of an acknowledgement without its MAC. -/
def ackBody (F : Type) [PyFloat F] (session : Str) (sequence : ℕ) (head : Str) : Bytes :=
  encodeUtf8 ((Json.obj (ackFields session sequence head) : Json F).norm.render ⟨false, true⟩)

theorem canonical_ackFields (session : Str) {sequence : ℕ} (head : Str) (h : sequence < 10 ^ 7) :
    canonical (ackFields session sequence head : Fields F) = .ok (ackBody F session sequence head) :=
  canonical_eq_ok.2 ⟨_, dumps_eq_some.2 ⟨writable_ackFields session head h, rfl⟩, rfl⟩

/-- The acknowledgement with its MAC. -/
def ackMessage (C : Crypto) (session : Str) (sequence : ℕ) (head : Str) (key : Bytes) : Fields F :=
  ackFields session sequence head ++ [("mac".toList, .str (hexdigest (C.hmac key
    (macInput "acknowledgement" (ackBody F session sequence head)))))]

theorem erase_ackMessage (C : Crypto) (session : Str) (sequence : ℕ) (head : Str) (key : Bytes) :
    (ackMessage C session sequence head key : Fields F).erase "mac" =
      ackFields session sequence head := rfl

/-- An acknowledgement of a sequence of a few digits can be written. -/
theorem acknowledge_ok (C : Crypto) (session : Str) {sequence : ℕ} (head : Str) (key : Bytes)
    (h : sequence < 10 ^ 7) : acknowledge (F := F) C session sequence head key =
      .ok (ackMessage C session sequence head key) := by
  refine authenticate_eq_ok.2 ⟨_, macOf_eq_ok.2 ⟨_, ?_, rfl⟩, rfl⟩
  exact canonical_ackFields session head h

/-- The transaction, branch by branch. -/
theorem AnchorStore.commit_apply (store : AnchorStore) (sub : Submission) (pageBytes : ℕ)
    (rows : List Row) : store.commit sub pageBytes rows =
      if sub.Retry (latest rows sub.session) then (.ok (), rows)
      else if ¬ sub.Next (latest rows sub.session) then
        (.error (anchorError "checkpoint replay or conflicting history"), rows)
      else if pageBytes + sub.frame.length + 16384 > store.maxBytes then
        (.error (anchorError "audit storage budget exhausted"), rows)
      else (.ok (), rows ++ [sub.row]) := by
  simp only [commit, Action.transaction, Action.bind_apply, Action.read]
  split_ifs with hr hn hb
  · rfl
  · simp [Action.bind_apply, Action.lift_apply, raiseIf, hn, hb]
  · simp [Action.bind_apply, Action.lift_apply, raiseIf, hn, hb, Action.update]
  · simp [Action.bind_apply, Action.lift_apply, raiseIf, hn]

/-- A call on a message that passes the checks is its transaction, and an acknowledgement if that
commits. -/
theorem AnchorStore.accept_apply {C : Crypto} {store : AnchorStore} {message : Fields F}
    {sub : Submission} (hsub : store.examine C message = .ok sub) (pageBytes : ℕ)
    (rows : List Row) : store.accept C message pageBytes rows =
      match store.commit sub pageBytes rows with
      | (.ok _, rows') => (acknowledge C sub.session sub.sequence sub.head sub.key, rows')
      | (.error e, rows') => (.error e, rows') := by
  simp only [accept, Action.bind_apply, Action.lift_apply, hsub]
  rcases store.commit sub pageBytes rows with ⟨_ | _, _⟩ <;> rfl

/-- A call on a message that passes the checks: an acknowledgement of the latest frame, a new row,
or a refusal. -/
theorem AnchorStore.accept_cases {C : Crypto} {store : AnchorStore} {message : Fields F}
    {sub : Submission} (hsub : store.examine C message = .ok sub) (pageBytes : ℕ)
    (rows : List Row) :
    (sub.Retry (latest rows sub.session) ∧ store.accept C message pageBytes rows =
        (acknowledge C sub.session sub.sequence sub.head sub.key, rows)) ∨
      (¬ sub.Retry (latest rows sub.session) ∧ sub.Next (latest rows sub.session) ∧
        pageBytes + sub.frame.length + 16384 ≤ store.maxBytes ∧
        store.accept C message pageBytes rows =
          (acknowledge C sub.session sub.sequence sub.head sub.key, rows ++ [sub.row])) ∨
      (¬ sub.Retry (latest rows sub.session) ∧ (sub.Next (latest rows sub.session) →
          store.maxBytes < pageBytes + sub.frame.length + 16384) ∧
        ∃ e, store.accept C message pageBytes rows = (.error e, rows)) := by
  rw [accept_apply hsub, commit_apply]
  by_cases hr : sub.Retry (latest rows sub.session)
  · exact .inl ⟨hr, by rw [if_pos hr]⟩
  by_cases hn : sub.Next (latest rows sub.session)
  · by_cases hb : pageBytes + sub.frame.length + 16384 > store.maxBytes
    · exact .inr (.inr ⟨hr, fun _ => hb, _, by rw [if_neg hr, if_neg (not_not.2 hn), if_pos hb]⟩)
    · exact .inr (.inl ⟨hr, hn, by omega, by rw [if_neg hr, if_neg (not_not.2 hn), if_neg hb]⟩)
  · exact .inr (.inr ⟨hr, fun h => absurd h hn, _, by rw [if_neg hr, if_pos hn]⟩)

/-- A call on a message that fails a check. -/
theorem AnchorStore.accept_error {C : Crypto} {store : AnchorStore} {message : Fields F} {e : Exc}
    (h : store.examine C message = .error e) (pageBytes : ℕ) (rows : List Row) :
    store.accept C message pageBytes rows = (.error e, rows) := by
  simp only [accept, Action.bind_apply, Action.lift_apply, h]

end Bulldog.Anchor
