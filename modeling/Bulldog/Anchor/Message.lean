import Bulldog.Lib.Action
import Bulldog.Platform

/-!
# Authenticated messages

The first half of `anchor_service.py`: the canonical form and the authentication of a message, and
the reader of a frame. A message is a `dict`, of which `canonical` sees the normal form only, and
so do its MAC and the check of it.
-/

namespace Bulldog.Anchor

variable {F : Type} [PyFloat F]

/-- `MAX_FRAME`. -/
def maxFrame : ℕ := 65536

/-- `canonical(value)`: compact, sorted, ASCII JSON, which refuses a number that is not finite. -/
def canonical (value : Fields F) : Except Exc Bytes :=
  match dumps ⟨false, true⟩ false (.obj value) with
  | some text => .ok (encodeUtf8 text)
  | none => .error (.builtin .valueError)

/-- `session_key(master, session)` of a string. A session that is not a string is refused with the
same exception where it is read. -/
def sessionKey (C : Crypto) (master : Bytes) (session : Str) : Except Exc Bytes :=
  if master.length < 32 || !isHex64 session then
    .error (anchorError "invalid session or master key")
  else .ok (C.hmac master (encodeUtf8 ("bull-anchor-session-v1:".toList ++ session)))

/-- The bytes that the MAC of a message covers. -/
def macInput (purpose : String) (body : Bytes) : Bytes := encodeUtf8 purpose.toList ++ 0 :: body

/-- The MAC of a message without its `mac` field. -/
def macOf (C : Crypto) (payload : Fields F) (key : Bytes) (purpose : String) : Except Exc Str := do
  let body ← canonical (payload.erase "mac")
  return hexdigest (C.hmac key (macInput purpose body))

/-- `authenticate(payload, key, purpose=purpose)`. -/
def authenticate (C : Crypto) (payload : Fields F) (key : Bytes) (purpose : String) :
    Except Exc (Fields F) := do
  let mac ← macOf C payload key purpose
  return (payload.erase "mac").set "mac" (.str mac)

/-- `verify(payload, key, purpose=purpose)`. `hmac.compare_digest` refuses text that is not
ASCII. -/
def verify (C : Crypto) (payload : Fields F) (key : Bytes) (purpose : String) :
    Except Exc Unit := do
  let expected ← macOf C payload key purpose
  match payload.get "mac" with
  | some (.str supplied) =>
    if !isAscii supplied then .error (.builtin .typeError)
    else if supplied = expected then .ok ()
    else .error (anchorError "authentication failed")
  | _ => .error (anchorError "authentication failed")

/-- `checkpoint(session, sequence, record, key, include_record=include_record)`, where the record is
a ledger record and so has both hashes. -/
def checkpoint (C : Crypto) (session : Str) (sequence : ℕ) (record : Fields F) (key : Bytes)
    (includeRecord : Bool) : Except Exc (Fields F) := do
  let some head := record.get "record_hash" | .error (.builtin .keyError)
  let payload : Fields F := [("version", .int 1), ("session", .str session),
    ("sequence", .int sequence), ("head_hash", head)]
  if includeRecord then
    authenticate C (payload.set "record" (.obj record)) key "checkpoint"
  else
    let some previous := record.get "previous_hash" | .error (.builtin .keyError)
    authenticate C (payload.set "previous_hash" previous) key "checkpoint"

/-! ## The normal form decides -/

/-- `canonical` sees the normal form only. -/
theorem canonical_norm (v : Fields F) : canonical v.norm = canonical v := by
  rw [canonical, canonical, ← Json.norm_obj, dumps_norm]

/-- `canonical` writes a value exactly when `json.dumps` does. -/
theorem canonical_eq_ok {v : Fields F} {b : Bytes} :
    canonical v = .ok b ↔ ∃ t, dumps ⟨false, true⟩ false (.obj v) = some t ∧ encodeUtf8 t = b := by
  unfold canonical
  split <;> simp_all

/-- Two messages have the same canonical bytes exactly when they are the same `dict`. -/
theorem canonical_eq_iff {v w : Fields F} {b : Bytes} (hv : canonical v = .ok b) :
    canonical w = .ok b ↔ w.norm = v.norm := by
  obtain ⟨t, ht, rfl⟩ := canonical_eq_ok.1 hv
  rw [canonical_eq_ok]
  constructor
  · rintro ⟨u, hu, h⟩
    rw [encodeUtf8_injective h] at hu
    exact Json.obj.inj ((dumps_eq_iff ht).1 hu)
  · intro h
    exact ⟨t, (dumps_eq_iff ht).2 (congrArg Json.obj h), rfl⟩

/-- The MAC of a message sees the normal form only. -/
theorem macOf_norm (C : Crypto) (payload : Fields F) (key : Bytes) (purpose : String) :
    macOf C payload.norm key purpose = macOf C payload key purpose := by
  rw [macOf, macOf, ← Fields.erase_norm, canonical_norm]

/-- The check of a MAC sees the normal form only. -/
theorem verify_norm (C : Crypto) (payload : Fields F) (key : Bytes) (purpose : String) :
    verify C payload.norm key purpose = verify C payload key purpose := by
  simp only [verify, macOf_norm, Fields.get_norm]
  rcases payload.get "mac" with _ | v
  · rfl
  · cases v <;> rfl

/-! ## Digests and MACs -/

/-- A digest in hexadecimal is ASCII. -/
theorem isAscii_hexdigest (b : Bytes) : isAscii (hexdigest b) = true := by
  have hdigit : ∀ n < 16, (Nat.digitChar n).toNat < 128 := by decide
  rw [isAscii, List.all_eq_true]
  exact forall_mem_hexdigest (fun n hn => decide_eq_true (hdigit n hn)) b

/-- The MAC of a message is that of its canonical body. -/
theorem macOf_eq_ok {C : Crypto} {payload : Fields F} {key : Bytes} {purpose : String} {mac : Str} :
    macOf C payload key purpose = .ok mac ↔ ∃ body, canonical (payload.erase "mac") = .ok body ∧
      hexdigest (C.hmac key (macInput purpose body)) = mac := by
  unfold macOf
  rw [bind_eq_ok]
  exact exists_congr fun _ => and_congr_right fun _ => ⟨Except.ok.inj, congrArg Except.ok⟩

theorem authenticate_eq_ok {C : Crypto} {payload message : Fields F} {key : Bytes}
    {purpose : String} : authenticate C payload key purpose = .ok message ↔
      ∃ mac, macOf C payload key purpose = .ok mac ∧
        (payload.erase "mac").set "mac" (.str mac) = message := by
  unfold authenticate
  rw [bind_eq_ok]
  exact exists_congr fun _ => and_congr_right fun _ => ⟨Except.ok.inj, congrArg Except.ok⟩

/-- A message verifies exactly when its `mac` field is the MAC of the rest. -/
theorem verify_eq_ok {C : Crypto} {payload : Fields F} {key : Bytes} {purpose : String} :
    verify C payload key purpose = .ok () ↔
      ∃ mac, macOf C payload key purpose = .ok mac ∧ payload.get "mac" = some (.str mac) := by
  unfold verify
  rw [bind_eq_ok]
  refine exists_congr fun mac => and_congr_right fun hm => ?_
  obtain ⟨body, -, rfl⟩ := macOf_eq_ok.1 hm
  rcases payload.get "mac" with _ | v
  · exact ⟨nofun, nofun⟩
  cases v with
  | str s =>
    by_cases hs : s = hexdigest (C.hmac key (macInput purpose body))
    · simp [hs, isAscii_hexdigest]
    · by_cases ha : isAscii s = true <;> simp [hs, ha]
  | _ => exact ⟨nofun, nofun⟩

/-! ## Reading a frame -/

/-- The encodings between which `json.loads` chooses by the first bytes. -/
inductive Encoding where
  | utf8 | utf8Sig | utf16 | utf16be | utf16le | utf32 | utf32be | utf32le
  deriving DecidableEq

/-- `json.detect_encoding`. -/
def detectEncoding (b : Bytes) : Encoding :=
  if [0, 0, 0xfe, 0xff].isPrefixOf b || [0xff, 0xfe, 0, 0].isPrefixOf b then .utf32
  else if [0xfe, 0xff].isPrefixOf b || [0xff, 0xfe].isPrefixOf b then .utf16
  else if [0xef, 0xbb, 0xbf].isPrefixOf b then .utf8Sig
  else match b with
    | b₀ :: b₁ :: b₂ :: b₃ :: _ =>
      if b₀ = 0 then if b₁ ≠ 0 then .utf16be else .utf32be
      else if b₁ = 0 then if b₂ ≠ 0 ∨ b₃ ≠ 0 then .utf16le else .utf32le
      else .utf8
    | [b₀, b₁] => if b₀ = 0 then .utf16be else if b₁ = 0 then .utf16le else .utf8
    | _ => .utf8

/-- The text of a frame. `wide` are the decoders of UTF-16 and UTF-32. -/
def decodeText (wide : Encoding → Bytes → Option Str) (raw : Bytes) : Option Str :=
  match detectEncoding raw with
  | .utf8 => decodeUtf8 raw
  | .utf8Sig => decodeUtf8 (raw.drop 3)
  | encoding => wide encoding raw

mutual
/-- No object has a key twice, as `pairs` in `decode` demands. -/
def uniqueKeys : Json F → Bool
  | .arr xs => uniqueKeysItems xs
  | .obj fs => decide (Fields.keys fs).Nodup && uniqueKeysFields fs
  | _ => true
/-- `uniqueKeys` of every item. -/
def uniqueKeysItems : List (Json F) → Bool
  | [] => true
  | x :: xs => uniqueKeys x && uniqueKeysItems xs
/-- `uniqueKeys` of every member. -/
def uniqueKeysFields : Fields F → Bool
  | [] => true
  | (_, v) :: fs => uniqueKeys v && uniqueKeysFields fs
end

/-- `decode(raw)`. -/
def decode (wide : Encoding → Bytes → Option Str) (raw : Bytes) : Except Exc (Fields F) :=
  if raw.length > maxFrame then .error (anchorError "frame exceeds size limit")
  else
    match (decodeText wide raw).bind (parse false) with
    | none => .error (anchorError "invalid JSON frame")
    | some value =>
      if !uniqueKeys value then .error (anchorError "invalid JSON frame")
      else match value with
        | .obj fs => .ok fs
        | _ => .error (anchorError "frame must be an object")

omit [PyFloat F] in
/-- `decode` accepts the `dict`s. -/
theorem uniqueKeys_eq_true (v : Json F) : uniqueKeys v = true ↔ v.WF := by
  cases v with
  | null => simp [uniqueKeys, Json.WF]
  | bool b => simp [uniqueKeys, Json.WF]
  | int i => simp [uniqueKeys, Json.WF]
  | float x => simp [uniqueKeys, Json.WF]
  | str s => simp [uniqueKeys, Json.WF]
  | arr xs => exact items xs
  | obj fs =>
    rw [uniqueKeys, Json.WF, Bool.and_eq_true, decide_eq_true_eq, fields fs]
    rfl
where
  items : ∀ xs : List (Json F), uniqueKeysItems xs = true ↔ WFItems xs
    | [] => by simp [uniqueKeysItems, WFItems]
    | x :: xs => by
      rw [uniqueKeysItems, WFItems, Bool.and_eq_true, uniqueKeys_eq_true x, items xs]
  fields : ∀ fs : Fields F, uniqueKeysFields fs = true ↔ WFFields fs
    | [] => by simp [uniqueKeysFields, WFFields]
    | (_, v) :: fs => by
      rw [uniqueKeysFields, WFFields, Bool.and_eq_true, uniqueKeys_eq_true v, fields fs]

/-- A frame that starts as an object does is UTF-8. -/
theorem detectEncoding_object {c : UInt8} (hc : c ≠ 0) (b : Bytes) :
    detectEncoding (0x7b :: c :: b) = .utf8 := by
  match b with
  | [] => simp [detectEncoding, hc]
  | [_] => simp [detectEncoding]
  | _ :: _ :: _ => simp [detectEncoding, hc]

/-- The text of an object starts with its brace and another ASCII character. -/
theorem encodeUtf8_render_obj (st : Style) (fs : Fields F) :
    ∃ c b, c ≠ 0 ∧ encodeUtf8 ((Json.obj fs).render st) = 0x7b :: c :: b := by
  rcases fs with _ | ⟨⟨k, v⟩, fs⟩
  · exact ⟨0x7d, [], by decide, by rw [Json.render]; rfl⟩
  · obtain ⟨t, ht⟩ : ∃ t, (Json.obj ((k, v) :: fs)).render st = '{' :: '"' :: t :=
      ⟨_, by rw [Json.render, renderStr]; rfl⟩
    exact ⟨0x22, encodeUtf8 t, by decide, by rw [ht]; rfl⟩

/-- A canonical frame within the limit is read back. -/
theorem decode_canonical (wide : Encoding → Bytes → Option Str) {v : Fields F} {raw : Bytes}
    (hwf : (Json.obj v).WF) (h : canonical v = .ok raw) (hlen : raw.length ≤ maxFrame) :
    decode wide raw = .ok v.norm := by
  obtain ⟨t, ht, rfl⟩ := canonical_eq_ok.1 h
  obtain ⟨hw, rfl⟩ := dumps_eq_some.1 ht
  obtain ⟨c, b, hc, hraw⟩ := encodeUtf8_render_obj ⟨false, true⟩ v.norm
  have htext : decodeText wide (encodeUtf8 ((Json.obj v).norm.render ⟨false, true⟩)) =
      some ((Json.obj v).norm.render ⟨false, true⟩) := by
    rw [← decodeUtf8_encodeUtf8, decodeText, Json.norm_obj, hraw, detectEncoding_object hc]
  rw [decode, if_neg (by omega), htext, Option.bind_some,
    parse_render _ _ _ (by rw [Json.writable_norm]; exact hw)]
  have hunique : uniqueKeys (Json.obj v.norm) = true := (uniqueKeys_eq_true _).2 hwf.norm
  simp [Json.norm_obj, hunique]

end Bulldog.Anchor
