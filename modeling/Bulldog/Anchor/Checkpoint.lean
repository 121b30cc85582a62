import Bulldog.Anchor.Store

/-!
# The canonical form of a checkpoint

A checkpoint in its `previous_hash` form holds digests and small integers only. Its canonical bytes
are then the same in Python and in JavaScript, and far fewer than a frame may have.
-/

namespace Bulldog.Anchor

variable {F : Type} [PyFloat F]

/-- The fields of a checkpoint in its `previous_hash` form. -/
def hashFields : List Str := "previous_hash".toList :: baseFields

/-- Strings that every JSON writer writes as they are. -/
def isPlain (s : Str) : Bool :=
  s.all fun c => 0x20 ≤ c.toNat && c.toNat < 0x7f && c != '"' && c != '\\'

theorem escapeChar_plain {c : Char} (h : isPlain [c] = true) (ascii : Bool) :
    escapeChar ascii c = [c] := by
  simp only [isPlain, List.all_cons, List.all_nil, Bool.and_true, Bool.and_eq_true,
    decide_eq_true_eq, bne_iff_ne] at h
  obtain ⟨⟨⟨hlo, hhi⟩, hquote⟩, hback⟩ := h
  have hne : ∀ d : Char, d.toNat < 0x20 → c ≠ d := by
    rintro d hd rfl
    omega
  unfold escapeChar
  rw [if_neg hquote, if_neg hback, if_neg (hne '\n' (by decide)), if_neg (hne '\r' (by decide)),
    if_neg (hne '\t' (by decide)), if_neg (hne '\x0c' (by decide)), if_neg (hne '\x08' (by decide)),
    if_neg (by omega), if_pos (.inr hhi)]

theorem renderStr_plain {s : Str} (h : isPlain s = true) (ascii : Bool) :
    renderStr ascii s = '"' :: s ++ ['"'] := by
  have hs : s.flatMap (escapeChar ascii) = s := by
    induction s with
    | nil => rfl
    | cons c s ih =>
      simp only [isPlain, List.all_cons, Bool.and_eq_true] at h ih
      rw [List.flatMap_cons, ih h.2, escapeChar_plain (by simpa [isPlain] using h.1)]
      rfl
  rw [renderStr, hs]

theorem isPlain_of_isHex64 {s : Str} (h : isHex64 s = true) : isPlain s = true := by
  simp only [isHex64, Bool.and_eq_true, List.all_eq_true] at h
  refine List.all_eq_true.2 fun c hc => ?_
  have hc := h.2 c hc
  simp only [Bool.or_eq_true, Bool.and_eq_true, decide_eq_true_eq, Char.le_def] at hc
  have hval : (97 ≤ c.toNat ∧ c.toNat ≤ 102) ∨ (48 ≤ c.toNat ∧ c.toNat ≤ 57) := hc
  have hne : ∀ d : Char, d.toNat ∉ Set.Icc 97 102 ∪ Set.Icc 48 57 → c ≠ d := by
    rintro d hd rfl
    exact hd hval
  simp only [Bool.and_eq_true, decide_eq_true_eq, bne_iff_ne]
  exact ⟨⟨⟨by omega, by omega⟩, hne '"' (by decide)⟩, hne '\\' (by decide)⟩

/-- A digest in hexadecimal is 64 characters long and in lower case. -/
theorem isHex64_hexdigest {b : Bytes} (h : b.length = 32) : isHex64 (hexdigest b) = true := by
  have hdigit : ∀ n < 16, (('a' ≤ Nat.digitChar n && Nat.digitChar n ≤ 'f') ||
      ('0' ≤ Nat.digitChar n && Nat.digitChar n ≤ '9')) = true := by decide
  simp only [isHex64, Bool.and_eq_true, beq_iff_eq, List.all_eq_true]
  constructor
  · rw [length_hexdigest, h]
  · exact forall_mem_hexdigest hdigit b

/-- A previous hash as JSON. -/
def previousJson : Option Str → Json F
  | some p => .str p
  | none => .null

/-- The normal form of a checkpoint. -/
def checkpointFields (sequence : ℕ) (session head mac : Str) (previous : Option Str) : Fields F :=
  [("head_hash", .str head), ("mac", .str mac),
    ("previous_hash", previousJson previous), ("sequence", .int sequence),
    ("session", .str session), ("version", .int 1)]

/-- The keys of the normal form. -/
def checkpointKeys : List Str :=
  ["head_hash".toList, "mac".toList, "previous_hash".toList, "sequence".toList, "session".toList,
    "version".toList]

theorem checkpointKeys_subset : checkpointKeys ⊆ hashFields := by decide

omit [PyFloat F] in
theorem keys_checkpointFields (q : ℕ) (s h mac : Str) (previous : Option Str) :
    (checkpointFields q s h mac previous : Fields F).keys = checkpointKeys := rfl

omit [PyFloat F] in
theorem checkpointFields_norm (q : ℕ) (s h mac : Str) (previous : Option Str) :
    (checkpointFields q s h mac previous : Fields F).norm = checkpointFields q s h mac previous := by
  cases previous <;> rfl

omit [PyFloat F] in
theorem strOf_eq_some {v : Json F} {s : Str} (h : strOf v = some s) : v = .str s := by
  cases v <;> simp_all [strOf]

omit [PyFloat F] in
theorem headOf_eq_some {v : Json F} {s : Str} : headOf v = some s ↔ v = .str s ∧ isHex64 s = true := by
  cases v with
  | str t =>
    simp only [headOf, Option.ite_none_right_eq_some, Option.some.injEq, Json.str.injEq]
    exact ⟨fun ⟨ht, he⟩ => ⟨he, he ▸ ht⟩, fun ⟨he, ht⟩ => ⟨he ▸ ht, he⟩⟩
  | _ => simp [headOf]

omit [PyFloat F] in
theorem sequenceOf_eq_some {v : Json F} {n : ℕ} (h : sequenceOf v = some n) : v = .int n := by
  unfold sequenceOf at h
  split at h
  · split_ifs at h with hi
    simp only [Option.some.injEq] at h
    congr
    omega
  · cases h

omit [PyFloat F] in
theorem versionOne_eq_true {v : Json F} (h : versionOne v = true) : v = .int 1 := by
  cases v <;> simp_all [versionOne]

omit [PyFloat F] in
theorem previousHash_eq_some {v : Json F} {p : Option Str} (h : previousHash v = some p) :
    v = previousJson p := by
  cases v with
  | null => cases h; rfl
  | str s => cases h; rfl
  | _ => cases h

omit [PyFloat F] in
/-- A checkpoint with all its fields has the normal form that their values give. -/
theorem norm_checkpoint {m : Fields F} (hnodup : m.keys.Nodup) {q : ℕ} {s h mac : Str}
    {previous : Option Str} (hfields : hasFields m hashFields = true)
    (hv : (m.get "version").any versionOne = true)
    (hs : (m.get "session").bind strOf = some s)
    (hq : (m.get "sequence").bind sequenceOf = some q)
    (hh : (m.get "head_hash").bind headOf = some h)
    (hmac : (m.get "mac").bind strOf = some mac)
    (hp : previousHash ((m.get "previous_hash").getD .null) = some previous) :
    m.norm = checkpointFields q s h mac previous := by
  obtain ⟨hsub, hall⟩ : (∀ k ∈ m.keys, k ∈ hashFields) ∧
      ∀ k ∈ hashFields, k ∈ m.keys := by
    simpa only [hasFields, Bool.and_eq_true, List.all_eq_true, decide_eq_true_eq] using hfields
  obtain ⟨v, hv, hv'⟩ := (Option.any_eq_true ..).1 hv
  obtain ⟨w, hs, hs'⟩ := Option.bind_eq_some_iff.1 hs
  obtain ⟨x, hq, hq'⟩ := Option.bind_eq_some_iff.1 hq
  obtain ⟨y, hh, hh'⟩ := Option.bind_eq_some_iff.1 hh
  obtain ⟨z, hmac, hmac'⟩ := Option.bind_eq_some_iff.1 hmac
  obtain ⟨p, hp'⟩ : ∃ p, m.get "previous_hash" = some p :=
    Fields.get_of_mem_keys (hall _ (by decide))
  rw [hp', Option.getD_some] at hp
  rw [versionOne_eq_true hv'] at hv
  rw [strOf_eq_some hs'] at hs
  rw [sequenceOf_eq_some hq'] at hq
  rw [(headOf_eq_some.1 hh').1] at hh
  rw [strOf_eq_some hmac'] at hmac
  rw [previousHash_eq_some hp] at hp'
  rw [← checkpointFields_norm]
  have hnodup' : checkpointKeys.Nodup := by decide
  refine Fields.norm_ext hnodup hnodup' fun k => ?_
  by_cases hk : k ∈ hashFields
  · simp only [hashFields, baseFields, List.mem_cons, List.not_mem_nil, or_false] at hk
    rcases hk with rfl | rfl | rfl | rfl | rfl | rfl
    · rw [hp']; rfl
    · rw [hv]; rfl
    · rw [hs]; rfl
    · rw [hq]; rfl
    · rw [hh]; rfl
    · rw [hmac]; rfl
  · rw [Fields.get_eq_none_iff.2 fun h => hk (hsub k h), eq_comm, Fields.get_eq_none_iff,
      keys_checkpointFields]
    exact fun h => hk (checkpointKeys_subset h)

/-- The fields of a checkpoint that both collectors would take. -/
structure PlainCheckpoint (q : ℕ) (s h mac : Str) (previous : Option Str) : Prop where
  sequence : q < 10 ^ 7
  session : isHex64 s = true
  head : isHex64 h = true
  mac : isHex64 mac = true
  previous : ∀ p ∈ previous, isHex64 p = true

variable {q : ℕ} {s h mac : Str} {previous : Option Str}

/-- A member that is written alike in both styles. -/
def Neutral (kv : Str × Json F) : Prop :=
  renderStr true kv.1 = renderStr false kv.1 ∧
    kv.2.render ⟨false, true⟩ = kv.2.render ⟨false, false⟩

theorem renderFields_neutral {fs : Fields F} (hfs : ∀ kv ∈ fs, Neutral kv) :
    renderFields ⟨false, true⟩ fs = renderFields ⟨false, false⟩ fs := by
  induction fs with
  | nil => rw [renderFields, renderFields]
  | cons kv fs ih =>
    obtain ⟨hk, hv⟩ := hfs kv List.mem_cons_self
    rw [renderFields, renderFields, hk, hv, ih fun x hx => hfs x (List.mem_cons_of_mem _ hx)]
    rfl

theorem render_neutral {fs : Fields F} (hfs : ∀ kv ∈ fs, Neutral kv) :
    (Json.obj fs).render ⟨false, true⟩ = (Json.obj fs).render ⟨false, false⟩ := by
  match fs with
  | [] => rw [Json.render, Json.render]
  | kv :: fs =>
    obtain ⟨hk, hv⟩ := hfs kv List.mem_cons_self
    rw [Json.render, Json.render, hk, hv,
      renderFields_neutral fun x hx => hfs x (List.mem_cons_of_mem _ hx)]
    rfl

theorem neutral_str {k t : Str} (hk : k ∈ checkpointKeys) (ht : isHex64 t = true) :
    Neutral (k, (.str t : Json F)) := by
  have hkeys : ∀ k ∈ checkpointKeys, renderStr true k = renderStr false k := by decide
  refine ⟨hkeys k hk, ?_⟩
  rw [Json.render, Json.render, renderStr_plain (isPlain_of_isHex64 ht),
    renderStr_plain (isPlain_of_isHex64 ht)]

theorem neutral_int {k : Str} {i : ℤ} (hk : k ∈ checkpointKeys) :
    Neutral (k, (.int i : Json F)) := by
  have hkeys : ∀ k ∈ checkpointKeys, renderStr true k = renderStr false k := by decide
  refine ⟨hkeys k hk, ?_⟩
  rw [Json.render, Json.render]

/-- Both languages write the members of a checkpoint alike. -/
theorem PlainCheckpoint.neutral (hc : PlainCheckpoint q s h mac previous) :
    ∀ kv ∈ (checkpointFields q s h mac previous : Fields F), Neutral kv := by
  have hprevious : Neutral ("previous_hash".toList, (previousJson previous : Json F)) := by
    match previous, hc.previous with
    | none, _ => exact ⟨rfl, by rw [previousJson, Json.render, Json.render]⟩
    | some p, hp => exact neutral_str (by decide) (hp p rfl)
  intro kv hkv
  simp only [checkpointFields, List.mem_cons, List.not_mem_nil, or_false] at hkv
  rcases hkv with rfl | rfl | rfl | rfl | rfl | rfl
  · exact neutral_str (by decide) hc.head
  · exact neutral_str (by decide) hc.mac
  · exact hprevious
  · exact neutral_int (by decide)
  · exact neutral_str (by decide) hc.session
  · exact neutral_int (by decide)

theorem PlainCheckpoint.writable (hc : PlainCheckpoint q s h mac previous) :
    ∀ kv ∈ (checkpointFields q s h mac previous : Fields F), kv.2.writable false = true := by
  intro kv hkv
  simp only [checkpointFields, List.mem_cons, List.not_mem_nil, or_false] at hkv
  rcases hkv with rfl | rfl | rfl | rfl | rfl | rfl
  · rfl
  · rfl
  · cases previous <;> rfl
  · exact writable_sequence hc.sequence
  · rfl
  · exact writable_sequence (n := 1) (by omega)

/-- Fields whose normal form is part of a checkpoint's have the same canonical bytes in both
languages. -/
theorem PlainCheckpoint.canonical_eq (hc : PlainCheckpoint q s h mac previous) {fs : Fields F}
    (hfs : ∀ kv ∈ fs.norm, kv ∈ (checkpointFields q s h mac previous : Fields F)) :
    canonical fs = .ok (encodeUtf8 ((Json.obj fs).norm.render ⟨false, false⟩)) := by
  rw [← canonical_norm, canonical_eq_ok]
  refine ⟨_, dumps_eq_some.2 ⟨?_, rfl⟩, ?_⟩
  · rw [Json.writable, writableFields_eq_all, List.all_eq_true]
    exact fun kv hkv => hc.writable kv (hfs kv hkv)
  · rw [Json.norm_obj, Json.norm_obj, Fields.norm_norm,
      render_neutral fun kv hkv => hc.neutral kv (hfs kv hkv)]

theorem length_renderStr_hex {t : Str} (ht : isHex64 t = true) (ascii : Bool) :
    (renderStr ascii t).length = 66 := by
  have hlen : t.length = 64 := by simpa using (Bool.and_eq_true_iff.1 ht).1
  rw [renderStr_plain (isPlain_of_isHex64 ht)]
  simp [hlen]

/-- A checkpoint is far smaller than a frame may be. -/
theorem PlainCheckpoint.length_le (hc : PlainCheckpoint q s h mac previous) :
    ((Json.obj (checkpointFields q s h mac previous) : Json F).render ⟨false, false⟩).length ≤
      1000 := by
  have hq : (renderInt (q : ℤ)).length ≤ 7 := by
    rw [renderInt, if_neg (by omega), Int.natAbs_natCast,
      Nat.length_toDigits_le_iff (by omega) (by omega)]
    exact hc.sequence
  have hp : ((previousJson previous : Json F).render ⟨false, false⟩).length ≤ 66 := by
    match previous, hc.previous with
    | none, _ => rw [previousJson, Json.render]; decide
    | some p, hp => rw [previousJson, Json.render, length_renderStr_hex (hp p rfl)]
  have hone : (renderInt 1).length = 1 := by decide
  have hkeys : (renderStr false "head_hash").length = 11 ∧ (renderStr false "mac").length = 5 ∧
      (renderStr false "previous_hash").length = 15 ∧ (renderStr false "sequence").length = 10 ∧
      (renderStr false "session").length = 9 ∧ (renderStr false "version").length = 9 := by decide
  obtain ⟨h1, h2, h3, h4, h5, h6⟩ := hkeys
  simp only [checkpointFields, Json.render, renderFields, Style.pad, List.length_cons,
    List.length_append, h1, h2, h3, h4, h5, h6, length_renderStr_hex hc.session,
    length_renderStr_hex hc.head, length_renderStr_hex hc.mac, hone]
  simp only [Bool.false_eq_true, if_false, List.length_nil]
  omega

omit [PyFloat F] in
/-- A message in which the fields are there and no others are has the fields of a checkpoint. -/
theorem hasFields_hashFields {fs : Fields F} (hp : "previous_hash".toList ∈ fs.keys)
    (hkeys : ∀ k ∈ fs.keys, k ∈ hashFields) (hv : (fs.get "version").any versionOne = true)
    (hs : (fs.get "session").bind strOf = some s)
    (hq : (fs.get "sequence").bind sequenceOf = some q)
    (hh : (fs.get "head_hash").bind headOf = some h)
    (hmac : (fs.get "mac").bind strOf = some mac) : hasFields fs hashFields = true := by
  have hmem : ∀ k v, fs.get k = some v → k ∈ fs.keys := fun k v hk => by
    by_contra hn
    rw [Fields.get_eq_none_iff.2 hn] at hk
    cases hk
  obtain ⟨v, hv, -⟩ := (Option.any_eq_true ..).1 hv
  obtain ⟨w, hs, -⟩ := Option.bind_eq_some_iff.1 hs
  obtain ⟨x, hq, -⟩ := Option.bind_eq_some_iff.1 hq
  obtain ⟨y, hh, -⟩ := Option.bind_eq_some_iff.1 hh
  obtain ⟨z, hmac, -⟩ := Option.bind_eq_some_iff.1 hmac
  simp only [hasFields, Bool.and_eq_true, List.all_eq_true, decide_eq_true_eq]
  refine ⟨hkeys, fun k hk => ?_⟩
  simp only [hashFields, baseFields, List.mem_cons, List.not_mem_nil, or_false] at hk
  rcases hk with rfl | rfl | rfl | rfl | rfl | rfl
  · exact hp
  · exact hmem _ _ hv
  · exact hmem _ _ hs
  · exact hmem _ _ hq
  · exact hmem _ _ hh
  · exact hmem _ _ hmac

/-! ## The checkpoints that a transport sends -/

/-- The fields of `checkpoint` before its MAC, without a record. -/
def hashBody (s : Str) (q : ℕ) (h : Str) (previous : Option Str) : Fields F :=
  [("version", .int 1), ("session", .str s), ("sequence", .int q), ("head_hash", .str h),
    ("previous_hash", previousJson previous)]

/-- The MAC of such a checkpoint. -/
def hashMac (F : Type) [PyFloat F] (C : Crypto) (s : Str) (q : ℕ) (h : Str) (previous : Option Str)
    (key : Bytes) : Str :=
  hexdigest (C.hmac key (macInput "checkpoint"
    (encodeUtf8 ((Json.obj (hashBody s q h previous) : Json F).norm.render ⟨false, false⟩))))

/-- The message that `checkpoint` makes of a record's two hashes. -/
def hashCheckpoint (C : Crypto) (s : Str) (q : ℕ) (h : Str) (previous : Option Str) (key : Bytes) :
    Fields F :=
  hashBody s q h previous ++ [("mac".toList, .str (hashMac F C s q h previous key))]

/-- What the anchor store reads off that message. -/
def hashSubmission (F : Type) [PyFloat F] (C : Crypto) (s : Str) (q : ℕ) (h : Str)
    (previous : Option Str) (key : Bytes) : Submission where
  session := s
  sequence := q
  head := h
  previous := some previous
  frame := encodeUtf8
    ((Json.obj (hashCheckpoint C s q h previous key) : Json F).norm.render ⟨false, false⟩)
  key := key

theorem hashCheckpoint_norm (C : Crypto) (s : Str) (q : ℕ) (h : Str) (previous : Option Str)
    (key : Bytes) : (hashCheckpoint C s q h previous key : Fields F).norm =
      checkpointFields q s h (hashMac F C s q h previous key) previous := by
  rw [hashCheckpoint]
  generalize hashMac F C s q h previous key = mac
  cases previous <;> rfl

/-- The hashes and the session of a checkpoint to send. -/
structure HashForm (s : Str) (q : ℕ) (h : Str) (previous : Option Str) : Prop where
  sequence : q < 10 ^ 7
  session : isHex64 s = true
  head : isHex64 h = true
  previous : ∀ p ∈ previous, isHex64 p = true

theorem HashForm.plain (hf : HashForm s q h previous) (hmac : isHex64 mac = true) :
    PlainCheckpoint q s h mac previous :=
  ⟨hf.sequence, hf.session, hf.head, hmac, hf.previous⟩

theorem HashForm.canonical_body (hf : HashForm s q h previous) :
    canonical (hashBody s q h previous : Fields F) = .ok (encodeUtf8
      ((Json.obj (hashBody s q h previous) : Json F).norm.render ⟨false, false⟩)) := by
  have hzero : isHex64 (List.replicate 64 '0') = true := by decide
  refine (hf.plain hzero).canonical_eq fun kv hkv => ?_
  have herase : (hashBody s q h previous : Fields F).norm =
      (checkpointFields q s h (List.replicate 64 '0') previous).erase "mac" := by
    generalize List.replicate 64 '0' = zero
    cases previous <;> rfl
  rw [herase] at hkv
  exact List.mem_of_mem_filter hkv

theorem HashForm.macOf_eq (hf : HashForm s q h previous) (C : Crypto) (key : Bytes)
    {payload : Fields F} (hbody : payload.erase "mac" = hashBody s q h previous) :
    macOf C payload key "checkpoint" = .ok (hashMac F C s q h previous key) :=
  macOf_eq_ok.2 ⟨_, by rw [hbody, hf.canonical_body], rfl⟩

/-- `checkpoint` on a record with these hashes. -/
theorem HashForm.checkpoint_eq (hf : HashForm s q h previous) (C : Crypto) (key : Bytes)
    {record : Fields F} (hhead : record.get "record_hash" = some (.str h))
    (hprevious : record.get "previous_hash" = some (previousJson previous)) :
    checkpoint C s q record key false = .ok (hashCheckpoint C s q h previous key) := by
  have hset : Fields.set [("version".toList, Json.int 1), ("session".toList, .str s),
      ("sequence".toList, .int q), ("head_hash".toList, .str h)] "previous_hash".toList
      (previousJson previous : Json F) = hashBody s q h previous := rfl
  simp only [checkpoint, hhead, hprevious, hset, Bool.false_eq_true, if_false]
  exact authenticate_eq_ok.2 ⟨_, hf.macOf_eq C key rfl, rfl⟩

theorem HashForm.plain_mac (hf : HashForm s q h previous) (C : Crypto) (key : Bytes) :
    PlainCheckpoint q s h (hashMac F C s q h previous key) previous :=
  hf.plain (isHex64_hexdigest (C.hmac_length _ _))

/-- Its canonical bytes. -/
theorem HashForm.canonical_eq (hf : HashForm s q h previous) (C : Crypto) (key : Bytes) :
    canonical (hashCheckpoint C s q h previous key : Fields F) =
      .ok (hashSubmission F C s q h previous key).frame := by
  refine (hf.plain_mac (F := F) C key).canonical_eq fun kv hkv => ?_
  rwa [hashCheckpoint_norm] at hkv

theorem HashForm.length_frame (hf : HashForm s q h previous) (C : Crypto) (key : Bytes) :
    (hashSubmission F C s q h previous key).frame.length ≤ maxFrame := by
  have hlen := (hf.plain_mac (F := F) C key).length_le (F := F)
  have hutf := length_encodeUtf8_le
    ((Json.obj (hashCheckpoint C s q h previous key) : Json F).norm.render ⟨false, false⟩)
  rw [Json.norm_obj, hashCheckpoint_norm] at hutf
  change (encodeUtf8 ((Json.obj (hashCheckpoint C s q h previous key) : Json F).norm.render
    ⟨false, false⟩)).length ≤ 65536
  rw [Json.norm_obj, hashCheckpoint_norm]
  omega

theorem frame_ne_nil (C : Crypto) (s : Str) (q : ℕ) (h : Str) (previous : Option Str) (key : Bytes) :
    (hashSubmission F C s q h previous key).frame ≠ [] := by
  obtain ⟨c, b, -, hframe⟩ := encodeUtf8_render_obj ⟨false, false⟩
    (hashCheckpoint C s q h previous key : Fields F).norm
  have heq : (hashSubmission F C s q h previous key).frame = 0x7b :: c :: b := hframe
  rw [heq]
  exact List.cons_ne_nil _ _

theorem wf_hashCheckpoint (C : Crypto) (s : Str) (q : ℕ) (h : Str) (previous : Option Str)
    (key : Bytes) : (Json.obj (hashCheckpoint C s q h previous key) : Json F).WF := by
  have hkeys : ["version".toList, "session".toList, "sequence".toList, "head_hash".toList,
    "previous_hash".toList, "mac".toList].Nodup := by decide
  refine ⟨hkeys, trivial, trivial, trivial, trivial, ?_, trivial, trivial⟩
  cases previous <;> trivial

/-- The collector reads the message off the frame. -/
theorem HashForm.decode_eq (hf : HashForm s q h previous) (C : Crypto) (key : Bytes)
    (wide : Encoding → Bytes → Option Str) :
    decode wide (hashSubmission F C s q h previous key).frame =
      .ok (hashCheckpoint C s q h previous key : Fields F).norm :=
  decode_canonical wide (wf_hashCheckpoint C s q h previous key) (hf.canonical_eq C key)
    (hf.length_frame C key)

/-- The anchor store lets that message through. -/
theorem HashForm.examine_eq (hf : HashForm s q h previous) (hq : 1 ≤ q ∧ q ≤ 1000000) {C : Crypto}
    {store : AnchorStore} {key : Bytes} (hkey : sessionKey C store.master s = .ok key) :
    store.examine C (hashCheckpoint C s q h previous key : Fields F) =
      .ok (hashSubmission F C s q h previous key) := by
  refine AnchorStore.examine_eq_ok.2 ⟨.inr ?_, rfl, rfl, hkey, hf.canonical_eq C key,
    hf.length_frame C key, verify_eq_ok.2 ⟨_, hf.macOf_eq C key rfl, rfl⟩, ?_, ?_, ?_⟩
  · cases previous <;> rfl
  · change sequenceOf (.int q : Json F) = some q
    rw [sequenceOf, if_pos (by omega), Int.toNat_natCast]
  · change headOf (.str h : Json F) = some h
    exact headOf_eq_some.2 ⟨rfl, hf.head⟩
  · cases previous <;> rfl

/-- It refuses one with a sequence that is too large. -/
theorem examine_hashCheckpoint_error {C : Crypto} {store : AnchorStore} {key : Bytes}
    (hq : 1000000 < q) :
    ∃ e, store.examine C (hashCheckpoint C s q h previous key : Fields F) = .error e := by
  rcases hex : store.examine C (hashCheckpoint C s q h previous key : Fields F) with e | sub
  · exact ⟨e, rfl⟩
  · have hseq : sequenceOf (.int q : Json F) = some sub.sequence :=
      (AnchorStore.examine_eq_ok.1 hex).sequence
    rw [sequenceOf, if_neg (by omega)] at hseq
    cases hseq

/-! ## Acknowledgements -/

theorem wf_ackMessage (C : Crypto) (s : Str) (q : ℕ) (h : Str) (key : Bytes) :
    (Json.obj (ackMessage C s q h key) : Json F).WF := by
  have hkeys : ["version".toList, "session".toList, "sequence".toList, "head_hash".toList,
    "accepted".toList, "mac".toList].Nodup := by decide
  exact ⟨hkeys, trivial, trivial, trivial, trivial, trivial, trivial, trivial⟩

theorem writable_ackMessage (C : Crypto) (s : Str) (h : Str) (key : Bytes) (hq : q < 10 ^ 7) :
    (Json.obj (ackMessage C s q h key) : Json F).writable false = true := by
  have hw := writable_ackFields (F := F) s h hq
  simp only [Json.writable, writableFields_eq_all, ackMessage, List.all_append] at hw ⊢
  rw [hw]
  rfl

/-- The canonical bytes of an acknowledgement. -/
def ackFrame (F : Type) [PyFloat F] (C : Crypto) (s : Str) (q : ℕ) (h : Str) (key : Bytes) : Bytes :=
  encodeUtf8 ((Json.obj (ackMessage C s q h key) : Json F).norm.render ⟨false, true⟩)

theorem canonical_ackMessage (C : Crypto) (s : Str) (h : Str) (key : Bytes) (hq : q < 10 ^ 7) :
    canonical (ackMessage C s q h key : Fields F) = .ok (ackFrame F C s q h key) :=
  canonical_eq_ok.2 ⟨_, dumps_eq_some.2 ⟨writable_ackMessage C s h key hq, rfl⟩, rfl⟩

/-- An acknowledgement is far smaller than a frame may be. -/
theorem length_ackFrame (C : Crypto) (key : Bytes) (hq : q < 10 ^ 7) (hs : isHex64 s = true)
    (hh : isHex64 h = true) : (ackFrame F C s q h key).length ≤ maxFrame := by
  have hint : (renderInt (q : ℤ)).length ≤ 7 := by
    rw [renderInt, if_neg (by omega), Int.natAbs_natCast,
      Nat.length_toDigits_le_iff (by omega) (by omega)]
    exact hq
  have hone : (renderInt 1).length = 1 := by decide
  have hkeys : (renderStr true "head_hash").length = 11 ∧ (renderStr true "mac").length = 5 ∧
      (renderStr true "accepted").length = 10 ∧ (renderStr true "sequence").length = 10 ∧
      (renderStr true "session").length = 9 ∧ (renderStr true "version").length = 9 := by decide
  obtain ⟨h1, h2, h3, h4, h5, h6⟩ := hkeys
  have hmac : isHex64 (hexdigest (C.hmac key (macInput "acknowledgement" (ackBody F s q h)))) =
      true := isHex64_hexdigest (C.hmac_length _ _)
  rw [ackFrame, ackMessage]
  generalize hexdigest (C.hmac key (macInput "acknowledgement" (ackBody F s q h))) = mac at hmac ⊢
  have hnorm : (Json.obj (ackFields s q h ++ [("mac".toList, .str mac)]) : Json F).norm =
      .obj [("accepted", .bool true), ("head_hash", .str h), ("mac", .str mac),
        ("sequence", .int q), ("session", .str s), ("version", .int 1)] := rfl
  have htext : ((Json.obj (ackFields s q h ++ [("mac".toList, .str mac)]) : Json F).norm.render
      ⟨false, true⟩).length ≤ 1000 := by
    rw [hnorm]
    simp only [Json.render, renderFields, Style.pad, List.length_cons, List.length_append, h1, h2,
      h3, h4, h5, h6, length_renderStr_hex hs, length_renderStr_hex hh, length_renderStr_hex hmac,
      hone]
    simp only [Bool.false_eq_true, if_false, List.length_nil]
    simp
    omega
  refine (length_encodeUtf8_le _).trans ?_
  unfold maxFrame
  omega

end Bulldog.Anchor
