import Bulldog.Anchor.Checkpoint
import Bulldog.Anchor.History
import Bulldog.Lib.Json.Printable

/-!
# Checkpoints with their records

A relay keeps the whole records, so the checkpoints on its hop carry them: `checkpoint` with
`include_record`. The store recomputes the hash of the record and takes the previous hash from it.
-/

namespace Bulldog

section Length

variable {F : Type} [PyFloat F]

mutual
/-- Compact text is no longer than spaced text. -/
theorem length_render_compact (ascii : Bool) : ∀ v : Json F,
    (v.render ⟨false, ascii⟩).length ≤ (v.render ⟨true, ascii⟩).length
  | .null => le_rfl
  | .bool true => le_rfl
  | .bool false => le_rfl
  | .int _ => le_rfl
  | .float _ => le_rfl
  | .str _ => le_rfl
  | .arr [] => le_rfl
  | .arr (x :: xs) => by
    have hx := length_render_compact ascii x
    have hxs := length_renderItems_compact ascii xs
    simp only [Json.render, List.length_cons, List.length_append]
    omega
  | .obj [] => le_rfl
  | .obj ((k, v) :: fs) => by
    have hv := length_render_compact ascii v
    have hfs := length_renderFields_compact ascii fs
    simp only [Json.render, List.length_cons, List.length_append, Style.pad, Bool.false_eq_true,
      if_false, if_true, List.length_nil]
    omega

theorem length_renderItems_compact (ascii : Bool) : ∀ xs : List (Json F),
    (renderItems ⟨false, ascii⟩ xs).length ≤ (renderItems ⟨true, ascii⟩ xs).length
  | [] => le_rfl
  | x :: xs => by
    have hx := length_render_compact ascii x
    have hxs := length_renderItems_compact ascii xs
    simp only [renderItems, List.length_cons, List.length_append, Style.pad, Bool.false_eq_true,
      if_false, if_true, List.length_nil]
    omega

theorem length_renderFields_compact (ascii : Bool) : ∀ fs : Fields F,
    (renderFields ⟨false, ascii⟩ fs).length ≤ (renderFields ⟨true, ascii⟩ fs).length
  | [] => le_rfl
  | (k, v) :: fs => by
    have hv := length_render_compact ascii v
    have hfs := length_renderFields_compact ascii fs
    simp only [renderFields, List.length_cons, List.length_append, Style.pad, Bool.false_eq_true,
      if_false, if_true, List.length_nil]
    omega
end

end Length

namespace Anchor

variable {F : Type} [PyFloat F]

/-! ## Messages -/

/-- The fields of `checkpoint` before its MAC, with the record. -/
def recordBody (s : Str) (q : ℕ) (h : Str) (record : Fields F) : Fields F :=
  [("version", .int 1), ("session", .str s), ("sequence", .int q), ("head_hash", .str h),
    ("record", .obj record)]

/-- The MAC of such a checkpoint. -/
def recordMac (C : Crypto) (s : Str) (q : ℕ) (h : Str) (record : Fields F) (key : Bytes) : Str :=
  hexdigest (C.hmac key (macInput "checkpoint"
    (encodeUtf8 ((Json.obj (recordBody s q h record)).norm.render ⟨false, true⟩))))

/-- The message that `checkpoint` makes of a record. -/
def recordCheckpoint (C : Crypto) (s : Str) (q : ℕ) (h : Str) (record : Fields F) (key : Bytes) :
    Fields F :=
  recordBody s q h record ++ [("mac".toList, .str (recordMac C s q h record key))]

/-- What the anchor store reads off that message. -/
def recordSubmission (C : Crypto) (s : Str) (q : ℕ) (h : Str) (previous : Option Str)
    (record : Fields F) (key : Bytes) : Submission where
  session := s
  sequence := q
  head := h
  previous := some previous
  frame := encodeUtf8 ((Json.obj (recordCheckpoint C s q h record key)).norm.render ⟨false, true⟩)
  key := key

/-- A record to send, with its session and its hashes. -/
structure RecordForm (C : Crypto) (s : Str) (q : ℕ) (h : Str) (previous : Option Str)
    (record : Fields F) : Prop where
  sequence : q < 10 ^ 7
  session : isHex64 s = true
  head : isHex64 h = true
  wf : (Json.obj record).WF
  writable : (Json.obj record).writable false = true
  hash_eq : record.get "record_hash" = some (.str h)
  previous_eq : record.get "previous_hash" = some (previousJson previous)
  hashed : ∃ body, canonical (record.erase "record_hash") = .ok body ∧ hexdigest (C.sha256 body) = h
  short : ((Json.obj record).norm.render ⟨true, true⟩).length ≤ 60 * 1024

section Form

variable {C : Crypto} {s h : Str} {q : ℕ} {previous : Option Str} {record : Fields F} {key : Bytes}

theorem writable_recordBody (hq : q < 10 ^ 7) (hw : (Json.obj record).writable false = true) :
    (Json.obj (recordBody s q h record)).writable false = true := by
  have hseq := writable_sequence (F := F) hq
  have hone := writable_sequence (F := F) (n := 1) (by omega)
  simp only [recordBody, Json.writable, writableFields, Bool.and_true, Bool.true_and] at hseq hone hw ⊢
  rw [hseq, hw, Bool.and_true, Bool.and_true]
  exact hone

theorem canonical_recordBody (hf : RecordForm C s q h previous record) :
    canonical (recordBody s q h record) =
      .ok (encodeUtf8 ((Json.obj (recordBody s q h record)).norm.render ⟨false, true⟩)) :=
  canonical_eq_ok.2 ⟨_, dumps_eq_some.2 ⟨writable_recordBody hf.sequence hf.writable, rfl⟩, rfl⟩

theorem RecordForm.macOf_eq (hf : RecordForm C s q h previous record) {payload : Fields F}
    (hbody : payload.erase "mac" = recordBody s q h record) :
    macOf C payload key "checkpoint" = .ok (recordMac C s q h record key) :=
  macOf_eq_ok.2 ⟨_, by rw [hbody, canonical_recordBody hf], rfl⟩

/-- `checkpoint` on the record. -/
theorem RecordForm.checkpoint_eq (hf : RecordForm C s q h previous record) (key : Bytes) :
    checkpoint C s q record key true = .ok (recordCheckpoint C s q h record key) := by
  have hset : Fields.set [("version".toList, Json.int 1), ("session".toList, .str s),
      ("sequence".toList, .int q), ("head_hash".toList, .str h)] "record".toList
      (.obj record : Json F) = recordBody s q h record := rfl
  simp only [checkpoint, hf.hash_eq, hset, if_true]
  exact authenticate_eq_ok.2 ⟨_, hf.macOf_eq rfl, rfl⟩

/-- Its canonical bytes. -/
theorem RecordForm.canonical_eq (hf : RecordForm C s q h previous record) (key : Bytes) :
    canonical (recordCheckpoint C s q h record key) =
      .ok (recordSubmission C s q h previous record key).frame := by
  refine canonical_eq_ok.2 ⟨_, dumps_eq_some.2 ⟨?_, rfl⟩, rfl⟩
  have hw := writable_recordBody (s := s) (h := h) hf.sequence hf.writable
  simp only [Json.writable, writableFields_eq_all, recordCheckpoint, List.all_append] at hw ⊢
  rw [hw]
  rfl

omit [PyFloat F] in
/-- The order of the members of the record does not matter. -/
theorem norm_recordBody (s : Str) (q : ℕ) (h : Str) (record : Fields F) :
    (Json.obj (recordBody s q h record.norm)).norm = (Json.obj (recordBody s q h record)).norm := by
  have hrecord : (Json.obj record.norm).norm = (Json.obj record).norm := Json.norm_norm (.obj record)
  have hbody : ∀ r : Fields F, normFields (recordBody s q h r) =
      [("version".toList, .int 1), ("session".toList, .str s), ("sequence".toList, .int q),
        ("head_hash".toList, .str h), ("record".toList, (Json.obj r).norm)] := fun r => rfl
  rw [Json.norm, Json.norm, hbody, hbody, hrecord]

theorem norm_recordCheckpoint (C : Crypto) (s : Str) (q : ℕ) (h : Str) (record : Fields F)
    (key : Bytes) : (recordCheckpoint C s q h record.norm key).norm =
      (recordCheckpoint C s q h record key).norm := by
  have hrecord : (Json.obj record.norm).norm = (Json.obj record).norm := Json.norm_norm (.obj record)
  have hmac : recordMac C s q h record.norm key = recordMac C s q h record key := by
    rw [recordMac, recordMac, norm_recordBody]
  have hcheckpoint : ∀ r : Fields F, normFields (recordCheckpoint C s q h r key) =
      [("version".toList, .int 1), ("session".toList, .str s), ("sequence".toList, .int q),
        ("head_hash".toList, .str h), ("record".toList, (Json.obj r).norm),
        ("mac".toList, .str (recordMac C s q h r key))] := fun r => rfl
  refine congrArg Fields.sort ?_
  rw [hcheckpoint, hcheckpoint, hrecord, hmac]

theorem frame_norm (C : Crypto) (s : Str) (q : ℕ) (h : Str) (previous : Option Str)
    (record : Fields F) (key : Bytes) : (recordSubmission C s q h previous record.norm key).frame =
      (recordSubmission C s q h previous record key).frame := by
  have hnorm := congrArg Json.obj (norm_recordCheckpoint C s q h record key)
  exact congrArg (fun v : Json F => encodeUtf8 (v.render ⟨false, true⟩)) hnorm

theorem wf_recordCheckpoint (hf : RecordForm C s q h previous record) (key : Bytes) :
    (Json.obj (recordCheckpoint C s q h record key)).WF := by
  have hkeys : ["version".toList, "session".toList, "sequence".toList, "head_hash".toList,
    "record".toList, "mac".toList].Nodup := by decide
  exact ⟨hkeys, trivial, trivial, trivial, trivial, hf.wf, trivial, trivial⟩

/-- A record that fits its line fits a frame with its line end. -/
theorem RecordForm.length_frame (hf : RecordForm C s q h previous record) (key : Bytes) :
    (recordSubmission C s q h previous record key).frame.length + 1 ≤ maxFrame := by
  have hint : (renderInt (q : ℤ)).length ≤ 7 := by
    rw [renderInt, if_neg (by omega), Int.natAbs_natCast,
      Nat.length_toDigits_le_iff (by omega) (by omega)]
    exact hf.sequence
  have hone : (renderInt 1).length = 1 := by decide
  have hkeys : (renderStr true "head_hash").length = 11 ∧ (renderStr true "mac").length = 5 ∧
      (renderStr true "record").length = 8 ∧ (renderStr true "sequence").length = 10 ∧
      (renderStr true "session").length = 9 ∧ (renderStr true "version").length = 9 := by decide
  obtain ⟨h1, h2, h3, h4, h5, h6⟩ := hkeys
  have hrecord := (length_render_compact true (Json.obj record).norm).trans hf.short
  have hmac : isHex64 (recordMac C s q h record key) = true := isHex64_hexdigest (C.hmac_length _ _)
  change (encodeUtf8 ((Json.obj (recordCheckpoint C s q h record key)).norm.render
    ⟨false, true⟩)).length + 1 ≤ 65536
  rw [length_encodeUtf8_printable (printable_render false _), recordCheckpoint]
  generalize recordMac C s q h record key = mac at hmac ⊢
  have hnorm : (Json.obj (recordBody s q h record ++ [("mac".toList, .str mac)])).norm =
      .obj [("head_hash", .str h), ("mac", .str mac), ("record", (Json.obj record).norm),
        ("sequence", .int q), ("session", .str s), ("version", .int 1)] := rfl
  rw [hnorm]
  generalize (Json.obj record).norm = r at hrecord ⊢
  have hhead := length_renderStr_hex hf.head true
  have hsession := length_renderStr_hex hf.session true
  have hmac' := length_renderStr_hex hmac true
  simp only [Json.render, renderFields, Style.pad, List.length_cons, List.length_append, h1, h2, h3,
    h4, h5, h6, hhead, hsession, hmac', hone, Bool.false_eq_true, if_false, List.length_nil]
  omega

/-- The relay reads the message off the frame. -/
theorem RecordForm.decode_eq (hf : RecordForm C s q h previous record) (key : Bytes)
    (wide : Encoding → Bytes → Option Str) :
    decode wide (recordSubmission C s q h previous record key).frame =
      .ok (recordCheckpoint C s q h record key).norm :=
  decode_canonical wide (wf_recordCheckpoint hf key) (hf.canonical_eq key)
    ((Nat.le_succ _).trans (hf.length_frame key))

/-- The anchor store lets that message through. -/
theorem RecordForm.examine_eq (hf : RecordForm C s q h previous record) (hq : 1 ≤ q ∧ q ≤ 1000000)
    {store : AnchorStore} {key : Bytes} (hkey : sessionKey C store.master s = .ok key) :
    store.examine C (recordCheckpoint C s q h record key) =
      .ok (recordSubmission C s q h previous record key) := by
  refine AnchorStore.examine_eq_ok.2 ⟨.inl rfl, rfl, rfl, hkey, hf.canonical_eq key,
    (Nat.le_succ _).trans (hf.length_frame key), verify_eq_ok.2 ⟨_, hf.macOf_eq rfl, rfl⟩, ?_, ?_, ?_⟩
  · change sequenceOf (.int q : Json F) = some q
    rw [sequenceOf, if_pos (by omega), Int.toNat_natCast]
  · change headOf (.str h : Json F) = some h
    exact headOf_eq_some.2 ⟨rfl, hf.head⟩
  · change previousOf C (recordCheckpoint C s q h record key) h = .ok (some previous)
    obtain ⟨body, hbody, hhash⟩ := hf.hashed
    have hcheck : checkRecord C record h = .ok () := by
      simp only [checkRecord, bind_eq_ok, raiseIf_eq_ok, not_not]
      refine ⟨(), ?_, body, hbody, hhash⟩
      rw [hf.hash_eq]
      rfl
    have hrecord : Fields.get (recordCheckpoint C s q h record key) "record" = some (.obj record) :=
      rfl
    simp only [previousOf, hrecord, hcheck, hf.previous_eq, bind, Except.bind, Option.getD_some]
    cases previous <;> rfl

/-- It refuses one with a sequence that is too large. -/
theorem examine_recordCheckpoint_error {store : AnchorStore} (hq : 1000000 < q) :
    ∃ e, store.examine C (recordCheckpoint C s q h record key) = .error e := by
  rcases hex : store.examine C (recordCheckpoint C s q h record key) with e | sub
  · exact ⟨e, rfl⟩
  · have hseq : sequenceOf (.int q : Json F) = some sub.sequence :=
      (AnchorStore.examine_eq_ok.1 hex).sequence
    rw [sequenceOf, if_neg (by omega)] at hseq
    cases hseq

/-- Sorting the record keeps its form. -/
theorem RecordForm.norm (hf : RecordForm C s q h previous record) :
    RecordForm C s q h previous record.norm where
  sequence := hf.sequence
  session := hf.session
  head := hf.head
  wf := hf.wf.norm
  writable := by
    rw [← Json.norm_obj, Json.writable_norm]
    exact hf.writable
  hash_eq := by
    rw [Fields.get_norm, hf.hash_eq]
    rfl
  previous_eq := by
    rw [Fields.get_norm, hf.previous_eq]
    cases previous <;> rfl
  hashed := by
    rw [← Fields.erase_norm, canonical_norm]
    exact hf.hashed
  short := by
    rw [← Json.norm_obj, Json.norm_norm]
    exact hf.short

end Form

/-! ## Stores with the first checkpoints of a history -/

section Prefix

variable {subs : List Submission} {s : Str} {k i : ℕ} {sub : Submission}

/-- The rows of a store that has the first `k` submissions. -/
def prefixRows (subs : List Submission) (k : ℕ) : List Row := (subs.take k).map Submission.row

theorem prefixRows_succ (hsub : subs[k]? = some sub) :
    prefixRows subs (k + 1) = prefixRows subs k ++ [sub.row] := by
  rw [prefixRows, prefixRows, List.take_add_one, hsub, List.map_append]
  rfl

theorem length_prefixRows (hk : k ≤ subs.length) : (prefixRows subs k).length = k := by
  rw [prefixRows, List.length_map, List.length_take, min_eq_left hk]

variable (hist : History subs) (hs : ∀ sub ∈ subs, sub.session = s)
include hist hs

theorem latest_prefixRows (k : ℕ) :
    latest (prefixRows subs k) s = (subs.take k).getLast?.map Submission.row := by
  have hfilter : (subs.take k).filter (·.session = s) = subs.take k :=
    List.filter_eq_self.2 fun sub hsub => decide_eq_true (hs sub (List.mem_of_mem_take hsub))
  rw [prefixRows, latest_map (by rw [hfilter]; exact hist.take k), hfilter]

theorem latest_prefixRows_succ (hsub : subs[k]? = some sub) :
    latest (prefixRows subs (k + 1)) s = some sub.row := by
  rw [latest_prefixRows hist hs, List.take_add_one, hsub, Option.toList_some, List.getLast?_concat]
  rfl

/-- Of the submissions of a history, the next one for the store is the one that comes next. -/
theorem next_prefix_iff (hk : k ≤ subs.length) (hsub : subs[i]? = some sub) :
    sub.Next (latest (prefixRows subs k) s) ↔ i = k := by
  constructor
  · intro hnext
    have hseq := hist.sequence_at hsub
    have hn := hnext.1
    rcases k with _ | k
    · change sub.sequence = 1 at hn
      omega
    · obtain ⟨last, hlast⟩ : ∃ last, subs[k]? = some last :=
        ⟨_, List.getElem?_eq_getElem (by omega)⟩
      rw [latest_prefixRows_succ hist hs hlast] at hn
      have hlastSeq := hist.sequence_at hlast
      change sub.sequence = last.sequence + 1 at hn
      omega
  · rintro rfl
    have htake := hist.take (i + 1)
    rw [List.take_add_one, hsub, Option.toList_some] at htake
    rw [latest_prefixRows hist hs]
    exact (history_concat.1 htake).2

/-- And the one that is a retry is the one it has last. -/
theorem retry_prefix_iff (hk : k ≤ subs.length) (hsub : subs[i]? = some sub) :
    sub.Retry (latest (prefixRows subs k) s) ↔ i + 1 = k := by
  constructor
  · rintro ⟨row, hrow, hseq, -⟩
    rcases k with _ | k
    · cases hrow
    · obtain ⟨last, hlast⟩ : ∃ last, subs[k]? = some last :=
        ⟨_, List.getElem?_eq_getElem (by omega)⟩
      rw [latest_prefixRows_succ hist hs hlast] at hrow
      cases hrow
      have h₁ := hist.sequence_at hlast
      have h₂ := hist.sequence_at hsub
      change sub.sequence = last.sequence at hseq
      omega
  · rintro rfl
    exact ⟨sub.row, latest_prefixRows_succ hist hs hsub, rfl, rfl⟩

/-- What a store that has the first `k` submissions does with the `i`-th. -/
theorem accept_prefixRows {C : Crypto} {store : AnchorStore} {message : Fields F} (hk : k ≤ subs.length)
    (hsub : subs[i]? = some sub) (hex : store.examine C message = .ok sub) (pageBytes : ℕ) :
    ∃ k', (store.accept C message pageBytes (prefixRows subs k)).2 = prefixRows subs k' ∧
      (k' = k ∨ i = k ∧ k' = k + 1) ∧
      (∀ ack, (store.accept C message pageBytes (prefixRows subs k)).1 = .ok ack → k' = i + 1 ∧
        acknowledge C sub.session sub.sequence sub.head sub.key = .ok ack) ∧
      (i + 1 = k ∨ i = k → pageBytes + sub.frame.length + 16384 ≤ store.maxBytes →
        (store.accept C message pageBytes (prefixRows subs k)).1 =
          acknowledge C sub.session sub.sequence sub.head sub.key) := by
  have hsession := hs sub (List.mem_of_getElem? hsub)
  have hretryIff := retry_prefix_iff hist hs hk hsub
  have hnextIff := next_prefix_iff hist hs hk hsub
  rw [← hsession] at hretryIff hnextIff
  rcases AnchorStore.accept_cases hex pageBytes (prefixRows subs k) with
    ⟨hretry, ha⟩ | ⟨hretry, hnext, hb, ha⟩ | ⟨hretry, hb, e, ha⟩ <;> rw [ha]
  · exact ⟨k, rfl, .inl rfl, fun ack h => ⟨(hretryIff.1 hretry).symm, h⟩, fun _ _ => rfl⟩
  · obtain rfl := hnextIff.1 hnext
    exact ⟨i + 1, (prefixRows_succ hsub).symm, .inr ⟨rfl, rfl⟩, fun ack h => ⟨rfl, h⟩, fun _ _ => rfl⟩
  · refine ⟨k, rfl, .inl rfl, nofun, fun hik hbudget => ?_⟩
    rcases hik with hik | hik
    · exact (hretry (hretryIff.2 hik)).elim
    · exact absurd (hb (hnextIff.2 hik)) (not_lt.2 hbudget)

end Prefix

end Anchor

end Bulldog
