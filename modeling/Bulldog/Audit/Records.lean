import Bulldog.Lib.Json.Printable
import Bulldog.Audit.Append

/-!
# The records of a ledger

A ledger file that `_append_payload` wrote holds sealed records, each with the hash of the one
before it. Reading it back line by line gives their normal forms, and `_verify_unlocked` gets
through to the last of them.
-/

namespace Bulldog.Audit

open Anchor

variable {F : Type} [PyFloat F] {C : Crypto}

/-! ## Hashes -/

theorem calculateHash_eq_ok {record : Fields F} {hash : Str} :
    calculateHash C record = .ok hash ↔
      ∃ t, dumps ⟨false, true⟩ true (.obj (record.erase "record_hash")) = some t ∧
        hexdigest (C.sha256 (encodeUtf8 t)) = hash := by
  unfold calculateHash
  split <;> simp_all

/-- A hash sees the normal form of a record only. -/
theorem calculateHash_norm (record : Fields F) :
    calculateHash C record.norm = calculateHash C record := by
  rw [calculateHash, calculateHash, ← Fields.erase_norm, ← Json.norm_obj, dumps_norm]

theorem isHex64_calculateHash {record : Fields F} {hash : Str}
    (h : calculateHash C record = .ok hash) : isHex64 hash = true := by
  obtain ⟨t, -, rfl⟩ := calculateHash_eq_ok.1 h
  exact isHex64_hexdigest (C.sha256_length _)

/-- A record as the ledger keeps it, after a record with hash `previous`. -/
structure Sealed (C : Crypto) (previous : Option Str) (record : Fields F) (hash : Str) : Prop where
  wf : (Json.obj record).WF
  writable : (Json.obj record).writable true = true
  previous_eq : record.get "previous_hash" = some (previousJson previous)
  hash_eq : record.get "record_hash" = some (.str hash)
  calculated : calculateHash C record = .ok hash

theorem Sealed.isHex64 {previous : Option Str} {record : Fields F} {hash : Str}
    (h : Sealed C previous record hash) : isHex64 hash = true :=
  isHex64_calculateHash h.calculated

omit [PyFloat F] in
theorem wf_set {fs : Fields F} (h : (Json.obj fs).WF) (k : Str) {v : Json F} (hv : v.WF) :
    (Json.obj (fs.set k v)).WF := by
  refine ⟨Fields.nodup_set h.1 k v, (WFFields_iff _).2 fun kv hkv => ?_⟩
  rcases Fields.mem_set hkv with rfl | hkv
  · exact hv
  · exact (WFFields_iff fs).1 h.2 kv (List.mem_of_mem_filter hkv)

/-- What `_append_payload` makes of a payload is a record of the ledger. -/
theorem sealRecord_sealed (S : Setting F) {payload record : Fields F} {previous : Option Str}
    {hash : Str} (hwf : (Json.obj payload).WF)
    (h : S.sealRecord payload previous = .ok (record, hash)) :
    Sealed S.crypto previous record hash := by
  obtain ⟨hash', hcalc, heq⟩ := bind_eq_ok.1 h
  cases heq
  have hprevious : (previousJson previous : Json F).WF := by
    cases previous <;> trivial
  obtain ⟨t, ht, -⟩ := calculateHash_eq_ok.1 hcalc
  have hw := (dumps_eq_some.1 ht).1
  refine ⟨wf_set (wf_set hwf _ hprevious) _ trivial, ?_, ?_, Fields.get_set_self _ _ _, ?_⟩
  · rw [Json.writable, writableFields_eq_all, List.all_eq_true] at hw ⊢
    intro kv hkv
    rcases Fields.mem_set hkv with rfl | hkv
    · rfl
    · exact hw kv hkv
  · rw [Fields.get_set_of_ne _ _ (by decide), Fields.get_set_self]
  · rw [calculateHash, Fields.erase_set]
    exact hcalc

/-! ## Chains of records -/

/-- The records are a chain after a record with hash `previous`. Each stands with its hash. -/
def Chained (C : Crypto) : Option Str → List (Fields F × Str) → Prop
  | _, [] => True
  | previous, (record, hash) :: rs => Sealed C previous record hash ∧ Chained C (some hash) rs

/-- The hash of the last record. -/
def lastHash (previous : Option Str) (rs : List (Fields F × Str)) : Option Str :=
  (rs.getLast?.map Prod.snd).or previous

omit [PyFloat F] in
theorem lastHash_cons (previous : Option Str) (x : Fields F × Str) (rs : List (Fields F × Str)) :
    lastHash previous (x :: rs) = lastHash (some x.2) rs := by
  rcases List.eq_nil_or_concat rs with rfl | ⟨init, last, rfl⟩
  · rfl
  · rw [List.concat_eq_append, lastHash, lastHash, ← List.cons_append, List.getLast?_concat,
      List.getLast?_concat]
    rfl

omit [PyFloat F] in
theorem lastHash_concat (previous : Option Str) (rs : List (Fields F × Str)) (x : Fields F × Str) :
    lastHash previous (rs ++ [x]) = some x.2 := by
  simp [lastHash]

/-- A chain grows by a record that is sealed after its last one. -/
theorem chained_concat {previous : Option Str} {rs : List (Fields F × Str)} {record : Fields F}
    {hash : Str} : Chained C previous (rs ++ [(record, hash)]) ↔
      Chained C previous rs ∧ Sealed C (lastHash previous rs) record hash := by
  induction rs generalizing previous with
  | nil => simp [Chained, lastHash]
  | cons x rs ih =>
    obtain ⟨r, h⟩ := x
    rw [List.cons_append, Chained, Chained, ih, lastHash_cons, and_assoc]

theorem Chained.sealed {previous : Option Str} {rs : List (Fields F × Str)}
    (hc : Chained C previous rs) : ∀ x ∈ rs, ∃ p, Sealed C p x.1 x.2 := by
  induction rs generalizing previous with
  | nil => simp
  | cons y rs ih =>
    obtain ⟨hs, hc⟩ := hc
    rintro x hx
    rcases List.mem_cons.1 hx with rfl | hx
    · exact ⟨previous, hs⟩
    · exact ih hc x hx

/-! ## The file -/

/-- The line of a record. -/
def recordLine (record : Fields F) : Str := (Json.obj record).norm.render ⟨true, true⟩

/-- The text of a ledger file. -/
def ledgerText (rs : List (Fields F × Str)) : Str :=
  (rs.map fun x => recordLine x.1).flatMap (· ++ ['\n'])

theorem recordLine_braces (record : Fields F) : ∃ t, recordLine record = '{' :: t ++ ['}'] :=
  render_obj_braces ⟨true, true⟩ record.norm

theorem strip_recordLine (record : Fields F) : Str.strip (recordLine record) = recordLine record := by
  obtain ⟨t, ht⟩ := recordLine_braces record
  rw [ht, Str.strip_eq (by decide) (by decide)]

theorem recordLine_ne_nil (record : Fields F) : recordLine record ≠ [] := by
  obtain ⟨t, ht⟩ := recordLine_braces record
  rw [ht]
  exact List.cons_ne_nil _ _

/-- A record line has no line break. -/
theorem not_mem_recordLine (record : Fields F) {c : Char} (hc : c.toNat < 0x20) :
    c ∉ recordLine record := fun h => by
  have hprint := printable_render true (Json.obj record).norm c h
  omega

theorem lines_ledgerText (rs : List (Fields F × Str)) :
    Str.lines (ledgerText rs) = rs.map fun x => recordLine x.1 := by
  refine Str.lines_flatMap (fun t ht => ?_) fun t ht => ?_
  · obtain ⟨x, -, rfl⟩ := List.mem_map.1 ht
    exact not_mem_recordLine x.1 (by decide)
  · obtain ⟨x, -, rfl⟩ := List.mem_map.1 ht
    exact not_mem_recordLine x.1 (by decide)

theorem jsonFile_eq {payload : Fields F} (h : (Json.obj payload).writable true = true) :
    jsonFile payload = .ok (encodeUtf8 (recordLine payload ++ ['\n'])) := by
  rw [jsonFile, dumps_eq_some.2 ⟨h, rfl⟩]
  rfl

theorem ledgerText_concat (rs : List (Fields F × Str)) (record : Fields F) (hash : Str) :
    ledgerText (rs ++ [(record, hash)]) = ledgerText rs ++ (recordLine record ++ ['\n']) := by
  simp [ledgerText]

theorem loads_recordLine {record : Fields F} (hwf : (Json.obj record).WF)
    (hw : (Json.obj record).writable true = true) :
    loads (recordLine record) = some (.obj record.norm) := by
  have h : loads (recordLine record ++ []) = some (.obj record.norm) :=
    loads_dumps hwf (dumps_eq_some.2 ⟨hw, rfl⟩) (by simp)
  rwa [List.append_nil] at h

theorem loads_jsonFile {payload : Fields F} (hwf : (Json.obj payload).WF)
    (hw : (Json.obj payload).writable true = true) :
    loads (recordLine payload ++ ['\n']) = some (.obj payload.norm) :=
  loads_dumps hwf (dumps_eq_some.2 ⟨hw, rfl⟩) (List.forall_mem_singleton.2 (by decide))

theorem readText_encodeUtf8 {text : Str} (h : '\r' ∉ text) :
    readText (encodeUtf8 text) = .ok text := by
  rw [readText, decodeUtf8_encodeUtf8]
  change Except.ok (Str.universalNewlines text) = _
  rw [Str.universalNewlines_eq h]

theorem readText_jsonFile (payload : Fields F) :
    readText (encodeUtf8 (recordLine payload ++ ['\n'])) = .ok (recordLine payload ++ ['\n']) := by
  refine readText_encodeUtf8 fun h => ?_
  rcases List.mem_append.1 h with h | h
  · exact not_mem_recordLine payload (by decide) h
  · exact absurd (List.mem_singleton.1 h) (by decide)

/-- A digest and a line end, read back and stripped. -/
theorem strip_digest {h : Str} (hh : isHex64 h = true) : Str.strip (h ++ ['\n']) = h := by
  simp only [isHex64, Bool.and_eq_true, List.all_eq_true, beq_iff_eq] at hh
  have hspace : ∀ c ∈ h, Str.isSpace c = false := fun c hc => by
    have hc := hh.2 c hc
    simp only [Bool.or_eq_true, Bool.and_eq_true, decide_eq_true_eq, Char.le_def] at hc
    have hval : (97 ≤ c.toNat ∧ c.toNat ≤ 102) ∨ (48 ≤ c.toNat ∧ c.toNat ≤ 57) := hc
    simp only [Str.isSpace, Bool.or_eq_false_iff, Bool.and_eq_false_iff, decide_eq_false_iff_not,
      beq_eq_false_iff_ne]
    omega
  rcases h with _ | ⟨c, t⟩
  · simp at hh
  rw [Str.strip, Str.rstrip, List.cons_append, List.dropWhile_cons_of_neg
    (by simp [hspace c List.mem_cons_self]), ← List.cons_append,
    List.rdropWhile_concat_pos _ _ _ (by decide)]
  rcases List.eq_nil_or_concat (c :: t) with hnil | ⟨init, d, hconcat⟩
  · cases hnil
  · rw [hconcat, List.concat_eq_append, List.rdropWhile_concat_neg]
    have hd := hspace d (by rw [hconcat]; simp)
    simp [hd]

/-- The head checkpoint, read back. -/
theorem headText_digest {disk : Disk} {h : Str} (hh : isHex64 h = true)
    (hhead : disk.head = some (encodeUtf8 (h ++ ['\n']))) :
    disk.headText true = .ok (some h) := by
  have hcr : '\r' ∉ h ++ ['\n'] := by
    have hplain := List.all_eq_true.1 (isPlain_of_isHex64 hh)
    intro hmem
    rcases List.mem_append.1 hmem with hmem | hmem
    · exact absurd (hplain _ hmem) (by decide)
    · exact absurd (List.mem_singleton.1 hmem) (by decide)
  unfold Disk.headText
  rw [hhead]
  simp only [readText_encodeUtf8 hcr, Except.map, strip_digest hh]

/-- The loop of `_verify_unlocked` gets through a chain of records. -/
theorem verifyLines_chained {previous : Option Str} {rs : List (Fields F × Str)}
    (hc : Chained C previous rs) (records index : ℕ) :
    verifyLines C F previous records index (rs.map fun x => recordLine x.1) =
      .ok (.inr (lastHash previous rs, records + rs.length)) := by
  induction rs generalizing previous records index with
  | nil => simp [verifyLines, lastHash]
  | cons x rs ih =>
    obtain ⟨record, hash⟩ := x
    obtain ⟨hs, hc⟩ := hc
    have hhash : (Fields.get record.norm "record_hash").bind strOf = some hash := by
      rw [Fields.get_norm, hs.hash_eq]
      rfl
    have hprevious : previousHash ((Fields.get record.norm "previous_hash").getD .null) =
        some previous := by
      rw [Fields.get_norm, hs.previous_eq]
      cases previous <;> rfl
    have hcalc : calculateHash C record.norm = .ok hash := by
      rw [calculateHash_norm, hs.calculated]
    rw [List.map_cons, verifyLines, strip_recordLine, if_neg (recordLine_ne_nil record),
      loads_recordLine hs.wf hs.writable]
    simp only [hhash, hprevious, hcalc, ne_eq, not_true_eq_false, if_false, bind, Except.bind]
    rw [ih hc, lastHash_cons, List.length_cons, Nat.add_assoc, Nat.add_comm 1]

/-- `reconcile_remote` reads the last record of a chain. -/
theorem lastRecord_chained {previous : Option Str} {rs : List (Fields F × Str)}
    (hc : Chained C previous rs) (last : Option (Json F)) :
    Setting.lastRecord last (rs.map fun x => recordLine x.1) =
      .ok ((rs.getLast?.map fun x => .obj x.1.norm).or last) := by
  induction rs generalizing previous last with
  | nil => rfl
  | cons x rs ih =>
    obtain ⟨record, hash⟩ := x
    obtain ⟨hs, hc⟩ := hc
    rw [List.map_cons, Setting.lastRecord, strip_recordLine, if_neg (recordLine_ne_nil record),
      loads_recordLine hs.wf hs.writable]
    simp only [orRaise, bind, Except.bind]
    rw [ih hc]
    rcases List.eq_nil_or_concat rs with rfl | ⟨init, y, rfl⟩
    · rfl
    · rw [List.concat_eq_append, ← List.cons_append, List.getLast?_concat, List.getLast?_concat]
      rfl

end Bulldog.Audit
