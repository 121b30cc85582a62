import Bulldog.Audit.Interpreter

/-!
# Appending to a valid ledger

An append to a valid ledger leaves a valid ledger exactly when two things hold. The last line of the
file must be ended, since the record would continue it otherwise. And the keys of every `dict` in
the data must be in increasing order once they are strings: `_append_payload` hashes the members in
the order in which the keys themselves are sorted, and `_verify_unlocked` in the order of the
strings (`append_valid_iff`).
-/

namespace Bulldog.Audit

open Anchor

variable {F : Type} [PyFloat F] {C : Crypto} {B : Builtins F} {P : PySort F} {ledger : LedgerOptions}

/-! ## Lines -/

theorem recordsOf_append (xs ys : List Str) :
    recordsOf F (xs ++ ys) =
      (recordsOf F xs).bind fun vs => (recordsOf F ys).map (vs ++ ·) := by
  induction xs with
  | nil => simp [recordsOf]
  | cons raw xs ih =>
    rw [List.cons_append]
    by_cases hblank : Str.strip raw = []
    · rw [recordsOf_blank hblank, recordsOf_blank hblank, ih]
    · rw [recordsOf_cons hblank, recordsOf_cons hblank, ih]
      rcases loads (F := F) (Str.strip raw) with _ | v
      · rfl
      · rcases recordsOf F xs with _ | vs
        · rfl
        · rcases recordsOf F ys with _ | ws <;> rfl

/-- An open line counts as a line. -/
theorem recordsOf_lines (text : Str) :
    recordsOf F (Str.lines text) = recordsOf F (Str.closedLines text ++ [Str.openLine text]) := by
  rw [Str.lines_eq]
  split_ifs with hopen
  · rw [recordsOf_append, hopen, recordsOf_blank rfl]
    rcases recordsOf F (Str.closedLines text) with _ | vs
    · rfl
    · simp [recordsOf]
  · rfl

omit [PyFloat F] in
/-- The members of a record that was read back. -/
theorem dict_sort {R : Fields F} (hnd : R.keys.Nodup) :
    (Json.obj R.sort).dict = .obj (dictFields R.sort) := by
  rw [Json.dict, Fields.dict_of_nodup]
  rw [keys_dictFields]
  exact ((Fields.sort_perm R).map Prod.fst).nodup_iff.2 hnd

omit [PyFloat F] in
/-- What is hashed of a record that was read back. -/
theorem erase_dict_sort {R : Fields F} (hnd : R.keys.Nodup) (k : Str) :
    Json.obj (Fields.erase (dictFields R.sort) k) = (Json.obj (R.erase k).sort).dict := by
  rw [← dictFields_erase, Fields.erase_sort, dict_sort]
  exact hnd.sublist (List.filter_sublist.map _)

/-- The line that was written is read as a link exactly when the hash is found again. -/
theorem Line.isLink_iff {previous : Option Str} {hash h : Str} {R : Fields F}
    (hline : Line C previous hash R) (p : Option Str) :
    IsLink C p (Json.obj R.sort).dict h ↔
      p = previous ∧ h = hash ∧ calculateHash C (dictFields R.sort) = .ok hash := by
  have hhash : (Fields.get (dictFields R.sort) "record_hash").bind strOf = some hash := by
    rw [get_dictFields, Fields.get_sort, hline.hash_eq]
    rfl
  have hprevious : previousHash ((Fields.get (dictFields R.sort) "previous_hash").getD .null) =
      some previous := by
    rw [get_dictFields, Fields.get_sort, hline.previous_eq]
    cases previous <;> rfl
  rw [dict_sort hline.nodup]
  constructor
  · rintro ⟨fields, hfields, hstored, hbefore, hcalc⟩
    obtain rfl := Json.obj.inj hfields
    obtain rfl := Option.some.inj (hstored.symm.trans hhash)
    obtain rfl := Option.some.inj (hbefore.symm.trans hprevious)
    exact ⟨rfl, rfl, hcalc⟩
  · rintro ⟨rfl, rfl, hcalc⟩
    exact ⟨_, rfl, hhash, hprevious, hcalc⟩

/-- The text that `_calculate_hash` hashes for a record that was read. -/
def linkText (record : Fields F) : Option Str :=
  dumps ⟨false, true⟩ true (.obj (record.erase "record_hash"))

/-- With keys in increasing order the hash is found again. -/
theorem Line.calculateHash_of_increasing {previous : Option Str} {hash : Str} {R : Fields F}
    (hline : Line C previous hash R) (h : (Json.obj (R.erase "record_hash").sort).Increasing) :
    calculateHash C (dictFields R.sort) = .ok hash := by
  have hnorm := (Json.dict_norm_eq_iff _).2 h
  refine calculateHash_eq_ok.2 ⟨_, dumps_eq_some.2 ⟨?_, rfl⟩, ?_⟩
  · rw [erase_dict_sort hline.nodup, ← Json.writable_norm, hnorm]
    exact hline.hashed_writable
  · rw [erase_dict_sort hline.nodup, hnorm, hline.hashed]
    rfl

/-- Where the hash is found again without a collision, the keys are in increasing order. -/
theorem Line.increasing_of_calculateHash {previous : Option Str} {hash : Str} {R : Fields F}
    (hline : Line C previous hash R) {T : Set Bytes} (hinj : Set.InjOn C.sha256 T)
    (hwritten : encodeUtf8 ((Json.obj (R.erase "record_hash").sort).render ⟨false, true⟩) ∈ T)
    (hread : ∀ text, linkText (dictFields R.sort) = some text → encodeUtf8 text ∈ T)
    (h : calculateHash C (dictFields R.sort) = .ok hash) :
    (Json.obj (R.erase "record_hash").sort).Increasing := by
  obtain ⟨text, htext, hhash⟩ := calculateHash_eq_ok.1 h
  have hsame := hhash.trans hline.hashed
  have hbytes := hinj (hread text htext) hwritten (hexdigest_injective hsame)
  obtain ⟨hw, hrender⟩ := dumps_eq_some.1 htext
  rw [← encodeUtf8_injective hbytes.symm, erase_dict_sort hline.nodup] at hrender
  rw [erase_dict_sort hline.nodup, ← Json.writable_norm] at hw
  exact (Json.dict_norm_eq_iff _).1 (render_injective _ hw hline.hashed_writable hrender)

/-! ## Files -/

theorem skipWs_strip (s : Str) : skipWs (Str.strip s) = Str.strip s := by
  rcases hs : Str.strip s with _ | ⟨c, t⟩
  · rfl
  · refine skipWs_cons ?_ t
    -- the first character that is left is no white space of `strip`, so none of JSON's
    have hspace : Str.isSpace c = false := by
      obtain ⟨u, hu⟩ := List.rdropWhile_prefix Str.isSpace (s.dropWhile Str.isSpace)
      have hdrop : s.dropWhile Str.isSpace = c :: (t ++ u) := by
        rw [← hu, ← List.cons_append, ← hs]
        rfl
      have hnot := List.dropWhile_get_zero_not Str.isSpace s (by rw [hdrop]; simp)
      simpa [hdrop] using hnot
    by_contra hws
    rw [Bool.not_eq_false] at hws
    simp only [isWs, Bool.or_eq_true, beq_iff_eq] at hws
    rcases hws with ((rfl | rfl) | rfl) | rfl <;> cases hspace

/-- A record that continues the line of another is not read. -/
theorem loads_continued {s line : Str} {fields : Fields F}
    (h : loads (Str.strip s) = some (.obj fields)) :
    loads (F := F) (Str.strip (s ++ ('{' :: line ++ ['}']))) = none := by
  obtain ⟨v, hparse, hdict⟩ := Option.map_eq_some_iff.1 h
  obtain ⟨fs, rfl⟩ : ∃ fs, v = .obj fs := by
    cases v with
    | obj fs => exact ⟨fs, rfl⟩
    | _ => cases hdict
  obtain ⟨t, ht⟩ := parse_obj_head hparse
  rw [skipWs_strip] at ht
  have hne : Str.strip s ≠ [] := by
    rw [ht]
    exact List.cons_ne_nil _ _
  obtain ⟨ws, hws⟩ := Str.strip_append hne ('{' :: line) (d := '}') (by decide)
  rw [ht] at hparse hws
  rw [hws, loads, parse_extend_none hparse (c := '{') (by simp) (by decide)]
  rfl

/-- The records of a file to which the line of a record was added. -/
theorem recordsOf_line {R : Fields F} (hw : (Json.obj R.sort).writable true = true) {text : Str}
    {values : List (Json F)} {last : Option Str}
    (hvalues : recordsOf F (Str.lines text) = some values) (hlinked : Linked C none values last) :
    recordsOf F (Str.lines (text ++ ((Json.obj R.sort).render ⟨true, true⟩ ++ ['\n']))) =
      if Str.strip (Str.openLine text) = [] then some (values ++ [(Json.obj R.sort).dict])
      else none := by
  obtain ⟨t, ht⟩ := render_obj_braces ⟨true, true⟩ R.sort
  have hplain : ∀ c ∈ (Json.obj R.sort).render ⟨true, true⟩, 0x20 ≤ c.toNat := fun c hc =>
    (printable_render true (Json.obj R.sort) c hc).1
  have hloads : loads (F := F) ('{' :: t ++ ['}']) = some (Json.obj R.sort).dict := by
    rw [← ht, loads, parse_render ⟨true, true⟩ true _ hw]
    rfl
  rw [recordsOf_lines, recordsOf_append] at hvalues
  obtain ⟨closed, hclosed, hmap⟩ := Option.bind_eq_some_iff.1 hvalues
  obtain ⟨opened, hopened, rfl⟩ := Option.map_eq_some_iff.1 hmap
  rw [Str.lines_append_line text (by rw [ht]; exact List.cons_ne_nil _ _)
    (fun h => absurd (hplain _ h) (by decide)) fun h => absurd (hplain _ h) (by decide),
    recordsOf_append, hclosed, Option.bind_some, ht]
  split_ifs with hblank
  · rw [recordsOf_blank hblank] at hopened
    obtain rfl : [] = opened := Option.some.inj hopened
    have hstrip : Str.strip (Str.openLine text ++ ('{' :: t ++ ['}'])) = '{' :: t ++ ['}'] := by
      rw [Str.strip_append_blank hblank, Str.strip_eq (by decide) (by decide)]
    rw [recordsOf_cons (by rw [hstrip]; exact List.cons_ne_nil _ _), hstrip, hloads]
    simp [recordsOf]
  · rw [recordsOf_cons hblank] at hopened
    obtain ⟨v, hload, hrest⟩ := Option.bind_eq_some_iff.1 hopened
    obtain ⟨fields, rfl⟩ : ∃ fields, v = .obj fields := by
      obtain ⟨vs, -, rfl⟩ := Option.map_eq_some_iff.1 hrest
      exact hlinked.isObj v (by simp)
    have hnone : loads (F := F) (Str.strip (Str.openLine text ++ ('{' :: t ++ ['}']))) = none :=
      loads_continued hload
    have hstrip : Str.strip (Str.openLine text ++ ('{' :: t ++ ['}'])) ≠ [] := by
      obtain ⟨ws, hws⟩ := Str.strip_append hblank ('{' :: t) (d := '}') (by decide)
      rw [hws]
      simp
    rw [recordsOf_cons hstrip, hnone]
    rfl

/-! ## Checkpoints -/

theorem jsonFile_eq_ok {payload : Fields F} {file : Bytes} (h : jsonFile payload = .ok file) :
    (Json.obj payload).writable true = true ∧ file = encodeUtf8 (recordLine payload ++ ['\n']) := by
  unfold jsonFile at h
  split at h
  · next text htext =>
    obtain ⟨hw, rfl⟩ := dumps_eq_some.1 htext
    exact ⟨hw, (Except.ok.inj h).symm⟩
  · cases h

theorem mac_eq_ok {key : Option Bytes} {sequence : ℤ} {head m : Str}
    (h : mac C key sequence head = .ok m) : ∃ b, m = hexdigest b := by
  unfold mac at h
  split at h
  · exact ⟨_, (Except.ok.inj h).symm⟩
  · cases h

/-- The anchor that `_write_anchor` leaves is the one that `_read_anchor` reads. -/
theorem readAnchor_anchorFile {sequence : ℕ} {head : Str} {anchor : Option Bytes} {disk : Disk}
    (h : ledger.anchorFile C F sequence head = .ok anchor)
    (hdisk : ∀ file ∈ anchor, disk.anchor = some file) :
    ∃ a, ledger.readAnchor C B disk = .ok a ∧ ∀ x ∈ a, x.1 = (sequence : ℤ) ∧ x.2 = head := by
  unfold LedgerOptions.anchorFile at h
  unfold LedgerOptions.readAnchor
  rcases hkey : ledger.anchorKey with _ | key
  · exact ⟨none, rfl, nofun⟩
  · rw [hkey] at h
    obtain ⟨m, hmac, hrest⟩ := bind_eq_ok.1 h
    obtain ⟨file, hfile, hsome⟩ := bind_eq_ok.1 hrest
    obtain rfl : some file = anchor := Except.ok.inj hsome
    obtain ⟨hw, rfl⟩ := jsonFile_eq_ok hfile
    have hwf : (Json.obj (F := F)
        [("sequence", .int sequence), ("head_hash", .str head), ("mac", .str m)]).WF := by
      refine ⟨?_, trivial, trivial, trivial, trivial⟩
      change (["sequence".toList, "head_hash".toList, "mac".toList] : List Str).Nodup
      decide
    have hparse : parseAnchor B (encodeUtf8 (recordLine (F := F)
        [("sequence", .int sequence), ("head_hash", .str head), ("mac", .str m)] ++ ['\n'])) =
        .ok (sequence, head, m) := by
      unfold parseAnchor
      rw [readText_jsonFile]
      simp only [bind, Except.bind, loads_jsonFile hwf hw, orRaise, Fields.get_norm]
      simp [Fields.get, List.lookup, Json.norm, B.int_int, B.str_str, pure, Except.pure]
    obtain ⟨b, rfl⟩ := mac_eq_ok hmac
    refine ⟨some (sequence, head), ?_, ?_⟩
    · rw [hdisk _ rfl]
      simp only [hparse, hmac, bind, Except.bind, isAscii_hexdigest, raiseIf, Bool.not_true,
        Bool.false_eq_true, ne_eq, not_true_eq_false, if_false]
      rfl
    · rintro x ⟨⟩
      exact ⟨rfl, rfl⟩

/-! ## Appending -/

/-- The text and the records of a ledger that verifies. -/
theorem verify_text {remote : RemoteCheck} {disk : Disk} {verifyHead verifyAnchor : Bool}
    {v : AuditVerification}
    (hverify : ledger.verifyWith C B remote disk verifyHead verifyAnchor = .ok v)
    (hvalid : v.valid = true) :
    ∃ text values, disk.ledger.getD [] = encodeUtf8 text ∧
      recordsOf F (Str.lines text) = some values ∧ Linked C none values v.headHash ∧
      v.records = values.length := by
  rcases verifyWith_valid.1 ⟨hverify, hvalid⟩ with ⟨hledger, -, -, rfl⟩ |
    ⟨file, values, last, hfile, -, hparse, hlinked, -, rfl⟩
  · refine ⟨[], [], ?_, rfl, rfl, rfl⟩
    rw [hledger]
    rfl
  · obtain ⟨text, htext, hvalues⟩ := Option.bind_eq_some_iff.1 hparse
    refine ⟨text, values, ?_, hvalues, hlinked, rfl⟩
    rw [hfile, encodeUtf8_of_decodeUtf8 htext]
    rfl

/-- The last line of the ledger file is ended, or blank. -/
def Disk.Ended (disk : Disk) : Prop :=
  ∀ text, decodeUtf8 (disk.ledger.getD []) = some text → Str.strip (Str.openLine text) = []

theorem Disk.ended_of_none {disk : Disk} (h : disk.ledger = none) : disk.Ended := by
  intro text htext
  rw [h] at htext
  obtain rfl := Option.some.inj ((decodeUtf8_encodeUtf8 []).symm.trans htext)
  rfl

/-- After an append the ledger is valid exactly when the last line was ended before, and the hash of
the new record is found again. -/
theorem Appended.verify_iff {payload : PyFields F} {disk disk' : Disk}
    {existing : AuditVerification} {hash : Str} {R : Fields F}
    (h : Appended C B P ledger .none payload disk disk' existing hash)
    (hline : Line C existing.headHash hash R)
    (hbudget : (disk.ledger.getD []).length +
      (encodeUtf8 ((Json.obj R.sort).render ⟨true, true⟩ ++ ['\n'])).length ≤ ledger.maxLedgerBytes)
    (hfile : disk'.ledger = some (disk.ledger.getD [] ++
      encodeUtf8 ((Json.obj R.sort).render ⟨true, true⟩ ++ ['\n']))) :
    ledger.verify C B .none disk' = .ok ⟨true, existing.records + 1, none, none, some hash⟩ ↔
      disk.Ended ∧ calculateHash C (dictFields R.sort) = .ok hash := by
  obtain ⟨text, values, htext, hvalues, hlinked, hrecords⟩ := verify_text h.verified h.valid
  have hdecode : decodeUtf8 (disk.ledger.getD []) = some text := by
    rw [htext, decodeUtf8_encodeUtf8]
  have hended : disk.Ended ↔ Str.strip (Str.openLine text) = [] := by
    constructor
    · exact fun hall => hall text hdecode
    · intro hblank text' htext'
      rwa [← Option.some.inj (hdecode.symm.trans htext')]
  have hparse := recordsOf_line hline.writable hvalues hlinked
  have hledger : parseLedger F (disk.ledger.getD [] ++
      encodeUtf8 ((Json.obj R.sort).render ⟨true, true⟩ ++ ['\n'])) =
      recordsOf F (Str.lines (text ++ ((Json.obj R.sort).render ⟨true, true⟩ ++ ['\n']))) := by
    rw [parseLedger, htext, ← encodeUtf8_append, decodeUtf8_encodeUtf8, Option.bind_some]
  rw [hended]
  constructor
  · intro hverify
    rcases verifyWith_valid.1 ⟨hverify, rfl⟩ with ⟨hnone, -⟩ |
      ⟨file, values', last, hfile', -, hparse', hlinked', -, hv⟩
    · rw [hfile] at hnone
      cases hnone
    · obtain rfl := Option.some.inj (hfile.symm.trans hfile')
      obtain rfl : some hash = last := (AuditVerification.mk.inj hv).2.2.2.2
      rw [hledger, hparse] at hparse'
      split_ifs at hparse' with hblank
      obtain rfl := Option.some.inj hparse'
      obtain ⟨middle, hash', -, hlink, hsame⟩ := linked_concat.1 hlinked'
      exact ⟨hblank, ((hline.isLink_iff middle).1 hlink).2.2⟩
  · rintro ⟨hblank, hcalc⟩
    rw [if_pos hblank] at hparse
    have hlinked' : Linked C none (values ++ [(Json.obj R.sort).dict]) (some hash) :=
      linked_concat.2 ⟨_, hash, hlinked, (hline.isLink_iff _).2 ⟨rfl, rfl, hcalc⟩, rfl⟩
    obtain ⟨anchor, hanchor, hwritten⟩ := h.anchor
    have hhex := isHex64_calculateHash hcalc
    have hlength : (values ++ [(Json.obj R.sort).dict]).length = existing.records + 1 := by
      rw [List.length_append, List.length_singleton, hrecords]
    have hchecked : Checked C B ledger (fun _ _ => none) disk' true true (some hash)
        (values ++ [(Json.obj R.sort).dict]).length := by
      refine ⟨⟨some hash, headText_digest hhex h.head, ?_⟩, fun _ => ?_, fun _ => rfl⟩
      · rintro t ⟨⟩
        rfl
      · rw [hlength]
        refine readAnchor_anchorFile hanchor fun file hmem => ?_
        rw [hwritten, show anchor = some file from hmem]
        rfl
    refine (verifyWith_valid.2 (.inr ⟨_, _, some hash, hfile, ?_, hledger.trans hparse, hlinked',
      hchecked, ?_⟩)).1
    · rw [List.length_append]
      exact hbudget
    · rw [hlength]

omit [PyFloat F] in
/-- Payloads leave the hashes to `_append_payload`. -/
theorem Entry.fresh_keys (entry : Entry F) : ∀ kv ∈ entry.payload,
    kv.1 ≠ "previous_hash".toList ∧ kv.1 ≠ "record_hash".toList := by
  have hkeys : ∀ k ∈ entry.payload.map Prod.fst,
      k ≠ "previous_hash".toList ∧ k ≠ "record_hash".toList := by
    cases entry with
    | event timestamp eventType data =>
      change ∀ k ∈ (["record_type".toList, "timestamp".toList, "event_type".toList,
        "data".toList] : List Str), _
      decide
    | evaluation timestamp action outcome risk =>
      change ∀ k ∈ (["record_type".toList, "timestamp".toList, "actor".toList, "task".toList,
        "operation".toList, "resource".toList, "capability".toList, "provenance".toList,
        "decision".toList, "risk".toList, "reasons".toList, "hard_block".toList,
        "metadata".toList] : List Str), _
      decide
  exact fun kv hkv => hkeys kv.1 (List.mem_map_of_mem hkv)

/-- The keys of every `dict` in the values, written as strings in the order in which the keys are
sorted, are in increasing order. -/
def Entry.Increasing (P : PySort F) (entry : Entry F) : Prop :=
  ∀ kv ∈ entry.payload, ∀ j, kv.2.json P = some j → j.Increasing

/-- The hashed part of a sealed record is in increasing order where the payload is. -/
theorem Line.increasing_iff {previous : Option Str} {hash : Str} {R : Fields F} {entry : Entry F}
    (hline : Line C previous hash R)
    (hR : (sealedRecord entry.payload previous hash).fields P = some R) :
    (Json.obj (R.erase "record_hash").sort).Increasing ↔ entry.Increasing P := by
  have hnd : (R.erase "record_hash").keys.Nodup :=
    hline.nodup.sublist (List.filter_sublist.map _)
  have hget : ∀ k, k ≠ "previous_hash".toList → k ≠ "record_hash".toList →
      R.get k = (entry.payload.lookup k).bind fun v => v.json P := by
    intro k hprevious hhash
    rw [get_fields hR, sealedRecord, lookup_set_of_ne _ _ hhash, lookup_set_of_ne _ _ hprevious]
  rw [increasing_sort hnd]
  constructor
  · intro h kv hkv j hj
    obtain ⟨hprevious, hhash⟩ := entry.fresh_keys kv hkv
    have hlookup : entry.payload.lookup kv.1 = some kv.2 :=
      lookup_of_mem entry.nodup_keys hkv
    have hmem := (Fields.get_eq_some_iff hline.nodup).1
      ((hget kv.1 hprevious hhash).trans (by rw [hlookup]; exact hj))
    exact h (kv.1, j) (List.mem_filter.2 ⟨hmem, by simpa using hhash⟩)
  · rintro h ⟨k, j⟩ hkj
    obtain ⟨hmem, hhash⟩ := List.mem_filter.1 hkj
    have hhash : k ≠ "record_hash".toList := by simpa using hhash
    have hj := (Fields.get_eq_some_iff hline.nodup).2 hmem
    by_cases hprevious : k = "previous_hash".toList
    · subst hprevious
      obtain rfl := Option.some.inj (hline.previous_eq.symm.trans hj)
      cases previous <;> trivial
    · rw [hget k hprevious hhash] at hj
      obtain ⟨v, hv, hjson⟩ := Option.bind_eq_some_iff.1 hj
      obtain ⟨l₁, l₂, hpayload, -⟩ := List.lookup_eq_some_iff.1 hv
      exact h (k, v) (by rw [hpayload]; simp) j hjson

/-- The texts that the records of a ledger file are hashed by. -/
def linkTexts (F : Type) [PyFloat F] (file : Option Bytes) : Set Bytes :=
  {b | ∃ content values record text, file = some content ∧ parseLedger F content = some values ∧
    .obj record ∈ values ∧ linkText (F := F) record = some text ∧ b = encodeUtf8 text}

/-- The text that an append hashes. -/
def entryTexts (P : PySort F) (entry : Entry F) (previous : Option Str) : Set Bytes :=
  {b | ∃ text, hashedText P (entry.payload.set "previous_hash" (previousValue previous)) = .ok text ∧
    b = encodeUtf8 text}

/-- An append of data in increasing order to a ledger whose last line was ended leaves a valid
ledger. -/
theorem append_verify {disk disk' : Disk} {v : AuditVerification} {entry : Entry F} {x : Str}
    (hverify : ledger.verify C B .none disk = .ok v)
    (happend : ledger.append C B P .none entry disk = (.ok x, disk')) (hended : disk.Ended)
    (hincreasing : entry.Increasing P) :
    ledger.verify C B .none disk' = .ok ⟨true, v.records + 1, none, none, some x⟩ := by
  obtain ⟨existing, happended⟩ := append_eq_ok happend
  obtain rfl : v = existing := Except.ok.inj (hverify.symm.trans happended.verified)
  obtain ⟨R, hR, hline, -, hbudget, hfile⟩ := happended.exists_line entry.nodup_keys
  have hcalc := hline.calculateHash_of_increasing ((hline.increasing_iff hR).2 hincreasing)
  exact (happended.verify_iff hline hbudget hfile).2 ⟨hended, hcalc⟩

/-- The ledger that an append leaves is valid, with a record more and the returned hash at its head,
and the next append is not refused, exactly when the last line was ended and the data is in
increasing order. -/
theorem append_valid_iff (C : Crypto) (B : Builtins F) (P : PySort F) (ledger : LedgerOptions)
    (disk disk' : Disk) (v : AuditVerification) (entry : Entry F) (x : Str)
    (hverify : ledger.verify C B .none disk = .ok v)
    (happend : ledger.append C B P .none entry disk = (.ok x, disk'))
    (hinj : Set.InjOn C.sha256 (linkTexts F disk'.ledger ∪ entryTexts P entry v.headHash)) :
    ((∃ v', ledger.verify C B .none disk' = .ok v' ∧ v'.valid = true ∧
        v'.records = v.records + 1 ∧ v'.headHash = some x) ∧
      ∀ next fault, (ledger.append C B P .none next disk').1 ≠ .error (Setting.refusal fault)) ↔
        disk.Ended ∧ entry.Increasing P := by
  obtain ⟨existing, happended⟩ := append_eq_ok happend
  obtain rfl : v = existing := Except.ok.inj (hverify.symm.trans happended.verified)
  obtain ⟨R, hR, hline, htext, hbudget, hfile⟩ := happended.exists_line entry.nodup_keys
  constructor
  · rintro ⟨⟨v', hverify', hvalid', hrecords, hhead⟩, -⟩
    have hform : v' = ⟨true, v.records + 1, none, none, some x⟩ := by
      rcases verifyWith_valid.1 ⟨hverify', hvalid'⟩ with ⟨-, -, -, rfl⟩ | ⟨_, _, _, -, -, -, -, -, rfl⟩
      · cases hhead
      · rw [← hrecords, ← hhead]
    rw [hform] at hverify'
    obtain ⟨hended, hcalc⟩ := (happended.verify_iff hline hbudget hfile).1 hverify'
    refine ⟨hended, (hline.increasing_iff hR).1 ?_⟩
    refine hline.increasing_of_calculateHash hinj (.inr ⟨_, htext, rfl⟩) (fun text hlink => .inl ?_)
      hcalc
    -- the record is among those of the new file
    rcases verifyWith_valid.1 ⟨hverify', rfl⟩ with ⟨hnone, -⟩ |
      ⟨file, values, last, hfile', -, hparse, -⟩
    · rw [hfile] at hnone
      cases hnone
    · obtain ⟨told, vold, htold, hvold, hlold, -⟩ := verify_text happended.verified happended.valid
      refine ⟨file, values, dictFields R.sort, text, hfile', hparse, ?_, hlink, rfl⟩
      obtain rfl := Option.some.inj (hfile.symm.trans hfile')
      rw [parseLedger, htold, ← encodeUtf8_append, decodeUtf8_encodeUtf8, Option.bind_some,
        recordsOf_line hline.writable hvold hlold] at hparse
      split_ifs at hparse
      obtain rfl := Option.some.inj hparse
      rw [dict_sort hline.nodup]
      simp
  · rintro ⟨hended, hincreasing⟩
    have hverify' := append_verify hverify happend hended hincreasing
    exact ⟨⟨_, hverify', rfl, rfl, rfl⟩, fun next fault => append_not_refused hverify' rfl next fault⟩

/-- An append to a valid ledger writes the record. -/
theorem append_eq_writeRecord {remote : Remote F} {disk : Disk} {v : AuditVerification} {timestamp eventType : Str}
    {data : PyValue F} (hverify : ledger.verify C B remote disk = .ok v) (hvalid : v.valid = true)
    (htype : eventType ≠ []) :
    ledger.append C B P remote (.event timestamp eventType data) disk =
      ledger.writeRecord C P remote (eventPayload timestamp eventType data) v disk := by
  have hchecked : ledger.append C B P remote (.event timestamp eventType data) =
      ledger.appendPayload C B P remote (eventPayload timestamp eventType data) := by
    funext disk
    have hnone : raiseIf (eventType = []) (Exc.raised .valueError "event_type cannot be empty") = .ok () := if_neg htype
    rw [LedgerOptions.append, hnone, Action.bind_apply, Action.lift_apply]
  rcases v with ⟨valid, records, index, error, head⟩
  obtain rfl : valid = true := hvalid
  rw [hchecked, LedgerOptions.appendPayload, Action.read_bind_apply, Action.bind_apply, Action.lift_apply]
  unfold LedgerOptions.verify at hverify
  rw [hverify]
  rfl

/-- The texts of a ledger are those of its appends. -/
theorem append_texts {disk disk' : Disk} {v : AuditVerification} {entry : Entry F} {x : Str}
    (hverify : ledger.verify C B .none disk = .ok v) (hvalid : v.valid = true)
    (happend : ledger.append C B P .none entry disk = (.ok x, disk')) (hended : disk.Ended)
    (hincreasing : entry.Increasing P) :
    linkTexts F disk'.ledger ⊆ linkTexts F disk.ledger ∪ entryTexts P entry v.headHash := by
  obtain ⟨existing, happended⟩ := append_eq_ok happend
  obtain rfl : v = existing := Except.ok.inj (hverify.symm.trans happended.verified)
  obtain ⟨text, values, htext, hvalues, hlinked, -⟩ := verify_text happended.verified hvalid
  obtain ⟨R, hR, hline, hhashed, -, hfile⟩ := happended.exists_line entry.nodup_keys
  have hrecords := recordsOf_line hline.writable hvalues hlinked
  rw [if_pos (hended text (by rw [htext, decodeUtf8_encodeUtf8]))] at hrecords
  rw [htext, ← encodeUtf8_append] at hfile
  rintro b ⟨content, values', record, t, hcontent, hparse, hmem, hlink, rfl⟩
  obtain rfl := Option.some.inj (hfile.symm.trans hcontent)
  rw [parseLedger, decodeUtf8_encodeUtf8, Option.bind_some] at hparse
  obtain rfl := Option.some.inj (hrecords.symm.trans hparse)
  rcases List.mem_append.1 hmem with hmem | hmem
  · rcases hledger : disk.ledger with _ | file <;> rw [hledger] at htext
    · -- without a file there was no record
      have htext : encodeUtf8 [] = encodeUtf8 text := htext
      obtain rfl : [] = text := encodeUtf8_injective htext
      obtain rfl : [] = values := Option.some.inj hvalues
      cases hmem
    · refine .inl ⟨file, values, record, t, rfl, ?_, hmem, hlink, rfl⟩
      rw [parseLedger, show file = encodeUtf8 text from htext, decodeUtf8_encodeUtf8, Option.bind_some, hvalues]
  · rw [List.mem_singleton, dict_sort hline.nodup] at hmem
    obtain rfl := Json.obj.inj hmem
    obtain ⟨-, hrender⟩ := dumps_eq_some.1 hlink
    rw [erase_dict_sort hline.nodup,
      (Json.dict_norm_eq_iff _).2 ((hline.increasing_iff hR).2 hincreasing)] at hrender
    refine .inr ⟨_, hhashed, ?_⟩
    rw [← hrender]

/-! ## Two data values -/

/-- A ledger without checkpoints elsewhere. -/
def plainLedger : LedgerOptions := ⟨4096, none⟩

/-- A disk without files. -/
def emptyDisk : Disk := ⟨none, none, none, none⟩

/-- The data `{"a": 1}`. -/
def nameEntry : Entry Literal := .event "t" "e" (.dict [(.str "a", .int 1)])

/-- The data `{2: 1, 10: 1}`. -/
def numberEntry : Entry Literal := .event "t" "e" (.dict [(.int 2, .int 1), (.int 10, .int 1)])

/-- The data `{'\ud83d\ude00': 1, '\uffff': 2}`. -/
def surrogateEntry : Entry Literal := .event "t" "e"
  (.dict [(.pyStr [.surrogates (Char.ofNat 0x1f600) (by decide)], .int 1), (.str [Char.ofNat 0xffff], .int 2)])

theorem nameEntry_increasing : nameEntry.Increasing PySort.plain := by
  intro kv hkv j hj
  simp only [nameEntry, Entry.payload, eventPayload, List.mem_cons, List.not_mem_nil, or_false] at hkv
  rcases hkv with rfl | rfl | rfl | rfl
  · obtain rfl : Json.str _ = j := Option.some.inj hj
    trivial
  · obtain rfl : Json.str _ = j := Option.some.inj hj
    trivial
  · obtain rfl : Json.str _ = j := Option.some.inj hj
    trivial
  · obtain rfl : Json.obj [("a".toList, Json.int 1)] = j := Option.some.inj hj
    exact ⟨List.pairwise_singleton _ _, trivial, trivial⟩

/-- The first append of a ledger hashes what the following verification hashes. -/
theorem first_texts {disk' : Disk} {entry : Entry F} {x : Str}
    (happend : ledger.append C B P .none entry emptyDisk = (.ok x, disk'))
    (hincreasing : entry.Increasing P) :
    ∃ b, linkTexts F disk'.ledger ∪ entryTexts P entry none ⊆ {b} := by
  obtain ⟨existing, happended⟩ := append_eq_ok happend
  obtain rfl : ⟨true, 0, none, none, none⟩ = existing := Except.ok.inj happended.verified
  obtain ⟨R, hR, hline, htext, hbudget, hfile⟩ := happended.exists_line entry.nodup_keys
  refine ⟨encodeUtf8 ((Json.obj (R.erase "record_hash").sort).render ⟨false, true⟩), ?_⟩
  rintro b (⟨content, values, record, text, hcontent, hparse, hmem, hlink, rfl⟩ | ⟨text, htext', rfl⟩)
  · obtain rfl := Option.some.inj (hfile.symm.trans hcontent)
    have hlines : recordsOf F (Str.lines []) = some [] := rfl
    have hlinked : Linked (F := F) C none [] none := rfl
    have hrecords := recordsOf_line hline.writable hlines hlinked
    rw [parseLedger] at hparse
    change (decodeUtf8 (encodeUtf8 _)).bind _ = _ at hparse
    rw [decodeUtf8_encodeUtf8, Option.bind_some] at hparse
    obtain rfl := Option.some.inj (hrecords.symm.trans hparse)
    rw [List.nil_append, List.mem_singleton, dict_sort hline.nodup] at hmem
    obtain rfl := Json.obj.inj hmem
    obtain ⟨-, hrender⟩ := dumps_eq_some.1 hlink
    rw [erase_dict_sort hline.nodup,
      (Json.dict_norm_eq_iff _).2 ((hline.increasing_iff hR).2 hincreasing)] at hrender
    rw [← hrender]
    rfl
  · obtain rfl := Except.ok.inj (htext'.symm.trans htext)
    rfl

theorem nameEntry_kept : ∃ x disk',
    plainLedger.append .standard plainBuiltins .plain .none nameEntry emptyDisk = (.ok x, disk') ∧
      ∃ v', plainLedger.verify .standard plainBuiltins .none disk' = .ok v' ∧ v'.valid = true ∧
        v'.records = 1 ∧ v'.headHash = some x := by
  have hok : (plainLedger.append .standard plainBuiltins .plain .none nameEntry
      emptyDisk).1.toOption.isSome = true := by decide +kernel
  rcases happend : plainLedger.append .standard plainBuiltins .plain .none nameEntry emptyDisk with
    ⟨_ | x, disk'⟩
  · rw [happend] at hok
    cases hok
  · obtain ⟨b, hb⟩ := first_texts happend nameEntry_increasing
    have hinj : Set.InjOn Crypto.standard.sha256
        (linkTexts Literal disk'.ledger ∪ entryTexts .plain nameEntry none) :=
      fun s hs t ht _ => (hb hs).trans (hb ht).symm
    have hended : emptyDisk.Ended := Disk.ended_of_none rfl
    have hkept := (append_valid_iff .standard plainBuiltins .plain plainLedger emptyDisk disk'
      ⟨true, 0, none, none, none⟩ nameEntry x rfl happend hinj).2 ⟨hended, nameEntry_increasing⟩
    exact ⟨x, disk', rfl, hkept.1⟩

/-- An append to the empty ledger blocks it. -/
def Corrupts (entry : Entry Literal) : Prop :=
  (plainLedger.append .standard plainBuiltins .plain .none entry emptyDisk).1.toOption.isSome = true ∧
    plainLedger.verify .standard plainBuiltins .none
        (plainLedger.append .standard plainBuiltins .plain .none entry emptyDisk).2 =
      .ok (.invalid 0 (some 0) ⟨"record_hash mismatch", none⟩ none)

/-- Integers are sorted as integers and read back as strings. The surrogates of a character are sorted before
`'\uffff'`, and the character that is read back after it. -/
theorem numberEntry_corrupts :
    plainLedger.verify .standard plainBuiltins .none emptyDisk = .ok ⟨true, 0, none, none, none⟩ ∧
      Corrupts numberEntry ∧ Corrupts surrogateEntry := by
  refine ⟨rfl, ⟨?_, ?_⟩, ?_, ?_⟩
  · decide +kernel
  · decide +kernel
  · decide +kernel
  · decide +kernel

/-! ## Two records -/

/-- The data `["b", 2]`. -/
def tagEntry : Entry Literal := .event "u".toList "f".toList (.list [.str "b".toList, .int 2])

/-- The first record is written. -/
@[irreducible] def onceWritten : Except Exc Str × Disk :=
  plainLedger.writeRecord .standard .plain .none nameEntry.payload ⟨true, 0, none, none, none⟩ emptyDisk

/-- What an append returned. -/
def digestOf (written : Except Exc Str × Disk) : Str := written.1.toOption.getD []

/-- The second record is written. -/
@[irreducible] def twiceWritten : Except Exc Str × Disk :=
  plainLedger.writeRecord .standard .plain .none tagEntry.payload
    ⟨true, 1, none, none, some (digestOf onceWritten)⟩ onceWritten.2


theorem tagEntry_increasing : tagEntry.Increasing PySort.plain := by
  intro kv hkv j hj
  simp only [tagEntry, Entry.payload, eventPayload, List.mem_cons, List.not_mem_nil, or_false] at hkv
  rcases hkv with rfl | rfl | rfl | rfl
  · obtain rfl : Json.str _ = j := Option.some.inj hj
    trivial
  · obtain rfl : Json.str _ = j := Option.some.inj hj
    trivial
  · obtain rfl : Json.str _ = j := Option.some.inj hj
    trivial
  · obtain rfl : Json.arr [.str "b".toList, Json.int 2] = j := Option.some.inj hj
    exact ⟨trivial, trivial, trivial⟩

theorem written_eq {written : Except Exc Str × Disk} (h : written.1.toOption.isSome = true) :
    written = (.ok (digestOf written), written.2) := by
  rcases written with ⟨_ | x, disk⟩
  · cases h
  · rfl

theorem onceWritten_append : plainLedger.append .standard plainBuiltins .plain .none nameEntry emptyDisk =
    (.ok (digestOf onceWritten), onceWritten.2) := by
  have hwritten : onceWritten.1.toOption.isSome = true := by decide +kernel
  have hverify : plainLedger.verify .standard plainBuiltins .none emptyDisk = .ok ⟨true, 0, none, none, none⟩ := rfl
  have honce : onceWritten = plainLedger.append .standard plainBuiltins .plain .none nameEntry emptyDisk := by
    unfold onceWritten
    exact (append_eq_writeRecord hverify rfl (List.cons_ne_nil _ _)).symm
  rw [← honce]
  exact written_eq hwritten

theorem onceWritten_verify : plainLedger.verify .standard plainBuiltins .none onceWritten.2 =
    .ok ⟨true, 1, none, none, some (digestOf onceWritten)⟩ :=
  append_verify (v := ⟨true, 0, none, none, none⟩) rfl onceWritten_append (Disk.ended_of_none rfl)
    nameEntry_increasing

theorem twiceWritten_append :
    plainLedger.append .standard plainBuiltins .plain .none tagEntry onceWritten.2 =
      (.ok (digestOf twiceWritten), twiceWritten.2) := by
  have hwritten : twiceWritten.1.toOption.isSome = true := by decide +kernel
  have htwice : twiceWritten =
      plainLedger.append .standard plainBuiltins .plain .none tagEntry onceWritten.2 := by
    unfold twiceWritten
    exact (append_eq_writeRecord onceWritten_verify rfl (List.cons_ne_nil _ _)).symm
  rw [← htwice]
  exact written_eq hwritten

theorem entryTexts_subsingleton (P : PySort F) (entry : Entry F) (previous : Option Str) :
    (entryTexts P entry previous).Subsingleton := by
  rintro _ ⟨text, htext, rfl⟩ _ ⟨text', htext', rfl⟩
  rw [Except.ok.inj (htext.symm.trans htext')]

/-- The texts that the two appends hash. -/
def bothTexts : Set Bytes :=
  entryTexts .plain nameEntry none ∪ entryTexts .plain tagEntry (some (digestOf onceWritten))

end Bulldog.Audit
