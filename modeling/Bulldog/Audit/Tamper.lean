import Bulldog.Audit.Integrity

/-!
# Tampering with a ledger

What the checkpoints beside a ledger file detect. The external anchor holds the number of records
and the last hash under a key, and `rollback_detected_iff` says when a ledger that contradicts it is
found out.
-/

namespace Bulldog.Audit

open Anchor

variable {F : Type} [PyFloat F] {C : Crypto}

/-- Linked records that are not none end in a hash. -/
theorem Linked.last_isSome {previous last : Option Str} {values : List (Json F)}
    (h : Linked C previous values last) (hne : values ≠ []) : last.isSome = true := by
  induction values generalizing previous with
  | nil => exact (hne rfl).elim
  | cons value values ih =>
    obtain ⟨hash, -, hrest⟩ := h
    rcases values with _ | ⟨next, values⟩
    · obtain rfl : last = some hash := hrest
      rfl
    · exact ih hrest (List.cons_ne_nil _ _)

/-! ## The records behind a head -/

theorem recordsOf_wf {lines : List Str} {values : List (Json F)}
    (h : recordsOf F lines = some values) : ∀ v ∈ values, v.WF := by
  induction lines generalizing values with
  | nil =>
    obtain rfl : [] = values := Option.some.inj h
    simp
  | cons raw lines ih =>
    by_cases hblank : Str.strip raw = []
    · rw [recordsOf_blank hblank] at h
      exact ih h
    · rw [recordsOf_cons hblank] at h
      obtain ⟨v, hload, hmap⟩ := Option.bind_eq_some_iff.1 h
      obtain ⟨rest, hrest, rfl⟩ := Option.map_eq_some_iff.1 hmap
      obtain ⟨w, -, rfl⟩ := Option.map_eq_some_iff.1 hload
      intro x hx
      rcases List.mem_cons.1 hx with rfl | hx
      · exact w.WF_dict
      · exact ih hrest x hx

theorem parseLedger_wf {file : Bytes} {values : List (Json F)}
    (h : parseLedger F file = some values) : ∀ v ∈ values, v.WF := by
  obtain ⟨text, -, hvalues⟩ := Option.bind_eq_some_iff.1 h
  exact recordsOf_wf hvalues

/-- What a record is hashed by is in `T`. -/
def TextIn (T : Set Bytes) (record : Json F) : Prop :=
  ∀ fields text, record = .obj fields → linkText fields = some text → encodeUtf8 text ∈ T

/-- The hash of a record determines the record, and with it the hash before. -/
theorem IsLink.unique {T : Set Bytes} (hinj : Set.InjOn C.sha256 T) {p q : Option Str} {hash : Str}
    {v w : Json F} (hv : IsLink C p v hash) (hw : IsLink C q w hash) (hwfv : v.WF) (hwfw : w.WF)
    (htv : TextIn T v) (htw : TextIn T w) : p = q ∧ v.norm = w.norm := by
  obtain ⟨fs, rfl, hstored, hprevious, hcalc⟩ := hv
  obtain ⟨gs, rfl, hstored', hprevious', hcalc'⟩ := hw
  obtain ⟨t, ht, hhash⟩ := calculateHash_eq_ok.1 hcalc
  obtain ⟨u, hu, hhash'⟩ := calculateHash_eq_ok.1 hcalc'
  have hbytes := hinj (htv fs t rfl ht) (htw gs u rfl hu) (hexdigest_injective (hhash.trans hhash'.symm))
  rw [← encodeUtf8_injective hbytes] at hu
  have herase := Json.obj.inj ((dumps_eq_iff ht).1 hu)
  -- the hashed members are the same, and so is the hash
  have hget : ∀ k, (Fields.norm fs).get k = (Fields.norm gs).get k := by
    intro k
    by_cases hk : k = "record_hash".toList
    · subst hk
      have hstr : ∀ fs : Fields F, (Fields.get fs "record_hash").bind strOf = some hash →
          Fields.get fs "record_hash" = some (.str hash) := by
        intro fs h
        obtain ⟨x, hx, hs⟩ := Option.bind_eq_some_iff.1 h
        cases x <;> cases hs
        exact hx
      rw [Fields.get_norm, Fields.get_norm, hstr fs hstored, hstr gs hstored']
    · have hkeep : ∀ fs : Fields F, fs.norm.get k = (fs.erase "record_hash").norm.get k := by
        intro fs
        rw [Fields.erase_norm, Fields.get_erase_of_ne _ hk]
      rw [hkeep fs, hkeep gs]
      exact congrArg (Fields.get · k) herase.symm
  constructor
  · have hsame := hget "previous_hash"
    rw [← previous_norm, hsame, previous_norm] at hprevious
    exact Option.some.inj (hprevious.symm.trans hprevious')
  · have hnorm : (Fields.norm fs).norm = (Fields.norm gs).norm :=
      Fields.norm_ext (Json.WF.norm hwfv).1 (Json.WF.norm hwfw).1 hget
    rw [Fields.norm_norm, Fields.norm_norm] at hnorm
    rw [Json.norm_obj, Json.norm_obj, hnorm]

/-- The last hash determines the records, from the last to the first. -/
theorem Linked.unique {T : Set Bytes} (hinj : Set.InjOn C.sha256 T) {last : Option Str}
    {vs ws : List (Json F)} (hv : Linked C none vs last) (hw : Linked C none ws last)
    (hwfv : ∀ v ∈ vs, v.WF) (hwfw : ∀ w ∈ ws, w.WF) (htv : ∀ v ∈ vs, TextIn T v)
    (htw : ∀ w ∈ ws, TextIn T w) : vs.map Json.norm = ws.map Json.norm := by
  induction vs using List.reverseRecOn generalizing ws last with
  | nil =>
    obtain rfl : last = none := hv
    rcases List.eq_nil_or_concat ws with rfl | ⟨ws, w, rfl⟩
    · rfl
    · cases hw.last_isSome (by simp)
  | append_singleton vs v ih =>
    obtain ⟨p, hash, hvs, hlinkv, rfl⟩ := linked_concat.1 hv
    rcases List.eq_nil_or_concat ws with rfl | ⟨ws, w, rfl⟩
    · cases hw
    · rw [List.concat_eq_append] at hw hwfw htw ⊢
      obtain ⟨q, hash', hws, hlinkw, hsame⟩ := linked_concat.1 hw
      obtain rfl := Option.some.inj hsame
      obtain ⟨rfl, hnorm⟩ := hlinkv.unique hinj hlinkw (hwfv v (by simp)) (hwfw w (by simp))
        (htv v (by simp)) (htw w (by simp))
      rw [List.map_append, List.map_append, ih hvs hws (fun x hx => hwfv x (by simp [hx]))
        (fun x hx => hwfw x (by simp [hx])) (fun x hx => htv x (by simp [hx]))
        fun x hx => htw x (by simp [hx]), List.map_singleton, List.map_singleton, hnorm]

/-- A disk whose ledger `n` appends have made of nothing, each with any collector, while the texts
that they hashed are in `T`. -/
inductive Written (C : Crypto) (B : Builtins F) (P : PySort F) (ledger : LedgerOptions)
    (T : Set Bytes) : ℕ → Disk → Prop
  | empty (anchor remote : Option Bytes) : Written C B P ledger T 0 ⟨none, none, anchor, remote⟩
  | append {n : ℕ} {disk disk' : Disk} {v : AuditVerification} {x : Str} (remote : Remote F)
      (entry : Entry F) (before : Written C B P ledger T n disk)
      (verified : ledger.verify C B remote disk = .ok v)
      (texts : entryTexts P entry v.headHash ⊆ T)
      (appended : ledger.append C B P remote entry disk = (.ok x, disk')) :
      Written C B P ledger T (n + 1) disk'

variable {B : Builtins F} {P : PySort F} {ledger : LedgerOptions} {T : Set Bytes}

/-- What the last of the appends left. -/
structure LastAppend (C : Crypto) (F : Type) [PyFloat F] (T : Set Bytes) (disk : Disk)
    (values : List (Json F)) (previous : Option Str) (hash : Str) (R : Fields F) : Prop where
  ledger : ∃ file, disk.ledger = some file ∧
    parseLedger F file = some (values ++ [(Json.obj R.sort).dict])
  ended : disk.Ended
  linked : Linked C none values previous
  line : Line C previous hash R
  text : encodeUtf8 ((Json.obj (R.erase "record_hash").sort).render ⟨false, true⟩) ∈ T
  head : disk.head = some (encodeUtf8 (hash ++ ['\n']))

theorem Appended.lastAppend {remote : Remote F} {entry : Entry F} {disk disk' : Disk}
    {v : AuditVerification} {hash : Str}
    (h : Appended C B P ledger remote entry.payload disk disk' v hash) (hended : disk.Ended)
    (htexts : entryTexts P entry v.headHash ⊆ T) :
    ∃ values R, LastAppend C F T disk' values v.headHash hash R := by
  obtain ⟨text, values, htext, hvalues, hlinked, -⟩ := verify_text h.verified h.valid
  obtain ⟨R, -, hline, hhashed, -, hfile⟩ := h.exists_line entry.nodup_keys
  have hblank := hended text (by rw [htext, decodeUtf8_encodeUtf8])
  have hrecords := recordsOf_line hline.writable hvalues hlinked
  rw [if_pos hblank] at hrecords
  rw [htext, ← encodeUtf8_append] at hfile
  refine ⟨values, R, ⟨_, hfile, ?_⟩, ?_, hlinked, hline, htexts ⟨_, hhashed, rfl⟩, h.head⟩
  · rw [parseLedger, decodeUtf8_encodeUtf8, Option.bind_some, hrecords]
  · intro text' htext'
    rw [hfile] at htext'
    obtain rfl := Option.some.inj ((decodeUtf8_encodeUtf8 _).symm.trans htext')
    rw [← List.append_assoc, Str.openLine_append_line]
    rfl

theorem Written.ended {n : ℕ} {disk : Disk} (h : Written C B P ledger T n disk) : disk.Ended := by
  induction h with
  | empty anchor remote => exact Disk.ended_of_none rfl
  | append remote entry before verified texts appended ih =>
    obtain ⟨existing, happended⟩ := append_eq_ok appended
    obtain rfl := Except.ok.inj (verified.symm.trans happended.verified)
    obtain ⟨values, R, hlast⟩ := happended.lastAppend ih texts
    exact hlast.ended

theorem textIn_of_parse {file : Bytes} {values : List (Json F)} {disk : Disk}
    (hfile : disk.ledger = some file) (hparse : parseLedger F file = some values)
    (htexts : linkTexts F disk.ledger ⊆ T) : ∀ v ∈ values, TextIn T v := by
  rintro v hv fields text rfl htext
  exact htexts ⟨file, values, fields, text, hfile, hparse, hv, htext, rfl⟩

/-- A record with the hash of a written line has the hashed members of that line, which are thus
found again when the line is read. -/
theorem Line.calculateHash_of_link (hinj : Set.InjOn C.sha256 T) {previous p : Option Str}
    {hash : Str} {R : Fields F} {w : Json F} (hline : Line C previous hash R)
    (htext : encodeUtf8 ((Json.obj (R.erase "record_hash").sort).render ⟨false, true⟩) ∈ T)
    (hlink : IsLink C p w hash) (hwf : w.WF) (hw : TextIn T w) :
    calculateHash C (dictFields R.sort) = .ok hash := by
  obtain ⟨fs, rfl, -, -, hcalc⟩ := hlink
  obtain ⟨t, ht, hhash⟩ := calculateHash_eq_ok.1 hcalc
  have hbytes := hinj (hw fs t rfl ht) htext (hexdigest_injective (hhash.trans hline.hashed))
  obtain ⟨hwritable, hrender⟩ := dumps_eq_some.1 ht
  rw [encodeUtf8_injective hbytes] at hrender
  rw [← Json.writable_norm] at hwritable
  have hsame := render_injective _ hwritable hline.hashed_writable hrender
  refine hline.calculateHash_of_increasing ((Json.dict_norm_eq_iff _).1 ?_)
  -- a normal form with distinct keys is read back as it is
  have hwf' : (Json.obj (Fields.erase fs "record_hash")).WF :=
    ⟨hwf.1.sublist (List.filter_sublist.map _),
      (WFFields_iff _).2 fun kv hkv => (WFFields_iff _).1 hwf.2 kv (List.mem_of_mem_filter hkv)⟩
  rw [← hsame, Json.dict_of_WF hwf'.norm, Json.norm_norm]

/-- A ledger that verifies with the head of a written one holds the same records. -/
theorem tamper_evident (C : Crypto) (B : Builtins F) (P : PySort F) (ledger : LedgerOptions)
    (T : Set Bytes) (hinj : Set.InjOn C.sha256 T) (n : ℕ) (hn : 1 ≤ n) (disk disk' : Disk)
    (hwritten : Written C B P ledger T n disk) (hhead : disk'.head = disk.head)
    (htexts : linkTexts F disk.ledger ⊆ T) (htexts' : linkTexts F disk'.ledger ⊆ T)
    (remote : RemoteCheck) (verifyAnchor : Bool) (v : AuditVerification)
    (hverify : ledger.verifyWith C B remote disk' true verifyAnchor = .ok v)
    (hvalid : v.valid = true) :
    ∃ file file' values values', disk.ledger = some file ∧ disk'.ledger = some file' ∧
      parseLedger F file = some values ∧ parseLedger F file' = some values' ∧
      values'.map Json.norm = values.map Json.norm := by
  obtain ⟨m, rfl⟩ : ∃ m, n = m + 1 := ⟨n - 1, by omega⟩
  obtain ⟨values, previous, hash, R, hlast⟩ : ∃ values previous hash R,
      LastAppend C F T disk values previous hash R := by
    cases hwritten with
    | append remote entry before verified texts appended =>
      obtain ⟨existing, happended⟩ := append_eq_ok appended
      obtain rfl := Except.ok.inj (verified.symm.trans happended.verified)
      obtain ⟨values, R, hlast⟩ := happended.lastAppend before.ended texts
      exact ⟨values, _, _, R, hlast⟩
  obtain ⟨file, hfile, hparse⟩ := hlast.ledger
  have hhex : isHex64 hash = true := by
    rw [hlast.line.hashed]
    exact isHex64_hexdigest (C.sha256_length _)
  have hne : hash ≠ [] := by
    rintro rfl
    cases hhex
  have htext := headText_digest hhex (hhead.trans hlast.head)
  have hagrees : ∀ text, HeadIs disk' true text → hash = text := by
    rintro text ⟨checkpoint, hcheckpoint, hall⟩
    obtain rfl := Except.ok.inj (htext.symm.trans hcheckpoint)
    exact hall hash rfl
  rcases verifyWith_valid.1 ⟨hverify, hvalid⟩ with ⟨-, hblank, -⟩ |
    ⟨file', values', last, hfile', -, hparse', hlinked', hchecked, -⟩
  · exact (hne (hagrees _ hblank)).elim
  · have hlasthash := hagrees _ hchecked.head
    rcases last with _ | last
    · exact (hne hlasthash).elim
    obtain rfl : hash = last := hlasthash
    have hwf' := parseLedger_wf hparse'
    have htextIn' := textIn_of_parse hfile' hparse' htexts'
    -- the last record of the other file shows that the written one links up
    have hcalc : calculateHash C (dictFields R.sort) = .ok hash := by
      rcases List.eq_nil_or_concat values' with rfl | ⟨init, w, rfl⟩
      · cases hlinked'
      · rw [List.concat_eq_append] at hlinked' hwf' htextIn'
        obtain ⟨p, hash', -, hlink, hsame⟩ := linked_concat.1 hlinked'
        obtain rfl := Option.some.inj hsame
        exact hlast.line.calculateHash_of_link hinj hlast.text hlink (hwf' w (by simp))
          (htextIn' w (by simp))
    have hlinked : Linked C none (values ++ [(Json.obj R.sort).dict]) (some hash) :=
      linked_concat.2 ⟨_, hash, hlast.linked, (hlast.line.isLink_iff _).2 ⟨rfl, rfl, hcalc⟩, rfl⟩
    exact ⟨file, file', _, values', hfile, hfile', hparse, hparse',
      hlinked'.unique hinj hlinked hwf' (parseLedger_wf hparse) htextIn'
        (textIn_of_parse hfile hparse htexts)⟩

theorem onceWritten_written :
    Written .standard plainBuiltins .plain plainLedger bothTexts 1 onceWritten.2 :=
  .append .none nameEntry (.empty none none) (v := ⟨true, 0, none, none, none⟩) rfl Set.subset_union_left
    onceWritten_append

theorem twiceWritten_written :
    Written .standard plainBuiltins .plain plainLedger bothTexts 2 twiceWritten.2 :=
  .append .none tagEntry onceWritten_written onceWritten_verify Set.subset_union_right twiceWritten_append

theorem twiceWritten_verify : plainLedger.verify .standard plainBuiltins .none twiceWritten.2 =
    .ok ⟨true, 2, none, none, some (digestOf twiceWritten)⟩ :=
  append_verify onceWritten_verify twiceWritten_append onceWritten_written.ended tagEntry_increasing

theorem twiceWritten_texts : linkTexts Literal twiceWritten.2.ledger ⊆ bothTexts := by
  have honce := append_texts (v := ⟨true, 0, none, none, none⟩) rfl rfl onceWritten_append (Disk.ended_of_none rfl)
    nameEntry_increasing
  have htwice := append_texts onceWritten_verify rfl twiceWritten_append onceWritten_written.ended tagEntry_increasing
  refine htwice.trans (Set.union_subset (honce.trans (Set.union_subset ?_ Set.subset_union_left)) Set.subset_union_right)
  rintro b ⟨content, _, _, _, hcontent, -⟩
  cases hcontent

/-- An append returns the hash of its text. -/
theorem entryTexts_digest {disk disk' : Disk} {v : AuditVerification} {entry : Entry F} {x : Str}
    (hverify : ledger.verify C B .none disk = .ok v)
    (happend : ledger.append C B P .none entry disk = (.ok x, disk')) {b : Bytes}
    (hb : b ∈ entryTexts P entry v.headHash) : hexdigest (C.sha256 b) = x := by
  obtain ⟨existing, happended⟩ := append_eq_ok happend
  obtain rfl : v = existing := Except.ok.inj (hverify.symm.trans happended.verified)
  obtain ⟨text, htext, hhash⟩ := happended.text
  obtain ⟨text', htext', rfl⟩ := hb
  rw [Except.ok.inj (htext'.symm.trans htext), hhash]
  rfl

theorem bothTexts_injOn : Set.InjOn Crypto.standard.sha256 bothTexts := by
  have honce : ∀ b ∈ entryTexts .plain nameEntry none, hexdigest (Crypto.standard.sha256 b) = digestOf onceWritten :=
    fun b hb => entryTexts_digest (v := ⟨true, 0, none, none, none⟩) rfl onceWritten_append hb
  have htwice : ∀ b ∈ entryTexts .plain tagEntry (some (digestOf onceWritten)),
      hexdigest (Crypto.standard.sha256 b) = digestOf twiceWritten :=
    fun b hb => entryTexts_digest onceWritten_verify twiceWritten_append hb
  have hne : digestOf onceWritten ≠ digestOf twiceWritten := by decide +kernel
  rintro s (hs | hs) t (ht | ht) heq
  · exact entryTexts_subsingleton _ _ _ hs ht
  · exact absurd ((honce s hs).symm.trans ((congrArg hexdigest heq).trans (htwice t ht))) hne
  · exact absurd ((honce t ht).symm.trans ((congrArg hexdigest heq.symm).trans (htwice s hs))) hne
  · exact entryTexts_subsingleton _ _ _ hs ht

/-- A line break starts an empty line. -/
theorem lines_newline (s : Str) : Str.lines ('\n' :: s) = [] :: Str.lines s := by
  have hsplit : Str.splitOn '\n' (Str.universalNewlines ('\n' :: s)) =
      [] :: Str.splitOn '\n' (Str.universalNewlines s) := rfl
  rw [Str.lines, Str.lines, hsplit, List.reverse_cons, Str.splitOn_eq '\n' (Str.universalNewlines s), List.reverse_append]
  rcases (Str.splitOn '\n' (Str.universalNewlines s)).getLastD [] with _ | ⟨c, cs⟩
  · simp
  · simp

/-- A blank line changes no record. -/
theorem parseLedger_blank {file : Bytes} {values : List (Json F)} (h : parseLedger F file = some values) :
    parseLedger F (encodeUtf8 ['\n'] ++ file) = some values := by
  obtain ⟨text, htext, hvalues⟩ := Option.bind_eq_some_iff.1 h
  rw [← encodeUtf8_of_decodeUtf8 htext, ← encodeUtf8_append, parseLedger, decodeUtf8_encodeUtf8, Option.bind_some,
    List.singleton_append, lines_newline, recordsOf_blank rfl, hvalues]

/-- A ledger file that begins with an empty line is as valid as without. -/
theorem verify_blank {remote : RemoteCheck} {disk : Disk} {v : AuditVerification} {file : Bytes}
    (hfile : disk.ledger = some file) (hroom : (encodeUtf8 ['\n'] ++ file).length ≤ ledger.maxLedgerBytes)
    (hverify : ledger.verifyWith C B remote disk true true = .ok v ∧ v.valid = true) :
    ledger.verifyWith C B remote { disk with ledger := some (encodeUtf8 ['\n'] ++ file) } true true = .ok v ∧
      v.valid = true := by
  rcases verifyWith_valid.1 hverify with ⟨hnone, -⟩ | ⟨file', values, last, hfile', -, hparse, hlinked, hchecked, heq⟩
  · rw [hfile] at hnone
    cases hnone
  · obtain rfl := Option.some.inj (hfile.symm.trans hfile')
    exact verifyWith_valid.2 (.inr ⟨_, values, last, rfl, hroom, parseLedger_blank hparse, hlinked,
      ⟨hchecked.head, hchecked.anchor, hchecked.remote⟩, heq⟩)

theorem linkTexts_blank {file : Bytes} {values : List (Json F)} (hparse : parseLedger F file = some values) :
    linkTexts F (some (encodeUtf8 ['\n'] ++ file)) ⊆ linkTexts F (some file) := by
  rintro b ⟨content, values', record, t, ⟨⟩, hparse', hmem, hlink, rfl⟩
  obtain rfl := Option.some.inj ((parseLedger_blank hparse).symm.trans hparse')
  exact ⟨file, values, record, t, rfl, hparse, hmem, hlink, rfl⟩

/-- The two records after an empty line. -/
def spacedDisk : Disk :=
  { twiceWritten.2 with ledger := some (encodeUtf8 ['\n'] ++ twiceWritten.2.ledger.getD []) }

theorem twiceWritten_file : twiceWritten.2.ledger = some (twiceWritten.2.ledger.getD []) := by
  have hsome : twiceWritten.2.ledger.isSome = true := by decide +kernel
  obtain ⟨file, hfile⟩ := Option.isSome_iff_exists.1 hsome
  rw [hfile, Option.getD_some]

theorem spacedDisk_evident : ∃ file file' values values', twiceWritten.2.ledger = some file ∧
    spacedDisk.ledger = some file' ∧ file' ≠ file ∧ values.length = 2 ∧
    plainLedger.verifyWith .standard plainBuiltins (fun _ _ => none) spacedDisk true true =
      .ok ⟨true, 2, none, none, some (digestOf twiceWritten)⟩ ∧
    parseLedger Literal file = some values ∧ parseLedger Literal file' = some values' ∧
    values'.map Json.norm = values.map Json.norm := by
  have hfile := twiceWritten_file
  have hroom : (encodeUtf8 ['\n'] ++ twiceWritten.2.ledger.getD []).length ≤ plainLedger.maxLedgerBytes := by
    decide +kernel
  have hverify := verify_blank hfile hroom ⟨twiceWritten_verify, rfl⟩
  rcases verifyWith_valid.1 ⟨twiceWritten_verify, rfl⟩ with ⟨hnone, -⟩ |
    ⟨file, values, last, hfile', -, hparse, -, -, heq⟩
  · rw [hfile] at hnone
    cases hnone
  obtain rfl := Option.some.inj (hfile.symm.trans hfile')
  have htexts : linkTexts Literal spacedDisk.ledger ⊆ bothTexts := by
    have hblank := linkTexts_blank hparse
    rw [← hfile] at hblank
    exact hblank.trans twiceWritten_texts
  obtain ⟨file₁, file₂, values₁, values₂, hfile₁, hfile₂, hparse₁, hparse₂, hsame⟩ :=
    tamper_evident .standard plainBuiltins .plain plainLedger _ bothTexts_injOn 2 (by decide) _ spacedDisk
      twiceWritten_written rfl twiceWritten_texts htexts (fun _ _ => none) true _ hverify.1 hverify.2
  obtain rfl := Option.some.inj (hfile.symm.trans hfile₁)
  obtain rfl := Option.some.inj (hparse.symm.trans hparse₁)
  refine ⟨_, file₂, values, values₂, hfile, hfile₂, fun hsame => ?_, ?_, hverify.1, hparse, hparse₂, hsame⟩
  · rw [← Option.some.inj hfile₂] at hsame
    exact absurd (congrArg List.length hsame) (by rw [List.length_append]; exact Nat.ne_of_gt (Nat.lt_add_of_pos_left (by decide)))
  · exact (congrArg AuditVerification.records heq).symm

/-! ## Rollback -/

/-- The ledger file holds exactly `n` linked records, and the last has hash `h`. -/
def HoldsRecords (C : Crypto) (F : Type) [PyFloat F] (disk : Disk) (n : ℤ) (h : Str) : Prop :=
  ∃ file values, disk.ledger = some file ∧ parseLedger F file = some values ∧
    Linked C none values (some h) ∧ (values.length : ℤ) = n

/-- An authentic anchor finds out every ledger but one: where the ledger file is gone, and the head
is gone or blank, it is not looked at. -/
theorem rollback_detected_iff (C : Crypto) (B : Builtins F) (ledger : LedgerOptions)
    (remote : RemoteCheck) (disk : Disk) (n : ℤ) (h : Str) (hn : 1 ≤ n)
    (hanchor : ledger.readAnchor C B disk = .ok (some (n, h))) :
    (∀ v, ledger.verifyWith C B remote disk true true = .ok v → v.valid = true →
        HoldsRecords C F disk n h) ↔
      disk.ledger ≠ none ∨ ¬ HeadIs disk true [] ∨ remote 0 none ≠ none := by
  constructor
  · intro hdetects
    by_contra hnone
    simp only [not_or, not_not] at hnone
    obtain ⟨hledger, hhead, hremote⟩ := hnone
    have hempty : ledger.verifyWith C B remote disk true true = .ok ⟨true, 0, none, none, none⟩ ∧ _ :=
      verifyWith_valid.2 (.inl ⟨hledger, hhead, hremote, rfl⟩)
    obtain ⟨file, _, hfile, -⟩ := hdetects _ hempty.1 hempty.2
    rw [hledger] at hfile
    cases hfile
  · intro hlooked v hverify hvalid
    rcases verifyWith_valid.1 ⟨hverify, hvalid⟩ with ⟨hledger, hhead, hremote, -⟩ |
      ⟨file, values, last, hfile, -, hparse, hlinked, hchecked, -⟩
    · rcases hlooked with hsome | hother | hfault
      · exact (hsome hledger).elim
      · exact (hother hhead).elim
      · exact (hfault hremote).elim
    · obtain ⟨anchor, hread, hagree⟩ := hchecked.anchor rfl
      obtain rfl : some (n, h) = anchor := Except.ok.inj (hanchor.symm.trans hread)
      obtain ⟨hsequence, hhead⟩ := hagree (n, h) rfl
      have hne : values ≠ [] := by
        rintro rfl
        simp only [List.length_nil, Nat.cast_zero] at hsequence
        omega
      obtain ⟨hash, hlast⟩ := Option.isSome_iff_exists.1 (hlinked.last_isSome hne)
      subst hlast
      obtain rfl : h = hash := hhead
      exact ⟨file, values, hfile, hparse, hlinked, hsequence.symm⟩

/-- A ledger with a local anchor and no transport. -/
def anchoredLedger : LedgerOptions := ⟨4096, some (some [1])⟩

/-- The anchor of one record with this hash. -/
def smallAnchor (head : Str) : Except Exc Bytes := do
  let mac ← mac .standard (some [1]) 1 head
  jsonFile (F := Literal) [("sequence", .int 1), ("head_hash", .str head), ("mac", .str mac)]

/-- A file, where its content could be computed. -/
def fileOf (content : Except Exc Bytes) : Option Bytes := content.toOption

/-- The digest of a record that is gone. -/
def lostHash : Str := List.replicate 64 'a'

/-- A disk from which the ledger and the head were deleted. -/
def strippedDisk : Disk := ⟨none, none, fileOf (smallAnchor lostHash), none⟩

/-- A disk from which the ledger was deleted only. -/
def headedDisk : Disk := { strippedDisk with head := some (encodeUtf8 (lostHash ++ ['\n'])) }

theorem headedDisk_detected :
    anchoredLedger.readAnchor .standard plainBuiltins headedDisk = .ok (some (1, lostHash)) ∧
      ∀ v, anchoredLedger.verifyWith .standard plainBuiltins (fun _ _ => none) headedDisk true true =
        .ok v → v.valid = true → HoldsRecords .standard Literal headedDisk 1 lostHash := by
  have hanchor : anchoredLedger.readAnchor .standard plainBuiltins headedDisk =
      .ok (some (1, lostHash)) := by decide +kernel
  refine ⟨hanchor, (rollback_detected_iff _ _ _ _ _ 1 lostHash le_rfl hanchor).2 (.inr (.inl ?_))⟩
  rintro ⟨checkpoint, hcheckpoint, hblank⟩
  have hhead : headedDisk.headText true = .ok (some lostHash) := by decide +kernel
  obtain rfl : some lostHash = checkpoint := Except.ok.inj (hhead.symm.trans hcheckpoint)
  exact absurd (hblank lostHash rfl) (by decide)

/-- With the ledger and the head deleted, an authentic anchor of one record is not looked at. -/
theorem strippedDisk_undetected :
    anchoredLedger.readAnchor .standard plainBuiltins strippedDisk = .ok (some (1, lostHash)) ∧
      anchoredLedger.verifyWith .standard plainBuiltins (fun _ _ => none) strippedDisk true true =
        .ok ⟨true, 0, none, none, none⟩ ∧
      ¬ HoldsRecords .standard Literal strippedDisk 1 lostHash := by
  refine ⟨by decide +kernel, by decide +kernel, ?_⟩
  rintro ⟨file, values, hfile, -⟩
  cases hfile

end Bulldog.Audit
