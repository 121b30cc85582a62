import Bulldog.Audit.Tamper

/-!
# Appends that stop half way

`_append_payload` checks first and then writes the record, the head, the anchor and the remote
checkpoint, one after the other and without a journal. A run is a sequence of appends that return,
raise, or stop at any of these writes. What the next append finds is either complete or contradicted
by what stands beside it, with one exception: a first record that lacks only its line end is taken
for complete, and the next record continues its line.
-/

namespace Bulldog.Audit

open Anchor

variable {F : Type} [PyFloat F]

section Steps

variable (C : Crypto) (B : Builtins F) (P : PySort F) (ledger : LedgerOptions)

/-! ## The steps of an append -/

/-- What `_append_payload` knows before it writes. -/
structure Prepared (F : Type) where
  existing : AuditVerification
  record : PyFields F
  recordHash : Str
  encodedRecord : Str

/-- The record that `_append_payload` makes after its verification, and the checks of its size. -/
def LedgerOptions.encode (remote : Remote F) (payload : PyFields F) (disk : Disk)
    (existing : AuditVerification) : Except Exc (Prepared F) := do
  raiseIf (!existing.valid) (Setting.refusal existing.error)
  let record := payload.set "previous_hash" (previousValue existing.headHash)
  let text ← hashedText P record
  let hash := hashOf C text
  let record := record.set "record_hash" (.str hash)
  let line ← encodedRecord P record
  raiseIf (remote.framed = true ∧ (encodeUtf8 line).length > 60 * 1024)
    (auditIntegrityError "audit record exceeds transport framing budget")
  raiseIf ((disk.ledger.getD []).length + (encodeUtf8 line).length > ledger.maxLedgerBytes)
    (auditIntegrityError "audit storage budget exhausted")
  return ⟨existing, record, hash, line⟩

/-- The part of `_append_payload` that only reads. -/
def LedgerOptions.prepare (remote : Remote F) (payload : PyFields F) (disk : Disk) :
    Except Exc (Prepared F) := do
  let existing ← ledger.verify C B remote disk
  ledger.encode C P remote payload disk existing

/-- The disk after `n` bytes of the record have been written. -/
def Prepared.line (p : Prepared F) (n : ℕ) (disk : Disk) : Disk :=
  { disk with ledger := some (disk.ledger.getD [] ++ (encodeUtf8 p.encodedRecord).take n) }

/-- The disk after the record has been written. -/
def Prepared.written (p : Prepared F) (disk : Disk) : Disk :=
  { disk with ledger := some (disk.ledger.getD [] ++ encodeUtf8 p.encodedRecord) }

/-- The disk after the record and the head have been written. -/
def Prepared.headed (p : Prepared F) (disk : Disk) : Disk :=
  { p.written disk with head := some (encodeUtf8 (p.recordHash ++ ['\n'])) }

/-- The part of `_append_payload` that writes. -/
def LedgerOptions.write (remote : Remote F) (p : Prepared F) : Action Disk Exc Str := do
  .update p.written
  .update fun disk => { disk with head := some (encodeUtf8 (p.recordHash ++ ['\n'])) }
  let anchor ← ledger.anchorFile C F (p.existing.records + 1) p.recordHash
  .update fun disk => { disk with anchor := anchor.or disk.anchor }
  let checkpoint ← remote.deliver (p.existing.records + 1) p.recordHash p.record
  .update fun disk => { disk with remote := checkpoint.or disk.remote }
  return p.recordHash

/-- `_append_payload` reads and then writes. -/
theorem appendPayload_eq (remote : Remote F) (payload : PyFields F) (disk : Disk) :
    ledger.appendPayload C B P remote payload disk =
      (liftM (ledger.prepare C B P remote payload disk) >>= ledger.write C remote :
        Action Disk Exc Str) disk := by
  unfold LedgerOptions.appendPayload LedgerOptions.prepare LedgerOptions.verify LedgerOptions.encode
  rw [Action.read_bind_apply]
  refine Action.lift_bind_split fun existing => ?_
  refine Action.lift_bind_split fun _ => ?_
  refine Action.lift_bind_split fun text => ?_
  refine Action.lift_bind_split fun line => ?_
  refine Action.lift_bind_split fun _ => ?_
  refine Action.lift_bind_split fun _ => ?_
  rfl

/-- Where an append stops. -/
inductive Stop where
  /-- Before the first write. -/
  | before
  /-- After `n` bytes of the record. -/
  | line (n : ℕ)
  /-- After the record, with the head file cut to nothing. -/
  | emptyHead
  | head
  | anchor
  | remote

/-- The disk that an append leaves where it stops. -/
def LedgerOptions.stopped (remote : Remote F) (p : Prepared F) (disk : Disk) :
    Stop → Except Exc Disk
  | .before => .ok disk
  | .line n => .ok (p.line n disk)
  | .emptyHead => .ok { p.written disk with head := some [] }
  | .head => .ok (p.headed disk)
  | .anchor => do
    let anchor ← ledger.anchorFile C F (p.existing.records + 1) p.recordHash
    return { p.headed disk with anchor := anchor.or disk.anchor }
  | .remote => do
    let anchor ← ledger.anchorFile C F (p.existing.records + 1) p.recordHash
    let checkpoint ← remote.deliver (p.existing.records + 1) p.recordHash p.record
    return { p.headed disk with anchor := anchor.or disk.anchor, remote := checkpoint.or disk.remote }

variable {C B P ledger} {remote : Remote F} {payload : PyFields F} {p : Prepared F}
  {disk disk' : Disk}

/-- A call that returns has made every write. -/
theorem write_eq_ok {hash : Str} (h : ledger.write C remote p disk = (.ok hash, disk')) :
    hash = p.recordHash ∧ ledger.stopped C remote p disk .remote = .ok disk' := by
  have hwp : (ledger.write C remote p).wp (fun hash disk' => hash = p.recordHash ∧
      ledger.stopped C remote p disk .remote = .ok disk') (fun _ _ => True) disk := by
    unfold LedgerOptions.write
    simp only [Action.wp_bind, Action.wp_update, Action.wp_pure]
    refine Action.wp_lift_intro (fun anchor hanchor => ?_) fun _ => trivial
    refine Action.wp_lift_intro (fun checkpoint hcheckpoint => ⟨trivial, ?_⟩) fun _ => trivial
    simp only [LedgerOptions.stopped, hanchor, hcheckpoint, bind, Except.bind]
    rfl
  rw [Action.wp, h] at hwp
  exact hwp

/-- A call that raises while it writes has written the record and the head. -/
theorem write_eq_error {e : Exc} (h : ledger.write C remote p disk = (.error e, disk')) :
    ledger.stopped C remote p disk .head = .ok disk' ∨
      ledger.stopped C remote p disk .anchor = .ok disk' := by
  have hwp : (ledger.write C remote p).wp (fun _ _ => True) (fun _ disk' =>
      ledger.stopped C remote p disk .head = .ok disk' ∨
        ledger.stopped C remote p disk .anchor = .ok disk') disk := by
    unfold LedgerOptions.write
    simp only [Action.wp_bind, Action.wp_update, Action.wp_pure]
    refine (Action.wp_lift _).2 ⟨fun anchor hanchor => ?_, fun _ _ => .inl rfl⟩
    refine (Action.wp_lift _).2 ⟨fun _ _ => trivial, fun _ _ => .inr ?_⟩
    simp only [LedgerOptions.stopped, hanchor, bind, Except.bind]
    rfl
  rw [Action.wp, h] at hwp
  exact hwp

/-- What an append stops with: nothing, a part of the record, or the whole record. -/
theorem stopped_cases {stop : Stop} (h : ledger.stopped C remote p disk stop = .ok disk') :
    (stop = .before ∧ disk' = disk) ∨ (∃ n, stop = .line n ∧ disk' = p.line n disk) ∨
      disk'.ledger = some (disk.ledger.getD [] ++ encodeUtf8 p.encodedRecord) := by
  cases stop with
  | before => exact .inl ⟨rfl, (Except.ok.inj h).symm⟩
  | line n => exact .inr (.inl ⟨n, rfl, (Except.ok.inj h).symm⟩)
  | emptyHead => exact .inr (.inr (by rw [← Except.ok.inj h]; rfl))
  | head => exact .inr (.inr (by rw [← Except.ok.inj h]; rfl))
  | anchor =>
    obtain ⟨anchor, -, hdisk⟩ := bind_eq_ok.1 h
    exact .inr (.inr (by rw [← Except.ok.inj hdisk]; rfl))
  | remote =>
    obtain ⟨anchor, -, hrest⟩ := bind_eq_ok.1 h
    obtain ⟨checkpoint, -, hdisk⟩ := bind_eq_ok.1 hrest
    exact .inr (.inr (by rw [← Except.ok.inj hdisk]; rfl))

/-- The outcome of `append_event` and `append` is that of `_append_payload`, or a raise before it. -/
theorem append_eq (entry : Entry F) (disk : Disk) :
    ledger.append C B P remote entry disk = ledger.appendPayload C B P remote entry.payload disk ∨
      ∃ e, ledger.append C B P remote entry disk = (.error e, disk) := by
  cases entry with
  | event timestamp eventType data =>
    rw [LedgerOptions.append, Action.bind_apply, Action.lift_apply]
    rcases raiseIf (eventType = []) (Exc.raised .valueError "event_type cannot be empty") with e | u
    · exact .inr ⟨e, rfl⟩
    · exact .inl rfl
  | evaluation timestamp action outcome risk => exact .inl rfl

theorem append_returned {entry : Entry F} {x : Str}
    (h : ledger.append C B P remote entry disk = (.ok x, disk')) :
    ∃ p, ledger.prepare C B P remote entry.payload disk = .ok p ∧ x = p.recordHash ∧
      ledger.stopped C remote p disk .remote = .ok disk' := by
  rcases append_eq entry disk with heq | ⟨e, heq⟩
  · rw [heq, appendPayload_eq, Action.bind_apply, Action.lift_apply] at h
    rcases hprepare : ledger.prepare C B P remote entry.payload disk with e | p
    · rw [hprepare] at h
      cases h
    · rw [hprepare] at h
      exact ⟨p, rfl, write_eq_ok h⟩
  · rw [heq] at h
    cases h

theorem append_raised {entry : Entry F} {e : Exc}
    (h : ledger.append C B P remote entry disk = (.error e, disk')) :
    disk' = disk ∨ ∃ p, ledger.prepare C B P remote entry.payload disk = .ok p ∧
      (ledger.stopped C remote p disk .head = .ok disk' ∨
        ledger.stopped C remote p disk .anchor = .ok disk') := by
  rcases append_eq entry disk with heq | ⟨e, heq⟩
  · rw [heq, appendPayload_eq, Action.bind_apply, Action.lift_apply] at h
    rcases hprepare : ledger.prepare C B P remote entry.payload disk with e | p
    · rw [hprepare] at h
      exact .inl (Prod.mk.inj h).2.symm
    · rw [hprepare] at h
      exact .inr ⟨p, rfl, write_eq_error h⟩
  · rw [heq] at h
    exact .inl (Prod.mk.inj h).2.symm

/-- An append that is refused before it writes leaves every file as it is. -/
theorem append_refused {entry : Entry F} {e : Exc}
    (h : ledger.prepare C B P remote entry.payload disk = .error e) :
    ∃ e', ledger.append C B P remote entry disk = (.error e', disk) := by
  rcases append_eq entry disk with heq | hraise
  · refine ⟨e, ?_⟩
    rw [heq, appendPayload_eq, Action.bind_apply, Action.lift_apply, h]
  · exact hraise

/-- What has been checked before the first write. -/
structure Ready (C : Crypto) (B : Builtins F) (P : PySort F) (ledger : LedgerOptions)
    (remote : Remote F) (payload : PyFields F) (disk : Disk) (p : Prepared F) : Prop where
  verified : ledger.verify C B remote disk = .ok p.existing
  valid : p.existing.valid = true
  text : ∃ text, hashedText P (payload.set "previous_hash" (previousValue p.existing.headHash)) =
    .ok text ∧ p.recordHash = hashOf C text
  line : encodedRecord P (sealedRecord payload p.existing.headHash p.recordHash) =
    .ok p.encodedRecord

theorem prepare_of_verify {existing : AuditVerification}
    (h : ledger.verify C B remote disk = .ok existing) :
    ledger.prepare C B P remote payload disk = ledger.encode C P remote payload disk existing := by
  rw [LedgerOptions.prepare, h]
  rfl

theorem prepare_eq_ok (h : ledger.prepare C B P remote payload disk = .ok p) :
    Ready C B P ledger remote payload disk p := by
  obtain ⟨existing, hverify, h⟩ := bind_eq_ok.1 h
  obtain ⟨_, hvalid, h⟩ := bind_eq_ok.1 h
  obtain ⟨text, htext, h⟩ := bind_eq_ok.1 h
  obtain ⟨line, hline, h⟩ := bind_eq_ok.1 h
  obtain ⟨_, -, h⟩ := bind_eq_ok.1 h
  obtain ⟨_, -, h⟩ := bind_eq_ok.1 h
  obtain rfl := Except.ok.inj h
  have hvalid : existing.valid = true := by simpa using raiseIf_eq_ok.1 hvalid
  exact ⟨hverify, hvalid, ⟨text, htext, rfl⟩, hline⟩

end Steps

/-! ## Complete records -/

/-- The JSON values of the lines that are complete. -/
def completeOf (F : Type) [PyFloat F] (lines : List Str) : List (Json F) :=
  lines.filterMap fun raw => loads (Str.strip raw)

/-- The complete records of a ledger file. -/
def Disk.complete (F : Type) [PyFloat F] (disk : Disk) : List (Json F) :=
  completeOf F (((decodeUtf8 (disk.ledger.getD [])).map Str.lines).getD [])

/-- The `record_hash` of a record. -/
def hashField : Json F → Option Str
  | .obj fields => (Fields.get fields "record_hash").bind strOf
  | _ => none

/-- The `previous_hash` of a record. -/
def previousField : Json F → Option (Option Str)
  | .obj fields => previousHash ((Fields.get fields "previous_hash").getD .null)
  | _ => none

theorem complete_of_decode {disk : Disk} {text : Str}
    (h : decodeUtf8 (disk.ledger.getD []) = some text) :
    disk.complete F = completeOf F (Str.lines text) := by
  rw [Disk.complete, h]
  rfl

theorem completeOf_cons (raw : Str) (lines : List Str) :
    completeOf F (raw :: lines) = (loads (Str.strip raw)).toList ++ completeOf F lines := by
  rw [completeOf, List.filterMap_cons]
  rcases loads (F := F) (Str.strip raw) with _ | v <;> rfl

theorem completeOf_append (xs ys : List Str) :
    completeOf F (xs ++ ys) = completeOf F xs ++ completeOf F ys :=
  List.filterMap_append

/-- Where every line can be read, the records are complete. -/
theorem completeOf_eq {lines : List Str} {values : List (Json F)}
    (h : recordsOf F lines = some values) : completeOf F lines = values := by
  induction lines generalizing values with
  | nil => exact Option.some.inj h
  | cons raw lines ih =>
    by_cases hblank : Str.strip raw = []
    · rw [recordsOf_blank hblank] at h
      rw [completeOf_cons, hblank, ih h]
      rfl
    · rw [recordsOf_cons hblank] at h
      obtain ⟨v, hload, hmap⟩ := Option.bind_eq_some_iff.1 h
      obtain ⟨rest, hrest, rfl⟩ := Option.map_eq_some_iff.1 hmap
      rw [completeOf_cons, hload, ih hrest]
      rfl

/-- A part of a record is not read. -/
theorem loads_torn {t : Str} {v : Json F} (h : loads ('{' :: t ++ ['}']) = some v) {n : ℕ}
    (hn : n < ('{' :: t ++ ['}']).length) :
    loads (F := F) (Str.strip (('{' :: t ++ ['}']).take n)) = none := by
  rcases hs : Str.strip (('{' :: t ++ ['}']).take n) with _ | ⟨c, u⟩
  · rfl
  -- what is left after stripping is in front of the closing brace
  obtain ⟨x, hx, hmem⟩ : ∃ x, '{' :: t ++ ['}'] = c :: u ++ x ∧ '}' ∈ x := by
    rcases n with _ | n
    · cases hs
    rw [List.cons_append, List.take_succ_cons, Str.strip, List.dropWhile_cons_of_neg (by decide)] at hs
    obtain ⟨ws, hws⟩ := List.rdropWhile_prefix Str.isSpace ('{' :: (t ++ ['}']).take n)
    rw [← Str.rstrip, hs] at hws
    refine ⟨ws ++ (t ++ ['}']).drop n, ?_, List.mem_append_right _ ?_⟩
    · rw [← List.append_assoc, hws, List.cons_append, List.cons_append, List.take_append_drop]
    · rw [List.drop_append_of_le_length (by simp at hn; omega)]
      simp
  obtain ⟨rfl, hu⟩ := List.cons.inj hx
  rw [loads, Option.map_eq_none_iff, ← Option.not_isSome_iff_eq_none]
  intro hsome
  obtain ⟨w, hw⟩ := Option.isSome_iff_exists.1 hsome
  have hnone := parse_extend_none hw hmem (by decide)
  rw [← hx] at hnone
  rw [loads, hnone] at h
  cases h

/-- Text that continues an ended file. -/
theorem completeOf_open {text q : Str} {values : List (Json F)}
    (hvalues : recordsOf F (Str.lines text) = some values)
    (hblank : Str.strip (Str.openLine text) = []) (hne : q ≠ []) (hn : '\n' ∉ q) (hr : '\r' ∉ q) :
    completeOf F (Str.lines (text ++ q)) = values ++ (loads (Str.strip q)).toList := by
  rw [recordsOf_lines] at hvalues
  have hclosed := completeOf_eq hvalues
  rw [completeOf_append] at hclosed
  rw [completeOf_cons, hblank] at hclosed
  have hvalues : completeOf F (Str.closedLines text) = values :=
    (List.append_nil _).symm.trans hclosed
  rw [Str.lines_append_open text hne hn hr, completeOf_append, hvalues, completeOf_cons,
    Str.strip_append_blank hblank]
  exact congrArg _ (List.append_nil _)

/-- A part of a record makes the file unreadable. -/
theorem recordsOf_torn {text q : Str} (hblank : Str.strip (Str.openLine text) = []) (hne : q ≠ [])
    (hn : '\n' ∉ q) (hr : '\r' ∉ q) (hq : Str.strip q ≠ [])
    (hload : loads (F := F) (Str.strip q) = none) :
    recordsOf F (Str.lines (text ++ q)) = none := by
  rw [Str.lines_append_open text hne hn hr, recordsOf_append,
    recordsOf_cons (by rwa [Str.strip_append_blank hblank]), Str.strip_append_blank hblank, hload]
  rcases recordsOf F (Str.closedLines text) with _ | vs <;> rfl

/-- A record that only lacks its line end is read as if it had one. -/
theorem lines_without_end (text : Str) {t : Str} (hne : t ≠ []) (hn : '\n' ∉ t) (hr : '\r' ∉ t) :
    Str.lines (text ++ t) = Str.lines (text ++ (t ++ ['\n'])) := by
  rw [Str.lines_append_open text hne hn hr, Str.lines_append_line text hne hn hr]

/-! ## Distinct hashes -/

variable {C : Crypto} {T : Set Bytes}

theorem linked_append {previous last : Option Str} {xs ys : List (Json F)} :
    Linked C previous (xs ++ ys) last ↔
      ∃ middle, Linked C previous xs middle ∧ Linked C middle ys last := by
  induction xs generalizing previous with
  | nil =>
    constructor
    · exact fun h => ⟨previous, rfl, h⟩
    · rintro ⟨_, rfl, h⟩
      exact h
  | cons x xs ih =>
    constructor
    · rintro ⟨hash, hlink, hrest⟩
      obtain ⟨middle, hxs, hys⟩ := ih.1 hrest
      exact ⟨middle, ⟨hash, hlink, hxs⟩, hys⟩
    · rintro ⟨middle, ⟨hash, hlink, hxs⟩, hys⟩
      exact ⟨hash, hlink, ih.2 ⟨middle, hxs, hys⟩⟩

theorem IsLink.previousField_eq {previous : Option Str} {record : Json F} {hash : Str}
    (h : IsLink C previous record hash) : previousField record = some previous := by
  obtain ⟨fields, rfl, -, hprevious, -⟩ := h
  exact hprevious

/-- Linked records never come back to a hash. -/
theorem Linked.ne_last (hinj : Set.InjOn C.sha256 T) {last middle : Option Str}
    {xs ys : List (Json F)} (h : Linked C none (xs ++ ys) last) (hxs : Linked C none xs middle)
    (hne : ys ≠ []) (hwf : ∀ v ∈ xs ++ ys, v.WF) (htext : ∀ v ∈ xs ++ ys, TextIn T v) :
    middle ≠ last := by
  rintro rfl
  have hsame := hxs.unique hinj h (fun v hv => hwf v (List.mem_append_left _ hv)) hwf
    (fun v hv => htext v (List.mem_append_left _ hv)) htext
  have hlength := congrArg List.length hsame
  rw [List.length_map, List.length_map, List.length_append] at hlength
  exact hne (List.length_eq_zero_iff.1 (by omega))

/-- The hashes before linked records are distinct, and distinct from the last hash. -/
theorem Linked.nodup_previous (hinj : Set.InjOn C.sha256 T) {last : Option Str}
    {values : List (Json F)} (h : Linked C none values last) (hwf : ∀ v ∈ values, v.WF)
    (htext : ∀ v ∈ values, TextIn T v) :
    (values.map previousField ++ [some last]).Nodup := by
  induction values using List.reverseRecOn generalizing last with
  | nil => simp
  | append_singleton init value ih =>
    obtain ⟨middle, hash, hinit, hlink, rfl⟩ := linked_concat.1 h
    have hbefore := ih hinit (fun v hv => hwf v (by simp [hv])) fun v hv => htext v (by simp [hv])
    rw [← hlink.previousField_eq, ← List.map_singleton, ← List.map_append] at hbefore
    refine List.nodup_append.2 ⟨hbefore, List.nodup_singleton _, ?_⟩
    rintro x hx y hy rfl
    rw [List.mem_singleton] at hy
    subst hy
    -- a record after the last one would be linked to a shorter list
    obtain ⟨w, hw, hprevious⟩ := List.mem_map.1 hx
    obtain ⟨xs, ys, hsplit⟩ := List.append_of_mem hw
    rw [hsplit] at h hwf htext
    obtain ⟨m, hxs, hash', hlink', -⟩ := linked_append.1 h
    obtain rfl := Option.some.inj (hlink'.previousField_eq.symm.trans hprevious)
    exact h.ne_last hinj hxs (List.cons_ne_nil _ _) hwf htext rfl

/-! ## What an append finds and leaves -/

/-- An append to a ledger whose last line is ended: the text and the records that it finds, and the
JSON value `R` of its own record. -/
structure Layout (C : Crypto) (disk : Disk) (p : Prepared F) (text : Str) (values : List (Json F))
    (R : Fields F) : Prop where
  file : disk.ledger.getD [] = encodeUtf8 text
  records : recordsOf F (Str.lines text) = some values
  linked : Linked C none values p.existing.headHash
  length : p.existing.records = values.length
  blank : Str.strip (Str.openLine text) = []
  line : Line C p.existing.headHash p.recordHash R
  encoded : p.encodedRecord = (Json.obj R.sort).render ⟨true, true⟩ ++ ['\n']

variable {B : Builtins F} {P : PySort F} {ledger : LedgerOptions} {remote : Remote F}
  {entry : Entry F} {disk disk' : Disk} {p : Prepared F} {text : Str} {values : List (Json F)}
  {R : Fields F}

theorem Ready.layout (h : Ready C B P ledger remote entry.payload disk p) (hended : disk.Ended) :
    ∃ text values R, Layout C disk p text values R := by
  obtain ⟨text, values, hfile, hvalues, hlinked, hlength⟩ := verify_text h.verified h.valid
  obtain ⟨hashed, htext, hhash⟩ := h.text
  obtain ⟨R, -, hline, -, hencoded⟩ := exists_line entry.nodup_keys htext hhash h.line
  have hblank := hended text (by rw [hfile, decodeUtf8_encodeUtf8])
  exact ⟨text, values, R, hfile, hvalues, hlinked, hlength, hblank, hline, hencoded⟩

theorem Line.hashField_eq {previous : Option Str} {hash : Str} (h : Line C previous hash R) :
    hashField (Json.obj R.sort).dict = some hash := by
  rw [dict_sort h.nodup, hashField, get_dictFields, Fields.get_sort, h.hash_eq]
  rfl

theorem Line.previousField_eq {previous : Option Str} {hash : Str} (h : Line C previous hash R) :
    previousField (Json.obj R.sort).dict = some previous := by
  rw [dict_sort h.nodup, previousField, get_dictFields, Fields.get_sort, h.previous_eq]
  cases previous <;> rfl

theorem not_mem_render (v : Json F) {c : Char} (hc : c.toNat < 0x20) :
    c ∉ v.render ⟨true, true⟩ :=
  fun h => absurd (printable_render true v c h).1 (by omega)

theorem render_obj_ne_nil (fields : Fields F) : (Json.obj fields).render ⟨true, true⟩ ≠ [] := by
  obtain ⟨t, ht⟩ := render_obj_braces ⟨true, true⟩ fields
  rw [ht]
  exact List.cons_ne_nil _ _

namespace Layout

variable (L : Layout C disk p text values R)

include L

theorem complete_eq : disk.complete F = values := by
  rw [complete_of_decode (by rw [L.file, decodeUtf8_encodeUtf8]), completeOf_eq L.records]

/-- The records that the append finds are hashed by texts in `T`. -/
theorem textIn (htexts : linkTexts F disk.ledger ⊆ T) : ∀ v ∈ values, TextIn T v := by
  rcases hledger : disk.ledger with _ | file
  · have hfile := L.file
    rw [hledger] at hfile
    obtain rfl : [] = text := encodeUtf8_injective hfile
    obtain rfl : [] = values := Option.some.inj L.records
    simp
  · have hfile : file = encodeUtf8 text := by
      rw [← L.file, hledger]
      rfl
    refine textIn_of_parse hledger ?_ htexts
    rw [parseLedger, hfile, decodeUtf8_encodeUtf8, Option.bind_some, L.records]

/-- No record carries the hash before the new one. -/
theorem nodup (hinj : Set.InjOn C.sha256 T) (htexts : linkTexts F disk.ledger ⊆ T) :
    ((values ++ [(Json.obj R.sort).dict]).map previousField).Nodup := by
  rw [List.map_append, List.map_singleton, L.line.previousField_eq]
  exact L.linked.nodup_previous hinj (recordsOf_wf L.records) (L.textIn htexts)

/-- The file with the text of the record, ended or not. -/
theorem recordsOf_text :
    recordsOf F (Str.lines (text ++ (Json.obj R.sort).render ⟨true, true⟩)) =
      some (values ++ [(Json.obj R.sort).dict]) := by
  rw [lines_without_end text (render_obj_ne_nil _) (not_mem_render _ (by decide))
      (not_mem_render _ (by decide)),
    recordsOf_line L.line.writable L.records L.linked, if_pos L.blank]

theorem decode_whole
    (hfile : disk'.ledger = some (disk.ledger.getD [] ++ encodeUtf8 p.encodedRecord)) :
    decodeUtf8 (disk'.ledger.getD []) =
      some (text ++ ((Json.obj R.sort).render ⟨true, true⟩ ++ ['\n'])) := by
  rw [hfile, L.file, L.encoded, ← encodeUtf8_append]
  exact decodeUtf8_encodeUtf8 _

/-- The whole record is complete, and ends the file. -/
theorem whole (hfile : disk'.ledger = some (disk.ledger.getD [] ++ encodeUtf8 p.encodedRecord)) :
    disk'.complete F = values ++ [(Json.obj R.sort).dict] ∧ disk'.Ended := by
  have hdecode := L.decode_whole hfile
  constructor
  · rw [complete_of_decode hdecode, ← lines_without_end text (render_obj_ne_nil _)
      (not_mem_render _ (by decide)) (not_mem_render _ (by decide)), completeOf_eq L.recordsOf_text]
  · intro text' htext'
    obtain rfl := Option.some.inj (hdecode.symm.trans htext')
    rw [← List.append_assoc, Str.openLine_append_line]
    rfl

/-- A part of the bytes of the record is a part of its text. -/
theorem decode_line {n : ℕ} (hn : n ≤ ((Json.obj R.sort).render ⟨true, true⟩).length) :
    (p.line n disk).ledger =
      some (encodeUtf8 (text ++ ((Json.obj R.sort).render ⟨true, true⟩).take n)) := by
  have hprint : Printable ((Json.obj R.sort).render ⟨true, true⟩) :=
    printable_render true (Json.obj R.sort)
  rw [Prepared.line, L.file, L.encoded, encodeUtf8_append,
    List.take_append_of_le_length (by rwa [length_encodeUtf8_printable hprint]),
    take_encodeUtf8_printable hprint, ← encodeUtf8_append]

/-- A record without its line end is read as the record. -/
theorem parse_unended (hfile : disk'.ledger = some (disk.ledger.getD [] ++ encodeUtf8 p.encodedRecord)) :
    (p.line ((encodeUtf8 p.encodedRecord).length - 1) disk).ledger.bind (parseLedger F) =
      disk'.ledger.bind (parseLedger F) := by
  have hprint : Printable ((Json.obj R.sort).render ⟨true, true⟩) :=
    printable_render true (Json.obj R.sort)
  have hbytes : (encodeUtf8 p.encodedRecord).length = ((Json.obj R.sort).render ⟨true, true⟩).length + 1 := by
    rw [L.encoded, encodeUtf8_append, List.length_append, length_encodeUtf8_printable hprint]
    rfl
  have hdecode := L.decode_whole hfile
  rw [hfile, Option.getD_some] at hdecode
  rw [L.decode_line (by rw [hbytes, Nat.add_sub_cancel]), hbytes, Nat.add_sub_cancel, List.take_length, hfile,
    Option.bind_some, Option.bind_some, parseLedger, parseLedger, decodeUtf8_encodeUtf8, hdecode, Option.bind_some,
    Option.bind_some, L.recordsOf_text, recordsOf_line L.line.writable L.records L.linked, if_pos L.blank]

/-- A part of the record is not complete, and the file is not read. -/
theorem torn {n : ℕ} (hpos : 0 < n) (hn : n < ((Json.obj R.sort).render ⟨true, true⟩).length) :
    (p.line n disk).complete F = values ∧
      ∀ file, (p.line n disk).ledger = some file → parseLedger F file = none := by
  have hdecode := L.decode_line hn.le
  obtain ⟨t, ht⟩ := render_obj_braces ⟨true, true⟩ R.sort
  have hload : loads (F := F) ('{' :: t ++ ['}']) = some (Json.obj R.sort).dict := by
    rw [← ht, loads, parse_render ⟨true, true⟩ true _ L.line.writable]
    rfl
  have htorn := loads_torn hload (ht ▸ hn)
  rw [← ht] at htorn
  have hne : ((Json.obj R.sort).render ⟨true, true⟩).take n ≠ [] := by
    intro hnil
    have hlength := congrArg List.length hnil
    rw [List.length_take, List.length_nil] at hlength
    omega
  have hbreak : ∀ c : Char, c.toNat < 0x20 → c ∉ ((Json.obj R.sort).render ⟨true, true⟩).take n :=
    fun c hc hmem => not_mem_render _ hc (List.mem_of_mem_take hmem)
  have hstrip : Str.strip (((Json.obj R.sort).render ⟨true, true⟩).take n) ≠ [] := by
    rw [ne_eq, Str.strip_eq_nil]
    intro hall
    obtain ⟨m, rfl⟩ : ∃ m, n = m + 1 := ⟨n - 1, by omega⟩
    have hbrace := hall '{' (by rw [ht, List.cons_append, List.take_succ_cons]; simp)
    cases hbrace
  constructor
  · rw [complete_of_decode (by rw [hdecode]; exact decodeUtf8_encodeUtf8 _),
      completeOf_open L.records L.blank hne (hbreak _ (by decide)) (hbreak _ (by decide)), htorn]
    exact List.append_nil _
  · intro file hfile
    obtain rfl := Option.some.inj (hdecode.symm.trans hfile)
    rw [parseLedger, decodeUtf8_encodeUtf8, Option.bind_some]
    exact recordsOf_torn L.blank hne (hbreak _ (by decide)) (hbreak _ (by decide)) hstrip htorn

end Layout

/-! ## Runs -/

/-- The collector of one ledger. What it finds depends on the remote checkpoint only. -/
def Remote.of (framed : Bool) (check : Option Bytes → RemoteCheck)
    (deliver : ℕ → Str → PyFields F → Except Exc (Option Bytes)) : Remote F :=
  ⟨framed, fun disk => check disk.remote, deliver⟩

/-- The appends to one ledger that made a disk of nothing, and the hashes that they returned. Each of
them returned, raised, or stopped where `allowed` says that it may. The texts that the records on the
disk are hashed by are in `T` all the time. -/
inductive Run (C : Crypto) (B : Builtins F) (P : PySort F) (ledger : LedgerOptions) (framed : Bool)
    (check : Option Bytes → RemoteCheck) (allowed : Disk → Prepared F → Stop → Prop)
    (T : Set Bytes) : List Str → Disk → Prop
  | start : Run C B P ledger framed check allowed T [] emptyDisk
  | returned {hashes : List Str} {disk disk' : Disk} {x : Str}
      (deliver : ℕ → Str → PyFields F → Except Exc (Option Bytes)) (entry : Entry F)
      (before : Run C B P ledger framed check allowed T hashes disk)
      (appended : ledger.append C B P (.of framed check deliver) entry disk = (.ok x, disk'))
      (texts : linkTexts F disk'.ledger ⊆ T) :
      Run C B P ledger framed check allowed T (hashes ++ [x]) disk'
  | raised {hashes : List Str} {disk disk' : Disk} {e : Exc}
      (deliver : ℕ → Str → PyFields F → Except Exc (Option Bytes)) (entry : Entry F)
      (before : Run C B P ledger framed check allowed T hashes disk)
      (appended : ledger.append C B P (.of framed check deliver) entry disk = (.error e, disk'))
      (texts : linkTexts F disk'.ledger ⊆ T) :
      Run C B P ledger framed check allowed T hashes disk'
  | stopped {hashes : List Str} {disk disk' : Disk} {p : Prepared F}
      (deliver : ℕ → Str → PyFields F → Except Exc (Option Bytes)) (entry : Entry F) (stop : Stop)
      (before : Run C B P ledger framed check allowed T hashes disk)
      (prepared : ledger.prepare C B P (.of framed check deliver) entry.payload disk = .ok p)
      (crashed : ledger.stopped C (.of framed check deliver) p disk stop = .ok disk')
      (admitted : allowed disk p stop)
      (texts : linkTexts F disk'.ledger ⊆ T) :
      Run C B P ledger framed check allowed T hashes disk'

/-- Nothing beside the ledger file would contradict a record more: there is no head file and no
anchor, and some hash would agree with the remote checkpoint. -/
structure Unguarded (C : Crypto) (B : Builtins F) (ledger : LedgerOptions)
    (check : Option Bytes → RemoteCheck) (disk : Disk) (records : ℕ) : Prop where
  head : disk.head = none
  anchor : ledger.readAnchor C B disk = .ok none
  remote : ∃ hash, check disk.remote (records + 1) (some hash) = none

/-- Where nothing beside the file would contradict it, a record does not stop in front of its line
end. -/
def EndsLine (C : Crypto) (B : Builtins F) (ledger : LedgerOptions)
    (check : Option Bytes → RemoteCheck) (disk : Disk) (p : Prepared F) (stop : Stop) : Prop :=
  stop = .line ((encodeUtf8 p.encodedRecord).length - 1) →
    ¬ Unguarded C B ledger check disk p.existing.records

/-- What every run keeps. Either the last line is ended, or the ledger is refused from now on. -/
structure Sound (C : Crypto) (B : Builtins F) (ledger : LedgerOptions)
    (check : Option Bytes → RemoteCheck) (T : Set Bytes) (hashes : List Str) (disk : Disk) :
    Prop where
  returned : hashes.Sublist ((disk.complete F).filterMap hashField)
  nodup : ((disk.complete F).map previousField).Nodup
  anchor : disk.ledger = none → disk.anchor = none
  ended : disk.Ended ∨ ∀ v, ledger.verifyWith C B (check disk.remote) disk true true = .ok v →
    v.valid = false
  texts : linkTexts F disk.ledger ⊆ T

variable {framed : Bool} {check : Option Bytes → RemoteCheck}
  {deliver : ℕ → Str → PyFields F → Except Exc (Option Bytes)} {hashes : List Str}

/-- Before a write the last line is ended. -/
theorem Sound.layout (h : Sound C B ledger check T hashes disk)
    (hready : Ready C B P ledger (.of framed check deliver) entry.payload disk p) :
    ∃ text values R, Layout C disk p text values R := by
  rcases h.ended with hended | hrefused
  · exact hready.layout hended
  · have hinvalid := hrefused _ hready.verified
    rw [hready.valid] at hinvalid
    cases hinvalid

/-- The whole record keeps the ledger sound, and its hash with it. -/
theorem Sound.whole (hinj : Set.InjOn C.sha256 T) (h : Sound C B ledger check T hashes disk)
    (L : Layout C disk p text values R)
    (hfile : disk'.ledger = some (disk.ledger.getD [] ++ encodeUtf8 p.encodedRecord))
    (htexts : linkTexts F disk'.ledger ⊆ T) :
    Sound C B ledger check T hashes disk' ∧
      Sound C B ledger check T (hashes ++ [p.recordHash]) disk' := by
  obtain ⟨hcomplete, hended⟩ := L.whole hfile
  have hnone : disk'.ledger = none → disk'.anchor = none := by
    rw [hfile]
    nofun
  have hnodup : ((disk'.complete F).map previousField).Nodup := by
    rw [hcomplete]
    exact L.nodup hinj h.texts
  have hhashes : (disk'.complete F).filterMap hashField =
      (disk.complete F).filterMap hashField ++ [p.recordHash] := by
    rw [hcomplete, L.complete_eq, List.filterMap_append,
      List.filterMap_cons_some L.line.hashField_eq]
    rfl
  refine ⟨⟨?_, hnodup, hnone, .inl hended, htexts⟩, ⟨?_, hnodup, hnone, .inl hended, htexts⟩⟩
  · rw [hhashes]
    exact h.returned.trans (List.sublist_append_left _ _)
  · rw [hhashes]
    exact h.returned.append (List.Sublist.refl _)

theorem exists_headText {content : Bytes} {checkpoint : Option Str}
    (hhead : disk.head = some content) (h : disk.headText true = .ok checkpoint) :
    ∃ t, checkpoint = some t := by
  unfold Disk.headText at h
  rw [hhead] at h
  dsimp only at h
  rcases hread : readText content with e | t
  · rw [hread] at h
    cases h
  · rw [hread] at h
    exact ⟨_, (Except.ok.inj h).symm⟩

theorem readAnchor_none (h : disk.anchor = none) : ledger.readAnchor C B disk = .ok none := by
  unfold LedgerOptions.readAnchor
  rw [h]
  rcases ledger.anchorKey with _ | key <;> rfl

/-- A record without its line end is accepted only where nothing beside the file contradicts it. -/
theorem Layout.unguarded (hinj : Set.InjOn C.sha256 T) (L : Layout C disk p text values R)
    (hready : Ready C B P ledger (.of framed check deliver) entry.payload disk p)
    (hanchor : disk.ledger = none → disk.anchor = none)
    (hledger : disk'.ledger = some (encodeUtf8 (text ++ (Json.obj R.sort).render ⟨true, true⟩)))
    (hsame : disk' = { disk with ledger := disk'.ledger }) (htexts : linkTexts F disk'.ledger ⊆ T)
    {v : AuditVerification}
    (hverify : ledger.verifyWith C B (check disk'.remote) disk' true true = .ok v)
    (hvalid : v.valid = true) : Unguarded C B ledger check disk p.existing.records := by
  have hhead : disk'.headText true = disk.headText true := by
    rw [hsame]
    rfl
  have hread : ledger.readAnchor C B disk' = ledger.readAnchor C B disk := by
    rw [hsame]
    rfl
  have hparse : parseLedger F (encodeUtf8 (text ++ (Json.obj R.sort).render ⟨true, true⟩)) =
      some (values ++ [(Json.obj R.sort).dict]) := by
    rw [parseLedger, decodeUtf8_encodeUtf8, Option.bind_some, L.recordsOf_text]
  rcases verifyWith_valid.1 ⟨hverify, hvalid⟩ with ⟨hnone, -⟩ |
    ⟨file, values', last, hfile, -, hparse', hlinked, hchecked, -⟩
  · rw [hledger] at hnone
    cases hnone
  obtain rfl := Option.some.inj (hledger.symm.trans hfile)
  obtain rfl := Option.some.inj (hparse.symm.trans hparse')
  -- the new record is the last one, and its hash is new
  obtain ⟨middle, hash, -, hlink, rfl⟩ := linked_concat.1 hlinked
  obtain ⟨-, rfl, hcalc⟩ := (L.line.isLink_iff middle).1 hlink
  have hnew : p.existing.headHash ≠ some p.recordHash :=
    hlinked.ne_last hinj L.linked (List.cons_ne_nil _ _) (parseLedger_wf hparse)
      (textIn_of_parse hledger hparse htexts)
  have hlength : (values ++ [(Json.obj R.sort).dict]).length = p.existing.records + 1 := by
    rw [List.length_append, List.length_singleton, L.length]
  rw [hlength] at hchecked
  have hbefore := verifyWith_valid.1 ⟨hready.verified, hready.valid⟩
  refine ⟨?_, ?_, p.recordHash, ?_⟩
  · by_contra hsome
    obtain ⟨content, hcontent⟩ := Option.ne_none_iff_exists'.1 hsome
    -- the head file holds the hash before, so it cannot hold the new one
    have hold : HeadIs disk true (p.existing.headHash.getD []) := by
      rcases hbefore with ⟨-, hblank, -, heq⟩ | ⟨_, _, last, -, -, -, -, hchecked, heq⟩
      · rw [heq]
        exact hblank
      · rw [heq]
        exact hchecked.head
    obtain ⟨checkpoint, hcheckpoint, hagree⟩ := hold
    obtain ⟨checkpoint', hcheckpoint', hagree'⟩ := hchecked.head
    rw [hhead] at hcheckpoint'
    obtain rfl := Except.ok.inj (hcheckpoint.symm.trans hcheckpoint')
    obtain ⟨t, rfl⟩ := exists_headText hcontent hcheckpoint
    have hhash : p.existing.headHash.getD [] = p.recordHash :=
      (hagree t rfl).symm.trans (hagree' t rfl)
    rcases hprevious : p.existing.headHash with _ | previous
    · rw [hprevious] at hhash
      have hhex := isHex64_calculateHash hcalc
      rw [← hhash] at hhex
      cases hhex
    · rw [hprevious] at hhash hnew
      exact hnew (congrArg some hhash)
  · obtain ⟨anchor, hok, hagree⟩ := hchecked.anchor rfl
    rw [hread] at hok
    rcases anchor with _ | a
    · exact hok
    -- the anchor holds the number of records before
    exfalso
    have hmore := (hagree a rfl).1
    rcases hbefore with ⟨hnone, -⟩ | ⟨_, values', _, -, -, -, -, hchecked', heq⟩
    · rw [readAnchor_none (hanchor hnone)] at hok
      cases hok
    · obtain ⟨anchor, hok', hagree'⟩ := hchecked'.anchor rfl
      obtain rfl := Except.ok.inj (hok.symm.trans hok')
      have hless := (hagree' a rfl).1
      rw [heq] at hmore
      push_cast at hmore
      omega
  · have hremote := hchecked.remote rfl
    rw [hsame] at hremote
    exact hremote

/-- A part of the record keeps the ledger sound. -/
theorem Sound.line (hinj : Set.InjOn C.sha256 T) (h : Sound C B ledger check T hashes disk)
    (hready : Ready C B P ledger (.of framed check deliver) entry.payload disk p) {n : ℕ}
    (hends : EndsLine C B ledger check disk p (.line n))
    (htexts : linkTexts F (p.line n disk).ledger ⊆ T) :
    Sound C B ledger check T hashes (p.line n disk) := by
  obtain ⟨text, values, R, L⟩ := h.layout hready
  have hprint : Printable ((Json.obj R.sort).render ⟨true, true⟩) :=
    printable_render true (Json.obj R.sort)
  have hbytes : (encodeUtf8 p.encodedRecord).length =
      ((Json.obj R.sort).render ⟨true, true⟩).length + 1 := by
    rw [L.encoded, encodeUtf8_append, List.length_append, length_encodeUtf8_printable hprint]
    rfl
  have hnone : (p.line n disk).ledger = none → (p.line n disk).anchor = none := nofun
  rcases Nat.eq_zero_or_pos n with rfl | hpos
  · -- nothing of the record is in the file
    have hledger : (p.line 0 disk).ledger.getD [] = disk.ledger.getD [] := List.append_nil _
    have hcomplete : (p.line 0 disk).complete F = disk.complete F := by
      rw [Disk.complete, hledger, Disk.complete]
    have hended : (p.line 0 disk).Ended := by
      intro text' htext'
      rw [hledger, L.file] at htext'
      obtain rfl := Option.some.inj ((decodeUtf8_encodeUtf8 text).symm.trans htext')
      exact L.blank
    exact ⟨hcomplete ▸ h.returned, hcomplete ▸ h.nodup, hnone, .inl hended, htexts⟩
  rcases lt_trichotomy n ((Json.obj R.sort).render ⟨true, true⟩).length with hlt | heq | hgt
  · -- the line is torn, and the ledger is refused
    obtain ⟨hcomplete, hparse⟩ := L.torn hpos hlt
    rw [← L.complete_eq] at hcomplete
    refine ⟨hcomplete ▸ h.returned, hcomplete ▸ h.nodup, hnone, .inr fun v hverify => ?_, htexts⟩
    by_contra hvalid
    rw [Bool.not_eq_false] at hvalid
    rcases verifyWith_valid.1 ⟨hverify, hvalid⟩ with ⟨hledger, -⟩ | ⟨file, _, _, hfile, -, hsome, -⟩
    · cases hledger
    · rw [hparse file hfile] at hsome
      cases hsome
  · -- the record lacks its line end only, and something beside the file contradicts it
    have hfile : (p.line n disk).ledger =
        some (encodeUtf8 (text ++ (Json.obj R.sort).render ⟨true, true⟩)) := by
      rw [L.decode_line heq.le, heq, List.take_length]
    have hcomplete : (p.line n disk).complete F = values ++ [(Json.obj R.sort).dict] := by
      rw [complete_of_decode (by rw [hfile]; exact decodeUtf8_encodeUtf8 _),
        completeOf_eq L.recordsOf_text]
    have hguarded := hends (by rw [hbytes, heq, Nat.add_sub_cancel])
    refine ⟨?_, ?_, hnone, .inr fun v hverify => ?_, htexts⟩
    · rw [hcomplete, List.filterMap_append, ← L.complete_eq]
      exact h.returned.trans (List.sublist_append_left _ _)
    · rw [hcomplete]
      exact L.nodup hinj h.texts
    · by_contra hvalid
      rw [Bool.not_eq_false] at hvalid
      exact hguarded (L.unguarded hinj hready h.anchor hfile rfl htexts hverify hvalid)
  · -- the whole record is in the file
    refine (h.whole hinj L ?_ htexts).1
    rw [Prepared.line, List.take_of_length_le (by omega)]

/-- Every state of a run is sound. -/
theorem Run.sound (hinj : Set.InjOn C.sha256 T)
    (h : Run C B P ledger framed check (EndsLine C B ledger check) T hashes disk) :
    Sound C B ledger check T hashes disk := by
  induction h with
  | start =>
    refine ⟨List.nil_sublist _, ?_, fun _ => rfl, .inl (Disk.ended_of_none rfl), ?_⟩
    · have hdecode : decodeUtf8 (emptyDisk.ledger.getD []) = some [] := decodeUtf8_encodeUtf8 []
      rw [complete_of_decode hdecode]
      exact List.nodup_nil
    · rintro b ⟨content, _, _, _, hcontent, -⟩
      cases hcontent
  | returned deliver entry before appended texts ih =>
    obtain ⟨p, hprepare, rfl, hstopped⟩ := append_returned appended
    obtain ⟨text, values, R, L⟩ := ih.layout (prepare_eq_ok hprepare)
    rcases stopped_cases hstopped with ⟨⟨⟩, -⟩ | ⟨n, ⟨⟩, -⟩ | hfile
    exact (ih.whole hinj L hfile texts).2
  | raised deliver entry before appended texts ih =>
    rcases append_raised appended with rfl | ⟨p, hprepare, hstopped⟩
    · exact ih
    · obtain ⟨text, values, R, L⟩ := ih.layout (prepare_eq_ok hprepare)
      rcases hstopped with hstopped | hstopped
      · rcases stopped_cases hstopped with ⟨⟨⟩, -⟩ | ⟨n, ⟨⟩, -⟩ | hfile
        exact (ih.whole hinj L hfile texts).1
      · rcases stopped_cases hstopped with ⟨⟨⟩, -⟩ | ⟨n, ⟨⟩, -⟩ | hfile
        exact (ih.whole hinj L hfile texts).1
  | stopped deliver entry stop before prepared crashed admitted texts ih =>
    have hready := prepare_eq_ok prepared
    rcases stopped_cases crashed with ⟨-, rfl⟩ | ⟨n, rfl, rfl⟩ | hfile
    · exact ih
    · exact ih.line hinj hready admitted texts
    · obtain ⟨text, values, R, L⟩ := ih.layout hready
      exact (ih.whole hinj L hfile texts).1

/-- In a run in which no record stops in front of its line end while nothing beside the file would
contradict it, the returned hashes stay among the complete records, in their order, and no two
complete records carry the same hash before. An append that is refused before its first write leaves
every file as it is. -/
theorem crash_safe (C : Crypto) (B : Builtins F) (P : PySort F) (ledger : LedgerOptions)
    (framed : Bool) (check : Option Bytes → RemoteCheck) (T : Set Bytes)
    (hinj : Set.InjOn C.sha256 T) :
    (∀ hashes disk, Run C B P ledger framed check (EndsLine C B ledger check) T hashes disk →
      hashes.Sublist ((disk.complete F).filterMap hashField) ∧
        ((disk.complete F).map previousField).Nodup) ∧
      ∀ remote entry disk e, ledger.prepare C B P remote entry.payload disk = .error e →
        ∃ e', ledger.append C B P remote entry disk = (.error e', disk) :=
  ⟨fun _ _ h => ⟨(h.sound hinj).returned, (h.sound hinj).nodup⟩, fun _ _ _ _ h => append_refused h⟩

/-- The texts of a file are those of what it is read as. -/
theorem linkTexts_subset {file file' : Option Bytes} (h : file.bind (parseLedger F) = file'.bind (parseLedger F)) :
    linkTexts F file ⊆ linkTexts F file' := by
  rintro b ⟨content, values, record, text, rfl, hparse, hmem, hlink, rfl⟩
  rw [Option.bind_some, hparse] at h
  obtain ⟨content', rfl, hparse'⟩ := Option.bind_eq_some_iff.1 h.symm
  exact ⟨content', values, record, text, rfl, hparse', hmem, hlink, rfl⟩

/-- The second of two appends stops in front of its line end, and the head file contradicts it. -/
theorem nameEntry_retained : ∃ p disk',
    plainLedger.prepare .standard plainBuiltins .plain .none tagEntry.payload onceWritten.2 = .ok p ∧
      disk' = p.line ((encodeUtf8 p.encodedRecord).length - 1) onceWritten.2 ∧
      [digestOf onceWritten].Sublist ((disk'.complete Literal).filterMap hashField) ∧
      ((disk'.complete Literal).map previousField).Nodup := by
  obtain ⟨p, hprepare, -, hstopped⟩ := append_returned twiceWritten_append
  have hready := prepare_eq_ok hprepare
  obtain ⟨text, values, R, L⟩ := hready.layout onceWritten_written.ended
  have hfile : twiceWritten.2.ledger =
      some (onceWritten.2.ledger.getD [] ++ encodeUtf8 p.encodedRecord) := by
    rcases stopped_cases hstopped with ⟨⟨⟩, -⟩ | ⟨n, ⟨⟩, -⟩ | hfile
    exact hfile
  have htexts := (linkTexts_subset (L.parse_unended hfile)).trans twiceWritten_texts
  have honce : linkTexts Literal onceWritten.2.ledger ⊆ bothTexts := by
    refine (append_texts (v := ⟨true, 0, none, none, none⟩) rfl rfl onceWritten_append (Disk.ended_of_none rfl)
      nameEntry_increasing).trans (Set.union_subset ?_ Set.subset_union_left)
    rintro b ⟨content, _, _, _, hcontent, -⟩
    cases hcontent
  have hhead : onceWritten.2.head.isSome = true := by decide +kernel
  have hrun : Run .standard plainBuiltins .plain plainLedger false (fun _ _ _ => none)
      (EndsLine .standard plainBuiltins plainLedger fun _ _ _ => none) bothTexts [digestOf onceWritten]
      (p.line ((encodeUtf8 p.encodedRecord).length - 1) onceWritten.2) :=
    .stopped (fun _ _ _ => .ok none) tagEntry (.line ((encodeUtf8 p.encodedRecord).length - 1))
      (.returned (fun _ _ _ => .ok none) nameEntry .start onceWritten_append honce) hprepare rfl
      (fun _ hunguarded => by rw [hunguarded.head] at hhead; cases hhead) htexts
  exact ⟨p, _, hprepare, rfl,
    (crash_safe .standard plainBuiltins .plain plainLedger false (fun _ _ _ => none) _ bothTexts_injOn).1 _ _ hrun⟩

/-! ## A record without its line end -/

/-- The hash of the record of a first append. -/
def firstHash : Str := "beeec8c8f1a29784f04c16f25ef6edf5c437e4665751312ee30f7d0f95536fcd"

/-- The record of a first append. -/
def firstRecord : Str :=
  "\x7b\"data\": \x7b\"a\": 1\x7d, \"event_type\": \"e\", \"previous_hash\": null, ".toList ++
    "\"record_hash\": \"".toList ++ firstHash ++ "\", ".toList ++
    "\"record_type\": \"runtime_event\", \"timestamp\": \"t\"\x7d".toList

/-- The record of the append after it. -/
def secondRecord : Str :=
  "\x7b\"data\": \x7b\"a\": 1\x7d, \"event_type\": \"e\", ".toList ++
    "\"previous_hash\": \"".toList ++ firstHash ++ "\", ".toList ++
    "\"record_hash\": \"50414c16442ac0e9be6221c13afec60fa237be3f4088dcca683873b7390095bd\", ".toList ++
    "\"record_type\": \"runtime_event\", \"timestamp\": \"t\"\x7d".toList

/-- The disk of a first append that stopped in front of the line end. -/
def tornDisk : Disk := ⟨some (encodeUtf8 firstRecord), none, none, none⟩

/-- The file that the next append leaves. -/
def continuedFile : Bytes := encodeUtf8 (firstRecord ++ (secondRecord ++ ['\n']))

theorem tornDisk_reached : ∃ p,
    plainLedger.prepare .standard plainBuiltins .plain .none nameEntry.payload emptyDisk = .ok p ∧
      p.line ((encodeUtf8 p.encodedRecord).length - 1) emptyDisk = tornDisk := by
  have hstop : (match plainLedger.prepare .standard plainBuiltins .plain .none nameEntry.payload
      emptyDisk with
    | .ok p => decide (p.line ((encodeUtf8 p.encodedRecord).length - 1) emptyDisk = tornDisk)
    | .error _ => false) = true := by decide +kernel
  rcases hprepare : plainLedger.prepare .standard plainBuiltins .plain .none nameEntry.payload
    emptyDisk with e | p
  · rw [hprepare] at hstop
    cases hstop
  · rw [hprepare] at hstop
    exact ⟨p, rfl, of_decide_eq_true hstop⟩

omit [PyFloat F] in
theorem remote_plain : Remote.of false (fun _ _ _ => none) (fun _ _ _ => .ok none) =
    (Remote.none : Remote F) := rfl

theorem write_plain (p : Prepared Literal) (disk : Disk) :
    plainLedger.write .standard .none p disk = (.ok p.recordHash, p.headed disk) := rfl

theorem tornDisk_valid : plainLedger.verify .standard plainBuiltins .none tornDisk =
    .ok ⟨true, 1, none, none, some firstHash⟩ := by
  unfold LedgerOptions.verify LedgerOptions.verifyWith tornDisk
  dsimp only
  rw [decodeUtf8_encodeUtf8]
  decide +kernel

theorem tornDisk_prepared : ∃ p,
    plainLedger.prepare .standard plainBuiltins .plain .none nameEntry.payload tornDisk = .ok p ∧
      p.encodedRecord = secondRecord ++ ['\n'] := by
  have hencode : (match plainLedger.encode .standard .plain .none nameEntry.payload tornDisk
      ⟨true, 1, none, none, some firstHash⟩ with
    | .ok p => decide (p.encodedRecord = secondRecord ++ ['\n'])
    | .error _ => false) = true := by decide +kernel
  rcases hcall : plainLedger.encode .standard .plain .none nameEntry.payload tornDisk
    ⟨true, 1, none, none, some firstHash⟩ with e | p
  · rw [hcall] at hencode
    cases hencode
  · rw [hcall] at hencode
    exact ⟨p, (prepare_of_verify tornDisk_valid).trans hcall, of_decide_eq_true hencode⟩

theorem tornDisk_continued : ∃ x disk,
    plainLedger.append .standard plainBuiltins .plain .none nameEntry tornDisk = (.ok x, disk) ∧
      disk.ledger = some continuedFile := by
  obtain ⟨p, hprepare, hencoded⟩ := tornDisk_prepared
  have happend : ∀ disk, plainLedger.append .standard plainBuiltins .plain .none nameEntry disk =
      plainLedger.appendPayload .standard plainBuiltins .plain .none nameEntry.payload disk :=
    fun _ => rfl
  have hledger : ∀ disk : Disk, (p.headed disk).ledger =
      some (disk.ledger.getD [] ++ encodeUtf8 p.encodedRecord) := fun _ => rfl
  refine ⟨p.recordHash, p.headed tornDisk, ?_, ?_⟩
  · rw [happend, appendPayload_eq, Action.bind_apply, Action.lift_apply, hprepare]
    exact write_plain p tornDisk
  · rw [hledger, continuedFile, encodeUtf8_append, ← hencoded, tornDisk, Option.getD_some]

/-- One record has one text. -/
theorem linkTexts_subsingleton {content : Bytes} {v : Json F}
    (h : parseLedger F content = some [v]) : (linkTexts F (some content)).Subsingleton := by
  rintro b ⟨_, values, record, t, ⟨⟩, hparse, hmem, htext, rfl⟩
    c ⟨_, values', record', u, ⟨⟩, hparse', hmem', htext', rfl⟩
  obtain rfl := Option.some.inj (h.symm.trans hparse)
  obtain rfl := Option.some.inj (h.symm.trans hparse')
  obtain rfl := Json.obj.inj ((List.mem_singleton.1 hmem).trans (List.mem_singleton.1 hmem').symm)
  rw [Option.some.inj (htext.symm.trans htext')]

/-- The next append takes the record for complete and continues its line, and the hash that it
returns is the hash of no complete record. -/
theorem tornDisk_loses : ∃ (T : Set Bytes) (x : Str) (disk : Disk),
    Set.InjOn Crypto.standard.sha256 T ∧
      Run .standard plainBuiltins .plain plainLedger false (fun _ _ _ => none) (fun _ _ _ => True) T
        [x] disk ∧
      ¬ [x].Sublist ((disk.complete Literal).filterMap hashField) := by
  obtain ⟨p, hprepare, hstop⟩ := tornDisk_reached
  obtain ⟨x, disk, happend, hledger⟩ := tornDisk_continued
  have hone : (recordsOf Literal (Str.lines firstRecord)).map List.length = some 1 := by
    decide +kernel
  have hcomplete : (completeOf Literal (Str.lines (firstRecord ++ (secondRecord ++ ['\n'])))).isEmpty
      = true := by decide +kernel
  rw [List.isEmpty_iff] at hcomplete
  obtain ⟨values, hvalues, hlength⟩ := Option.map_eq_some_iff.1 hone
  obtain ⟨v, rfl⟩ := List.length_eq_one_iff.1 hlength
  have hparse : parseLedger Literal (encodeUtf8 firstRecord) = some [v] := by
    rw [parseLedger, decodeUtf8_encodeUtf8, Option.bind_some, hvalues]
  have hempty : linkTexts Literal disk.ledger = ∅ := by
    refine Set.eq_empty_of_forall_notMem ?_
    rintro b ⟨content, values, _, _, hcontent, hparse, hmem, -⟩
    obtain rfl := Option.some.inj (hledger.symm.trans hcontent)
    rw [parseLedger, continuedFile, decodeUtf8_encodeUtf8, Option.bind_some] at hparse
    rw [← completeOf_eq hparse, hcomplete] at hmem
    cases hmem
  refine ⟨linkTexts Literal tornDisk.ledger, x, disk, ?_, ?_, ?_⟩
  · exact fun s hs t ht _ => linkTexts_subsingleton hparse hs ht
  · have hfirst : Run .standard plainBuiltins .plain plainLedger false (fun _ _ _ => none)
        (fun _ _ _ => True) (linkTexts Literal tornDisk.ledger) [] tornDisk :=
      .stopped (fun _ _ _ => .ok none) nameEntry (.line _) .start hprepare
        (congrArg Except.ok hstop) trivial subset_rfl
    have hcall : plainLedger.append .standard plainBuiltins .plain
        (.of false (fun _ _ _ => none) fun _ _ _ => .ok none) nameEntry tornDisk = (.ok x, disk) := by
      rw [remote_plain, happend]
    exact .returned (fun _ _ _ => .ok none) nameEntry hfirst hcall (hempty ▸ Set.empty_subset _)
  · have hdecode : decodeUtf8 (disk.ledger.getD []) =
        some (firstRecord ++ (secondRecord ++ ['\n'])) := by
      rw [hledger]
      exact decodeUtf8_encodeUtf8 _
    rw [complete_of_decode hdecode, hcomplete]
    intro hsub
    cases hsub

end Bulldog.Audit
