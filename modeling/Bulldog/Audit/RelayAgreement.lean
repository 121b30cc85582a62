import Bulldog.Audit.Relay

/-!
# Agreement of a guest, its relay and the collector

Runs of a guest's appends and recoveries in which any of the four messages of a submission may be
lost. The guest writes a new record only where its checkpoint is at the last one, and the checkpoint
is never ahead of the collector, so at most the last record is missing anywhere. The retry of a
frame that the relay has, or of a checkpoint that the collector has, is byte for byte the first try.
-/

namespace Bulldog.Audit

open Anchor

variable {F : Type} [PyFloat F]

namespace Relay

/-! ## The checkpoints on the port -/

/-- The submissions that the records of a ledger make to the relay, from sequence `q` on. -/
def submissions (R : Relay F) : ℕ → Option Str → List (Fields F × Str) → List Submission
  | _, _, [] => []
  | q, previous, (record, hash) :: rs =>
    recordSubmission R.crypto R.ledger.identity.session q hash previous record
      R.ledger.identity.key :: submissions R (q + 1) (some hash) rs

variable {R : Relay F} {rs : List (Fields F × Str)} {x : Fields F × Str} {sub : Submission}
  {e u c i : ℕ} {w : RelayWorld} {net : RelayNetwork}

@[simp] theorem length_submissions (q : ℕ) (previous : Option Str) (rs : List (Fields F × Str)) :
    (R.submissions q previous rs).length = rs.length := by
  induction rs generalizing q previous with
  | nil => rfl
  | cons x rs ih => rw [submissions, List.length_cons, ih, List.length_cons]

theorem submissions_concat (q : ℕ) (previous : Option Str) (rs : List (Fields F × Str))
    (x : Fields F × Str) : R.submissions q previous (rs ++ [x]) = R.submissions q previous rs ++
      [recordSubmission R.crypto R.ledger.identity.session (q + rs.length) x.2
        (lastHash previous rs) x.1 R.ledger.identity.key] := by
  induction rs generalizing q previous with
  | nil => rfl
  | cons y rs ih =>
    rw [List.cons_append, submissions, ih, submissions, lastHash_cons, List.length_cons,
      List.cons_append, Nat.add_assoc, Nat.add_comm 1]

/-- They are a history. -/
theorem history_submissions (rs : List (Fields F × Str)) : History (R.submissions 1 none rs) := by
  induction rs using List.reverseRecOn with
  | nil => exact .nil
  | append_singleton rs x ih =>
    rw [submissions_concat]
    refine history_concat.2 ⟨ih, ?_⟩
    rcases List.eq_nil_or_concat rs with rfl | ⟨init, y, rfl⟩
    · exact ⟨rfl, rfl⟩
    · rw [List.concat_eq_append, submissions_concat, List.getLast?_concat, lastHash_concat]
      refine ⟨?_, rfl⟩
      change 1 + (init ++ [y]).length = 1 + init.length + 1
      rw [List.length_append, List.length_singleton, Nat.add_assoc]

theorem session_submissions {q : ℕ} {previous : Option Str} {rs : List (Fields F × Str)} :
    ∀ sub ∈ R.submissions q previous rs, sub.session = R.ledger.identity.session := by
  induction rs generalizing q previous with
  | nil => exact nofun
  | cons x rs ih =>
    intro sub h
    rcases List.mem_cons.1 h with rfl | h
    · rfl
    · exact ih sub h

/-- A record that a frame can carry. -/
def Fits (record : Fields F) : Prop :=
  (Json.obj record).writable false = true ∧ (recordLine record).length ≤ 60 * 1024

/-- A sealed record makes a checkpoint. -/
theorem recordForm_of_sealed {C : Crypto} {previous : Option Str} {record : Fields F} {hash s : Str}
    {q : ℕ} (h : Sealed C previous record hash) (hfits : Fits record) (hq : q < 10 ^ 7)
    (hs : isHex64 s = true) : RecordForm C s q hash previous record where
  sequence := hq
  session := hs
  head := h.isHex64
  wf := h.wf
  writable := hfits.1
  hash_eq := h.hash_eq
  previous_eq := h.previous_eq
  hashed := by
    obtain ⟨t, ht, hhash⟩ := calculateHash_eq_ok.1 h.calculated
    obtain ⟨-, hrender⟩ := dumps_eq_some.1 ht
    refine ⟨encodeUtf8 t, canonical_eq_ok.2 ⟨t, dumps_eq_some.2 ⟨?_, hrender⟩, rfl⟩, hhash⟩
    have hw := hfits.1
    rw [Json.writable, writableFields_eq_all, List.all_eq_true] at hw ⊢
    exact fun kv hkv => hw kv (List.mem_of_mem_filter hkv)
  short := hfits.2

/-- The `i`-th submission, with the hashes of its record and of the one before it. -/
theorem submission_at (hc : Chained R.crypto none rs) (hfits : ∀ x ∈ rs, Fits x.1)
    (hn : rs.length < 10 ^ 7) (hx : rs[i]? = some x) :
    ∃ previous, RecordForm R.crypto R.ledger.identity.session (i + 1) x.2 previous x.1 ∧
      (R.submissions 1 none rs)[i]? = some (recordSubmission R.crypto R.ledger.identity.session
        (i + 1) x.2 previous x.1 R.ledger.identity.key) := by
  induction rs using List.reverseRecOn with
  | nil => simp at hx
  | append_singleton rs y ih =>
    obtain ⟨hc, hs⟩ := chained_concat.1 hc
    rw [List.length_append, List.length_singleton] at hn
    rw [submissions_concat]
    rcases Nat.lt_or_ge i rs.length with hi | hi
    · rw [List.getElem?_append_left hi] at hx
      rw [List.getElem?_append_left (by rwa [length_submissions])]
      exact ih hc (fun x hx => hfits x (List.mem_append_left _ hx)) (by omega) hx
    · have hi' : i = rs.length := by
        have hlt := (List.getElem?_eq_some_iff.1 hx).1
        rw [List.length_append, List.length_singleton] at hlt
        omega
      subst hi'
      rw [List.getElem?_append_right le_rfl, Nat.sub_self] at hx
      obtain rfl : y = x := by simpa using hx
      refine ⟨lastHash none rs, recordForm_of_sealed hs (hfits y (by simp)) hn
        R.ledger.identity.session_hex, ?_⟩
      rw [List.getElem?_append_right (by rw [length_submissions]), length_submissions, Nat.sub_self,
        Nat.add_comm 1]
      rfl

/-! ## The invariant -/

/-- The ledger has the records `rs`, the relay the first `e` of them, the collector the checkpoints
of the first `u`, and the guest's checkpoint is the acknowledgement of the `c`-th. -/
structure Inv (R : Relay F) (rs : List (Fields F × Str)) (e u c : ℕ) (w : RelayWorld) : Prop where
  disk : R.guest.OnDisk rs c w.disk
  fits : ∀ x ∈ rs, Fits x.1
  evidence : w.evidence = prefixRows (R.submissions 1 none rs) e
  rows : w.rows = R.host.rowsOf rs u
  acknowledged : c ≤ u
  submitted : u ≤ e
  stored : e ≤ rs.length
  behind : rs.length ≤ u + 1
  bound : e ≤ 1000000

theorem Inv.length_lt (h : R.Inv rs e u c w) : rs.length < 10 ^ 7 := by
  have h₁ := h.behind
  have h₂ := h.submitted
  have h₃ := h.bound
  omega

theorem Inv.acknowledged_le (h : R.Inv rs e u c w) : c ≤ rs.length :=
  h.acknowledged.trans (h.submitted.trans h.stored)

theorem Inv.evidence_le (h : R.Inv rs e u c w) : e ≤ (R.submissions 1 none rs).length := by
  rw [length_submissions]
  exact h.stored

section Handle

variable {previous : Option Str} {q : ℕ} {hash : Str} {record : Fields F}

/-- The session of a guest's message is that of the relay. -/
theorem session_message : (Fields.get (recordCheckpoint R.crypto R.ledger.identity.session q hash
    record R.ledger.identity.key).norm "session").bind strOf = some R.upstream.session := by
  rw [Fields.get_norm, R.session_eq]
  rfl

theorem record_message : Fields.get (recordCheckpoint R.crypto R.ledger.identity.session q hash
    record R.ledger.identity.key).norm "record" = some (.obj record.norm) := by
  rw [Fields.get_norm]
  rfl

/-- What the relay makes of the frame of a record: it asks its store, then the collector. -/
theorem handle_apply (hform : RecordForm R.crypto R.ledger.identity.session q hash previous record)
    (hq : 1 ≤ q ∧ q ≤ 1000000) (net : RelayNetwork) (w : RelayWorld) :
    R.handle net (recordSubmission R.crypto R.ledger.identity.session q hash previous record
        R.ledger.identity.key).frame w =
      match R.evidence.accept R.crypto (recordCheckpoint R.crypto R.ledger.identity.session q hash
          record R.ledger.identity.key).norm net.evidenceBytes w.evidence with
      | (.error e, evidence) => (.error e, { w with evidence })
      | (.ok ack, evidence) =>
        match R.host.submit net.upstream q record.norm w.toWorld with
        | (.error e, world) => (.error e, ⟨world, evidence⟩)
        | (.ok _, world) => ((canonical ack).map (· ++ [10]), ⟨world, evidence⟩) := by
  have hsequence : (Fields.get (recordCheckpoint R.crypto R.ledger.identity.session q hash record
      R.ledger.identity.key).norm "sequence").bind sequenceOf = some q := by
    rw [Fields.get_norm]
    change sequenceOf (.int q : Json F) = some q
    rw [sequenceOf, if_pos (by omega), Int.toNat_natCast]
  simp only [Relay.handle, Action.bind_apply, Action.lift_apply, hform.decode_eq, session_message,
    record_message, hsequence, raiseIf, orRaise, ne_eq, not_true_eq_false, if_false,
    Option.isNone_some, Bool.false_eq_true, Action.zoom, Option.bind_some, Setting.dictOf]
  rcases R.evidence.accept R.crypto (recordCheckpoint R.crypto R.ledger.identity.session q hash
    record R.ledger.identity.key).norm net.evidenceBytes w.evidence with ⟨_ | ack, evidence⟩
  · rfl
  · dsimp only
    rcases R.host.submit net.upstream q record.norm w.toWorld with ⟨_ | _, world⟩
    · rfl
    · dsimp only
      rcases canonical ack with _ | _ <;> rfl

/-- A sequence that is too large is refused by the relay's store. -/
theorem handle_refused (hform : RecordForm R.crypto R.ledger.identity.session q hash previous record)
    (hq : 1000000 < q) (net : RelayNetwork) (w : RelayWorld) :
    ∃ e, R.handle net (recordSubmission R.crypto R.ledger.identity.session q hash previous record
      R.ledger.identity.key).frame w = (.error e, w) := by
  obtain ⟨e, he⟩ : ∃ e, R.evidence.examine R.crypto (recordCheckpoint R.crypto
      R.ledger.identity.session q hash record R.ledger.identity.key) = .error e :=
    examine_recordCheckpoint_error hq
  rw [← AnchorStore.examine_norm] at he
  refine ⟨e, ?_⟩
  simp only [Relay.handle, Action.bind_apply, Action.lift_apply, hform.decode_eq, session_message,
    record_message, raiseIf, ne_eq, not_true_eq_false, if_false, Option.isNone_some,
    Bool.false_eq_true, Action.zoom, AnchorStore.accept_error he]

end Handle

/-- The relay on the frame of the `i`-th record. -/
theorem Inv.handle (h : R.Inv rs e u c w) (hx : rs[i]? = some x)
    (hsub : (R.submissions 1 none rs)[i]? = some sub) (net : RelayNetwork) :
    ∃ e' u' result w', R.handle net sub.frame w = (result, w') ∧ R.Inv rs e' u' c w' ∧
      w'.disk = w.disk ∧
      (∀ answer, result = .ok answer → e' = i + 1 ∧ u' = i + 1 ∧ answer =
        ackFrame F R.crypto R.ledger.identity.session (i + 1) x.2 R.ledger.identity.key ++ [10]) ∧
      (rs.length = i + 1 → rs.length ≤ 1000000 →
        net.evidenceBytes + maxFrame + 16384 ≤ R.evidence.maxBytes →
        net.upstream.fate = .delivered →
        net.upstream.pageBytes + maxFrame + 16384 ≤ R.collector.maxBytes →
        ∃ answer, result = .ok answer) := by
  have hn := h.length_lt
  have hi := (List.getElem?_eq_some_iff.1 hx).1
  obtain ⟨hstored, hsubmitted, hbehind, hacked, hbound⟩ :=
    And.intro h.stored (And.intro h.submitted (And.intro h.behind (And.intro h.acknowledged h.bound)))
  obtain ⟨previous, hform, hat⟩ := submission_at h.disk.chained h.fits hn hx
  obtain rfl := Option.some.inj (hsub.symm.trans hat)
  have hframe := (Nat.le_succ _).trans (hform.length_frame R.ledger.identity.key)
  rcases Nat.lt_or_ge 1000000 (i + 1) with hlast | hlast
  · obtain ⟨exc, hexc⟩ := handle_refused hform hlast net w
    exact ⟨e, u, _, w, hexc, h, rfl, nofun, fun hlen hmax => absurd hmax (by omega)⟩
  have hex := hform.examine_eq ⟨Nat.le_add_left 1 i, hlast⟩ R.paired
  rw [← AnchorStore.examine_norm] at hex
  obtain ⟨e', hrows, he', hack, hlive⟩ := accept_prefixRows (history_submissions rs)
    session_submissions h.evidence_le hat hex net.evidenceBytes
  obtain ⟨previous', -, hform', hat'⟩ := R.host.checkpoint_at h.disk.chained hn hx
  have hframe' : _ ≤ maxFrame := hform'.length_frame (F := F) R.host.crypto R.host.ledger.identity.key
  obtain ⟨u', result, hexchange, hu', hanswer, hdelivered⟩ :=
    Setting.exchange_checkpoint (S := R.host) h.disk.chained hn (hsubmitted.trans hstored) hx hat'
      h.rows net.upstream
  have hsubmit := Setting.submit_checkpoint (S := R.host) h.disk.chained hn hx hat' (.inr rfl)
    hexchange fun answer ha => (hanswer answer ha).2
  rw [handle_apply hform ⟨Nat.le_add_left 1 i, hlast⟩, h.evidence]
  rcases haccept : R.evidence.accept R.crypto (recordCheckpoint R.crypto
    R.ledger.identity.session (i + 1) x.2 x.1 R.ledger.identity.key).norm net.evidenceBytes
    (prefixRows (R.submissions 1 none rs) e) with ⟨exc | ack, evidence⟩
  · -- the relay's store refuses
    rw [haccept] at hrows hlive
    refine ⟨e', u, _, { w with evidence }, rfl, ⟨h.disk, h.fits, hrows, h.rows, hacked, ?_, ?_,
      hbehind, ?_⟩, rfl, nofun, fun hlen hmax hbudget => ?_⟩
    · omega
    · omega
    · omega
    · have hnone := hlive (by omega) (by omega)
      have hok := acknowledge_ok (F := F) R.crypto R.ledger.identity.session x.2
        R.ledger.identity.key hform.sequence
      cases hnone.trans hok
  · rw [haccept] at hrows hack
    obtain ⟨he, hackeq⟩ := hack ack rfl
    have hok := acknowledge_ok (F := F) R.crypto R.ledger.identity.session x.2
      R.ledger.identity.key hform.sequence
    obtain rfl := Except.ok.inj (hackeq.symm.trans hok)
    have hcanonical := canonical_ackMessage (F := F) R.crypto R.ledger.identity.session x.2
      R.ledger.identity.key hform.sequence
    unfold Setting.Advances at hu'
    dsimp only
    rw [hsubmit]
    rcases result with exc | answer
    · refine ⟨e', u', _, _, rfl, ⟨h.disk, h.fits, hrows, rfl, ?_, ?_, ?_, ?_, ?_⟩, rfl, nofun,
        fun hlen hmax _ hfate hbudget => ?_⟩
      · omega
      · omega
      · omega
      · omega
      · omega
      · obtain ⟨answer, hanswer'⟩ := hdelivered hfate (by omega) hlast (by
          change net.upstream.pageBytes + _ + 16384 ≤ R.collector.maxBytes
          omega)
        cases hanswer'
    · obtain ⟨hu, -⟩ := hanswer answer rfl
      refine ⟨e', u', _, _, rfl, ⟨h.disk, h.fits, hrows, rfl, ?_, ?_, ?_, ?_, ?_⟩, rfl, ?_, ?_⟩
      · omega
      · omega
      · omega
      · omega
      · omega
      · intro reply hreply
        rw [hcanonical] at hreply
        exact ⟨he, hu, (Except.ok.inj hreply).symm⟩
      · intro _ _ _ _ _
        exact ⟨_, by rw [hcanonical]; rfl⟩

/-! ## The guest's calls -/

/-- A line written to the port, as its caller sees it. -/
theorem exchange_apply (net : RelayNetwork) (line : Bytes) (w : RelayWorld) :
    R.exchange net line w = match net.port with
      | .lost => (.error (anchorError "relay acknowledgement timeout"), w)
      | .delivered => ((R.handle net line w).1.mapError fun _ =>
          anchorError "relay acknowledgement timeout", (R.handle net line w).2)
      | .answerLost => (.error (anchorError "relay acknowledgement timeout"),
          (R.handle net line w).2) := by
  rcases hhandle : R.handle net line w with ⟨_ | answer, w'⟩ <;> unfold exchange <;> cases net.port <;>
    simp [Action.bind_apply, Action.handle, Action.raise, Action.pure_apply, Except.mapError, hhandle]

/-- The line of an answer. -/
theorem readLine_answer {raw : Bytes} (hraw : (10 : UInt8) ∉ raw) (hlen : raw.length ≤ maxFrame) :
    readLine (raw ++ [10]) = .ok raw := by
  have htake : (raw ++ [10]).takeWhile (fun b : UInt8 => decide (b ≠ 10)) = raw := by
    rw [List.takeWhile_append_of_pos]
    · simp
    · intro b hb
      simp only [ne_eq, decide_not, Bool.not_eq_true', decide_eq_false_iff_not]
      rintro rfl
      exact hraw hb
  unfold readLine
  simp only [htake, raiseIf, if_neg (not_lt.2 hlen), List.length_append, List.length_singleton,
    bind, Except.bind, pure, Except.pure]
  rw [if_neg (by omega)]

/-- `RelayAnchorTransport.submit` of the last record. -/
theorem Inv.submit (h : R.Inv rs e u c w) (hi : rs.length = i + 1) (hx : rs[i]? = some x)
    {record : Fields F} (hrecord : record = x.1 ∨ record = x.1.norm) (net : RelayNetwork) :
    ∃ e' u' result w', R.submit net (i + 1) record w = (result, w') ∧ R.Inv rs e' u' c w' ∧
      w'.disk = w.disk ∧
      (∀ ack, result = .ok ack → e' = i + 1 ∧ u' = i + 1 ∧ ack = (R.guest.ackOf i x).norm) ∧
      (net.port = .delivered → rs.length ≤ 1000000 →
        net.evidenceBytes + maxFrame + 16384 ≤ R.evidence.maxBytes →
        net.upstream.fate = .delivered →
        net.upstream.pageBytes + maxFrame + 16384 ≤ R.collector.maxBytes →
        ∃ ack, result = .ok ack) := by
  have hn := h.length_lt
  obtain ⟨previous, hform, hat⟩ := submission_at h.disk.chained h.fits hn hx
  obtain ⟨e', u', result, w', hhandle, hinv, hdisk, hanswer, hlive⟩ := h.handle hx hat net
  -- the frame does not depend on the order of the record's members
  obtain ⟨message, hmessage, hcanonical, hhead⟩ : ∃ message,
      checkpoint R.crypto R.ledger.identity.session (i + 1) record R.ledger.identity.key true =
        .ok message ∧
      canonical message = .ok (recordSubmission R.crypto R.ledger.identity.session (i + 1) x.2
        previous x.1 R.ledger.identity.key).frame ∧
      (record.get "record_hash").bind strOf = some x.2 := by
    rcases hrecord with rfl | rfl
    · exact ⟨_, hform.checkpoint_eq _, hform.canonical_eq _, by rw [hform.hash_eq]; rfl⟩
    · refine ⟨_, hform.norm.checkpoint_eq _, ?_, by rw [hform.norm.hash_eq]; rfl⟩
      rw [hform.norm.canonical_eq, frame_norm]
  have hlen := hform.length_frame R.ledger.identity.key
  have hack := length_ackFrame (F := F) R.crypto R.ledger.identity.key hform.sequence hform.session
    hform.head
  have hread : readLine (ackFrame F R.crypto R.ledger.identity.session (i + 1) x.2
      R.ledger.identity.key ++ [10]) = .ok (ackFrame F R.crypto R.ledger.identity.session (i + 1) x.2
      R.ledger.identity.key) :=
    readLine_answer (not_mem_encodeUtf8 (printable_render false _)) hack
  have hdecode := decode_canonical R.wide (wf_ackMessage R.crypto R.ledger.identity.session (i + 1)
    x.2 R.ledger.identity.key) (canonical_ackMessage (F := F) _ _ _ _ hform.sequence) hack
  have hcheck : R.ledger.identity.checkAck R.crypto (R.guest.ackOf i x).norm (i + 1) x.2 = .ok () :=
    R.guest.checkAck_ackMessage x.2 hform.sequence
  unfold Relay.submit
  simp only [Action.bind_apply, Action.lift_apply, Action.pure_apply, hmessage, hcanonical, raiseIf,
    List.length_append, List.length_singleton, if_neg (not_lt.2 hlen), exchange_apply, hhandle]
  rcases hport : net.port with _ | _ | _
  · rcases result with exc | answer
    · refine ⟨e', u', _, w', rfl, hinv, hdisk, fun _ h => (by cases h), fun _ hmax hb₁ hfate hb₂ => ?_⟩
      obtain ⟨answer, ha⟩ := hlive hi hmax hb₁ hfate hb₂
      cases ha
    · obtain ⟨he, hu, rfl⟩ := hanswer answer rfl
      refine ⟨e', u', .ok (R.guest.ackOf i x).norm, w', ?_, hinv, hdisk, ?_, fun _ _ _ _ _ => ⟨_, rfl⟩⟩
      · change R.ledger.identity.checkAck R.crypto (ackMessage R.crypto R.ledger.identity.session
          (i + 1) x.2 R.ledger.identity.key : Fields F).norm (i + 1) x.2 = .ok () at hcheck
        simp only [Except.mapError, hread, hdecode, hhead, orRaise, hcheck]
        rfl
      · intro ack hok
        exact ⟨he, hu, (Except.ok.inj hok).symm⟩
  · exact ⟨e, u, _, w, rfl, h, rfl, fun _ h => (by cases h), fun h => by cases h⟩
  · exact ⟨e', u', _, w', rfl, hinv, hdisk, fun _ h => (by cases h), fun h => by cases h⟩

/-- `_write_remote_anchor` on the last record. -/
theorem Inv.writeRemoteAnchor (h : R.Inv rs e u c w) (hi : rs.length = i + 1) (hx : rs[i]? = some x)
    {record : Fields F} (hrecord : record = x.1 ∨ record = x.1.norm) (net : RelayNetwork) :
    ∃ e' u' c' result w', R.guest.writeRemoteAnchorOver (R.port net) (i + 1) x.2 record w =
        (result, w') ∧ R.Inv rs e' u' c' w' ∧ w'.disk.ledger = w.disk.ledger ∧
      (result = .ok () → e' = rs.length ∧ u' = rs.length ∧ c' = rs.length) ∧
      (net.port = .delivered → rs.length ≤ 1000000 →
        net.evidenceBytes + maxFrame + 16384 ≤ R.evidence.maxBytes →
        net.upstream.fate = .delivered →
        net.upstream.pageBytes + maxFrame + 16384 ≤ R.collector.maxBytes → result = .ok ()) := by
  obtain ⟨e', u', result, w', hsubmit, hinv, hdisk, hack, hlive⟩ := h.submit hi hx hrecord net
  obtain ⟨previous, hform, -⟩ := submission_at h.disk.chained h.fits h.length_lt hx
  have hport : (R.port net).submit (i + 1) record w = (result, w') := hsubmit
  rcases result with exc | ack
  · refine ⟨e', u', c, .error (.wrapped .auditIntegrityError
      "remote audit anchor delivery failed: " exc), w', ?_, hinv, by rw [hdisk], nofun, ?_⟩
    · simp only [Setting.writeRemoteAnchorOver, Action.handle, Action.bind_apply, hport,
        Action.raise]
    · intro hdelivered hmax hb₁ hfate hb₂
      obtain ⟨ack, ha⟩ := hlive hdelivered hmax hb₁ hfate hb₂
      cases ha
  · obtain ⟨he, hu, rfl⟩ := hack ack rfl
    have hfile : jsonFile (R.guest.ackOf i x).norm =
        .ok (encodeUtf8 (recordLine (R.guest.ackOf i x) ++ ['\n'])) := by
      rw [jsonFile, ← Json.norm_obj, dumps_norm]
      exact jsonFile_eq (Json.writable_mono (writable_ackMessage _ _ _ _ hform.sequence))
    have hcheck : R.guest.ledger.identity.checkAck R.guest.crypto (R.guest.ackOf i x).norm (i + 1)
        x.2 = .ok () := R.guest.checkAck_ackMessage x.2 hform.sequence
    refine ⟨e', u', rs.length, .ok (), (R.port net).setDisk { (R.port net).disk w' with
      remote := some (encodeUtf8 (recordLine (R.guest.ackOf i x) ++ ['\n'])) } w', ?_, ?_, ?_,
      fun _ => ⟨he.trans hi.symm, hu.trans hi.symm, rfl⟩, fun _ _ _ _ _ => rfl⟩
    · simp only [Setting.writeRemoteAnchorOver, Action.handle, Action.bind_apply, Action.lift_apply,
        hport, Action.update, hcheck, hfile]
    · refine ⟨⟨hinv.disk.chained, hinv.disk.ledger, hinv.disk.head, hinv.disk.size, ?_⟩, hinv.fits,
        hinv.evidence, hinv.rows, by omega, hinv.submitted, hinv.stored, hinv.behind, hinv.bound⟩
      rw [hi, Setting.remoteFile, hx]
      rfl
    · have hledger : w'.disk.ledger = w.disk.ledger := by rw [hdisk]
      exact hledger

/-- The local anchor is no part of what the others see. -/
theorem Inv.writeAnchor (h : R.Inv rs e u c w) (net : RelayNetwork) (sequence : ℕ) (head : Str) :
    R.Inv rs e u c (R.guest.writeAnchorOver (R.port net) sequence head w).2 := by
  rw [← Action.wp_state (m := R.guest.writeAnchorOver (R.port net) sequence head)
    (P := R.Inv rs e u c)]
  unfold Setting.writeAnchorOver
  split
  · exact h
  · simp only [Action.wp_bind, Action.wp_lift, Action.wp_update]
    refine ⟨fun _ _ => ⟨fun _ _ => ?_, fun _ _ => h⟩, fun _ _ => h⟩
    exact ⟨⟨h.disk.chained, h.disk.ledger, h.disk.head, h.disk.size, h.disk.remote⟩, h.fits,
      h.evidence, h.rows, h.acknowledged, h.submitted, h.stored, h.behind, h.bound⟩

/-- A record at the end of the guest's ledger. -/
theorem Inv.concat (h : R.Inv rs e u c w) (hu : u = rs.length) (net : RelayNetwork)
    {record : Fields F} {hash : Str} (hsealed : Sealed R.crypto (lastHash none rs) record hash)
    (hfits : Fits record)
    (hsize : (w.disk.ledger.getD []).length + (encodeUtf8 (recordLine record ++ ['\n'])).length ≤
      R.ledger.maxLedgerBytes) :
    R.Inv (rs ++ [(record, hash)]) e u c ((R.port net).setDisk { (R.port net).disk w with
      ledger := some (((R.port net).disk w).ledger.getD [] ++
        encodeUtf8 (recordLine record ++ ['\n']))
      head := some (encodeUtf8 (hash ++ ['\n'])) } w) := by
  have hsubmitted := h.submitted
  have hstored := h.stored
  refine ⟨h.disk.concat h.acknowledged_le hsealed hsize, ?_, ?_, ?_, h.acknowledged, hsubmitted, ?_,
    ?_, h.bound⟩
  · intro x hx
    rcases List.mem_append.1 hx with hx | hx
    · exact h.fits x hx
    · rw [List.mem_singleton.1 hx]
      exact hfits
  · change w.evidence = _
    rw [h.evidence, prefixRows, prefixRows, submissions_concat, List.take_append_of_le_length
      (by rwa [length_submissions])]
  · change w.rows = _
    rw [h.rows, Setting.rowsOf_concat (hsubmitted.trans hstored)]
  · rw [List.length_append, List.length_singleton]
    omega
  · rw [List.length_append, List.length_singleton]
    omega

/-- What the three hold is in order. -/
def Ordered (R : Relay F) (w : RelayWorld) : Prop := ∃ rs e u c, R.Inv rs e u c w

/-- The line of a record that was written is within the framing budget, and so fits a frame. -/
theorem fits_of_sealed {payload record : Fields F} {previous : Option Str} {hash : Str}
    (hw : (Json.obj payload).writable false = true)
    (hsealed : R.guest.sealRecord payload previous = .ok (record, hash))
    (hlen : (encodeUtf8 (recordLine record ++ ['\n'])).length ≤ 60 * 1024) : Fits record := by
  obtain ⟨hash', -, heq⟩ := bind_eq_ok.1 hsealed
  cases heq
  constructor
  · rw [Json.writable, writableFields_eq_all, List.all_eq_true] at hw ⊢
    intro kv hkv
    rcases Fields.mem_set hkv with rfl | hkv
    · rfl
    · rcases Fields.mem_set (List.mem_of_mem_filter hkv) with rfl | hkv
      · cases previous <;> rfl
      · exact hw kv (List.mem_of_mem_filter hkv)
  · rw [encodeUtf8_append, List.length_append] at hlen
    rw [recordLine, length_encodeUtf8_printable (printable_render true _)] at hlen
    exact (Nat.le_add_right _ _).trans hlen

/-- An append. -/
theorem Ordered.append (h : R.Ordered w) (net : RelayNetwork) {payload : Fields F}
    (hwf : (Json.obj payload).WF) (hw : (Json.obj payload).writable false = true) :
    R.Ordered (R.guest.appendPayloadOver (R.port net) payload w).2 := by
  have hordered := h
  obtain ⟨rs, e, u, c, h⟩ := h
  rw [← Action.wp_state (m := R.guest.appendPayloadOver (R.port net) payload) (P := R.Ordered)]
  unfold Setting.appendPayloadOver
  simp only [Action.wp_bind, Action.wp_read, Action.wp_update]
  refine Action.wp_lift_intro (fun v hverify => ?_) fun _ => hordered
  refine Action.wp_lift_intro (fun _ hv => ?_) fun _ => hordered
  refine Action.wp_lift_intro (fun sealedRecord hsealed => ?_) fun _ => hordered
  obtain ⟨record, hash⟩ := sealedRecord
  refine Action.wp_lift_intro (fun encoded hencoded => ?_) fun _ => hordered
  refine Action.wp_lift_intro (fun _ hframe => ?_) fun _ => hordered
  refine Action.wp_lift_intro (fun _ hbudget => ?_) fun _ => hordered
  rw [raiseIf_eq_ok] at hv hbudget hframe
  obtain ⟨hrecords, hhead, hc⟩ :=
    h.disk.verify_valid h.acknowledged_le h.length_lt hverify (by simpa using hv)
  rw [hhead] at hsealed
  have hsealed' := sealRecord_sealed R.guest hwf hsealed
  obtain rfl := Except.ok.inj ((jsonFile_eq hsealed'.writable).symm.trans hencoded)
  have hfits := fits_of_sealed hw hsealed (not_lt.1 hframe)
  have hu : u = rs.length := by
    have h₁ := h.submitted
    have h₂ := h.stored
    have h₃ := h.acknowledged
    omega
  have hinv := (h.concat hu net hsealed' hfits (not_lt.1 hbudget)).writeAnchor net (v.records + 1) hash
  rw [← Action.wp_state (P := R.Inv (rs ++ [(record, hash)]) e u c)] at hinv
  refine Action.wp_mono hinv (fun _ w' hinv => ?_) fun _ w' hinv => ⟨_, _, _, _, hinv⟩
  obtain ⟨e', u', c', result, w'', hwrite, hinv', -⟩ := hinv.writeRemoteAnchor (i := rs.length)
    (by simp) List.getElem?_concat_length (.inl rfl) net
  rw [hrecords]
  unfold Action.wp
  rw [hwrite]
  cases result <;> exact ⟨_, _, _, _, hinv'⟩

/-- A recovery. -/
theorem Inv.reconcileRemote (h : R.Inv rs e u c w) (net : RelayNetwork) :
    ∃ e' u' c' result w', R.guest.reconcileRemoteOver (R.port net) w = (result, w') ∧
      R.Inv rs e' u' c' w' ∧ w'.disk.ledger = w.disk.ledger ∧
      (rs ≠ [] → net.port = .delivered → rs.length ≤ 1000000 →
        net.evidenceBytes + maxFrame + 16384 ≤ R.evidence.maxBytes →
        net.upstream.fate = .delivered →
        net.upstream.pageBytes + maxFrame + 16384 ≤ R.collector.maxBytes →
        result = .ok () ∧ e' = rs.length ∧ u' = rs.length ∧ c' = rs.length) := by
  have hdisk : (R.port net).disk w = w.disk := rfl
  unfold Setting.reconcileRemoteOver
  simp only [Action.bind_apply, Action.read, Action.lift_apply, hdisk]
  by_cases hrs : rs = []
  · subst hrs
    rcases hverify : R.guest.ledger.verifyUnlocked R.guest.crypto R.guest.builtins w.disk true false
      with exc | v
    · exact ⟨e, u, c, _, w, rfl, h, rfl, fun hne => absurd rfl hne⟩
    · have hempty : (!v.valid || v.records == 0) = true := by
        rw [h.disk.verify_empty hverify]
        simp
      simp only [hempty, raiseIf, if_true]
      exact ⟨e, u, c, _, w, rfl, h, rfl, fun hne => absurd rfl hne⟩
  · obtain ⟨i, x, hi, hlast, hx⟩ := Setting.exists_last hrs
    obtain ⟨e', u', c', result, w', hwrite, hinv, hledger, hok, hdelivered⟩ :=
      h.writeRemoteAnchor hi hx (.inr rfl) net
    have hhash : lastHash none rs = some x.2 := by
      rw [lastHash, hlast]
      rfl
    refine ⟨e', u', c', result, w', ?_, hinv, hledger, fun _ hport hmax hb₁ hfate hb₂ =>
      ⟨hdelivered hport hmax hb₁ hfate hb₂, hok (hdelivered hport hmax hb₁ hfate hb₂)⟩⟩
    rw [h.disk.verify_local hrs, h.disk.ledger, if_neg hrs]
    simp only [hi, raiseIf, orRaise, decodeUtf8_encodeUtf8, lines_ledgerText, hhash,
      lastRecord_chained h.disk.chained, hlast, Option.map_some, Option.some_or, Option.bind_some,
      Setting.dictOf, Option.getD_some]
    simpa using hwrite

/-! ## Runs -/

theorem inv_blank (R : Relay F) : R.Inv [] 0 0 0 blank :=
  ⟨⟨trivial, rfl, rfl, Nat.zero_le _, rfl⟩, nofun, rfl, rfl, le_rfl, le_rfl, Nat.zero_le _,
    Nat.zero_le _, Nat.zero_le _⟩

theorem Ordered.perform (h : R.Ordered w) (op : Op F) : R.Ordered (R.perform w op) := by
  cases op with
  | append payload net => exact h.append net payload.2.1 payload.2.2
  | reconcile net =>
    obtain ⟨rs, e, u, c, h⟩ := h
    obtain ⟨e', u', c', result, w', hreconcile, hinv, -⟩ := h.reconcileRemote net
    rw [Relay.perform, hreconcile]
    exact ⟨rs, e', u', c', hinv⟩

/-- A run keeps the invariant. -/
theorem ordered_run (R : Relay F) (ops : List (Op F)) : R.Ordered (R.run ops) := by
  induction ops using List.reverseRecOn with
  | nil => exact ⟨[], 0, 0, 0, R.inv_blank⟩
  | append_singleton ops op ih =>
    rw [run, List.foldl_append]
    exact ih.perform op

/-! ## What the three parties find -/

/-- What a row says of a record. -/
def named (row : Row) : Str × ℕ × Str := (row.session, row.sequence, row.head)

/-- The relay has the guest's records or all but the last, the collector the relay's or all but the
last, and the guest's checkpoint passes for rows of the collector only. -/
structure Agreement (R : Relay F) (records : List (Fields F)) (w : RelayWorld) : Prop where
  records_eq : Setting.records F w.disk = some records
  evidence : ∀ i row, w.evidence[i]? = some row → row.session = R.ledger.identity.session ∧
    row.sequence = i + 1 ∧ ∃ record, records[i]? = some record ∧ R.guest.HashOf record row.head
  evidence_gap : records.length ≤ w.evidence.length + 1
  rows : w.rows.map named <+: w.evidence.map named
  rows_gap : w.evidence.length ≤ w.rows.length + 1
  checkpoint : ∀ s h, R.ledger.checkRemote R.crypto F w.disk s (some h) = .ok () →
    ∃ row ∈ w.rows, named row = (R.ledger.identity.session, s, h)

theorem Inv.length_rows (h : R.Inv rs e u c w) : w.rows.length = u := by
  rw [h.rows, Setting.rowsOf, List.length_map, List.length_take, Setting.length_checkpoints]
  exact min_eq_left (h.submitted.trans h.stored)

theorem Inv.length_evidence (h : R.Inv rs e u c w) : w.evidence.length = e := by
  rw [h.evidence, length_prefixRows h.evidence_le]

theorem Inv.evidence_at (h : R.Inv rs e u c w) (hi : i < e) (hx : rs[i]? = some x) :
    ∃ row, w.evidence[i]? = some row ∧ named row = (R.ledger.identity.session, i + 1, x.2) := by
  obtain ⟨previous, -, hat⟩ := submission_at h.disk.chained h.fits h.length_lt hx
  refine ⟨(recordSubmission R.crypto R.ledger.identity.session (i + 1) x.2 previous x.1
    R.ledger.identity.key).row, ?_, rfl⟩
  rw [h.evidence, prefixRows, List.getElem?_map, List.getElem?_take_of_lt hi, hat]
  rfl

theorem Inv.row_at (h : R.Inv rs e u c w) (hi : i < u) (hx : rs[i]? = some x) :
    ∃ row, w.rows[i]? = some row ∧ named row = (R.ledger.identity.session, i + 1, x.2) := by
  obtain ⟨previous, -, -, hat⟩ := R.host.checkpoint_at h.disk.chained h.length_lt hx
  refine ⟨(hashSubmission F R.crypto R.upstream.session (i + 1) x.2 previous R.upstream.key).row, ?_,
    congrArg (·, i + 1, x.2) R.session_eq⟩
  rw [h.rows, Setting.rowsOf, List.getElem?_map, List.getElem?_take_of_lt hi, hat]
  rfl

theorem Inv.agreement (h : R.Inv rs e u c w) : R.Agreement (rs.map fun x => x.1.norm) w where
  records_eq := h.disk.records_eq
  evidence i row hrow := by
    have hi : i < e := by
      rw [← h.length_evidence]
      exact (List.getElem?_eq_some_iff.1 hrow).1
    obtain ⟨x, hx⟩ : ∃ x, rs[i]? = some x :=
      ⟨_, List.getElem?_eq_getElem (hi.trans_le h.stored)⟩
    obtain ⟨row', hrow', hnamed⟩ := h.evidence_at hi hx
    obtain rfl := Option.some.inj (hrow.symm.trans hrow')
    obtain ⟨hsession, hpair⟩ := Prod.mk.inj hnamed
    obtain ⟨hsequence, hhead⟩ := Prod.mk.inj hpair
    exact ⟨hsession, hsequence, x.1.norm, by rw [List.getElem?_map, hx]; rfl,
      hhead ▸ h.disk.hashOf (List.mem_of_getElem? hx)⟩
  evidence_gap := by
    have h₁ := h.behind
    have h₂ := h.submitted
    rw [h.length_evidence, List.length_map]
    omega
  rows := by
    rw [List.prefix_iff_getElem?]
    intro i hi
    rw [List.length_map, h.length_rows] at hi
    have hsubmitted := h.submitted
    have hstored := h.stored
    obtain ⟨x, hx⟩ : ∃ x, rs[i]? = some x := ⟨_, List.getElem?_eq_getElem (by omega)⟩
    obtain ⟨row, hrow, hnamed⟩ := h.row_at hi hx
    obtain ⟨row', hrow', hnamed'⟩ := h.evidence_at (by omega) hx
    rw [List.getElem?_map, hrow', Option.map_some, hnamed', ← hnamed, List.getElem_map]
    rw [List.getElem?_eq_some_iff] at hrow
    obtain ⟨_, rfl⟩ := hrow
    rfl
  rows_gap := by
    have h₁ := h.behind
    have h₂ := h.stored
    rw [h.length_evidence, h.length_rows]
    omega
  checkpoint s head hcheck := by
    obtain ⟨i, x, hc, rfl, hx, hhead⟩ := h.disk.checkRemote h.acknowledged_le h.length_lt hcheck
    have hacked := h.acknowledged
    obtain ⟨row, hrow, hnamed⟩ := h.row_at (by omega) hx
    obtain rfl : x.2 = head := hhead
    exact ⟨row, List.mem_of_getElem? hrow, hnamed⟩

/-- After any run from empty stores, with any messages lost, the relay holds the guest's records or
all but the last, the collector those of the relay or all but the last, and the guest's checkpoint
passes for rows of the collector only. The relay answers a record's frame only where the collector
has the record, and one recovery whose messages arrive makes the three equal. -/
theorem guest_relay_collector_agreement (R : Relay F) (ops : List (Op F)) :
    ∃ records, R.Agreement records (R.run ops) ∧
      (∀ net i record message frame answer w', records[i]? = some record →
        checkpoint R.crypto R.ledger.identity.session (i + 1) record R.ledger.identity.key true =
          .ok message → canonical message = .ok frame →
        R.handle net frame (R.run ops) = (.ok answer, w') →
        ∃ row ∈ w'.rows, row.session = R.ledger.identity.session ∧ row.sequence = i + 1 ∧
          R.guest.HashOf record row.head) ∧
      (records.length ≤ 1000000 → ∀ net : RelayNetwork, net.port = .delivered →
        net.upstream.fate = .delivered →
        net.evidenceBytes + maxFrame + 16384 ≤ R.evidence.maxBytes →
        net.upstream.pageBytes + maxFrame + 16384 ≤ R.collector.maxBytes →
        ∃ result w', R.guest.reconcileRemoteOver (R.port net) (R.run ops) = (result, w') ∧
          (records ≠ [] → result = .ok ()) ∧ R.Agreement records w' ∧
          w'.evidence.length = records.length ∧ w'.rows.length = records.length ∧
          R.guest.Names w'.disk records records.length) := by
  obtain ⟨rs, e, u, c, h⟩ := R.ordered_run ops
  refine ⟨rs.map fun x => x.1.norm, h.agreement, ?_, ?_⟩
  · intro net i record message frame answer w' hrecord hmessage hframe hhandle
    rw [List.getElem?_map] at hrecord
    obtain ⟨x, hx, rfl⟩ := Option.map_eq_some_iff.1 hrecord
    obtain ⟨previous, hform, hat⟩ := submission_at h.disk.chained h.fits h.length_lt hx
    obtain rfl := Except.ok.inj (hmessage.symm.trans (hform.norm.checkpoint_eq _))
    obtain rfl := Except.ok.inj (hframe.symm.trans (hform.norm.canonical_eq _))
    obtain ⟨e', u', result, w'', hhandle', hinv, -, hanswer, -⟩ := h.handle hx hat net
    rw [frame_norm, hhandle'] at hhandle
    obtain ⟨rfl, rfl⟩ := Prod.mk.inj hhandle
    obtain ⟨-, hu, -⟩ := hanswer answer rfl
    obtain ⟨row, hrow, hnamed⟩ := hinv.row_at (i := i) (by omega) hx
    obtain ⟨hsession, hpair⟩ := Prod.mk.inj hnamed
    obtain ⟨hsequence, hhead⟩ := Prod.mk.inj hpair
    exact ⟨row, List.mem_of_getElem? hrow, hsession, hsequence,
      hhead ▸ h.disk.hashOf (List.mem_of_getElem? hx)⟩
  · intro hmax net hport hfate hb₁ hb₂
    rw [List.length_map] at hmax ⊢
    obtain ⟨e', u', c', result, w', hreconcile, hinv, -, hok⟩ := h.reconcileRemote net
    have hall : e' = rs.length ∧ u' = rs.length ∧ c' = rs.length := by
      by_cases hrs : rs = []
      · have h₁ := hinv.stored
        have h₂ := hinv.submitted
        have h₃ := hinv.acknowledged
        rw [hrs, List.length_nil] at h₁ ⊢
        omega
      · exact (hok hrs hport hmax hb₁ hfate hb₂).2
    obtain ⟨rfl, rfl, rfl⟩ := hall
    refine ⟨result, w', hreconcile, fun hne => ?_, hinv.agreement, hinv.length_evidence,
      hinv.length_rows, hinv.disk.names le_rfl hinv.length_lt⟩
    exact (hok (fun hnil => hne (by rw [hnil]; rfl)) hport hmax hb₁ hfate hb₂).1

end Relay

end Bulldog.Audit
