import Bulldog.Anchor.History
import Bulldog.Audit.Records
import Bulldog.Audit.Verify

/-!
# The ledger and its collector

The ledger file, the local checkpoint of the last acknowledgement, and the collector's rows advance
one after the other, and any of the messages between them may be lost or repeated. The collector
then has the checkpoints of all the ledger's records or of all but the last, and the local
checkpoint is behind it. A retry of the last checkpoint is byte for byte the frame of the first try,
so one `reconcile_remote` whose messages arrive brings all three together.
-/

namespace Bulldog.Audit

open Anchor

variable {F : Type} [PyFloat F]

namespace Setting

variable (S : Setting F)

/-! ## The checkpoints of a ledger -/

/-- The submissions that the records of a ledger make, from sequence `q` on. -/
def checkpoints : ℕ → Option Str → List (Fields F × Str) → List Submission
  | _, _, [] => []
  | q, previous, (_, hash) :: rs =>
    hashSubmission F S.crypto S.ledger.identity.session q hash previous S.ledger.identity.key ::
      checkpoints (q + 1) (some hash) rs

@[simp] theorem length_checkpoints (q : ℕ) (previous : Option Str) (rs : List (Fields F × Str)) :
    (S.checkpoints q previous rs).length = rs.length := by
  induction rs generalizing q previous with
  | nil => rfl
  | cons x rs ih => rw [checkpoints, List.length_cons, ih, List.length_cons]

theorem checkpoints_concat (q : ℕ) (previous : Option Str) (rs : List (Fields F × Str))
    (x : Fields F × Str) : S.checkpoints q previous (rs ++ [x]) = S.checkpoints q previous rs ++
      [hashSubmission F S.crypto S.ledger.identity.session (q + rs.length) x.2
        (lastHash previous rs) S.ledger.identity.key] := by
  induction rs generalizing q previous with
  | nil => rfl
  | cons y rs ih =>
    rw [List.cons_append, checkpoints, ih, checkpoints, lastHash_cons, List.length_cons,
      List.cons_append, Nat.add_assoc, Nat.add_comm 1]

/-- The checkpoints of a ledger are a history. -/
theorem history_checkpoints (rs : List (Fields F × Str)) : History (S.checkpoints 1 none rs) := by
  induction rs using List.reverseRecOn with
  | nil => exact .nil
  | append_singleton rs x ih =>
    rw [checkpoints_concat]
    refine history_concat.2 ⟨ih, ?_⟩
    rcases List.eq_nil_or_concat rs with rfl | ⟨init, y, rfl⟩
    · exact ⟨rfl, rfl⟩
    · rw [List.concat_eq_append, checkpoints_concat, List.getLast?_concat, lastHash_concat]
      refine ⟨?_, rfl⟩
      change 1 + (init ++ [y]).length = 1 + init.length + 1
      rw [List.length_append, List.length_singleton, Nat.add_assoc]

theorem mem_checkpoints {q : ℕ} {previous : Option Str} {rs : List (Fields F × Str)}
    {sub : Submission} (h : sub ∈ S.checkpoints q previous rs) :
    sub.session = S.ledger.identity.session := by
  induction rs generalizing q previous with
  | nil => cases h
  | cons x rs ih =>
    rcases List.mem_cons.1 h with rfl | h
    · rfl
    · exact ih h

/-- The latest row of the collector when it has the first `k` checkpoints. -/
theorem latest_take (rs : List (Fields F × Str)) (k : ℕ) :
    latest (((S.checkpoints 1 none rs).take k).map Submission.row) S.ledger.identity.session =
      ((S.checkpoints 1 none rs).take k).getLast?.map Submission.row := by
  have hfilter : ((S.checkpoints 1 none rs).take k).filter
      (·.session = S.ledger.identity.session) = (S.checkpoints 1 none rs).take k :=
    List.filter_eq_self.2 fun sub hsub =>
      decide_eq_true (S.mem_checkpoints (List.mem_of_mem_take hsub))
  have hist := (S.history_checkpoints rs).take k
  rw [latest_map (by rwa [hfilter]), hfilter]

/-- The rows of a collector that has the first `k` checkpoints. -/
def rowsOf (rs : List (Fields F × Str)) (k : ℕ) : List Row :=
  ((S.checkpoints 1 none rs).take k).map Submission.row

/-- The `i`-th checkpoint, with the hashes of its record and of the one before it. -/
theorem checkpoint_at {rs : List (Fields F × Str)} (hc : Chained S.crypto none rs)
    (hn : rs.length < 10 ^ 7) {i : ℕ} {x : Fields F × Str} (hx : rs[i]? = some x) :
    ∃ previous, Sealed S.crypto previous x.1 x.2 ∧
      HashForm S.ledger.identity.session (i + 1) x.2 previous ∧
      (S.checkpoints 1 none rs)[i]? = some (hashSubmission F S.crypto S.ledger.identity.session
        (i + 1) x.2 previous S.ledger.identity.key) := by
  induction rs using List.reverseRecOn with
  | nil => simp at hx
  | append_singleton rs y ih =>
    obtain ⟨hc, hs⟩ := chained_concat.1 hc
    rw [List.length_append, List.length_singleton] at hn
    rw [checkpoints_concat]
    rcases Nat.lt_or_ge i rs.length with hi | hi
    · rw [List.getElem?_append_left hi] at hx
      rw [List.getElem?_append_left (by rwa [length_checkpoints])]
      exact ih hc (by omega) hx
    · have hi' : i = rs.length := by
        have hlt := (List.getElem?_eq_some_iff.1 hx).1
        rw [List.length_append, List.length_singleton] at hlt
        omega
      subst hi'
      rw [List.getElem?_append_right le_rfl, Nat.sub_self] at hx
      obtain rfl : y = x := by simpa using hx
      refine ⟨lastHash none rs, hs, ⟨hn, S.ledger.identity.session_hex, hs.isHex64, ?_⟩, ?_⟩
      · intro p hp
        rcases List.eq_nil_or_concat rs with rfl | ⟨init, z, rfl⟩
        · cases hp
        · rw [List.concat_eq_append, lastHash_concat] at hp
          cases hp
          obtain ⟨_, hz⟩ := hc.sealed z (by simp)
          exact hz.isHex64
      · rw [List.getElem?_append_right (by rw [length_checkpoints]), length_checkpoints, Nat.sub_self,
          Nat.add_comm 1]
        rfl

theorem post_apply {raw : Bytes} {message : Fields F} (hne : raw ≠ [])
    (hlen : raw.length ≤ maxFrame) (hdecode : decode S.wide raw = .ok message) (pageBytes : ℕ)
    (rows : List Row) : S.post raw pageBytes rows =
      match S.store.accept S.crypto message pageBytes rows with
      | (.ok ack, rows') => (canonical ack, rows')
      | (.error e, rows') => (.error e, rows') := by
  have hframe : ¬ (raw.length = 0 ∨ raw.length > maxFrame) := by
    rw [not_or, List.length_eq_zero_iff, not_lt]
    exact ⟨hne, hlen⟩
  simp only [post, Action.bind_apply, Action.lift_apply, raiseIf, if_neg hframe, hdecode]
  rcases S.store.accept S.crypto message pageBytes rows with ⟨_ | _, _⟩ <;> rfl

theorem rowsOf_succ {rs : List (Fields F × Str)} {k : ℕ} {sub : Submission}
    (hsub : (S.checkpoints 1 none rs)[k]? = some sub) :
    S.rowsOf rs (k + 1) = S.rowsOf rs k ++ [sub.row] := by
  rw [rowsOf, rowsOf, List.take_add_one, hsub, List.map_append]
  rfl

/-- The latest row of a collector that has some checkpoints. -/
theorem latest_rowsOf {rs : List (Fields F × Str)} {k : ℕ} {sub : Submission}
    (hsub : (S.checkpoints 1 none rs)[k]? = some sub) :
    latest (S.rowsOf rs (k + 1)) S.ledger.identity.session = some sub.row := by
  rw [rowsOf, latest_take, List.take_add_one, hsub, Option.toList_some, List.getLast?_concat]
  rfl

/-- Of the checkpoints of a ledger, the next one for its collector is the one that comes next. -/
theorem next_iff {rs : List (Fields F × Str)} {k i : ℕ} (hk : k ≤ rs.length) {sub : Submission}
    (hsub : (S.checkpoints 1 none rs)[i]? = some sub) :
    sub.Next (latest (S.rowsOf rs k) S.ledger.identity.session) ↔ i = k := by
  have hist := S.history_checkpoints rs
  constructor
  · intro hnext
    have hseq := hist.sequence_at hsub
    have hn := hnext.1
    rcases k with _ | k
    · change sub.sequence = 1 at hn
      omega
    · obtain ⟨last, hlast⟩ : ∃ last, (S.checkpoints 1 none rs)[k]? = some last :=
        ⟨_, List.getElem?_eq_getElem (by rw [length_checkpoints]; omega)⟩
      rw [S.latest_rowsOf hlast] at hn
      have hlastSeq := hist.sequence_at hlast
      change sub.sequence = last.sequence + 1 at hn
      omega
  · rintro rfl
    have htake := hist.take (i + 1)
    rw [List.take_add_one, hsub, Option.toList_some] at htake
    rw [rowsOf, latest_take]
    exact (history_concat.1 htake).2

/-- And the one that is a retry is the one it has last. -/
theorem retry_iff {rs : List (Fields F × Str)} {k i : ℕ} (hk : k ≤ rs.length) {sub : Submission}
    (hsub : (S.checkpoints 1 none rs)[i]? = some sub) :
    sub.Retry (latest (S.rowsOf rs k) S.ledger.identity.session) ↔ i + 1 = k := by
  have hist := S.history_checkpoints rs
  constructor
  · rintro ⟨row, hrow, hseq, -⟩
    rcases k with _ | k
    · cases hrow
    · obtain ⟨last, hlast⟩ : ∃ last, (S.checkpoints 1 none rs)[k]? = some last :=
        ⟨_, List.getElem?_eq_getElem (by rw [length_checkpoints]; omega)⟩
      rw [S.latest_rowsOf hlast] at hrow
      cases hrow
      have h₁ := hist.sequence_at hlast
      have h₂ := hist.sequence_at hsub
      change sub.sequence = last.sequence at hseq
      omega
  · rintro rfl
    exact ⟨sub.row, S.latest_rowsOf hsub, rfl, rfl⟩

/-- What the collector does with the frame of the `i`-th checkpoint when it has the first `k`. -/
theorem post_checkpoint {rs : List (Fields F × Str)} (hc : Chained S.crypto none rs)
    (hn : rs.length < 10 ^ 7) {k i : ℕ} (hk : k ≤ rs.length) {x : Fields F × Str}
    (hx : rs[i]? = some x) {sub : Submission} (hsub : (S.checkpoints 1 none rs)[i]? = some sub)
    (pageBytes : ℕ) :
    (i + 1 = k ∧ k ≤ 1000000 ∧ S.post sub.frame pageBytes (S.rowsOf rs k) =
        (.ok (ackFrame F S.crypto S.ledger.identity.session (i + 1) x.2 S.ledger.identity.key),
          S.rowsOf rs k)) ∨
      (i = k ∧ k + 1 ≤ 1000000 ∧ S.post sub.frame pageBytes (S.rowsOf rs k) =
        (.ok (ackFrame F S.crypto S.ledger.identity.session (i + 1) x.2 S.ledger.identity.key),
          S.rowsOf rs (k + 1))) ∨
      ((i + 1 ≤ 1000000 → pageBytes + sub.frame.length + 16384 ≤ S.store.maxBytes →
          i + 1 ≠ k ∧ i ≠ k) ∧
        ∃ e, S.post sub.frame pageBytes (S.rowsOf rs k) = (.error e, S.rowsOf rs k)) := by
  obtain ⟨previous, hsealed, hform, hat⟩ := S.checkpoint_at hc hn hx
  obtain rfl := Option.some.inj (hsub.symm.trans hat)
  have hpost := S.post_apply (frame_ne_nil S.crypto _ _ _ _ _) (hform.length_frame (F := F) S.crypto _)
    (hform.decode_eq S.crypto S.ledger.identity.key S.wide) pageBytes (S.rowsOf rs k)
  rcases Nat.lt_or_ge 1000000 (i + 1) with hi | hi
  · obtain ⟨e, he⟩ : ∃ e, S.store.examine S.crypto (hashCheckpoint S.crypto
        S.ledger.identity.session (i + 1) x.2 previous S.ledger.identity.key : Fields F) = .error e :=
      examine_hashCheckpoint_error hi
    rw [← AnchorStore.examine_norm] at he
    refine .inr (.inr ⟨fun h => absurd h (by omega), e, ?_⟩)
    rw [hpost, AnchorStore.accept_error he]
  · have hex := hform.examine_eq (F := F) ⟨by omega, hi⟩ S.paired
    rw [← AnchorStore.examine_norm] at hex
    have hack := acknowledge_ok (F := F) S.crypto S.ledger.identity.session x.2
      S.ledger.identity.key hform.sequence
    have hframe := canonical_ackMessage (F := F) S.crypto S.ledger.identity.session x.2
      S.ledger.identity.key hform.sequence
    rcases AnchorStore.accept_cases hex pageBytes (S.rowsOf rs k) with
      ⟨hretry, ha⟩ | ⟨hretry, hnext, hb, ha⟩ | ⟨hretry, hb, e, ha⟩
    · have hk' := (S.retry_iff hk hat).1 hretry
      refine .inl ⟨hk', by omega, ?_⟩
      rw [hpost, ha.trans (congrArg (·, _) hack)]
      exact Prod.ext hframe rfl
    · have hk' := (S.next_iff hk hat).1 hnext
      refine .inr (.inl ⟨hk', by omega, ?_⟩)
      rw [hpost, ha.trans (congrArg (·, _) hack), ← hk', S.rowsOf_succ hat]
      exact Prod.ext hframe rfl
    · refine .inr (.inr ⟨fun _ hbudget => ⟨fun h => hretry ((S.retry_iff hk hat).2 h), fun h => ?_⟩,
        e, by rw [hpost, ha]⟩)
      exact absurd (hb ((S.next_iff hk hat).2 h)) (not_lt.2 hbudget)

/-! ## Files and acknowledgements -/

/-- The `.remote` file after the acknowledgement of the `c`-th record. -/
def remoteFile (rs : List (Fields F × Str)) : ℕ → Option Bytes
  | 0 => none
  | c + 1 => rs[c]?.map fun x => encodeUtf8 (recordLine (ackMessage (F := F) S.crypto
      S.ledger.identity.session (c + 1) x.2 S.ledger.identity.key) ++ ['\n'])

/-- An acknowledgement is one of its own sequence and head. -/
theorem checkAck_ackMessage {q : ℕ} (h : Str) (hq : q < 10 ^ 7) :
    S.ledger.identity.checkAck S.crypto (ackMessage S.crypto S.ledger.identity.session q h
      S.ledger.identity.key : Fields F).norm q h = .ok () := by
  simp only [AnchorIdentity.checkAck, bind_eq_ok, raiseIf_eq_ok]
  refine ⟨(), ?_, ackBody F S.ledger.identity.session q h, ?_, _, canonical_ackFields _ h hq, ?_⟩
  · rw [verify_norm]
    exact verify_eq_ok.2 ⟨_, macOf_eq_ok.2 ⟨_, canonical_ackFields _ h hq, rfl⟩, rfl⟩
  · rw [← Fields.erase_norm, canonical_norm, erase_ackMessage]
    exact canonical_ackFields _ h hq
  · simp

/-- And of no other sequence or head. -/
theorem eq_of_checkAck {q n : ℕ} {h h' : Str}
    (hcheck : S.ledger.identity.checkAck S.crypto (ackMessage S.crypto S.ledger.identity.session q h
      S.ledger.identity.key : Fields F).norm n h' = .ok ()) : q = n ∧ h = h' := by
  simp only [AnchorIdentity.checkAck, bind_eq_ok, raiseIf_eq_ok, not_not] at hcheck
  obtain ⟨-, -, body, hbody, expected, hexpected, rfl⟩ := hcheck
  rw [← Fields.erase_norm, canonical_norm, erase_ackMessage] at hbody
  have hnorm := (canonical_eq_iff hbody).1 hexpected
  have hsequence := congrArg (Fields.get · "sequence".toList) hnorm
  have hhead := congrArg (Fields.get · "head_hash".toList) hnorm
  simp only [Fields.get_norm] at hsequence hhead
  have hint : (some (.int (n : ℤ)) : Option (Json F)) = some (.int (q : ℤ)) := hsequence
  have hstr : (some (.str h') : Option (Json F)) = some (.str h) := hhead
  exact ⟨by simpa using hint.symm, by simpa using hstr.symm⟩

/-- What `_append_payload` finds on the disk. -/
structure OnDisk (rs : List (Fields F × Str)) (c : ℕ) (disk : Disk) : Prop where
  chained : Chained S.crypto none rs
  ledger : disk.ledger = if rs = [] then none else some (encodeUtf8 (ledgerText rs))
  head : disk.head = rs.getLast?.map fun x => encodeUtf8 (x.2 ++ ['\n'])
  size : (encodeUtf8 (ledgerText rs)).length ≤ S.ledger.maxLedgerBytes
  remote : disk.remote = S.remoteFile rs c

variable {S}

/-- The local checkpoint passes only for the record that it names. -/
theorem OnDisk.checkRemote {rs : List (Fields F × Str)} {c : ℕ} {disk : Disk}
    (h : S.OnDisk rs c disk) (hc : c ≤ rs.length) (hn : rs.length < 10 ^ 7) {n : ℕ}
    {head : Option Str} (hcheck : S.ledger.checkRemote S.crypto F disk n head = .ok ()) :
    ∃ i x, c = i + 1 ∧ n = i + 1 ∧ rs[i]? = some x ∧ x.2 = head.getD [] := by
  simp only [AuditLedger.checkRemote, bind_eq_ok, orRaise_eq_ok] at hcheck
  obtain ⟨file, hfile, text, htext, value, hvalue, hcheck⟩ := hcheck
  rw [h.remote] at hfile
  rcases c with _ | c
  · cases hfile
  · obtain ⟨x, hx, rfl⟩ := Option.map_eq_some_iff.1 hfile
    rw [readText_jsonFile] at htext
    cases htext
    rw [loads_jsonFile (wf_ackMessage _ _ _ _ _)
      (Json.writable_mono (writable_ackMessage _ _ _ _ (by omega)))] at hvalue
    cases hvalue
    obtain ⟨hsequence, hhead⟩ := eq_of_checkAck S hcheck
    exact ⟨c, x, rfl, hsequence.symm, hx, hhead⟩

/-- A valid ledger is one whose local checkpoint is at its last record. -/
theorem OnDisk.verify_valid {rs : List (Fields F × Str)} {c : ℕ} {disk : Disk}
    (h : S.OnDisk rs c disk) (hc : c ≤ rs.length) (hn : rs.length < 10 ^ 7)
    {v : AuditVerification}
    (hverify : S.ledger.verifyUnlocked S.crypto S.builtins disk true true = .ok v)
    (hv : v.valid = true) :
    v.records = rs.length ∧ v.headHash = lastHash none rs ∧ c = rs.length := by
  unfold AuditLedger.verifyUnlocked LedgerOptions.verifyWith at hverify
  rw [h.ledger] at hverify
  by_cases hrs : rs = []
  · subst hrs
    obtain ⟨checkpoint, -, hverify⟩ := bind_eq_ok.1 hverify
    have hc : c = 0 := Nat.le_zero.1 hc
    split at hverify
    · cases hverify
      cases hv
    split at hverify
    · cases hverify
      cases hv
    · cases hverify
      exact ⟨rfl, rfl, hc⟩
  · simp only [if_neg hrs, if_neg (not_lt.2 h.size), decodeUtf8_encodeUtf8, orRaise,
      lines_ledgerText, verifyLines_chained h.chained, bind, Except.bind, Nat.zero_add] at hverify
    obtain ⟨rfl, hchecked⟩ := verifyCheckpoints_valid.1 ⟨hverify, hv⟩
    refine ⟨rfl, rfl, ?_⟩
    have hremote := hchecked.remote rfl
    unfold AuditLedger.verifyRemoteCheckpoint at hremote
    rw [if_neg fun hz => hrs (List.length_eq_zero_iff.1 hz.1)] at hremote
    split at hremote
    · cases hremote
    · next hcheck =>
      obtain ⟨i, x, hc, hn, -⟩ := h.checkRemote hc hn hcheck
      omega

/-- Without the anchors the files of a ledger are always in order. -/
theorem OnDisk.verify_local {rs : List (Fields F × Str)} {c : ℕ} {disk : Disk}
    (h : S.OnDisk rs c disk) (hrs : rs ≠ []) :
    S.ledger.verifyUnlocked S.crypto S.builtins disk true false =
      .ok ⟨true, rs.length, none, none, lastHash none rs⟩ := by
  obtain ⟨init, x, rfl⟩ : ∃ init x, rs = init ++ [x] := by
    rcases List.eq_nil_or_concat rs with hnil | ⟨init, x, hx⟩
    · exact absurd hnil hrs
    · exact ⟨init, x, hx.trans List.concat_eq_append⟩
  obtain ⟨-, hsealed⟩ := chained_concat.1 h.chained
  have hhead : disk.headText true = .ok (some x.2) := by
    refine headText_digest hsealed.isHex64 ?_
    rw [h.head, List.getLast?_concat]
    rfl
  unfold AuditLedger.verifyUnlocked LedgerOptions.verifyWith
  rw [h.ledger]
  simp only [if_neg hrs, if_neg (not_lt.2 h.size), decodeUtf8_encodeUtf8, orRaise,
    lines_ledgerText, verifyLines_chained h.chained, bind, Except.bind, Nat.zero_add,
    LedgerOptions.verifyCheckpoints, hhead, lastHash_concat]
  simp [pure, Except.pure]

theorem OnDisk.verify_empty {c : ℕ} {disk : Disk} (h : S.OnDisk [] c disk)
    {v : AuditVerification}
    (hverify : S.ledger.verifyUnlocked S.crypto S.builtins disk true false = .ok v) :
    v.records = 0 := by
  unfold AuditLedger.verifyUnlocked LedgerOptions.verifyWith at hverify
  rw [h.ledger] at hverify
  obtain ⟨checkpoint, -, hverify⟩ := bind_eq_ok.1 hverify
  split at hverify
  · cases hverify
    rfl
  split at hverify
  · cases hverify
    rfl
  · cases hverify
    rfl

end Setting

end Bulldog.Audit
