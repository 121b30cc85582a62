import Bulldog.Audit.Delivery

/-!
# Agreement of a ledger and its collector

Runs of appends, recoveries and replays from empty stores. Every frame that was ever sent is the
checkpoint of a record that is still in the ledger, so a replay can only bring the collector
forward, and a new record is written only where the collector has all the records before it. A call
touches the collector in one exchange and in no other place, so a replay in the middle of a call is
one before or after it.
-/

namespace Bulldog.Audit

open Anchor

variable {F : Type} [PyFloat F]

namespace Setting

variable {S : Setting F} {rs : List (Fields F × Str)} {k c i : ℕ} {x : Fields F × Str}
  {sub : Submission} {w : World} {net : Network}

/-! ## One submission -/

/-- What the collector has after it got the frame of the `i`-th checkpoint. -/
def Advances (k i k' : ℕ) : Prop :=
  k' = k ∨ (i = k ∧ k' = k + 1 ∧ k' ≤ 1000000)

/-- The acknowledgement of the `i`-th record. -/
def ackOf (S : Setting F) (i : ℕ) (x : Fields F × Str) : Fields F :=
  ackMessage S.crypto S.ledger.identity.session (i + 1) x.2 S.ledger.identity.key

/-- What a request does: the collector sees it unless it is lost, and all but one of its ends are an
`OSError` to the caller. -/
theorem exchange_apply (S : Setting F) (net : Network) (frame : Bytes) (w : World) :
    S.exchange net frame w = match net.fate with
      | .lost => (.error (.builtin .osError), { w with sent := w.sent ++ [frame] })
      | .delivered => ((S.post frame net.pageBytes w.rows).1.mapError fun _ => .builtin .osError,
          { w with sent := w.sent ++ [frame], rows := (S.post frame net.pageBytes w.rows).2 })
      | .answerLost => (.error (.builtin .osError),
          { w with sent := w.sent ++ [frame], rows := (S.post frame net.pageBytes w.rows).2 }) := by
  obtain ⟨fate, pageBytes⟩ := net
  rcases hpost : S.post frame pageBytes w.rows with ⟨_ | answer, rows⟩ <;> cases fate <;>
    simp [exchange, Action.bind_apply, Action.update, Action.handle, Action.zoom, Action.raise,
      Action.pure_apply, Except.mapError, hpost]

/-- A request with the frame of the `i`-th checkpoint. -/
theorem exchange_checkpoint (hc : Chained S.crypto none rs) (hn : rs.length < 10 ^ 7)
    (hk : k ≤ rs.length) (hx : rs[i]? = some x)
    (hsub : (S.checkpoints 1 none rs)[i]? = some sub) (hrows : w.rows = S.rowsOf rs k)
    (net : Network) :
    ∃ k' result, S.exchange net sub.frame w =
        (result, { w with sent := w.sent ++ [sub.frame], rows := S.rowsOf rs k' }) ∧
      Advances k i k' ∧
      (∀ answer, result = .ok answer → k' = i + 1 ∧
        answer = ackFrame F S.crypto S.ledger.identity.session (i + 1) x.2 S.ledger.identity.key) ∧
      (net.fate = .delivered → i + 1 = k ∨ i = k → i + 1 ≤ 1000000 →
        net.pageBytes + sub.frame.length + 16384 ≤ S.store.maxBytes →
        ∃ answer, result = .ok answer) := by
  rw [exchange_apply, hrows]
  rcases S.post_checkpoint hc hn hk hx hsub net.pageBytes with
    ⟨hi, hk', hp⟩ | ⟨hi, hk', hp⟩ | ⟨hi, e, hp⟩ <;> rw [hp] <;> cases net.fate
  · exact ⟨k, _, rfl, .inl rfl, fun answer h => ⟨hi.symm, by cases h; rfl⟩,
      fun _ _ _ _ => ⟨_, rfl⟩⟩
  · exact ⟨k, .error (.builtin .osError), by rw [← hrows], .inl rfl, nofun, nofun⟩
  · exact ⟨k, _, rfl, .inl rfl, nofun, nofun⟩
  · exact ⟨k + 1, _, rfl, .inr ⟨hi, rfl, hk'⟩, fun answer h => ⟨by rw [hi], by cases h; rfl⟩,
      fun _ _ _ _ => ⟨_, rfl⟩⟩
  · exact ⟨k, .error (.builtin .osError), by rw [← hrows], .inl rfl, nofun, nofun⟩
  · exact ⟨k + 1, _, rfl, .inr ⟨hi, rfl, hk'⟩, nofun, nofun⟩
  · refine ⟨k, _, rfl, .inl rfl, nofun, fun _ hik hlast hbudget => ?_⟩
    have hne := hi hlast hbudget
    omega
  · exact ⟨k, .error (.builtin .osError), by rw [← hrows], .inl rfl, nofun, nofun⟩
  · exact ⟨k, _, rfl, .inl rfl, nofun, nofun⟩

/-- What `submit` makes of the answer to the `i`-th checkpoint. -/
theorem submit_checkpoint (hc : Chained S.crypto none rs) (hn : rs.length < 10 ^ 7)
    (hx : rs[i]? = some x) (hsub : (S.checkpoints 1 none rs)[i]? = some sub) {record : Fields F}
    (hrecord : record = x.1 ∨ record = x.1.norm) {result : Except Exc Bytes} {w' : World}
    (hexchange : S.exchange net sub.frame w = (result, w'))
    (hanswer : ∀ answer, result = .ok answer →
      answer = ackFrame F S.crypto S.ledger.identity.session (i + 1) x.2 S.ledger.identity.key) :
    S.submit net (i + 1) record w = (result.map fun _ => (S.ackOf i x).norm, w') := by
  obtain ⟨previous, hsealed, hform, hat⟩ := S.checkpoint_at hc hn hx
  obtain rfl := Option.some.inj (hsub.symm.trans hat)
  have hhead : record.get "record_hash" = some (.str x.2) := by
    rcases hrecord with rfl | rfl
    · exact hsealed.hash_eq
    · rw [Fields.get_norm, hsealed.hash_eq]
      rfl
  have hprevious : record.get "previous_hash" = some (previousJson previous) := by
    rcases hrecord with rfl | rfl
    · exact hsealed.previous_eq
    · rw [Fields.get_norm, hsealed.previous_eq]
      cases previous <;> rfl
  simp only [submit, Action.bind_apply, Action.lift_apply, Action.pure_apply,
    hform.checkpoint_eq S.crypto S.ledger.identity.key hhead hprevious,
    hform.canonical_eq S.crypto S.ledger.identity.key, raiseIf,
    if_neg (not_lt.2 (hform.length_frame (F := F) S.crypto S.ledger.identity.key)), hexchange]
  rcases result with e | answer
  · rfl
  · obtain rfl := hanswer answer rfl
    have hlen := length_ackFrame (F := F) S.crypto S.ledger.identity.key hform.sequence hform.session
      hform.head
    have hdecode := decode_canonical S.wide (wf_ackMessage S.crypto S.ledger.identity.session (i + 1)
      x.2 S.ledger.identity.key) (canonical_ackMessage (F := F) _ _ _ _ hform.sequence) hlen
    simp only [List.take_of_length_le (Nat.le_succ_of_le hlen), hdecode, hhead, orRaise, Option.bind_some, strOf,
      S.checkAck_ackMessage x.2 hform.sequence]
    rfl

/-! ## The invariant -/

/-- The ledger has the records `rs`, the collector the checkpoints of the first `k` of them, and the
local checkpoint is the acknowledgement of the `c`-th. -/
structure Inv (S : Setting F) (rs : List (Fields F × Str)) (k c : ℕ) (w : World) : Prop where
  disk : S.OnDisk rs c w.disk
  rows : w.rows = S.rowsOf rs k
  stored : k ≤ rs.length
  behind : rs.length ≤ k + 1
  bound : k ≤ 1000000
  acknowledged : c ≤ k
  sent : ∀ frame ∈ w.sent, ∃ sub ∈ S.checkpoints 1 none rs, sub.frame = frame

theorem Inv.length_lt (h : S.Inv rs k c w) : rs.length < 10 ^ 7 := by
  have h₁ := h.behind
  have h₂ := h.bound
  omega

theorem Inv.acknowledged_le (h : S.Inv rs k c w) : c ≤ rs.length := h.acknowledged.trans h.stored

omit [PyFloat F] in
/-- The last record of a ledger. -/
theorem exists_last (hrs : rs ≠ []) :
    ∃ i x, rs.length = i + 1 ∧ rs.getLast? = some x ∧ rs[i]? = some x := by
  obtain ⟨init, x, rfl⟩ : ∃ init x, rs = init ++ [x] := by
    rcases List.eq_nil_or_concat rs with hnil | ⟨init, x, hx⟩
    · exact absurd hnil hrs
    · exact ⟨init, x, hx.trans List.concat_eq_append⟩
  exact ⟨init.length, x, by simp, List.getLast?_concat, List.getElem?_concat_length⟩

/-- `_write_remote_anchor` on the last record. -/
theorem Inv.writeRemoteAnchor (h : S.Inv rs k c w) (hi : rs.length = i + 1) (hx : rs[i]? = some x)
    {record : Fields F} (hrecord : record = x.1 ∨ record = x.1.norm) (net : Network) :
    ∃ k' c' result w', S.writeRemoteAnchor net (i + 1) x.2 record w = (result, w') ∧
      S.Inv rs k' c' w' ∧ w'.disk.ledger = w.disk.ledger ∧
      (result = .ok () → k' = rs.length ∧ c' = rs.length) ∧
      (net.fate = .delivered → rs.length ≤ 1000000 →
        net.pageBytes + maxFrame + 16384 ≤ S.store.maxBytes → result = .ok ()) := by
  have hn := h.length_lt
  obtain ⟨previous, -, hform, hsub⟩ := S.checkpoint_at h.disk.chained hn hx
  set sub := hashSubmission F S.crypto S.ledger.identity.session (i + 1) x.2 previous
    S.ledger.identity.key with hdef
  obtain ⟨k', result, hexchange, hk', hanswer, hdelivered⟩ :=
    exchange_checkpoint h.disk.chained hn h.stored hx hsub h.rows net
  have hsubmit := submit_checkpoint h.disk.chained hn hx hsub hrecord hexchange
    fun answer ha => (hanswer answer ha).2
  have hlen : sub.frame.length ≤ maxFrame := hform.length_frame S.crypto S.ledger.identity.key
  have hstored := h.stored
  have hbehind := h.behind
  have hbound : k' ≤ rs.length ∧ rs.length ≤ k' + 1 ∧ k' ≤ 1000000 ∧ c ≤ k' := by
    have h₃ := h.bound
    have h₄ := h.acknowledged
    unfold Advances at hk'
    omega
  have hsent : ∀ frame ∈ w.sent ++ [sub.frame], ∃ sub ∈ S.checkpoints 1 none rs, sub.frame = frame :=
    fun frame hframe => (List.mem_append.1 hframe).elim (h.sent frame) fun hframe =>
      ⟨sub, List.mem_of_getElem? hsub, (List.mem_singleton.1 hframe).symm⟩
  rcases result with e | answer
  · refine ⟨k', c, .error (.wrapped .auditIntegrityError "remote audit anchor delivery failed: " e),
      { w with sent := w.sent ++ [sub.frame], rows := S.rowsOf rs k' }, ?_, ?_, rfl, nofun, ?_⟩
    · simp only [Setting.writeRemoteAnchor, Action.handle, Action.bind_apply, hsubmit, Except.map,
        Action.raise]
    · exact ⟨h.disk, rfl, hbound.1, hbound.2.1, hbound.2.2.1, hbound.2.2.2, hsent⟩
    · intro hfate hmax hbudget
      obtain ⟨answer, ha⟩ := hdelivered hfate (by omega) (by omega) (by omega)
      cases ha
  · obtain ⟨hkn, -⟩ := hanswer answer rfl
    have hfile : jsonFile (S.ackOf i x).norm =
        .ok (encodeUtf8 (recordLine (S.ackOf i x) ++ ['\n'])) := by
      rw [jsonFile, ← Json.norm_obj, dumps_norm]
      exact jsonFile_eq (Json.writable_mono (writable_ackMessage _ _ _ _ hform.sequence))
    have hcheck : S.ledger.identity.checkAck S.crypto (S.ackOf i x).norm (i + 1) x.2 = .ok () :=
      S.checkAck_ackMessage x.2 hform.sequence
    refine ⟨k', rs.length, .ok (), { w with
      sent := w.sent ++ [sub.frame]
      rows := S.rowsOf rs k'
      disk := { w.disk with
        remote := some (encodeUtf8 (recordLine (S.ackOf i x) ++ ['\n'])) } },
      ?_, ?_, rfl, fun _ => ⟨hkn.trans hi.symm, rfl⟩, fun _ _ _ => rfl⟩
    · simp only [Setting.writeRemoteAnchor, Action.handle, Action.bind_apply, Action.lift_apply,
        hsubmit, Except.map, Action.update, hcheck, hfile]
    · refine ⟨⟨h.disk.chained, h.disk.ledger, h.disk.head, h.disk.size, ?_⟩, rfl, hbound.1,
        hbound.2.1, hbound.2.2.1, by omega, hsent⟩
      rw [hi, remoteFile, hx]
      rfl

/-- The local files and the anchors are no part of what the collector sees. -/
theorem Inv.writeAnchor (h : S.Inv rs k c w) (sequence : ℕ) (head : Str) :
    S.Inv rs k c (S.writeAnchor sequence head w).2 := by
  rw [← Action.wp_state (m := S.writeAnchor sequence head) (P := S.Inv rs k c)]
  unfold Setting.writeAnchor
  split
  · exact h
  · simp only [Action.wp_bind, Action.wp_lift, Action.wp_update]
    refine ⟨fun _ _ => ⟨fun _ _ => ?_, fun _ _ => h⟩, fun _ _ => h⟩
    exact ⟨⟨h.disk.chained, h.disk.ledger, h.disk.head, h.disk.size, h.disk.remote⟩, h.rows,
      h.stored, h.behind, h.bound, h.acknowledged, h.sent⟩

/-- A record at the end of the ledger's files. -/
theorem OnDisk.concat {disk : Disk} (h : S.OnDisk rs c disk) (hc : c ≤ rs.length)
    {record : Fields F} {hash : Str} (hsealed : Sealed S.crypto (lastHash none rs) record hash)
    (hsize : (disk.ledger.getD []).length + (encodeUtf8 (recordLine record ++ ['\n'])).length ≤
      S.ledger.maxLedgerBytes) :
    S.OnDisk (rs ++ [(record, hash)]) c { disk with
      ledger := some (disk.ledger.getD [] ++ encodeUtf8 (recordLine record ++ ['\n']))
      head := some (encodeUtf8 (hash ++ ['\n'])) } := by
  have hfile : disk.ledger.getD [] = encodeUtf8 (ledgerText rs) := by
    rw [h.ledger]
    split_ifs with hrs
    · rw [hrs]
      rfl
    · rfl
  have htext : disk.ledger.getD [] ++ encodeUtf8 (recordLine record ++ ['\n']) =
      encodeUtf8 (ledgerText (rs ++ [(record, hash)])) := by
    rw [hfile, ledgerText_concat, encodeUtf8_append (ledgerText rs)]
  refine ⟨chained_concat.2 ⟨h.chained, hsealed⟩, ?_, ?_, ?_, ?_⟩
  · rw [if_neg (by simp), htext]
  · rw [List.getLast?_concat]
    rfl
  · rw [← htext, List.length_append]
    exact hsize
  · rw [h.remote]
    rcases c with _ | c
    · rfl
    · rw [remoteFile, remoteFile, List.getElem?_append_left (by omega)]

theorem rowsOf_concat (hk : k ≤ rs.length) (x : Fields F × Str) :
    S.rowsOf (rs ++ [x]) k = S.rowsOf rs k := by
  rw [rowsOf, rowsOf, checkpoints_concat, List.take_append_of_le_length
    (by rwa [length_checkpoints])]

/-- A record at the end of the ledger. -/
theorem Inv.concat (h : S.Inv rs k c w) (hk : k = rs.length) {record : Fields F} {hash : Str}
    (hsealed : Sealed S.crypto (lastHash none rs) record hash)
    (hsize : (w.disk.ledger.getD []).length + (encodeUtf8 (recordLine record ++ ['\n'])).length ≤
      S.ledger.maxLedgerBytes) :
    S.Inv (rs ++ [(record, hash)]) k c { w with disk := { w.disk with
      ledger := some (w.disk.ledger.getD [] ++ encodeUtf8 (recordLine record ++ ['\n']))
      head := some (encodeUtf8 (hash ++ ['\n'])) } } := by
  refine ⟨h.disk.concat h.acknowledged_le hsealed hsize, ?_, ?_, ?_, h.bound, h.acknowledged, ?_⟩
  · rw [h.rows, rowsOf_concat h.stored]
  · rw [List.length_append, List.length_singleton]
    omega
  · rw [List.length_append, List.length_singleton]
    omega
  · intro frame hframe
    obtain ⟨sub, hsub, heq⟩ := h.sent frame hframe
    exact ⟨sub, by rw [checkpoints_concat]; exact List.mem_append_left _ hsub, heq⟩

/-- An append to a ledger that its collector has not all acknowledged. -/
theorem Inv.append_refused (h : S.Inv rs k c w) (hc : c < rs.length) (net : Network)
    (payload : Fields F) : ∃ e, S.appendPayload net payload w = (.error e, w) := by
  simp only [appendPayload, Action.bind_apply, Action.lift_apply, Action.read]
  rcases hverify : S.ledger.verifyUnlocked S.crypto S.builtins w.disk true true with e | v
  · exact ⟨e, rfl⟩
  · have hinvalid : v.valid = false := by
      by_contra hv
      have hrs := h.disk.verify_valid h.acknowledged_le h.length_lt hverify (by simpa using hv)
      omega
    simp only [hinvalid, raiseIf, Bool.not_false, if_true]
    exact ⟨_, rfl⟩

/-- What the files and the collector hold is in order. -/
def Ordered (S : Setting F) (w : World) : Prop := ∃ rs k c, S.Inv rs k c w

/-- An append. -/
theorem Ordered.append (h : S.Ordered w) (net : Network) {payload : Fields F}
    (hwf : (Json.obj payload).WF) : S.Ordered (S.appendPayload net payload w).2 := by
  have hw := h
  obtain ⟨rs, k, c, h⟩ := h
  rw [← Action.wp_state (m := S.appendPayload net payload) (P := S.Ordered)]
  unfold Setting.appendPayload
  simp only [Action.wp_bind, Action.wp_read, Action.wp_update]
  refine Action.wp_lift_intro (fun v hverify => ?_) fun _ => hw
  refine Action.wp_lift_intro (fun _ hv => ?_) fun _ => hw
  refine Action.wp_lift_intro (fun sealedRecord hsealed => ?_) fun _ => hw
  obtain ⟨record, hash⟩ := sealedRecord
  refine Action.wp_lift_intro (fun encoded hencoded => ?_) fun _ => hw
  refine Action.wp_lift_intro (fun _ _ => ?_) fun _ => hw
  refine Action.wp_lift_intro (fun _ hbudget => ?_) fun _ => hw
  rw [raiseIf_eq_ok] at hv hbudget
  obtain ⟨hrecords, hhead, hc⟩ :=
    h.disk.verify_valid h.acknowledged_le h.length_lt hverify (by simpa using hv)
  rw [hhead] at hsealed
  have hsealed := sealRecord_sealed S hwf hsealed
  obtain rfl := Except.ok.inj ((jsonFile_eq hsealed.writable).symm.trans hencoded)
  have hk : k = rs.length := by
    have h₁ := h.stored
    have h₂ := h.acknowledged
    omega
  have hinv := (h.concat hk hsealed (not_lt.1 hbudget)).writeAnchor (v.records + 1) hash
  rw [← Action.wp_state (P := S.Inv (rs ++ [(record, hash)]) k c)] at hinv
  refine Action.wp_mono hinv (fun _ w' hinv => ?_) fun _ w' hinv => ⟨_, _, _, hinv⟩
  obtain ⟨k', c', result, w'', hwrite, hinv', -⟩ := hinv.writeRemoteAnchor (i := rs.length)
    (by simp) List.getElem?_concat_length (.inl rfl) net
  rw [hrecords]
  unfold Action.wp
  rw [hwrite]
  cases result <;> exact ⟨_, _, _, hinv'⟩

/-- A recovery. -/
theorem Inv.reconcileRemote (h : S.Inv rs k c w) (net : Network) :
    ∃ k' c' result w', S.reconcileRemote net w = (result, w') ∧ S.Inv rs k' c' w' ∧
      w'.disk.ledger = w.disk.ledger ∧
      (rs ≠ [] → net.fate = .delivered → rs.length ≤ 1000000 →
        net.pageBytes + maxFrame + 16384 ≤ S.store.maxBytes →
        result = .ok () ∧ k' = rs.length ∧ c' = rs.length) := by
  unfold Setting.reconcileRemote
  simp only [Action.bind_apply, Action.read, Action.lift_apply]
  by_cases hrs : rs = []
  · subst hrs
    rcases hverify : S.ledger.verifyUnlocked S.crypto S.builtins w.disk true false with e | v
    · exact ⟨k, c, _, w, rfl, h, rfl, fun hne => absurd rfl hne⟩
    · have hempty : (!v.valid || v.records == 0) = true := by
        rw [h.disk.verify_empty hverify]
        simp
      simp only [hempty, raiseIf, if_true]
      exact ⟨k, c, _, w, rfl, h, rfl, fun hne => absurd rfl hne⟩
  · obtain ⟨i, x, hi, hlast, hx⟩ := exists_last hrs
    obtain ⟨k', c', result, w', hwrite, hinv, hledger, hok, hdelivered⟩ :=
      h.writeRemoteAnchor hi hx (.inr rfl) net
    have hhash : lastHash none rs = some x.2 := by
      rw [lastHash, hlast]
      rfl
    refine ⟨k', c', result, w', ?_, hinv, hledger, fun _ hfate hmax hbudget =>
      ⟨hdelivered hfate hmax hbudget, hok (hdelivered hfate hmax hbudget)⟩⟩
    rw [h.disk.verify_local hrs, h.disk.ledger, if_neg hrs]
    simp only [hi, raiseIf, orRaise, decodeUtf8_encodeUtf8, lines_ledgerText, hhash,
      lastRecord_chained h.disk.chained, hlast, Option.map_some, Option.some_or, Option.bind_some,
      dictOf, Option.getD_some]
    simpa using hwrite

/-- A frame that the network delivers again. -/
theorem Inv.redeliver (h : S.Inv rs k c w) {frame : Bytes} (hframe : frame ∈ w.sent)
    (pageBytes : ℕ) :
    ∃ k', S.Inv rs k' c { w with rows := (S.post frame pageBytes w.rows).2 } := by
  obtain ⟨sub, hmem, rfl⟩ := h.sent frame hframe
  obtain ⟨i, hsub⟩ := List.getElem?_of_mem hmem
  obtain ⟨x, hx⟩ : ∃ x, rs[i]? = some x := by
    have hlt := (List.getElem?_eq_some_iff.1 hsub).1
    rw [length_checkpoints] at hlt
    exact ⟨_, List.getElem?_eq_getElem hlt⟩
  have hlt := (List.getElem?_eq_some_iff.1 hx).1
  have hbehind := h.behind
  have hacked := h.acknowledged
  rw [h.rows]
  rcases S.post_checkpoint h.disk.chained h.length_lt h.stored hx hsub pageBytes with
    ⟨-, -, hp⟩ | ⟨hik, hk, hp⟩ | ⟨-, e, hp⟩ <;> rw [hp]
  · exact ⟨k, h.disk, rfl, h.stored, h.behind, h.bound, h.acknowledged, h.sent⟩
  · exact ⟨k + 1, h.disk, rfl, by omega, by omega, hk, by omega, h.sent⟩
  · exact ⟨k, h.disk, rfl, h.stored, h.behind, h.bound, h.acknowledged, h.sent⟩

/-! ## Runs -/

/-- A call of the ledger's owner, with what the network does during it, or a replay. -/
inductive Op (F : Type) where
  /-- `append` and `append_event`, on the payload that they make. -/
  | append (payload : { payload : Fields F // (Json.obj payload).WF }) (net : Network)
  /-- `reconcile_remote`. -/
  | reconcile (net : Network)
  /-- The network delivers an earlier frame again. -/
  | redeliver (index pageBytes : ℕ)

/-- The state after a step. -/
def perform (S : Setting F) (w : World) : Op F → World
  | .append payload net => (S.appendPayload net payload.1 w).2
  | .reconcile net => (S.reconcileRemote net w).2
  | .redeliver index pageBytes =>
    match w.sent[index]? with
    | some frame => { w with rows := (S.post frame pageBytes w.rows).2 }
    | none => w

/-- No files, no rows, and nothing sent. -/
def blank : World := ⟨⟨none, none, none, none⟩, [], []⟩

/-- The state after a run from empty stores. -/
def run (S : Setting F) (ops : List (Op F)) : World := ops.foldl S.perform blank

theorem inv_empty (S : Setting F) : S.Inv [] 0 0 blank :=
  ⟨⟨trivial, rfl, rfl, Nat.zero_le _, rfl⟩, rfl, le_rfl, Nat.zero_le _, Nat.zero_le _, le_rfl, nofun⟩

theorem Ordered.perform (h : S.Ordered w) (op : Op F) : S.Ordered (S.perform w op) := by
  cases op with
  | append payload net => exact h.append net payload.2
  | reconcile net =>
    obtain ⟨rs, k, c, h⟩ := h
    obtain ⟨k', c', result, w', hreconcile, hinv, -⟩ := h.reconcileRemote net
    rw [Setting.perform, hreconcile]
    exact ⟨rs, k', c', hinv⟩
  | redeliver index pageBytes =>
    rw [Setting.perform]
    split
    · next frame hframe =>
      obtain ⟨rs, k, c, h⟩ := h
      obtain ⟨k', hinv⟩ := h.redeliver (List.mem_of_getElem? hframe) pageBytes
      exact ⟨rs, k', c, hinv⟩
    · exact h

/-- A run keeps the invariant. -/
theorem ordered_run (S : Setting F) (ops : List (Op F)) : S.Ordered (S.run ops) := by
  induction ops using List.reverseRecOn with
  | nil => exact ⟨[], 0, 0, S.inv_empty⟩
  | append_singleton ops op ih =>
    rw [run, List.foldl_append]
    exact ih.perform op

/-! ## What a reader of the files finds -/

/-- The records of a ledger file. -/
def records (F : Type) [PyFloat F] (disk : Disk) : Option (List (Fields F)) :=
  match disk.ledger with
  | none => some []
  | some file => (decodeUtf8 file).bind fun text =>
    (Str.lines text).mapM fun line => (loads line).bind dictOf

/-- A record with this hash. -/
def HashOf (S : Setting F) (record : Fields F) (hash : Str) : Prop :=
  record.get "record_hash" = some (.str hash) ∧ calculateHash S.crypto record = .ok hash

/-- The local checkpoint is an acknowledgement of the `c`-th record, or there is none and `c` is
zero. -/
def Names (S : Setting F) (disk : Disk) (records : List (Fields F)) : ℕ → Prop
  | 0 => disk.remote = none
  | c + 1 => ∃ record hash, records[c]? = some record ∧ S.HashOf record hash ∧
      S.ledger.checkRemote S.crypto F disk (c + 1) (some hash) = .ok ()

/-- The ledger has these records, the collector those or all but the last of them, and the local
checkpoint names the `c`-th. -/
structure Agreement (S : Setting F) (records : List (Fields F)) (c : ℕ) (w : World) : Prop where
  records_eq : Setting.records F w.disk = some records
  count : w.rows.length = records.length ∨ w.rows.length + 1 = records.length
  rows : ∀ i row, w.rows[i]? = some row → row.session = S.ledger.identity.session ∧
    row.sequence = i + 1 ∧ ∃ record, records[i]? = some record ∧ S.HashOf record row.head
  behind : c ≤ w.rows.length
  names : S.Names w.disk records c

theorem OnDisk.records_eq {disk : Disk} (h : S.OnDisk rs c disk) :
    Setting.records F disk = some (rs.map fun x => x.1.norm) := by
  unfold Setting.records
  rw [h.ledger]
  split_ifs with hrs
  · rw [hrs]
    rfl
  · have hmap : (rs.map fun x => recordLine x.1).mapM
        (fun line => (loads line).bind dictOf) = some (rs.map fun x => x.1.norm) := by
      have hsealed := h.chained.sealed
      clear h hrs
      induction rs with
      | nil => rfl
      | cons x rs ih =>
        obtain ⟨p, hx⟩ := hsealed x List.mem_cons_self
        rw [List.map_cons, List.mapM_cons, loads_recordLine hx.wf hx.writable,
          ih fun y hy => hsealed y (List.mem_cons_of_mem _ hy)]
        rfl
    simp only [decodeUtf8_encodeUtf8, Option.bind_some, lines_ledgerText, hmap]

theorem Inv.length_rows (h : S.Inv rs k c w) : w.rows.length = k := by
  rw [h.rows, rowsOf, List.length_map, List.length_take, length_checkpoints]
  exact min_eq_left h.stored

theorem OnDisk.hashOf {disk : Disk} (h : S.OnDisk rs c disk) (hx : x ∈ rs) :
    S.HashOf x.1.norm x.2 := by
  obtain ⟨p, hsealed⟩ := h.chained.sealed x hx
  refine ⟨?_, (calculateHash_norm x.1).trans hsealed.calculated⟩
  rw [Fields.get_norm, hsealed.hash_eq]
  rfl

theorem OnDisk.names {disk : Disk} (h : S.OnDisk rs c disk) (hc : c ≤ rs.length)
    (hn : rs.length < 10 ^ 7) : S.Names disk (rs.map fun x => x.1.norm) c := by
  have hremote := h.remote
  rcases c with _ | c
  · exact hremote
  · obtain ⟨x, hx⟩ : ∃ x, rs[c]? = some x := ⟨_, List.getElem?_eq_getElem (by omega)⟩
    refine ⟨x.1.norm, x.2, by rw [List.getElem?_map, hx]; rfl, h.hashOf (List.mem_of_getElem? hx), ?_⟩
    have hlt : c + 1 < 10 ^ 7 := hc.trans_lt hn
    rw [remoteFile, hx] at hremote
    simp only [AuditLedger.checkRemote, bind_eq_ok, orRaise_eq_ok]
    refine ⟨_, hremote, _, readText_jsonFile _, _, loads_jsonFile (wf_ackMessage _ _ _ _ _)
      (Json.writable_mono (writable_ackMessage _ _ _ _ hlt)), ?_⟩
    exact S.checkAck_ackMessage x.2 hlt

theorem Inv.agreement (h : S.Inv rs k c w) : S.Agreement (rs.map fun x => x.1.norm) c w where
  records_eq := h.disk.records_eq
  count := by
    have h₁ := h.stored
    have h₂ := h.behind
    rw [h.length_rows, List.length_map]
    omega
  rows i row hrow := by
    have hi : i < k := by
      rw [← h.length_rows]
      exact (List.getElem?_eq_some_iff.1 hrow).1
    obtain ⟨x, hx⟩ : ∃ x, rs[i]? = some x :=
      ⟨_, List.getElem?_eq_getElem (hi.trans_le h.stored)⟩
    obtain ⟨previous, -, -, hsub⟩ := S.checkpoint_at h.disk.chained h.length_lt hx
    rw [h.rows, rowsOf, List.getElem?_map, List.getElem?_take_of_lt hi, hsub] at hrow
    cases hrow
    exact ⟨rfl, rfl, x.1.norm, by rw [List.getElem?_map, hx]; rfl,
      h.disk.hashOf (List.mem_of_getElem? hx)⟩
  behind := by
    rw [h.length_rows]
    exact h.acknowledged
  names := h.disk.names h.acknowledged_le h.length_lt

/-- After any run from empty stores, with any messages lost or replayed, the collector holds the
hashes of all the ledger's records or of all but the last, and the local checkpoint is an
acknowledgement of one of those. While it is behind the ledger every append raises and changes
nothing, and one recovery whose messages arrive brings all three together. -/
theorem ledger_collector_agreement (S : Setting F) (ops : List (Op F)) :
    ∃ records c, S.Agreement records c (S.run ops) ∧
      (c < records.length → ∀ net payload,
        ∃ e, S.appendPayload net payload (S.run ops) = (.error e, S.run ops)) ∧
      (records.length ≤ 1000000 → ∀ net : Network, net.fate = .delivered →
        net.pageBytes + maxFrame + 16384 ≤ S.store.maxBytes →
        ∃ result w', S.reconcileRemote net (S.run ops) = (result, w') ∧
          (records ≠ [] → result = .ok ()) ∧ w'.disk.ledger = (S.run ops).disk.ledger ∧
          w'.rows.length = records.length ∧ S.Agreement records records.length w') := by
  obtain ⟨rs, k, c, h⟩ := S.ordered_run ops
  refine ⟨rs.map fun x => x.1.norm, c, h.agreement, fun hc net payload => ?_,
    fun hmax net hfate hbudget => ?_⟩
  · rw [List.length_map] at hc
    exact h.append_refused hc net payload
  · rw [List.length_map] at hmax ⊢
    obtain ⟨k', c', result, w', hreconcile, hinv, hledger, hok⟩ := h.reconcileRemote net
    refine ⟨result, w', hreconcile, fun hne => ?_, hledger, ?_⟩
    · exact (hok (fun hnil => hne (by rw [hnil]; rfl)) hfate hmax hbudget).1
    · have hk : k' = rs.length ∧ c' = rs.length := by
        by_cases hrs : rs = []
        · have h₁ := hinv.stored
          have h₂ := hinv.acknowledged
          rw [hrs, List.length_nil] at h₁ ⊢
          omega
        · exact (hok hrs hfate hmax hbudget).2
      obtain ⟨rfl, rfl⟩ := hk
      exact ⟨hinv.length_rows, hinv.agreement⟩

end Setting

end Bulldog.Audit
