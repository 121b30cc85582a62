import Bulldog.Audit.RelayAgreement
import Bulldog.Audit.SessionSpec

/-!
# A session's audit follows its TLA+ module

The guest's ledger, its relay and the collector are followed by the states of `BullSessionAudit.tla`: the local
head is the number of the ledger's records, the remote head that of the collector's rows, and the acknowledged
head what the guest's checkpoint says. An append is `Append` and what becomes of its messages, a recovery is
`Recover` and one more try, and a call that is refused is no step. `Execute` follows an append that returned.
-/

namespace Bulldog.Audit

open Anchor SessionAudit

variable {F : Type} [PyFloat F]

namespace Relay

variable {R : Relay F} {rs : List (Fields F × Str)} {x : Fields F × Str} {e u c i : ℕ} {w : RelayWorld}
  {t : State}

/-! ## What a call does to the three heads -/

/-- The collector's rows are those there were, and perhaps more. -/
theorem post_rows (S : Setting F) (raw : Bytes) (pageBytes n : ℕ) {rows : List Row}
    (h : n ≤ rows.length) : (S.post raw pageBytes).wp (fun _ rows' => n ≤ rows'.length)
      (fun _ rows' => n ≤ rows'.length) rows := by
  unfold Setting.post
  simp only [Action.wp_bind]
  refine Action.wp_lift_intro (fun _ _ => ?_) fun _ => h
  refine Action.wp_lift_intro (fun message _ => ?_) fun _ => h
  refine Action.wp_mono (Action.wp_state (P := fun rows' => n ≤ rows'.length).2 ?_)
    (fun ack rows' h => Action.wp_lift_intro (fun _ _ => h) fun _ => h) fun _ _ h => h
  rcases S.store.accept_rows S.crypto message pageBytes rows with hrows | ⟨sub, -, -, hrows⟩
  · rwa [hrows]
  · rw [hrows, List.length_append]
    omega

theorem exchange_rows (S : Setting F) (net : Network) (frame : Bytes) (n : ℕ) {w : World}
    (h : n ≤ w.rows.length) : (S.exchange net frame).wp (fun _ w' => n ≤ w'.rows.length)
      (fun _ w' => n ≤ w'.rows.length) w := by
  unfold Setting.exchange
  simp only [Action.wp_bind, Action.wp_update]
  split
  · exact h
  · simp only [Action.wp_handle, Action.wp_zoom, Action.wp_raise]
    exact post_rows S frame net.pageBytes n h
  · simp only [Action.wp_bind, Action.wp_handle, Action.wp_zoom, Action.wp_raise, Action.wp_pure]
    exact post_rows S frame net.pageBytes n h

theorem host_submit_rows (S : Setting F) (net : Network) (sequence : ℕ) (record : Fields F) (n : ℕ)
    {w : World} (h : n ≤ w.rows.length) : (S.submit net sequence record).wp
      (fun _ w' => n ≤ w'.rows.length) (fun _ w' => n ≤ w'.rows.length) w := by
  unfold Setting.submit
  simp only [Action.wp_bind]
  refine Action.wp_lift_intro (fun _ _ => ?_) fun _ => h
  refine Action.wp_lift_intro (fun encoded _ => ?_) fun _ => h
  refine Action.wp_lift_intro (fun _ _ => ?_) fun _ => h
  refine Action.wp_mono (exchange_rows S net encoded n h) (fun answer w' h => ?_) fun _ _ h => h
  refine Action.wp_lift_intro (fun _ _ => ?_) fun _ => h
  refine Action.wp_lift_intro (fun _ _ => ?_) fun _ => h
  exact Action.wp_lift_intro (fun _ _ => h) fun _ => h

theorem handle_rows (net : RelayNetwork) (raw : Bytes) (n : ℕ) (h : n ≤ w.rows.length) :
    (R.handle net raw).wp (fun _ w' => n ≤ w'.rows.length) (fun _ w' => n ≤ w'.rows.length) w := by
  unfold Relay.handle
  simp only [Action.wp_bind, Action.wp_zoom]
  refine Action.wp_lift_intro (fun message _ => ?_) fun _ => h
  refine Action.wp_lift_intro (fun _ _ => ?_) fun _ => h
  refine Action.wp_lift_intro (fun _ _ => ?_) fun _ => h
  refine Action.wp_of_forall (fun ack evidence => ?_) fun _ _ => h
  refine Action.wp_lift_intro (fun sequence _ => ?_) fun _ => h
  refine Action.wp_lift_intro (fun record _ => ?_) fun _ => h
  refine Action.wp_mono (host_submit_rows R.host net.upstream sequence record n h)
    (fun _ _ h => ?_) fun _ _ h => h
  exact Action.wp_lift_intro (fun _ _ => h) fun _ => h

/-- A submission never takes rows from the collector. -/
theorem submit_rows (net : RelayNetwork) (sequence : ℕ) (record : Fields F) (n : ℕ)
    (h : n ≤ w.rows.length) : n ≤ (R.submit net sequence record w).2.rows.length := by
  refine Action.wp_state (P := fun w' : RelayWorld => n ≤ w'.rows.length).1 ?_
  unfold Relay.submit
  simp only [Action.wp_bind]
  refine Action.wp_lift_intro (fun message _ => ?_) fun _ => h
  refine Action.wp_lift_intro (fun encoded _ => ?_) fun _ => h
  refine Action.wp_lift_intro (fun _ _ => ?_) fun _ => h
  refine Action.wp_mono (Q := fun _ w' => n ≤ w'.rows.length) (E := fun _ w' => n ≤ w'.rows.length) ?_
    (fun answer w' h => ?_) fun _ _ h => h
  · unfold Relay.exchange
    split
    · exact h
    · simp only [Action.wp_handle, Action.wp_raise]
      exact handle_rows net encoded n h
    · simp only [Action.wp_bind, Action.wp_handle, Action.wp_raise, Action.wp_pure]
      exact handle_rows net encoded n h
  · refine Action.wp_lift_intro (fun _ _ => ?_) fun _ => h
    refine Action.wp_lift_intro (fun _ _ => ?_) fun _ => h
    refine Action.wp_lift_intro (fun _ _ => ?_) fun _ => h
    exact Action.wp_lift_intro (fun _ _ => h) fun _ => h

/-- What `_write_remote_anchor` on the last record does to the heads: the collector's grows or stays, and the
checkpoint is the last record's where it returns and stays where it raises. -/
theorem Inv.writeRemote_heads (h : R.Inv rs e u c w) (hi : rs.length = i + 1) (hx : rs[i]? = some x)
    {record : Fields F} (hrecord : record = x.1 ∨ record = x.1.norm) (net : RelayNetwork) :
    ∃ e' u' c' result w', R.guest.writeRemoteAnchorOver (R.port net) (i + 1) x.2 record w =
        (result, w') ∧ R.Inv rs e' u' c' w' ∧ u ≤ u' ∧
      (c' = rs.length ∧ result = .ok () ∨ c' = c ∧ ∃ exc, result = .error exc) := by
  obtain ⟨e', u', result, w', hsubmit, hinv, hdisk, hack, -⟩ := h.submit hi hx hrecord net
  have hrows : u ≤ u' := by
    have hgrown := submit_rows (R := R) net (i + 1) record u (w := w) h.length_rows.ge
    rw [hsubmit, hinv.length_rows] at hgrown
    exact hgrown
  have hport : (R.port net).submit (i + 1) record w = (result, w') := hsubmit
  rcases result with exc | ack
  · refine ⟨e', u', c, .error (.wrapped .auditIntegrityError
      "remote audit anchor delivery failed: " exc), w', ?_, hinv, hrows, .inr ⟨rfl, _, rfl⟩⟩
    simp only [Setting.writeRemoteAnchorOver, Action.handle, Action.bind_apply, hport, Action.raise]
  · obtain ⟨e'', u'', c'', result', w'', hwrite, hinv', -, hok, -⟩ :=
      h.writeRemoteAnchor hi hx hrecord net
    obtain ⟨he, hu, rfl⟩ := hack ack rfl
    obtain ⟨previous, hform, -⟩ := submission_at h.disk.chained h.fits h.length_lt hx
    -- the acknowledgement is the expected one, so that the file is written
    have hfile : jsonFile (R.guest.ackOf i x).norm =
        .ok (encodeUtf8 (recordLine (R.guest.ackOf i x) ++ ['\n'])) := by
      rw [jsonFile, ← Json.norm_obj, dumps_norm]
      exact jsonFile_eq (Json.writable_mono (writable_ackMessage _ _ _ _ hform.sequence))
    have hcheck : R.guest.ledger.identity.checkAck R.guest.crypto (R.guest.ackOf i x).norm (i + 1)
        x.2 = .ok () := R.guest.checkAck_ackMessage x.2 hform.sequence
    have hreturns : result' = .ok () := by
      simp only [Setting.writeRemoteAnchorOver, Action.handle, Action.bind_apply, Action.lift_apply,
        hport, Action.update, hcheck, hfile] at hwrite
      exact (congrArg Prod.fst hwrite).symm
    obtain ⟨he', hu', hc'⟩ := hok hreturns
    exact ⟨e'', u'', c'', result', w'', hwrite, hinv', by omega, .inl ⟨hc', hreturns⟩⟩

/-- An append is refused and changes nothing, or writes a record where the checkpoint was at the last one. It
returns where the guest's checkpoint is then the new record's. -/
theorem Inv.append_heads (h : R.Inv rs e u c w) (net : RelayNetwork) {payload : Fields F}
    (hwf : (Json.obj payload).WF) (hw : (Json.obj payload).writable false = true) :
    (R.guest.appendPayloadOver (R.port net) payload).wp
      (fun hash w' => c = rs.length ∧ ∃ x e' u', R.Inv (rs ++ [x]) e' u' (rs.length + 1) w' ∧ hash = x.2)
      (fun _ w' => w' = w ∨ c = rs.length ∧ ∃ x e' u', R.Inv (rs ++ [x]) e' u' rs.length w') w := by
  unfold Setting.appendPayloadOver
  simp only [Action.wp_bind, Action.wp_read, Action.wp_update]
  refine Action.wp_lift_intro (fun v hverify => ?_) fun _ => .inl rfl
  refine Action.wp_lift_intro (fun _ hv => ?_) fun _ => .inl rfl
  refine Action.wp_lift_intro (fun sealedRecord hsealed => ?_) fun _ => .inl rfl
  obtain ⟨record, hash⟩ := sealedRecord
  refine Action.wp_lift_intro (fun encoded hencoded => ?_) fun _ => .inl rfl
  refine Action.wp_lift_intro (fun _ hframe => ?_) fun _ => .inl rfl
  refine Action.wp_lift_intro (fun _ hbudget => ?_) fun _ => .inl rfl
  rw [raiseIf_eq_ok] at hv hbudget hframe
  obtain ⟨hrecords, hhead, hc⟩ :=
    h.disk.verify_valid h.acknowledged_le h.length_lt hverify (by simpa using hv)
  rw [hhead] at hsealed
  have hsealed' := sealRecord_sealed R.guest hwf hsealed
  obtain rfl := Except.ok.inj ((jsonFile_eq hsealed'.writable).symm.trans hencoded)
  have hfits := fits_of_sealed hw hsealed (not_lt.1 hframe)
  have hu : u = rs.length := by
    have h₁ := h.submitted
    have h₂ := h.stored
    have h₃ := h.acknowledged
    omega
  have hinv := (h.concat hu net hsealed' hfits (not_lt.1 hbudget)).writeAnchor net (v.records + 1) hash
  rw [← Action.wp_state (P := R.Inv (rs ++ [(record, hash)]) e u c)] at hinv
  refine Action.wp_mono hinv (fun _ w' hinv => ?_) fun _ w' hinv => .inr ⟨hc, _, _, _, hc ▸ hinv⟩
  obtain ⟨e', u', c', result, w'', hwrite, hinv', -, hheads⟩ := hinv.writeRemote_heads (i := rs.length)
    (by simp) List.getElem?_concat_length (.inl rfl) net
  rw [hrecords]
  unfold Action.wp
  rw [hwrite]
  rcases hheads with ⟨rfl, rfl⟩ | ⟨rfl, exc, rfl⟩
  · rw [List.length_append, List.length_singleton] at hinv'
    exact ⟨hc, _, _, _, hinv', rfl⟩
  · exact .inr ⟨hc, _, _, _, hc ▸ hinv'⟩

/-- A recovery tries the last record's checkpoint once more. -/
theorem Inv.reconcile_heads (h : R.Inv rs e u c w) (net : RelayNetwork) :
    ∃ e' u' c', R.Inv rs e' u' c' (R.guest.reconcileRemoteOver (R.port net) w).2 ∧ u ≤ u' ∧
      (c' = rs.length ∨ c' = c) := by
  have hdisk : (R.port net).disk w = w.disk := rfl
  by_cases hrs : rs = []
  · obtain ⟨e', u', c', result, w', hreconcile, hinv, -⟩ := h.reconcileRemote net
    have h₁ := hinv.acknowledged_le
    have h₂ := h.submitted.trans h.stored
    rw [hrs, List.length_nil] at h₁ h₂
    rw [hreconcile]
    exact ⟨e', u', c', hinv, by omega, .inl (by rw [hrs, List.length_nil]; omega)⟩
  · obtain ⟨i, x, hi, hlast, hx⟩ := Setting.exists_last hrs
    obtain ⟨e', u', c', result, w', hwrite, hinv, hrows, hheads⟩ :=
      h.writeRemote_heads hi hx (.inr rfl) net
    have hhash : lastHash none rs = some x.2 := by
      rw [lastHash, hlast]
      rfl
    have hreconcile : R.guest.reconcileRemoteOver (R.port net) w = (result, w') := by
      unfold Setting.reconcileRemoteOver
      simp only [Action.bind_apply, Action.read, Action.lift_apply, hdisk]
      rw [h.disk.verify_local hrs, h.disk.ledger, if_neg hrs]
      simp only [hi, raiseIf, orRaise, decodeUtf8_encodeUtf8, lines_ledgerText, hhash,
        lastRecord_chained h.disk.chained, hlast, Option.map_some, Option.some_or, Option.bind_some,
        Setting.dictOf, Option.getD_some]
      simpa using hwrite
    rw [hreconcile]
    exact ⟨e', u', c', hinv, hrows, hheads.imp And.left And.left⟩

/-! ## The simulation -/

/-- The calls of a guest. -/
def calls (R : Relay F) : System RelayWorld := ⟨(· = blank), fun w w' => ∃ op, w' = R.perform w op⟩

/-- The states that follow the three parties between calls: the heads are theirs, and the session is stopped
exactly where the last record is not acknowledged. -/
structure Follows (R : Relay F) (w : RelayWorld) (t : State) : Prop where
  session : t.session = .opened
  conflict : t.conflict = false
  heads : ∃ rs e, R.Inv rs e t.remoteHead t.ackHead w ∧ t.localHead = rs.length
  phase : t.phase = .idle ∨ t.phase = .ready ∨ t.phase = .stopped ∧ t.ackHead < t.localHead

variable {t' : State} {k : ℕ}

/-- More records than the relay's store takes are never written. -/
theorem Inv.length_le (h : R.Inv rs e u c w) (k : ℕ) : rs.length ≤ 1000001 + k := by
  have h₁ := h.behind
  have h₂ := h.submitted
  have h₃ := h.bound
  omega

/-- A session whose last record is acknowledged gets to where the next one is appended. -/
theorem run_idle (ht : SessionAudit.Inv (1000001 + k) t) (hsession : t.session = .opened)
    (hconflict : t.conflict = false) (hphase : t.phase = .idle ∨ t.phase = .ready) :
    (spec (1000001 + k)).Run t { t with executed := t.localHead, phase := .idle } := by
  rcases hphase with hidle | hready
  · have hall := ht.idle hidle
    have hsame : { t with executed := t.localHead, phase := .idle } = t := by
      cases t
      simp only at hall hidle
      rw [hall, hidle]
    rw [hsame]
    exact .refl t
  · have hacked := ht.ready hready
    have hone := ht.busy (by rw [hready]; decide)
    have hremote := ht.remoteHead_le
    have hack := ht.ackHead_le
    exact .single (.execute hsession hready hconflict hacked (by omega) (by omega))

/-- From there, a record is appended and delivered or not. -/
theorem run_append (hsession : t.session = .opened) (hconflict : t.conflict = false)
    (hphase : t.phase = .idle) (hremote : t.remoteHead = t.localHead)
    (hroom : t.localHead < 1000001 + k) {u : ℕ} (hu : u = t.localHead ∨ u = t.localHead + 1) :
    (spec (1000001 + k)).Run t { t with
      localHead := t.localHead + 1
      remoteHead := u
      phase := if u = t.localHead then .pending else .delivered } := by
  have happend := System.Run.single (S := spec (1000001 + k)) (Next.append hsession hphase hroom)
  rcases hu with rfl | rfl
  · rw [if_pos rfl, ← hremote]
    rw [← hremote] at happend
    exact happend
  · rw [if_neg (Nat.succ_ne_self _)]
    exact happend.trans (.single (.deliver hsession rfl hconflict (congrArg Nat.succ hremote.symm)))

/-- A stopped session tries its last record again. -/
theorem run_recover (hsession : t.session = .opened) (hconflict : t.conflict = false)
    (hphase : t.phase = .stopped) (hremote : t.localHead = t.remoteHead ∨ t.localHead = t.remoteHead + 1) :
    (spec (1000001 + k)).Run t { t with remoteHead := t.localHead, phase := .delivered } := by
  have hrecover := System.Run.single (S := spec (1000001 + k)) (Next.recover hsession hphase hconflict)
  rcases hremote with hremote | hremote
  · have hretry := hrecover.trans (.single (.retry hsession rfl hconflict hremote))
    rw [← hremote] at hretry
    exact hretry
  · exact hrecover.trans (.single (.deliver hsession rfl hconflict hremote))

/-- An append that writes its record. -/
theorem Follows.run_append (h : R.Follows w t) (ht : (spec (1000001 + k)).Reachable t)
    (hacked : t.ackHead = t.localHead) (hrs : t.localHead = rs.length) {w' : RelayWorld}
    (hinv : R.Inv (rs ++ [x]) e u c w') (hc : rs.length ≤ c) :
    (spec (1000001 + k)).Run t { t with
      localHead := t.localHead + 1
      remoteHead := u
      executed := t.localHead
      phase := if u = t.localHead then .pending else .delivered } := by
  have hinvt := inv_reachable ht
  have hphase : t.phase = .idle ∨ t.phase = .ready := by
    rcases h.phase with hidle | hready | ⟨-, hbehind⟩
    · exact .inl hidle
    · exact .inr hready
    · omega
  have hack := hinvt.ackHead_le
  have hremote := hinvt.remoteHead_le
  have hroom := hinv.length_le k
  have h₁ := hinv.acknowledged
  have h₂ := hinv.submitted
  have h₃ := hinv.stored
  rw [List.length_append, List.length_singleton] at hroom h₃
  refine (run_idle hinvt h.session h.conflict hphase).trans ?_
  exact Relay.run_append (t := { t with executed := t.localHead, phase := .idle }) h.session h.conflict rfl
    (by simp only; omega) (by simp only; omega) (by simp only; omega)

/-- A call that appends and returns: when it does, the record is the collector's last row, and its work is next. -/
theorem Follows.returned (h : R.Follows w t) (ht : (spec (1000001 + k)).Reachable t) {net : RelayNetwork}
    {payload : Fields F} (hwf : (Json.obj payload).WF) (hw : (Json.obj payload).writable false = true)
    {hash : Str} {w' : RelayWorld}
    (hreturns : R.guest.appendPayloadOver (R.port net) payload w = (.ok hash, w')) :
    ∃ t₁ t₂, (spec (1000001 + k)).Run t t₁ ∧ Next (1000001 + k) t₁ t₂ ∧ t₁.phase = .ready ∧
      t₁.executed = t.localHead ∧ t₂.executed = t.localHead + 1 ∧ R.Follows w' t₂ ∧
      ∃ row, w'.rows.getLast? = some row ∧
        named row = (R.ledger.identity.session, t.localHead + 1, hash) := by
  obtain ⟨rs, e, hinv, hlocal⟩ := h.heads
  have hheads := hinv.append_heads net hwf hw
  rw [Action.wp, hreturns] at hheads
  obtain ⟨hc, x, e', u', hinv', rfl⟩ := hheads
  have hu : u' = rs.length + 1 := by
    have h₁ := hinv'.acknowledged
    have h₂ := hinv'.submitted
    have h₃ := hinv'.stored
    rw [List.length_append, List.length_singleton] at h₃
    omega
  subst hu
  have hrun := h.run_append ht (hc.trans hlocal.symm) hlocal hinv' (Nat.le_succ _)
  rw [if_neg (by omega)] at hrun
  have hack := hrun.trans (.single (.acknowledge h.session rfl h.conflict))
  refine ⟨_, _, hack, .execute h.session rfl h.conflict ?_ ?_ ?_, rfl, rfl, rfl,
    ⟨h.session, h.conflict, ⟨rs ++ [x], e', hinv', ?_⟩, .inl rfl⟩, ?_⟩
  · exact congrArg Nat.succ hlocal.symm
  · exact congrArg Nat.succ hlocal.symm
  · exact Nat.lt_succ_self _
  · rw [List.length_append, List.length_singleton, ← hlocal]
  · obtain ⟨row, hrow, hnamed⟩ := hinv'.row_at (i := rs.length) (Nat.lt_succ_self _)
      List.getElem?_concat_length
    refine ⟨row, ?_, hnamed.trans (by rw [hlocal])⟩
    rw [List.getLast?_eq_getElem?, hinv'.length_rows]
    exact hrow

theorem Follows.append (h : R.Follows w t) (ht : (spec (1000001 + k)).Reachable t) (net : RelayNetwork)
    {payload : Fields F} (hwf : (Json.obj payload).WF) (hw : (Json.obj payload).writable false = true) :
    ∃ t', (spec (1000001 + k)).Run t t' ∧
      R.Follows (R.guest.appendPayloadOver (R.port net) payload w).2 t' := by
  rcases hcall : R.guest.appendPayloadOver (R.port net) payload w with ⟨exc | hash, w'⟩
  · obtain ⟨rs, e, hinv, hlocal⟩ := h.heads
    have hheads := hinv.append_heads net hwf hw
    rw [Action.wp, hcall] at hheads
    rcases hheads with rfl | ⟨hc, x, e', u', hinv'⟩
    · exact ⟨t, .refl t, h⟩
    · have hrun := h.run_append ht (hc.trans hlocal.symm) hlocal hinv' le_rfl
      have hstop := hrun.trans (.single (.unavailable h.session (by
        simp only
        split_ifs
        · exact .inl rfl
        · exact .inr rfl)))
      refine ⟨_, hstop, h.session, h.conflict, ⟨rs ++ [x], e', ?_, ?_⟩, .inr (.inr ⟨rfl, ?_⟩)⟩
      · rw [← hc] at hinv'
        exact hinv'
      · rw [List.length_append, List.length_singleton, ← hlocal]
      · exact Nat.lt_succ_of_le (hc.trans hlocal.symm).le
  · obtain ⟨t₁, t₂, hrun, hnext, -, -, -, hfollows, -⟩ := h.returned ht hwf hw hcall
    exact ⟨t₂, hrun.trans (.single hnext), hfollows⟩

theorem Follows.reconcile (h : R.Follows w t) (ht : (spec (1000001 + k)).Reachable t) (net : RelayNetwork) :
    ∃ t', (spec (1000001 + k)).Run t t' ∧ R.Follows (R.guest.reconcileRemoteOver (R.port net) w).2 t' := by
  obtain ⟨rs, e, hinv, hlocal⟩ := h.heads
  obtain ⟨e', u', c', hinv', hrows, hheads⟩ := hinv.reconcile_heads net
  have hinvt := inv_reachable ht
  have hacked := hinvt.ackHead_le
  have h₁ := hinv'.acknowledged
  have h₂ := hinv'.submitted.trans hinv'.stored
  by_cases hall : t.ackHead = t.localHead
  · -- everything is acknowledged, and stays so
    obtain rfl : c' = t.ackHead := by omega
    obtain rfl : u' = t.remoteHead := by omega
    exact ⟨t, .refl t, h.session, h.conflict, ⟨rs, e', hinv', hlocal⟩, h.phase⟩
  · obtain ⟨hstopped, -⟩ : t.phase = .stopped ∧ t.ackHead < t.localHead := by
      rcases h.phase with hidle | hready | hstopped
      · have hidle' := hinvt.idle hidle
        have hexecuted := hinvt.executed_le
        have hremote := hinvt.remoteHead_le
        omega
      · exact absurd (hinvt.ready hready) hall
      · exact hstopped
    have hone := hinvt.busy (by rw [hstopped]; decide)
    have hexecuted := hinvt.executed_le
    have hremote := hinvt.remoteHead_le
    have hrecover := run_recover (k := k) h.session h.conflict hstopped (by omega)
    rcases hheads with hc | rfl
    · -- the acknowledgement arrives
      obtain rfl : u' = t.localHead := by omega
      obtain rfl : c' = t.localHead := by omega
      exact ⟨_, hrecover.trans (.single (.acknowledge h.session rfl h.conflict)), h.session, h.conflict,
        ⟨rs, e', hinv', hlocal⟩, .inr (.inl rfl)⟩
    · by_cases hsame : u' = t.remoteHead
      · subst hsame
        exact ⟨t, .refl t, h.session, h.conflict, ⟨rs, e', hinv', hlocal⟩, h.phase⟩
      · -- the checkpoint arrives, but its acknowledgement does not
        obtain rfl : u' = t.localHead := by omega
        exact ⟨_, hrecover.trans (.single (.unavailable h.session (.inr rfl))), h.session, h.conflict,
          ⟨rs, e', hinv', hlocal⟩, .inr (.inr ⟨rfl, by simp only; omega⟩)⟩

/-- The guest's calls are followed by the TLA+ module, for any `MaxCheckpoints` above what a store takes. -/
theorem follows_calls (R : Relay F) (k : ℕ) :
    System.Simulation R.calls (spec (1000001 + k)) R.Follows where
  init w hw := by
    rw [show w = blank from hw]
    refine ⟨{ initial with session := .opened }, ⟨initial, rfl, .single (.openSession rfl)⟩, rfl, rfl,
      ⟨[], 0, R.inv_blank, rfl⟩, .inl rfl⟩
  next w w' t ht h hnext := by
    obtain ⟨op, rfl⟩ := hnext
    cases op with
    | append payload net => exact h.append ht net payload.2.1 payload.2.2
    | reconcile net => exact h.reconcile ht net

/-- `BullSessionAudit.tla` is refined: after any calls of a guest, with any messages lost, some reachable state of
the module has the ledger's, the collector's and the checkpoint's heads. From there, an append that returns is a
run to a `ready` state, in which nothing of the new record is executed yet, and an `Execute`, and the record is
then the collector's last row. -/
theorem session_audit_refines (R : Relay F) (k : ℕ) (ops : List (Op F)) :
    ∃ t, (spec (1000001 + k)).Reachable t ∧ R.Follows (R.run ops) t ∧
      ∀ (payload : { payload : Fields F // (Json.obj payload).WF ∧
        (Json.obj payload).writable false = true }) (net : RelayNetwork) (hash : Str) (w' : RelayWorld),
        R.guest.appendPayloadOver (R.port net) payload.1 (R.run ops) = (.ok hash, w') →
        ∃ t₁ t₂, (spec (1000001 + k)).Run t t₁ ∧ Next (1000001 + k) t₁ t₂ ∧ t₁.phase = .ready ∧
          t₁.executed = t.localHead ∧ t₂.executed = t.localHead + 1 ∧ R.Follows w' t₂ ∧
          ∃ row, w'.rows.getLast? = some row ∧
            named row = (R.ledger.identity.session, t.localHead + 1, hash) := by
  have hreachable : R.calls.Reachable (R.run ops) := by
    induction ops using List.reverseRecOn with
    | nil => exact ⟨blank, rfl, .refl _⟩
    | append_singleton ops op ih =>
      rw [run, List.foldl_append]
      exact ih.run (.single ⟨op, rfl⟩)
  obtain ⟨t, ht, hfollows⟩ := (R.follows_calls k).reachable hreachable
  exact ⟨t, ht, hfollows, fun payload net hash w' hreturns =>
    hfollows.returned ht payload.2.1 payload.2.2 hreturns⟩

end Relay

end Bulldog.Audit
