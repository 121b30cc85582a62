import Bulldog.Anchor.Worker

/-!
# The two collectors

The Worker and the anchor store examine a checkpoint alike, and insert the same row. They differ on
one kind of message: an exact copy of a committed frame that is no longer the latest of its session.
The store refuses it, and the Worker acknowledges it again.
-/

namespace Bulldog.Anchor

variable {F : Type} [PyFloat F] {q : ℕ} {s h mac : Str} {previous : Option Str}

/-! ## Both collectors examine alike -/

/-- The MAC is the same where the canonical bytes are. -/
theorem macOf_eq_worker {C : Crypto} {fs : Fields F} {key : Bytes} {purpose : String}
    (h : canonical (fs.erase "mac") = .ok (encodeUtf8 (Worker.canonical (fs.erase "mac")))) :
    macOf C fs key purpose = .ok (Worker.macOf C fs key purpose) := by
  refine macOf_eq_ok.2 ⟨_, h, ?_⟩
  rw [Worker.macOf, encodeUtf8_append]
  rfl

theorem isHex64_workerMac (C : Crypto) (fs : Fields F) (key : Bytes) (purpose : String) :
    isHex64 (Worker.macOf C fs key purpose) = true :=
  isHex64_hexdigest (C.hmac_length _ _)

/-- What both collectors make of a checkpoint with all its fields. -/
theorem CheckpointMessage.canonical_eq {m : CheckpointMessage F}
    (hc : PlainCheckpoint q s h mac previous)
    (hm : m.fields.norm = checkpointFields q s h mac previous) :
    canonical m.fields = .ok (encodeUtf8 (Worker.canonical m.fields)) ∧
      (encodeUtf8 (Worker.canonical m.fields)).length ≤ maxFrame ∧
      canonical (m.fields.erase "mac") =
        .ok (encodeUtf8 (Worker.canonical (m.fields.erase "mac"))) := by
  refine ⟨hc.canonical_eq fun kv hkv => hm ▸ hkv, ?_, hc.canonical_eq fun kv hkv => ?_⟩
  · have hlen := hc.length_le (F := F)
    have hutf := length_encodeUtf8_le (Worker.canonical m.fields)
    rw [Worker.canonical, Json.norm_obj, hm] at hutf ⊢
    unfold maxFrame
    omega
  · rw [Fields.erase_norm, hm] at hkv
    exact List.mem_of_mem_filter hkv

omit [PyFloat F] in
theorem Worker.previousOf_eq_some {fs : Fields F} {p : Option Str} :
    Worker.previousOf fs = some p ↔
      previousHash ((fs.get "previous_hash").getD .null) = some p ∧ ∀ x ∈ p, isHex64 x = true := by
  unfold Worker.previousOf
  rcases (fs.get "previous_hash").getD .null with _ | _ | _ | _ | x | _ | _
  · simp only [previousHash, Option.some.injEq]
    exact ⟨fun hp => ⟨hp, by simp [← hp]⟩, fun hp => hp.1⟩
  · simp [previousHash]
  · simp [previousHash]
  · simp [previousHash]
  · simp only [previousHash, Option.ite_none_right_eq_some, Option.some.injEq]
    exact ⟨fun ⟨hx, hp⟩ => ⟨hp, by simpa [← hp] using hx⟩, fun ⟨hp, hx⟩ => ⟨hx x (by simp [← hp]), hp⟩⟩
  · simp [previousHash]
  · simp [previousHash]

theorem sessionKey_eq_ok {C : Crypto} {store : AnchorStore} {s : Str} {key : Bytes} :
    sessionKey C store.master s = .ok key ↔
      isHex64 s = true ∧ Worker.deriveSessionKey C store.master s = .ok key := by
  have hlen := store.master_length
  simp only [Worker.deriveSessionKey, bind_eq_ok, raiseIf_eq_ok, sessionKey]
  generalize C.hmac store.master _ = k
  by_cases hs : isHex64 s = true
  · simp [hs, not_lt.2 hlen, pure, Except.pure]
  · simp [hs]

/-- The Worker lets a checkpoint with all its fields through exactly when the anchor store does and
its previous hash is null or a digest, and reads the same off it. -/
theorem worker_examine_eq_ok {C : Crypto} {store : AnchorStore} {m : CheckpointMessage F}
    {sub : Submission} :
    Worker.examine C store.master m.fields = .ok sub ↔ store.examine C m.fields = .ok sub ∧
      ∃ p, sub.previous = some p ∧ ∀ x ∈ p, isHex64 x = true := by
  have hrecord : ∀ h, previousOf C m.fields h =
      .ok (previousHash ((m.fields.get "previous_hash").getD .null)) := fun h => by
    rw [previousOf, Fields.get_eq_none_iff.2 m.noRecord]
  rw [AnchorStore.examine_eq_ok]
  simp only [Worker.examine, Worker.verifyMac, bind_eq_ok, raiseIf_eq_ok, orRaise_eq_ok,
    Bool.not_eq_true', Bool.not_eq_false, List.any_eq_true, not_exists, not_and, not_not,
    decide_eq_true_eq]
  constructor
  · rintro ⟨_, hkeys, _, hv, s, hs, q, hq, h, hh, p, hp, key, hk, _, ⟨mac, hmac, hver⟩, hsub⟩
    cases hsub
    obtain ⟨hp, hphex⟩ := Worker.previousOf_eq_some.1 hp
    obtain ⟨sv, hsv, hs⟩ := Option.bind_eq_some_iff.1 hs
    obtain ⟨rfl, hshex⟩ := headOf_eq_some.1 hs
    have hs : (m.fields.get "session").bind strOf = some s := by rw [hsv]; rfl
    have hfields := hasFields_hashFields m.hasPrevious hkeys hv hs hq hh hmac
    have hm := norm_checkpoint m.nodup hfields hv hs hq hh hmac hp
    have hc : PlainCheckpoint q s h mac p := by
      obtain ⟨qv, -, hqv⟩ := Option.bind_eq_some_iff.1 hq
      obtain ⟨hv, -, hhv⟩ := Option.bind_eq_some_iff.1 hh
      exact ⟨sequenceOf_lt hqv, hshex, (headOf_eq_some.1 hhv).2,
        hver ▸ isHex64_workerMac C m.fields key "checkpoint", hphex⟩
    obtain ⟨hcanonical, hlen, hbody⟩ := CheckpointMessage.canonical_eq hc hm
    obtain ⟨mv, hmv, hmac⟩ := Option.bind_eq_some_iff.1 hmac
    refine ⟨⟨.inr hfields, hv, hs, sessionKey_eq_ok.2 ⟨hshex, hk⟩, hcanonical, hlen, ?_, hq, hh, ?_⟩,
      p, rfl, hphex⟩
    · exact verify_eq_ok.2 ⟨mac, (macOf_eq_worker hbody).trans (by rw [hver]),
        hmv.trans (congrArg some (strOf_eq_some hmac))⟩
    · rw [hrecord, hp]
  · rintro ⟨hex, p, hp, hphex⟩
    have hfields : hasFields m.fields hashFields = true := by
      rcases hex.fields with hf | hf
      · simp only [hasFields, Bool.and_eq_true, List.all_eq_true, decide_eq_true_eq] at hf
        exact absurd (hf.2 _ List.mem_cons_self) m.noRecord
      · exact hf
    have hprev : previousHash ((m.fields.get "previous_hash").getD .null) = some p :=
      Except.ok.inj ((hrecord _).symm.trans (hex.previous.trans (congrArg _ hp)))
    obtain ⟨hshex, hkey⟩ := sessionKey_eq_ok.1 hex.key
    obtain ⟨mac, hmac, hget⟩ := verify_eq_ok.1 hex.verified
    have hstr : (m.fields.get "mac").bind strOf = some mac := by rw [hget]; rfl
    have hm := norm_checkpoint m.nodup hfields hex.version hex.session hex.sequence hex.head hstr hprev
    have hc : PlainCheckpoint sub.sequence sub.session sub.head mac p := by
      obtain ⟨qv, -, hqv⟩ := Option.bind_eq_some_iff.1 hex.sequence
      obtain ⟨hv, -, hhv⟩ := Option.bind_eq_some_iff.1 hex.head
      obtain ⟨body, -, rfl⟩ := macOf_eq_ok.1 hmac
      exact ⟨sequenceOf_lt hqv, hshex, (headOf_eq_some.1 hhv).2,
        isHex64_hexdigest (C.hmac_length _ _), hphex⟩
    obtain ⟨hcanonical, -, hbody⟩ := CheckpointMessage.canonical_eq hc hm
    have hkeys : ∀ k ∈ m.fields.keys, k ∈ hashFields := by
      simp only [hasFields, Bool.and_eq_true, List.all_eq_true, decide_eq_true_eq] at hfields
      exact hfields.1
    have hsession : (m.fields.get "session").bind headOf = some sub.session := by
      obtain ⟨v, hv, hv'⟩ := Option.bind_eq_some_iff.1 hex.session
      rw [hv, Option.bind_some]
      exact headOf_eq_some.2 ⟨strOf_eq_some hv', hshex⟩
    refine ⟨(), hkeys, (), hex.version, _, hsession, _, hex.sequence, _, hex.head, p,
      Worker.previousOf_eq_some.2 ⟨hprev, hphex⟩, _, hkey, (), ⟨mac, hstr, ?_⟩, ?_⟩
    · exact Except.ok.inj ((macOf_eq_worker hbody).symm.trans hmac)
    · rw [Except.ok.inj (hcanonical.symm.trans hex.frame), ← hp]
      rfl

/-! ## Both collectors commit alike -/

/-- The previous hash of a submission is null or a digest. -/
def Submission.PreviousDigest (sub : Submission) : Prop :=
  ∃ p, sub.previous = some p ∧ ∀ x ∈ p, isHex64 x = true

/-- The checkpoint after a digest has a digest as its previous hash. -/
theorem Submission.Next.previousDigest {last : Option Row} {sub : Submission}
    (hlast : ∀ row ∈ last, isHex64 row.head = true) (hnext : sub.Next last) :
    sub.PreviousDigest := by
  refine ⟨_, hnext.2, fun x hx => ?_⟩
  obtain ⟨row, hrow, rfl⟩ := Option.map_eq_some_iff.1 hx
  exact hlast row hrow

theorem History.previousDigest {subs : List Submission} (hist : History subs)
    (hhex : ∀ sub ∈ subs, isHex64 sub.head = true) : ∀ sub ∈ subs, sub.PreviousDigest := by
  induction subs using List.reverseRecOn with
  | nil => simp
  | append_singleton subs last ih =>
    obtain ⟨hist, hnext⟩ := history_concat.1 hist
    intro sub hsub
    rcases List.mem_append.1 hsub with hsub | hsub
    · exact ih hist (fun x hx => hhex x (List.mem_append_left _ hx)) sub hsub
    · rw [List.mem_singleton.1 hsub]
      refine hnext.previousDigest fun row hrow => ?_
      obtain ⟨x, hx, rfl⟩ := Option.map_eq_some_iff.1 hrow
      exact hhex x (List.mem_append_left _ (List.mem_of_getLast? hx))

section Step

variable {C : Crypto} {store : AnchorStore} {ds : List (Delivery F)} {rows : List Row}

theorem Traced.head_hex (ht : Traced C store ds rows) : ∀ row ∈ rows, isHex64 row.head = true := by
  obtain ⟨subs, rfl, hfrom, -⟩ := ht
  intro row hrow
  obtain ⟨sub, hsub, rfl⟩ := List.mem_map.1 hrow
  obtain ⟨d, -, hex⟩ := hfrom sub hsub
  obtain ⟨v, -, hv⟩ := Option.bind_eq_some_iff.1 (AnchorStore.examine_eq_ok.1 hex).head
  exact (headOf_eq_some.1 hv).2

/-- A message whose frame is in the store has a digest as its previous hash. -/
theorem Traced.previousDigest (ht : Traced C store ds rows) {fs : Fields F} {sub : Submission}
    (hex : store.examine C fs = .ok sub) {row : Row} (hrow : row ∈ rows)
    (hframe : sub.frame = row.frame) : sub.PreviousDigest := by
  have hheads := ht.head_hex
  obtain ⟨subs, rfl, hfrom, hhist⟩ := ht
  obtain ⟨sub', hsub', rfl⟩ := List.mem_map.1 hrow
  obtain ⟨d, -, hex'⟩ := hfrom sub' hsub'
  have hframe' := (AnchorStore.examine_eq_ok.1 hex').frame
  have hnorm := (canonical_eq_iff hframe').1
    ((AnchorStore.examine_eq_ok.1 hex).frame.trans (congrArg _ hframe))
  obtain rfl : sub = sub' :=
    Except.ok.inj (hex.symm.trans ((store.examine_congr C hnorm).trans hex'))
  refine (hhist sub.session).previousDigest (fun x hx => ?_) sub (List.mem_filter.2 ⟨hsub', by simp⟩)
  exact hheads x.row (List.mem_map_of_mem (List.mem_of_mem_filter hx))

/-- Where previous hashes are digests, the `WHERE` clause says what the anchor store checks. -/
theorem admits_iff {last : Option Row} (hlast : ∀ row ∈ last, isHex64 row.head = true)
    {sub : Submission} (hsub : sub.PreviousDigest) : Worker.Admits last sub ↔ sub.Next last := by
  have hne : ∀ x, isHex64 x = true → x ≠ [] := by
    rintro x hx rfl
    cases hx
  obtain ⟨p, hp, hphex⟩ := hsub
  unfold Worker.Admits Submission.Next
  rw [hp]
  match last, p with
  | none, none => simp
  | none, some x => simpa using fun _ => hne x (hphex x rfl)
  | some row, none => simpa using fun _ => (hne _ (hlast row rfl)).symm
  | some row, some x => simp

/-- There is no row yet where the next checkpoint goes. -/
theorem rowAt_of_next {sub : Submission} (hnext : sub.Next (latest rows sub.session)) :
    Worker.rowAt rows sub.session sub.sequence = none := by
  refine List.find?_eq_none.2 fun row hrow hc => ?_
  obtain ⟨hs, hq⟩ : row.session = sub.session ∧ row.sequence = sub.sequence := by simpa using hc
  have hmem : row ∈ sessionRows rows sub.session := List.mem_filter.2 ⟨hrow, by simpa using hs⟩
  rcases hl : latest rows sub.session with _ | last
  · rw [latest, List.argmax_eq_none] at hl
    rw [hl] at hmem
    cases hmem
  · have hle : row.sequence ≤ last.sequence := List.le_of_mem_argmax hmem hl
    have hseq := hnext.1
    rw [hl] at hseq
    change sub.sequence = last.sequence + 1 at hseq
    omega

/-- Rows of a session differ in their sequences. -/
theorem Traced.eq_of_sequence (ht : Traced C store ds rows) {row row' : Row} (hrow : row ∈ rows)
    (hrow' : row' ∈ rows) (hs : row.session = row'.session) (hq : row.sequence = row'.sequence) :
    row = row' := by
  obtain ⟨subs, rfl, -, hhist⟩ := ht
  have hnodup : ((sessionRows (subs.map Submission.row) row.session).map Row.sequence).Nodup := by
    have hmap : ((subs.filter (·.session = row.session)).map Submission.row).map Row.sequence =
        (subs.filter (·.session = row.session)).map Submission.sequence := by
      rw [List.map_map]
      rfl
    rw [sessionRows_map, hmap, (hhist row.session).sequences]
    exact List.nodup_range'
  exact List.inj_on_of_nodup_map hnodup (List.mem_filter.2 ⟨hrow, by simp⟩)
    (List.mem_filter.2 ⟨hrow', by simp [hs]⟩) hq

/-- The row that the Worker finds is the submission's own exactly when that is committed. -/
theorem Traced.rowAt_iff (ht : Traced C store ds rows) (sub : Submission) :
    (∃ row, Worker.rowAt rows sub.session sub.sequence = some row ∧
      row.head = sub.head ∧ row.frame = sub.frame) ↔ sub.row ∈ rows := by
  have hkey : ∀ row : Row, Worker.rowAt rows sub.session sub.sequence = some row →
      row ∈ rows ∧ row.session = sub.session ∧ row.sequence = sub.sequence := fun row hrow =>
    ⟨List.mem_of_find?_eq_some hrow, by simpa using List.find?_some hrow⟩
  constructor
  · rintro ⟨row, hrow, hhead, hframe⟩
    obtain ⟨hmem, hs, hq⟩ := hkey row hrow
    have hrow : row = sub.row := by
      cases row
      simp_all [Submission.row]
    exact hrow ▸ hmem
  · intro hmem
    rcases hat : Worker.rowAt rows sub.session sub.sequence with _ | row
    · have hnone := List.find?_eq_none.1 hat sub.row hmem
      simp [Submission.row] at hnone
    · obtain ⟨hrow, hs, hq⟩ := hkey row hat
      rw [ht.eq_of_sequence hrow hmem hs hq]
      exact ⟨sub.row, rfl, rfl, rfl⟩

/-- A retry is of the submission's own row. -/
theorem Traced.retry_iff (ht : Traced C store ds rows) {fs : Fields F} {sub : Submission}
    (hex : store.examine C fs = .ok sub) :
    sub.Retry (latest rows sub.session) ↔ latest rows sub.session = some sub.row := by
  constructor
  · rintro ⟨row, hrow, -, hframe⟩
    obtain ⟨sub', hex', rfl⟩ := ht.of_frame (mem_of_latest hrow).1
      ((AnchorStore.examine_eq_ok.1 hex).frame.trans (congrArg _ hframe))
    cases hex.symm.trans hex'
    exact hrow
  · exact fun hl => ⟨sub.row, hl, rfl, rfl⟩

/-- The outcome of a call is an acknowledgement. -/
def Acked (outcome : Except Exc (Fields F)) : Prop := ∃ ack, outcome = .ok ack

/-- The Worker acknowledges when the row that is there after its `INSERT` is the checkpoint's. -/
theorem fetch_spec {fs : Fields F} {sub : Submission} {master : Bytes}
    (hex : Worker.examine C master fs = .ok sub) (rows : List Row) :
    (Worker.fetch C master fs rows).2 = Worker.insert rows sub ∧
      (Acked (Worker.fetch C master fs rows).1 ↔
        ∃ row, Worker.rowAt (Worker.insert rows sub) sub.session sub.sequence = some row ∧
          row.head = sub.head ∧ row.frame = sub.frame) := by
  simp only [Worker.fetch, Action.bind_apply, Action.lift_apply, hex, Action.update, Action.read]
  rcases Worker.rowAt (Worker.insert rows sub) sub.session sub.sequence with _ | row
  · simp [orRaise, Acked]
  · by_cases hrow : row.head ≠ sub.head ∨ row.frame ≠ sub.frame
    · simp only [orRaise, raiseIf, if_pos hrow]
      refine ⟨trivial, ?_, ?_⟩
      · rintro ⟨_, ⟨⟩⟩
      · rintro ⟨_, ⟨⟩, hhead, hframe⟩
        exact absurd hrow (by simp [hhead, hframe])
    · simp only [orRaise, raiseIf, if_neg hrow, Action.pure_apply]
      simp only [not_or, not_not] at hrow
      exact ⟨trivial, fun _ => ⟨row, rfl, hrow⟩, fun _ => ⟨_, rfl⟩⟩

theorem fetch_error {fs : Fields F} {e : Exc} {master : Bytes}
    (hex : Worker.examine C master fs = .error e) (rows : List Row) :
    Worker.fetch C master fs rows = (.error e, rows) := by
  simp only [Worker.fetch, Action.bind_apply, Action.lift_apply, hex]

/-- What the Worker does with a checkpoint that it lets through. -/
theorem Traced.fetch_cases (ht : Traced C store ds rows) {fs : Fields F} {sub : Submission}
    (hex : Worker.examine C store.master fs = .ok sub) (hp : sub.PreviousDigest) :
    (sub.Next (latest rows sub.session) → Acked (Worker.fetch C store.master fs rows).1 ∧
      (Worker.fetch C store.master fs rows).2 = rows ++ [sub.row]) ∧
    (¬ sub.Next (latest rows sub.session) →
      (Acked (Worker.fetch C store.master fs rows).1 ↔ sub.row ∈ rows) ∧
      (Worker.fetch C store.master fs rows).2 = rows) := by
  have hadmits : Worker.Admits (latest rows sub.session) sub ↔
      sub.Next (latest rows sub.session) :=
    admits_iff (fun row hrow => ht.head_hex row (mem_of_latest hrow).1) hp
  obtain ⟨hrows, hacked⟩ := fetch_spec hex rows
  rw [hrows, hacked]
  constructor
  · intro hnext
    have hnone := rowAt_of_next hnext
    have hinsert : Worker.insert rows sub = rows ++ [sub.row] :=
      if_pos ⟨hadmits.2 hnext, hnone⟩
    rw [hinsert]
    refine ⟨⟨sub.row, ?_, rfl, rfl⟩, rfl⟩
    rw [Worker.rowAt] at hnone ⊢
    rw [List.find?_append, hnone]
    simp [Submission.row]
  · intro hnext
    have hinsert : Worker.insert rows sub = rows := if_neg fun h => hnext (hadmits.1 h.1)
    rw [hinsert]
    exact ⟨ht.rowAt_iff sub, rfl⟩

/-- A copy of a committed frame that is no longer the latest of its session. -/
def Stale (rows : List Row) (message : Fields F) : Prop :=
  ∃ row ∈ rows, canonical message = .ok row.frame ∧ latest rows row.session ≠ some row

/-- What the anchor store does with a checkpoint that it lets through, budget aside. -/
theorem Traced.accept_outcome (ht : Traced C store ds rows) {fs : Fields F} {sub : Submission}
    (hex : store.examine C fs = .ok sub) {pageBytes : ℕ}
    (hbudget : pageBytes + maxFrame + 16384 ≤ store.maxBytes) :
    (sub.Next (latest rows sub.session) → Acked (store.accept C fs pageBytes rows).1 ∧
      (store.accept C fs pageBytes rows).2 = rows ++ [sub.row]) ∧
    (¬ sub.Next (latest rows sub.session) →
      (Acked (store.accept C fs pageBytes rows).1 ↔ latest rows sub.session = some sub.row) ∧
      (store.accept C fs pageBytes rows).2 = rows) := by
  have hexamined := AnchorStore.examine_eq_ok.1 hex
  obtain ⟨v, -, hv⟩ := Option.bind_eq_some_iff.1 hexamined.sequence
  have hmac := acknowledge_ok (F := F) C sub.session sub.head sub.key (sequenceOf_lt hv)
  have hlen := hexamined.frame_length
  rw [← ht.retry_iff hex]
  have hexcl : sub.Next (latest rows sub.session) → ¬ sub.Retry (latest rows sub.session) := by
    rintro hnext ⟨row, hrow, hseq, -⟩
    have hn := hnext.1
    rw [Option.mem_def.1 hrow] at hn
    change sub.sequence = row.sequence + 1 at hn
    omega
  rcases AnchorStore.accept_cases hex pageBytes rows with
    ⟨hretry, hc⟩ | ⟨hretry, hnext, -, hc⟩ | ⟨hretry, hb, e, hc⟩
  · rw [hc, hmac]
    exact ⟨fun hnext => absurd hretry (hexcl hnext), fun _ => ⟨⟨fun _ => hretry, fun _ => ⟨_, rfl⟩⟩, rfl⟩⟩
  · rw [hc, hmac]
    exact ⟨fun _ => ⟨⟨_, rfl⟩, rfl⟩, fun h => absurd hnext h⟩
  · rw [hc]
    exact ⟨fun hnext => absurd (hb hnext) (by omega),
      fun _ => ⟨⟨nofun, fun h => absurd h hretry⟩, rfl⟩⟩

/-- Both collectors do the same to their rows, and acknowledge alike unless the message is stale. -/
theorem Traced.collectors_step (ht : Traced C store ds rows) (m : CheckpointMessage F)
    {pageBytes : ℕ} (hbudget : pageBytes + maxFrame + 16384 ≤ store.maxBytes) :
    (Worker.fetch C store.master m.fields rows).2 =
        (store.accept C m.fields pageBytes rows).2 ∧
      ((Acked (Worker.fetch C store.master m.fields rows).1 ↔
          Acked (store.accept C m.fields pageBytes rows).1) ↔ ¬ Stale rows m.fields) := by
  rcases hex : store.examine C m.fields with e | sub
  · have hstale : ¬ Stale rows m.fields := by
      rintro ⟨row, hrow, hframe, -⟩
      obtain ⟨sub, hex', -⟩ := ht.of_frame hrow hframe
      cases hex.symm.trans hex'
    rcases hw : Worker.examine C store.master m.fields with e' | sub
    · rw [fetch_error hw, AnchorStore.accept_error hex]
      exact ⟨rfl, fun _ => hstale, fun _ => ⟨nofun, nofun⟩⟩
    · cases hex.symm.trans (worker_examine_eq_ok.1 hw).1
  have hown : ∀ row ∈ rows, canonical m.fields = .ok row.frame → row = sub.row := by
    intro row hrow hframe
    obtain ⟨sub', hex', rfl⟩ := ht.of_frame hrow hframe
    cases hex.symm.trans hex'
    rfl
  have hstale : Stale rows m.fields ↔ sub.row ∈ rows ∧ latest rows sub.session ≠ some sub.row := by
    constructor
    · rintro ⟨row, hrow, hframe, hlatest⟩
      obtain rfl := hown row hrow hframe
      exact ⟨hrow, hlatest⟩
    · rintro ⟨hrow, hlatest⟩
      exact ⟨sub.row, hrow, (AnchorStore.examine_eq_ok.1 hex).frame, hlatest⟩
  obtain ⟨hnextA, hotherA⟩ := ht.accept_outcome hex hbudget
  by_cases hp : sub.PreviousDigest
  · have hw := worker_examine_eq_ok.2 ⟨hex, hp⟩
    obtain ⟨hnextW, hotherW⟩ := ht.fetch_cases hw hp
    by_cases hnext : sub.Next (latest rows sub.session)
    · obtain ⟨hA, hrowsA⟩ := hnextA hnext
      obtain ⟨hW, hrowsW⟩ := hnextW hnext
      refine ⟨hrowsW.trans hrowsA.symm, fun _ => ?_, fun _ => ⟨fun _ => hA, fun _ => hW⟩⟩
      rw [hstale]
      rintro ⟨hmem, -⟩
      obtain ⟨row, hrow, -⟩ := (ht.rowAt_iff sub).2 hmem
      rw [rowAt_of_next hnext] at hrow
      cases hrow
    · obtain ⟨hA, hrowsA⟩ := hotherA hnext
      obtain ⟨hW, hrowsW⟩ := hotherW hnext
      refine ⟨hrowsW.trans hrowsA.symm, ?_⟩
      rw [hA, hW, hstale]
      constructor
      · rintro h ⟨hmem, hlatest⟩
        exact hlatest (h.1 hmem)
      · intro h
        exact ⟨fun hmem => by_contra fun hlatest => h ⟨hmem, hlatest⟩,
          fun hlatest => (mem_of_latest hlatest).1⟩
  · have hmem : sub.row ∉ rows := fun hmem => hp (ht.previousDigest hex hmem rfl)
    have hnext : ¬ sub.Next (latest rows sub.session) := fun hnext =>
      hp (hnext.previousDigest fun row hrow => ht.head_hex row (mem_of_latest hrow).1)
    have hlatest : latest rows sub.session ≠ some sub.row := fun hl => hmem (mem_of_latest hl).1
    obtain ⟨hA, hrowsA⟩ := hotherA hnext
    rcases hw : Worker.examine C store.master m.fields with e' | sub'
    · rw [fetch_error hw, hrowsA, hA, hstale]
      refine ⟨rfl, fun _ h => hmem h.1, fun _ => ⟨nofun, fun h => absurd h hlatest⟩⟩
    · obtain ⟨hex', hp'⟩ := worker_examine_eq_ok.1 hw
      cases hex.symm.trans hex'
      exact absurd hp' hp

end Step

/-! ## Runs -/

/-- The same `(session, sequence, head)` rows. -/
def SameRows (a b : List Row) : Prop :=
  ∀ s q h, (∃ row ∈ a, row.session = s ∧ row.sequence = q ∧ row.head = h) ↔
    ∃ row ∈ b, row.session = s ∧ row.sequence = q ∧ row.head = h

/-- The rows of the anchor store after a sequence of messages, each with the size of the database at
its call. -/
def storeRows (C : Crypto) (store : AnchorStore) (ms : List (CheckpointMessage F × ℕ)) : List Row :=
  store.rowsAfter C (ms.map fun m => ⟨m.1.fields, m.2⟩)

/-- The rows of the Worker after the same messages. -/
def workerRows (C : Crypto) (store : AnchorStore) (ms : List (CheckpointMessage F × ℕ)) : List Row :=
  Worker.rowsAfter C store.master (ms.map fun m => m.1.fields)

/-- After every run both collectors have the same rows. -/
theorem workerRows_eq (C : Crypto) (store : AnchorStore) (ms : List (CheckpointMessage F × ℕ))
    (hbudget : ∀ m ∈ ms, m.2 + maxFrame + 16384 ≤ store.maxBytes) :
    workerRows C store ms = storeRows C store ms := by
  induction ms using List.reverseRecOn with
  | nil => rfl
  | append_singleton ms m ih =>
    have hrows := ih fun x hx => hbudget x (List.mem_append_left _ hx)
    rw [workerRows, storeRows] at hrows ⊢
    rw [List.map_append, List.map_append, List.map_singleton, List.map_singleton,
      Worker.rowsAfter_concat, AnchorStore.rowsAfter_concat, hrows]
    exact ((traced_rowsAfter C store _).collectors_step m.1 (hbudget m (by simp))).1

/-- Over any run of checkpoints, storage budget aside, the two collectors acknowledge the same
messages and hold the same rows after each, exactly when no message of the run is a copy of a
committed frame that is no longer the latest of its session. -/
theorem collectors_agree_iff (C : Crypto) (store : AnchorStore)
    (ms : List (CheckpointMessage F × ℕ))
    (hbudget : ∀ m ∈ ms, m.2 + maxFrame + 16384 ≤ store.maxBytes) :
    (∀ before m after, ms = before ++ m :: after →
      (Acked (Worker.fetch C store.master m.1.fields (workerRows C store before)).1 ↔
        Acked (store.accept C m.1.fields m.2 (storeRows C store before)).1) ∧
      SameRows (workerRows C store (before ++ [m])) (storeRows C store (before ++ [m]))) ↔
    ∀ before m after, ms = before ++ m :: after → ¬ Stale (storeRows C store before) m.1.fields := by
  refine forall_congr' fun before => forall_congr' fun m => forall_congr' fun after =>
    forall_congr' fun hms => ?_
  have hbefore : ∀ x ∈ before ++ [m], x.2 + maxFrame + 16384 ≤ store.maxBytes := fun x hx =>
    hbudget x (hms ▸ List.append_cons before m after ▸ List.mem_append_left _ hx)
  have ht : Traced C store (before.map fun m => ⟨m.1.fields, m.2⟩) (storeRows C store before) :=
    traced_rowsAfter C store _
  have hstep := (ht.collectors_step m.1 (hbefore m (by simp))).2
  rw [workerRows_eq C store before fun x hx => hbefore x (List.mem_append_left _ hx),
    workerRows_eq C store _ hbefore]
  exact ⟨fun h => hstep.1 h.1, fun h => ⟨hstep.2 h, fun _ _ _ => Iff.rfl⟩⟩

/-! ## A stale replay -/

/-- Nothing is stale in an empty store. -/
theorem not_stale_nil (message : Fields F) : ¬ Stale [] message := by
  rintro ⟨row, hrow, -⟩
  cases hrow

/-- A checkpoint that a transport sends, as a message. -/
def hashMessage (C : Crypto) (s : Str) (q : ℕ) (h : Str) (previous : Option Str) (key : Bytes) :
    CheckpointMessage F where
  fields := hashCheckpoint C s q h previous key
  nodup := by
    have hkeys : ["version".toList, "session".toList, "sequence".toList, "head_hash".toList,
      "previous_hash".toList, "mac".toList].Nodup := by decide
    exact hkeys
  hasPrevious := by simp [Fields.keys, hashCheckpoint, hashBody]
  noRecord := by simp [Fields.keys, hashCheckpoint, hashBody]
  noFloat := by
    intro kv hkv f
    simp only [hashCheckpoint, hashBody, List.cons_append, List.nil_append, List.mem_cons,
      List.not_mem_nil, or_false] at hkv
    rcases hkv with rfl | rfl | rfl | rfl | rfl | rfl
    · exact fun heq => by cases heq
    · exact fun heq => by cases heq
    · exact fun heq => by cases heq
    · exact fun heq => by cases heq
    · cases previous <;> exact fun heq => by cases heq
    · exact fun heq => by cases heq

/-- A store with a key of 32 zero bytes. -/
def replayStore : AnchorStore := ⟨List.replicate 32 0, 256 * 1024 ^ 2, by decide⟩

/-- The session of the replay. -/
def replaySession : Str := List.replicate 64 'a'

/-- Its key. -/
def replayKey : Bytes :=
  Crypto.standard.hmac replayStore.master
    (encodeUtf8 ("bull-anchor-session-v1:".toList ++ replaySession))

/-- The first checkpoint of the session. -/
def replayFirst : CheckpointMessage Literal :=
  hashMessage .standard replaySession 1 (List.replicate 64 'b') none replayKey

/-- The second. -/
def replaySecond : CheckpointMessage Literal :=
  hashMessage .standard replaySession 2 (List.replicate 64 'c') (some (List.replicate 64 'b'))
    replayKey

/-- Another session. -/
def otherSession : Str := List.replicate 64 'd'

/-- Its key. -/
def otherKey : Bytes :=
  Crypto.standard.hmac replayStore.master
    (encodeUtf8 ("bull-anchor-session-v1:".toList ++ otherSession))

/-- Its first checkpoint. -/
def otherFirst : CheckpointMessage Literal :=
  hashMessage .standard otherSession 1 (List.replicate 64 'b') none otherKey

theorem otherKey_eq : sessionKey .standard replayStore.master otherSession = .ok otherKey := by
  have hhex : isHex64 otherSession = true := by decide
  simp only [sessionKey, hhex]
  rfl

theorem replayKey_eq : sessionKey .standard replayStore.master replaySession = .ok replayKey := by
  have hhex : isHex64 replaySession = true := by decide
  simp only [sessionKey, hhex]
  rfl

theorem storeRows_next {C : Crypto} {store : AnchorStore} (ms : List (CheckpointMessage F × ℕ))
    {m : CheckpointMessage F × ℕ} {sub : Submission} (hex : store.examine C m.1.fields = .ok sub)
    (hbudget : m.2 + maxFrame + 16384 ≤ store.maxBytes)
    (hnext : sub.Next (latest (storeRows C store ms) sub.session)) :
    storeRows C store (ms ++ [m]) = storeRows C store ms ++ [sub.row] := by
  have ht : Traced C store (ms.map fun m => ⟨m.1.fields, m.2⟩) (storeRows C store ms) :=
    traced_rowsAfter C store _
  have hrows := ((ht.accept_outcome hex hbudget).1 hnext).2
  rw [← hrows, storeRows, List.map_append, List.map_singleton, AnchorStore.rowsAfter_concat]
  rfl

/-- Once its successor is committed, a copy of a checkpoint is stale. -/
theorem stale_of_successor {C : Crypto} {store : AnchorStore} (ms : List (CheckpointMessage F × ℕ))
    {m₁ m₂ : CheckpointMessage F × ℕ} {sub₁ sub₂ : Submission}
    (hex₁ : store.examine C m₁.1.fields = .ok sub₁) (hex₂ : store.examine C m₂.1.fields = .ok sub₂)
    (hb₁ : m₁.2 + maxFrame + 16384 ≤ store.maxBytes)
    (hb₂ : m₂.2 + maxFrame + 16384 ≤ store.maxBytes)
    (hnext₁ : sub₁.Next (latest (storeRows C store ms) sub₁.session))
    (hsession : sub₂.session = sub₁.session) (hnext₂ : sub₂.Next (some sub₁.row)) :
    Stale (storeRows C store (ms ++ [m₁] ++ [m₂])) m₁.1.fields := by
  have hrows₁ := storeRows_next ms hex₁ hb₁ hnext₁
  have hlatest₁ : latest (storeRows C store (ms ++ [m₁])) sub₂.session = some sub₁.row := by
    rw [hrows₁, hsession]
    exact latest_concat hnext₁
  rw [← hlatest₁] at hnext₂
  rw [storeRows_next _ hex₂ hb₂ hnext₂]
  refine ⟨sub₁.row, List.mem_append_left _ (mem_of_latest hlatest₁).1,
    (AnchorStore.examine_eq_ok.1 hex₁).frame, fun hlatest => ?_⟩
  change latest _ sub₁.session = _ at hlatest
  rw [← hsession] at hlatest
  have hrow := (latest_concat hnext₂).symm.trans hlatest
  rw [hlatest₁] at hnext₂
  have hseq : sub₂.sequence = sub₁.sequence := congrArg Row.sequence (Option.some.inj hrow)
  have hsucc : sub₂.sequence = sub₁.sequence + 1 := hnext₂.1
  omega

/-- After both checkpoints a copy of the first is stale. -/
theorem replay_stale : Stale (storeRows .standard replayStore [(replayFirst, 0), (replaySecond, 0)])
    replayFirst.fields := by
  have hform₁ : HashForm replaySession 1 (List.replicate 64 'b') none :=
    ⟨by decide, by decide, by decide, nofun⟩
  have hform₂ : HashForm replaySession 2 (List.replicate 64 'c')
      (some (List.replicate 64 'b')) := ⟨by decide, by decide, by decide, by rintro p ⟨⟩; decide⟩
  have hfirst := hform₁.examine_eq (F := Literal) (by decide) replayKey_eq
  have hsecond := hform₂.examine_eq (F := Literal) (by decide) replayKey_eq
  exact @stale_of_successor Literal _ _ _ [] (replayFirst, 0) (replaySecond, 0) _ _ hfirst hsecond
    (by decide) (by decide) ⟨rfl, rfl⟩ rfl ⟨rfl, rfl⟩

/-- A checkpoint that is not the next of its session leaves the rows of the anchor store alone. -/
theorem storeRows_not_next {C : Crypto} {store : AnchorStore} (ms : List (CheckpointMessage F × ℕ))
    {m : CheckpointMessage F × ℕ} {sub : Submission} (hex : store.examine C m.1.fields = .ok sub)
    (hbudget : m.2 + maxFrame + 16384 ≤ store.maxBytes)
    (hnext : ¬ sub.Next (latest (storeRows C store ms) sub.session)) :
    storeRows C store (ms ++ [m]) = storeRows C store ms := by
  have ht : Traced C store (ms.map fun m => ⟨m.1.fields, m.2⟩) (storeRows C store ms) :=
    traced_rowsAfter C store _
  have hrows := ((ht.accept_outcome hex hbudget).2 hnext).2
  rw [storeRows, List.map_append, List.map_singleton, AnchorStore.rowsAfter_concat]
  exact hrows

/-- Nothing is stale while every row is the latest of its session. -/
theorem not_stale_of_latest {rows : List Row} (h : ∀ row ∈ rows, latest rows row.session = some row)
    (message : Fields F) : ¬ Stale rows message := by
  rintro ⟨row, hrow, -, hlatest⟩
  exact hlatest (h row hrow)

/-- Two checkpoints of one session, the first of them sent twice, with one of another session
between. -/
def retryRun : List (CheckpointMessage Literal × ℕ) :=
  [(replayFirst, 0), (replayFirst, 0), (otherFirst, 0), (replaySecond, 0)]

/-- No message of that run is stale when it comes. -/
theorem retryRun_fresh (before : List (CheckpointMessage Literal × ℕ))
    (m : CheckpointMessage Literal × ℕ) (after : List (CheckpointMessage Literal × ℕ))
    (h : retryRun = before ++ m :: after) :
    ¬ Stale (storeRows .standard replayStore before) m.1.fields := by
  have hform : HashForm replaySession 1 (List.replicate 64 'b') none :=
    ⟨by decide, by decide, by decide, nofun⟩
  have hother : HashForm otherSession 1 (List.replicate 64 'b') none :=
    ⟨by decide, by decide, by decide, nofun⟩
  have hexamine := hform.examine_eq (F := Literal) (by decide) replayKey_eq
  have hexamineOther := hother.examine_eq (F := Literal) (by decide) otherKey_eq
  set row := (hashSubmission Literal .standard replaySession 1 (List.replicate 64 'b') none
    replayKey).row
  set rowOther := (hashSubmission Literal .standard otherSession 1 (List.replicate 64 'b') none
    otherKey).row
  have hone : storeRows .standard replayStore [(replayFirst, 0)] = [row] :=
    storeRows_next (m := (replayFirst, 0)) [] hexamine (by decide) ⟨rfl, rfl⟩
  -- the retry is not the next checkpoint, so it adds no row
  have htwo : storeRows .standard replayStore [(replayFirst, 0), (replayFirst, 0)] = [row] :=
    (storeRows_not_next (m := (replayFirst, 0)) [(replayFirst, 0)] hexamine (by decide)
      (hone ▸ fun hnext => absurd hnext.1 (by decide))).trans hone
  have hthree : storeRows .standard replayStore
      [(replayFirst, 0), (replayFirst, 0), (otherFirst, 0)] = [row, rowOther] :=
    (storeRows_next (m := (otherFirst, 0)) [(replayFirst, 0), (replayFirst, 0)] hexamineOther
      (by decide) (htwo ▸ ⟨rfl, rfl⟩)).trans (htwo ▸ rfl)
  have hsingle : ∀ r ∈ [row], latest [row] r.session = some r := by
    intro r hr
    obtain rfl := List.mem_singleton.1 hr
    rfl
  have hpair : ∀ r ∈ [row, rowOther], latest [row, rowOther] r.session = some r := by
    intro r hr
    simp only [List.mem_cons, List.not_mem_nil, or_false] at hr
    rcases hr with rfl | rfl <;> rfl
  rcases before with _ | ⟨_, _ | ⟨_, _ | ⟨_, _ | ⟨_, before⟩⟩⟩⟩
  · exact not_stale_nil m.1.fields
  all_goals simp only [retryRun, List.cons_append, List.nil_append, List.cons.injEq] at h
  · obtain ⟨rfl, -⟩ := h
    exact hone ▸ not_stale_of_latest hsingle m.1.fields
  · obtain ⟨rfl, rfl, -⟩ := h
    exact htwo ▸ not_stale_of_latest hsingle m.1.fields
  · obtain ⟨rfl, rfl, rfl, -⟩ := h
    exact hthree ▸ not_stale_of_latest hpair m.1.fields
  · simp at h

/-- Both collectors give the same answers to a retry, to another session and to the checkpoint
after them. -/
theorem collectors_agree_on_retry :
    (∀ m ∈ retryRun, m.2 + maxFrame + 16384 ≤ replayStore.maxBytes) ∧
    ∀ before m after, retryRun = before ++ m :: after →
      (Acked (Worker.fetch .standard replayStore.master m.1.fields
          (workerRows .standard replayStore before)).1 ↔
        Acked (replayStore.accept .standard m.1.fields m.2
          (storeRows .standard replayStore before)).1) ∧
      SameRows (workerRows .standard replayStore (before ++ [m]))
        (storeRows .standard replayStore (before ++ [m])) := by
  have hbudget : ∀ m ∈ retryRun, m.2 + maxFrame + 16384 ≤ replayStore.maxBytes := by
    intro m hm
    simp only [retryRun, List.mem_cons, List.not_mem_nil, or_false] at hm
    rcases hm with rfl | rfl | rfl | rfl <;> decide
  exact ⟨hbudget, (collectors_agree_iff .standard replayStore _ hbudget).2 retryRun_fresh⟩

/-- The Worker acknowledges a stale replay that the anchor store refuses. -/
theorem collectors_disagree_on_replay :
    (∀ m ∈ [(replayFirst, 0), (replaySecond, 0), (replayFirst, 0)],
      m.2 + maxFrame + 16384 ≤ replayStore.maxBytes) ∧
    ¬ ∀ before m after, [(replayFirst, 0), (replaySecond, 0), (replayFirst, 0)] =
        before ++ m :: after →
      (Acked (Worker.fetch .standard replayStore.master m.1.fields
          (workerRows .standard replayStore before)).1 ↔
        Acked (replayStore.accept .standard m.1.fields m.2
          (storeRows .standard replayStore before)).1) ∧
      SameRows (workerRows .standard replayStore (before ++ [m]))
        (storeRows .standard replayStore (before ++ [m])) := by
  have hbudget : ∀ n : ℕ, n ≤ 0 → n + maxFrame + 16384 ≤ replayStore.maxBytes := fun n hn => by
    obtain rfl := Nat.le_zero.1 hn
    decide
  refine ⟨fun m hm => hbudget m.2 ?_, fun h => ?_⟩
  · simp only [List.mem_cons, List.not_mem_nil, or_false] at hm
    rcases hm with rfl | rfl | rfl <;> exact le_rfl
  · obtain ⟨hacks, -⟩ := h [(replayFirst, 0), (replaySecond, 0)] (replayFirst, 0) [] rfl
    have ht : Traced .standard replayStore
        ([(replayFirst, 0), (replaySecond, 0)].map fun m => ⟨m.1.fields, m.2⟩)
        (storeRows .standard replayStore [(replayFirst, 0), (replaySecond, 0)]) :=
      traced_rowsAfter _ _ _
    rw [workerRows_eq _ _ _ fun m hm => hbudget m.2 ?_] at hacks
    · exact (ht.collectors_step replayFirst (hbudget 0 le_rfl)).2.1 hacks replay_stale
    · simp only [List.mem_cons, List.not_mem_nil, or_false] at hm
      rcases hm with rfl | rfl <;> exact le_rfl

end Bulldog.Anchor
