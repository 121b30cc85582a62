import Bulldog.Approval.OneUse

/-!
# The clock of approvals

`_now` refuses a time below the high-water mark, and stores the time in the transaction of the call
that read it. A call that raises later in its transaction takes the mark back with everything else,
so that the clock is only as good as the checks that come after it.
-/

namespace Bulldog.Approval

variable {F : Type} [PyFloat F] {C : Crypto} {V : Verifier}

/-! ## Calls that read the clock -/

/-- The time that the clock shows to a call. -/
def Label.now : Label F → Option ℤ
  | .request _ _ now _ _ => some now
  | .hardwareRequest _ _ _ now => some now
  | .commit _ _ now => some now
  | _ => none

/-- The call passes the checks in front of its transaction, and reads the clock. -/
def Label.Opens : Label F → Prop
  | .request gate binding _ _ _ => gate.policyMatches binding = true ∧
      ∃ encoded, canonicalBytes binding = .ok encoded ∧ encoded.length ≤ 32768
  | .hardwareRequest gate _ credentialId _ =>
      ∃ key, gate.credentials.lookup credentialId = some (.hardware key) ∧ key.enabled = true
  | .commit _ _ _ => True
  | _ => False

/-- The call reads the time `t`, and `_now` does not raise. -/
structure Label.Reads (l : Label F) (db : Database) (t : ℤ) : Prop where
  opens : l.Opens
  now : l.now = some t
  accepted : db.highwater ≤ t

/-- The call does not raise in its transaction, or before it. -/
def Label.Succeeds (C : Crypto) (V : Verifier) (db : Database) : Label F → Prop
  | .request gate binding now id audit =>
      ∃ request, (gate.request C binding now id audit db).1 = .ok request
  | .hardwareRequest gate id credentialId now =>
      ∃ packet, (gate.hardwareRequest C F id credentialId now db).1 = .ok packet
  | .commit ticket _ now => ∃ denied, (ticket.commit C V now db).1 = .ok denied
  | _ => True

/-- The call passes the checks that come after `_now`. -/
def Label.Passes (C : Crypto) (V : Verifier) (db : Database) : Label F → Prop
  | .request gate binding now id audit => db.requests.length < 10000 ∧
      (∃ message, canonicalBytes (pendingRequest id now gate.ttlSeconds binding) = .ok message) ∧
      (∃ operation, binding.get "operation" = some operation) ∧ audit = .ok () ∧ db.row id = none
  | .hardwareRequest gate id credentialId now =>
      ∃ r, db.row id = some r ∧ r.state = .pending ∧ (r.issued ≤ now ∧ now < r.expires) ∧
        (∃ policy, messagePolicy F r.message = .ok policy ∧
          Anchor.strOf policy = some gate.policyDigest) ∧
        ∃ request packet, requestFor F C r.message credentialId = .ok request ∧
          request.encode = .ok packet
  | .commit t _ now =>
      (∃ r, db.row t.proof.requestId = some r ∧ r.state = .pending ∧ r.binding = t.expected ∧
        r.issued ≤ now ∧ now < r.expires) ∧
      ∀ device assertion request, t.hardware = some (device, assertion, request) →
        verifyAssertion C V assertion request device
          ((db.counters.lookup (device.counterIdentity C)).getD 0) now = .ok ()
  | _ => True

/-- A time above the high-water mark is read only by a call that passes the checks after it. -/
def Label.Keeps (C : Crypto) (V : Verifier) (db : Database) (l : Label F) : Prop :=
  ∀ t, l.now = some t → db.highwater < t → l.Passes C V db

/-! ## The mark goes up -/

theorem wp_snd {α : Type} {m : Action Database Exc α} {db : Database} {P : Database → Prop}
    (h : m.wp (fun _ db' => P db') (fun _ db' => P db') db) : P (m db).2 := by
  unfold Action.wp at h
  split at h
  · next heq =>
    rw [heq]
    exact h
  · next heq =>
    rw [heq]
    exact h

theorem Counted.highwater_eq {now : ℤ} {db db' : Database} {denied : Bool}
    {hardware : Option (HardwareKey × Assertion × Request)}
    (h : Counted C V now db db' hardware denied) : db'.highwater = db.highwater := by
  cases h with
  | none same => rw [same]
  | some verified set =>
    rw [set]
    rfl

theorem Step.highwater_le {w w' : World F} {l : Label F} (h : Step C V w l w') :
    w.db.highwater ≤ w'.db.highwater := by
  cases h with
  | request gate binding now id audit =>
    refine wp_snd (P := fun db' => w.db.highwater ≤ db'.highwater)
      (Action.wp_mono (request_wp gate binding now id audit w.db) ?_ ?_)
    · rintro _ _ ⟨hclock, -, -, r, -, -, -, -, rfl⟩
      exact hclock
    · rintro _ _ rfl
      exact le_rfl
  | hardwareRequest gate id credentialId now =>
    refine wp_snd (P := fun db' => w.db.highwater ≤ db'.highwater)
      (Action.wp_mono (hardwareRequest_wp gate id credentialId now w.db) ?_ ?_)
    · rintro _ _ ⟨hclock, rfl, -⟩
      exact hclock
    · rintro _ _ rfl
      exact le_rfl
  | finish id outcome audit =>
    refine wp_snd (P := fun db' => w.db.highwater ≤ db'.highwater)
      (Action.wp_mono (finish_wp id outcome audit w.db) ?_ ?_)
    · rintro _ _ rfl
      exact le_rfl
    · rintro _ _ rfl
      exact le_rfl
  | cancel id audit =>
    simp only [cancel_apply]
    rcases audit with e | _ <;> exact le_rfl
  | commit waits committed =>
    have hcommits := commit_eq_ok committed
    obtain ⟨db₁, hcounted, rfl⟩ := hcommits.counted
    exact hcommits.clock.trans hcounted.highwater_eq.ge
  | refuse waits refused => rw [commit_eq_error refused]
  | _ => exact le_rfl

theorem Reaches.highwater_le {w w' : World F} (h : Reaches C V w w') :
    w.db.highwater ≤ w'.db.highwater := by
  induction h with
  | refl => exact le_rfl
  | tail _ hstep ih =>
    obtain ⟨l, hstep⟩ := hstep
    exact ih.trans hstep.highwater_le

/-- A call that reads a time below the mark fails. -/
theorem Label.not_succeeds {l : Label F} {db : Database} {t : ℤ} (hnow : l.now = some t)
    (ht : t < db.highwater) : ¬ l.Succeeds C V db := by
  intro hsucceeds
  cases l with
  | request gate binding now id audit =>
    obtain rfl : now = t := Option.some.inj hnow
    obtain ⟨request, hok⟩ := hsucceeds
    have hwp := request_wp (C := C) gate binding now id audit db
    unfold Action.wp at hwp
    split at hwp
    · exact absurd hwp.1 (not_le.2 ht)
    · next heq =>
      rw [heq] at hok
      cases hok
  | hardwareRequest gate id credentialId now =>
    obtain rfl : now = t := Option.some.inj hnow
    obtain ⟨packet, hok⟩ := hsucceeds
    have hwp := hardwareRequest_wp (F := F) (C := C) gate id credentialId now db
    unfold Action.wp at hwp
    split at hwp
    · exact absurd hwp.1 (not_le.2 ht)
    · next heq =>
      rw [heq] at hok
      cases hok
  | commit ticket caller now =>
    obtain rfl : now = t := Option.some.inj hnow
    obtain ⟨denied, hok⟩ := hsucceeds
    have hcommits : Commits C V ticket now db _ denied := commit_eq_ok (Prod.ext hok rfl)
    exact absurd hcommits.clock (not_le.2 ht)
  | _ => cases hnow

/-! ## Calls that keep the mark -/

/-- A call that passes its checks leaves the time that it read. -/
theorem request_passes {gate : ApprovalGate} {binding : Fields F} {now : ℤ} {id : Str}
    {audit : Except Exc Unit} {db : Database}
    (hreads : (Label.request gate binding now id audit).Reads db now)
    (h : (Label.request gate binding now id audit).Passes C V db) :
    (gate.request C binding now id audit db).2.highwater = now := by
  obtain ⟨hpolicy, encoded, hencoded, hlength⟩ := hreads.opens
  obtain ⟨hbudget, ⟨message, hmessage⟩, ⟨operation, hoperation⟩, haudit, hfresh⟩ := h
  refine wp_snd (P := fun db' => db'.highwater = now) ?_
  unfold ApprovalGate.request
  simp only [Action.wp_bind, Action.wp_transaction, Action.wp_read, Action.wp_update, Action.wp_pure]
  refine Action.wp_raiseIf_of_not (by simp [hpolicy]) ?_
  refine Action.wp_lift_of_ok hencoded ?_
  refine Action.wp_raiseIf_of_not (by omega) ?_
  refine readClock_wp.2 ⟨fun _ => ?_, fun hlt => absurd hreads.accepted (not_le.2 hlt)⟩
  refine Action.wp_raiseIf_of_not (by simpa using hbudget) ?_
  refine Action.wp_lift_of_ok hmessage ?_
  refine Action.wp_lift_of_ok (orRaise_eq_ok.2 hoperation) ?_
  refine Action.wp_lift_of_ok haudit ?_
  refine Action.wp_raiseIf_of_not ?_ rfl
  change ¬ (db.row id).isSome = true
  simp [hfresh]

theorem hardwareRequest_passes {gate : ApprovalGate} {id credentialId : Str} {now : ℤ}
    {db : Database} (hreads : (Label.hardwareRequest (F := F) gate id credentialId now).Reads db now)
    (h : (Label.hardwareRequest (F := F) gate id credentialId now).Passes C V db) :
    (gate.hardwareRequest C F id credentialId now db).2.highwater = now := by
  obtain ⟨key, hkey, henabled⟩ := hreads.opens
  obtain ⟨r, hr, hpending, htime, ⟨policy, hpolicy, hsame⟩, request, packet, hrequest, hpacket⟩ := h
  refine wp_snd (P := fun db' => db'.highwater = now) ?_
  unfold ApprovalGate.hardwareRequest
  rw [hkey]
  simp only [Action.wp_bind, Action.wp_transaction, Action.wp_read]
  refine Action.wp_raiseIf_of_not (by simp [henabled]) ?_
  refine readClock_wp.2 ⟨fun _ => ?_, fun hlt => absurd hreads.accepted (not_le.2 hlt)⟩
  refine Action.wp_lift_of_ok (orRaise_eq_ok.2 hr) ?_
  refine Action.wp_raiseIf_of_not (by simp [hpending, htime]) ?_
  refine Action.wp_lift_of_ok hpolicy ?_
  refine Action.wp_raiseIf_of_not (by simp [hsame]) ?_
  refine Action.wp_lift_of_ok hrequest ?_
  exact Action.wp_lift_of_ok hpacket rfl

theorem commit_passes {t : Ticket F} {caller : Option (BrokerCall F)} {now : ℤ} {db : Database}
    (hreads : (Label.commit t caller now).Reads db now)
    (h : (Label.commit t caller now).Passes C V db) :
    (t.commit C V now db).2.highwater = now := by
  obtain ⟨⟨r, hr, hpending, hbinding, hissued, hexpires⟩, hhardware⟩ := h
  refine wp_snd (P := fun db' => db'.highwater = now) ?_
  unfold Ticket.commit
  simp only [Action.wp_bind, Action.wp_transaction, Action.wp_read, Action.wp_update, Action.wp_pure]
  refine readClock_wp.2 ⟨fun _ => ?_, fun hlt => absurd hreads.accepted (not_le.2 hlt)⟩
  refine Action.wp_lift_of_ok (orRaise_eq_ok.2 hr) ?_
  refine Action.wp_raiseIf_of_not (by simp [hpending, hbinding]) ?_
  refine Action.wp_raiseIf_of_not (by omega) ?_
  unfold verifyHardware
  split
  · exact rfl
  · next device assertion request heq =>
    simp only [Action.wp_bind, Action.wp_read, Action.wp_update, Action.wp_pure]
    exact Action.wp_lift_of_ok (hhardware device assertion request heq) rfl

omit [PyFloat F] in
theorem Commits.passes {t : Ticket F} {now : ℤ} {db db' : Database} {denied : Bool}
    (h : Commits C V t now db db' denied) :
    (∃ r, db.row t.proof.requestId = some r ∧ r.state = .pending ∧ r.binding = t.expected ∧
        r.issued ≤ now ∧ now < r.expires) ∧
      ∀ device assertion request, t.hardware = some (device, assertion, request) →
        verifyAssertion C V assertion request device
          ((db.counters.lookup (device.counterIdentity C)).getD 0) now = .ok () := by
  refine ⟨h.row, fun device assertion request heq => ?_⟩
  obtain ⟨db₁, hcounted, -⟩ := h.counted
  rw [heq] at hcounted
  cases hcounted with
  | some verified set => exact verified

/-- A call that reads the clock and keeps its time leaves the mark there or above. -/
theorem Step.reads_le {w w' : World F} {l : Label F} {t : ℤ} (h : Step C V w l w')
    (hreads : l.Reads w.db t) (hkeeps : l.Keeps C V w.db) : t ≤ w'.db.highwater := by
  by_cases hmark : w.db.highwater < t
  · have hpasses := hkeeps t hreads.now hmark
    have hnow := hreads.now
    cases h with
    | request gate binding now id audit =>
      obtain rfl : now = t := Option.some.inj hnow
      exact (request_passes hreads hpasses).ge
    | hardwareRequest gate id credentialId now =>
      obtain rfl : now = t := Option.some.inj hnow
      exact (hardwareRequest_passes hreads hpasses).ge
    | commit waits committed =>
      rename_i ticket caller now before after denied db
      obtain rfl : now = t := Option.some.inj hnow
      have hleft := commit_passes hreads hpasses
      rw [committed] at hleft
      exact hleft.ge
    | refuse waits refused =>
      rename_i ticket caller now before after e db
      obtain rfl : now = t := Option.some.inj hnow
      have hleft := commit_passes hreads hpasses
      rw [refused] at hleft
      exact hleft.ge
    | _ => cases hnow
  · exact (not_lt.1 hmark).trans h.highwater_le

/-- Where a call that reads a new time passes the checks after it, no later call that reads an earlier
time succeeds, and a request that was found expired is not consumed. -/
theorem clock_forward (C : Crypto) (V : Verifier) {w w' w'' : World F} {l : Label F} {t : ℤ}
    (hstep : Step C V w l w') (hreads : l.Reads w.db t) (hkeeps : l.Keeps C V w.db)
    (hlater : Reaches C V w' w'') :
    (∀ (l' : Label F) t', l'.now = some t' → t' < t → ¬ l'.Succeeds C V w''.db) ∧
      ∀ id r, w.db.row id = some r → r.expires ≤ t → ∀ (ticket : Ticket F) caller now,
        ticket.proof.requestId = id → ¬ (Label.commit ticket caller now).Succeeds C V w''.db := by
  have hmark : t ≤ w''.db.highwater := (hstep.reads_le hreads hkeeps).trans hlater.highwater_le
  refine ⟨fun l' t' hnow ht => Label.not_succeeds hnow (ht.trans_le hmark), ?_⟩
  rintro id r hr hexpired ticket caller now rfl ⟨denied, hok⟩
  have hcommits : Commits C V ticket now w''.db _ denied := commit_eq_ok (Prod.ext hok rfl)
  obtain ⟨r', hr', -, -, -, hexpires⟩ := hcommits.row
  obtain ⟨r'', hr'', hnext⟩ := (hstep.rows.trans hlater.rows) _ r hr
  obtain rfl := Option.some.inj (hr'.symm.trans hr'')
  rw [hnext.expires] at hexpires
  have hclock := hcommits.clock
  omega

/-- A `consume` of the request that was made at 50 waits for its transaction. -/
theorem desk_waits : ∃ (ticket : Ticket Literal) (db db' : Database) (r : Row),
    Run .standard deskVerifier (fun _ _ => True) ⟨db, [(ticket, none)], [], [], [], [], [], []⟩ ∧
      ticket.commit .standard deskVerifier 60 db = (.ok false, db') ∧
      db.row ticket.proof.requestId = some r ∧ r.expires = 80 := by
  obtain ⟨w, hw, -⟩ := desk_uses
  obtain ⟨binding, ticket, db', hbinding, -, hticket, hcommit, -⟩ := use_eq_some hw
  obtain ⟨r, hr, -⟩ := (commit_eq_ok hcommit).row
  refine ⟨ticket, _, db', r, ?_, hcommit, hr, ?_⟩
  · have hrequest : Run .standard deskVerifier (fun _ _ => True) _ :=
      .step .start trivial (.request deskGate binding 50 deskProof.requestId (.ok ()))
    exact hrequest.step trivial (.check none nofun hticket)
  · have hwp := request_wp (C := .standard) deskGate binding 50 deskProof.requestId (.ok ()) .empty
    unfold Action.wp at hwp
    split at hwp
    · next heq =>
      obtain ⟨-, -, -, r', -, -, hexpires, -, hdb⟩ := hwp
      rw [heq, hdb, row_insert] at hr
      change Option.or none _ = _ at hr
      rw [Option.none_or] at hr
      split_ifs at hr
      rw [← Option.some.inj hr, hexpires]
      rfl
    · next heq =>
      rw [heq, hwp] at hr
      cases hr

/-- After a `consume` at 60 nothing that reads 40 succeeds. -/
theorem desk_clock_forward : ∃ (w w' : World Literal) (ticket : Ticket Literal),
    Run .standard deskVerifier (fun _ _ => True) w ∧
      Step .standard deskVerifier w (.commit ticket none 60) w' ∧
      ∀ (l' : Label Literal) t', l'.now = some t' → t' < 60 →
        ¬ l'.Succeeds .standard deskVerifier w'.db := by
  obtain ⟨ticket, db, db', r, hrun, hcommit, -⟩ := desk_waits
  have hcommits := commit_eq_ok hcommit
  have hstep := Step.commit (w := ⟨db, [(ticket, none)], [], [], [], [], [], []⟩)
    (show _ = [] ++ (ticket, none) :: [] from rfl) hcommit
  exact ⟨_, _, ticket, hrun, hstep, (clock_forward .standard deskVerifier hstep
    ⟨trivial, rfl, hcommits.clock⟩ (fun _ _ _ => hcommits.passes) .refl).1⟩

/-- A `consume` at 120 finds the request expired, and a `consume` at 60 after it succeeds. -/
theorem consume_after_expired : ∃ (w w' : World Literal) (ticket : Ticket Literal) (r : Row),
    Run .standard deskVerifier (fun _ _ => True) w ∧
      Step .standard deskVerifier w (.commit ticket none 120) w' ∧
      (Label.commit ticket none 120).Reads w.db 120 ∧
      w.db.row ticket.proof.requestId = some r ∧ r.expires ≤ 120 ∧
      (Label.commit ticket none 60).Succeeds .standard deskVerifier w'.db := by
  obtain ⟨ticket, db, db', r, hrun, hcommit, hr, hexpires⟩ := desk_waits
  have hclock := (commit_eq_ok hcommit).clock
  rcases hlate : ticket.commit .standard deskVerifier 120 db with ⟨e | denied, db''⟩
  · have hstep := Step.refuse (w := ⟨db, [(ticket, none)], [], [], [], [], [], []⟩)
      (show _ = [] ++ (ticket, none) :: [] from rfl) hlate
    refine ⟨_, _, ticket, r, hrun, hstep, ⟨trivial, rfl, ?_⟩, hr, by omega, false, ?_⟩
    · change db.highwater ≤ 120
      omega
    · -- the transaction that failed has taken its time back
      obtain rfl := commit_eq_error hlate
      exact congrArg Prod.fst hcommit
  · obtain ⟨r', hr', -, -, -, hlive⟩ := (commit_eq_ok hlate).row
    obtain rfl := Option.some.inj (hr.symm.trans hr')
    omega

end Bulldog.Approval
