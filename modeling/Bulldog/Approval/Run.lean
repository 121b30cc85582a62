import Bulldog.Approval.Gate
import Mathlib

/-!
# Runs of approvals

Any number of gates work on one database. A call of `consume` reads the request, then runs its
transaction, then calls the audit callback, and other calls may come between these. The dispatcher
runs an effect after its call of `consume` has returned. What one step does to a row of the table is
said once (`Step.rows`), and the rest follows from it.
-/

namespace Bulldog.Approval

variable {F : Type} [PyFloat F] {C : Crypto} {V : Verifier}

/-! ## What a transaction does -/

theorem readClock_wp {now : ℤ} {db : Database} {Q : Unit → Database → Prop}
    {E : Exc → Database → Prop} :
    (readClock now).wp Q E db ↔
      (¬ now < db.highwater → Q () { db with highwater := now }) ∧
        (now < db.highwater → E (approvalError "clock moved backwards; approval stopped") db) := by
  unfold readClock
  simp only [Action.wp_bind, Action.wp_read, Action.wp_update, Action.wp_lift]
  constructor
  · rintro ⟨hok, herror⟩
    exact ⟨fun h => hok () (raiseIf_eq_ok.2 h), fun h => herror _ (if_pos h)⟩
  · rintro ⟨hok, herror⟩
    refine ⟨fun _ h => hok (raiseIf_eq_ok.1 h), fun e h => ?_⟩
    unfold raiseIf at h
    split_ifs at h with hlt
    rw [← Except.error.inj h]
    exact herror hlt

section Rows

variable {db : Database} {id id' : Str} {f : Row → Row} {r : Row}

theorem row_update : (db.update id f).row id' =
    if id' = id then (db.row id).map f else db.row id' := by
  unfold Database.update Database.row
  induction db.requests with
  | nil => split_ifs <;> rfl
  | cons e es ih =>
    obtain ⟨k, row⟩ := e
    rw [List.map_cons]
    by_cases hk : k = id
    · subst hk
      by_cases hid : id' = k
      · subst hid
        simp
      · simp only [if_neg hid, if_true, List.lookup_cons] at ih ⊢
        rw [beq_eq_false_iff_ne.2 hid]
        exact ih
    · simp only [if_neg hk, List.lookup_cons]
      by_cases hid : id' = id
      · subst hid
        rw [if_pos rfl, beq_eq_false_iff_ne.2 (Ne.symm hk)]
        rwa [if_pos rfl] at ih
      · rw [if_neg hid] at ih ⊢
        rw [ih]

theorem row_update_self (h : db.row id = some r) : (db.update id f).row id = some (f r) := by
  rw [row_update, if_pos rfl, h]
  rfl

theorem row_insert : (db.insert id r).row id' =
    (db.row id').or (if id' = id then some r else none) := by
  unfold Database.insert Database.row
  rw [List.lookup_append]
  by_cases hid : id' = id
  · subst hid
    simp
  · simp [List.lookup_cons, hid, beq_eq_false_iff_ne.2 hid]

end Rows

/-- How a row may change: what the request said stays, and the state moves once, away from
pending. -/
structure Row.Next (r r' : Row) : Prop where
  binding : r'.binding = r.binding
  message : r'.message = r.message
  issued : r'.issued = r.issued
  expires : r'.expires = r.expires
  state : r'.state = r.state ∨ r.state = .pending

theorem Row.Next.refl (r : Row) : r.Next r := ⟨rfl, rfl, rfl, rfl, .inl rfl⟩

theorem Row.Next.trans {r s t : Row} (h : r.Next s) (h' : s.Next t) : r.Next t := by
  refine ⟨h'.binding.trans h.binding, h'.message.trans h.message, h'.issued.trans h.issued,
    h'.expires.trans h.expires, ?_⟩
  rcases h.state with hs | hs
  · rcases h'.state with ht | ht
    · exact .inl (ht.trans hs)
    · exact .inr (hs ▸ ht)
  · exact .inr hs

/-- The rows of a database, as they may change. -/
def Database.Grows (db db' : Database) : Prop :=
  ∀ id r, db.row id = some r → ∃ r', db'.row id = some r' ∧ r.Next r'

theorem Database.Grows.refl (db : Database) : db.Grows db := fun _ r h => ⟨r, h, .refl r⟩

theorem Database.Grows.trans {a b c : Database} (h : a.Grows b) (h' : b.Grows c) : a.Grows c := by
  intro id r hr
  obtain ⟨r', hr', hn⟩ := h id r hr
  obtain ⟨r'', hr'', hn'⟩ := h' id r' hr'
  exact ⟨r'', hr'', hn.trans hn'⟩

/-- An update of one row by a change that a row allows. -/
theorem grows_update {db : Database} {id : Str} {f : Row → Row}
    (hf : ∀ r, db.row id = some r → r.Next (f r)) : db.Grows (db.update id f) := by
  intro id' r hr
  rw [row_update]
  by_cases hid : id' = id
  · subst hid
    exact ⟨f r, by rw [if_pos rfl, hr]; rfl, hf r hr⟩
  · exact ⟨r, by rw [if_neg hid, hr], .refl r⟩

theorem grows_insert (db : Database) (id : Str) (r : Row) : db.Grows (db.insert id r) := by
  intro id' r' hr
  exact ⟨r', by rw [row_insert, hr]; rfl, .refl r'⟩

/-! ## What each operation does -/

/-- A request that is made adds a pending row. One that is refused changes nothing. -/
theorem request_wp (gate : ApprovalGate) (binding : Fields F) (now : ℤ) (id : Str)
    (audit : Except Exc Unit) (db : Database) :
    (gate.request C binding now id audit).wp
      (fun _ db' => db.highwater ≤ now ∧ db.row id = none ∧ audit = .ok () ∧ ∃ r : Row,
        r.state = .pending ∧ r.issued = now ∧ r.expires = now + gate.ttlSeconds ∧
        bindingDigest C binding = .ok r.binding ∧
        db' = ({ db with highwater := now } : Database).insert id r)
      (fun _ db' => db' = db) db := by
  unfold ApprovalGate.request
  simp only [Action.wp_bind, Action.wp_transaction, Action.wp_read, Action.wp_update, Action.wp_pure]
  refine Action.wp_lift_intro (fun _ _ => ?_) fun _ => rfl
  refine Action.wp_lift_intro (fun encoded hencoded => ?_) fun _ => rfl
  refine Action.wp_lift_intro (fun _ _ => ?_) fun _ => rfl
  refine readClock_wp.2 ⟨fun hclock => ?_, fun _ => rfl⟩
  refine Action.wp_lift_intro (fun _ _ => ?_) fun _ => rfl
  refine Action.wp_lift_intro (fun message _ => ?_) fun _ => rfl
  refine Action.wp_lift_intro (fun _ _ => ?_) fun _ => rfl
  refine Action.wp_lift_intro (fun _ haudit => ?_) fun _ => rfl
  refine Action.wp_lift_intro (fun _ hfresh => ?_) fun _ => rfl
  have hnone : db.row id = none := by
    have := raiseIf_eq_ok.1 hfresh
    rw [Option.not_isSome_iff_eq_none] at this
    exact this
  have hdigest : bindingDigest C binding = .ok (digest C encoded) := by
    rw [bindingDigest, hencoded]
    rfl
  exact ⟨not_lt.1 hclock, hnone, haudit, _, rfl, rfl, rfl, hdigest, rfl⟩

/-- What a hardware assertion that is accepted does to the counters. -/
inductive Counted (C : Crypto) (V : Verifier) (now : ℤ) (db db' : Database) :
    Option (HardwareKey × Assertion × Request) → Bool → Prop
  | none (same : db' = db) : Counted C V now db db' none false
  | some {device : HardwareKey} {assertion : Assertion} {request : Request}
      (verified : verifyAssertion C V assertion request device
        ((db.counters.lookup (device.counterIdentity C)).getD 0) now = .ok ())
      (set : db' = db.setCounter (device.counterIdentity C) assertion.counter) :
      Counted C V now db db' (some (device, assertion, request)) (assertion.decision = .deny)

theorem Counted.requests_eq {now : ℤ} {db db' : Database} {denied : Bool}
    {hardware : Option (HardwareKey × Assertion × Request)}
    (h : Counted C V now db db' hardware denied) : db'.requests = db.requests := by
  cases h with
  | none same => rw [same]
  | some verified set =>
    rw [set]
    rfl

theorem verifyHardware_wp (hardware : Option (HardwareKey × Assertion × Request)) (now : ℤ)
    (db : Database) :
    (verifyHardware C V hardware now).wp (fun denied db' => Counted C V now db db' hardware denied)
      (fun _ _ => True) db := by
  match hardware with
  | none => exact .none rfl
  | some (device, assertion, request) =>
    simp only [verifyHardware, Action.wp_bind, Action.wp_read, Action.wp_update, Action.wp_pure]
    exact Action.wp_lift_intro (fun _ hverified => .some hverified rfl) fun _ => trivial

/-- What a `consume` that commits has found, and what it leaves. -/
structure Commits (C : Crypto) (V : Verifier) (t : Ticket F) (now : ℤ) (db db' : Database)
    (denied : Bool) : Prop where
  clock : db.highwater ≤ now
  row : ∃ r, db.row t.proof.requestId = some r ∧ r.state = .pending ∧ r.binding = t.expected ∧
    r.issued ≤ now ∧ now < r.expires
  counted : ∃ db₁, Counted C V now { db with highwater := now } db₁ t.hardware denied ∧
    db' = db₁.update t.proof.requestId fun r =>
      { r with
        state := if denied then .denied else .consumed
        credential := some t.proof.credentialId
        outcome := some (if denied then "human-denied" else "uncertain") }

omit [PyFloat F] in
theorem commit_wp (t : Ticket F) (now : ℤ) (db : Database) :
    (t.commit C V now).wp (fun denied db' => Commits C V t now db db' denied)
      (fun _ db' => db' = db) db := by
  unfold Ticket.commit
  simp only [Action.wp_bind, Action.wp_transaction, Action.wp_read, Action.wp_update, Action.wp_pure]
  refine readClock_wp.2 ⟨fun hclock => ?_, fun _ => trivial⟩
  refine Action.wp_lift_intro (fun r hr => ?_) fun _ => trivial
  refine Action.wp_lift_intro (fun _ hpending => ?_) fun _ => trivial
  refine Action.wp_lift_intro (fun _ htime => ?_) fun _ => trivial
  have hpending := not_or.1 (raiseIf_eq_ok.1 hpending)
  have htime := not_or.1 (raiseIf_eq_ok.1 htime)
  refine Action.wp_mono (verifyHardware_wp t.hardware now _) (fun denied db₁ hcounted => ?_)
    fun _ _ _ => trivial
  refine ⟨not_lt.1 hclock, ⟨r, orRaise_eq_ok.1 hr, not_not.1 hpending.1, not_not.1 hpending.2, ?_, ?_⟩,
    db₁, hcounted, rfl⟩
  · omega
  · omega

omit [PyFloat F] in
theorem commit_eq_ok {t : Ticket F} {now : ℤ} {db db' : Database} {denied : Bool}
    (h : t.commit C V now db = (.ok denied, db')) : Commits C V t now db db' denied := by
  have hwp := commit_wp (C := C) (V := V) t now db
  rw [Action.wp, h] at hwp
  exact hwp

omit [PyFloat F] in
/-- A `consume` that raises in its transaction changes nothing. -/
theorem commit_eq_error {t : Ticket F} {now : ℤ} {db db' : Database} {e : Exc}
    (h : t.commit C V now db = (.error e, db')) : db' = db := by
  have hwp := commit_wp (C := C) (V := V) t now db
  rw [Action.wp, h] at hwp
  exact hwp

/-- `hardware_request` leaves at most a later time. -/
theorem hardwareRequest_wp (gate : ApprovalGate) (id credentialId : Str) (now : ℤ) (db : Database) :
    (gate.hardwareRequest C F id credentialId now).wp
      (fun _ db' => db.highwater ≤ now ∧ db' = { db with highwater := now } ∧
        ∃ r, db.row id = some r ∧ r.state = .pending ∧ r.issued ≤ now ∧ now < r.expires)
      (fun _ db' => db' = db) db := by
  unfold ApprovalGate.hardwareRequest
  split
  · simp only [Action.wp_bind, Action.wp_transaction, Action.wp_read]
    refine Action.wp_lift_intro (fun _ _ => ?_) fun _ => rfl
    refine readClock_wp.2 ⟨fun hclock => ?_, fun _ => rfl⟩
    refine Action.wp_lift_intro (fun r hr => ?_) fun _ => rfl
    refine Action.wp_lift_intro (fun _ hpending => ?_) fun _ => rfl
    refine Action.wp_lift_intro (fun _ _ => ?_) fun _ => rfl
    refine Action.wp_lift_intro (fun _ _ => ?_) fun _ => rfl
    refine Action.wp_lift_intro (fun _ _ => ?_) fun _ => rfl
    refine Action.wp_lift_intro (fun _ _ => ?_) fun _ => rfl
    obtain ⟨hstate, htime⟩ := not_or.1 (raiseIf_eq_ok.1 hpending)
    exact ⟨not_lt.1 hclock, rfl, r, orRaise_eq_ok.1 hr, not_not.1 hstate, not_not.1 htime⟩
  · exact rfl

/-- `cancel` moves a pending row, where its audit callback lets it. -/
theorem cancel_apply (id : Str) (audit : Except Exc Unit) (db : Database) :
    cancel id audit db = match audit with
      | .ok () => (.ok (), db.update id fun r =>
          if r.state = .pending then { r with state := .cancelled } else r)
      | .error e => (.error e, db) := by
  rcases audit with e | _ <;> rfl

/-- `finish` changes no state. -/
theorem finish_wp (id : Str) (outcome : String) (audit : Except Exc Unit) (db : Database) :
    (finish id outcome audit).wp
      (fun _ db' => db' = db.update id fun r =>
        if r.state = .consumed then { r with outcome := some outcome } else r)
      (fun _ db' => db' = db) db := by
  unfold finish
  simp only [Action.wp_bind, Action.wp_update]
  refine Action.wp_lift_intro (fun _ _ => ?_) fun _ => rfl
  exact Action.wp_lift_intro (fun _ _ => rfl) fun _ => rfl

/-! ## Steps -/

/-- A call of `_perform_broker_effect`. -/
structure BrokerCall (F : Type) where
  action : ActionRequest
  operation : String
  parameters : Fields F
  sessionId : Str

/-- The binding of a call, made for this gate. -/
def BrokerCall.binding (call : BrokerCall F) (gate : ApprovalGate) : Except Exc (Fields F) :=
  bindingFor call.action call.operation call.parameters gate.policyDigest call.sessionId

omit [PyFloat F] in
/-- `_perform_broker_effect` needs no approval. -/
def BrokerCall.routine (call : BrokerCall F) (gate : ApprovalGate) : Bool :=
  call.operation = "network.request" &&
    (match call.parameters.get "method" with
      | some (.str method) => method = "GET".toList || method = "HEAD".toList
      | _ => false) &&
    call.action.resource ∈ gate.routineEgressUrls

/-- A call of `consume` that has committed, and what it is for. -/
structure Commit (F : Type) where
  ticket : Ticket F
  caller : Option (BrokerCall F)
  now : ℤ
  denied : Bool

omit [PyFloat F] in
/-- The request that was consumed. -/
def Commit.id (c : Commit F) : Str := c.ticket.proof.requestId

/-- The audit event that ends a request. -/
inductive Terminal where
  | consumed
  | humanDenied
  | cancelled
  deriving DecidableEq

/-- The state that an event names. -/
def Terminal.state : Terminal → RequestState
  | .consumed => .consumed
  | .humanDenied => .denied
  | .cancelled => .cancelled

omit [PyFloat F] in
/-- The event that `consume` emits after its transaction. -/
def Commit.terminal (c : Commit F) : Terminal := if c.denied then .humanDenied else .consumed

/-- What the dispatcher has run. -/
inductive Effect (F : Type) where
  | approved (commit : Commit F) (call : BrokerCall F)
  | routine (gate : ApprovalGate) (call : BrokerCall F)

/-- The database, the calls that are under way, and what has happened. -/
structure World (F : Type) where
  db : Database
  /-- Calls of `consume` in front of their transaction. -/
  waiting : List (Ticket F × Option (BrokerCall F))
  /-- All transactions of `consume` that committed, in their order. -/
  committed : List (Commit F)
  /-- Those of them that have not called the audit callback. -/
  unreported : List (Commit F)
  /-- The events that end requests, in their order. -/
  events : List (Str × Terminal)
  /-- The calls of `consume` that returned. -/
  returned : List (Commit F)
  /-- The calls of the dispatcher in front of their effect. -/
  held : List (Commit F × BrokerCall F)
  effects : List (Effect F)

/-- The world at the start. -/
def World.start : World F := ⟨.empty, [], [], [], [], [], [], []⟩

/-- What happens next. -/
inductive Label (F : Type) where
  | request (gate : ApprovalGate) (binding : Fields F) (now : ℤ) (id : Str) (audit : Except Exc Unit)
  | hardwareRequest (gate : ApprovalGate) (id credentialId : Str) (now : ℤ)
  | finish (id : Str) (outcome : String) (audit : Except Exc Unit)
  | cancel (id : Str) (audit : Except Exc Unit)
  | check (gate : ApprovalGate) (binding : Fields F) (proof : ApprovalProof)
      (caller : Option (BrokerCall F))
  | commit (ticket : Ticket F) (caller : Option (BrokerCall F)) (now : ℤ)
  | report (commit : Commit F) (audit : Except Exc Unit)
  | effect (commit : Commit F) (call : BrokerCall F) (recheck : Except Exc Unit)
  | routine (gate : ApprovalGate) (call : BrokerCall F)

/-- The audit callback succeeds, where it is called. -/
def Label.Audited : Label F → Prop
  | .request _ _ _ _ audit => audit = .ok ()
  | .finish _ _ audit => audit = .ok ()
  | .cancel _ audit => audit = .ok ()
  | .report _ audit => audit = .ok ()
  | _ => True

/-- The steps of the calls. -/
inductive Step (C : Crypto) (V : Verifier) : World F → Label F → World F → Prop
  | request {w : World F} (gate : ApprovalGate) (binding : Fields F) (now : ℤ) (id : Str)
      (audit : Except Exc Unit) :
      Step C V w (.request gate binding now id audit)
        { w with db := (gate.request C binding now id audit w.db).2 }
  | hardwareRequest {w : World F} (gate : ApprovalGate) (id credentialId : Str) (now : ℤ) :
      Step C V w (.hardwareRequest gate id credentialId now)
        { w with db := (gate.hardwareRequest C F id credentialId now w.db).2 }
  | finish {w : World F} (id : Str) (outcome : String) (audit : Except Exc Unit) :
      Step C V w (.finish id outcome audit) { w with db := (finish id outcome audit w.db).2 }
  | cancel {w : World F} (id : Str) (audit : Except Exc Unit) :
      Step C V w (.cancel id audit)
        { w with
          db := (cancel id audit w.db).2
          events := match audit with
            | .ok () => w.events ++ [(id, .cancelled)]
            | .error _ => w.events }
  | check {w : World F} {gate : ApprovalGate} {binding : Fields F} {proof : ApprovalProof}
      {ticket : Ticket F} (caller : Option (BrokerCall F))
      (bound : ∀ call ∈ caller, call.routine gate = false ∧ call.binding gate = .ok binding)
      (checked : gate.check C V binding proof w.db = .ok ticket) :
      Step C V w (.check gate binding proof caller)
        { w with waiting := w.waiting ++ [(ticket, caller)] }
  | commit {w : World F} {ticket : Ticket F} {caller : Option (BrokerCall F)} {now : ℤ}
      {before after : List (Ticket F × Option (BrokerCall F))} {denied : Bool} {db : Database}
      (waits : w.waiting = before ++ (ticket, caller) :: after)
      (committed : ticket.commit C V now w.db = (.ok denied, db)) :
      Step C V w (.commit ticket caller now)
        { w with
          db := db
          waiting := before ++ after
          committed := w.committed ++ [⟨ticket, caller, now, denied⟩]
          unreported := w.unreported ++ [⟨ticket, caller, now, denied⟩] }
  | refuse {w : World F} {ticket : Ticket F} {caller : Option (BrokerCall F)} {now : ℤ}
      {before after : List (Ticket F × Option (BrokerCall F))} {e : Exc} {db : Database}
      (waits : w.waiting = before ++ (ticket, caller) :: after)
      (refused : ticket.commit C V now w.db = (.error e, db)) :
      Step C V w (.commit ticket caller now) { w with db := db, waiting := before ++ after }
  | report {w : World F} {c : Commit F} {before after : List (Commit F)}
      (waits : w.unreported = before ++ c :: after) :
      Step C V w (.report c (.ok ()))
        { w with
          unreported := before ++ after
          events := w.events ++ [(c.id, c.terminal)]
          returned := if c.denied then w.returned else w.returned ++ [c]
          held := match c.caller with
            | some call => if c.denied then w.held else w.held ++ [(c, call)]
            | none => w.held }
  | unreported {w : World F} {c : Commit F} {before after : List (Commit F)} {e : Exc}
      (waits : w.unreported = before ++ c :: after) :
      Step C V w (.report c (.error e)) { w with unreported := before ++ after }
  | effect {w : World F} {c : Commit F} {call : BrokerCall F}
      {before after : List (Commit F × BrokerCall F)} (waits : w.held = before ++ (c, call) :: after) :
      Step C V w (.effect c call (.ok ()))
        { w with held := before ++ after, effects := w.effects ++ [.approved c call] }
  | withheld {w : World F} {c : Commit F} {call : BrokerCall F} {e : Exc}
      {before after : List (Commit F × BrokerCall F)} (waits : w.held = before ++ (c, call) :: after) :
      Step C V w (.effect c call (.error e)) { w with held := before ++ after }
  | routine {w : World F} {gate : ApprovalGate} {call : BrokerCall F}
      (passes : call.routine gate = true) :
      Step C V w (.routine gate call) { w with effects := w.effects ++ [.routine gate call] }

/-- The worlds that steps reach from the start, where `ok` holds of each of them. -/
inductive Run (C : Crypto) (V : Verifier) (ok : World F → Label F → Prop) : World F → Prop
  | start : Run C V ok .start
  | step {w w' : World F} {l : Label F} (before : Run C V ok w) (admitted : ok w l)
      (step : Step C V w l w') : Run C V ok w'

/-- The worlds that steps reach from another world. -/
def Reaches (C : Crypto) (V : Verifier) : World F → World F → Prop :=
  Relation.ReflTransGen fun w w' => ∃ l, Step C V w l w'

/-! ## One move -/

theorem grows_of_highwater {db db' : Database} (h : db'.requests = db.requests) : db.Grows db' := by
  intro id r hr
  refine ⟨r, ?_, .refl r⟩
  rw [Database.row, h]
  exact hr

omit [PyFloat F] in
theorem Commits.grows {t : Ticket F} {now : ℤ} {db db' : Database} {denied : Bool}
    (h : Commits C V t now db db' denied) : db.Grows db' := by
  obtain ⟨r, hr, hpending, -⟩ := h.row
  obtain ⟨db₁, hcounted, rfl⟩ := h.counted
  have hrequests : db₁.requests = db.requests := hcounted.requests_eq
  refine (grows_of_highwater hrequests).trans (grows_update fun r' hr' => ?_)
  have hsame : db₁.row t.proof.requestId = some r := by
    rw [Database.row, hrequests]
    exact hr
  obtain rfl := Option.some.inj (hsame.symm.trans hr')
  exact ⟨rfl, rfl, rfl, rfl, .inr hpending⟩

/-- What one step does to the rows. -/
theorem Step.rows {w w' : World F} {l : Label F} (h : Step C V w l w') : w.db.Grows w'.db := by
  cases h with
  | request gate binding now id audit =>
    have hwp := request_wp (C := C) gate binding now id audit w.db
    unfold Action.wp at hwp
    split at hwp
    · next heq =>
      obtain ⟨-, -, -, r, -, -, -, -, hdb⟩ := hwp
      simp only [heq, hdb]
      exact (grows_of_highwater rfl).trans (grows_insert _ _ _)
    · next heq =>
      simp only [heq, hwp]
      exact .refl _
  | hardwareRequest gate id credentialId now =>
    have hwp := hardwareRequest_wp (F := F) (C := C) gate id credentialId now w.db
    unfold Action.wp at hwp
    split at hwp
    · next heq =>
      simp only [heq, hwp.2.1]
      exact grows_of_highwater rfl
    · next heq =>
      simp only [heq, hwp]
      exact .refl _
  | finish id outcome audit =>
    have hwp := finish_wp id outcome audit w.db
    unfold Action.wp at hwp
    split at hwp
    · next heq =>
      simp only [heq, hwp]
      refine grows_update fun r _ => ?_
      split_ifs
      · exact ⟨rfl, rfl, rfl, rfl, .inl rfl⟩
      · exact .refl r
    · next heq =>
      simp only [heq, hwp]
      exact .refl _
  | cancel id audit =>
    simp only [cancel_apply]
    rcases audit with e | _
    · exact .refl _
    · refine grows_update fun r _ => ?_
      split_ifs with hpending
      · exact ⟨rfl, rfl, rfl, rfl, .inr hpending⟩
      · exact .refl r
  | commit waits committed => exact (commit_eq_ok committed).grows
  | refuse waits refused =>
    rw [commit_eq_error refused]
    exact .refl _
  | _ => exact .refl _

theorem Reaches.rows {w w' : World F} (h : Reaches C V w w') : w.db.Grows w'.db := by
  induction h with
  | refl => exact .refl _
  | tail _ hstep ih =>
    obtain ⟨l, hstep⟩ := hstep
    exact ih.trans hstep.rows

end Bulldog.Approval
