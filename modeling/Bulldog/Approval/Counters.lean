import Bulldog.Approval.OneUse

/-!
# Hardware counters

Every assertion of a hardware key carries a counter. The database keeps the last counter of a
physical key, whatever names the key is enrolled under, and the counters that `consume` accepts for
the key go up. An approval and a denial count alike.
-/

namespace Bulldog.Approval

variable {F : Type} [PyFloat F] {C : Crypto} {V : Verifier}

/-- The assertion that a call brought for this key. -/
def Commit.accepted (C : Crypto) (identity : Str) (c : Commit F) : Option Assertion :=
  match c.ticket.hardware with
  | some (device, assertion, _) =>
    if device.counterIdentity C = identity then some assertion else none
  | none => none

/-- The assertions that were accepted for a key, in the order of their commits. -/
def World.accepted (C : Crypto) (identity : Str) (w : World F) : List Assertion :=
  w.committed.filterMap (Commit.accepted C identity)

/-- The counter that is stored for a key. -/
def Database.counter (db : Database) (identity : Str) : ℕ := (db.counters.lookup identity).getD 0

/-! ## The table of counters -/

theorem counter_setCounter (db : Database) (identity identity' : Str) (n : ℕ) :
    (db.setCounter identity n).counter identity' =
      if identity' = identity then n else db.counter identity' := by
  unfold Database.counter Database.setCounter
  by_cases h : identity' = identity
  · subst h
    simp
  · rw [if_neg h, List.lookup_cons, beq_eq_false_iff_ne.2 h]
    change (List.lookup identity' (db.counters.filter _)).getD 0 = _
    congr 1
    -- the other keys keep their entries
    induction db.counters with
    | nil => rfl
    | cons e es ih =>
      obtain ⟨key, m⟩ := e
      by_cases hkey : key = identity
      · subst hkey
        rw [List.filter_cons_of_neg (by simp), List.lookup_cons, beq_eq_false_iff_ne.2 h]
        exact ih
      · rw [List.filter_cons_of_pos (by simpa using hkey), List.lookup_cons, List.lookup_cons, ih]

/-- An assertion that is verified has a higher counter than the stored one. -/
theorem verifyAssertion_counter {a : Assertion} {r : Request} {key : HardwareKey} {last : ℕ}
    {now : ℤ} (h : verifyAssertion C V a r key last now = .ok ()) : last < a.counter := by
  unfold verifyAssertion at h
  obtain ⟨_, -, h⟩ := bind_eq_ok.1 h
  obtain ⟨_, -, h⟩ := bind_eq_ok.1 h
  obtain ⟨_, -, h⟩ := bind_eq_ok.1 h
  obtain ⟨_, -, h⟩ := bind_eq_ok.1 h
  obtain ⟨_, -, h⟩ := bind_eq_ok.1 h
  obtain ⟨_, -, h⟩ := bind_eq_ok.1 h
  obtain ⟨_, -, h⟩ := bind_eq_ok.1 h
  obtain ⟨_, -, h⟩ := bind_eq_ok.1 h
  obtain ⟨_, hcounter, -⟩ := bind_eq_ok.1 h
  exact not_not.1 (raiseIf_eq_ok.1 hcounter)

/-! ## One move -/

/-- Only a `consume` that commits changes the counters. -/
theorem Step.counters {w w' : World F} {l : Label F} (h : Step C V w l w') :
    (w'.db.counters = w.db.counters ∧ w'.committed = w.committed) ∨
      ∃ t caller now denied, Commits C V t now w.db w'.db denied ∧
        w'.committed = w.committed ++ [⟨t, caller, now, denied⟩] := by
  cases h with
  | request gate binding now id audit =>
    refine .inl ⟨?_, rfl⟩
    have hwp := request_wp (C := C) gate binding now id audit w.db
    unfold Action.wp at hwp
    split at hwp
    · next heq =>
      obtain ⟨-, -, -, r, -, -, -, -, hdb⟩ := hwp
      simp only [heq, hdb]
      rfl
    · next heq => simp only [heq, hwp]
  | hardwareRequest gate id credentialId now =>
    refine .inl ⟨?_, rfl⟩
    have hwp := hardwareRequest_wp (F := F) (C := C) gate id credentialId now w.db
    unfold Action.wp at hwp
    split at hwp
    · next heq => simp only [heq, hwp.2.1]
    · next heq => simp only [heq, hwp]
  | finish id outcome audit =>
    refine .inl ⟨?_, rfl⟩
    have hwp := finish_wp id outcome audit w.db
    unfold Action.wp at hwp
    split at hwp
    · next heq =>
      simp only [heq, hwp]
      rfl
    · next heq => simp only [heq, hwp]
  | cancel id audit =>
    refine .inl ⟨?_, rfl⟩
    simp only [cancel_apply]
    rcases audit with e | _ <;> rfl
  | commit waits committed => exact .inr ⟨_, _, _, _, commit_eq_ok committed, rfl⟩
  | refuse waits refused =>
    refine .inl ⟨?_, rfl⟩
    rw [commit_eq_error refused]
  | _ => exact .inl ⟨rfl, rfl⟩

/-! ## Runs -/

/-- The accepted counters go up to the stored one. -/
structure Counting (C : Crypto) (w : World F) : Prop where
  sorted : ∀ identity, (w.accepted C identity).Pairwise fun a b => a.counter < b.counter
  stored : ∀ identity, ∀ a ∈ w.accepted C identity, a.counter ≤ w.db.counter identity

omit [PyFloat F] in
theorem accepted_concat {w w' : World F} {c : Commit F} {identity : Str}
    (h : w'.committed = w.committed ++ [c]) :
    w'.accepted C identity = w.accepted C identity ++ (c.accepted C identity).toList := by
  unfold World.accepted
  rw [h, List.filterMap_append]
  congr 1

omit [PyFloat F] in
/-- What a transaction that commits does to the counter of a key. -/
theorem Commits.counter {t : Ticket F} {now : ℤ} {db db' : Database} {denied : Bool}
    (h : Commits C V t now db db' denied) (caller : Option (BrokerCall F)) (identity : Str) :
    match (⟨t, caller, now, denied⟩ : Commit F).accepted C identity with
    | some a => db.counter identity < a.counter ∧ db'.counter identity = a.counter
    | none => db'.counter identity = db.counter identity := by
  obtain ⟨db₁, hcounted, rfl⟩ := h.counted
  change match (⟨t, caller, now, denied⟩ : Commit F).accepted C identity with
    | some a => db.counter identity < a.counter ∧ db₁.counter identity = a.counter
    | none => db₁.counter identity = db.counter identity
  unfold Commit.accepted
  rcases hhardware : t.hardware with _ | ⟨device, assertion, request⟩
  · rw [hhardware] at hcounted
    cases hcounted with
    | none same =>
      subst same
      rfl
  · rw [hhardware] at hcounted
    cases hcounted with
    | some verified set =>
      subst set
      simp only
      rw [counter_setCounter]
      by_cases hidentity : device.counterIdentity C = identity
      · subst hidentity
        rw [if_pos rfl, if_pos rfl]
        exact ⟨verifyAssertion_counter verified, rfl⟩
      · rw [if_neg hidentity, if_neg (Ne.symm hidentity)]
        rfl

theorem Counting.step {w w' : World F} {l : Label F} (h : Counting C w) (hstep : Step C V w l w') :
    Counting C w' := by
  rcases hstep.counters with ⟨hcounters, hcommitted⟩ | ⟨t, caller, now, denied, hcommits, hcommitted⟩
  · have hdb : ∀ identity, w'.db.counter identity = w.db.counter identity := fun identity => by
      rw [Database.counter, Database.counter, hcounters]
    have haccepted : ∀ identity, w'.accepted C identity = w.accepted C identity := fun identity => by
      rw [World.accepted, World.accepted, hcommitted]
    refine ⟨fun identity => ?_, fun identity a ha => ?_⟩
    · rw [haccepted]
      exact h.sorted identity
    · rw [haccepted] at ha
      rw [hdb]
      exact h.stored identity a ha
  · constructor
    · intro identity
      rw [accepted_concat hcommitted]
      have hnew := hcommits.counter caller identity
      split at hnew
      · next a ha =>
        rw [ha, Option.toList_some, List.pairwise_append]
        refine ⟨h.sorted identity, List.pairwise_singleton _ _, fun b hb a' ha' => ?_⟩
        obtain rfl := List.mem_singleton.1 ha'
        exact (h.stored identity b hb).trans_lt hnew.1
      · next ha =>
        rw [ha, Option.toList_none, List.append_nil]
        exact h.sorted identity
    · intro identity b hb
      rw [accepted_concat hcommitted] at hb
      have hnew := hcommits.counter caller identity
      split at hnew
      · next a ha =>
        rw [ha, Option.toList_some] at hb
        rw [hnew.2]
        rcases List.mem_append.1 hb with hb | hb
        · exact (h.stored identity b hb).trans hnew.1.le
        · obtain rfl := List.mem_singleton.1 hb
          exact le_rfl
      · next ha =>
        rw [ha, Option.toList_none, List.append_nil] at hb
        rw [hnew]
        exact h.stored identity b hb

theorem Run.counting {ok : World F → Label F → Prop} {w : World F} (h : Run C V ok w) :
    Counting C w := by
  induction h with
  | start => exact ⟨fun _ => List.Pairwise.nil, fun _ _ ha => nomatch ha⟩
  | step before admitted step ih => exact ih.step step

/-- The request of a call is expired, cancelled, used or unknown, or its assertion does not verify
against the stored counter. -/
def Ticket.Unfit (C : Crypto) (V : Verifier) (t : Ticket F) (now : ℤ) (db : Database) : Prop :=
  (∀ r, db.row t.proof.requestId = some r → r.state ≠ .pending ∨ now < r.issued ∨ r.expires ≤ now) ∨
    ∃ device assertion request, t.hardware = some (device, assertion, request) ∧
      verifyAssertion C V assertion request device (db.counter (device.counterIdentity C)) now ≠ .ok ()

omit [PyFloat F] in
theorem Commits.not_unfit {t : Ticket F} {now : ℤ} {db db' : Database} {denied : Bool}
    (h : Commits C V t now db db' denied) : ¬ t.Unfit C V now db := by
  rintro (hrow | ⟨device, assertion, request, hhardware, hfails⟩)
  · obtain ⟨r, hr, hpending, -, hissued, hexpires⟩ := h.row
    rcases hrow r hr with hstate | hearly | hlate
    · exact hstate hpending
    · omega
    · omega
  · obtain ⟨db₁, hcounted, -⟩ := h.counted
    rw [hhardware] at hcounted
    cases hcounted with
    | some verified set => exact hfails verified

/-- In every run the counters that are accepted for a key go up, so that no assertion is accepted
twice, and a call that is not fit to commit leaves the database as it was. -/
theorem counters_increase (C : Crypto) (V : Verifier) (w : World F)
    (h : Run C V (fun _ _ => True) w) :
    (∀ identity, (w.accepted C identity).Pairwise (fun a b => a.counter < b.counter) ∧
      (w.accepted C identity).Nodup) ∧
    ∀ t caller now w', Step C V w (.commit t caller now) w' → t.Unfit C V now w.db →
      w'.db = w.db ∧ w'.committed = w.committed := by
  constructor
  · intro identity
    have hsorted := h.counting.sorted identity
    refine ⟨hsorted, hsorted.imp fun hlt heq => ?_⟩
    rw [heq] at hlt
    exact lt_irrefl _ hlt
  · intro t caller now w' hstep hunfit
    cases hstep with
    | commit waits committed => exact absurd hunfit (commit_eq_ok committed).not_unfit
    | refuse waits refused => exact ⟨commit_eq_error refused, rfl⟩

/-! ## A key with two names -/

/-- What a device answers to a request. -/
def HardwareKey.answer (C : Crypto) (key : HardwareKey) (decision : Answer) (counter : ℕ) (request : Request) :
    Except Exc Assertion := do
  let digest ← request.digest C
  return ⟨decision, key.deviceId, request.requestId, digest, request.sessionDigest, request.nonce, counter,
    List.replicate 64 0⟩

/-- A request is made at `issued`, a device answers it, and two calls read the answer, one of which commits at
`used`. -/
def World.answered (C : Crypto) (V : Verifier) (gate : ApprovalGate) (binding : Fields F) (id credentialId : Str)
    (key : HardwareKey) (decision : Answer) (counter : ℕ) (issued used : ℤ) (w : World F) : Option (World F) := do
  let db := (gate.request C binding issued id (.ok ()) w.db).2
  let row ← db.row id
  let request ← (requestFor F C row.message credentialId).toOption
  let assertion ← (key.answer C decision counter request).toOption
  let packet ← assertion.encode.toOption
  let ticket ← (gate.check C V binding ⟨id, credentialId, packet⟩ db).toOption
  match ticket.commit C V used db with
  | (.ok denied, db') => return { w with
      db := db'
      waiting := w.waiting ++ [(ticket, none)]
      committed := w.committed ++ [⟨ticket, none, used, denied⟩]
      unreported := w.unreported ++ [⟨ticket, none, used, denied⟩] }
  | _ => none

theorem run_of_answered {gate : ApprovalGate} {binding : Fields F} {id credentialId : Str} {key : HardwareKey}
    {decision : Answer} {counter : ℕ} {issued used : ℤ} {w w' : World F} (hrun : Run C V (fun _ _ => True) w)
    (h : w.answered C V gate binding id credentialId key decision counter issued used = some w') :
    Run C V (fun _ _ => True) w' := by
  unfold World.answered at h
  obtain ⟨row, -, h⟩ := Option.bind_eq_some_iff.1 h
  obtain ⟨request, -, h⟩ := Option.bind_eq_some_iff.1 h
  obtain ⟨assertion, -, h⟩ := Option.bind_eq_some_iff.1 h
  obtain ⟨packet, -, h⟩ := Option.bind_eq_some_iff.1 h
  obtain ⟨ticket, hticket, h⟩ := Option.bind_eq_some_iff.1 h
  have hticket := toOption_eq_some hticket
  split at h
  · next denied db' hcommit =>
    obtain rfl := Option.some.inj h
    have hrequest := hrun.step trivial (.request gate binding issued id (.ok ()))
    have hfirst := hrequest.step trivial (.check none (fun _ hcall => by cases hcall) hticket)
    have hsecond := hfirst.step trivial (.check none (fun _ hcall => by cases hcall) hticket)
    have hdone := hsecond.step trivial (.commit
      (show _ = w.waiting ++ (ticket, none) :: [(ticket, none)] from List.append_assoc _ _ _) hcommit)
    exact hdone
  · cases h

/-- A hardware key. -/
def lockKey : HardwareKey := ⟨"ed25519".toList, List.replicate 32 1, List.replicate 65 2, true⟩

/-- A gate where the key is enrolled under two names. -/
def lockGate : ApprovalGate :=
  ⟨[("left".toList, .hardware lockKey), ("right".toList, .hardware lockKey)], [], 30, "policy".toList⟩

/-- What is to be approved. -/
def lockBinding : Fields Literal :=
  [("operation", .str "send".toList), ("target", .str "x".toList), ("session_id", .str "s".toList),
    ("parameters", .obj []), ("policy_digest", .str "policy".toList)]

/-- The ids of two requests. -/
def lockId (second : Bool) : Str := List.replicate 64 (if second then 'b' else 'a')

/-- A check of signatures that passes. -/
def lockVerifier : Verifier := ⟨fun _ _ _ => .ok (), fun _ _ _ => true⟩

/-- The key approves a request under one name, with the counter 3. -/
def lockOnce : Option (World Literal) :=
  World.start.answered .standard lockVerifier lockGate lockBinding (lockId false) "left".toList lockKey .approve 3
    50 60

/-- The key denies another one under its other name, with the counter 8. -/
def lockTwice : Option (World Literal) :=
  lockOnce.bind fun w => w.answered .standard lockVerifier lockGate lockBinding (lockId true) "right".toList lockKey
    .deny 8 61 62

theorem lockTwice_counters : ∃ w, lockTwice = some w ∧
    (w.accepted .standard (lockKey.counterIdentity .standard)).map Assertion.counter = [3, 8] ∧
    w.waiting.map (fun e => e.1.proof.requestId) = [lockId false, lockId true] ∧
    (w.db.row (lockId true)).map Row.state = some .denied := by
  have hany : lockTwice.any (fun w =>
      (w.accepted .standard (lockKey.counterIdentity .standard)).map Assertion.counter = [3, 8] ∧
        w.waiting.map (fun e => e.1.proof.requestId) = [lockId false, lockId true] ∧
        (w.db.row (lockId true)).map Row.state = some .denied) = true := by
    decide +kernel
  obtain ⟨w, hw, hfacts⟩ := (Option.any_eq_true _ _).1 hany
  exact ⟨w, hw, of_decide_eq_true hfacts⟩

/-- A call that waits goes on, one way or the other. -/
theorem exists_commit {w : World F} {ticket : Ticket F} {caller : Option (BrokerCall F)}
    {before after : List (Ticket F × Option (BrokerCall F))} (now : ℤ)
    (waits : w.waiting = before ++ (ticket, caller) :: after) : ∃ w', Step C V w (.commit ticket caller now) w' := by
  rcases hcommit : ticket.commit C V now w.db with ⟨e | denied, db⟩
  · exact ⟨_, .refuse waits hcommit⟩
  · exact ⟨_, .commit waits hcommit⟩

/-- An approval and a denial by one key under two names go up, and the denial cannot be handed in again. -/
theorem lock_counts : ∃ w w' ticket caller, lockTwice = some w ∧
    (w.accepted .standard (lockKey.counterIdentity .standard)).map Assertion.counter = [3, 8] ∧
    (w.accepted .standard (lockKey.counterIdentity .standard)).Nodup ∧
    Step .standard lockVerifier w (.commit ticket caller 63) w' ∧
    ticket.Unfit .standard lockVerifier 63 w.db ∧ w'.db = w.db := by
  obtain ⟨w, hw, hcounters, hwaiting, hstate⟩ := lockTwice_counters
  obtain ⟨first, honce, htwice⟩ := Option.bind_eq_some_iff.1 hw
  have hrun := run_of_answered (run_of_answered .start honce) htwice
  obtain ⟨hcounts, hrefused⟩ := counters_increase .standard lockVerifier w hrun
  obtain ⟨⟨ticket₁, caller₁⟩, rest, hcons, -, hrest⟩ := List.map_eq_cons_iff.1 hwaiting
  obtain ⟨⟨ticket, caller⟩, rest, rfl, hid, hnil⟩ := List.map_eq_cons_iff.1 hrest
  obtain ⟨w', hstep⟩ := exists_commit 63 (show w.waiting = [(ticket₁, caller₁)] ++ (ticket, caller) :: rest from hcons)
  have hunfit : ticket.Unfit .standard lockVerifier 63 w.db := by
    refine .inl fun r hr => .inl ?_
    rw [show ticket.proof.requestId = lockId true from hid] at hr
    rw [hr] at hstate
    rw [Option.some.inj hstate]
    exact fun h => by cases h
  exact ⟨w, w', ticket, caller, hw, hcounters, (hcounts _).2, hstep, hunfit, (hrefused ticket caller 63 w' hstep hunfit).1⟩

end Bulldog.Approval
