import Bulldog.Approval.Run

/-!
# Approvals are used once

An approval that `consume` returns was pending, has the digest of the caller's binding, and was
verified against the stored message. No other call returns it, and the dispatcher runs one effect for
it. The counters of a hardware key only go up, whatever names the key is enrolled under.
-/

namespace Bulldog.Approval

variable {F : Type} [PyFloat F] {C : Crypto} {V : Verifier}

/-! ## Tickets -/

/-- What the first part of `consume` has checked. -/
structure Ticket.Checked (C : Crypto) (V : Verifier) (t : Ticket F) : Prop where
  enrolled : t.gate.credentials.lookup t.proof.credentialId = some t.key
  digest : bindingDigest C t.binding = .ok t.expected
  policy : t.gate.policyMatches t.binding = true
  ssh : ∀ publicKey, t.key = .ssh publicKey → t.hardware = none ∧
    V.ssh t.message t.proof.signature publicKey = .ok ()
  hardware : ∀ device, t.key = .hardware device → ∃ assertion request,
    t.hardware = some (device, assertion, request) ∧
    Assertion.decode t.proof.signature = .ok assertion ∧
    requestFor F C t.message t.proof.credentialId = .ok request

theorem check_eq_ok {gate : ApprovalGate} {binding : Fields F} {proof : ApprovalProof}
    {db : Database} {t : Ticket F} (h : gate.check C V binding proof db = .ok t) :
    t.Checked C V ∧ t.gate = gate ∧ t.binding = binding ∧
      ∃ r, db.row t.proof.requestId = some r ∧ r.message = t.message := by
  obtain ⟨key, hkey, h⟩ := bind_eq_ok.1 h
  obtain ⟨expected, hexpected, h⟩ := bind_eq_ok.1 h
  obtain ⟨r, hr, h⟩ := bind_eq_ok.1 h
  obtain ⟨_, -, h⟩ := bind_eq_ok.1 h
  obtain ⟨_, hpolicy, h⟩ := bind_eq_ok.1 h
  have hpolicy : gate.policyMatches binding = true := by simpa using raiseIf_eq_ok.1 hpolicy
  have hkey := orRaise_eq_ok.1 hkey
  have hr := orRaise_eq_ok.1 hr
  cases key with
  | hardware device =>
    obtain ⟨assertion, hassertion, h⟩ := bind_eq_ok.1 h
    obtain ⟨request, hrequest, h⟩ := bind_eq_ok.1 h
    obtain rfl := Except.ok.inj h
    refine ⟨⟨hkey, hexpected, hpolicy, nofun, ?_⟩, rfl, rfl, r, hr, rfl⟩
    rintro _ ⟨⟩
    exact ⟨assertion, request, rfl, hassertion, hrequest⟩
  | ssh publicKey =>
    obtain ⟨_, hssh, h⟩ := bind_eq_ok.1 h
    obtain rfl := Except.ok.inj h
    refine ⟨⟨hkey, hexpected, hpolicy, ?_, nofun⟩, rfl, rfl, r, hr, rfl⟩
    rintro _ ⟨⟩
    exact ⟨rfl, hssh⟩

/-- The proof of a call was verified against this message, with a credential of the gate. -/
def Commit.Verified (C : Crypto) (V : Verifier) (c : Commit F) (message : Bytes) : Prop :=
  (∃ publicKey, c.ticket.gate.credentials.lookup c.ticket.proof.credentialId =
      some (.ssh publicKey) ∧ V.ssh message c.ticket.proof.signature publicKey = .ok ()) ∨
    ∃ device assertion request counter,
      c.ticket.gate.credentials.lookup c.ticket.proof.credentialId = some (.hardware device) ∧
      Assertion.decode c.ticket.proof.signature = .ok assertion ∧
      requestFor F C message c.ticket.proof.credentialId = .ok request ∧
      verifyAssertion C V assertion request device counter c.now = .ok () ∧
      (c.denied = false → assertion.decision = .approve)

/-- The state that a call leaves. -/
def Commit.state (c : Commit F) : RequestState := if c.denied then .denied else .consumed

/-- What a call of `consume` that committed has of its request. -/
structure Commit.Fits (C : Crypto) (V : Verifier) (c : Commit F) (r : Row) : Prop where
  state : r.state = c.state
  digest : bindingDigest C c.ticket.binding = .ok r.binding
  policy : c.ticket.gate.policyMatches c.ticket.binding = true
  verified : c.Verified C V r.message
  issued : r.issued ≤ c.now
  expires : c.now < r.expires

theorem Commit.Fits.next {c : Commit F} {r r' : Row} (h : c.Fits C V r) (hn : r.Next r') :
    c.Fits C V r' := by
  refine ⟨?_, ?_, h.policy, ?_, ?_, ?_⟩
  · rcases hn.state with hs | hs
    · rw [hs, h.state]
    · rw [h.state] at hs
      unfold Commit.state at hs
      split_ifs at hs
  · rw [hn.binding, h.digest]
  · rw [hn.message]
    exact h.verified
  · rw [hn.issued]
    exact h.issued
  · rw [hn.expires]
    exact h.expires

/-- A transaction of `consume` that commits fits the row that it leaves. -/
theorem Commits.fits {t : Ticket F} {caller : Option (BrokerCall F)} {now : ℤ} {db db' : Database}
    {denied : Bool} (h : Commits C V t now db db' denied) (hchecked : t.Checked C V)
    (hmessage : ∃ r, db.row t.proof.requestId = some r ∧ r.message = t.message) :
    ∃ r, db'.row t.proof.requestId = some r ∧ (⟨t, caller, now, denied⟩ : Commit F).Fits C V r := by
  obtain ⟨r, hr, -, hbinding, hissued, hexpires⟩ := h.row
  obtain ⟨r', hr', hmessage⟩ := hmessage
  obtain rfl := Option.some.inj (hr.symm.trans hr')
  obtain ⟨db₁, hcounted, rfl⟩ := h.counted
  have hsame : db₁.row t.proof.requestId = some r := by
    rw [Database.row, hcounted.requests_eq]
    exact hr
  refine ⟨_, row_update_self hsame, rfl, ?_, hchecked.policy, ?_, hissued, hexpires⟩
  · rw [hchecked.digest, hbinding]
  · change Commit.Verified C V _ r.message
    rw [hmessage]
    rcases hkey : t.key with publicKey | device
    · exact .inl ⟨publicKey, hchecked.enrolled.trans (congrArg some hkey),
        (hchecked.ssh publicKey hkey).2⟩
    · obtain ⟨assertion, request, hhardware, hdecode, hrequest⟩ := hchecked.hardware device hkey
      rw [hhardware] at hcounted
      refine .inr ⟨device, assertion, request, ?_⟩
      cases hcounted with
      | some verified set =>
        refine ⟨_, hchecked.enrolled.trans (congrArg some hkey), hdecode, hrequest, verified, ?_⟩
        intro hdenied
        rcases hdecision : assertion.decision with _ | _
        · rw [hdecision] at hdenied
          cases hdenied
        · rfl

/-! ## What every run keeps -/

omit [PyFloat F] in
theorem nodup_map_middle {α β : Type} {f : α → β} {xs ys : List α} {x : α} :
    ((xs ++ x :: ys).map f).Nodup ↔ f x ∉ (xs ++ ys).map f ∧ ((xs ++ ys).map f).Nodup := by
  rw [List.map_append, List.map_cons, List.nodup_middle, List.nodup_cons, ← List.map_append]

omit [PyFloat F] in
theorem mem_middle {α : Type} {xs ys : List α} {x y : α} (h : y ∈ xs ++ ys) :
    y ∈ xs ++ x :: ys := by
  rcases List.mem_append.1 h with h | h
  · exact List.mem_append_left _ h
  · exact List.mem_append_right _ (List.mem_cons_of_mem _ h)

/-- The approved effects. -/
def World.approved (w : World F) : List (Commit F) :=
  w.effects.filterMap fun
    | .approved c _ => some c
    | .routine _ _ => none

/-- An effect that the dispatcher may run. -/
def Effect.Allowed (returned : List (Commit F)) : Effect F → Prop
  | .approved c call => c ∈ returned ∧ call.binding c.ticket.gate = .ok c.ticket.binding
  | .routine gate call => call.routine gate = true

/-- The calls under way and the history are sound. -/
structure Sound (C : Crypto) (V : Verifier) (w : World F) : Prop where
  waiting : ∀ x ∈ w.waiting, x.1.Checked C V ∧
    (∀ call ∈ x.2, call.binding x.1.gate = .ok x.1.binding) ∧
    ∃ r, w.db.row x.1.proof.requestId = some r ∧ r.message = x.1.message
  committed : ∀ c ∈ w.committed, (∀ call ∈ c.caller, call.binding c.ticket.gate = .ok c.ticket.binding) ∧
    ∃ r, w.db.row c.id = some r ∧ c.Fits C V r
  reported : ((w.unreported ++ w.returned).map Commit.id).Nodup
  mem_committed : ∀ c ∈ w.unreported ++ w.returned, c ∈ w.committed
  granted : ∀ c ∈ w.returned, c.denied = false
  held : ((w.held.map Prod.fst ++ w.approved).map Commit.id).Nodup
  mem_returned : ∀ c ∈ w.held.map Prod.fst ++ w.approved, c ∈ w.returned
  callers : ∀ x ∈ w.held, x.1.caller = some x.2
  allowed : ∀ e ∈ w.effects, e.Allowed w.returned

theorem sound_start : Sound (F := F) C V .start := by
  constructor <;> simp [World.start, World.approved]

/-- A step that only changes the database keeps the world sound. -/
theorem Sound.grow {w : World F} (h : Sound C V w) {db : Database} (hdb : w.db.Grows db)
    {events : List (Str × Terminal)} : Sound C V { w with db := db, events := events } := by
  refine ⟨fun x hx => ?_, fun c hc => ?_, h.reported, h.mem_committed, h.granted, h.held,
    h.mem_returned, h.callers, h.allowed⟩
  · obtain ⟨hchecked, hcaller, r, hr, hmessage⟩ := h.waiting x hx
    obtain ⟨r', hr', hn⟩ := hdb _ r hr
    exact ⟨hchecked, hcaller, r', hr', hn.message.trans hmessage⟩
  · obtain ⟨hcaller, r, hr, hfits⟩ := h.committed c hc
    obtain ⟨r', hr', hn⟩ := hdb _ r hr
    exact ⟨hcaller, r', hr', hfits.next hn⟩

/-- A pending request has not been consumed before. -/
theorem Sound.not_mem_of_pending {w : World F} (h : Sound C V w) {id : Str} {r : Row}
    (hr : w.db.row id = some r) (hpending : r.state = .pending) :
    id ∉ w.committed.map Commit.id := by
  intro hmem
  obtain ⟨c, hc, rfl⟩ := List.mem_map.1 hmem
  obtain ⟨-, r', hr', hfits⟩ := h.committed c hc
  obtain rfl := Option.some.inj (hr.symm.trans hr')
  have hstate := hfits.state
  rw [hpending] at hstate
  unfold Commit.state at hstate
  split_ifs at hstate

omit [PyFloat F] in
theorem approved_concat {w : World F} {c : Commit F} {call : BrokerCall F}
    {held : List (Commit F × BrokerCall F)} :
    World.approved { w with held := held, effects := w.effects ++ [.approved c call] } =
      w.approved ++ [c] := by
  simp [World.approved]

omit [PyFloat F] in
theorem approved_routine {w : World F} {gate : ApprovalGate} {call : BrokerCall F} :
    World.approved { w with effects := w.effects ++ [.routine gate call] } = w.approved := by
  simp [World.approved]

/-- A `consume` that commits. -/
theorem Sound.commit {w : World F} (h : Sound C V w) {t : Ticket F}
    {caller : Option (BrokerCall F)} {now : ℤ} {denied : Bool} {db : Database}
    {before after : List (Ticket F × Option (BrokerCall F))}
    (hwaits : w.waiting = before ++ (t, caller) :: after)
    (hcommits : Commits C V t now w.db db denied) :
    Sound C V { w with
      db := db
      waiting := before ++ after
      committed := w.committed ++ [⟨t, caller, now, denied⟩]
      unreported := w.unreported ++ [⟨t, caller, now, denied⟩] } := by
  have hgrown : Sound C V { w with db := db } := h.grow hcommits.grows
  obtain ⟨hchecked, hcaller, hmessage⟩ := h.waiting (t, caller) (by rw [hwaits]; simp)
  obtain ⟨r, hr, hpending, -⟩ := hcommits.row
  have hnew := h.not_mem_of_pending hr hpending
  have hfresh : ∀ c ∈ w.unreported ++ w.returned, c.id ≠ t.proof.requestId := fun c hc heq =>
    hnew (heq ▸ List.mem_map_of_mem (h.mem_committed c hc))
  refine ⟨fun x hx => ?_, fun c hc => ?_, ?_, fun c hc => ?_, h.granted, h.held, h.mem_returned,
    h.callers, h.allowed⟩
  · refine hgrown.waiting x ?_
    change x ∈ w.waiting
    rw [hwaits]
    exact mem_middle hx
  · rcases List.mem_append.1 hc with hc | hc
    · exact hgrown.committed c hc
    · obtain rfl := List.mem_singleton.1 hc
      exact ⟨hcaller, hcommits.fits hchecked hmessage⟩
  · -- the new call has another request than the ones before it
    rw [List.append_assoc, List.singleton_append, nodup_map_middle]
    refine ⟨fun hmem => ?_, h.reported⟩
    obtain ⟨c, hc, heq⟩ := List.mem_map.1 hmem
    exact hfresh c hc heq
  · rcases List.mem_append.1 hc with hc | hc
    · rcases List.mem_append.1 hc with hc | hc
      · exact List.mem_append_left _ (h.mem_committed c (List.mem_append_left _ hc))
      · exact List.mem_append_right _ hc
    · exact List.mem_append_left _ (h.mem_committed c (List.mem_append_right _ hc))

/-- A `consume` that has called the audit callback. -/
theorem Sound.report {w : World F} (h : Sound C V w) {c : Commit F} {before after : List (Commit F)}
    (hwaits : w.unreported = before ++ c :: after) :
    Sound C V { w with
      unreported := before ++ after
      events := w.events ++ [(c.id, c.terminal)]
      returned := if c.denied then w.returned else w.returned ++ [c]
      held := match c.caller with
        | some call => if c.denied then w.held else w.held ++ [(c, call)]
        | none => w.held } := by
  have hreported := h.reported
  rw [hwaits, List.append_assoc, List.cons_append, nodup_map_middle] at hreported
  obtain ⟨hother, hrest⟩ := hreported
  have hmem : ∀ d ∈ (before ++ after) ++ w.returned, d ∈ w.committed := by
    intro d hd
    refine h.mem_committed d ?_
    rw [hwaits, List.append_assoc]
    rw [List.append_assoc] at hd
    exact mem_middle hd
  rcases hdenied : c.denied with _ | _
  · have hnew : c.id ∉ (w.held.map Prod.fst ++ w.approved).map Commit.id := by
      intro hid
      obtain ⟨d, hd, heq⟩ := List.mem_map.1 hid
      refine hother ?_
      rw [← heq]
      exact List.mem_map_of_mem
        (List.mem_append_right _ (List.mem_append_right _ (h.mem_returned d hd)))
    have hsub : ∀ d ∈ w.returned, d ∈ w.returned ++ [c] := fun d hd => List.mem_append_left _ hd
    have hallowed : ∀ e ∈ w.effects, e.Allowed (w.returned ++ [c]) := by
      intro e he
      have hold := h.allowed e he
      cases e with
      | approved d call => exact ⟨hsub d hold.1, hold.2⟩
      | routine gate call => exact hold
    have hcommitted : ∀ d ∈ (before ++ after) ++ (w.returned ++ [c]), d ∈ w.committed := by
      intro d hd
      rw [← List.append_assoc] at hd
      rcases List.mem_append.1 hd with hd | hd
      · exact hmem d hd
      · obtain rfl := List.mem_singleton.1 hd
        exact h.mem_committed d (by rw [hwaits]; simp)
    have hnodup : (((before ++ after) ++ (w.returned ++ [c])).map Commit.id).Nodup := by
      rw [← List.append_assoc, List.map_append, List.map_singleton, List.nodup_append_comm,
        List.singleton_append, List.nodup_cons, List.append_assoc]
      exact ⟨hother, hrest⟩
    have hgranted : ∀ d ∈ w.returned ++ [c], d.denied = false := by
      intro d hd
      rcases List.mem_append.1 hd with hd | hd
      · exact h.granted d hd
      · obtain rfl := List.mem_singleton.1 hd
        exact hdenied
    simp only [Bool.false_eq_true, if_false]
    rcases hcaller : c.caller with _ | call
    · exact ⟨h.waiting, h.committed, hnodup, hcommitted, hgranted, h.held,
        fun d hd => hsub d (h.mem_returned d hd), h.callers, hallowed⟩
    · have hfirst : (w.held ++ [(c, call)]).map Prod.fst = w.held.map Prod.fst ++ [c] := by simp
      refine ⟨h.waiting, h.committed, hnodup, hcommitted, hgranted, ?_, fun d hd => ?_, fun x hx => ?_,
        hallowed⟩
      · change ((((w.held ++ [(c, call)]).map Prod.fst) ++ w.approved).map Commit.id).Nodup
        rw [hfirst, List.append_assoc, List.singleton_append, nodup_map_middle]
        exact ⟨hnew, h.held⟩
      · change d ∈ ((w.held ++ [(c, call)]).map Prod.fst) ++ w.approved at hd
        rw [hfirst, List.append_assoc] at hd
        rcases List.mem_append.1 hd with hd | hd
        · exact hsub d (h.mem_returned d (List.mem_append_left _ hd))
        · rcases List.mem_cons.1 hd with rfl | hd
          · simp
          · exact hsub d (h.mem_returned d (List.mem_append_right _ hd))
      · rcases List.mem_append.1 hx with hx | hx
        · exact h.callers x hx
        · obtain rfl := List.mem_singleton.1 hx
          exact hcaller
  · have hheld : (match c.caller with
        | some call => if true = true then w.held else w.held ++ [(c, call)]
        | none => w.held) = w.held := by
      rcases c.caller with _ | call <;> rfl
    simp only [if_true] at hheld ⊢
    rw [hheld]
    refine ⟨h.waiting, h.committed, ?_, hmem, h.granted, h.held, h.mem_returned, h.callers,
      h.allowed⟩
    change (((before ++ after) ++ w.returned).map Commit.id).Nodup
    rw [List.append_assoc]
    exact hrest

/-- An effect of the dispatcher, or one that is withheld. -/
theorem Sound.effect {w : World F} (h : Sound C V w) {c : Commit F} {call : BrokerCall F}
    {before after : List (Commit F × BrokerCall F)}
    (hwaits : w.held = before ++ (c, call) :: after) :
    Sound C V { w with held := before ++ after, effects := w.effects ++ [.approved c call] } ∧
      Sound C V { w with held := before ++ after } := by
  have hfirst : w.held.map Prod.fst = before.map Prod.fst ++ c :: after.map Prod.fst := by
    rw [hwaits, List.map_append, List.map_cons]
  have hheld := h.held
  rw [hfirst, List.append_assoc, List.cons_append, nodup_map_middle, ← List.append_assoc,
    ← List.map_append] at hheld
  obtain ⟨hother, hrest⟩ := hheld
  have hmem : ∀ d ∈ (before ++ after).map Prod.fst ++ w.approved, d ∈ w.returned := by
    intro d hd
    refine h.mem_returned d ?_
    rw [hfirst, List.append_assoc]
    rw [List.map_append, List.append_assoc] at hd
    exact mem_middle hd
  have hcallers : ∀ x ∈ before ++ after, x.1.caller = some x.2 := by
    intro x hx
    refine h.callers x ?_
    rw [hwaits]
    exact mem_middle hx
  have hc : c ∈ w.returned := h.mem_returned c (by rw [hwaits]; simp)
  constructor
  · refine ⟨h.waiting, h.committed, h.reported, h.mem_committed, h.granted, ?_, ?_, hcallers, ?_⟩
    · rw [approved_concat, ← List.append_assoc, List.map_append, List.map_singleton,
        List.nodup_append_comm, List.singleton_append, List.nodup_cons]
      exact ⟨hother, hrest⟩
    · rw [approved_concat, ← List.append_assoc]
      intro d hd
      rcases List.mem_append.1 hd with hd | hd
      · exact hmem d hd
      · obtain rfl := List.mem_singleton.1 hd
        exact hc
    · intro e he
      rcases List.mem_append.1 he with he | he
      · exact h.allowed e he
      · obtain rfl := List.mem_singleton.1 he
        have hcaller := h.callers (c, call) (by rw [hwaits]; simp)
        have hcommitted := h.mem_committed c (List.mem_append_right _ hc)
        exact ⟨hc, (h.committed c hcommitted).1 call hcaller⟩
  · exact ⟨h.waiting, h.committed, h.reported, h.mem_committed, h.granted, hrest, hmem, hcallers,
      h.allowed⟩

theorem Sound.step {w w' : World F} {l : Label F} (h : Sound C V w) (hstep : Step C V w l w') :
    Sound C V w' := by
  have hrows := hstep.rows
  cases hstep with
  | request gate binding now id audit => exact h.grow hrows
  | hardwareRequest gate id credentialId now => exact h.grow hrows
  | finish id outcome audit => exact h.grow hrows
  | cancel id audit => exact h.grow hrows
  | check caller bound checked =>
    obtain ⟨hchecked, rfl, rfl, hmessage⟩ := check_eq_ok checked
    refine ⟨fun x hx => ?_, h.committed, h.reported, h.mem_committed, h.granted, h.held,
      h.mem_returned, h.callers, h.allowed⟩
    rcases List.mem_append.1 hx with hx | hx
    · exact h.waiting x hx
    · obtain rfl := List.mem_singleton.1 hx
      exact ⟨hchecked, fun call hcall => (bound call hcall).2, hmessage⟩
  | commit waits committed => exact h.commit waits (commit_eq_ok committed)
  | refuse waits refused =>
    obtain rfl := commit_eq_error refused
    refine ⟨fun x hx => ?_, h.committed, h.reported, h.mem_committed, h.granted, h.held,
      h.mem_returned, h.callers, h.allowed⟩
    refine h.waiting x ?_
    rw [waits]
    exact mem_middle hx
  | report waits => exact h.report waits
  | unreported waits =>
    have hreported := h.reported
    rw [waits, List.append_assoc, List.cons_append, nodup_map_middle, ← List.append_assoc] at hreported
    refine ⟨h.waiting, h.committed, hreported.2, fun d hd => ?_, h.granted, h.held, h.mem_returned,
      h.callers, h.allowed⟩
    refine h.mem_committed d ?_
    rw [waits, List.append_assoc]
    rw [List.append_assoc] at hd
    exact mem_middle hd
  | effect waits => exact (h.effect waits).1
  | withheld waits => exact (h.effect waits).2
  | routine passes =>
    refine ⟨h.waiting, h.committed, h.reported, h.mem_committed, h.granted, ?_, ?_, h.callers,
      fun e he => ?_⟩
    · rw [approved_routine]
      exact h.held
    · rw [approved_routine]
      exact h.mem_returned
    · rcases List.mem_append.1 he with he | he
      · exact h.allowed e he
      · obtain rfl := List.mem_singleton.1 he
        exact passes

theorem Run.sound {ok : World F → Label F → Prop} {w : World F} (h : Run C V ok w) :
    Sound C V w := by
  induction h with
  | start => exact sound_start
  | step before admitted step ih => exact ih.step step

/-- Approvals are one-use and bound to what was asked for, in every world that is reached. -/
theorem approvals_one_use (C : Crypto) (V : Verifier) (w : World F)
    (h : Run C V (fun _ _ => True) w) :
    (∀ w', Reaches C V w w' → ∀ id r, w.db.row id = some r →
        ∃ r', w'.db.row id = some r' ∧ r.Next r') ∧
      (w.returned.map Commit.id).Nodup ∧
      (∀ c ∈ w.returned, ∃ r, w.db.row c.id = some r ∧ r.state = .consumed ∧ c.Fits C V r) ∧
      (w.approved.map Commit.id).Nodup ∧
      ∀ e ∈ w.effects, e.Allowed w.returned := by
  have hsound := h.sound
  have hreported := hsound.reported
  have hheld := hsound.held
  rw [List.map_append] at hreported hheld
  refine ⟨fun w' hw' => hw'.rows, hreported.of_append_right, fun c hc => ?_, hheld.of_append_right,
    hsound.allowed⟩
  obtain ⟨-, r, hr, hfits⟩ := hsound.committed c
    (hsound.mem_committed c (List.mem_append_right _ hc))
  refine ⟨r, hr, ?_, hfits⟩
  rw [hfits.state, Commit.state, hsound.granted c hc]
  rfl

/-- The dispatcher asks for an approval at `issued`, gets a proof and uses it at `used`. -/
def World.use (C : Crypto) (V : Verifier) (gate : ApprovalGate) (call : BrokerCall F)
    (proof : ApprovalProof) (issued used : ℤ) : Option (World F) := do
  let binding ← (call.binding gate).toOption
  guard (call.routine gate = false)
  let db := (gate.request C binding issued proof.requestId (.ok ()) .empty).2
  let ticket ← (gate.check C V binding proof db).toOption
  match ticket.commit C V used db with
  | (.ok false, db') =>
    let c : Commit F := ⟨ticket, some call, used, false⟩
    return ⟨db', [], [c], [], [(c.id, .consumed)], [c], [], [.approved c call]⟩
  | _ => none

theorem toOption_eq_some {α : Type} {x : Except Exc α} {a : α} (h : x.toOption = some a) :
    x = .ok a := by
  rcases x with e | b
  · cases h
  · rw [Option.some.inj h]

theorem use_eq_some {gate : ApprovalGate} {call : BrokerCall F} {proof : ApprovalProof}
    {issued used : ℤ} {w : World F} (h : World.use C V gate call proof issued used = some w) :
    ∃ binding ticket db', call.binding gate = .ok binding ∧ call.routine gate = false ∧
      gate.check C V binding proof
        (gate.request C binding issued proof.requestId (.ok ()) .empty).2 = .ok ticket ∧
      ticket.commit C V used (gate.request C binding issued proof.requestId (.ok ()) .empty).2 =
        (.ok false, db') ∧
      w = ⟨db', [], [⟨ticket, some call, used, false⟩], [], [(ticket.proof.requestId, .consumed)],
        [⟨ticket, some call, used, false⟩], [], [.approved ⟨ticket, some call, used, false⟩ call]⟩ := by
  unfold World.use at h
  obtain ⟨binding, hbinding, h⟩ := Option.bind_eq_some_iff.1 h
  obtain ⟨_, hroutine, h⟩ := Option.bind_eq_some_iff.1 h
  obtain ⟨ticket, hticket, h⟩ := Option.bind_eq_some_iff.1 h
  have hroutine : call.routine gate = false := by
    unfold guard at hroutine
    split_ifs at hroutine with hc
    exact hc
  split at h
  · next db' hcommit =>
    exact ⟨binding, ticket, db', toOption_eq_some hbinding, hroutine, toOption_eq_some hticket,
      hcommit, (Option.some.inj h).symm⟩
  · cases h

theorem run_of_use {gate : ApprovalGate} {call : BrokerCall F} {proof : ApprovalProof}
    {issued used : ℤ} {w : World F} (h : World.use C V gate call proof issued used = some w)
    {ok : World F → Label F → Prop}
    (hok : ∀ w l, l.Audited → (∀ id audit, l ≠ .cancel id audit) → ok w l) : Run C V ok w := by
  obtain ⟨binding, ticket, db', hbinding, hroutine, hticket, hcommit, rfl⟩ := use_eq_some h
  have hrequest : Run C V ok _ := .step .start (hok _ _ (by exact rfl) (by rintro _ _ ⟨⟩))
    (.request gate binding issued proof.requestId (.ok ()))
  have hcheck := hrequest.step (hok _ _ (by exact trivial) (by rintro _ _ ⟨⟩))
    (.check (some call) (by rintro _ ⟨⟩; exact ⟨hroutine, hbinding⟩) hticket)
  have hcommit := hcheck.step (hok _ _ (by exact trivial) (by rintro _ _ ⟨⟩))
    (.commit (show _ = [] ++ (ticket, some call) :: [] from rfl) hcommit)
  have hreport := hcommit.step (hok _ _ (by exact rfl) (by rintro _ _ ⟨⟩))
    (.report (show _ = [] ++ (⟨ticket, some call, used, false⟩ : Commit F) :: [] from rfl))
  exact hreport.step (hok _ _ (by exact trivial) (by rintro _ _ ⟨⟩))
    (.effect (show _ = [] ++ (_, call) :: [] from rfl))

/-- A gate with one security key. -/
def deskGate : ApprovalGate := ⟨[("desk".toList, .ssh "sk-ssh".toList)], [], 30, "policy".toList⟩

/-- A program publishes something. -/
def deskCall : BrokerCall Literal where
  action := ⟨"agent".toList, "release".toList, "publish".toList, "https://x".toList, .networkPost,
    {.networkPost}, [], none, false, true, []⟩
  operation := "publish"
  parameters := []
  sessionId := "session".toList

/-- OpenSSH, where the key has made one signature. -/
def deskVerifier : Verifier where
  ssh _ signature _ :=
    if signature = [1] then .ok () else .error (approvalError "hardware signature rejected")
  ecdsa _ _ _ := false

/-- The human has signed the request. -/
def deskProof : ApprovalProof := ⟨"r".toList, "desk".toList, [1]⟩

theorem desk_uses : ∃ w, World.use .standard deskVerifier deskGate deskCall deskProof 50 60 = some w ∧
    w.unreported.isEmpty = true ∧ w.events = [(deskProof.requestId, .consumed)] ∧
    (w.db.row deskProof.requestId).map Row.state = some .consumed := by
  have hany : (World.use .standard deskVerifier deskGate deskCall deskProof 50 60).any (fun w =>
      w.unreported.isEmpty = true ∧ w.events = [(deskProof.requestId, .consumed)] ∧
        (w.db.row deskProof.requestId).map Row.state = some .consumed) = true := by
    decide +kernel
  obtain ⟨w, hw, hfacts⟩ := (Option.any_eq_true _ _).1 hany
  exact ⟨w, hw, of_decide_eq_true hfacts⟩

theorem desk_one_use : ∃ w, World.use .standard deskVerifier deskGate deskCall deskProof 50 60 =
    some w ∧ (w.returned.map Commit.id).Nodup ∧ (w.approved.map Commit.id).Nodup ∧
      ∀ e ∈ w.effects, e.Allowed w.returned := by
  obtain ⟨w, hw, -⟩ := desk_uses
  obtain ⟨-, hreturned, -, happroved, hallowed⟩ :=
    approvals_one_use .standard deskVerifier w (run_of_use hw fun _ _ _ _ => trivial)
  exact ⟨w, hw, hreturned, happroved, hallowed⟩

end Bulldog.Approval
