import Bulldog.Approval.OneUse

/-!
# The audit trail of approvals

`consume` emits the event that ends a request after its transaction has committed, `cancel` emits it
before its update and whether or not the update changes the row. The events agree with the table as
long as every `cancel` finds its request pending.
-/

namespace Bulldog.Approval

variable {F : Type} [PyFloat F] {C : Crypto} {V : Verifier}

/-- The state of a request. -/
def Database.state (db : Database) (id : Str) : Option RequestState := (db.row id).map Row.state

/-- The events that end requests: the emitted ones, and those that a `consume` has yet to emit. -/
def World.trail (w : World F) : List (Str × Terminal) :=
  w.unreported.map (fun c => (c.id, c.terminal)) ++ w.events

/-! ## One move -/

theorem state_update {db : Database} {id id' : Str} {f : Row → Row} :
    (db.update id f).state id' =
      if id' = id then (db.row id).map fun r => (f r).state else db.state id' := by
  unfold Database.state
  rw [row_update]
  split_ifs
  · rw [Option.map_map]
    rfl
  · rfl

/-- The states and the trail stay, apart from new requests. -/
structure Quiet (w w' : World F) : Prop where
  trail : w'.trail.Perm w.trail
  states : ∀ id, w'.db.state id = w.db.state id ∨
    w.db.state id = none ∧ w'.db.state id = some .pending

/-- A pending request ends, with the event that names its new state. -/
structure Ends (w w' : World F) (id : Str) (e : Terminal) : Prop where
  pending : w.db.state id = some .pending
  trail : w'.trail.Perm ((id, e) :: w.trail)
  states : ∀ id', w'.db.state id' = if id' = id then some e.state else w.db.state id'

/-- Every audit callback succeeds, and every `cancel` finds its request pending. -/
def Orderly (w : World F) (l : Label F) : Prop :=
  l.Audited ∧ ∀ id audit, l = .cancel id audit → w.db.state id = some .pending

omit [PyFloat F] in
theorem Quiet.of_state {w w' : World F} (hevents : w'.events = w.events)
    (hunreported : w'.unreported = w.unreported)
    (hstates : ∀ id, w'.db.state id = w.db.state id) : Quiet w w' := by
  refine ⟨?_, fun id => .inl (hstates id)⟩
  rw [World.trail, World.trail, hevents, hunreported]

theorem state_of_requests {db db' : Database} (h : db'.requests = db.requests) (id : Str) :
    db'.state id = db.state id := by
  rw [Database.state, Database.state, Database.row, Database.row, h]

omit [PyFloat F] in
theorem Commits.state {t : Ticket F} {now : ℤ} {db db' : Database} {denied : Bool}
    (h : Commits C V t now db db' denied) (id : Str) :
    db'.state id = if id = t.proof.requestId then
      some (if denied then .denied else .consumed) else db.state id := by
  obtain ⟨r, hr, -⟩ := h.row
  obtain ⟨db₁, hcounted, rfl⟩ := h.counted
  have hrequests : db₁.requests = db.requests := hcounted.requests_eq
  rw [state_update, state_of_requests hrequests, Database.row, hrequests]
  change (if id = _ then (db.row _).map _ else _) = _
  rw [hr]
  rfl

/-- What one step does to the trail. -/
theorem Step.trail {w w' : World F} {l : Label F} (h : Step C V w l w') (hok : Orderly w l) :
    Quiet w w' ∨ ∃ id e, Ends w w' id e := by
  obtain ⟨haudited, hcancel⟩ := hok
  cases h with
  | request gate binding now id audit =>
    refine .inl ⟨.refl _, fun id' => ?_⟩
    have hwp := request_wp (C := C) gate binding now id audit w.db
    unfold Action.wp at hwp
    split at hwp
    · next heq =>
      obtain ⟨-, hnone, -, r, hpending, -, -, -, hdb⟩ := hwp
      simp only [heq, hdb]
      unfold Database.state
      rw [row_insert]
      by_cases hid : id' = id
      · subst hid
        refine .inr ⟨by rw [hnone]; rfl, ?_⟩
        change Option.map _ ((w.db.row id').or _) = _
        rw [hnone, if_pos rfl, Option.none_or, Option.map_some, hpending]
      · refine .inl ?_
        rw [if_neg hid, Option.or_none]
        rfl
    · next heq =>
      rw [heq, hwp]
      exact .inl rfl
  | hardwareRequest gate id credentialId now =>
    refine .inl (.of_state rfl rfl fun id' => ?_)
    have hwp := hardwareRequest_wp (F := F) (C := C) gate id credentialId now w.db
    unfold Action.wp at hwp
    split at hwp
    · next heq =>
      simp only [heq, hwp.2.1]
      exact state_of_requests rfl id'
    · next heq => simp only [heq, hwp]
  | finish id outcome audit =>
    refine .inl (.of_state rfl rfl fun id' => ?_)
    have hwp := finish_wp id outcome audit w.db
    unfold Action.wp at hwp
    split at hwp
    · next heq =>
      simp only [heq, hwp]
      rw [state_update]
      split_ifs with hid
      · subst hid
        unfold Database.state
        congr 1
        funext r
        split_ifs <;> rfl
      · rfl
    · next heq => simp only [heq, hwp]
  | cancel id audit =>
    obtain rfl : audit = .ok () := haudited
    have hpending := hcancel id _ rfl
    refine .inr ⟨id, .cancelled, hpending, ?_, fun id' => ?_⟩
    · simp only [World.trail]
      rw [← List.append_assoc]
      exact List.perm_append_singleton _ _
    · simp only [cancel_apply]
      rw [state_update]
      split_ifs with hid
      · obtain ⟨r, hr, hstate⟩ := Option.map_eq_some_iff.1 hpending
        rw [hr, Option.map_some, if_pos hstate]
        rfl
      · rfl
  | commit waits committed =>
    have hcommits := commit_eq_ok committed
    obtain ⟨r, hr, hpending, -⟩ := hcommits.row
    rename_i t caller now before after denied db
    refine .inr ⟨t.proof.requestId, if denied then .humanDenied else .consumed, ?_, ?_, fun id' => ?_⟩
    · rw [Database.state, hr, Option.map_some, hpending]
    · simp only [World.trail, List.map_append, List.map_cons, List.map_nil, List.append_assoc,
        List.singleton_append]
      exact List.perm_middle
    · rw [hcommits.state]
      rcases denied with _ | _ <;> rfl
  | refuse waits refused =>
    rw [commit_eq_error refused]
    exact .inl (.of_state rfl rfl fun _ => rfl)
  | report waits =>
    rename_i c before after
    refine .inl ⟨?_, fun _ => .inl rfl⟩
    simp only [World.trail, waits, List.map_append, List.map_cons]
    -- the event moves from the call to the log
    simp only [List.append_assoc, List.cons_append]
    refine List.Perm.append_left _ ?_
    rw [← List.append_assoc]
    exact List.perm_append_singleton _ _
  | unreported waits => cases haudited
  | _ => exact .inl (.of_state rfl rfl fun _ => rfl)

/-! ## Runs -/

/-- The trail has one event for each request that has ended, and it names the state. -/
structure Truthful (w : World F) : Prop where
  once : (w.trail.map Prod.fst).Nodup
  named : ∀ id e, (id, e) ∈ w.trail ↔ w.db.state id = some e.state

theorem Terminal.state_ne_pending (e : Terminal) : e.state ≠ .pending := by
  cases e <;> nofun

theorem Terminal.state_injective : Function.Injective Terminal.state := by
  intro e e' h
  cases e <;> cases e' <;> first | rfl | cases h

omit [PyFloat F] in
theorem Truthful.quiet {w w' : World F} (h : Truthful w) (hquiet : Quiet w w') : Truthful w' := by
  refine ⟨(hquiet.trail.map Prod.fst).nodup_iff.2 h.once, fun id e => ?_⟩
  rw [hquiet.trail.mem_iff, h.named]
  rcases hquiet.states id with hsame | ⟨hnone, hnew⟩
  · rw [hsame]
  · rw [hnone, hnew]
    refine ⟨nofun, fun hpending => ?_⟩
    exact absurd (Option.some.inj hpending).symm e.state_ne_pending

omit [PyFloat F] in
theorem Truthful.ends {w w' : World F} {id : Str} {e : Terminal} (h : Truthful w)
    (hends : Ends w w' id e) : Truthful w' := by
  have hnew : ∀ e', (id, e') ∉ w.trail := by
    intro e' hmem
    have hstate := (h.named id e').1 hmem
    rw [hends.pending] at hstate
    exact e'.state_ne_pending (Option.some.inj hstate).symm
  constructor
  · refine (hends.trail.map Prod.fst).nodup_iff.2 ?_
    rw [List.map_cons, List.nodup_cons]
    refine ⟨fun hmem => ?_, h.once⟩
    obtain ⟨⟨id', e'⟩, hmem', heq⟩ := List.mem_map.1 hmem
    obtain rfl : id' = id := heq
    exact hnew e' hmem'
  · intro id' e'
    rw [hends.trail.mem_iff, List.mem_cons, hends.states, h.named]
    by_cases hid : id' = id
    · subst hid
      rw [if_pos rfl, hends.pending, Prod.mk.injEq, Option.some.injEq, Option.some.injEq]
      constructor
      · rintro (⟨-, rfl⟩ | hpending)
        · rfl
        · exact absurd hpending.symm e'.state_ne_pending
      · intro hstate
        exact .inl ⟨rfl, (Terminal.state_injective hstate).symm⟩
    · rw [if_neg hid, Prod.mk.injEq]
      exact or_iff_right fun heq => hid heq.1

theorem Run.truthful {w : World F} (h : Run C V Orderly w) : Truthful w := by
  induction h with
  | start => exact ⟨List.nodup_nil, fun id e => ⟨nofun, nofun⟩⟩
  | step before admitted step ih =>
    rcases step.trail admitted with hquiet | ⟨id, e, hends⟩
    · exact ih.quiet hquiet
    · exact ih.ends hends

/-- Where every `cancel` finds its request pending, a request gets at most one event, the event names
the state that the row has moved to, and a row that has moved has its event, or the `consume` that
moved it is about to emit it. -/
theorem trail_truthful (C : Crypto) (V : Verifier) (w : World F) (h : Run C V Orderly w) :
    (w.events.map Prod.fst).Nodup ∧
      (∀ id e, (id, e) ∈ w.events → w.db.state id = some e.state) ∧
      ∀ id e, w.db.state id = some e.state →
        (id, e) ∈ w.events ∨ ∃ c ∈ w.unreported, c.id = id ∧ c.terminal = e := by
  have htruthful := h.truthful
  have honce := htruthful.once
  rw [World.trail, List.map_append] at honce
  refine ⟨honce.of_append_right, fun id e hmem => ?_, fun id e hstate => ?_⟩
  · exact (htruthful.named id e).1 (List.mem_append_right _ hmem)
  · rcases List.mem_append.1 ((htruthful.named id e).2 hstate) with hmem | hmem
    · obtain ⟨c, hc, heq⟩ := List.mem_map.1 hmem
      exact .inr ⟨c, hc, (Prod.mk.inj heq).1, (Prod.mk.inj heq).2⟩
    · exact .inl hmem

/-- A second request at the desk. -/
def deskAgain (w : World Literal) : World Literal :=
  { w with db := (deskGate.request (F := Literal) .standard ((deskCall.binding deskGate).toOption.getD []) 60 "other".toList
      (.ok ()) w.db).2 }

/-- A request that is made, approved and used, and another that is made and cancelled. -/
theorem desk_truthful : ∃ w : World Literal, Run .standard deskVerifier Orderly w ∧
    w.events = [(deskProof.requestId, .consumed), ("other".toList, .cancelled)] ∧
      (w.events.map Prod.fst).Nodup ∧ w.db.state "other".toList = some .cancelled := by
  have hany : (World.use .standard deskVerifier deskGate deskCall deskProof 50 60).any (fun w =>
      w.events = [(deskProof.requestId, .consumed)] ∧ (deskAgain w).db.state "other".toList = some .pending) =
        true := by
    decide +kernel
  obtain ⟨w, hw, hfacts⟩ := (Option.any_eq_true _ _).1 hany
  obtain ⟨hevents, hpending⟩ := of_decide_eq_true hfacts
  have hrun : Run .standard deskVerifier Orderly w :=
    run_of_use hw fun _ _ haudited hcancel => ⟨haudited, fun id audit heq => absurd heq (hcancel id audit)⟩
  have hasked : Run .standard deskVerifier Orderly (deskAgain w) :=
    hrun.step ⟨by exact rfl, fun _ _ heq => (by cases heq)⟩ (.request deskGate _ 60 "other".toList (.ok ()))
  have hcancelled := hasked.step ⟨by exact rfl, fun _ _ heq => (by cases heq; exact hpending)⟩
    (.cancel "other".toList (.ok ()))
  refine ⟨_, hcancelled, ?_, (trail_truthful .standard deskVerifier _ hcancelled).1, ?_⟩
  · simp only [deskAgain, hevents]
    rfl
  · obtain ⟨r, hr, hstate⟩ := Option.map_eq_some_iff.1 hpending
    simp only [cancel_apply]
    rw [state_update, if_pos rfl, hr, Option.map_some, if_pos hstate]

/-- A request is consumed, and then cancelled: the table says consumed, and the trail says that it
was consumed and that it was cancelled. -/
theorem cancel_after_consume : ∃ w : World Literal,
    Run .standard deskVerifier (fun _ l => l.Audited) w ∧ w.unreported = [] ∧
      w.events = [(deskProof.requestId, .consumed), (deskProof.requestId, .cancelled)] ∧
      w.db.state deskProof.requestId = some .consumed ∧ ¬ (w.events.map Prod.fst).Nodup := by
  obtain ⟨w, hw, hunreported, hevents, hstate⟩ := desk_uses
  have hrun : Run .standard deskVerifier (fun _ l => l.Audited) w :=
    run_of_use hw fun _ _ haudited _ => haudited
  refine ⟨_, hrun.step (by exact rfl) (.cancel deskProof.requestId (.ok ())),
    List.isEmpty_iff.1 hunreported, ?_, ?_, ?_⟩
  · simp only [hevents]
    rfl
  · obtain ⟨r, hr, hconsumed⟩ := Option.map_eq_some_iff.1 hstate
    simp only [cancel_apply]
    rw [state_update, if_pos rfl, hr, Option.map_some, if_neg (by rw [hconsumed]; decide), hconsumed]
  · simp only [hevents]
    decide

end Bulldog.Approval
