import Bulldog.Lib.Simulation

/-!
# The TLA+ module of a session's audit

`BullSessionAudit.tla`, action for action: a record is appended, delivered to the collector, acknowledged, and
only then is its work executed. Every action sets each of the seven variables or lists it under `UNCHANGED`, so
that a state is a record here and an action a change of some of its fields.
-/

namespace Bulldog.SessionAudit

/-- The values of `session`. -/
inductive Session where
  | new
  | opened
  | closed
  deriving DecidableEq

/-- The values of `phase`. -/
inductive Phase where
  | idle
  | pending
  | delivered
  | ready
  | stopped
  deriving DecidableEq

/-- `vars`. -/
structure State where
  session : Session
  phase : Phase
  localHead : ℕ
  remoteHead : ℕ
  ackHead : ℕ
  executed : ℕ
  conflict : Bool

/-- `Init`. -/
def initial : State := ⟨.new, .idle, 0, 0, 0, 0, false⟩

/-- `Next`, for this `MaxCheckpoints`. -/
inductive Next (maxCheckpoints : ℕ) (s : State) : State → Prop
  /-- `Open`. -/
  | openSession (session : s.session = .new) : Next maxCheckpoints s { s with session := .opened }
  /-- `Append`. -/
  | append (session : s.session = .opened) (phase : s.phase = .idle)
      (room : s.localHead < maxCheckpoints) :
      Next maxCheckpoints s { s with localHead := s.localHead + 1, phase := .pending }
  /-- `Deliver`. -/
  | deliver (session : s.session = .opened) (phase : s.phase = .pending) (conflict : s.conflict = false)
      (head : s.localHead = s.remoteHead + 1) :
      Next maxCheckpoints s { s with remoteHead := s.localHead, phase := .delivered }
  /-- `Retry`. -/
  | retry (session : s.session = .opened) (phase : s.phase = .pending) (conflict : s.conflict = false)
      (head : s.localHead = s.remoteHead) : Next maxCheckpoints s { s with phase := .delivered }
  /-- `LoseAck`. -/
  | loseAck (session : s.session = .opened) (phase : s.phase = .delivered) :
      Next maxCheckpoints s { s with phase := .pending }
  /-- `Acknowledge`. -/
  | acknowledge (session : s.session = .opened) (phase : s.phase = .delivered)
      (conflict : s.conflict = false) :
      Next maxCheckpoints s { s with ackHead := s.remoteHead, phase := .ready }
  /-- `Execute`. -/
  | execute (session : s.session = .opened) (phase : s.phase = .ready) (conflict : s.conflict = false)
      (acked : s.ackHead = s.localHead) (durable : s.remoteHead = s.localHead)
      (fresh : s.executed < s.localHead) :
      Next maxCheckpoints s { s with executed := s.localHead, phase := .idle }
  /-- `Unavailable`. -/
  | unavailable (session : s.session = .opened) (phase : s.phase = .pending ∨ s.phase = .delivered) :
      Next maxCheckpoints s { s with phase := .stopped }
  /-- `ConflictingHistory`. -/
  | conflictingHistory (session : s.session = .opened) (phase : s.phase = .pending) :
      Next maxCheckpoints s { s with conflict := true, phase := .stopped }
  /-- `Recover`. -/
  | recover (session : s.session = .opened) (phase : s.phase = .stopped) (conflict : s.conflict = false) :
      Next maxCheckpoints s { s with phase := .pending }
  /-- `Close`. -/
  | close (session : s.session = .opened) : Next maxCheckpoints s { s with session := .closed }

/-- `Spec`. -/
def spec (maxCheckpoints : ℕ) : System State := ⟨(· = initial), Next maxCheckpoints⟩

/-! ## What the module asserts -/

/-- The heads of `TypeOK`, whose other parts the types say. -/
def TypeOK (maxCheckpoints : ℕ) (s : State) : Prop :=
  s.localHead ≤ maxCheckpoints ∧ s.remoteHead ≤ maxCheckpoints ∧ s.ackHead ≤ maxCheckpoints ∧
    s.executed ≤ maxCheckpoints

/-- `DurableBeforeAcknowledged`. -/
def DurableBeforeAcknowledged (s : State) : Prop := s.ackHead ≤ s.remoteHead

/-- `AcknowledgedBeforeExecuted`. -/
def AcknowledgedBeforeExecuted (s : State) : Prop := s.executed ≤ s.ackHead

/-- `RemoteNeverAheadOfLocal`. -/
def RemoteNeverAheadOfLocal (s : State) : Prop := s.remoteHead ≤ s.localHead

/-- `ConflictStopsExecution`. -/
def ConflictStopsExecution (s : State) : Prop := s.conflict = true → s.phase = .stopped

/-- `SequentialHistory`. -/
def SequentialHistory (s : State) : Prop := (s.localHead : ℤ) - s.executed ≤ 1

/-- What the phases say of the heads: work is behind by the one record that is under way. -/
structure Inv (maxCheckpoints : ℕ) (s : State) : Prop where
  executed_le : s.executed ≤ s.ackHead
  ackHead_le : s.ackHead ≤ s.remoteHead
  remoteHead_le : s.remoteHead ≤ s.localHead
  localHead_le : s.localHead ≤ maxCheckpoints
  idle : s.phase = .idle → s.executed = s.localHead
  busy : s.phase ≠ .idle → s.localHead = s.executed + 1
  delivered : s.phase = .delivered → s.remoteHead = s.localHead
  ready : s.phase = .ready → s.ackHead = s.localHead
  conflict : s.conflict = true → s.phase = .stopped

variable {maxCheckpoints : ℕ} {s s' : State}

theorem inv_initial (maxCheckpoints : ℕ) : Inv maxCheckpoints initial :=
  ⟨le_rfl, le_rfl, le_rfl, Nat.zero_le _, fun _ => rfl, fun h => absurd rfl h,
    fun h => (by cases h), fun h => (by cases h), fun h => (by cases h)⟩

/-- Every action keeps the invariant. -/
theorem Inv.next (h : Inv maxCheckpoints s) (hnext : Next maxCheckpoints s s') :
    Inv maxCheckpoints s' := by
  obtain ⟨hexecuted, hack, hremote, hlocal, hidle, hbusy, hdelivered, hready, hconflict⟩ := h
  cases hnext with
  | openSession session => exact ⟨hexecuted, hack, hremote, hlocal, hidle, hbusy, hdelivered, hready, hconflict⟩
  | append session phase room =>
    have hall := hidle phase
    exact ⟨hexecuted, hack, by simp only; omega, room, by simp, fun _ => by simp only; omega, by simp, by simp,
      fun hc => absurd (hconflict hc) (by rw [phase]; decide)⟩
  | deliver session phase conflict head =>
    have hone := hbusy (by rw [phase]; decide)
    exact ⟨hexecuted, by simp only; omega, le_rfl, hlocal, by simp, fun _ => hone, fun _ => rfl, by simp,
      fun hc => by simp [conflict] at hc⟩
  | retry session phase conflict head =>
    have hone := hbusy (by rw [phase]; decide)
    exact ⟨hexecuted, hack, hremote, hlocal, by simp, fun _ => hone, fun _ => head.symm, by simp,
      fun hc => by simp [conflict] at hc⟩
  | loseAck session phase =>
    have hone := hbusy (by rw [phase]; decide)
    exact ⟨hexecuted, hack, hremote, hlocal, by simp, fun _ => hone, by simp, by simp,
      fun hc => absurd (hconflict hc) (by rw [phase]; decide)⟩
  | acknowledge session phase conflict =>
    have hone := hbusy (by rw [phase]; decide)
    have hall := hdelivered phase
    exact ⟨by simp only; omega, le_rfl, hremote, hlocal, by simp, fun _ => hone, by simp, fun _ => hall,
      fun hc => by simp [conflict] at hc⟩
  | execute session phase conflict acked durable fresh =>
    exact ⟨acked.ge, hack, hremote, hlocal, fun _ => rfl, by simp, by simp, by simp,
      fun hc => by simp [conflict] at hc⟩
  | unavailable session phase =>
    have hone := hbusy (by rcases phase with h | h <;> rw [h] <;> decide)
    exact ⟨hexecuted, hack, hremote, hlocal, by simp, fun _ => hone, by simp, by simp, fun _ => rfl⟩
  | conflictingHistory session phase =>
    have hone := hbusy (by rw [phase]; decide)
    exact ⟨hexecuted, hack, hremote, hlocal, by simp, fun _ => hone, by simp, by simp, fun _ => rfl⟩
  | recover session phase conflict =>
    have hone := hbusy (by rw [phase]; decide)
    exact ⟨hexecuted, hack, hremote, hlocal, by simp, fun _ => hone, by simp, by simp,
      fun hc => by simp [conflict] at hc⟩
  | close session => exact ⟨hexecuted, hack, hremote, hlocal, hidle, hbusy, hdelivered, hready, hconflict⟩

theorem inv_reachable (h : (spec maxCheckpoints).Reachable s) : Inv maxCheckpoints s :=
  h.invariant (fun s h => by rw [show s = initial from h]; exact inv_initial _) fun _ _ h => h.next

/-- The assertions of the module hold in every reachable state, for any `MaxCheckpoints`. -/
theorem spec_safe (h : (spec maxCheckpoints).Reachable s) : TypeOK maxCheckpoints s ∧
    DurableBeforeAcknowledged s ∧ AcknowledgedBeforeExecuted s ∧ RemoteNeverAheadOfLocal s ∧
    ConflictStopsExecution s ∧ SequentialHistory s := by
  obtain ⟨hexecuted, hack, hremote, hlocal, hidle, hbusy, -, -, hconflict⟩ := inv_reachable h
  refine ⟨⟨hlocal, by omega, by omega, by omega⟩, hack, hexecuted, hremote, hconflict, ?_⟩
  unfold SequentialHistory
  by_cases hphase : s.phase = .idle
  · rw [hidle hphase]
    omega
  · rw [hbusy hphase]
    omega

/-- A state in which a record was appended, delivered, acknowledged and executed. -/
def executedOne : State := ⟨.opened, .idle, 1, 1, 1, 1, false⟩

theorem executedOne_reachable : (spec 1).Reachable executedOne := by
  have hopen : Next 1 initial ⟨.opened, .idle, 0, 0, 0, 0, false⟩ := .openSession rfl
  have happend : Next 1 ⟨.opened, .idle, 0, 0, 0, 0, false⟩ ⟨.opened, .pending, 1, 0, 0, 0, false⟩ :=
    .append rfl rfl Nat.one_pos
  have hdeliver : Next 1 ⟨.opened, .pending, 1, 0, 0, 0, false⟩ ⟨.opened, .delivered, 1, 1, 0, 0, false⟩ :=
    .deliver rfl rfl rfl rfl
  have hack : Next 1 ⟨.opened, .delivered, 1, 1, 0, 0, false⟩ ⟨.opened, .ready, 1, 1, 1, 0, false⟩ :=
    .acknowledge rfl rfl rfl
  have hexecute : Next 1 ⟨.opened, .ready, 1, 1, 1, 0, false⟩ executedOne :=
    .execute rfl rfl rfl rfl rfl Nat.one_pos
  exact ⟨initial, rfl, System.Run.trans (.single hopen) <| System.Run.trans (.single happend) <|
    System.Run.trans (.single hdeliver) <| System.Run.trans (.single hack) (.single hexecute)⟩

theorem spec_safe_executed : TypeOK 1 executedOne ∧ DurableBeforeAcknowledged executedOne ∧
    AcknowledgedBeforeExecuted executedOne ∧ RemoteNeverAheadOfLocal executedOne ∧
    ConflictStopsExecution executedOne ∧ SequentialHistory executedOne :=
  spec_safe executedOne_reachable

end Bulldog.SessionAudit
