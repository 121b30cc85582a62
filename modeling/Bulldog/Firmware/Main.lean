import Bulldog.Firmware.Clicks

/-!
# The diagnostic board

`main.c` of the firmware: the callbacks of USB and the loop, which samples the boot button for a host that has
sent a challenge, and shows in its status what the clicks decide. The arguments of the callbacks, and what the pins
and the clock say in a round of the loop, are arbitrary.
-/

namespace Bulldog.Firmware

/-! ## The status -/

/-- What `probe` finds. Nothing changes it later. -/
structure Probe where
  i2c60 : Bool
  wake : Bytes
  address : UInt8
  sda : Bool
  scl : Bool
  reads : UInt8
  wake_length : wake.length = 4

/-- The value of an `enum click_result`. -/
def ClickResult.toUInt8 : ClickResult → UInt8
  | .wait => 0
  | .no => 1
  | .yes => 2
  | .cancel => 3

/-- `status`. -/
structure Status where
  probe : Probe
  authority : UInt8
  yesPin : Bool
  noPin : Bool
  pending : Bool
  decision : ClickResult
  clicks : ℕ
  pressed : Bool
  challenge : Bytes

/-- The first bytes of `status`. -/
def diagnosticName : Bytes := encodeUtf8 "BULL-DIAG-3".toList

/-- The bytes of `status`, of which those from 27 on are zero up to the challenge. -/
def Status.encode (s : Status) : Bytes :=
  diagnosticName ++ [s.authority, s.probe.i2c60.toUInt8] ++ s.probe.wake ++
    [s.yesPin.toUInt8, s.noPin.toUInt8, s.probe.address, s.probe.sda.toUInt8, s.probe.scl.toUInt8, s.probe.reads,
      s.pending.toUInt8, s.decision.toUInt8, UInt8.ofNat s.clicks, s.pressed.toUInt8, 0, 0, 0, 0, 0] ++ s.challenge

/-- `memset(status + 23, 0, 41)`. -/
def Status.cleared (s : Status) : Status :=
  { s with pending := false, decision := .wait, clicks := 0, pressed := false, challenge := List.replicate 32 0 }

/-! ## The board -/

/-- The variables of `main.c`, of the file and of `main`. -/
structure Board where
  machine : BullMachine
  status : Status
  reply : Bool
  gesture : BootClicks
  armTest : Bool
  indicationUntil : UInt64
  nextPixel : UInt64
  nextSample : UInt64
  lastColor : UInt32
  lit : Bool

/-- The board when the loop starts. -/
def Board.start (probe : Probe) : Board where
  machine := bullClear false
  status := ⟨probe, 0, false, false, false, .wait, 0, false, List.replicate 32 0⟩
  reply := false
  gesture := clicksClear
  armTest := false
  indicationUntil := 0
  nextPixel := 0
  nextSample := 0
  lastColor := 0xffffffff
  lit := false

/-- `cancel_test()`. -/
def Board.cancelTest (b : Board) : Board :=
  { b with gesture := clicksClear, armTest := false, status := b.status.cleared, indicationUntil := 0 }

/-- `hid_report_type_t`. -/
inductive HidReportType where
  | invalid
  | input
  | output
  | feature
  deriving DecidableEq

/-- The arguments of `tud_hid_set_report_cb`, with the bytes that the buffer has. -/
structure HidReport where
  inst : UInt8
  id : UInt8
  type : HidReportType
  buffer : Bytes

/-- `buffer[0]`. -/
def HidReport.command (r : HidReport) : UInt8 := r.buffer.headD 0

/-- `case 2`, with the challenge. -/
def Board.arm (b : Board) (challenge : Bytes) : Board :=
  -- a challenge does not take the place of one that is still to be decided
  if !b.gesture.pending && !b.armTest then
    { b.cancelTest with status := { b.status.cleared with challenge }, armTest := true }
  else b

/-- `tud_hid_set_report_cb(instance, id, type, buffer, length)`. -/
def Board.setReport (b : Board) (r : HidReport) : Board :=
  if r.type ≠ .output ∨ r.buffer.length ≠ 64 ∨ r.id ≠ 0 ∨ r.inst ≠ 0 then b.cancelTest
  -- what follows the challenge, or the command, has to be zero
  else if ∃ byte ∈ r.buffer.drop (if r.command = 2 then 33 else 1), byte ≠ 0 then b.cancelTest
  else if r.command = 1 then { b with reply := true }
  else if r.command = 2 then b.arm ((r.buffer.drop 1).take 32)
  else if r.command = 3 then { b.cancelTest with reply := true }
  else b.cancelTest

/-- `tud_hid_get_report_cb(instance, id, type, buffer, length)`: the bytes that it copies. -/
def Board.getReport (b : Board) (type : HidReportType) (length : ℕ) : Bytes :=
  if type ≠ .input then [] else b.status.encode.take length

/-- `tud_umount_cb()` and `tud_suspend_cb(remote_wakeup_en)`. -/
def Board.leave (b : Board) : Board := { b.cancelTest with machine := bullClear false, reply := false }

/-- What a round of the loop meets. -/
structure Round where
  now : UInt64
  connected : Bool
  pressed : Bool
  gpio4 : Bool
  gpio5 : Bool
  ready : Bool

/-- The sample of a round. -/
def Round.sample (r : Round) : ButtonSample := ⟨r.pressed, r.connected, r.now⟩

/-- `if (!connected) cancel_test();`. -/
def Board.attend (b : Board) (r : Round) : Board := if r.connected then b else b.cancelTest

/-- `if (arm_test && connected) { ... }`. -/
def Board.begin (b : Board) (r : Round) : Board :=
  if b.armTest && r.connected then
    { b with gesture := (clicksBegin b.gesture r.pressed r.now).2, armTest := false }
  else b

/-- `if (event != CLICK_WAIT && connected) { ... }`. -/
def Board.decide (b : Board) (r : Round) (event : ClickResult) : Board :=
  if event ≠ .wait ∧ r.connected = true then
    { b with status := { b.status with decision := event }, indicationUntil := r.now + 1500 }
  else b

/-- What `clicks_tick` answers, and what is made of it. -/
def Board.tick (b : Board) (r : Round) : Board :=
  let answer := clicksTick b.gesture r.pressed r.connected r.now
  let b := Board.decide { b with gesture := answer.2 } r answer.1
  { b with
    status := { b.status with pending := b.gesture.pending, clicks := b.gesture.clicks }
    nextSample := r.now + 5 }

/-- `if (now >= next_sample) { ... }`. -/
def Board.takeSample (b : Board) (r : Round) : Board :=
  if r.now ≥ b.nextSample then
    (Board.begin { b with status := { b.status with pressed := r.pressed } } r).tick r
  else b

/-- The color of the pixel, which is red for unvalidated hardware and yellow while a diagnostic is pending. -/
def Board.pixel (b : Board) (now : UInt64) : Board :=
  let lit := if now ≥ b.nextPixel then !b.lit else b.lit
  { b with
    lit
    nextPixel := if now ≥ b.nextPixel then now + 400 else b.nextPixel
    lastColor :=
      if b.gesture.pending then 0x101000
      else if now < b.indicationUntil then if b.status.decision = .yes then 0x100000 else 0x001000
      else if lit then 0x001000 else 0 }

/-- The two pins. -/
def Board.pins (b : Board) (r : Round) : Board :=
  { b with status := { b.status with yesPin := !r.gpio4, noPin := !r.gpio5 } }

/-- A round of the loop before it replies. -/
def Board.work (b : Board) (r : Round) : Board := (((b.attend r).takeSample r).pixel r.now).pins r

/-- A round of the loop, and the report that it sends. -/
def Board.round (b : Board) (r : Round) : Board × List Bytes :=
  if (b.work r).reply && r.ready then ({ b.work r with reply := false }, [(b.work r).status.encode])
  else (b.work r, [])

/-! ## What the board has seen -/

/-- A board, with the samples since the request that is pending, all the samples it has taken, the last one first,
and the time. -/
structure Watched where
  board : Board
  session : Option Samples
  taken : Samples
  time : UInt64

/-- The gesture of the board. -/
def Watched.clicks (w : Watched) : ClickWorld := ⟨w.board.gesture, w.session⟩

/-- After a callback. -/
def Watched.called (w : Watched) (b : Board) : Watched :=
  { w with board := b, session := if b.gesture.pending then w.session else none }

/-- The request that a round makes of it. -/
def Watched.begun (w : Watched) (r : Round) : ClickWorld :=
  if w.board.armTest && r.connected then w.clicks.step (.begin r.pressed r.now) else w.clicks

/-- After a round. -/
def Watched.round (w : Watched) (r : Round) : Watched where
  board := (w.board.round r).1
  session :=
    if !r.connected then none
    else if r.now ≥ w.board.nextSample then ((w.begun r).step (.tick r.sample)).session
    else w.session
  taken := if r.now ≥ w.board.nextSample then r.sample :: w.taken else w.taken
  time := r.now

variable {b : Board} {r : Round} {session : Option Samples}

theorem round_fst (b : Board) (r : Round) :
    (b.round r).1 = { b.work r with reply := (b.work r).reply && !r.ready } := by
  unfold Board.round
  rcases hreply : (b.work r).reply with _ | _
  · exact congrArg (fun reply => { b.work r with reply }) hreply
  · rcases r.ready with _ | _
    · exact congrArg (fun reply => { b.work r with reply }) hreply
    · rfl

@[simp] theorem round_machine : (b.round r).1.machine = (b.work r).machine := by rw [round_fst]

@[simp] theorem round_gesture : (b.round r).1.gesture = (b.work r).gesture := by rw [round_fst]

@[simp] theorem round_armTest : (b.round r).1.armTest = (b.work r).armTest := by rw [round_fst]

@[simp] theorem round_status : (b.round r).1.status = (b.work r).status := by rw [round_fst]

/-- The report of a round is the status after it. -/
theorem round_report {data : Bytes} (hdata : data ∈ (b.round r).2) : data = (b.round r).1.status.encode := by
  rw [round_status]
  unfold Board.round at hdata
  split_ifs at hdata
  · exact List.mem_singleton.1 hdata
  · cases hdata

theorem attend_connected (hconnected : r.connected = true) : b.attend r = b := if_pos hconnected

/-- A round without a connection. -/
theorem work_disconnected (hconnected : r.connected = false) :
    (b.work r).machine = b.machine ∧ (b.work r).gesture = clicksClear ∧ (b.work r).armTest = false ∧
      ∃ yesPin noPin pressed,
        (b.work r).status = { b.status.cleared with yesPin, noPin, pressed } := by
  have hattend : b.attend r = b.cancelTest := if_neg (by rw [hconnected]; exact Bool.false_ne_true)
  unfold Board.work
  rw [hattend]
  unfold Board.takeSample
  split_ifs with hdue
  · have htick : clicksTick clicksClear r.pressed r.connected r.now = (.cancel, clicksClear) := by
      rw [clicksTick, hconnected]
      rfl
    have hdecide (b : Board) : b.decide r .cancel = b := if_neg fun h => by
      rw [hconnected] at h
      exact Bool.false_ne_true h.2
    unfold Board.tick
    refine ⟨?_, ?_, ?_, !r.gpio4, !r.gpio5, r.pressed, ?_⟩
    all_goals
      simp only [Board.begin, Board.cancelTest, Bool.false_and, Bool.false_eq_true, if_false, htick, hdecide]
      rfl
  · exact ⟨rfl, rfl, rfl, !r.gpio4, !r.gpio5, false, rfl⟩

/-- What `clicks_tick` answers in a round. -/
def Board.answer (b : Board) (r : Round) : ClickResult × BootClicks :=
  clicksTick (b.begin r).gesture r.pressed r.connected r.now

theorem begin_connected (hconnected : r.connected = true) (status : Status) :
    Board.begin { b with status } r = { b with status, gesture := (b.begin r).gesture, armTest := false } := by
  unfold Board.begin
  rcases harm : b.armTest with _ | _
  · rw [Bool.false_and, if_neg Bool.false_ne_true, if_neg Bool.false_ne_true]
  · rw [hconnected]
    rfl

theorem decide_connected (hconnected : r.connected = true) (event : ClickResult) : b.decide r event = { b with
    status := { b.status with decision := if event = .wait then b.status.decision else event }
    indicationUntil := if event = .wait then b.indicationUntil else r.now + 1500 } := by
  unfold Board.decide
  by_cases hwait : event = .wait
  · rw [if_neg fun h => h.1 hwait, if_pos hwait, if_pos hwait]
  · rw [if_pos ⟨hwait, hconnected⟩, if_neg hwait, if_neg hwait]

/-- A round with a connection that samples the button. -/
theorem work_sampled (hconnected : r.connected = true) (hdue : r.now ≥ b.nextSample) :
    (b.work r).machine = b.machine ∧ (b.work r).gesture = (b.answer r).2 ∧ (b.work r).armTest = false ∧
      ∃ yesPin noPin, (b.work r).status = { b.status with
        yesPin, noPin
        pressed := r.pressed
        pending := (b.answer r).2.pending
        decision := if (b.answer r).1 = .wait then b.status.decision else (b.answer r).1
        clicks := (b.answer r).2.clicks } := by
  unfold Board.work
  rw [attend_connected hconnected]
  unfold Board.takeSample
  rw [if_pos hdue]
  rw [begin_connected hconnected]
  simp only [Board.tick, decide_connected hconnected]
  exact ⟨rfl, rfl, rfl, !r.gpio4, !r.gpio5, rfl⟩

/-- A round with a connection that does not. -/
theorem work_waiting (hconnected : r.connected = true) (hdue : ¬ r.now ≥ b.nextSample) :
    (b.work r).machine = b.machine ∧ (b.work r).gesture = b.gesture ∧ (b.work r).armTest = b.armTest ∧
      ∃ yesPin noPin, (b.work r).status = { b.status with yesPin, noPin } := by
  unfold Board.work
  rw [attend_connected hconnected]
  unfold Board.takeSample
  rw [if_neg hdue]
  exact ⟨rfl, rfl, rfl, !r.gpio4, !r.gpio5, rfl⟩

variable {w : Watched}

theorem begun_machine (w : Watched) (r : Round) : (w.begun r).machine = (w.board.begin r).gesture := by
  unfold Watched.begun Board.begin
  split_ifs <;> rfl

/-- A round that samples the button is a tick of the clicks. -/
theorem clicks_round (hconnected : r.connected = true) (hdue : r.now ≥ w.board.nextSample) :
    (w.round r).clicks = (w.begun r).step (.tick r.sample) := by
  have hmachine : (w.board.round r).1.gesture = ((w.begun r).step (.tick r.sample)).machine := by
    rw [round_gesture, (work_sampled hconnected hdue).2.1, Board.answer, ← begun_machine]
    rfl
  unfold Watched.clicks Watched.round
  simp only [hconnected, Bool.not_true, Bool.false_eq_true, if_false, if_pos hdue, hmachine]

/-- What it answers. -/
theorem answer_eq (w : Watched) (r : Round) : (w.board.answer r).1 = (w.begun r).result r.sample := by
  rw [Board.answer, ← begun_machine]
  rfl

/-! ## The invariant -/

/-- The samples since a request, of which it takes the first before the first tick does. -/
def requested (block : Samples) : Samples := block ++ block.getLast?.toList

/-- What a decision says of the samples. -/
structure Gesture (d : ClickResult) (h : Samples) : Prop where
  yes : d = .yes → Clicked 2 h ∧ heldFor 600 h = true ∧ ∀ s ∈ h.head?, s.pressed = false
  no : d = .no → Clicked 3 h

/-- A decision is that of samples in a row, none of which is among the first `n` that were taken. -/
def Shown (d : ClickResult) (n : ℕ) (taken : Samples) : Prop :=
  ∃ later block earlier, taken = later ++ (block ++ earlier) ∧ n ≤ earlier.length ∧ Gesture d (requested block)

theorem Shown.cons {d : ClickResult} {n : ℕ} {taken : Samples} (h : Shown d n taken) (s : ButtonSample) :
    Shown d n (s :: taken) := by
  obtain ⟨later, block, earlier, rfl, hn, hgesture⟩ := h
  exact ⟨s :: later, block, earlier, rfl, hn, hgesture⟩

/-- The samples of a request are the last ones, and none of them is among the first `n`. -/
def Follows (h : Samples) (n : ℕ) (taken : Samples) : Prop :=
  ∃ block earlier, block ≠ [] ∧ taken = block ++ earlier ∧ n ≤ earlier.length ∧ h = requested block

/-- What holds between the steps, where `sent` says how many samples had been taken when a challenge was sent. -/
structure BoardInv (sent : Bytes → ℕ) (w : Watched) : Prop where
  machine : w.board.machine = bullClear false
  authority : w.board.status.authority = 0
  challenge : w.board.status.challenge.length = 32
  bounded : ∀ c, sent c ≤ w.taken.length
  clicks : ∃ seen, ClickInv seen w.clicks ∧ ∀ t ∈ seen, t ≤ w.time
  pending : w.board.status.pending = w.board.gesture.pending
  count : w.board.status.clicks = w.board.gesture.clicks
  armed : w.board.armTest = true → w.board.gesture = clicksClear ∧ w.board.status.decision = .wait
  session : ∀ h ∈ w.session, w.board.status.decision = .wait ∧ Follows h (sent w.board.status.challenge) w.taken
  decided : w.board.status.decision ≠ .wait →
    Shown w.board.status.decision (sent w.board.status.challenge) w.taken

variable {sent : Bytes → ℕ}

/-- A request without samples is not pending. -/
theorem pending_of_session {seen : List UInt64} {c : ClickWorld} (hi : ClickInv seen c) :
    c.machine.pending = true ↔ c.session.isSome = true := by
  rcases hsession : c.session with _ | h
  · rw [hi.idle hsession]
    exact ⟨fun h => (by cases h), fun h => (by cases h)⟩
  · obtain ⟨s, past, -, htracks, -⟩ := hi.session h hsession
    exact ⟨fun _ => rfl, fun _ => htracks.pending⟩

/-- A sample of a request that is pending, or has just been made. -/
theorem tick_follows {seen seen' : List UInt64} {c : ClickWorld} {s : ButtonSample} {n : ℕ} {taken : Samples}
    (hi : ClickInv seen c) (hmem : s.now ∈ seen') (htime : ∀ t ∈ seen, t ≤ s.now) (hn : n ≤ taken.length)
    (hsession : ∀ h ∈ c.session, Follows (s :: h) n (s :: taken)) :
    (∀ h ∈ (c.step (.tick s)).session, c.result s = .wait ∧ Follows h n (s :: taken)) ∧
      Shown (c.result s) n (s :: taken) := by
  obtain ⟨-, -, hyes, hno⟩ := hi.tick hmem htime
  refine ⟨fun h hh => ?_, ?_⟩
  · rw [step_tick] at hh
    by_cases hwait : c.result s = .wait
    · rw [if_pos hwait] at hh
      obtain ⟨past, hpast, rfl⟩ := Option.map_eq_some_iff.1 hh
      exact ⟨hwait, hsession past hpast⟩
    · rw [if_neg hwait] at hh
      cases hh
  · -- a decision by clicks is that of a session, and a session is the samples of its request
    by_cases hclicked : c.result s = .yes ∨ c.result s = .no
    · obtain ⟨h, hh⟩ : ∃ h, c.session = some h := by
        rcases hclicked with hyes' | hno'
        · obtain ⟨h, hh, -⟩ := hyes hyes'
          exact ⟨h, hh⟩
        · obtain ⟨h, hh, -⟩ := hno hno'
          exact ⟨h, hh⟩
      obtain ⟨block, earlier, -, htaken, hlength, hblock⟩ := hsession h hh
      refine ⟨[], block, earlier, htaken, hlength, ⟨fun hyes' => ?_, fun hno' => ?_⟩⟩
      · obtain ⟨h', hh', hclicked, hheld, hreleased⟩ := hyes hyes'
        obtain rfl := Option.some.inj (hh.symm.trans hh')
        rw [← hblock]
        refine ⟨hclicked, hheld, ?_⟩
        rintro _ ⟨⟩
        exact hreleased
      · obtain ⟨h', hh', hclicked⟩ := hno hno'
        obtain rfl := Option.some.inj (hh.symm.trans hh')
        rw [← hblock]
        exact hclicked
    · -- a cancellation says nothing of the samples
      rw [not_or] at hclicked
      exact ⟨[], [], s :: taken, rfl, Nat.le_succ_of_le hn, fun h => absurd h hclicked.1,
        fun h => absurd h hclicked.2⟩

/-- What a report changes: the reply, or everything. -/
theorem setReport_cases (b : Board) (report : HidReport) :
    (∃ reply, b.setReport report = { b with reply }) ∨
      ∃ challenge armTest reply, challenge.length = 32 ∧ b.setReport report =
        { b.cancelTest with status := { b.status.cleared with challenge }, armTest, reply } := by
  have hcancel (reply : Bool) : ∃ challenge armTest reply', challenge.length = 32 ∧ { b.cancelTest with reply } =
      { b.cancelTest with status := { b.status.cleared with challenge }, armTest, reply := reply' } :=
    ⟨List.replicate 32 0, false, reply, List.length_replicate, rfl⟩
  unfold Board.setReport
  by_cases hshape : report.type ≠ .output ∨ report.buffer.length ≠ 64 ∨ report.id ≠ 0 ∨ report.inst ≠ 0
  · rw [if_pos hshape]
    exact .inr (hcancel b.reply)
  rw [if_neg hshape]
  by_cases hpad : ∃ byte ∈ report.buffer.drop (if report.command = 2 then 33 else 1), byte ≠ 0
  · rw [if_pos hpad]
    exact .inr (hcancel b.reply)
  rw [if_neg hpad]
  split_ifs with hstatus harm hcancel'
  · exact .inl ⟨true, rfl⟩
  · unfold Board.arm
    split_ifs with hfree
    · refine .inr ⟨_, true, b.reply, ?_, rfl⟩
      rw [not_or, not_not, not_or, not_not] at hshape
      rw [List.length_take, List.length_drop, hshape.2.1]
      decide
    · exact .inl ⟨b.reply, rfl⟩
  · exact .inr (hcancel true)
  · exact .inr (hcancel b.reply)

/-- A board on which no request is pending. -/
theorem BoardInv.idle {b : Board} {taken : Samples} {time : UInt64} (hsent : ∀ c, sent c ≤ taken.length)
    (hmachine : b.machine = bullClear false) (hgesture : b.gesture = clicksClear) (hauthority : b.status.authority = 0)
    (hpending : b.status.pending = false) (hdecision : b.status.decision = .wait) (hclicks : b.status.clicks = 0)
    (hchallenge : b.status.challenge.length = 32) : BoardInv sent ⟨b, none, taken, time⟩ where
  machine := hmachine
  authority := hauthority
  challenge := hchallenge
  bounded := hsent
  clicks := by
    refine ⟨[], ?_, fun t ht => (by cases ht)⟩
    rw [Watched.clicks, hgesture]
    exact .cleared
  pending := by rw [hpending, hgesture]; rfl
  count := by rw [hclicks, hgesture]; rfl
  armed _ := ⟨hgesture, hdecision⟩
  session h hh := by cases hh
  decided hd := absurd hdecision hd

/-- The session is that of a pending request. -/
theorem BoardInv.session_eq (hi : BoardInv sent w) :
    (if w.board.gesture.pending then w.session else none) = w.session := by
  obtain ⟨seen, hclicks, -⟩ := hi.clicks
  have hiff := pending_of_session hclicks
  split_ifs with hpending
  · rfl
  · rw [Watched.clicks] at hiff
    exact (Option.not_isSome_iff_eq_none.1 fun h => hpending (hiff.2 h)).symm

/-- A report keeps the invariant. -/
theorem BoardInv.setReport (hi : BoardInv sent w) (report : HidReport) :
    BoardInv sent (w.called (w.board.setReport report)) := by
  unfold Watched.called
  rcases setReport_cases w.board report with ⟨reply, hreply⟩ | ⟨challenge, armTest, reply, hlength, hcancel⟩
  · rw [hreply, hi.session_eq]
    exact ⟨hi.machine, hi.authority, hi.challenge, hi.bounded, hi.clicks, hi.pending, hi.count, hi.armed, hi.session,
      hi.decided⟩
  · rw [hcancel]
    exact .idle hi.bounded hi.machine rfl hi.authority rfl rfl rfl hlength

theorem BoardInv.leave (hi : BoardInv sent w) : BoardInv sent (w.called w.board.leave) :=
  .idle hi.bounded rfl rfl hi.authority rfl rfl rfl List.length_replicate

/-- A board that starts anew. -/
theorem BoardInv.start (hsent : ∀ c, sent c ≤ w.taken.length) (probe : Probe) :
    BoardInv sent ⟨Board.start probe, none, w.taken, 0⟩ :=
  .idle hsent rfl rfl rfl rfl rfl rfl List.length_replicate

/-- The samples of a request that is pending, with the next one. -/
theorem Follows.cons {h : Samples} {n : ℕ} {taken : Samples} (hf : Follows h n taken) (s : ButtonSample) :
    Follows (s :: h) n (s :: taken) := by
  obtain ⟨block, earlier, hne, rfl, hn, rfl⟩ := hf
  refine ⟨s :: block, earlier, List.cons_ne_nil _ _, rfl, hn, ?_⟩
  obtain ⟨first, rest, rfl⟩ := List.exists_cons_of_ne_nil hne
  rw [requested, requested, List.getLast?_cons_cons]
  rfl

/-- The request before the tick of a round. -/
theorem BoardInv.begun (hi : BoardInv sent w) (hconnected : r.connected = true) (htime : w.time ≤ r.now) :
    (∃ seen, ClickInv seen (w.begun r) ∧ ∀ t ∈ seen, t ≤ r.now) ∧
      ∀ h ∈ (w.begun r).session, w.board.status.decision = .wait ∧
        Follows (r.sample :: h) (sent w.board.status.challenge) (r.sample :: w.taken) := by
  obtain ⟨seen, hclicks, hseen⟩ := hi.clicks
  have hbefore : ∀ t ∈ seen, t ≤ r.now := fun t ht => UInt64.le_trans (hseen t ht) htime
  unfold Watched.begun
  split_ifs with harm
  · rw [hconnected, Bool.and_true] at harm
    obtain ⟨hgesture, hwait⟩ := hi.armed harm
    refine ⟨⟨r.now :: seen, hclicks.begin r.pressed r.now (List.subset_cons_self _ _) (List.mem_cons_self ..), ?_⟩,
      fun h hh => ⟨hwait, ?_⟩⟩
    · intro t ht
      rcases List.mem_cons.1 ht with rfl | ht
      · exact UInt64.le_refl _
      · exact hbefore t ht
    · -- the request takes the first sample
      have hnone : w.clicks.session = none := by
        rw [← Option.not_isSome_iff_eq_none, ← pending_of_session hclicks, Watched.clicks, hgesture]
        exact Bool.false_ne_true
      rw [step_begin, hnone] at hh
      split_ifs at hh
      · obtain rfl := Option.some.inj hh
        refine ⟨[r.sample], w.taken, List.cons_ne_nil _ _, rfl, hi.bounded _, ?_⟩
        rw [Round.sample, hconnected]
        rfl
      · cases hh
  · refine ⟨⟨seen, hclicks, hbefore⟩, fun h hh => ?_⟩
    obtain ⟨hwait, hfollows⟩ := hi.session h hh
    exact ⟨hwait, hfollows.cons _⟩

theorem BoardInv.bounded_round (hi : BoardInv sent w) (r : Round) (c : Bytes) : sent c ≤ (w.round r).taken.length := by
  have hbounded := hi.bounded c
  unfold Watched.round
  split_ifs <;> simp only [List.length_cons] <;> omega

/-- A round without a connection. -/
theorem BoardInv.round_disconnected (hi : BoardInv sent w) (hconnected : r.connected = false) :
    BoardInv sent (w.round r) := by
  obtain ⟨hmachine, hgesture, -, yesPin, noPin, pressed, hstatus⟩ := work_disconnected (b := w.board) hconnected
  have hround : w.round r = ⟨(w.board.round r).1, none, (w.round r).taken, r.now⟩ := by
    unfold Watched.round
    rw [hconnected]
    rfl
  rw [hround]
  refine .idle (hi.bounded_round r) (round_machine.trans (hmachine.trans hi.machine)) (round_gesture.trans hgesture)
    ?_ ?_ ?_ ?_ ?_
  all_goals rw [round_status, hstatus]
  · exact hi.authority
  all_goals rfl

/-- A round that only shows the pins. -/
theorem BoardInv.round_waiting (hi : BoardInv sent w) (hconnected : r.connected = true) (htime : w.time ≤ r.now)
    (hdue : ¬ r.now ≥ w.board.nextSample) : BoardInv sent (w.round r) := by
  obtain ⟨hmachine, hgesture, harm, yesPin, noPin, hstatus⟩ := work_waiting hconnected hdue
  have hround : w.round r = ⟨(w.board.round r).1, w.session, w.taken, r.now⟩ := by
    unfold Watched.round
    rw [hconnected, if_neg hdue, if_neg hdue]
    rfl
  obtain ⟨seen, hclicks, hseen⟩ := hi.clicks
  rw [hround]
  refine ⟨?_, ?_, ?_, hi.bounded, ⟨seen, ?_, fun t ht => UInt64.le_trans (hseen t ht) htime⟩, ?_, ?_, ?_, ?_, ?_⟩
  · rw [round_machine, hmachine, hi.machine]
  · rw [round_status, hstatus]
    exact hi.authority
  · rw [round_status, hstatus]
    exact hi.challenge
  · rw [Watched.clicks, round_gesture, hgesture]
    exact hclicks
  · rw [round_status, round_gesture, hstatus, hgesture]
    exact hi.pending
  · rw [round_status, round_gesture, hstatus, hgesture]
    exact hi.count
  · rw [round_status, round_gesture, round_armTest, hstatus, hgesture, harm]
    exact hi.armed
  · rw [round_status, hstatus]
    exact hi.session
  · rw [round_status, hstatus]
    exact hi.decided

/-- A round that samples the button. -/
theorem BoardInv.round_sampled (hi : BoardInv sent w) (hconnected : r.connected = true) (htime : w.time ≤ r.now)
    (hdue : r.now ≥ w.board.nextSample) : BoardInv sent (w.round r) := by
  obtain ⟨hmachine, hgesture, harm, yesPin, noPin, hstatus⟩ := work_sampled hconnected hdue
  obtain ⟨⟨seen, hclicks, hseen⟩, hsession⟩ := hi.begun hconnected htime
  obtain ⟨hkept, hshown⟩ := tick_follows hclicks (List.mem_singleton_self r.sample.now) hseen
    (hi.bounded w.board.status.challenge) fun h hh => (hsession h hh).2
  have hticked := clicks_round hconnected hdue
  have htaken : (w.round r).taken = r.sample :: w.taken := if_pos hdue
  have hnow : (w.round r).board.status = (w.board.work r).status := round_status
  have hchallenge : (w.round r).board.status.challenge = w.board.status.challenge := by rw [hnow, hstatus]
  have hdecision : (w.round r).board.status.decision =
      if (w.board.answer r).1 = .wait then w.board.status.decision else (w.board.answer r).1 := by rw [hnow, hstatus]
  rw [← answer_eq] at hkept hshown
  refine ⟨?_, ?_, ?_, hi.bounded_round r, ⟨[r.sample.now], ?_, ?_⟩, ?_, ?_, ?_, ?_, ?_⟩
  · rw [Watched.round, round_machine, hmachine, hi.machine]
  · rw [hnow, hstatus]
    exact hi.authority
  · rw [hchallenge]
    exact hi.challenge
  · rw [hticked]
    exact (hclicks.tick (List.mem_singleton_self _) hseen).1
  · intro t ht
    rw [List.mem_singleton.1 ht]
    exact UInt64.le_refl _
  · rw [Watched.round, round_status, round_gesture, hstatus, hgesture]
  · rw [Watched.round, round_status, round_gesture, hstatus, hgesture]
  · rw [Watched.round, round_armTest, harm]
    exact fun h => absurd h Bool.false_ne_true
  · intro h hh
    have hh' : h ∈ ((w.begun r).step (.tick r.sample)).session := by
      rw [← hticked]
      exact hh
    obtain ⟨hwait, hfollows⟩ := hkept h hh'
    -- a session after the tick is one from before it, and then there is no decision yet
    have hopen : w.board.status.decision = .wait := by
      rw [step_tick] at hh'
      split_ifs at hh'
      · obtain ⟨past, hpast, -⟩ := Option.map_eq_some_iff.1 hh'
        exact (hsession past hpast).1
      · cases hh'
    rw [hdecision, hchallenge, htaken, if_pos hwait]
    exact ⟨hopen, hfollows⟩
  · rw [hdecision, hchallenge, htaken]
    split_ifs with hwait
    · exact fun hd => (hi.decided hd).cons _
    · exact fun _ => hshown

/-- A round keeps the invariant. -/
theorem BoardInv.round (hi : BoardInv sent w) (r : Round) (htime : w.time ≤ r.now) : BoardInv sent (w.round r) := by
  rcases hconnected : r.connected with _ | _
  · exact hi.round_disconnected hconnected
  · by_cases hdue : r.now ≥ w.board.nextSample
    · exact hi.round_sampled hconnected htime hdue
    · exact hi.round_waiting hconnected htime hdue

end Bulldog.Firmware
