import Bulldog.Firmware.Main
import Bulldog.Lib.Simulation

/-!
# The diagnostic and its board

`hardware_approval/diagnostic.py` with `--test-clicks`, and the board at the other end of the cable. The host draws a
challenge, sends it, and reads the status until it has a decision for that challenge. Reports wait in two queues, of
which any can be lost; the first ones may be those of an earlier host, and other programs may send reports too.
-/

namespace Bulldog.Firmware

/-! ## Reports -/

/-- The bytes of the status, with those of the wake response. -/
theorem encode_eq (s : Status) : ∃ a b c d, s.encode = diagnosticName ++ [s.authority, s.probe.i2c60.toUInt8] ++
    [a, b, c, d] ++ [s.yesPin.toUInt8, s.noPin.toUInt8, s.probe.address, s.probe.sda.toUInt8, s.probe.scl.toUInt8,
      s.probe.reads, s.pending.toUInt8, s.decision.toUInt8, UInt8.ofNat s.clicks, s.pressed.toUInt8, 0, 0, 0, 0, 0] ++
    s.challenge := by
  obtain ⟨a, b, c, d, hwake⟩ : ∃ a b c d, s.probe.wake = [a, b, c, d] := by
    have hlength := s.probe.wake_length
    rcases hwake : s.probe.wake with _ | ⟨a, _ | ⟨b, _ | ⟨c, _ | ⟨d, _ | ⟨e, rest⟩⟩⟩⟩⟩ <;> rw [hwake] at hlength
    case cons.cons.cons.cons.nil => exact ⟨a, b, c, d, rfl⟩
    all_goals simp at hlength
  exact ⟨a, b, c, d, by rw [Status.encode, hwake]⟩

/-- Where the fields of the status are. -/
theorem encode_fields (s : Status) : s.encode.length = 32 + s.challenge.length ∧ s.encode.take 11 = diagnosticName ∧
    s.encode[11]? = some s.authority ∧ s.encode[23]? = some s.pending.toUInt8 ∧
    s.encode[24]? = some s.decision.toUInt8 ∧ s.encode[25]? = some (UInt8.ofNat s.clicks) ∧
    s.encode.drop 32 = s.challenge := by
  obtain ⟨a, b, c, d, h⟩ := encode_eq s
  rw [h]
  refine ⟨?_, rfl, rfl, rfl, rfl, rfl, rfl⟩
  rw [List.length_append]
  rfl

/-! ## The host -/

/-- The names of the revisions that `receive_status` takes. -/
def revisions : List Bytes :=
  ["BULL-DIAG-1", "BULL-DIAG-2", "BULL-DIAG-3"].map fun name => encodeUtf8 name.toList

/-- What `receive_status` makes of a report. -/
def receiveStatus (data : Bytes) : Except String Bytes :=
  if data.length ≠ 64 ∨ revisions.contains (data.take 11) = false then .error "Missing or malformed diagnostic status"
  else if data.getD 11 0 ≠ 0 then .error "Unexpected authority flag in diagnostic firmware"
  else .ok data

/-- `read_status()` once it has sent its command. -/
def readStatus (data : Option Bytes) : Except String Bytes :=
  match data with
  | none => .error "Missing diagnostic status"
  | some data => receiveStatus data

/-- Where `main` is. The last two have the message of the exception that leaves it. -/
inductive Phase where
  | draining (left : ℕ)
  | asking
  | awaiting
  | arming
  | polling (nonce : Bytes)
  | reading (nonce : Bytes)
  | cancelling (exit : Option String)
  | closed (exit : Option String)
  deriving DecidableEq

/-- The host, and the decision that it has printed for a challenge. -/
structure Host where
  phase : Phase
  printed : Option (ClickResult × Bytes)
  deriving DecidableEq

/-- `raise SystemExit(message)`, after which `finally` cancels a challenge that has been sent. -/
def Phase.fail (phase : Phase) (message : String) : Phase :=
  match phase with
  | .polling _ | .reading _ => .cancelling (some message)
  | .cancelling _ => .closed (some message)
  | .closed exit => .closed exit
  | _ => .closed (some message)

/-- What `receive_status` answers in the loop that drains the queue. -/
def drained (left : ℕ) (data : Option Bytes) : Phase :=
  match data.map receiveStatus with
  | none => .asking
  | some (.error message) => .closed (some message)
  | some (.ok _) =>
    match left with
    | 0 => .closed (some "Diagnostic receive queue did not settle")
    | left + 1 => .draining left

/-- The first status. -/
def firstStatus (data : Option Bytes) : Phase :=
  match readStatus data with
  | .error message => .closed (some message)
  | .ok data =>
    if data.take 11 ≠ diagnosticName then .closed (some "BOOT click firmware revision 3 required")
    else if data.getD 23 0 ≠ 0 then .closed (some "A diagnostic request is already pending")
    else .arming

/-- `{1: "NO", 2: "YES", 3: "CANCELLED"}`. -/
def decisionOf (byte : UInt8) : Option ClickResult :=
  if byte = 1 then some .no else if byte = 2 then some .yes else if byte = 3 then some .cancel else none

/-- A status in the loop that waits for a decision. -/
def Host.poll (h : Host) (nonce : Bytes) (data : Option Bytes) : Host :=
  match readStatus data with
  | .error message => { h with phase := .cancelling (some message) }
  | .ok data =>
    if data.drop 32 ≠ nonce then
      { h with phase := .cancelling (some "Diagnostic challenge changed or device reset; cancelled") }
    else if data.getD 24 0 = 0 then { h with phase := .polling nonce }
    else
      match decisionOf (data.getD 24 0) with
      | none => { h with phase := .cancelling (some "Invalid diagnostic result") }
      | some result => ⟨.cancelling none, some (result, nonce)⟩

/-- What `hid_read_timeout` answers, where `none` is a timeout. -/
def Host.receive (h : Host) (data : Option Bytes) : Host :=
  match h.phase with
  | .draining left => { h with phase := drained left data }
  | .awaiting => { h with phase := firstStatus data }
  | .reading nonce => h.poll nonce data
  | _ => h

/-! ## The two of them -/

/-- `send(payload)`, as the board gets it. -/
def command (payload : Bytes) : HidReport := ⟨0, 0, .output, payload⟩

/-- `b'\1' + bytes(63)` and `b'\3' + bytes(63)`. -/
def plain (byte : UInt8) : HidReport := command (byte :: List.replicate 63 0)

/-- `b'\2' + nonce + bytes(31)`. -/
def armWith (nonce : Bytes) : HidReport := command (2 :: nonce ++ List.replicate 31 0)

/-- The board and the host, the reports on their way to each, and how many samples the board had taken when a
challenge was sent. -/
structure Bench where
  watched : Watched
  out : List HidReport
  inn : List Bytes
  host : Host
  sent : Bytes → ℕ

namespace Bench

/-- The board gets a report. -/
def report (w : Bench) (report : HidReport) : Bench :=
  { w with watched := w.watched.called (w.watched.board.setReport report) }

/-- The board gets the next report of the queue. -/
def deliver (w : Bench) : Bench :=
  match w.out with
  | [] => w
  | report :: rest => { w.report report with out := rest }

/-- The board is taken off, or suspended. -/
def leave (w : Bench) : Bench := { w with watched := w.watched.called w.watched.board.leave }

/-- The board goes round its loop. -/
def round (w : Bench) (r : Round) : Bench :=
  { w with watched := w.watched.round r, inn := w.inn ++ (w.watched.board.round r).2 }

/-- The board starts anew. -/
def restart (w : Bench) (probe : Probe) : Bench :=
  { w with watched := { w.watched with board := Board.start probe, session := none, time := 0 } }

/-- The host sends what it has to send, other than a challenge. -/
def send (w : Bench) : Bench :=
  match w.host.phase with
  | .asking => { w with host := { w.host with phase := .awaiting }, out := w.out ++ [plain 1] }
  | .polling nonce => { w with host := { w.host with phase := .reading nonce }, out := w.out ++ [plain 1] }
  | .cancelling exit => { w with host := { w.host with phase := .closed exit }, out := w.out ++ [plain 3] }
  | _ => w

/-- The host sends a challenge. -/
def arm (w : Bench) (nonce : Bytes) : Bench :=
  match w.host.phase with
  | .arming => { w with
      host := { w.host with phase := .polling nonce }
      out := w.out ++ [armWith nonce]
      sent := Function.update w.sent nonce w.watched.taken.length }
  | _ => w

/-- The host reads the next report of the queue. -/
def receive (w : Bench) : Bench :=
  match w.inn with
  | [] => w
  | data :: rest => { w with host := w.host.receive (some data), inn := rest }

/-- The host has waited long enough for a report. -/
def timeout (w : Bench) : Bench := { w with host := w.host.receive none }

/-- The host fails. -/
def fail (w : Bench) (message : String) : Bench :=
  { w with host := { w.host with phase := w.host.phase.fail message } }

/-- What may happen next. -/
inductive Step (w : Bench) : Bench → Prop
  | deliver : Step w w.deliver
  /-- Another program sends a report. -/
  | report (report : HidReport) : Step w (w.report report)
  | leave : Step w w.leave
  | round (r : Round) (time : w.watched.time ≤ r.now) : Step w (w.round r)
  | restart (probe : Probe) : Step w (w.restart probe)
  /-- Reports are lost. -/
  | lose (out : List HidReport) (inn : List Bytes) (sublist : out.Sublist w.out) (sublist' : inn.Sublist w.inn) :
      Step w { w with out, inn }
  | send : Step w w.send
  /-- A challenge of `secrets.token_bytes(32)` is not one that the board or a report on its way to the host has. -/
  | arm (nonce : Bytes) (length : nonce.length = 32) (fresh : w.watched.board.status.challenge ≠ nonce)
      (fresh' : ∀ data ∈ w.inn, data.drop 32 ≠ nonce) : Step w (w.arm nonce)
  | receive : Step w w.receive
  | timeout : Step w w.timeout
  /-- A report cannot be sent, the 32 seconds are over, or the host is interrupted. -/
  | fail (message : String) : Step w (w.fail message)

end Bench

/-- A host that starts, with a board that does, and whatever is still in the queues. -/
def diagnostic : System Bench where
  init w := (∃ probe, w.watched = ⟨Board.start probe, none, [], 0⟩) ∧ w.host = ⟨.draining 7, none⟩ ∧
    w.sent = fun _ => 0
  next := Bench.Step

/-! ## What the host does -/

/-- The challenge that the host waits for a decision on. -/
def Phase.challenge : Phase → Option Bytes
  | .polling nonce | .reading nonce => some nonce
  | _ => none

/-- The host only has to cancel, if that. -/
def Phase.ended : Phase → Bool
  | .cancelling _ | .closed _ => true
  | _ => false

/-- The host prints nothing, and waits for no other challenge than before. -/
structure Keeps (h h' : Host) : Prop where
  printed : h'.printed = h.printed
  challenge : h'.phase.challenge = none ∨ h'.phase.challenge = h.phase.challenge
  ended : h.phase.ended = true → h'.phase.ended = true

variable {h : Host}

theorem Keeps.refl (h : Host) : Keeps h h := ⟨rfl, .inr rfl, fun hended => hended⟩

theorem not_ended {phase : Phase} (hphase : h.phase = phase) (hended : phase.ended = false) :
    h.phase.ended ≠ true := by
  rw [hphase, hended]
  exact Bool.false_ne_true

theorem drained_challenge (left : ℕ) (data : Option Bytes) : (drained left data).challenge = none := by
  unfold drained
  split
  · rfl
  · rfl
  · rcases left with _ | left <;> rfl

theorem firstStatus_challenge (data : Option Bytes) : (firstStatus data).challenge = none := by
  unfold firstStatus
  split
  · rfl
  · split_ifs <;> rfl

theorem decisionOf_eq_some {byte : UInt8} {d : ClickResult} (h : decisionOf byte = some d) :
    d ≠ .wait ∧ byte = d.toUInt8 := by
  unfold decisionOf at h
  split_ifs at h with hno hyes hcancel <;> obtain rfl := Option.some.inj h
  · exact ⟨by decide, hno⟩
  · exact ⟨by decide, hyes⟩
  · exact ⟨by decide, hcancel⟩

theorem readStatus_eq_ok {data : Option Bytes} {bytes : Bytes} (h : readStatus data = .ok bytes) :
    data = some bytes := by
  rcases data with _ | data
  · cases h
  · change receiveStatus data = .ok bytes at h
    unfold receiveStatus at h
    split_ifs at h
    rw [Except.ok.inj h]

/-- A decision that is printed is in a status with the challenge. -/
theorem poll_cases (h : Host) {nonce : Bytes} (hphase : h.phase = .reading nonce) (data : Option Bytes) :
    Keeps h (h.poll nonce data) ∨ ∃ bytes d, data = some bytes ∧ bytes.drop 32 = nonce ∧ d ≠ .wait ∧
      bytes.getD 24 0 = d.toUInt8 ∧ h.poll nonce data = ⟨.cancelling none, some (d, nonce)⟩ := by
  have hcancel (exit : Option String) : Keeps h { h with phase := .cancelling exit } :=
    ⟨rfl, .inl rfl, fun _ => rfl⟩
  unfold Host.poll
  rcases hread : readStatus data with message | bytes
  · exact .inl (hcancel _)
  · dsimp only
    split_ifs with hchallenge hnone
    · exact .inl (hcancel _)
    · -- no decision yet, and the host asks again with the same challenge
      refine .inl ⟨rfl, .inr ?_, fun hended => absurd hended (not_ended hphase rfl)⟩
      rw [hphase]
      rfl
    · rcases hresult : decisionOf (bytes.getD 24 0) with _ | d
      · exact .inl (hcancel _)
      · obtain ⟨hd, hbyte⟩ := decisionOf_eq_some hresult
        exact .inr ⟨bytes, d, readStatus_eq_ok hread, not_not.1 hchallenge, hd, hbyte, rfl⟩

/-- So is whatever the host prints. -/
theorem receive_cases (h : Host) (data : Option Bytes) : Keeps h (h.receive data) ∨
    ∃ bytes nonce d, h.phase = .reading nonce ∧ data = some bytes ∧ bytes.drop 32 = nonce ∧ d ≠ .wait ∧
      bytes.getD 24 0 = d.toUInt8 ∧ h.receive data = ⟨.cancelling none, some (d, nonce)⟩ := by
  unfold Host.receive
  rcases hphase : h.phase with left | _ | _ | _ | nonce | nonce | exit | exit
  case draining =>
    exact .inl ⟨rfl, .inl (drained_challenge left data), fun hended => absurd hended (not_ended hphase rfl)⟩
  case awaiting =>
    exact .inl ⟨rfl, .inl (firstStatus_challenge data), fun hended => absurd hended (not_ended hphase rfl)⟩
  case reading =>
    rcases poll_cases h hphase data with hkeeps | ⟨bytes, d, hdata, hrest⟩
    · exact .inl hkeeps
    · exact .inr ⟨bytes, nonce, d, rfl, hdata, hrest⟩
  all_goals exact .inl (.refl h)

theorem keeps_fail (h : Host) (message : String) : Keeps h { h with phase := h.phase.fail message } := by
  rcases hphase : h.phase with left | _ | _ | _ | nonce | nonce | exit | exit <;>
    exact ⟨rfl, .inl rfl, fun _ => rfl⟩

theorem send_eq (w : Bench) : w.send = { w with host := w.send.host, out := w.send.out } := by
  unfold Bench.send
  split <;> rfl

/-- What the host sends beside a challenge asks for nothing new. -/
theorem keeps_send (w : Bench) : Keeps w.host w.send.host := by
  unfold Bench.send
  rcases hphase : w.host.phase with left | _ | _ | _ | nonce | nonce | exit | exit
  case asking => exact ⟨rfl, .inl rfl, fun hended => absurd hended (not_ended hphase rfl)⟩
  case polling =>
    refine ⟨rfl, .inr ?_, fun hended => absurd hended (not_ended hphase rfl)⟩
    rw [hphase]
    rfl
  case cancelling => exact ⟨rfl, .inl rfl, fun _ => rfl⟩
  all_goals exact .refl _

/-! ## The invariant -/

/-- What holds between the steps. -/
structure BenchInv (w : Bench) : Prop where
  board : BoardInv w.sent w.watched
  asked : ∀ nonce, w.host.phase.challenge = some nonce → ∀ data ∈ w.inn, data.drop 32 = nonce →
    ∀ d, d ≠ .wait → data.getD 24 0 = d.toUInt8 → Shown d (w.sent nonce) w.watched.taken
  ended : w.host.printed ≠ none → w.host.phase.ended = true
  printed : ∀ d nonce, w.host.printed = some (d, nonce) → d ≠ .wait ∧ Shown d (w.sent nonce) w.watched.taken

variable {w : Bench}

theorem toUInt8_injective {d d' : ClickResult} (h : d.toUInt8 = d'.toUInt8) : d = d' := by
  cases d <;> cases d' <;> first
    | rfl
    | cases h

/-- A status of the board shows what it says. -/
theorem shown_of_status {sent : Bytes → ℕ} {v : Watched} (hi : BoardInv sent v) {nonce : Bytes} {d : ClickResult}
    (hd : d ≠ .wait) (hnonce : v.board.status.encode.drop 32 = nonce)
    (hbyte : v.board.status.encode.getD 24 0 = d.toUInt8) : Shown d (sent nonce) v.taken := by
  obtain ⟨-, -, -, -, hdecision, -, hchallenge⟩ := encode_fields v.board.status
  rw [List.getD_eq_getElem?_getD, hdecision, Option.getD_some] at hbyte
  obtain rfl := toUInt8_injective hbyte
  rw [← hnonce, hchallenge]
  exact hi.decided hd

/-- What the board does. -/
theorem BenchInv.of_board (hi : BenchInv w) {v : Watched} {out : List HidReport} {inn : List Bytes}
    (hboard : BoardInv w.sent v) (htaken : ∀ d n, Shown d n w.watched.taken → Shown d n v.taken)
    (hinn : ∀ data ∈ inn, data ∈ w.inn ∨ data = v.board.status.encode) :
    BenchInv { w with watched := v, out, inn } where
  board := hboard
  asked nonce hnonce data hdata hchallenge d hd hbyte := by
    rcases hinn data hdata with hold | rfl
    · exact htaken _ _ (hi.asked nonce hnonce data hold hchallenge d hd hbyte)
    · exact shown_of_status hboard hd hchallenge hbyte
  ended := hi.ended
  printed d nonce hp := ⟨(hi.printed d nonce hp).1, htaken _ _ (hi.printed d nonce hp).2⟩

/-- What the host does that keeps its challenge. -/
theorem BenchInv.of_host (hi : BenchInv w) {host : Host} {out : List HidReport} {inn : List Bytes}
    (hkeeps : Keeps w.host host) (hinn : ∀ data ∈ inn, data ∈ w.inn) : BenchInv { w with host, out, inn } where
  board := hi.board
  asked nonce hnonce data hdata := by
    rcases hkeeps.challenge with hnone | hsame
    · cases hnone.symm.trans hnonce
    · exact hi.asked nonce (hsame.symm.trans hnonce) data (hinn data hdata)
  ended hp := hkeeps.ended (hi.ended (by rwa [← hkeeps.printed]))
  printed d nonce hp := hi.printed d nonce (hkeeps.printed.symm.trans hp)

/-- A fresh challenge. -/
theorem BoardInv.update {sent : Bytes → ℕ} {v : Watched} (hi : BoardInv sent v) {nonce : Bytes}
    (hfresh : v.board.status.challenge ≠ nonce) : BoardInv (Function.update sent nonce v.taken.length) v := by
  have hsame : Function.update sent nonce v.taken.length v.board.status.challenge = sent v.board.status.challenge :=
    Function.update_of_ne hfresh _ _
  refine ⟨hi.machine, hi.authority, hi.challenge, fun c => ?_, hi.clicks, hi.pending, hi.count, hi.armed, ?_, ?_⟩
  · by_cases hc : c = nonce
    · rw [hc, Function.update_self]
    · rw [Function.update_of_ne hc]
      exact hi.bounded c
  · rw [hsame]
    exact hi.session
  · rw [hsame]
    exact hi.decided

theorem BenchInv.arm (hi : BenchInv w) {nonce : Bytes} (hfresh : w.watched.board.status.challenge ≠ nonce)
    (hfresh' : ∀ data ∈ w.inn, data.drop 32 ≠ nonce) : BenchInv (w.arm nonce) := by
  unfold Bench.arm
  split
  · rename_i hphase
    have hnone : w.host.printed = none := by
      by_contra hp
      exact not_ended hphase rfl (hi.ended hp)
    refine ⟨hi.board.update hfresh, fun nonce' hnonce' data hdata hchallenge => ?_, fun hp => absurd hnone hp,
      fun d nonce' hp => ?_⟩
    · -- no report on its way has the challenge that is drawn now
      obtain rfl := Option.some.inj hnonce'
      exact absurd hchallenge (hfresh' data hdata)
    · cases hnone.symm.trans hp
  · exact hi

/-- A status that the host reads. -/
theorem BenchInv.receive (hi : BenchInv w) : BenchInv w.receive := by
  unfold Bench.receive
  rcases hinn : w.inn with _ | ⟨data, rest⟩
  · exact hi
  have hsub : ∀ data ∈ rest, data ∈ w.inn := fun data' hdata' => by
    rw [hinn]
    exact List.mem_cons_of_mem _ hdata'
  rcases receive_cases w.host (some data) with hkeeps | ⟨bytes, nonce, d, hphase, hdata, hchallenge, hd, hbyte, hprinted⟩
  · exact hi.of_host hkeeps hsub
  · obtain rfl := Option.some.inj hdata
    have hshown := hi.asked nonce (by rw [hphase]; rfl) data (by rw [hinn]; exact List.mem_cons_self ..) hchallenge d hd
      hbyte
    dsimp only
    rw [hprinted]
    refine ⟨hi.board, fun nonce' hnonce' => (by cases hnonce'), fun _ => rfl, fun d' nonce' hp => ?_⟩
    obtain ⟨rfl, rfl⟩ := Prod.mk.inj (Option.some.inj hp)
    exact ⟨hd, hshown⟩

theorem BenchInv.timeout (hi : BenchInv w) : BenchInv w.timeout := by
  rcases receive_cases w.host none with hkeeps | ⟨bytes, nonce, d, -, hdata, -⟩
  · exact hi.of_host hkeeps fun _ hdata => hdata
  · cases hdata

theorem BenchInv.report (hi : BenchInv w) (report : HidReport) : BenchInv (w.report report) :=
  hi.of_board (hi.board.setReport report) (fun _ _ hs => hs) fun _ hdata => .inl hdata

/-- Every step keeps the invariant. -/
theorem BenchInv.next {w' : Bench} (hi : BenchInv w) (hstep : w.Step w') : BenchInv w' := by
  cases hstep with
  | deliver =>
    unfold Bench.deliver
    split
    · exact hi
    · exact hi.of_board (hi.board.setReport _) (fun _ _ hs => hs) fun _ hdata => .inl hdata
  | report report => exact hi.report report
  | leave => exact hi.of_board hi.board.leave (fun _ _ hs => hs) fun _ hdata => .inl hdata
  | round r time =>
    refine hi.of_board (hi.board.round r time) (fun d n hs => ?_) fun data hdata => ?_
    · change Shown d n (if _ then _ else _)
      split_ifs
      · exact hs.cons _
      · exact hs
    · rcases List.mem_append.1 hdata with hold | hnew
      · exact .inl hold
      · exact .inr (round_report hnew)
  | restart probe => exact hi.of_board (.start hi.board.bounded probe) (fun _ _ hs => hs) fun _ hdata => .inl hdata
  | lose out inn sublist sublist' => exact hi.of_host (.refl _) fun _ hdata => sublist'.subset hdata
  | send =>
    rw [send_eq]
    exact hi.of_host (keeps_send w) fun _ hdata => hdata
  | arm nonce length fresh fresh' => exact hi.arm fresh fresh'
  | receive => exact hi.receive
  | timeout => exact hi.timeout
  | fail message => exact hi.of_host (keeps_fail _ message) fun _ hdata => hdata

theorem BenchInv.of_init (hinit : diagnostic.init w) : BenchInv w := by
  obtain ⟨⟨probe, hwatched⟩, hhost, hsent⟩ := hinit
  have hboard : BoardInv w.sent w.watched := by
    rw [hwatched, hsent]
    exact .start (w := ⟨Board.start probe, none, [], 0⟩) (fun _ => Nat.zero_le _) probe
  refine ⟨hboard, fun nonce hnonce => ?_, fun hp => ?_, fun d nonce hp => ?_⟩
  · rw [hhost] at hnonce
    cases hnonce
  · rw [hhost] at hp
    exact absurd rfl hp
  · rw [hhost] at hp
    cases hp

theorem BenchInv.of_reachable (h : diagnostic.Reachable w) : BenchInv w :=
  h.invariant (fun _ => .of_init) fun _ _ hi => hi.next

/-- In every order of the steps of a host, a board and whoever else sends reports, the host prints a decision for its
challenge only after the board has taken, since that challenge was sent, samples in a row that show it: two clicks and
a pause for yes, and three clicks for no. -/
theorem diagnostic_decision (h : diagnostic.Reachable w) {d : ClickResult} {nonce : Bytes}
    (hprinted : w.host.printed = some (d, nonce)) :
    d ≠ .wait ∧ ∃ later block earlier, w.watched.taken = later ++ (block ++ earlier) ∧
      w.sent nonce ≤ earlier.length ∧
      (d = .yes → Clicked 2 (requested block) ∧ heldFor 600 (requested block) = true) ∧
      (d = .no → Clicked 3 (requested block)) := by
  obtain ⟨hd, later, block, earlier, htaken, hsent, hgesture⟩ := (BenchInv.of_reachable h).printed d nonce hprinted
  refine ⟨hd, later, block, earlier, htaken, hsent, fun hyes => ?_, hgesture.no⟩
  obtain ⟨hclicked, hheld, -⟩ := hgesture.yes hyes
  exact ⟨hclicked, hheld⟩

/-- Whatever reports it gets, the board never says that it approves anything: its machine for requests refuses them
all, the host takes its status and finds no authority in it, and while a request is armed or pending the status has no
decision. A decision that it has is that of samples in a row. -/
theorem diagnostic_status (h : diagnostic.Reachable w) :
    (∀ data now ttl, (bullRequest wrapping w.watched.board.machine data now ttl).1 = false) ∧
      receiveStatus (w.watched.board.getReport .input 64) = .ok w.watched.board.status.encode ∧
      w.watched.board.status.encode[23]? = some w.watched.board.gesture.pending.toUInt8 ∧
      w.watched.board.status.encode[25]? = some (UInt8.ofNat w.watched.board.gesture.clicks) ∧
      (w.watched.board.armTest = true ∨ w.watched.board.gesture.pending = true →
        w.watched.board.status.encode[24]? = some 0) ∧
      (w.watched.board.status.encode[24]? ≠ some 0 → ∃ d, w.watched.board.status.encode[24]? = some d.toUInt8 ∧
        d ≠ .wait ∧ Shown d 0 w.watched.taken) := by
  have hi := (BenchInv.of_reachable h).board
  obtain ⟨hlength, hname, hauthority, hpending, hdecision, hcount, -⟩ := encode_fields w.watched.board.status
  rw [hi.challenge] at hlength
  rw [hi.authority] at hauthority
  obtain ⟨seen, hclicks, -⟩ := hi.clicks
  refine ⟨fun data now ttl => ?_, ?_, ?_, ?_, fun hopen => ?_, fun hne => ?_⟩
  · rw [hi.machine]
    rcases data with _ | data
    · rfl
    · rw [bullRequest, if_pos (.inl (by decide))]
      rfl
  · have hall : w.watched.board.getReport .input 64 = w.watched.board.status.encode := by
      rw [Board.getReport, if_neg (by decide)]
      exact List.take_of_length_le hlength.le
    rw [hall, receiveStatus, if_neg, if_neg]
    · rw [List.getD_eq_getElem?_getD, hauthority]
      decide
    · rw [hname, hlength]
      decide
  · rw [hpending, hi.pending]
  · rw [hcount, hi.count]
  · have hwait : w.watched.board.status.decision = .wait := by
      rcases hopen with harmed | hpending
      · exact (hi.armed harmed).2
      · obtain ⟨samples, hsession⟩ := Option.isSome_iff_exists.1 ((pending_of_session hclicks).1 hpending)
        exact (hi.session samples hsession).1
    rw [hdecision, hwait]
    rfl
  · have hwait : w.watched.board.status.decision ≠ .wait := fun hwait => by
      rw [hdecision, hwait] at hne
      exact hne rfl
    obtain ⟨later, block, earlier, htaken, -, hgesture⟩ := hi.decided hwait
    exact ⟨_, hdecision, hwait, later, block, earlier, htaken, Nat.zero_le _, hgesture⟩

/-! ## A diagnostic -/

/-- What is found on a board without other parts. -/
def sampleProbe : Probe := ⟨false, [0, 0, 0, 0], 0, true, true, 0, rfl⟩

/-- A round of a board that is connected. -/
def sampleRound (pressed : Bool) (now : UInt64) : Round := ⟨now, true, pressed, true, true, true⟩

/-- The challenge of the host. -/
def sampleNonce : Bytes := List.replicate 32 7

/-- A host that starts, with empty queues. -/
def sampleBench : Bench :=
  ⟨⟨Board.start sampleProbe, none, [], 0⟩, [], [], ⟨.draining 7, none⟩, fun _ => 0⟩

/-- The rounds in which the button is clicked twice. -/
def sampleRounds : List Round :=
  ([(false, 10), (false, 40), (true, 100), (true, 130), (false, 160), (false, 190), (true, 300), (true, 330),
    (false, 360), (false, 390), (false, 960)] : List (Bool × UInt64)).map fun x => sampleRound x.1 x.2

/-- The host asks for a status and reads it. -/
def Bench.query (w : Bench) (now : UInt64) : Bench := (w.send.deliver.round (sampleRound false now)).receive

/-- The board, asked for its status before and after the clicks. -/
def sampleDiagnostic : Bench :=
  let armed := ((sampleBench.timeout.query 1).arm sampleNonce).deliver
  (sampleRounds.foldl Bench.round armed).query 970

theorem run_query (w : Bench) (now : UInt64) (htime : w.send.deliver.watched.time ≤ now) :
    diagnostic.Run w (w.query now) :=
  ((System.Run.single (Bench.Step.send : w.Step w.send)).trans (.single Bench.Step.deliver)).trans
    ((System.Run.single (Bench.Step.round (sampleRound false now) htime)).trans (.single Bench.Step.receive))

/-- Rounds in the order of their times. -/
theorem run_rounds (rs : List Round) : ∀ w : Bench, (w.watched.time :: rs.map (·.now)).IsChain (· ≤ ·) →
    diagnostic.Run w (rs.foldl Bench.round w) := by
  induction rs with
  | nil => exact fun w _ => .refl w
  | cons r rs ih =>
    intro w hchain
    rw [List.map_cons, List.isChain_cons_cons] at hchain
    exact (System.Run.single (Bench.Step.round r hchain.1)).trans (ih (w.round r) hchain.2)

theorem sampleDiagnostic_reachable : diagnostic.Reachable sampleDiagnostic := by
  refine ⟨sampleBench, ⟨⟨sampleProbe, rfl⟩, rfl, rfl⟩, ?_⟩
  have hfirst : diagnostic.Run sampleBench (sampleBench.timeout.query 1) :=
    (System.Run.single Bench.Step.timeout).trans (run_query _ 1 (by decide +kernel))
  have harm : diagnostic.Run (sampleBench.timeout.query 1) ((sampleBench.timeout.query 1).arm sampleNonce).deliver :=
    (System.Run.single (Bench.Step.arm sampleNonce rfl (by decide +kernel) (by decide +kernel))).trans
      (.single Bench.Step.deliver)
  exact hfirst.trans (harm.trans ((run_rounds sampleRounds _ (by decide +kernel)).trans
    (run_query _ 970 (by decide +kernel))))

theorem sampleDiagnostic_printed : sampleDiagnostic.host.printed = some (.yes, sampleNonce) := by decide +kernel

theorem diagnostic_decision_sample : ∃ later block earlier,
    sampleDiagnostic.watched.taken = later ++ (block ++ earlier) ∧ 1 ≤ earlier.length ∧
      Clicked 2 (requested block) ∧ heldFor 600 (requested block) = true := by
  obtain ⟨-, later, block, earlier, htaken, hsent, hyes, -⟩ :=
    diagnostic_decision sampleDiagnostic_reachable sampleDiagnostic_printed
  have hone : sampleDiagnostic.sent sampleNonce = 1 := by decide +kernel
  exact ⟨later, block, earlier, htaken, hone ▸ hsent, hyes rfl⟩

theorem diagnostic_status_sample : ∃ d, sampleDiagnostic.watched.board.status.encode[24]? = some d.toUInt8 ∧
    d ≠ .wait ∧ Shown d 0 sampleDiagnostic.watched.taken := by
  obtain ⟨-, -, -, -, -, hdecided⟩ := diagnostic_status sampleDiagnostic_reachable
  exact hdecided (by decide +kernel)

end Bulldog.Firmware
