import Bulldog.Anchor.Store
import Bulldog.Approval.Hardware

/-!
# The control channel of a session

`SessionChannel` of `microvm_protocol.py`: the ordered, authenticated messages between the host and
the guest of one session. The descriptor is in the hands of the network, so what a call meets there
is an argument of the call: one `Round` for each turn of the loop of `_transfer`. A network that
drops, delays, replays, reorders, truncates, reflects or invents bytes gives other rounds.

Beside its channel, a `Party` has the record of what it handed to the transport and of what it took
from it, which the code does not keep and no step reads.
-/

namespace Bulldog.Microvm

open Anchor Approval

variable {F : Type} [PyFloat F]

/-- `side`. -/
inductive Side where
  | host
  | guest
  deriving DecidableEq

/-- `peer`. -/
def Side.peer : Side → Side
  | .host => .guest
  | .guest => .host

/-- `"control-" + side`. -/
def Side.purpose : Side → String
  | .host => "control-host"
  | .guest => "control-guest"

/-- `SessionChannel`, less its descriptor and its timeout. -/
structure SessionChannel where
  session : Str
  key : Bytes
  side : Side
  sent : ℕ
  received : ℕ
  failed : Bool
  executed : Bool
  deriving DecidableEq

/-- `SessionChannel(fd, session, key, side=side)`. -/
def SessionChannel.create (session : Str) (key : Bytes) (side : Side) :
    Except Exc SessionChannel :=
  if !isHex64 session || key.length < 32 then
    .error (anchorError "invalid control session identity")
  else .ok ⟨session, key, side, 0, 0, false, false⟩

/-! ## Transfers -/

/-- What one turn of the loop of `_transfer` meets. -/
inductive Round (α : Type) where
  /-- The deadline passes, before `select` or in it. -/
  | deadline
  /-- `BlockingIOError`. -/
  | blocking
  /-- Another `OSError`. -/
  | fault
  /-- The system call returns. -/
  | done (result : α)
  deriving DecidableEq

/-- `_transfer(data=data)`, where `left` bytes of the data are to be written. When there are no more
rounds, nothing happens until the deadline. -/
def writeAll : List (Round ℕ) → ℕ → Except Exc Unit
  | _, 0 => .ok ()
  | [], _ + 1 | .deadline :: _, _ + 1 => .error (anchorError "control deadline exceeded")
  | .blocking :: rounds, left + 1 => writeAll rounds (left + 1)
  | .fault :: _, _ + 1 => .error (.builtin .osError)
  | .done count :: rounds, left + 1 =>
    if count = 0 then .error (anchorError "control channel disconnected")
    else writeAll rounds (left + 1 - count)

/-- `_transfer(length=length)`, where `left` bytes are to be read, with the rounds that it leaves.
`os.read` returns no more than it is asked for. -/
def readAll : List (Round Bytes) → ℕ → Bytes → Except Exc (Bytes × List (Round Bytes))
  | rounds, 0, result => .ok (result, rounds)
  | [], _ + 1, _ | .deadline :: _, _ + 1, _ => .error (anchorError "control deadline exceeded")
  | .blocking :: rounds, left + 1, result => readAll rounds (left + 1) result
  | .fault :: _, _ + 1, _ => .error (.builtin .osError)
  | .done bytes :: rounds, left + 1, result =>
    if bytes = [] then .error (anchorError "control channel disconnected")
    else readAll rounds (left + 1 - (bytes.take (left + 1)).length)
      (result ++ bytes.take (left + 1))

/-- The two transfers of `_receive`: the length of a frame and the frame. -/
def readFrame (rounds : List (Round Bytes)) : Except Exc Bytes := do
  let header ← readAll rounds 4 []
  let length := fromBytes header.1
  raiseIf (¬ (0 < length ∧ length ≤ maxFrame)) (anchorError "invalid control frame length")
  let frame ← readAll header.2 length []
  return frame.1

/-! ## Messages -/

/-- The operations that `_send` supports. -/
def kinds : List Str := ["ready".toList, "execute".toList, "result".toList, "error".toList]

/-- The fields of a message. -/
def controlFields : List Str :=
  ["version".toList, "session".toList, "sequence".toList, "kind".toList, "payload".toList,
    "mac".toList]

/-- The message that `_send` authenticates. -/
def control (session : Str) (sequence : ℕ) (kind : Str) (payload : Fields F) : Fields F :=
  [("version".toList, .int 1), ("session".toList, .str session),
    ("sequence".toList, .int sequence), ("kind".toList, .str kind),
    ("payload".toList, .obj payload)]

/-- The first half of `_send`: the payload, the message and its frame. -/
def SessionChannel.prepare (C : Crypto) (self : SessionChannel) (kind : Str) (payload : Json F) :
    Except Exc (Fields F × Fields F × Bytes) := do
  raiseIf (kind = "execute".toList ∧ (self.side ≠ .host ∨ self.executed = true))
    (anchorError "one-shot execution authority already used or wrong direction")
  raiseIf (kind ∉ kinds) (anchorError "unsupported control operation")
  match payload with
  | .obj payload => do
    let message ← authenticate C (control self.session (self.sent + 1) kind payload) self.key
      self.side.purpose
    let encoded ← canonical message
    raiseIf (encoded.length > maxFrame) (anchorError "control frame exceeds limit")
    return (payload, message, encoded)
  | _ => .error (anchorError "unsupported control operation")

/-- The checks that `_receive` makes of an authenticated message, with its kind and its payload.
A kind that cannot be a member of a set is a `TypeError`. -/
def SessionChannel.examine (self : SessionChannel) (expectedKind : Str) (message : Fields F) :
    Except Exc (Str × Fields F) :=
  let unexpected := anchorError "unexpected control message or session/sequence mismatch"
  if !hasFields message controlFields then .error unexpected
  else match message.get "version", message.get "session", message.get "sequence" with
  | some (.int 1), some (.str session), some (.int sequence) =>
    if session = self.session ∧ sequence = self.received + 1 then
      match message.get "kind", message.get "payload" with
      | some (.str kind), some (.obj payload) =>
        if kind = expectedKind ∨ kind = "error".toList then .ok (kind, payload)
        else .error unexpected
      | some (.arr _), _ | some (.obj _), _ => .error (.builtin .typeError)
      | _, _ => .error unexpected
    else .error unexpected
  | _, _, _ => .error unexpected

/-- `RemoteSessionError(payload)`. -/
def remoteSessionError (B : Builtins F) (payload : Fields F) : Exc :=
  .raised .remoteSessionError (String.ofList ("guest session failed: ".toList ++
    B.str ((payload.get "type").getD (.str "unknown".toList)) ++ ": ".toList ++
    B.str ((payload.get "detail").getD (.str []))))

/-! ## A party -/

/-- One side, with the record of its traffic. -/
structure Party (F : Type) where
  channel : SessionChannel
  /-- The messages, with their MAC, whose frames it handed to the transport. -/
  tagged : List (Fields F)
  /-- The kind and the payload of each of these. A `send` that raises in the middle of a transfer
  may have put its frame on the wire but for bytes that anybody can add, so its message is one of
  them. -/
  sent : List (Str × Fields F)
  /-- The kind and the payload of each message that it accepted. -/
  accepted : List (Str × Fields F)

/-- The frame goes to the transport. -/
def Party.hand (self : Party F) (kind : Str) (payload message : Fields F) : Party F :=
  { self with tagged := self.tagged ++ [message], sent := self.sent ++ [(kind, payload)] }

/-- The end of `_send`. -/
def Party.count (self : Party F) (kind : Str) : Party F :=
  { self with
    channel.sent := self.channel.sent + 1
    channel.executed := self.channel.executed || kind == "execute".toList }

/-- The end of `_receive`. -/
def Party.accept (self : Party F) (kind : Str) (payload : Fields F) : Party F :=
  { self with
    channel.received := self.channel.received + 1
    channel.executed := self.channel.executed || kind == "execute".toList
    accepted := self.accepted ++ [(kind, payload)] }

/-- `self.failed = True`. -/
def Party.fail (self : Party F) : Party F := { self with channel.failed := true }

/-- What `send` and `receive` do around `_send` and `_receive`. -/
def latched {α : Type} (m : Action (Party F) Exc α) : Action (Party F) Exc α := do
  let self ← Action.read
  raiseIf (self.channel.failed = true) (anchorError "control channel is unusable after failure")
  Action.handle m fun e => do
    Action.update Party.fail
    Action.raise e

/-- `send(kind, payload)`. -/
def send (C : Crypto) (kind : Str) (payload : Json F) (rounds : List (Round ℕ)) :
    Action (Party F) Exc Unit :=
  latched do
    let self ← Action.read
    let (payload, message, encoded) ← self.channel.prepare C kind payload
    Action.update fun self => self.hand kind payload message
    writeAll rounds (bigEndian 4 encoded.length ++ encoded).length
    Action.update fun self => self.count kind

/-- `receive(expected_kind)`. -/
def receive (C : Crypto) (B : Builtins F) (wide : Encoding → Bytes → Option Str)
    (expectedKind : Str) (rounds : List (Round Bytes)) : Action (Party F) Exc (Fields F) :=
  latched do
    let self ← Action.read
    raiseIf (expectedKind = "execute".toList ∧
        (self.channel.side ≠ .guest ∨ self.channel.executed = true))
      (anchorError "one-shot execution authority already used or wrong direction")
    let raw ← readFrame rounds
    let message ← decode wide raw
    verify C message self.channel.key self.channel.side.peer.purpose
    let (kind, payload) ← self.channel.examine expectedKind message
    Action.update fun self => self.accept kind payload
    raiseIf (kind = "error".toList ∧ expectedKind ≠ "error".toList) (remoteSessionError B payload)
    return payload

/-! ## Both parties -/

/-- Both sides of a session. -/
abbrev World (F : Type) := Side → Party F

/-- A host and a guest channel with the same session and key. -/
def World.create (session : Str) (key : Bytes) : Except Exc (World F) := do
  let host ← SessionChannel.create session key .host
  let guest ← SessionChannel.create session key .guest
  return fun
    | .host => ⟨host, [], [], []⟩
    | .guest => ⟨guest, [], [], []⟩

/-- A call of one of the sides. What the peer does during the call is before it or after it: a call
reads its own side only, and a frame is in the hands of the network from the moment that the
transport has it. -/
inductive Call (F : Type) where
  | send (side : Side) (kind : Str) (payload : Json F) (rounds : List (Round ℕ))
  | receive (side : Side) (expectedKind : Str) (rounds : List (Round Bytes))

/-- The side that makes the call. -/
def Call.side : Call F → Side
  | .send side _ _ _ | .receive side _ _ => side

/-- The code of one side. -/
def onSide {α : Type} (side : Side) (m : Action (Party F) Exc α) : Action (World F) Exc α :=
  Action.zoom (· side) (fun self w => Function.update w side self) m

section Calls

variable (C : Crypto) (B : Builtins F) (wide : Encoding → Bytes → Option Str)

/-- A call, with what `receive` returns. -/
def perform : Call F → Action (World F) Exc (Option (Fields F))
  | .send side kind payload rounds => do
    onSide side (send C kind payload rounds)
    return none
  | .receive side expectedKind rounds => do
    let payload ← onSide side (receive C B wide expectedKind rounds)
    return some payload

/-- The state after a sequence of calls. -/
def run (w : World F) (calls : List (Call F)) : World F :=
  calls.foldl (fun w call => (perform C B wide call w).2) w

/-! ## What a call can do -/

/-- What a call can make of its side. -/
inductive Change (p : Party F) : Call F → Party F → Prop
  | unusable {call : Call F} (hfailed : p.channel.failed = true) : Change p call p
  | refused {call : Call F} (hfailed : p.channel.failed = false) : Change p call p.fail
  | cut {side : Side} {kind : Str} {payload : Json F} {rounds : List (Round ℕ)}
      {fs message : Fields F} {encoded : Bytes} (hfailed : p.channel.failed = false)
      (hprepare : p.channel.prepare C kind payload = .ok (fs, message, encoded)) :
      Change p (.send side kind payload rounds) (p.hand kind fs message).fail
  | sent {side : Side} {kind : Str} {payload : Json F} {rounds : List (Round ℕ)}
      {fs message : Fields F} {encoded : Bytes} (hfailed : p.channel.failed = false)
      (hprepare : p.channel.prepare C kind payload = .ok (fs, message, encoded)) :
      Change p (.send side kind payload rounds) ((p.hand kind fs message).count kind)
  | accepted {side : Side} {expectedKind kind : Str} {rounds : List (Round Bytes)} {raw : Bytes}
      {message fs : Fields F} {q : Party F} (hfailed : p.channel.failed = false)
      (honce : expectedKind = "execute".toList →
        p.channel.side = .guest ∧ p.channel.executed = false)
      (hread : readFrame rounds = .ok raw) (hdecode : decode wide raw = .ok message)
      (hverify : verify C message p.channel.key p.channel.side.peer.purpose = .ok ())
      (hexamine : p.channel.examine expectedKind message = .ok (kind, fs))
      (hq : q = p.accept kind fs ∨ q = (p.accept kind fs).fail) :
      Change p (.receive side expectedKind rounds) q

end Calls

variable {C : Crypto} {B : Builtins F} {wide : Encoding → Bytes → Option Str}

omit [PyFloat F] in
/-- A channel that has failed only raises, and any other fails with a raise. -/
theorem wp_latched {α : Type} {m : Action (Party F) Exc α} {Q : α → Party F → Prop}
    {E : Exc → Party F → Prop} {p : Party F} (hunusable : p.channel.failed = true → ∀ e, E e p)
    (h : p.channel.failed = false → Action.wp m Q (fun e q => E e q.fail) p) :
    Action.wp (latched m) Q E p := by
  simp only [latched, Action.wp_bind, Action.wp_read, Action.wp_handle, Action.wp_update,
    Action.wp_raise, Action.wp_lift, raiseIf_eq_ok]
  refine ⟨fun _ hfailed => h (Bool.eq_false_iff.2 hfailed), fun e he => ?_⟩
  have hfailed : p.channel.failed = true := by
    by_contra hne
    rw [raiseIf, if_neg hne] at he
    cases he
  exact hunusable hfailed e

/-- `send` changes its side in one of these ways, and fails the channel when it raises. -/
theorem send_spec (side : Side) (kind : Str) (payload : Json F) (rounds : List (Round ℕ))
    (p : Party F) :
    Action.wp (send C kind payload rounds)
      (fun _ q => Change C wide p (.send side kind payload rounds) q)
      (fun _ q => Change C wide p (.send side kind payload rounds) q ∧ q.channel.failed = true)
      p := by
  refine wp_latched (fun hfailed _ => ⟨.unusable hfailed, hfailed⟩) fun hfailed => ?_
  simp only [Action.wp_bind, Action.wp_read, Action.wp_update, Action.wp_lift]
  refine ⟨?_, fun e _ => ⟨.refused hfailed, rfl⟩⟩
  rintro ⟨fs, message, encoded⟩ hprepare
  exact ⟨fun _ _ => .sent hfailed hprepare, fun _ _ => ⟨.cut hfailed hprepare, rfl⟩⟩

/-- `receive` changes its side in one of these ways, and fails the channel when it raises. -/
theorem receive_spec (side : Side) (expectedKind : Str) (rounds : List (Round Bytes))
    (p : Party F) :
    Action.wp (receive C B wide expectedKind rounds)
      (fun _ q => Change C wide p (.receive side expectedKind rounds) q)
      (fun _ q => Change C wide p (.receive side expectedKind rounds) q ∧ q.channel.failed = true)
      p := by
  refine wp_latched (fun hfailed _ => ⟨.unusable hfailed, hfailed⟩) fun hfailed => ?_
  have hrefused : Change C wide p (.receive side expectedKind rounds) p.fail ∧
      p.fail.channel.failed = true := ⟨.refused hfailed, rfl⟩
  simp only [Action.wp_bind, Action.wp_read]
  -- Up to the update, a raise leaves the side as it was but for the latch.
  refine Action.wp_lift_intro (fun _ honce => ?_) fun _ => hrefused
  refine Action.wp_lift_intro (fun raw hread => ?_) fun _ => hrefused
  refine Action.wp_lift_intro (fun message hdecode => ?_) fun _ => hrefused
  refine Action.wp_lift_intro (fun _ hverify => ?_) fun _ => hrefused
  refine Action.wp_lift_intro (fun accepted hexamine => ?_) fun _ => hrefused
  obtain ⟨kind, fs⟩ := accepted
  have honce : expectedKind = "execute".toList →
      p.channel.side = .guest ∧ p.channel.executed = false := by
    intro hexecute
    have hnot := raiseIf_eq_ok.1 honce
    simpa [hexecute] using hnot
  have hchange : ∀ q, q = p.accept kind fs ∨ q = (p.accept kind fs).fail →
      Change C wide p (.receive side expectedKind rounds) q :=
    fun q hq => .accepted hfailed honce hread hdecode hverify hexamine hq
  simp only [Action.wp_update]
  refine Action.wp_lift_intro (fun _ _ => hchange _ (.inl rfl)) fun _ => ?_
  exact ⟨hchange _ (.inr rfl), rfl⟩

/-- A call changes its own side, and fails its channel when it raises. -/
theorem perform_spec (call : Call F) (w : World F) :
    Action.wp (perform C B wide call)
      (fun _ w' => ∃ q, Change C wide (w call.side) call q ∧
        w' = Function.update w call.side q)
      (fun _ w' => ∃ q, (Change C wide (w call.side) call q ∧ q.channel.failed = true) ∧
        w' = Function.update w call.side q) w := by
  cases call with
  | send side kind payload rounds =>
    simp only [perform, onSide, Action.wp_bind, Action.wp_zoom, Action.wp_pure]
    exact Action.wp_mono (send_spec side kind payload rounds (w side))
      (fun _ q hq => ⟨q, hq, rfl⟩) fun _ q hq => ⟨q, hq, rfl⟩
  | receive side expectedKind rounds =>
    simp only [perform, onSide, Action.wp_bind, Action.wp_zoom, Action.wp_pure]
    exact Action.wp_mono (receive_spec side expectedKind rounds (w side))
      (fun _ q hq => ⟨q, hq, rfl⟩) fun _ q hq => ⟨q, hq, rfl⟩

/-- What a call can do to the two sides. -/
theorem perform_cases (call : Call F) (w : World F) :
    ∃ q, Change C wide (w call.side) call q ∧
      (perform C B wide call w).2 = Function.update w call.side q :=
  Action.wp_state.1 (Action.wp_mono (perform_spec call w) (fun _ _ h => h)
    fun _ _ ⟨q, hq, hw⟩ => ⟨q, hq.1, hw⟩)

/-- A call that raises leaves its channel failed. -/
theorem perform_raised {call : Call F} {w w' : World F} {e : Exc}
    (h : perform C B wide call w = (.error e, w')) : (w' call.side).channel.failed = true := by
  have hspec : Action.wp (perform C B wide call) _ _ w := perform_spec call w
  unfold Action.wp at hspec
  rw [h] at hspec
  obtain ⟨q, ⟨-, hfailed⟩, rfl⟩ := hspec
  rw [Function.update_self]
  exact hfailed

/-! ## What the checks let through -/

/-- What `_send` hands to the transport. -/
theorem prepare_eq_ok {self : SessionChannel} {kind : Str} {payload : Json F}
    {fs message : Fields F} {encoded : Bytes}
    (h : self.prepare C kind payload = .ok (fs, message, encoded)) :
    (kind = "execute".toList → self.side = .host ∧ self.executed = false) ∧
      authenticate C (control self.session (self.sent + 1) kind fs) self.key self.side.purpose =
        .ok message ∧ canonical message = .ok encoded := by
  unfold SessionChannel.prepare at h
  obtain ⟨_, honce, h⟩ := bind_eq_ok.1 h
  obtain ⟨-, -, h⟩ := bind_eq_ok.1 h
  have honce := raiseIf_eq_ok.1 honce
  split at h
  · obtain ⟨message', hmessage, h⟩ := bind_eq_ok.1 h
    obtain ⟨encoded', hencoded, h⟩ := bind_eq_ok.1 h
    obtain ⟨-, -, h⟩ := bind_eq_ok.1 h
    cases h
    exact ⟨fun hexecute => by simpa [hexecute] using honce, hmessage, hencoded⟩
  · cases h

omit [PyFloat F] in
/-- What `_receive` accepts. -/
theorem examine_eq_ok {self : SessionChannel} {expectedKind kind : Str} {message fs : Fields F}
    (h : self.examine expectedKind message = .ok (kind, fs)) :
    message.get "sequence" = some (.int (self.received + 1)) ∧
      message.get "kind" = some (.str kind) ∧ message.get "payload" = some (.obj fs) ∧
      (kind = expectedKind ∨ kind = "error".toList) := by
  unfold SessionChannel.examine at h
  simp only at h
  split at h
  · cases h
  split at h
  · rename_i hsequence
    split at h
    · rename_i hmatch
      split at h
      · rename_i hkind hpayload
        split at h
        · rename_i hexpected
          cases h
          exact ⟨by rw [hsequence, hmatch.2], hkind, hpayload, hexpected⟩
        · cases h
      · cases h
      · cases h
      · cases h
    · cases h
  · cases h

end Bulldog.Microvm
