import Bulldog.Lib.Json.Python
import Bulldog.Microvm.Channel

/-!
# Order on the control channel

Whatever the network does, each side accepts what its peer sent, from the first message on, in order
and each once, and the guest accepts one `execute` at most. The network does not know the key, so a
frame that verifies carries the MAC of a message that one of the sides tagged (`Unforged`). The
purpose in the MAC says which side, and the sequence number says which of its messages.
-/

namespace Bulldog.Microvm

open Anchor

variable {F : Type} [PyFloat F]

/-- The kind and the payload of a message, as one `dict` compares them with another. -/
def content (message : Str × Fields F) : Str × Fields F := (message.1, message.2.norm)

/-- How many of the messages are `execute`. -/
def executes (messages : List (Str × Fields F)) : ℕ :=
  messages.countP fun message => message.1 == "execute".toList

section Definitions

variable (C : Crypto) (B : Builtins F) (wide : Encoding → Bytes → Option Str)

/-- HMAC is unforgeable when `side` receives: if the frame that it reads verifies, then the bytes
that the MAC covers are those of a message that one of the sides tagged. -/
def Unforged (w : World F) (side : Side) (rounds : List (Round Bytes)) : Prop :=
  ∀ raw (message : Fields F), readFrame rounds = .ok raw → decode wide raw = .ok message →
    verify C message (w side).channel.key side.peer.purpose = .ok () →
    ∃ tagger, ∃ tagged ∈ (w tagger).tagged, ∃ body taggedBody,
      canonical (message.erase "mac") = .ok body ∧
      canonical (tagged.erase "mac") = .ok taggedBody ∧
      macInput side.peer.purpose body = macInput tagger.purpose taggedBody

/-- HMAC is unforgeable in every `receive` of a run. -/
def UnforgedRun (w : World F) (calls : List (Call F)) : Prop :=
  ∀ before side expectedKind rounds after,
    calls = before ++ .receive side expectedKind rounds :: after →
    Unforged C wide (run C B wide w before) side rounds

end Definitions

/-- What holds of one side at all times. -/
structure Party.Inv (session : Str) (key : Bytes) (side : Side) (p : Party F) : Prop where
  sameSession : p.channel.session = session
  sameKey : p.channel.key = key
  sameSide : p.channel.side = side
  received : p.accepted.length = p.channel.received
  sent : p.channel.failed = false → p.sent.length = p.channel.sent
  tagged : ∀ message ∈ p.tagged, ∃ i kind fs, p.sent[i]? = some (kind, fs) ∧
    message.erase "mac" = control session (i + 1) kind fs
  sentOnce : executes p.sent ≤ 1
  sentNone : p.channel.executed = false → p.channel.failed = false → executes p.sent = 0
  acceptedOnce : executes p.accepted ≤ 1
  acceptedNone : p.channel.executed = false → executes p.accepted = 0

/-- What holds of both at all times. -/
structure World.Inv (session : Str) (key : Bytes) (w : World F) : Prop where
  party : ∀ side, (w side).Inv session key side
  inOrder : ∀ side, (w side).accepted.map content <+: (w side.peer).sent.map content

variable {C : Crypto} {B : Builtins F} {wide : Encoding → Bytes → Option Str}
variable {session : Str} {key : Bytes} {side : Side} {p q : Party F} {w : World F}

/-! ## One side -/

omit [PyFloat F] in
theorem executes_concat (messages : List (Str × Fields F)) (kind : Str) (fs : Fields F) :
    executes (messages ++ [(kind, fs)]) =
      executes messages + if kind = "execute".toList then 1 else 0 := by
  simp only [executes, List.countP_append, List.countP_singleton, beq_iff_eq]

omit [PyFloat F] in
/-- Another `execute` is the first. -/
theorem executes_concat_le {messages : List (Str × Fields F)} {kind : Str} (fs : Fields F)
    (hle : executes messages ≤ 1) (h : kind = "execute".toList → executes messages = 0) :
    executes (messages ++ [(kind, fs)]) ≤ 1 := by
  rw [executes_concat]
  split_ifs with hkind
  · rw [h hkind]
  · exact hle

omit [PyFloat F] in
theorem executes_concat_of_ne {messages : List (Str × Fields F)} {kind : Str} (fs : Fields F)
    (hkind : kind ≠ "execute".toList) : executes (messages ++ [(kind, fs)]) = executes messages := by
  rw [executes_concat, if_neg hkind, Nat.add_zero]

omit [PyFloat F] in
theorem Party.Inv.fail (h : p.Inv session key side) : p.fail.Inv session key side where
  sameSession := h.sameSession
  sameKey := h.sameKey
  sameSide := h.sameSide
  received := h.received
  sent := nofun
  tagged := h.tagged
  sentOnce := h.sentOnce
  sentNone := nofun
  acceptedOnce := h.acceptedOnce
  acceptedNone := h.acceptedNone

omit [PyFloat F] in
/-- The message is the tagged one without its MAC. -/
theorem erase_control (session : Str) (sequence : ℕ) (kind : Str) (fs : Fields F) :
    (control session sequence kind fs).erase "mac" = control session sequence kind fs := by
  refine List.filter_eq_self.2 fun kv hkv => ?_
  have hkeys : kv.1 ∈ (control session sequence kind fs).map Prod.fst := List.mem_map_of_mem hkv
  have hmac : ∀ k ∈ (control session sequence kind fs).map Prod.fst, k ≠ "mac".toList := by
    simp only [control, List.map_cons, List.map_nil, List.forall_mem_cons]
    exact ⟨by decide, by decide, by decide, by decide, by decide, List.forall_mem_nil _⟩
  simpa using hmac _ hkeys

/-- The new message is the one after those that were sent. -/
theorem Party.Inv.tagged_hand (h : p.Inv session key side) (hfailed : p.channel.failed = false)
    {kind : Str} {payload : Json F} {fs message : Fields F} {encoded : Bytes}
    (hprepare : p.channel.prepare C kind payload = .ok (fs, message, encoded)) :
    ∀ m ∈ (p.hand kind fs message).tagged, ∃ i k f,
      (p.hand kind fs message).sent[i]? = some (k, f) ∧ m.erase "mac" = control session (i + 1) k f := by
  intro m hm
  rcases List.mem_append.1 hm with hm | hm
  · obtain ⟨i, k, f, hget, hcontrol⟩ := h.tagged m hm
    have hlt : i < p.sent.length := (List.getElem?_eq_some_iff.1 hget).1
    refine ⟨i, k, f, ?_, hcontrol⟩
    rw [Party.hand, List.getElem?_append_left hlt]
    exact hget
  · obtain rfl := List.mem_singleton.1 hm
    obtain ⟨-, hauthenticate, -⟩ := prepare_eq_ok hprepare
    obtain ⟨mac, -, rfl⟩ := authenticate_eq_ok.1 hauthenticate
    refine ⟨p.sent.length, kind, fs, List.getElem?_concat_length, ?_⟩
    rw [Fields.erase_set, erase_control, erase_control, h.sameSession, h.sent hfailed]

/-- Every call keeps the invariant of its side. -/
theorem Party.Inv.change {call : Call F} (h : p.Inv session key side)
    (hc : Change C wide p call q) : q.Inv session key side := by
  cases hc with
  | unusable => exact h
  | refused => exact h.fail
  | cut hfailed hprepare =>
    rename_i kind _ _ fs message _
    have honce : kind = "execute".toList → executes p.sent = 0 := fun hkind =>
      h.sentNone ((prepare_eq_ok hprepare).1 hkind).2 hfailed
    exact {
      sameSession := h.sameSession
      sameKey := h.sameKey
      sameSide := h.sameSide
      received := h.received
      sent := nofun
      tagged := h.tagged_hand hfailed hprepare
      sentOnce := executes_concat_le fs h.sentOnce honce
      sentNone := nofun
      acceptedOnce := h.acceptedOnce
      acceptedNone := h.acceptedNone }
  | sent hfailed hprepare =>
    rename_i kind _ _ fs message _
    have honce : kind = "execute".toList → executes p.sent = 0 := fun hkind =>
      h.sentNone ((prepare_eq_ok hprepare).1 hkind).2 hfailed
    have hexecuted : ((p.hand kind fs message).count kind).channel.executed = false →
        p.channel.executed = false ∧ kind ≠ "execute".toList := by
      simp [Party.count, Party.hand]
    exact {
      sameSession := h.sameSession
      sameKey := h.sameKey
      sameSide := h.sameSide
      received := h.received
      sent := fun _ => by
        rw [Party.count, Party.hand, List.length_append, h.sent hfailed]
        rfl
      tagged := h.tagged_hand hfailed hprepare
      sentOnce := executes_concat_le fs h.sentOnce honce
      sentNone := fun hnot _ => by
        obtain ⟨hnot, hkind⟩ := hexecuted hnot
        exact (executes_concat_of_ne fs hkind).trans (h.sentNone hnot hfailed)
      acceptedOnce := h.acceptedOnce
      acceptedNone := fun hnot => h.acceptedNone (hexecuted hnot).1 }
  | accepted hfailed honce hread hdecode hverify hexamine hq =>
    rename_i expectedKind kind _ _ _ fs
    obtain ⟨-, -, -, hexpected⟩ := examine_eq_ok hexamine
    -- An `execute` is accepted only where it is expected.
    have hfirst : kind = "execute".toList → executes p.accepted = 0 := by
      rintro rfl
      rcases hexpected with rfl | herror
      · exact h.acceptedNone (honce rfl).2
      · exact absurd herror (by decide)
    have hexecuted : (p.accept kind fs).channel.executed = false →
        p.channel.executed = false ∧ kind ≠ "execute".toList := by
      simp [Party.accept]
    have haccept : (p.accept kind fs).Inv session key side := {
      sameSession := h.sameSession
      sameKey := h.sameKey
      sameSide := h.sameSide
      received := by
        rw [Party.accept, List.length_append, h.received]
        rfl
      sent := h.sent
      tagged := h.tagged
      sentOnce := h.sentOnce
      sentNone := fun hnot hfailed => h.sentNone (hexecuted hnot).1 hfailed
      acceptedOnce := executes_concat_le fs h.acceptedOnce hfirst
      acceptedNone := fun hnot => by
        obtain ⟨hnot, hkind⟩ := hexecuted hnot
        exact (executes_concat_of_ne fs hkind).trans (h.acceptedNone hnot) }
    rcases hq with rfl | rfl
    · exact haccept
    · exact haccept.fail

/-! ## Both sides -/

/-- The purpose in a MAC says who tagged the message. -/
theorem macInput_purpose_inj {a b : Side} {body body' : Bytes}
    (h : macInput a.purpose body = macInput b.purpose body') : a = b ∧ body = body' := by
  have hsame : ∀ {purpose : String}, macInput purpose body = macInput purpose body' →
      body = body' := fun h => (List.cons.inj (List.append_cancel_left h)).2
  -- The ninth byte of the MAC's input is the first letter of the side.
  have hhost : ∀ b : Bytes, (macInput Side.host.purpose b)[8]? = some 0x68 := fun _ => rfl
  have hguest : ∀ b : Bytes, (macInput Side.guest.purpose b)[8]? = some 0x67 := fun _ => rfl
  cases a <;> cases b
  · exact ⟨rfl, hsame h⟩
  · have hbyte := (hhost body).symm.trans (h ▸ hguest body')
    exact absurd hbyte (by decide)
  · have hbyte := (hguest body).symm.trans (h ▸ hhost body')
    exact absurd hbyte (by decide)
  · exact ⟨rfl, hsame h⟩

/-- A field of a message that a side tagged, read off a message with the same canonical bytes. -/
theorem get_of_canonical {message tagged : Fields F} {body : Bytes} {k : Str} {v : Json F}
    (hk : k ≠ "mac".toList) (hmessage : canonical (message.erase "mac") = .ok body)
    (htagged : canonical (tagged.erase "mac") = .ok body) (hget : message.get k = some v) :
    ((tagged.erase "mac").get k).map Json.norm = some v.norm := by
  have hnorm := (canonical_eq_iff hmessage).1 htagged
  rw [← Fields.get_norm, hnorm, Fields.get_norm, Fields.get_erase_of_ne _ hk, hget]
  rfl

/-- A side accepts the next message of its peer. -/
theorem World.Inv.next (h : w.Inv session key) {expectedKind kind : Str}
    {rounds : List (Round Bytes)} {raw : Bytes} {message fs : Fields F}
    (hunforged : Unforged C wide w side rounds) (hread : readFrame rounds = .ok raw)
    (hdecode : decode wide raw = .ok message)
    (hverify : verify C message (w side).channel.key side.peer.purpose = .ok ())
    (hexamine : (w side).channel.examine expectedKind message = .ok (kind, fs)) :
    ((w side.peer).sent.map content)[(w side).accepted.length]? = some (content (kind, fs)) := by
  obtain ⟨tagger, tagged, htagged, body, taggedBody, hbody, htaggedBody, hinput⟩ :=
    hunforged raw message hread hdecode hverify
  obtain ⟨rfl, rfl⟩ := macInput_purpose_inj hinput
  obtain ⟨i, k, f, hget, hcontrol⟩ := (h.party side.peer).tagged tagged htagged
  obtain ⟨hsequence, hkind, hpayload, -⟩ := examine_eq_ok hexamine
  -- The two messages agree in every field, and so in the sequence number.
  have hfield : ∀ {name : Str} {v : Json F}, name ≠ "mac".toList → message.get name = some v →
      ((control session (i + 1) k f).get name).map Json.norm = some v.norm := fun hname hv => by
    rw [← hcontrol]
    exact get_of_canonical hname hbody htaggedBody hv
  have hi : i = (w side).channel.received := by
    have hint : some (Json.int ((i + 1 : ℕ) : ℤ)) =
        some (Json.int (F := F) ((w side).channel.received + 1)) :=
      hfield (by decide) hsequence
    injection hint with hint
    injection hint with hint
    omega
  have hk : k = kind := by
    have hstr : some (Json.str (F := F) k) = some (Json.str kind) := hfield (by decide) hkind
    injection hstr with hstr
    injection hstr
  have hf : f.norm = fs.norm := by
    have hobj : some (Json.obj f.norm) = some (Json.obj fs.norm) := hfield (by decide) hpayload
    injection hobj with hobj
    injection hobj
  rw [(h.party side).received, ← hi, List.getElem?_map, hget, Option.map_some, content, content,
    hk, hf]

/-- A call adds to what its side has sent. -/
theorem Change.sent_append {call : Call F} (hc : Change C wide p call q) : p.sent <+: q.sent := by
  cases hc with
  | unusable | refused => exact List.prefix_rfl
  | cut | sent => exact List.prefix_append _ _
  | accepted _ _ _ _ _ _ hq => rcases hq with rfl | rfl <;> exact List.prefix_rfl

theorem append_of_getElem? {α : Type} {l m : List α} {a : α} (h : l <+: m)
    (ha : m[l.length]? = some a) : l ++ [a] <+: m := by
  obtain ⟨t, rfl⟩ := h
  rw [List.getElem?_append_right le_rfl, Nat.sub_self] at ha
  obtain ⟨t', rfl⟩ : ∃ t', t = a :: t' := by
    cases t with
    | nil => cases ha
    | cons b t' => exact ⟨t', by rw [Option.some.inj ha]⟩
  exact ⟨t', by simp⟩

/-- What the calling side has accepted stays in the order of its peer. -/
theorem World.Inv.inOrder_change (h : w.Inv session key) {call : Call F}
    (hunforged : ∀ expectedKind rounds, call = .receive call.side expectedKind rounds →
      Unforged C wide w call.side rounds) (hc : Change C wide (w call.side) call q) :
    q.accepted.map content <+: (w call.side.peer).sent.map content := by
  have hold := h.inOrder call.side
  generalize hp : w call.side = p at hc hold
  cases hc with
  | unusable | refused | cut | sent => exact hold
  | accepted hfailed honce hread hdecode hverify hexamine hq =>
    rename_i side expectedKind kind rounds raw message fs
    subst hp
    simp only [Call.side] at hunforged hverify hexamine hold hq ⊢
    rw [(h.party side).sameSide] at hverify
    have hnext := h.next (hunforged _ _ rfl) hread hdecode hverify hexamine
    have haccepted : q.accepted = (w side).accepted ++ [(kind, fs)] := by
      rcases hq with rfl | rfl <;> rfl
    rw [haccepted, List.map_append, List.map_singleton]
    refine append_of_getElem? hold ?_
    rw [List.length_map]
    exact hnext

theorem Side.peer_ne (side : Side) : side.peer ≠ side := by cases side <;> decide

theorem Side.peer_of_ne {a b : Side} (h : a ≠ b) : a.peer = b := by
  cases a <;> cases b <;> first | rfl | exact absurd rfl h

/-- Every call keeps the invariant. -/
theorem World.Inv.perform (h : w.Inv session key) (call : Call F)
    (hunforged : ∀ expectedKind rounds, call = .receive call.side expectedKind rounds →
      Unforged C wide w call.side rounds) :
    World.Inv session key (perform C B wide call w).2 := by
  obtain ⟨q, hchange, hw⟩ := perform_cases (B := B) call w
  rw [hw]
  constructor
  · intro side
    by_cases hside : side = call.side
    · subst hside
      rw [Function.update_self]
      exact (h.party _).change hchange
    · rw [Function.update_of_ne hside]
      exact h.party side
  · intro side
    by_cases hside : side = call.side
    · subst hside
      rw [Function.update_self, Function.update_of_ne (Side.peer_ne _)]
      exact h.inOrder_change hunforged hchange
    · -- The other side is the peer of the caller, which can only have sent more.
      rw [Function.update_of_ne hside, Side.peer_of_ne hside, Function.update_self]
      have hold := h.inOrder side
      rw [Side.peer_of_ne hside] at hold
      exact hold.trans (hchange.sent_append.map content)

/-- A call leaves the other side as it is. -/
theorem perform_other {call : Call F} (h : side ≠ call.side) :
    (perform C B wide call w).2 side = w side := by
  obtain ⟨q, -, hw⟩ := perform_cases (C := C) (B := B) call w
  rw [hw, Function.update_of_ne h]

/-! ## Runs -/

theorem run_concat (w : World F) (calls : List (Call F)) (call : Call F) :
    run C B wide w (calls ++ [call]) = (perform C B wide call (run C B wide w calls)).2 := by
  rw [run, List.foldl_append]
  rfl

omit [PyFloat F] in
theorem inv_create (h : World.create session key = .ok w) : w.Inv session key := by
  obtain ⟨host, hhost, h⟩ := bind_eq_ok.1 h
  obtain ⟨guest, hguest, h⟩ := bind_eq_ok.1 h
  cases h
  have hchannel : ∀ {side : Side} {channel : SessionChannel},
      SessionChannel.create session key side = .ok channel →
      channel = ⟨session, key, side, 0, 0, false, false⟩ := fun hc => by
    unfold SessionChannel.create at hc
    split at hc
    · cases hc
    · exact (Except.ok.inj hc).symm
  obtain rfl := hchannel hhost
  obtain rfl := hchannel hguest
  constructor
  · intro side
    cases side <;> constructor <;> simp [executes]
  · intro side
    cases side <;> simp

/-- The invariant holds along every run in which no MAC is forged. -/
theorem inv_run (hw : World.create session key = .ok w) (calls : List (Call F))
    (hunforged : UnforgedRun C B wide w calls) : World.Inv session key (run C B wide w calls) := by
  induction calls using List.reverseRecOn with
  | nil => exact inv_create hw
  | append_singleton calls call ih =>
    rw [run_concat]
    have hcalls : UnforgedRun C B wide w calls := fun before side expectedKind rounds after heq =>
      hunforged before side expectedKind rounds (after ++ [call]) (by simp [heq])
    refine (ih hcalls).perform call fun expectedKind rounds hcall => ?_
    exact hunforged calls call.side expectedKind rounds [] (by rw [← hcall])

/-- A channel that has failed stays as it is. -/
theorem run_failed {side : Side} (hfailed : (w side).channel.failed = true)
    (calls : List (Call F)) : run C B wide w calls side = w side := by
  induction calls using List.reverseRecOn with
  | nil => rfl
  | append_singleton calls call ih =>
    obtain ⟨q, hchange, hw⟩ := perform_cases (B := B) call (run C B wide w calls)
    rw [run_concat, hw]
    by_cases hside : side = call.side
    · subst hside
      rw [Function.update_self, ← ih]
      rw [← ih] at hfailed
      cases hchange with
      | unusable => rfl
      | refused hnot | cut hnot | sent hnot | accepted hnot => simp [hnot] at hfailed
    · rw [Function.update_of_ne hside, ih]

/-- In every run in which no MAC is forged, what a side has accepted is what its peer sent first, in
order, the guest accepts one `execute` at most and the host sends one at most, and a side that has
raised stays as it is. -/
theorem channel_in_order (hw : World.create session key = .ok w) (calls : List (Call F))
    (hunforged : UnforgedRun C B wide w calls) :
    (∀ side, (run C B wide w calls side).accepted.map content <+:
      (run C B wide w calls side.peer).sent.map content) ∧
    executes (run C B wide w calls .guest).accepted ≤ 1 ∧
    executes (run C B wide w calls .host).sent ≤ 1 ∧
    ∀ before call after e w', calls = before ++ call :: after →
      perform C B wide call (run C B wide w before) = (.error e, w') →
      run C B wide w calls call.side = w' call.side := by
  have hinv := inv_run hw calls hunforged
  refine ⟨hinv.inOrder, (hinv.party .guest).acceptedOnce, (hinv.party .host).sentOnce, ?_⟩
  intro before call after e w' hcalls hraised
  have hfailed := perform_raised hraised
  have hw' : run C B wide w (before ++ [call]) = w' := by rw [run_concat, hraised]
  have hrun : run C B wide w calls = run C B wide w' after := by
    rw [hcalls, List.append_cons, ← hw']
    exact List.foldl_append
  rw [hrun]
  exact run_failed hfailed after

/-! ## A delivery and its replay -/

/-- A frame that the peer tagged can be delivered. -/
theorem unforged_delivery {tagged : Fields F} {frame body : Bytes} {rounds : List (Round Bytes)}
    (htagged : tagged ∈ (w side.peer).tagged) (hwf : (Json.obj tagged).WF)
    (hframe : canonical tagged = .ok frame) (hbody : canonical (tagged.erase "mac") = .ok body)
    (hlength : frame.length ≤ maxFrame) (hread : readFrame rounds = .ok frame) :
    Unforged C wide w side rounds := by
  intro raw message hraw hdecode _
  obtain rfl : frame = raw := Except.ok.inj (hread.symm.trans hraw)
  rw [decode_canonical wide hwf hframe hlength] at hdecode
  obtain rfl := Except.ok.inj hdecode
  refine ⟨side.peer, tagged, htagged, body, body, ?_, hbody, rfl⟩
  rw [← Fields.erase_norm, canonical_norm]
  exact hbody

/-- A host and a guest at the start of a session. -/
def sampleWorld : World Literal := fun side =>
  ⟨⟨List.replicate 64 'a', List.replicate 32 0x6b, side, 0, 0, false, false⟩, [], [], []⟩

/-- The frame of the host's `execute`. -/
def sampleFrame : Bytes :=
  encodeUtf8 ("\x7b\"kind\":\"execute\",\"mac\":\"".toList ++
    "f16b4b18dd971a5ef8531ec6d05ba1d10526dfddd5f6f78148ab369e13f90974".toList ++
    "\",\"payload\":\x7b\x7d,\"sequence\":1,\"session\":\"".toList ++
    List.replicate 64 'a' ++ "\",\"version\":1\x7d".toList)

/-- The frame arrives in pieces, after a read that has to be repeated. -/
def sampleRounds : List (Round Bytes) :=
  [.blocking, .done (Approval.bigEndian 4 sampleFrame.length), .done (sampleFrame.take 7),
    .done (sampleFrame.drop 7)]

/-- The host sends an `execute`, which the guest gets twice. -/
def sampleCalls : List (Call Literal) :=
  [.send .host "execute".toList (.obj []) [.done 1000],
    .receive .guest "execute".toList sampleRounds, .receive .guest "ready".toList sampleRounds]

/-- The frame of the `execute` reaches the guest as often as the network likes. -/
theorem sampleRounds_unforged {w : World Literal}
    (h : (w .host).tagged.map (fun tagged => (canonical tagged, uniqueKeys (.obj tagged),
      (canonical (tagged.erase "mac")).isOk)) = [(.ok sampleFrame, true, true)]) :
    Unforged .standard (fun _ _ => none) w .guest sampleRounds := by
  obtain ⟨tagged, htagged, heq⟩ := List.mem_map.1 (h ▸ List.mem_singleton_self _)
  obtain ⟨hframe, hrest⟩ := Prod.mk.inj heq
  obtain ⟨hunique, hbody⟩ := Prod.mk.inj hrest
  obtain ⟨body, hbody⟩ : ∃ body, canonical (tagged.erase "mac") = .ok body := by
    cases hc : canonical (tagged.erase "mac") with
    | ok body => exact ⟨body, rfl⟩
    | error e => rw [hc] at hbody; cases hbody
  exact unforged_delivery htagged ((uniqueKeys_eq_true _).1 hunique) hframe hbody
    (by decide +kernel) (by decide +kernel)

/-- The run meets the assumption, and so the guest accepts one `execute` of the two. -/
theorem sampleCalls_in_order :
    World.create (List.replicate 64 'a') (List.replicate 32 0x6b) = .ok sampleWorld ∧
    UnforgedRun .standard plainBuiltins (fun _ _ => none) sampleWorld sampleCalls ∧
    executes (run .standard plainBuiltins (fun _ _ => none) sampleWorld sampleCalls
      .guest).accepted ≤ 1 := by
  have hcreate : World.create (List.replicate 64 'a') (List.replicate 32 0x6b) =
      .ok sampleWorld := by
    have hchannel : ∀ side, SessionChannel.create (List.replicate 64 'a')
        (List.replicate 32 0x6b) side = .ok (sampleWorld side).channel := fun side => by
      rw [SessionChannel.create, if_neg (by decide)]
      rfl
    rw [World.create, hchannel, hchannel]
    refine congrArg Except.ok (funext fun side => ?_)
    cases side <;> rfl
  have hunforged : UnforgedRun .standard plainBuiltins (fun _ _ => none) sampleWorld
      sampleCalls := by
    intro before side expectedKind rounds after heq
    have hsent : ((run .standard plainBuiltins (fun _ _ => none) sampleWorld
        [.send .host "execute".toList (.obj []) [.done 1000]]) .host).tagged.map
        (fun tagged => (canonical tagged, uniqueKeys (.obj tagged),
          (canonical (tagged.erase "mac")).isOk)) = [(.ok sampleFrame, true, true)] := by
      decide +kernel
    match before with
    | [] => cases heq
    | [_] =>
      cases heq
      exact sampleRounds_unforged hsent
    | [_, _] =>
      cases heq
      -- The guest's first call leaves the host as it is.
      refine sampleRounds_unforged ?_
      rw [← List.singleton_append, run_concat, perform_other (by decide)]
      exact hsent
    | _ :: _ :: _ :: rest =>
      have hthree : sampleCalls.length = 3 := rfl
      have hlength := congrArg List.length heq
      simp only [List.length_append, List.length_cons] at hlength
      omega
  exact ⟨hcreate, hunforged, (channel_in_order hcreate sampleCalls hunforged).2.1⟩

end Bulldog.Microvm
