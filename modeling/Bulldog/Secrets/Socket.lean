import Bulldog.Approval.Hardware
import Bulldog.Lib.Json.Printable
import Bulldog.Lib.Pieces
import Bulldog.Secrets.Accounting

/-!
# The sockets of the brokers

`_read_line` and `_handle` of `egress_proxy.py` and `secret_broker.py`, and the clients `broker_fetch` and
`request_secret`. A request and its reply are lines of JSON, which `recv` hands over in pieces. What the
audit callback does, the text of an exception and what Python makes of a JSON value that is no string are
parameters.
-/

namespace Bulldog.Sockets

/-! ## Lines -/

/-- What `_read_line` raises. -/
inductive LineError where
  /-- The broker's own exception. -/
  | tooLarge (message : String)
  | unicodeDecodeError
  deriving DecidableEq

/-- Why a line is not read, or a request is refused. -/
inductive SocketError where
  | line (error : LineError)
  | jsonDecodeError
  | malformed
  | refused (error : Str)
  deriving DecidableEq

/-- The loop of `_read_line`, over what `recv` returns. -/
def receive (limit : ℕ) (data : Bytes) : List Bytes → Bytes
  | [] => data
  | chunk :: stream =>
    if data.length < limit then
      if chunk = [] then data
      else if 10 ∈ chunk then data ++ chunk
      else receive limit (data ++ chunk) stream
    else data

/-- `_read_line(conn, limit)` of a broker whose exception has this text. -/
def readLineWith (message : String) (limit : ℕ) (stream : List Bytes) : Except LineError Str := do
  let data := receive limit [] stream
  raiseIf (limit ≤ data.length) (.tooLarge message)
  orRaise (decodeUtf8 (data.takeWhile (· ≠ 10))) .unicodeDecodeError

/-- `SecretBroker._read_line(conn, limit)`. -/
def secretReadLine : ℕ → List Bytes → Except LineError Str := readLineWith "request too large"

/-- `EgressBroker._read_line(conn, limit)`. -/
def egressReadLine : ℕ → List Bytes → Except LineError Str := readLineWith "broker request too large"

/-- What `recv(4096)` may return for some bytes, until the end. -/
structure Chunking (data : Bytes) (stream : List Bytes) : Prop where
  flatten : stream.flatten = data
  sizes : ∀ chunk ∈ stream, chunk ≠ [] ∧ chunk.length ≤ 4096

variable {message : String} {limit : ℕ} {raw data : Bytes} {stream : List Bytes}

/-- However a line comes in, it is read whole where it is shorter than the limit, and otherwise the limit is
reached. -/
theorem receive_line (limit : ℕ) (hraw : (10 : UInt8) ∉ raw) (hsizes : ∀ chunk ∈ stream, chunk ≠ [])
    (h : data ++ stream.flatten = raw ++ [10]) :
    receive limit data stream = raw ++ [10] ∨
      limit ≤ raw.length + 1 ∧ limit ≤ (receive limit data stream).length := by
  have hlength := congrArg List.length h
  rw [List.length_append, List.length_append, List.length_singleton] at hlength
  induction stream generalizing data with
  | nil =>
    rw [List.flatten_nil, List.append_nil] at h
    exact .inl h
  | cons chunk stream ih =>
    rw [List.flatten_cons, ← List.append_assoc] at h
    rw [receive]
    by_cases hlimit : data.length < limit
    · rw [if_pos hlimit, if_neg (hsizes chunk List.mem_cons_self)]
      by_cases hend : 10 ∈ chunk
      · -- the only line feed is the last byte, so nothing is left to come
        rw [if_pos hend]
        rw [eq_nil_of_mem_terminator hraw (List.mem_append_right _ hend) h, List.append_nil] at h
        exact .inl h
      · rw [if_neg hend]
        refine ih (fun c hc => hsizes c (.tail _ hc)) h ?_
        rw [List.flatten_cons, List.length_append] at hlength
        rw [List.length_append]
        omega
    · rw [if_neg hlimit]
      exact .inr ⟨by omega, by omega⟩

theorem takeWhile_line (hraw : (10 : UInt8) ∉ raw) : (raw ++ [10]).takeWhile (· ≠ 10) = raw := by
  rw [List.takeWhile_append_of_pos]
  · simp
  · intro b hb
    exact decide_eq_true fun h => hraw (h ▸ hb)

/-- However a line comes in, the reader returns its text where the line with its end is shorter than the limit,
and raises otherwise. -/
theorem readLineWith_exact (message : String) {s : Str} (hdecode : decodeUtf8 raw = some s)
    (hraw : (10 : UInt8) ∉ raw) (h : Chunking (raw ++ [10]) stream) :
    readLineWith message limit stream =
      if raw.length + 1 < limit then .ok s else .error (.tooLarge message) := by
  unfold readLineWith
  dsimp only
  rcases receive_line limit hraw (fun c hc => (h.sizes c hc).1)
    (show [] ++ stream.flatten = _ from h.flatten) with hread | ⟨hlong, hread⟩
  · -- the whole line is there, and only its length decides
    rw [hread, takeWhile_line hraw, hdecode, List.length_append, List.length_singleton]
    by_cases hlimit : raw.length + 1 < limit
    · rw [if_pos hlimit]
      exact bind_eq_ok.2 ⟨(), raiseIf_eq_ok.2 (Nat.not_le.2 hlimit), rfl⟩
    · rw [if_neg hlimit, raiseIf, if_pos (Nat.not_lt.1 hlimit)]
      rfl
  · -- the loop stopped in the line, which is then too long
    rw [raiseIf, if_pos hread, if_neg (by omega)]
    rfl

/-! ## Requests and replies -/

variable {F : Type} [PyFloat F]

/-- What Python makes of a JSON value. -/
structure Python (F : Type) where
  /-- `str(value)`. -/
  str : Json F → Str
  /-- `int(value)`, or nothing where it raises. -/
  int : Json F → Option ℤ
  /-- `bool(value)`. -/
  bool : Json F → Bool
  str_str : ∀ s, str (.str s) = s
  int_int : ∀ i, int (.int i) = some i
  bool_bool : ∀ b, bool (.bool b) = b

/-- `(json.dumps(value) + "\n").encode("utf-8")`. -/
def jsonLine (value : Json F) : Bytes := encodeUtf8 (value.render ⟨true, true⟩ ++ ['\n'])

/-- `json.loads(_read_line(conn))`, with the attribute `get`. -/
def readObject (reader : List Bytes → Except LineError Str) (stream : List Bytes) :
    Except SocketError (Fields F) := do
  let line ← (reader stream).mapError .line
  match ← orRaise (loads line) .jsonDecodeError with
  | .obj fields => return fields
  | _ => .error .malformed

/-- An object that is written is read back exactly where its line is shorter than the limit. -/
theorem readObject_exact {fields : Fields F} (hwf : (Json.obj fields).WF)
    (hwritable : (Json.obj fields).writable true = true) (h : Chunking (jsonLine (.obj fields)) stream) :
    readObject (readLineWith message limit) stream =
      if ((Json.obj fields).render ⟨true, true⟩).length + 1 < limit then .ok fields
      else .error (.line (.tooLarge message)) := by
  have hprintable := printable_render true (Json.obj fields)
  have hline : jsonLine (Json.obj fields) = encodeUtf8 ((Json.obj fields).render ⟨true, true⟩) ++ [10] := by
    rw [jsonLine, encodeUtf8_append]
    rfl
  unfold readObject
  rw [readLineWith_exact message (decodeUtf8_encodeUtf8 _) (not_mem_encodeUtf8 hprintable) (hline ▸ h),
    length_encodeUtf8_printable hprintable]
  split_ifs
  · have hloads : loads ((Json.obj fields).render ⟨true, true⟩) = some (Json.obj fields) := by
      rw [loads, parse_render _ _ _ hwritable, Option.map_some, Json.dict_of_WF hwf]
    change (do match ← orRaise (loads _) SocketError.jsonDecodeError with
      | .obj fields => return fields
      | _ => .error .malformed : Except SocketError (Fields F)) = _
    rw [hloads]
    rfl
  · rfl

/-- So it is where the bytes of the line are. -/
theorem readObject_accepted {fields : Fields F} (hwf : (Json.obj fields).WF)
    (hwritable : (Json.obj fields).writable true = true) (h : Chunking (jsonLine (.obj fields)) stream)
    (hlimit : (jsonLine (.obj fields)).length < limit) :
    readObject (readLineWith message limit) stream = .ok fields := by
  have hlength : (jsonLine (.obj fields)).length = ((Json.obj fields).render ⟨true, true⟩).length + 1 := by
    rw [jsonLine, encodeUtf8_append, List.length_append,
      length_encodeUtf8_printable (printable_render true (.obj fields))]
    rfl
  rw [readObject_exact hwf hwritable h, if_pos (hlength ▸ hlimit)]

/-- What a handler meets besides the request: whether the peer is let in, what the audit callback does with
an event that is allowed or not, and the text of an exception. -/
structure Server where
  peer : Except Str Unit
  audit : Bool → Except Str Unit
  text : SocketError → Str

/-- The `try` of `_handle`, for what the broker does with a request. -/
def attempt {σ : Type} (S : Server) (reader : List Bytes → Except LineError Str)
    (broker : Fields F → Action σ Str (Fields F)) (stream : List Bytes) : Action σ Str (Fields F) := do
  S.peer
  let request ← (readObject reader stream).mapError S.text
  let payload ← broker request
  S.audit true
  return payload

/-- `_handle(conn)`. A callback that raises on the refusal leaves the connection without a reply. -/
def handle {σ : Type} (S : Server) (reader : List Bytes → Except LineError Str)
    (broker : Fields F → Action σ Str (Fields F)) (stream : List Bytes) : Action σ Str Bytes := fun s =>
  match attempt S reader broker stream s with
  | (.ok payload, s) => (.ok (jsonLine (.obj (("ok".toList, .bool true) :: payload))), s)
  | (.error error, s) => match S.audit false with
    | .ok _ => (.ok (jsonLine (.obj [("ok".toList, .bool false), ("error".toList, (.str error : Json F))])), s)
    | .error error => (.error error, s)

/-- The bytes that a handler sends. -/
def sent (reply : Except Str Bytes) : Bytes := reply.toOption.getD []

/-- What both clients do with a reply before they look into it. -/
def readReply (P : Python F) (reader : List Bytes → Except LineError Str) (refusal : Str)
    (stream : List Bytes) : Except SocketError (Fields F) := do
  let response ← readObject reader stream
  if !((response.get "ok".toList).any P.bool) then
    .error (.refused (((response.get "error".toList).map P.str).getD refusal))
  else return response

/-- What a handler sends, where the broker grants the request and where it does not. -/
theorem handle_exact {σ : Type} {S : Server} {reader : List Bytes → Except LineError Str}
    {broker : Fields F → Action σ Str (Fields F)} {s s' : σ} {request : Fields F}
    {result : Except Str (Fields F)} (hpeer : S.peer = .ok ())
    (hread : readObject reader stream = .ok request) (hbroker : broker request s = (result, s')) :
    (handle S reader broker stream s).2 = s' ∧
      ((∃ payload, result = .ok payload ∧ S.audit true = .ok () ∧
          sent (handle S reader broker stream s).1 = jsonLine (.obj (("ok".toList, .bool true) :: payload))) ∨
        (¬ ((∃ payload, result = .ok payload) ∧ S.audit true = .ok ()) ∧
          (sent (handle S reader broker stream s).1 = [] ∨
            ∃ error, sent (handle S reader broker stream s).1 =
              jsonLine (.obj [("ok".toList, .bool false), ("error".toList, (.str error : Json F))])))) := by
  have hattempt : attempt S reader broker stream s =
      (result.bind fun payload => (S.audit true).map fun _ => payload, s') := by
    unfold attempt
    rw [hpeer, hread]
    simp only [Action.bind_apply, Action.lift_apply, Except.mapError, hbroker]
    rcases result with _ | payload
    · rfl
    · rcases S.audit true with _ | _ <;> rfl
  unfold handle
  rw [hattempt]
  -- a refusal is reported to the callback too, which may raise once more
  rcases result with error | payload
  · rcases S.audit false with error' | _
    · exact ⟨rfl, .inr ⟨(fun ⟨⟨_, h⟩, _⟩ => nomatch h), .inl rfl⟩⟩
    · exact ⟨rfl, .inr ⟨(fun ⟨⟨_, h⟩, _⟩ => nomatch h), .inr ⟨error, rfl⟩⟩⟩
  · rcases haudit : S.audit true with error | _
    · rcases S.audit false with error' | _
      · exact ⟨rfl, .inr ⟨(fun ⟨_, h⟩ => nomatch h), .inl rfl⟩⟩
      · exact ⟨rfl, .inr ⟨(fun ⟨_, h⟩ => nomatch h), .inr ⟨error, rfl⟩⟩⟩
    · exact ⟨rfl, .inl ⟨payload, rfl, rfl, rfl⟩⟩

/-- A reply without `ok` is none to the clients. -/
theorem readReply_refused {P : Python F} {refusal : Str} {reply : Bytes} {fields : Fields F}
    (hreply : reply = [] ∨ ∃ error,
      reply = jsonLine (.obj [("ok".toList, .bool false), ("error".toList, (.str error : Json F))]))
    (h : Chunking reply stream) :
    readReply P (readLineWith message limit) refusal stream ≠ .ok fields := by
  intro hok
  obtain ⟨response, hread, hanswer⟩ := bind_eq_ok.1 hok
  rcases hreply with rfl | ⟨error, rfl⟩
  · -- the connection is closed without a byte, and an empty line is no JSON
    have hnil : stream = [] := by
      rcases stream with _ | ⟨chunk, stream⟩
      · rfl
      · exact absurd (List.append_eq_nil_iff.1 h.flatten).1 (h.sizes _ List.mem_cons_self).1
    rw [hnil] at hread
    obtain ⟨line, hline, hfields⟩ := bind_eq_ok.1 hread
    rcases hempty : readLineWith message limit [] with _ | text
    · rw [hempty] at hline
      cases hline
    · rw [hempty] at hline
      cases hline
      obtain ⟨_, -, hdecode⟩ := bind_eq_ok.1 hempty
      cases hdecode
      obtain ⟨value, hvalue, -⟩ := bind_eq_ok.1 hfields
      cases hvalue
  · rw [readObject_exact (by simp [Json.WF, WFFields]) (by simp [Json.writable, writableFields]) h] at hread
    split_ifs at hread
    cases hread
    rw [if_pos (by simp [Fields.get, P.bool_bool])] at hanswer
    cases hanswer

/-- A reply with `ok` is read back exactly where its line is shorter than the limit. -/
theorem readReply_granted {P : Python F} {refusal : Str} {payload : Fields F}
    (hwf : (Json.obj (("ok".toList, .bool true) :: payload)).WF)
    (hwritable : writableFields true payload = true)
    (h : Chunking (jsonLine (.obj (("ok".toList, .bool true) :: payload))) stream) :
    readReply P (readLineWith message limit) refusal stream =
      if ((Json.obj (("ok".toList, .bool true) :: payload)).render ⟨true, true⟩).length + 1 < limit then
        .ok (("ok".toList, .bool true) :: payload) else .error (.line (.tooLarge message)) := by
  unfold readReply
  rw [readObject_exact hwf (by simpa [Json.writable, writableFields] using hwritable) h]
  split_ifs with hlimit
  · change (if _ then _ else _) = _
    rw [if_neg (by simp [Fields.get, P.bool_bool])]
    rfl
  · rfl

/-! ## Egress -/

/-- `EgressResponse`. -/
structure EgressResponse where
  status : ℤ
  headers : List (Str × Str)
  body : Bytes

/-- What `http.client` and a `dict` give: a status of three digits and distinct names of headers. -/
structure Fetched (response : EgressResponse) : Prop where
  status : 100 ≤ response.status ∧ response.status ≤ 999
  headers : (response.headers.map Prod.fst).Nodup

/-- `headers` as it is written. -/
def headerFields (headers : List (Str × Str)) : Fields F := headers.map fun kv => (kv.1, .str kv.2)

/-- The members of the reply of `EgressBroker._handle` after `ok`. -/
def EgressResponse.payload (response : EgressResponse) : Fields F :=
  [("status".toList, .int response.status), ("headers".toList, .obj (headerFields response.headers)),
    ("body_hex".toList, .str (hexdigest response.body))]

/-- What `EgressBroker._handle` does with a request, for a `fetch` that returns or raises with a text. -/
def egress (P : Python F) (upper : Str → Str) (fetch : Str → Str → Except Str EgressResponse)
    (request : Fields F) : Action Unit Str (Fields F) := do
  let method := upper (((request.get "method".toList).map P.str).getD "GET".toList)
  let url := ((request.get "url".toList).map P.str).getD []
  let response ← fetch method url
  return response.payload

/-- The limit of `EgressBroker._read_line`. -/
def egressLimit : ℕ := 32768

/-- The request of `broker_fetch`. -/
def egressRequest (method url : Str) : Fields F :=
  [("method".toList, .str method), ("url".toList, .str url)]

/-- What `broker_fetch` makes of the reply. -/
def brokerFetch (P : Python F) (stream : List Bytes) : Except SocketError EgressResponse := do
  let response ← readReply P (egressReadLine egressLimit) "egress request denied".toList stream
  let status ← orRaise ((response.get "status".toList).bind P.int) .malformed
  let headers ← match response.get "headers".toList with
    | none => .ok []
    | some (.obj fields) => .ok (fields.map fun kv => (kv.1, P.str kv.2))
    | some _ => .error .malformed
  let body ← match response.get "body_hex".toList with
    | some (.str text) => orRaise (Approval.fromHex text) .malformed
    | _ => .error .malformed
  return ⟨status, headers, body⟩

/-- The length of the reply's line, with its end. -/
def EgressResponse.lineLength (F : Type) [PyFloat F] (response : EgressResponse) : ℕ :=
  57 + ((Json.obj (headerFields response.headers : Fields F)).render ⟨true, true⟩).length +
    2 * response.body.length

theorem fromHex_hexdigest (b : Bytes) : Approval.fromHex (hexdigest b) = some b := by
  have hdigit : ∀ n < 16, Approval.hexDigit (Nat.digitChar n) = some n := by decide
  induction b with
  | nil => rfl
  | cons x b ih =>
    have hlt : x.toNat < 256 := x.toNat_lt
    rw [hexdigest_cons, Approval.fromHex, hdigit _ (by omega), hdigit _ (by omega), ih]
    have hbyte : 16 * (x.toNat / 16) + x.toNat % 16 = x.toNat := by omega
    change some (UInt8.ofNat (16 * (x.toNat / 16) + x.toNat % 16) :: b) = _
    rw [hbyte, UInt8.ofNat_toNat]

/-- Hexadecimal is written as it is. -/
theorem renderStr_hexdigest (b : Bytes) : renderStr true (hexdigest b) = '"' :: hexdigest b ++ ['"'] := by
  have hdigit : ∀ n < 16, escapeChar true (Nat.digitChar n) = [Nat.digitChar n] := by decide
  have hsame : ∀ c ∈ hexdigest b, escapeChar true c = [c] := forall_mem_hexdigest hdigit b
  rw [renderStr, List.flatMap_congr hsame, List.flatMap_singleton']

theorem length_renderInt {status : ℤ} (h : 100 ≤ status ∧ status ≤ 999) :
    (renderInt status).length = 3 := by
  obtain ⟨n, rfl⟩ := Int.eq_ofNat_of_zero_le (by omega : 0 ≤ status)
  have hle : (Nat.toDigits 10 n).length ≤ 3 :=
    (Nat.length_toDigits_le_iff (by omega) (by omega)).2 (by omega)
  have hlt : ¬ (Nat.toDigits 10 n).length ≤ 2 := fun hle =>
    absurd ((Nat.length_toDigits_le_iff (by omega) (by omega)).1 hle) (by omega)
  rw [renderInt, if_neg (by omega), Int.natAbs_natCast]
  omega

theorem length_egress_reply {response : EgressResponse} (h : Fetched response) :
    ((Json.obj (("ok".toList, .bool true) :: response.payload : Fields F)).render ⟨true, true⟩).length + 1 =
      response.lineLength F := by
  have hok : (renderStr true "ok".toList).length = 4 := rfl
  have hstatus : (renderStr true "status".toList).length = 8 := rfl
  have hheaders : (renderStr true "headers".toList).length = 9 := rfl
  have hbody : (renderStr true "body_hex".toList).length = 10 := rfl
  have htrue : ("true".toList).length = 4 := rfl
  rw [EgressResponse.payload, EgressResponse.lineLength]
  simp only [Json.render, renderFields, Style.pad, if_true, List.length_cons, List.length_append,
    List.length_nil, hok, hstatus, hheaders, hbody, htrue, length_renderInt h.status, renderStr_hexdigest,
    length_hexdigest]
  omega

omit [PyFloat F] in
theorem headers_wf (headers : List (Str × Str)) : WFFields (headerFields headers : Fields F) := by
  induction headers with
  | nil => trivial
  | cons kv headers ih => exact ⟨trivial, ih⟩

theorem headers_writable (headers : List (Str × Str)) :
    writableFields true (headerFields headers : Fields F) = true := by
  induction headers with
  | nil => rfl
  | cons kv headers ih =>
    rw [headerFields, List.map_cons, writableFields, ← headerFields, ih]
    rfl

omit [PyFloat F] in
theorem payload_wf {response : EgressResponse} (h : Fetched response) :
    (Json.obj (("ok".toList, .bool true) :: response.payload : Fields F)).WF := by
  have hheaders : ((headerFields response.headers : Fields F).map Prod.fst).Nodup := by
    rw [headerFields, List.map_map]
    exact h.headers
  refine ⟨?_, trivial, trivial, ⟨hheaders, headers_wf _⟩, trivial, trivial⟩
  change ["ok".toList, "status".toList, "headers".toList, "body_hex".toList].Nodup
  decide

theorem payload_writable {response : EgressResponse} (h : Fetched response) :
    writableFields true (response.payload : Fields F) = true := by
  have hdigits : (Nat.toDigits 10 response.status.natAbs).length ≤ maxIntDigits := by
    have hle := (Nat.length_toDigits_le_iff (b := 10) (n := response.status.natAbs) (k := 3)
      (by omega) (by omega)).2 (by have := h.status; omega)
    exact hle.trans (by decide)
  simp only [EgressResponse.payload, writableFields, Json.writable, headers_writable, Bool.and_true,
    decide_eq_true hdigits]

/-- A call of `broker_fetch` that the socket layer accepts and for which `fetch` returns a response: however
the bytes come in, it is answered with that response exactly where the callback does not raise and the line of
the reply is shorter than the limit. -/
theorem egress_delivered (P : Python F) (upper : Str → Str)
    (fetch : Str → Str → Except Str EgressResponse) (S : Server) (method url : Str)
    (response : EgressResponse) (request reply : List Bytes) (hpeer : S.peer = .ok ())
    (hrequest : Chunking (jsonLine (.obj (egressRequest method url : Fields F))) request)
    (haccepted : (jsonLine (.obj (egressRequest method url : Fields F))).length < egressLimit)
    (hfetch : fetch (upper method) url = .ok response) (hfetched : Fetched response)
    (hreply : Chunking (sent (handle S (egressReadLine egressLimit) (egress P upper fetch) request ()).1) reply) :
    brokerFetch P reply = .ok response ↔
      S.audit true = .ok () ∧ response.lineLength F < egressLimit := by
  have hread : readObject (egressReadLine egressLimit) request = .ok (egressRequest method url : Fields F) :=
    readObject_accepted (by simp [egressRequest, Json.WF, WFFields])
      (by simp [egressRequest, Json.writable, writableFields]) hrequest haccepted
  have hgrant : egress P upper fetch (egressRequest method url : Fields F) () = (.ok response.payload, ()) := by
    have hcall : egress P upper fetch (egressRequest method url : Fields F) =
        (do let response ← fetch (upper method) url; return response.payload) := by
      unfold egress
      rw [show (egressRequest method url : Fields F).get "method".toList = some (.str method) from rfl,
        show (egressRequest method url : Fields F).get "url".toList = some (.str url) from rfl]
      simp only [Option.map_some, Option.getD_some, P.str_str]
    rw [hcall, hfetch]
    rfl
  obtain ⟨-, ⟨payload, hpayload, haudit, hsent⟩ | ⟨hnot, hsent⟩⟩ := handle_exact hpeer hread hgrant
  · cases hpayload
    rw [hsent] at hreply
    unfold brokerFetch egressReadLine
    rw [readReply_granted (payload_wf hfetched) (payload_writable hfetched) hreply,
      length_egress_reply hfetched]
    by_cases hlimit : response.lineLength F < egressLimit
    · rw [if_pos hlimit]
      refine iff_of_true ?_ ⟨haudit, hlimit⟩
      have hheaders : (headerFields response.headers : Fields F).map (fun kv => (kv.1, P.str kv.2)) =
          response.headers := by
        rw [headerFields, List.map_map]
        simp only [Function.comp_def, P.str_str, List.map_id']
      refine bind_eq_ok.2 ⟨_, rfl, bind_eq_ok.2 ⟨response.status, orRaise_eq_ok.2 (P.int_int _),
        bind_eq_ok.2 ⟨response.headers, congrArg Except.ok hheaders, bind_eq_ok.2 ⟨response.body, ?_, rfl⟩⟩⟩⟩
      exact orRaise_eq_ok.2 (fromHex_hexdigest _)
    · rw [if_neg hlimit]
      exact iff_of_false (fun h => by cases h) fun h => hlimit h.2
  · refine iff_of_false (fun hok => ?_) fun h => hnot ⟨⟨_, rfl⟩, h.1⟩
    obtain ⟨fields, hfields, -⟩ := bind_eq_ok.1 hok
    exact readReply_refused hsent hreply hfields

/-! ## Secrets -/

section Secrets

open Secrets

variable {T : Type} [LT T] [DecidableLT T]

/-- An action whose exceptions are kept by their text. -/
def describe {σ α : Type} (text : Exc → Str) (m : Action σ Exc α) : Action σ Str α := fun s =>
  ((m s).1.mapError text, (m s).2)

/-- What `SecretBroker._handle` does with a request at a time. -/
def secret (P : Python F) (text : Exc → Str) (now : T) (request : Fields F) :
    Action (SecretBroker T) Str (Fields F) := do
  match request.get "op".toList with
  | some (.str op) => raiseIf (op ≠ "get".toList) "unsupported operation".toList
  | _ => raiseIf True "unsupported operation".toList
  let token := ((request.get "token".toList).map P.str).getD []
  let name := ((request.get "name".toList).map P.str).getD []
  let sandboxId := match request.get "sandbox_id".toList with
    | none | some .null => none
    | some value => some (P.str value)
  let value ← describe text (authorizeAndGet ⟨token, name, sandboxId, now⟩)
  return [("name".toList, .str name), ("value".toList, .str value)]

/-- The limit of `SecretBroker._read_line`. -/
def secretLimit : ℕ := 16384

/-- The request of `request_secret`. -/
def secretRequest (access : Access T) : Fields F :=
  [("op".toList, .str "get".toList), ("token".toList, .str access.token), ("name".toList, .str access.name)] ++
    access.sandboxId.toList.map fun sandboxId => ("sandbox_id".toList, .str sandboxId)

/-- What `request_secret` makes of the reply. -/
def requestSecret (P : Python F) (stream : List Bytes) : Except SocketError Str := do
  let response ← readReply P (secretReadLine secretLimit) "secret request failed".toList stream
  let value ← orRaise (response.get "value".toList) .malformed
  return P.str value

/-- The length of the line of a reply with a secret, with its end. -/
def secretLineLength (name value : Str) : ℕ :=
  34 + (renderStr true name).length + (renderStr true value).length

/-- A grant that authorises an access: it is found, in time and passes the checks, and the secret is
there. -/
structure Authorised (broker : SecretBroker T) (access : Access T) (value : Str) : Prop where
  grant : ∃ grant, findGrant access.token broker.grants.entries = .ok (some grant) ∧
    ¬ grant.expiresAt < access.now ∧ checkAccess access grant (usesOf access.token broker) = .ok ()
  secret : broker.secrets.lookup access.name = some value

/-- An authorised access is counted, and gives the secret where the verifier takes the event. -/
theorem authorizeAndGet_authorised {broker : SecretBroker T} {access : Access T} {value : Str}
    (h : Authorised broker access value) :
    usesOf access.token (authorizeAndGet access broker).2 = usesOf access.token broker + 1 ∧
      (authorizeAndGet access broker).1 =
        (broker.trace.state.applyTransition .returnSecret).map fun _ => value := by
  obtain ⟨⟨grant, hfind, hfresh, hcheck⟩, hvalue⟩ := h
  have hserve : authorizeAndGet access broker = serve access grant broker := by
    unfold authorizeAndGet
    rw [Action.read_bind_apply, hfind]
    change (if grant.expiresAt < access.now then expire access.token else serve access grant) broker = _
    rw [if_neg hfresh]
  rw [hserve, serve_of_ok hcheck hvalue]
  have huses : usesOf access.token (counting access.token broker) = usesOf access.token broker + 1 := by
    rw [usesOf, counting, AList.lookup_insert]
    rfl
  refine ⟨huses, ?_⟩
  have hemit : (emit .returnSecret (counting access.token broker)).1 =
      (broker.trace.state.applyTransition .returnSecret).map fun _ => () := by
    change (RuntimeTraceVerifier.emit .returnSecret broker.trace).1 = _
    unfold RuntimeTraceVerifier.emit
    rw [Action.read_bind_apply]
    rcases broker.trace.state.applyTransition .returnSecret with _ | _ <;> rfl
  rw [hemit]
  rcases broker.trace.state.applyTransition .returnSecret with _ | _ <;> rfl

theorem length_secret_reply (name value : Str) :
    ((Json.obj [("ok".toList, .bool true), ("name".toList, .str name), ("value".toList, (.str value : Json F))]
      ).render ⟨true, true⟩).length + 1 = secretLineLength name value := by
  have hok : (renderStr true "ok".toList).length = 4 := rfl
  have hname : (renderStr true "name".toList).length = 6 := rfl
  have hvalue : (renderStr true "value".toList).length = 7 := rfl
  have htrue : ("true".toList).length = 4 := rfl
  rw [secretLineLength]
  simp only [Json.render, renderFields, Style.pad, if_true, List.length_cons, List.length_append,
    List.length_nil, hok, hname, hvalue, htrue]
  omega

omit [PyFloat F] in
/-- The request is read as the access that it was made of. -/
theorem secret_request (P : Python F) (text : Exc → Str) (access : Access T) :
    secret P text access.now (secretRequest access : Fields F) = (do
      let value ← describe text (authorizeAndGet access)
      return [("name".toList, .str access.name), ("value".toList, .str value)]) := by
  have hop : (secretRequest access : Fields F).get "op".toList = some (.str "get".toList) := rfl
  have htoken : (secretRequest access : Fields F).get "token".toList = some (.str access.token) := rfl
  have hname : (secretRequest access : Fields F).get "name".toList = some (.str access.name) := rfl
  have hsandbox : (match (secretRequest access : Fields F).get "sandbox_id".toList with
      | none | some .null => none
      | some value => some (P.str value)) = access.sandboxId := by
    unfold secretRequest
    rcases access.sandboxId with _ | sandboxId
    · rfl
    · exact congrArg some (P.str_str sandboxId)
  unfold secret
  rw [hop, htoken, hname, hsandbox]
  simp only [Option.map_some, Option.getD_some, P.str_str]
  rfl

omit [LT T] [DecidableLT T] in
theorem secretRequest_wf (access : Access T) : (Json.obj (secretRequest access : Fields F)).WF ∧
    (Json.obj (secretRequest access : Fields F)).writable true = true := by
  unfold secretRequest
  rcases access.sandboxId with _ | sandboxId
  · refine ⟨⟨?_, trivial, trivial, trivial, trivial⟩, rfl⟩
    change ["op".toList, "token".toList, "name".toList].Nodup
    decide
  · refine ⟨⟨?_, trivial, trivial, trivial, trivial, trivial⟩, rfl⟩
    change ["op".toList, "token".toList, "name".toList, "sandbox_id".toList].Nodup
    decide

/-- A call of `request_secret` that the socket layer accepts and a grant authorises: a use is counted, and
however the bytes come in, the secret is delivered exactly where the verifier takes the event, the callback does
not raise and the line of the reply is shorter than the limit. -/
theorem secret_delivered (P : Python F) (text : Exc → Str) (S : Server) (broker : SecretBroker T)
    (access : Access T) (value : Str) (request reply : List Bytes) (hpeer : S.peer = .ok ())
    (hrequest : Chunking (jsonLine (.obj (secretRequest access : Fields F))) request)
    (haccepted : (jsonLine (.obj (secretRequest access : Fields F))).length < secretLimit)
    (hauthorised : Authorised broker access value)
    (hreply : Chunking (sent (handle S (secretReadLine secretLimit) (secret P text access.now)
      request broker).1) reply) :
    usesOf access.token (handle S (secretReadLine secretLimit) (secret P text access.now) request broker).2 =
        usesOf access.token broker + 1 ∧
      (requestSecret P reply = .ok value ↔
        (∃ next, broker.trace.state.applyTransition .returnSecret = .ok next) ∧ S.audit true = .ok () ∧
          secretLineLength access.name value < secretLimit) := by
  obtain ⟨hwf, hwritable⟩ := secretRequest_wf (F := F) access
  have hread : readObject (secretReadLine secretLimit) request = .ok (secretRequest access : Fields F) :=
    readObject_accepted hwf hwritable hrequest haccepted
  obtain ⟨huses, hvalue⟩ := authorizeAndGet_authorised hauthorised
  have hbroker : secret P text access.now (secretRequest access : Fields F) broker =
      (((broker.trace.state.applyTransition .returnSecret).mapError text).map fun _ =>
        [("name".toList, .str access.name), ("value".toList, .str value)],
        (authorizeAndGet access broker).2) := by
    rw [secret_request, Action.bind_apply, describe, hvalue]
    rcases broker.trace.state.applyTransition .returnSecret with _ | _ <;> rfl
  obtain ⟨hstate, hsent⟩ := handle_exact hpeer hread hbroker
  refine ⟨by rw [hstate, huses], ?_⟩
  rcases hsent with ⟨payload, hpayload, haudit, hsent⟩ | ⟨hnot, hsent⟩
  · rw [hsent] at hreply
    rcases htrace : broker.trace.state.applyTransition .returnSecret with e | next
    · rw [htrace] at hpayload
      cases hpayload
    · rw [htrace] at hpayload
      cases hpayload
      have hwf : (Json.obj [("ok".toList, .bool true), ("name".toList, .str access.name),
          ("value".toList, (.str value : Json F))]).WF := by
        refine ⟨?_, trivial, trivial, trivial, trivial⟩
        change ["ok".toList, "name".toList, "value".toList].Nodup
        decide
      unfold requestSecret secretReadLine
      rw [readReply_granted hwf rfl hreply, length_secret_reply]
      by_cases hlimit : secretLineLength access.name value < secretLimit
      · rw [if_pos hlimit]
        refine iff_of_true (bind_eq_ok.2 ⟨_, rfl, bind_eq_ok.2 ⟨_, orRaise_eq_ok.2 rfl, ?_⟩⟩)
          ⟨⟨next, rfl⟩, haudit, hlimit⟩
        exact congrArg Except.ok (P.str_str value)
      · rw [if_neg hlimit]
        exact iff_of_false nofun fun h => hlimit h.2.2
  · refine iff_of_false (fun hok => ?_) fun ⟨⟨next, hnext⟩, haudit, _⟩ =>
      hnot ⟨⟨[("name".toList, .str access.name), ("value".toList, .str value)], ?_⟩, haudit⟩
    · obtain ⟨fields, hfields, -⟩ := bind_eq_ok.1 hok
      exact readReply_refused hsent hreply hfields
    · rw [hnext]
      rfl

/-- Both clients get what the broker granted exactly where nothing raises on the way and the line of the reply is
shorter than their limit. -/
theorem delivery_exact (P : Python F) (S : Server) (hpeer : S.peer = .ok ()) :
    (∀ (upper : Str → Str) (fetch : Str → Str → Except Str EgressResponse) (method url : Str)
      (response : EgressResponse) (request reply : List Bytes),
      Chunking (jsonLine (.obj (egressRequest method url : Fields F))) request →
      (jsonLine (.obj (egressRequest method url : Fields F))).length < egressLimit →
      fetch (upper method) url = .ok response → Fetched response →
      Chunking (sent (handle S (egressReadLine egressLimit) (egress P upper fetch) request ()).1) reply →
      (brokerFetch P reply = .ok response ↔
        S.audit true = .ok () ∧ response.lineLength F < egressLimit)) ∧
    ∀ (text : Exc → Str) (broker : SecretBroker T) (access : Access T) (value : Str)
      (request reply : List Bytes),
      Chunking (jsonLine (.obj (secretRequest access : Fields F))) request →
      (jsonLine (.obj (secretRequest access : Fields F))).length < secretLimit →
      Authorised broker access value →
      Chunking (sent (handle S (secretReadLine secretLimit) (secret P text access.now) request broker).1) reply →
      usesOf access.token (handle S (secretReadLine secretLimit) (secret P text access.now) request broker).2 =
          usesOf access.token broker + 1 ∧
        (requestSecret P reply = .ok value ↔
          (∃ next, broker.trace.state.applyTransition .returnSecret = .ok next) ∧ S.audit true = .ok () ∧
            secretLineLength access.name value < secretLimit) :=
  ⟨fun upper fetch method url response request reply hrequest haccepted hfetch hfetched hreply =>
    egress_delivered P upper fetch S method url response request reply hpeer hrequest haccepted hfetch hfetched
      hreply,
    fun text broker access value request reply hrequest haccepted hauthorised hreply =>
    secret_delivered P text S broker access value request reply hpeer hrequest haccepted hauthorised hreply⟩

end Secrets

/-! ## Samples -/

/-- A Python that makes nothing of other values. -/
def samplePython : Python Literal where
  str
    | .str s => s
    | _ => []
  int
    | .int i => some i
    | _ => none
  bool
    | .bool b => b
    | _ => true
  str_str := Json.asStr_str (F := Literal)
  int_int := Json.asInt_int (F := Literal)
  bool_bool _ := rfl

/-- A server without callbacks that raise. -/
def sampleServer : Server := ⟨.ok (), fun _ => .ok (), fun _ => []⟩

/-- Bytes that come in one by one. -/
theorem chunking_single (data : Bytes) : Chunking data (data.map fun b => [b]) := by
  refine ⟨by rw [← List.flatMap_def, List.flatMap_singleton'], fun chunk hchunk => ?_⟩
  obtain ⟨b, -, rfl⟩ := List.mem_map.1 hchunk
  exact ⟨List.cons_ne_nil _ _, by simp⟩

/-- A response with a body of this many bytes. -/
def sampleResponse (size : ℕ) : EgressResponse := ⟨200, [], List.replicate size 0⟩

theorem sampleResponse_fetched (size : ℕ) : Fetched (sampleResponse size) :=
  ⟨show (100 : ℤ) ≤ 200 ∧ (200 : ℤ) ≤ 999 by decide, List.nodup_nil⟩

theorem sampleResponse_lineLength (size : ℕ) : (sampleResponse size).lineLength Literal = 59 + 2 * size := by
  rw [EgressResponse.lineLength, sampleResponse, List.length_replicate]
  rfl

/-- The request for a sample. -/
def sampleRequest : List Bytes :=
  (jsonLine (.obj (egressRequest "GET".toList "https://a/".toList : Fields Literal))).map fun b => [b]

/-- What the server sends for a sample. -/
def sampleReply (size : ℕ) : List Bytes :=
  (sent (handle sampleServer (egressReadLine egressLimit)
    (egress samplePython id fun _ _ => .ok (sampleResponse size)) sampleRequest ()).1).map fun b => [b]

theorem sampleRequest_accepted :
    (jsonLine (.obj (egressRequest "GET".toList "https://a/".toList : Fields Literal))).length < egressLimit := by
  decide

section

open Secrets

/-- A broker with a secret and a grant of one use. -/
def grantedBroker : SecretBroker ℕ := Secrets.run (created false) (oneRead.take 2)

theorem grantedBroker_authorised : Authorised grantedBroker smallAccess "value".toList where
  grant := by
    refine ⟨_, rfl, ?_, ?_⟩
    · decide +kernel
    · decide +kernel
  secret := by decide +kernel

/-- The request for the secret. -/
def secretChunks : List Bytes :=
  (jsonLine (.obj (secretRequest smallAccess : Fields Literal))).map fun b => [b]

/-- What the server sends for it. -/
def secretReply : List Bytes :=
  (sent (handle sampleServer (secretReadLine secretLimit)
    (secret samplePython (fun _ => []) smallAccess.now) secretChunks grantedBroker).1).map fun b => [b]

/-- A small response and a small secret are delivered. -/
theorem small_response_delivered :
    brokerFetch samplePython (sampleReply 5) = .ok (sampleResponse 5) ∧
    requestSecret samplePython secretReply = .ok "value".toList ∧
    usesOf smallAccess.token (handle sampleServer (secretReadLine secretLimit)
      (secret samplePython (fun _ => []) smallAccess.now) secretChunks grantedBroker).2 = 1 := by
  obtain ⟨hegress, hsecret⟩ := delivery_exact (T := ℕ) samplePython sampleServer rfl
  constructor
  · refine (hegress id (fun _ _ => .ok (sampleResponse 5)) "GET".toList "https://a/".toList (sampleResponse 5)
      sampleRequest (sampleReply 5) (chunking_single _) sampleRequest_accepted rfl (sampleResponse_fetched 5)
      (chunking_single _)).2 ⟨rfl, ?_⟩
    rw [sampleResponse_lineLength]
    decide
  · obtain ⟨huses, hdelivered⟩ := hsecret (fun _ => []) grantedBroker smallAccess "value".toList secretChunks
      secretReply (chunking_single _) (by decide) grantedBroker_authorised (chunking_single _)
    refine ⟨hdelivered.2 ⟨⟨_, rfl⟩, rfl, by decide⟩, huses.trans ?_⟩
    decide +kernel

end

/-- A response that `fetch` returns is not delivered where its body has 16384 bytes. -/
theorem large_response_lost : Fetched (sampleResponse 16384) ∧
    Chunking (jsonLine (.obj (egressRequest "GET".toList "https://a/".toList : Fields Literal)))
      sampleRequest ∧
    (jsonLine (.obj (egressRequest "GET".toList "https://a/".toList : Fields Literal))).length < egressLimit ∧
    Chunking (sent (handle sampleServer (egressReadLine egressLimit) (egress samplePython id
      fun _ _ => .ok (sampleResponse 16384)) sampleRequest ()).1) (sampleReply 16384) ∧
    brokerFetch samplePython (sampleReply 16384) ≠ .ok (sampleResponse 16384) := by
  refine ⟨sampleResponse_fetched _, chunking_single _, sampleRequest_accepted, chunking_single _, fun h => ?_⟩
  have hlong := ((egress_delivered samplePython id (fun _ _ => .ok (sampleResponse 16384)) sampleServer
    "GET".toList "https://a/".toList (sampleResponse 16384) sampleRequest (sampleReply 16384) rfl
    (chunking_single _) sampleRequest_accepted rfl (sampleResponse_fetched _) (chunking_single _)).1 h).2
  rw [sampleResponse_lineLength] at hlong
  exact absurd hlong (by decide)

end Bulldog.Sockets
