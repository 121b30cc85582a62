import Bulldog.Approval.Hardware

/-!
# The packets of `BULL-AUTH-1`

A packet is eleven bytes of magic, a byte for its kind or its decision, fields of 32 bytes and numbers
in network byte order. A width that is fixed is what makes the parts recoverable: a packet is the
concatenation of its slices, and the slices of a concatenation are its parts.
-/

namespace Bulldog.Approval

/-! ## Numbers -/

theorem length_bigEndian (length n : ℕ) : (bigEndian length n).length = length := by
  induction length generalizing n with
  | zero => rfl
  | succ length ih => rw [bigEndian, List.length_append, ih, List.length_singleton]

theorem fromBytes_concat (value : Bytes) (b : UInt8) :
    fromBytes (value ++ [b]) = fromBytes value * 256 + b.toNat := by
  rw [fromBytes, List.foldl_append]
  rfl

/-- A number that fits is read back. -/
theorem fromBytes_bigEndian {length n : ℕ} (h : n < 256 ^ length) :
    fromBytes (bigEndian length n) = n := by
  induction length generalizing n with
  | zero =>
    obtain rfl : n = 0 := by simpa using h
    rfl
  | succ length ih =>
    have hhigh : n / 256 < 256 ^ length := by
      rw [Nat.div_lt_iff_lt_mul (by omega), ← Nat.pow_succ]
      exact h
    have hlow : (UInt8.ofNat (n % 256)).toNat = n % 256 := by
      rw [UInt8.toNat_ofNat']
      omega
    rw [bigEndian, fromBytes_concat, ih hhigh, hlow]
    omega

/-- Bytes are those of the number that they are read as. -/
theorem bigEndian_fromBytes (value : Bytes) : bigEndian value.length (fromBytes value) = value := by
  induction value using List.reverseRecOn with
  | nil => rfl
  | append_singleton value b ih =>
    have hb : b.toNat < 256 := b.toNat_lt
    have hhigh : (fromBytes value * 256 + b.toNat) / 256 = fromBytes value := by omega
    have hlow : (fromBytes value * 256 + b.toNat) % 256 = b.toNat := by omega
    rw [fromBytes_concat, List.length_append, List.length_singleton, bigEndian, hhigh, hlow, ih,
      UInt8.ofNat_toNat]

theorem fromBytes_lt (value : Bytes) : fromBytes value < 256 ^ value.length := by
  induction value using List.reverseRecOn with
  | nil => exact Nat.one_pos
  | append_singleton value b ih =>
    have hb : b.toNat < 256 := b.toNat_lt
    rw [fromBytes_concat, List.length_append, List.length_singleton, Nat.pow_succ]
    omega

/-! ## Fields -/

/-- The `n` fields of 32 bytes at the front. -/
def fieldsOf (n : ℕ) (body : Bytes) : List Bytes :=
  (List.range n).map fun i => (body.drop (32 * i)).take 32

theorem fieldsOf_succ (n : ℕ) (body : Bytes) :
    fieldsOf (n + 1) body = body.take 32 :: fieldsOf n (body.drop 32) := by
  rw [fieldsOf, List.range_succ_eq_map, List.map_cons, List.map_map, fieldsOf]
  refine congrArg₂ List.cons (by simp) (List.map_congr_left fun i _ => ?_)
  rw [Function.comp_apply, List.drop_drop, Nat.mul_succ, Nat.add_comm]

/-- The fields are what is at the front. -/
theorem flatten_fieldsOf (n : ℕ) (body : Bytes) : (fieldsOf n body).flatten = body.take (32 * n) := by
  induction n generalizing body with
  | zero => simp [fieldsOf]
  | succ n ih =>
    rw [fieldsOf_succ, List.flatten_cons, ih, Nat.mul_succ, Nat.add_comm, List.take_add]

/-- The fields of a concatenation are its parts. -/
theorem fieldsOf_flatten {fields : List Bytes} (h : ∀ field ∈ fields, field.length = 32)
    (rest : Bytes) : fieldsOf fields.length (fields.flatten ++ rest) = fields := by
  induction fields with
  | nil => rfl
  | cons field fields ih =>
    have hfield : field.length = 32 := h field List.mem_cons_self
    rw [List.length_cons, fieldsOf_succ, List.flatten_cons, List.append_assoc, ← hfield, List.take_left,
      List.drop_left, ih fun f hf => h f (List.mem_cons_of_mem _ hf)]

theorem length_flatten {fields : List Bytes} (h : ∀ field ∈ fields, field.length = 32) :
    fields.flatten.length = 32 * fields.length := by
  induction fields with
  | nil => rfl
  | cons field fields ih =>
    rw [List.flatten_cons, List.length_append, h field List.mem_cons_self, List.length_cons,
      ih fun f hf => h f (List.mem_cons_of_mem _ hf), Nat.mul_succ, Nat.add_comm]

theorem length_of_mem_fieldsOf {n : ℕ} {body : Bytes} (h : 32 * n ≤ body.length) :
    ∀ field ∈ fieldsOf n body, field.length = 32 := by
  intro field hfield
  obtain ⟨i, hi, rfl⟩ := List.mem_map.1 hfield
  have hi : i < n := List.mem_range.1 hi
  rw [List.length_take, List.length_drop]
  omega

theorem fixed_eq_ok {value v : Bytes} {length : ℕ} :
    fixed value length = .ok v ↔ value.length = length ∧ v = value := by
  unfold fixed
  split_ifs with h
  · simp [h]
  · rw [not_not] at h
    simp [h, eq_comm]

theorem mapM_fixed_eq_ok {fields fields' : List Bytes} :
    (fields.mapM fun field => fixed field 32) = .ok fields' ↔
      (∀ field ∈ fields, field.length = 32) ∧ fields' = fields := by
  induction fields generalizing fields' with
  | nil => simp [pure, Except.pure, eq_comm]
  | cons field fields ih =>
    rw [List.mapM_cons]
    simp only [bind_eq_ok, fixed_eq_ok, ih, List.forall_mem_cons]
    constructor
    · rintro ⟨f, ⟨hf, rfl⟩, fs, ⟨hfs, rfl⟩, hpure⟩
      exact ⟨⟨hf, hfs⟩, (Except.ok.inj hpure).symm⟩
    · rintro ⟨⟨hf, hfs⟩, rfl⟩
      exact ⟨_, ⟨hf, rfl⟩, _, ⟨hfs, rfl⟩, rfl⟩

/-! ## Packets -/

/-- A packet of some kind, with its fields and what comes after them. -/
def packetOf (kind : UInt8) (fields : List Bytes) (rest : Bytes) : Bytes :=
  protocol ++ kind :: (fields.flatten ++ rest)

section

variable {kind : UInt8} {fields : List Bytes} {rest packet : Bytes}

theorem take_packetOf : (packetOf kind fields rest).take 11 = protocol := rfl

theorem drop_packetOf : (packetOf kind fields rest).drop 11 = kind :: (fields.flatten ++ rest) := rfl

theorem body_packetOf : (packetOf kind fields rest).drop 12 = fields.flatten ++ rest := rfl

theorem rest_packetOf (h : ∀ field ∈ fields, field.length = 32) :
    (packetOf kind fields rest).drop (12 + 32 * fields.length) = rest := by
  rw [← List.drop_drop, body_packetOf, ← length_flatten h, List.drop_left]

theorem length_packetOf (h : ∀ field ∈ fields, field.length = 32) :
    (packetOf kind fields rest).length = 12 + 32 * fields.length + rest.length := by
  have hprotocol : protocol.length = 11 := rfl
  rw [packetOf, List.length_append, List.length_cons, List.length_append, length_flatten h, hprotocol]
  omega

/-- A packet with the magic is put together from its slices. -/
theorem eq_packetOf (n : ℕ) (hmagic : packet.take 11 = protocol)
    (hkind : packet.drop 11 = kind :: packet.drop 12) :
    packet = packetOf kind (fieldsOf n (packet.drop 12)) (packet.drop (12 + 32 * n)) := by
  rw [packetOf, flatten_fieldsOf, ← List.drop_drop, List.take_append_drop, ← hmagic, ← hkind,
    List.take_append_drop]

theorem kind_of_drop {more : Bytes} (h : packet.drop 11 = kind :: more) :
    packet.drop 11 = kind :: packet.drop 12 := by
  rw [h, show 12 = 11 + 1 from rfl, ← List.drop_drop, h]
  rfl

end

/-! ## Requests -/

/-- The eight fields. -/
def Request.fields (r : Request) : List Bytes :=
  [r.requestId, r.sessionDigest, r.actionDigest, r.operationDigest, r.resourceDigest,
    r.parameterDigest, r.policyDigest, r.nonce]

/-- The lifetime that both directions ask for. -/
def Request.Fresh (r : Request) : Prop :=
  0 ≤ r.created ∧ r.created < r.expires ∧ r.expires < 2 ^ 64 ∧ r.expires - r.created ≤ 30

/-- `Request.decode(packet)`. -/
def Request.decode (packet : Bytes) : Except Exc Request := do
  let packet ← fixed packet 284
  let field (i : ℕ) : Bytes := (packet.drop (12 + 32 * i)).take 32
  raiseIf (packet.take 11 ≠ protocol ∨ packet[11]? ≠ some 1)
    (approvalError "unsupported hardware request")
  let value : Request := ⟨field 0, field 1, field 2, field 3, field 4, field 5, field 6, field 7,
    fromBytes ((packet.drop 268).take 8), fromBytes (packet.drop 276)⟩
  let _ ← value.encode
  return value

theorem Request.encode_eq_ok {r : Request} {packet : Bytes} : r.encode = .ok packet ↔
    r.Fresh ∧ (∀ field ∈ r.fields, field.length = 32) ∧ packet = packetOf 1 r.fields
      (bigEndian 8 r.created.toNat ++ bigEndian 8 r.expires.toNat) := by
  have hfresh : (¬ (¬ (0 ≤ r.created ∧ r.created < r.expires ∧ r.expires < 2 ^ 64) ∨
      r.expires - r.created > 30)) ↔ r.Fresh := by
    unfold Request.Fresh
    omega
  unfold Request.encode
  simp only [bind_eq_ok, raiseIf_eq_ok, hfresh]
  constructor
  · rintro ⟨-, h, fields, hfields, hpacket⟩
    obtain ⟨hall, rfl⟩ := mapM_fixed_eq_ok.1 hfields
    refine ⟨h, hall, (Except.ok.inj hpacket).symm.trans ?_⟩
    simp only [packetOf, List.append_assoc, List.cons_append, Request.fields]
  · rintro ⟨h, hall, rfl⟩
    refine ⟨(), h, _, mapM_fixed_eq_ok.2 ⟨hall, rfl⟩, congrArg Except.ok ?_⟩
    simp only [packetOf, List.append_assoc, List.cons_append, Request.fields]

/-- A packet decodes to a request exactly where the request encodes to it. -/
theorem Request.decode_eq_ok {packet : Bytes} {r : Request} :
    Request.decode packet = .ok r ↔ r.encode = .ok packet := by
  constructor
  · intro h
    simp only [Request.decode, bind_eq_ok, fixed_eq_ok, raiseIf_eq_ok, not_or, not_not] at h
    obtain ⟨packet, ⟨hlen, rfl⟩, -, ⟨hmagic, hkind⟩, encoded, hencoded, hr⟩ := h
    obtain rfl := Except.ok.inj hr
    have hdrop : packet.drop 11 = 1 :: packet.drop 12 := by
      rw [List.drop_eq_getElem?_toList_append, hkind]
      rfl
    obtain ⟨hfresh, hall, -⟩ := Request.encode_eq_ok.1 hencoded
    refine Request.encode_eq_ok.2 ⟨hfresh, hall, (eq_packetOf 8 hmagic hdrop).trans ?_⟩
    refine congrArg₂ (packetOf 1) ?_ ?_
    · simp only [fieldsOf, List.drop_drop]
      rfl
    · -- the two numbers are the last sixteen bytes
      have hcreated := bigEndian_fromBytes ((packet.drop 268).take 8)
      have hexpires := bigEndian_fromBytes (packet.drop 276)
      have h₁ : ((packet.drop 268).take 8).length = 8 := by
        rw [List.length_take, List.length_drop, hlen]
        rfl
      have h₂ : (packet.drop 276).length = 8 := by
        rw [List.length_drop, hlen]
      rw [h₁] at hcreated
      rw [h₂] at hexpires
      rw [Int.toNat_natCast, Int.toNat_natCast, hcreated, hexpires, ← List.drop_drop (i := 8) (j := 268),
        List.take_append_drop]
  · intro h
    obtain ⟨hfresh, hall, rfl⟩ := Request.encode_eq_ok.1 h
    obtain ⟨hnonneg, hlt, hmax, -⟩ := id hfresh
    have hcreated : fromBytes (bigEndian 8 r.created.toNat) = r.created.toNat :=
      fromBytes_bigEndian (by omega)
    have hexpires : fromBytes (bigEndian 8 r.expires.toNat) = r.expires.toNat :=
      fromBytes_bigEndian (by omega)
    obtain ⟨packet, hpacket⟩ : ∃ packet, packet = packetOf 1 r.fields
      (bigEndian 8 r.created.toNat ++ bigEndian 8 r.expires.toNat) := ⟨_, rfl⟩
    rw [← hpacket] at h ⊢
    have hlen : packet.length = 284 := by
      rw [hpacket, length_packetOf hall, List.length_append, length_bigEndian, length_bigEndian]
      rfl
    have hmagic : packet.take 11 = protocol := by rw [hpacket, take_packetOf]
    have hkind : packet[11]? = some 1 := by rw [hpacket]; rfl
    have hrest : packet.drop 268 = bigEndian 8 r.created.toNat ++ bigEndian 8 r.expires.toNat := by
      rw [hpacket]
      exact rest_packetOf hall
    have hfields : fieldsOf 8 (packet.drop 12) = r.fields := by
      rw [hpacket, body_packetOf]
      exact fieldsOf_flatten hall _
    have hfirst : (packet.drop 268).take 8 = bigEndian 8 r.created.toNat := by
      rw [hrest, List.take_left' (length_bigEndian _ _)]
    have hlast : packet.drop 276 = bigEndian 8 r.expires.toNat := by
      rw [show 276 = 268 + 8 from rfl, ← List.drop_drop, hrest, List.drop_left' (length_bigEndian _ _)]
    simp only [fieldsOf, List.drop_drop] at hfields
    obtain ⟨f₀, f₁, f₂, f₃, f₄, f₅, f₆, f₇, created, expires⟩ := r
    simp only [Request.fields, List.range_succ, List.range_zero, List.nil_append, List.map_cons,
      List.map_nil, List.cons_append, List.cons.injEq, and_true] at hfields
    obtain ⟨h₀, h₁, h₂, h₃, h₄, h₅, h₆, h₇⟩ := hfields
    have hc : ((created.toNat : ℕ) : ℤ) = created := Int.toNat_of_nonneg hnonneg
    have he : ((expires.toNat : ℕ) : ℤ) = expires := Int.toNat_of_nonneg (hnonneg.trans hlt.le)
    simp only [Request.decode, bind_eq_ok, fixed_eq_ok, raiseIf_eq_ok, not_or, not_not]
    refine ⟨packet, ⟨hlen, rfl⟩, (), ⟨hmagic, hkind⟩, packet, ?_, ?_⟩
    · rw [h₀, h₁, h₂, h₃, h₄, h₅, h₆, h₇, hfirst, hlast, hcreated, hexpires, hc, he]
      exact h
    · rw [h₀, h₁, h₂, h₃, h₄, h₅, h₆, h₇, hfirst, hlast, hcreated, hexpires, hc, he]
      rfl

/-! ## Assertions -/

/-- The five fields. -/
def Assertion.fields (a : Assertion) : List Bytes :=
  [a.deviceId, a.requestId, a.requestDigest, a.sessionDigest, a.nonce]

/-- The byte of a decision. -/
def Answer.byte : Answer → UInt8
  | .deny => 0
  | .approve => 1

theorem Assertion.signedBytes_eq_ok {a : Assertion} {signed : Bytes} : a.signedBytes = .ok signed ↔
    (0 < a.counter ∧ a.counter < 2 ^ 32) ∧ (∀ field ∈ a.fields, field.length = 32) ∧
      signed = packetOf a.decision.byte a.fields (bigEndian 4 a.counter) := by
  unfold Assertion.signedBytes
  simp only [bind_eq_ok, raiseIf_eq_ok, not_not]
  constructor
  · rintro ⟨-, h, fields, hfields, hsigned⟩
    obtain ⟨hall, rfl⟩ := mapM_fixed_eq_ok.1 hfields
    refine ⟨h, hall, (Except.ok.inj hsigned).symm.trans ?_⟩
    simp only [packetOf, List.append_assoc, List.cons_append, Assertion.fields]
    cases a.decision <;> rfl
  · rintro ⟨h, hall, rfl⟩
    refine ⟨(), h, _, mapM_fixed_eq_ok.2 ⟨hall, rfl⟩, congrArg Except.ok ?_⟩
    simp only [packetOf, List.append_assoc, List.cons_append, Assertion.fields]
    cases a.decision <;> rfl

theorem Assertion.encode_eq_ok {a : Assertion} {packet : Bytes} : a.encode = .ok packet ↔
    a.signature.length = 64 ∧ ∃ signed, a.signedBytes = .ok signed ∧
      packet = signed ++ a.signature := by
  unfold Assertion.encode
  simp only [bind_eq_ok, fixed_eq_ok]
  constructor
  · rintro ⟨signed, hsigned, _, ⟨hlen, rfl⟩, hpacket⟩
    exact ⟨hlen, signed, hsigned, (Except.ok.inj hpacket).symm⟩
  · rintro ⟨hlen, signed, hsigned, rfl⟩
    exact ⟨signed, hsigned, _, ⟨hlen, rfl⟩, rfl⟩

/-- `Decision(decision)`, of the byte in front. -/
def answerOf : Bytes → Except Exc Answer
  | 0 :: _ => .ok .deny
  | 1 :: _ => .ok .approve
  | _ => .error (approvalError "invalid hardware decision")

theorem answerOf_eq_ok {b : Bytes} {answer : Answer} :
    answerOf b = .ok answer ↔ ∃ more, b = answer.byte :: more := by
  unfold answerOf
  split
  · next more => cases answer <;> simp [Answer.byte]
  · next more => cases answer <;> simp [Answer.byte]
  · next hzero hone =>
    refine iff_of_false nofun ?_
    rintro ⟨more, rfl⟩
    cases answer
    · exact hzero more rfl
    · exact hone more rfl

/-- The decoding of an assertion, with its slices. -/
def assertionOf (decision : Answer) (packet : Bytes) : Assertion :=
  let field (i : ℕ) : Bytes := (packet.drop (12 + 32 * i)).take 32
  ⟨decision, field 0, field 1, field 2, field 3, field 4, fromBytes ((packet.drop 172).take 4),
    packet.drop 176⟩

theorem Assertion.decode_eq (packet : Bytes) : Assertion.decode packet = (do
    let packet ← fixed packet 240
    raiseIf (packet.take 11 ≠ protocol) (approvalError "unsupported hardware assertion")
    let decision ← answerOf (packet.drop 11)
    let _ ← (assertionOf decision packet).encode
    return assertionOf decision packet) := by
  unfold Assertion.decode answerOf
  refine congrArg (fixed packet 240 >>= ·) (funext fun packet => ?_)
  refine congrArg (raiseIf _ _ >>= ·) (funext fun _ => ?_)
  split <;> simp_all <;> rfl

theorem Assertion.decode_eq_ok_iff {packet : Bytes} {a : Assertion} : Assertion.decode packet = .ok a ↔
    packet.length = 240 ∧ packet.take 11 = protocol ∧
      ∃ decision, answerOf (packet.drop 11) = .ok decision ∧ a = assertionOf decision packet ∧
        ∃ encoded, a.encode = .ok encoded := by
  rw [Assertion.decode_eq]
  simp only [bind_eq_ok, fixed_eq_ok, raiseIf_eq_ok, not_not]
  constructor
  · rintro ⟨packet, ⟨hlen, rfl⟩, -, hmagic, decision, hdecision, encoded, hencoded, ha⟩
    obtain rfl := Except.ok.inj ha
    exact ⟨hlen, hmagic, decision, hdecision, rfl, encoded, hencoded⟩
  · rintro ⟨hlen, hmagic, decision, hdecision, rfl, encoded, hencoded⟩
    exact ⟨packet, ⟨hlen, rfl⟩, (), hmagic, decision, hdecision, encoded, hencoded, rfl⟩

/-- A packet decodes to an assertion exactly where the assertion encodes to it. -/
theorem Assertion.decode_eq_ok {packet : Bytes} {a : Assertion} :
    Assertion.decode packet = .ok a ↔ a.encode = .ok packet := by
  constructor
  · intro h
    obtain ⟨hlen, hmagic, decision, hdecision, rfl, encoded, hencoded⟩ := Assertion.decode_eq_ok_iff.1 h
    obtain ⟨hsignature, signed, hsigned, -⟩ := Assertion.encode_eq_ok.1 hencoded
    obtain ⟨hcounter, hall, rfl⟩ := Assertion.signedBytes_eq_ok.1 hsigned
    obtain ⟨more, hmore⟩ := answerOf_eq_ok.1 hdecision
    have hdrop := kind_of_drop hmore
    refine Assertion.encode_eq_ok.2 ⟨hsignature, _, hsigned, (eq_packetOf 5 hmagic hdrop).trans ?_⟩
    have hnumber := bigEndian_fromBytes ((packet.drop 172).take 4)
    have hfour : ((packet.drop 172).take 4).length = 4 := by
      rw [List.length_take, List.length_drop, hlen]
      rfl
    rw [hfour] at hnumber
    have hfields : fieldsOf 5 (packet.drop 12) = (assertionOf decision packet).fields := by
      simp only [fieldsOf, List.drop_drop]
      rfl
    have htail : packet.drop (12 + 32 * 5) = bigEndian 4 (fromBytes ((packet.drop 172).take 4)) ++
        packet.drop 176 := by
      rw [hnumber, ← List.drop_drop (i := 4) (j := 172), List.take_append_drop]
    rw [hfields, htail]
    simp only [packetOf, assertionOf, List.append_assoc, List.cons_append]
  · intro h
    obtain ⟨hsignature, signed, hsigned, hpacket⟩ := Assertion.encode_eq_ok.1 h
    obtain ⟨hcounter, hall, rfl⟩ := Assertion.signedBytes_eq_ok.1 hsigned
    have hwhole : packet = packetOf a.decision.byte a.fields (bigEndian 4 a.counter ++ a.signature) := by
      rw [hpacket]
      simp only [packetOf, List.append_assoc, List.cons_append]
    have hnumber : fromBytes (bigEndian 4 a.counter) = a.counter :=
      fromBytes_bigEndian (by omega)
    have hlen : packet.length = 240 := by
      rw [hwhole, length_packetOf hall, List.length_append, length_bigEndian, hsignature]
      rfl
    have hmagic : packet.take 11 = protocol := by rw [hwhole, take_packetOf]
    have hkind : packet.drop 11 = a.decision.byte :: (a.fields.flatten ++
        (bigEndian 4 a.counter ++ a.signature)) := by rw [hwhole, drop_packetOf]
    have hrest : packet.drop 172 = bigEndian 4 a.counter ++ a.signature := by
      rw [hwhole]
      exact rest_packetOf hall
    have hfields : fieldsOf 5 (packet.drop 12) = a.fields := by
      rw [hwhole, body_packetOf]
      exact fieldsOf_flatten hall _
    have hfirst : (packet.drop 172).take 4 = bigEndian 4 a.counter := by
      rw [hrest, List.take_left' (length_bigEndian _ _)]
    have hlast : packet.drop 176 = a.signature := by
      rw [show 176 = 172 + 4 from rfl, ← List.drop_drop, hrest, List.drop_left' (length_bigEndian _ _)]
    simp only [fieldsOf, List.drop_drop] at hfields
    obtain ⟨decision, f₀, f₁, f₂, f₃, f₄, counter, signature⟩ := a
    simp only [Assertion.fields, List.range_succ, List.range_zero, List.nil_append, List.map_cons,
      List.map_nil, List.cons_append, List.cons.injEq, and_true] at hfields
    obtain ⟨h₀, h₁, h₂, h₃, h₄⟩ := hfields
    refine Assertion.decode_eq_ok_iff.2 ⟨hlen, hmagic, decision, answerOf_eq_ok.2 ⟨_, hkind⟩, ?_, packet, h⟩
    simp only [assertionOf]
    rw [h₀, h₁, h₂, h₃, h₄, hfirst, hlast, hnumber]

/-! ## The codec -/

/-- Encoding and decoding undo each other, and what is accepted is known from the bytes. -/
structure Exact {V : Type} (encode : V → Except Exc Bytes) (decode : Bytes → Except Exc V)
    (accepts : Bytes → Prop) : Prop where
  decode_encode : ∀ v b, encode v = .ok b → decode b = .ok v
  encode_decode : ∀ b v, decode b = .ok v → encode v = .ok b
  accepts_iff : ∀ b, (∃ v, decode b = .ok v) ↔ accepts b

/-- The packets that are requests. -/
def IsRequest (b : Bytes) : Prop :=
  b.length = 284 ∧ b.take 11 = protocol ∧ b[11]? = some 1 ∧
    fromBytes ((b.drop 268).take 8) < fromBytes (b.drop 276) ∧
    fromBytes (b.drop 276) ≤ fromBytes ((b.drop 268).take 8) + 30

/-- The packets that are assertions. -/
def IsAssertion (b : Bytes) : Prop :=
  b.length = 240 ∧ b.take 11 = protocol ∧ (b[11]? = some 0 ∨ b[11]? = some 1) ∧
    1 ≤ fromBytes ((b.drop 172).take 4)

theorem request_exact : Exact Request.encode Request.decode IsRequest where
  decode_encode _ _ h := Request.decode_eq_ok.2 h
  encode_decode _ _ h := Request.decode_eq_ok.1 h
  accepts_iff b := by
    unfold Request.decode IsRequest
    simp only [bind_eq_ok, fixed_eq_ok, raiseIf_eq_ok, not_or, not_not]
    constructor
    · rintro ⟨r, b, ⟨hlen, rfl⟩, -, ⟨hmagic, hkind⟩, encoded, hencoded, -⟩
      obtain ⟨⟨-, hlt, -, hlife⟩, -⟩ := Request.encode_eq_ok.1 hencoded
      refine ⟨hlen, hmagic, hkind, Int.ofNat_lt.1 hlt, ?_⟩
      dsimp only at hlife
      omega
    · rintro ⟨hlen, hmagic, hkind, hlt, hlife⟩
      have hmax := fromBytes_lt (b.drop 276)
      rw [List.length_drop, hlen] at hmax
      have hbody : 32 * 8 ≤ (b.drop 12).length := by
        rw [List.length_drop, hlen]
        omega
      have hall := length_of_mem_fieldsOf hbody
      simp only [fieldsOf, List.drop_drop] at hall
      refine ⟨_, b, ⟨hlen, rfl⟩, (), ⟨hmagic, hkind⟩, _, Request.encode_eq_ok.2 ⟨?_, hall, rfl⟩, rfl⟩
      refine ⟨Int.natCast_nonneg _, Int.ofNat_lt.2 hlt, ?_, ?_⟩
      · have hmax' : fromBytes (b.drop 276) < 2 ^ 64 := hmax.trans_eq (by norm_num)
        dsimp only
        exact_mod_cast hmax'
      · dsimp only
        omega

theorem assertion_exact : Exact Assertion.encode Assertion.decode IsAssertion where
  decode_encode _ _ h := Assertion.decode_eq_ok.2 h
  encode_decode _ _ h := Assertion.decode_eq_ok.1 h
  accepts_iff b := by
    unfold IsAssertion
    simp only [Assertion.decode_eq_ok_iff, answerOf_eq_ok]
    have hfirst : ∀ k, (∃ more, b.drop 11 = k :: more) ↔ b[11]? = some k := by
      intro k
      rw [List.drop_eq_getElem?_toList_append]
      rcases hfront : b[11]? with _ | k'
      · have hshort : b.length ≤ 12 := (List.getElem?_eq_none_iff.1 hfront).trans (by omega)
        simp [List.drop_eq_nil_of_le hshort]
      · simp
    constructor
    · rintro ⟨a, hlen, hmagic, decision, hdecision, rfl, encoded, hencoded⟩
      obtain ⟨-, signed, hsigned, -⟩ := Assertion.encode_eq_ok.1 hencoded
      obtain ⟨⟨hcounter, -⟩, -⟩ := Assertion.signedBytes_eq_ok.1 hsigned
      refine ⟨hlen, hmagic, ?_, hcounter⟩
      have hbyte := (hfirst _).1 hdecision
      cases decision
      · exact .inl hbyte
      · exact .inr hbyte
    · rintro ⟨hlen, hmagic, hkind, hcounter⟩
      have hmax := fromBytes_lt ((b.drop 172).take 4)
      have hfour : ((b.drop 172).take 4).length = 4 := by
        rw [List.length_take, List.length_drop, hlen]
        rfl
      rw [hfour] at hmax
      have hbody : 32 * 5 ≤ (b.drop 12).length := by
        rw [List.length_drop, hlen]
        omega
      have hall := length_of_mem_fieldsOf hbody
      simp only [fieldsOf, List.drop_drop] at hall
      have hsignature : (b.drop 176).length = 64 := by rw [List.length_drop, hlen]
      obtain ⟨decision, hdecision⟩ : ∃ decision : Answer, b[11]? = some decision.byte := by
        rcases hkind with hkind | hkind
        · exact ⟨.deny, hkind⟩
        · exact ⟨.approve, hkind⟩
      exact ⟨_, hlen, hmagic, decision, (hfirst _).2 hdecision, rfl, _, Assertion.encode_eq_ok.2
        ⟨hsignature, _, Assertion.signedBytes_eq_ok.2 ⟨⟨hcounter, hmax⟩, hall, rfl⟩, rfl⟩⟩

/-- The codec is exact in both directions. The signed bytes of an assertion determine it up to its
signature, and are no request. -/
theorem codec_exact : Exact Request.encode Request.decode IsRequest ∧
    Exact Assertion.encode Assertion.decode IsAssertion ∧
    (∀ (r r' : Request) (b : Bytes), r.encode = .ok b → r'.encode = .ok b → r = r') ∧
    (∀ (a a' : Assertion) (b : Bytes), a.signedBytes = .ok b → a'.signedBytes = .ok b →
      { a with signature := a'.signature } = a') ∧
    ∀ (a : Assertion) (r : Request) (b : Bytes), a.signedBytes = .ok b → r.encode ≠ .ok b := by
  refine ⟨request_exact, assertion_exact, fun r r' b h h' => ?_, fun a a' b h h' => ?_,
    fun a r b h h' => ?_⟩
  · exact Except.ok.inj ((Request.decode_eq_ok.2 h).symm.trans (Request.decode_eq_ok.2 h'))
  · -- with one signature for both, the packets are equal
    let signature : Bytes := List.replicate 64 0
    have hlen : signature.length = 64 := List.length_replicate ..
    have hencode : Assertion.encode { a with signature } = .ok (b ++ signature) :=
      Assertion.encode_eq_ok.2 ⟨hlen, b, h, rfl⟩
    have hencode' : Assertion.encode { a' with signature } = .ok (b ++ signature) :=
      Assertion.encode_eq_ok.2 ⟨hlen, b, h', rfl⟩
    have hsame := (Assertion.decode_eq_ok.2 hencode).symm.trans (Assertion.decode_eq_ok.2 hencode')
    exact congrArg (fun v : Assertion => { v with signature := a'.signature }) (Except.ok.inj hsame)
  · obtain ⟨-, hall, hb⟩ := Assertion.signedBytes_eq_ok.1 h
    obtain ⟨-, hall', hb'⟩ := Request.encode_eq_ok.1 h'
    have hlen : b.length = 12 + 32 * 5 + 4 := by
      rw [hb, length_packetOf hall, length_bigEndian]
      rfl
    have hlen' : b.length = 12 + 32 * 8 + (8 + 8) := by
      rw [hb', length_packetOf hall', List.length_append, length_bigEndian, length_bigEndian]
      rfl
    omega

/-- Two assertions with one request and different signatures. -/
theorem signature_not_signed : ∃ a a' : Assertion, a ≠ a' ∧ ∃ b, a.signedBytes = .ok b ∧
    a'.signedBytes = .ok b := by
  let field : Bytes := List.replicate 32 0
  refine ⟨⟨.approve, field, field, field, field, field, 1, List.replicate 64 0⟩,
    ⟨.approve, field, field, field, field, field, 1, List.replicate 64 1⟩, by decide, _,
    Assertion.signedBytes_eq_ok.2 ⟨by decide, by decide, rfl⟩, rfl⟩

end Bulldog.Approval
