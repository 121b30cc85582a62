import Bulldog.Approval.Packets

/-!
# SSH keys and signatures

`approval_crypto.py` reads two nested formats of length-prefixed strings before it hands a signature to
OpenSSH. The reader carries the bound on its offset, so it cannot stand past the end. Of base 64 all that is
used is which bytes a text stands for, if any.
-/

namespace Bulldog.Approval

/-! ## The reader -/

/-- `_Reader`. -/
structure Reader where
  data : Bytes
  offset : ℕ
  inside : offset ≤ data.length

namespace Reader

/-- `_Reader(data)`. -/
def ofBytes (data : Bytes) : Reader := ⟨data, 0, Nat.zero_le _⟩

/-- What is not read yet. -/
def rest (r : Reader) : Bytes := r.data.drop r.offset

/-- `reader.take(count)`. -/
def take (count : ℕ) : Action Reader Exc Bytes := fun r =>
  if h : r.data.length - r.offset < count then
    (.error (approvalError "truncated signature encoding"), r)
  else (.ok ((r.data.drop r.offset).take count),
    ⟨r.data, r.offset + count, by have := r.inside; omega⟩)

/-- `reader.uint()`. -/
def uint : Action Reader Exc ℕ := do
  let value ← take 4
  return fromBytes value

/-- `reader.string()`. -/
def string : Action Reader Exc Bytes := do
  let count ← uint
  take count

/-- `reader.done()`. -/
def done : Action Reader Exc Unit := do
  let r ← .read
  raiseIf (r.offset ≠ r.data.length) (approvalError "trailing signature data")

end Reader

/-! ## Texts of bytes -/

/-- The bytes that `bytes.strip()` removes. -/
def isSpaceByte (b : UInt8) : Bool := (9 ≤ b && b ≤ 13) || b == 32

/-- `data.strip()`. -/
def stripBytes (data : Bytes) : Bytes := (data.dropWhile isSpaceByte).rdropWhile isSpaceByte

/-- `data.splitlines()`, with the line that is open. -/
def splitLines (line : Bytes) : Bytes → List Bytes
  | [] => if line = [] then [] else [line]
  | 13 :: 10 :: data => line :: splitLines [] data
  | b :: data =>
    if b = 13 ∨ b = 10 then line :: splitLines [] data else splitLines (line ++ [b]) data

/-! ## Keys -/

/-- A literal. -/
def literal (text : String) : Bytes := encodeUtf8 text.toList

/-- `NAMESPACE.encode()`. -/
def namespaceBytes : Bytes := literal "bull-consequential-action-v1"

/-- The two members of `KEY_TYPES`. -/
def ed25519 : Bytes := literal "sk-ssh-ed25519@openssh.com"

def nistp256 : Bytes := literal "sk-ecdsa-sha2-nistp256@openssh.com"

/-- `KEY_TYPES`. -/
def keyTypes : List Bytes := [ed25519, nistp256]

/-- `APPLICATION`. -/
def application : Bytes := literal "ssh:bull-approval"

/-- `text.encode("ascii")`. -/
def encodeAscii (text : Str) : Option Bytes := if isAscii text then some (encodeUtf8 text) else none

section

variable (b64decode : Bytes → Option Bytes)

open Reader in
/-- What `validate_public_key` reads of the blob. -/
def readPublicKey (algorithm : Bytes) : Action Reader Exc Unit := do
  let name ← string
  raiseIf (name ≠ algorithm) (approvalError "public key algorithm mismatch")
  if algorithm = ed25519 then
    let key ← string
    raiseIf (key.length ≠ 32) (approvalError "invalid Ed25519 security key")
    let target ← string
    raiseIf (target ≠ application) (approvalError "security key application must be ssh:bull-approval")
    done
  else
    let curve ← string
    raiseIf (curve ≠ literal "nistp256") (approvalError "invalid P256 security key")
    let key ← string
    raiseIf (key.length ≠ 65) (approvalError "invalid P256 security key")
    let target ← string
    raiseIf (target ≠ application) (approvalError "security key application must be ssh:bull-approval")
    done

/-- The two fields of a public key. -/
def keyFields (publicKey : Str) : Except Exc (Str × Str) :=
  match Str.words publicKey with
  | [first, second] =>
    if publicKey.length > 4096 then
      .error (approvalError "expected one security-key public key without comment")
    else .ok (first, second)
  | _ => .error (approvalError "expected one security-key public key without comment")

/-- `validate_public_key(public_key)`. The errors of the two codecs are `ValueError`s, which become an
`ApprovalError`; an `ApprovalError` is none. -/
def validatePublicKey (publicKey : Str) : Except Exc Bytes := do
  let invalid := approvalError "invalid public key encoding"
  let fields ← keyFields publicKey
  let algorithm ← orRaise (encodeAscii fields.1) invalid
  raiseIf (algorithm ∉ keyTypes) (approvalError "only enrolled OpenSSH security keys are accepted")
  let blob ← orRaise ((encodeAscii fields.2).bind b64decode) invalid
  (readPublicKey algorithm (Reader.ofBytes blob)).1
  return blob

/-! ## Signatures -/

open Reader in
/-- What `_inspect_signature` reads of the inner string. -/
def readInner : Action Reader Exc Unit := do
  let algorithm ← string
  raiseIf (algorithm ∉ keyTypes) (approvalError "signature is not a security-key signature")
  let _ ← string
  let flags ← take 1
  let _ ← uint
  done
  raiseIf (flags.headD 0 &&& 5 ≠ 5)
    (approvalError "both user presence and user verification are required")

open Reader in
/-- What it reads of the whole. -/
def readSignature (publicBlob : Bytes) : Action Reader Exc Unit := do
  let magic ← take 6
  raiseIf (magic ≠ literal "SSHSIG") (approvalError "unsupported SSH signature")
  let version ← uint
  raiseIf (version ≠ 1) (approvalError "unsupported SSH signature")
  let key ← string
  raiseIf (key ≠ publicBlob) (approvalError "signature does not match enrolled credential")
  let purpose ← string
  raiseIf (purpose ≠ namespaceBytes) (approvalError "invalid approval signature namespace")
  let reserved ← string
  raiseIf (reserved ≠ []) (approvalError "invalid approval signature namespace")
  let hash ← string
  raiseIf (hash ∉ [literal "sha256", literal "sha512"]) (approvalError "unsupported signature hash")
  let inner ← string
  done
  (readInner (Reader.ofBytes inner)).1

/-- The first line of the armour. -/
def beginLine : Bytes := literal "-----BEGIN SSH SIGNATURE-----"

/-- The last line of the armour. -/
def endLine : Bytes := literal "-----END SSH SIGNATURE-----"

/-- The bytes under the armour. -/
def dearmour (signature : Bytes) : Except Exc Bytes := do
  raiseIf (signature.length > 16384) (approvalError "invalid signature size")
  let lines := splitLines [] (stripBytes signature)
  raiseIf (lines = [] ∨ lines.head? ≠ some beginLine ∨ lines.getLast? ≠ some endLine)
    (approvalError "expected an SSH signature, not approval text")
  orRaise (b64decode (lines.drop 1).dropLast.flatten) (approvalError "invalid SSH signature encoding")

/-- `_inspect_signature(signature, public_blob)`. -/
def inspectSignature (signature publicBlob : Bytes) : Except Exc Unit := do
  let data ← dearmour b64decode signature
  (readSignature publicBlob (Reader.ofBytes data)).1

end

/-! ## What is accepted -/

/-- A string with its length in front. -/
def sshString (s : Bytes) : Bytes := bigEndian 4 s.length ++ s

/-- Code that returns exactly where what is not read yet has a form. -/
def Accepts {α : Type} (m : Action Reader Exc α) (p : Bytes → Prop) : Prop :=
  ∀ r : Reader, (∃ a, (m r).1 = .ok a) ↔ p r.rest

/-- Code that raises nothing but `ApprovalError`. -/
def Guarded {α : Type} (m : Action Reader Exc α) : Prop :=
  ∀ (r : Reader) (e : Exc), (m r).1 = .error e → e.cls = .approvalError

section Rules

variable {α β : Type} {m : Action Reader Exc α}

theorem Reader.take_cases (n : ℕ) (r : Reader) :
    (r.rest.length < n ∧ Reader.take n r = (.error (approvalError "truncated signature encoding"), r)) ∨
      ∃ v r', r.rest = v ++ r'.rest ∧ v.length = n ∧ Reader.take n r = (.ok v, r') := by
  have hinside := r.inside
  have hlen : r.rest.length = r.data.length - r.offset := List.length_drop
  unfold Reader.take
  split_ifs with h
  · exact .inl ⟨hlen.trans_lt h, rfl⟩
  · refine .inr ⟨_, _, ?_, ?_, rfl⟩
    · rw [Reader.rest, Reader.rest, ← List.drop_drop, List.take_append_drop]
    · rw [List.length_take, List.length_drop]
      omega

theorem Accepts.take {n : ℕ} {f : Bytes → Action Reader Exc β} {p : Bytes → Bytes → Prop}
    (hf : ∀ v, Accepts (f v) (p v)) : Accepts (Reader.take n >>= f) fun rest =>
      ∃ v t, v.length = n ∧ rest = v ++ t ∧ p v t := by
  intro r
  rw [Action.bind_apply]
  rcases r.take_cases n with ⟨hshort, htake⟩ | ⟨v, r', hrest, hv, htake⟩
  · rw [htake]
    refine iff_of_false nofun ?_
    rintro ⟨v, t, hv, hrest, -⟩
    rw [hrest, List.length_append] at hshort
    omega
  · rw [htake]
    refine (hf v r').trans ⟨fun h => ⟨v, r'.rest, hv, hrest, h⟩, ?_⟩
    -- the first bytes are the same in every reading
    rintro ⟨v', t, hv', hrest', h⟩
    obtain ⟨rfl, rfl⟩ := List.append_inj (hrest.symm.trans hrest') (hv.trans hv'.symm)
    exact h

theorem Accepts.uint {f : ℕ → Action Reader Exc β} {p : ℕ → Bytes → Prop}
    (hf : ∀ n, Accepts (f n) (p n)) : Accepts (Reader.uint >>= f) fun rest =>
      ∃ n t, n < 2 ^ 32 ∧ rest = bigEndian 4 n ++ t ∧ p n t := by
  intro r
  have hbind : (Reader.uint >>= f) r = (Reader.take 4 >>= fun v => f (fromBytes v)) r := by
    unfold Reader.uint
    simp only [Action.bind_apply]
    rcases Reader.take 4 r with ⟨_ | v, r'⟩ <;> rfl
  rw [hbind]
  refine (Accepts.take (p := fun v => p (fromBytes v)) (fun v => hf (fromBytes v)) r).trans ⟨?_, ?_⟩
  · rintro ⟨v, t, hv, hrest, h⟩
    refine ⟨fromBytes v, t, ?_, ?_, h⟩
    · have hlt := fromBytes_lt v
      rw [hv] at hlt
      exact hlt
    · rw [← hv, bigEndian_fromBytes, hrest]
  · rintro ⟨n, t, hn, hrest, h⟩
    refine ⟨bigEndian 4 n, t, length_bigEndian _ _, hrest, ?_⟩
    rw [fromBytes_bigEndian hn]
    exact h

theorem Accepts.string {f : Bytes → Action Reader Exc β} {p : Bytes → Bytes → Prop}
    (hf : ∀ s, Accepts (f s) (p s)) : Accepts (Reader.string >>= f) fun rest =>
      ∃ s t, s.length < 2 ^ 32 ∧ rest = sshString s ++ t ∧ p s t := by
  intro r
  have hbind : (Reader.string >>= f) r = (Reader.uint >>= fun n => Reader.take n >>= f) r := by
    unfold Reader.string
    simp only [Action.bind_apply]
    rcases Reader.uint r with ⟨_ | n, r'⟩ <;> rfl
  rw [hbind]
  refine (Accepts.uint (fun n => Accepts.take hf) r).trans ⟨?_, ?_⟩
  · rintro ⟨n, t, hn, hrest, s, t', rfl, rfl, h⟩
    refine ⟨s, t', hn, ?_, h⟩
    rw [hrest, sshString, List.append_assoc]
  · rintro ⟨s, t, hs, hrest, h⟩
    refine ⟨s.length, s ++ t, hs, ?_, s, t, rfl, rfl, h⟩
    rw [hrest, sshString, List.append_assoc]

theorem Reader.done_apply (r : Reader) : Reader.done r =
    (if r.rest = [] then .ok () else .error (approvalError "trailing signature data"), r) := by
  have hrest : r.rest = [] ↔ ¬ r.offset ≠ r.data.length := by
    have hinside := r.inside
    rw [Reader.rest, List.drop_eq_nil_iff]
    omega
  have hdone : Reader.done r =
    (raiseIf (r.offset ≠ r.data.length) (approvalError "trailing signature data"), r) := rfl
  rw [hdone, raiseIf]
  simp only [hrest, ite_not]

theorem Accepts.done : Accepts Reader.done (· = []) := by
  intro r
  rw [Reader.done_apply]
  split_ifs with h <;> simp [h]

theorem Accepts.done_bind {f : Unit → Action Reader Exc β} {p : Bytes → Prop}
    (hf : Accepts (f ()) p) : Accepts (Reader.done >>= f) fun rest => rest = [] ∧ p [] := by
  intro r
  rw [Action.bind_apply, Reader.done_apply]
  split_ifs with h
  · refine (hf r).trans ?_
    rw [h]
    exact ⟨fun h' => ⟨rfl, h'⟩, fun h' => h'.2⟩
  · exact iff_of_false nofun fun h' => h h'.1

theorem Accepts.check {c : Prop} [Decidable c] {e : Exc} {f : Unit → Action Reader Exc β}
    {p : Bytes → Prop} (hf : Accepts (f ()) p) :
    Accepts (liftM (raiseIf c e) >>= f) fun rest => ¬ c ∧ p rest := by
  intro r
  rw [Action.bind_apply, Action.lift_apply, raiseIf]
  split_ifs with h
  · exact iff_of_false nofun fun h' => h'.1 h
  · exact (hf r).trans ⟨fun h' => ⟨h, h'⟩, fun h' => h'.2⟩

theorem Accepts.lift {x : Except Exc α} : Accepts (liftM x) fun _ => ∃ a, x = .ok a := fun _ => Iff.rfl

theorem Accepts.check_last {c : Prop} [Decidable c] {e : Exc} :
    Accepts (liftM (raiseIf c e)) fun _ => ¬ c := fun _ => by
  rw [Action.lift_apply, raiseIf]
  split_ifs with h <;> simp [h]

/-! ### Only `ApprovalError` -/

theorem Guarded.bind {f : α → Action Reader Exc β} (hm : Guarded m) (hf : ∀ a, Guarded (f a)) :
    Guarded (m >>= f) := by
  intro r e h
  rw [Action.bind_apply] at h
  rcases hresult : m r with ⟨e' | a, r'⟩
  · rw [hresult] at h
    obtain rfl := Except.error.inj h
    exact hm r e' (by rw [hresult])
  · rw [hresult] at h
    exact hf a r' e h

theorem Guarded.take (n : ℕ) : Guarded (Reader.take n) := by
  intro r e h
  rcases r.take_cases n with ⟨-, htake⟩ | ⟨v, r', -, -, htake⟩
  · rw [htake] at h
    obtain rfl := Except.error.inj h
    rfl
  · rw [htake] at h
    cases h

theorem Guarded.uint : Guarded Reader.uint := (Guarded.take 4).bind fun _ _ _ h => nomatch h

theorem Guarded.string : Guarded Reader.string := Guarded.uint.bind Guarded.take

theorem Guarded.done : Guarded Reader.done := by
  intro r e h
  rw [Reader.done_apply] at h
  split_ifs at h
  obtain rfl := Except.error.inj h
  rfl

theorem Guarded.check {c : Prop} [Decidable c] (text : String) :
    Guarded (liftM (raiseIf c (approvalError text))) := by
  intro r e h
  rw [Action.lift_apply, raiseIf] at h
  split_ifs at h
  obtain rfl := Except.error.inj h
  rfl

end Rules

/-! ## The grammars -/

/-- The blob of a public key for an algorithm. -/
def IsPublicKey (algorithm blob : Bytes) : Prop :=
  (algorithm = ed25519 ∧ ∃ key : Bytes, key.length = 32 ∧
    blob = sshString ed25519 ++ sshString key ++ sshString application) ∨
  (algorithm = nistp256 ∧ ∃ key : Bytes, key.length = 65 ∧
    blob = sshString nistp256 ++ sshString (literal "nistp256") ++ sshString key ++
      sshString application)

/-- The inner string of a signature. -/
def IsInner (inner : Bytes) : Prop :=
  ∃ algorithm ∈ keyTypes, ∃ (signature : Bytes) (flags : UInt8) (counter : ℕ),
    signature.length < 2 ^ 32 ∧ counter < 2 ^ 32 ∧ flags &&& 5 = 5 ∧
    inner = sshString algorithm ++ sshString signature ++ flags :: bigEndian 4 counter

/-- A signature for a public blob. -/
def IsSignature (publicBlob data : Bytes) : Prop :=
  ∃ hash ∈ [literal "sha256", literal "sha512"], ∃ inner : Bytes, IsInner inner ∧
    publicBlob.length < 2 ^ 32 ∧ inner.length < 2 ^ 32 ∧
    data = literal "SSHSIG" ++ bigEndian 4 1 ++ sshString publicBlob ++ sshString namespaceBytes ++
      sshString [] ++ sshString hash ++ sshString inner

/-- On all of some data. -/
theorem Accepts.ofBytes {m : Action Reader Exc Unit} {p : Bytes → Prop} (h : Accepts m p)
    (data : Bytes) : (m (Reader.ofBytes data)).1 = .ok () ↔ p data :=
  ⟨fun hok => (h (Reader.ofBytes data)).1 ⟨(), hok⟩, fun hp => ((h (Reader.ofBytes data)).2 hp).elim
    fun () hok => hok⟩

theorem readInner_ok (inner : Bytes) :
    (readInner (Reader.ofBytes inner)).1 = .ok () ↔ IsInner inner := by
  have h : Accepts readInner _ := Accepts.string fun algorithm => Accepts.check <|
    Accepts.string fun _ => Accepts.take fun flags => Accepts.uint fun _ =>
      Accepts.done_bind Accepts.check_last
  rw [h.ofBytes]
  constructor
  · rintro ⟨algorithm, t, -, rfl, hkey, s, t, hs, rfl, flags, t, hflags, rfl, n, t, hn, rfl, rfl, hbits⟩
    obtain ⟨b, rfl⟩ := List.length_eq_one_iff.1 hflags
    refine ⟨algorithm, not_not.1 hkey, s, b, n, hs, hn, not_not.1 hbits, ?_⟩
    simp only [List.append_nil, List.append_assoc, List.singleton_append]
  · rintro ⟨algorithm, hkey, s, b, n, hs, hn, hbits, rfl⟩
    -- the length of a fixed name fits its four bytes
    have hshort : algorithm.length < 2 ^ 32 := by
      rcases List.mem_cons.1 hkey with rfl | hkey
      · decide
      · rw [List.mem_singleton.1 hkey]
        decide
    exact ⟨algorithm, _, hshort, List.append_assoc _ _ _, not_not.2 hkey, s, _, hs, rfl, [b], _, rfl, rfl, n,
      [], hn, (List.append_nil _).symm, rfl, not_not.2 hbits⟩

theorem readSignature_ok (publicBlob data : Bytes) :
    (readSignature publicBlob (Reader.ofBytes data)).1 = .ok () ↔ IsSignature publicBlob data := by
  have h : Accepts (readSignature publicBlob) _ := Accepts.take fun magic => Accepts.check <|
    Accepts.uint fun _ => Accepts.check <| Accepts.string fun _ => Accepts.check <|
      Accepts.string fun _ => Accepts.check <| Accepts.string fun _ => Accepts.check <|
        Accepts.string fun _ => Accepts.check <| Accepts.string fun inner =>
          Accepts.done_bind Accepts.lift
  rw [h.ofBytes]
  constructor
  · rintro ⟨magic, t, -, rfl, hmagic, version, t, -, rfl, hversion, key, t, hkey, rfl, hblob, purpose, t, -,
      rfl, hpurpose, reserved, t, -, rfl, hreserved, hash, t, -, rfl, hhash, inner, t, hinner, rfl, rfl,
      ⟨⟩, hread⟩
    obtain rfl := not_not.1 hmagic
    obtain rfl := not_not.1 hversion
    obtain rfl := not_not.1 hblob
    obtain rfl := not_not.1 hpurpose
    obtain rfl := not_not.1 hreserved
    refine ⟨hash, not_not.1 hhash, inner, (readInner_ok inner).1 hread, hkey, hinner, ?_⟩
    simp only [List.append_nil, List.append_assoc]
  · rintro ⟨hash, hhash, inner, hread, hkey, hinner, rfl⟩
    have hshort : hash.length < 2 ^ 32 := by
      rcases List.mem_cons.1 hhash with rfl | hhash
      · decide
      · rw [List.mem_singleton.1 hhash]
        decide
    simp only [List.append_assoc]
    exact ⟨_, _, rfl, rfl, not_not.2 rfl, 1, _, by decide, rfl, not_not.2 rfl, publicBlob, _, hkey, rfl,
      not_not.2 rfl, namespaceBytes, _, by decide, rfl, not_not.2 rfl, [], _, by decide, rfl, not_not.2 rfl,
      hash, _, hshort, rfl, not_not.2 hhash, inner, [], hinner, (List.append_nil _).symm, rfl, (),
      (readInner_ok inner).2 hread⟩

theorem readPublicKey_ok {algorithm : Bytes} (halgorithm : algorithm ∈ keyTypes) (blob : Bytes) :
    (readPublicKey algorithm (Reader.ofBytes blob)).1 = .ok () ↔ IsPublicKey algorithm blob := by
  have hne : nistp256 ≠ ed25519 := by decide
  have hed : ed25519.length < 2 ^ 32 := by decide
  have hnist : nistp256.length < 2 ^ 32 := by decide
  have hcurve : (literal "nistp256").length < 2 ^ 32 := by decide
  have happlication : application.length < 2 ^ 32 := by decide
  rcases List.mem_cons.1 halgorithm with rfl | halgorithm
  · have h : Accepts (readPublicKey ed25519) _ := Accepts.string fun _ => Accepts.check <| by
      rw [if_pos rfl]
      exact Accepts.string fun key => Accepts.check <| Accepts.string fun _ => Accepts.check Accepts.done
    rw [h.ofBytes]
    constructor
    · rintro ⟨name, t, -, rfl, hname, key, t, -, rfl, hkey, target, t, -, rfl, htarget, rfl⟩
      obtain rfl := not_not.1 hname
      obtain rfl := not_not.1 htarget
      refine .inl ⟨rfl, key, not_not.1 hkey, ?_⟩
      simp only [List.append_nil, List.append_assoc]
    · rintro (⟨-, key, hkey, rfl⟩ | ⟨heq, -⟩)
      · rw [List.append_assoc]
        exact ⟨_, _, hed, rfl, not_not.2 rfl, key, _, by omega, rfl, not_not.2 hkey, application, [],
          happlication, (List.append_nil _).symm, not_not.2 rfl, rfl⟩
      · exact absurd heq.symm hne
  · obtain rfl := List.mem_singleton.1 halgorithm
    have h : Accepts (readPublicKey nistp256) _ := Accepts.string fun _ => Accepts.check <| by
      rw [if_neg hne]
      exact Accepts.string fun _ => Accepts.check <| Accepts.string fun key => Accepts.check <|
        Accepts.string fun _ => Accepts.check Accepts.done
    rw [h.ofBytes]
    constructor
    · rintro ⟨name, t, -, rfl, hname, curve, t, -, rfl, hcurve, key, t, -, rfl, hkey, target, t, -, rfl,
        htarget, rfl⟩
      obtain rfl := not_not.1 hname
      obtain rfl := not_not.1 hcurve
      obtain rfl := not_not.1 htarget
      refine .inr ⟨rfl, key, not_not.1 hkey, ?_⟩
      simp only [List.append_nil, List.append_assoc]
    · rintro (⟨heq, -⟩ | ⟨-, key, hkey, rfl⟩)
      · exact absurd heq hne
      · simp only [List.append_assoc]
        exact ⟨_, _, hnist, rfl, not_not.2 rfl, _, _, hcurve, rfl, not_not.2 rfl, key, _, by omega, rfl,
          not_not.2 hkey, application, [], happlication, (List.append_nil _).symm, not_not.2 rfl, rfl⟩

/-! ## The parsers -/

theorem guarded_readInner : Guarded readInner :=
  Guarded.string.bind fun _ => (Guarded.check _).bind fun _ => Guarded.string.bind fun _ =>
    (Guarded.take 1).bind fun _ => Guarded.uint.bind fun _ => Guarded.done.bind fun _ => Guarded.check _

theorem guarded_readSignature (publicBlob : Bytes) : Guarded (readSignature publicBlob) := by
  refine (Guarded.take 6).bind fun _ => (Guarded.check _).bind fun _ => Guarded.uint.bind fun _ =>
    (Guarded.check _).bind fun _ => Guarded.string.bind fun _ => (Guarded.check _).bind fun _ =>
      Guarded.string.bind fun _ => (Guarded.check _).bind fun _ => Guarded.string.bind fun _ =>
        (Guarded.check _).bind fun _ => Guarded.string.bind fun _ => (Guarded.check _).bind fun _ =>
          Guarded.string.bind fun inner => Guarded.done.bind fun _ r e h => ?_
  exact guarded_readInner (Reader.ofBytes inner) e h

theorem guarded_readPublicKey (algorithm : Bytes) : Guarded (readPublicKey algorithm) := by
  refine Guarded.string.bind fun _ => (Guarded.check _).bind fun _ => ?_
  split_ifs
  · exact Guarded.string.bind fun _ => (Guarded.check _).bind fun _ => Guarded.string.bind fun _ =>
      (Guarded.check _).bind fun _ => Guarded.done
  · exact Guarded.string.bind fun _ => (Guarded.check _).bind fun _ => Guarded.string.bind fun _ =>
      (Guarded.check _).bind fun _ => Guarded.string.bind fun _ => (Guarded.check _).bind fun _ =>
        Guarded.done

/-- The blob that a public key holds: two words, of which the first is an algorithm. -/
def Holds (b64decode : Bytes → Option Bytes) (publicKey : Str) (algorithm blob : Bytes) : Prop :=
  ∃ first second, Str.words publicKey = [first, second] ∧ publicKey.length ≤ 4096 ∧
    encodeAscii first = some algorithm ∧ algorithm ∈ keyTypes ∧
    (encodeAscii second).bind b64decode = some blob

/-- The bytes that an armoured text holds. -/
def Armours (b64decode : Bytes → Option Bytes) (signature data : Bytes) : Prop :=
  signature.length ≤ 16384 ∧ ∃ body : List Bytes,
    splitLines [] (stripBytes signature) = beginLine :: body ++ [endLine] ∧
    b64decode body.flatten = some data

theorem dearmour_eq_ok {b64decode : Bytes → Option Bytes} {signature data : Bytes} :
    dearmour b64decode signature = .ok data ↔ Armours b64decode signature data := by
  unfold dearmour Armours
  simp only [bind_eq_ok, raiseIf_eq_ok, orRaise_eq_ok, not_lt, not_or, not_not]
  constructor
  · rintro ⟨-, hlen, -, ⟨hne, hfirst, hlast⟩, hdata⟩
    refine ⟨hlen, (splitLines [] (stripBytes signature)).drop 1 |>.dropLast, ?_, hdata⟩
    obtain ⟨lines, hlines⟩ : ∃ lines, lines = splitLines [] (stripBytes signature) := ⟨_, rfl⟩
    rw [← hlines] at hfirst hlast ⊢
    rcases lines with _ | ⟨line, rest⟩
    · cases hfirst
    obtain rfl := Option.some.inj hfirst
    rcases List.eq_nil_or_concat rest with rfl | ⟨body, last, rfl⟩
    · exact absurd (Option.some.inj hlast) (by decide)
    · rw [List.concat_eq_append, ← List.cons_append, List.getLast?_concat] at hlast
      obtain rfl := Option.some.inj hlast
      simp
  · rintro ⟨hlen, body, hlines, hdata⟩
    rw [hlines]
    refine ⟨(), hlen, (), ⟨List.cons_ne_nil _ _, rfl, List.getLast?_concat⟩, ?_⟩
    simpa using hdata

theorem keyFields_eq_ok {publicKey first second : Str} : keyFields publicKey = .ok (first, second) ↔
    Str.words publicKey = [first, second] ∧ publicKey.length ≤ 4096 := by
  unfold keyFields
  split
  · next first' second' hwords =>
    rw [hwords]
    split_ifs with hlen
    · exact iff_of_false nofun fun h => absurd h.2 (not_le.2 hlen)
    · simp [not_lt.1 hlen]
  · next hother => exact iff_of_false nofun fun h => hother _ _ h.1

theorem keyFields_error {publicKey : Str} {e : Exc} (h : keyFields publicKey = .error e) :
    e.cls = .approvalError := by
  unfold keyFields at h
  split at h
  · split_ifs at h
    obtain rfl := Except.error.inj h
    rfl
  · obtain rfl := Except.error.inj h
    rfl

/-- Code that returns, or raises `ApprovalError`. -/
theorem cls_of_bind {α β : Type} {x : Except Exc α} {f : α → Except Exc β} {e : Exc}
    (h : x >>= f = .error e) (hx : ∀ e, x = .error e → e.cls = .approvalError)
    (hf : ∀ a e, f a = .error e → e.cls = .approvalError) : e.cls = .approvalError := by
  rcases x with e' | a
  · obtain rfl := Except.error.inj h
    exact hx _ rfl
  · exact hf a e h

theorem cls_of_raiseIf {c : Prop} [Decidable c] {text : String} (e : Exc)
    (h : raiseIf c (approvalError text) = .error e) : e.cls = .approvalError := by
  unfold raiseIf at h
  split_ifs at h
  obtain rfl := Except.error.inj h
  rfl

theorem cls_of_orRaise {α : Type} {x : Option α} {text : String} (e : Exc)
    (h : orRaise x (approvalError text) = .error e) : e.cls = .approvalError := by
  rcases x with _ | a
  · obtain rfl := Except.error.inj h
    rfl
  · cases h

/-- Both parsers accept exactly their grammars, and raise `ApprovalError` on everything else. -/
theorem parsers_exact (b64decode : Bytes → Option Bytes) :
    (∀ signature publicBlob : Bytes, inspectSignature b64decode signature publicBlob = .ok () ↔
      ∃ data, Armours b64decode signature data ∧ IsSignature publicBlob data) ∧
    (∀ (publicKey : Str) (blob : Bytes), validatePublicKey b64decode publicKey = .ok blob ↔
      ∃ algorithm, Holds b64decode publicKey algorithm blob ∧ IsPublicKey algorithm blob) ∧
    (∀ (signature publicBlob : Bytes) (e : Exc),
      inspectSignature b64decode signature publicBlob = .error e → e.cls = .approvalError) ∧
    ∀ (publicKey : Str) (e : Exc), validatePublicKey b64decode publicKey = .error e →
      e.cls = .approvalError := by
  refine ⟨fun signature publicBlob => ?_, fun publicKey blob => ?_, fun signature publicBlob e h => ?_,
    fun publicKey e h => ?_⟩
  · unfold inspectSignature
    simp only [bind_eq_ok, dearmour_eq_ok, readSignature_ok]
  · unfold validatePublicKey Holds
    simp only [bind_eq_ok, orRaise_eq_ok, raiseIf_eq_ok, not_not]
    constructor
    · rintro ⟨⟨first, second⟩, hfields, algorithm, halgorithm, -, hmem, blob', hblob, ⟨⟩, hread, hok⟩
      obtain rfl := Except.ok.inj hok
      obtain ⟨hwords, hlen⟩ := keyFields_eq_ok.1 hfields
      exact ⟨algorithm, ⟨first, second, hwords, hlen, halgorithm, hmem, hblob⟩,
        (readPublicKey_ok hmem _).1 hread⟩
    · rintro ⟨algorithm, ⟨first, second, hwords, hlen, halgorithm, hmem, hblob⟩, hkey⟩
      exact ⟨(first, second), keyFields_eq_ok.2 ⟨hwords, hlen⟩, algorithm, halgorithm, (), hmem, blob,
        hblob, (), (readPublicKey_ok hmem blob).2 hkey, rfl⟩
  · unfold inspectSignature dearmour at h
    refine cls_of_bind h (fun e h => ?_) fun data e h => guarded_readSignature publicBlob _ e h
    exact cls_of_bind h cls_of_raiseIf fun _ e h => cls_of_bind h cls_of_raiseIf fun _ => cls_of_orRaise
  · unfold validatePublicKey at h
    refine cls_of_bind h (fun e => keyFields_error) fun fields e h => ?_
    refine cls_of_bind h cls_of_orRaise fun algorithm e h => ?_
    refine cls_of_bind h cls_of_raiseIf fun _ e h => ?_
    refine cls_of_bind h cls_of_orRaise fun blob e h => ?_
    exact cls_of_bind h (guarded_readPublicKey algorithm _) fun _ _ h => by cases h

end Bulldog.Approval
