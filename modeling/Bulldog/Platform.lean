import Bulldog.Lib.Json.Normal
import Bulldog.Lib.Sha256

/-!
# The platform

What the code takes from the interpreter and its libraries: the exceptions, SHA-256 and HMAC, and
the text of a digest. A function of the code that may raise returns `Except Exc`, with the class of
the exception and, where the code itself writes it, the message.
-/

namespace Bulldog

/-- The exception classes that the code raises or lets through. -/
inductive ExcClass where
  | anchorError
  | auditIntegrityError
  | securityDomainError
  | actionCanonicalizationError
  | dispatchDenied
  | traceViolation
  | snapshotViolation
  | filesystemManifestViolation
  | approvalError
  | approvalRequired
  | secretBrokerError
  | remoteSessionError
  | egressDenied
  | runtimeError
  /-- `Error`, in the Worker. -/
  | jsError
  | valueError
  | typeError
  | keyError
  | attributeError
  | unicodeError
  | osError
  | assertionError
  deriving DecidableEq

/-- An exception. -/
inductive Exc where
  /-- Raised by the code, with its message. -/
  | raised (cls : ExcClass) (message : String)
  /-- Raised by the code, with a message that ends in the text of another exception. -/
  | wrapped (cls : ExcClass) (message : String) (cause : Exc)
  /-- Raised by the interpreter or a library. -/
  | builtin (cls : ExcClass)
  deriving DecidableEq

/-- The class of an exception. -/
def Exc.cls : Exc → ExcClass
  | .raised cls _ | .wrapped cls _ _ | .builtin cls => cls

/-- `raise AnchorError(message)`. -/
def anchorError (message : String) : Exc := .raised .anchorError message

/-- `raise AuditIntegrityError(message)`. -/
def auditIntegrityError (message : String) : Exc := .raised .auditIntegrityError message

/-- `raise SecurityDomainError(message)`. -/
def securityDomainError (message : String) : Exc := .raised .securityDomainError message

/-- `raise ActionCanonicalizationError(message)`. -/
def actionCanonicalizationError (message : String) : Exc :=
  .raised .actionCanonicalizationError message

/-- `raise DispatchDenied(message)`. -/
def dispatchDenied (message : String) : Exc := .raised .dispatchDenied message

/-- `raise SecretBrokerError(message)`. -/
def secretBrokerError (message : String) : Exc := .raised .secretBrokerError message

/-- `throw new Error(message)`. -/
def jsError (message : String) : Exc := .raised .jsError message

/-- The cryptographic primitives, of which the code relies on the size of a digest. -/
structure Crypto where
  /-- `hashlib.sha256(data).digest()`. -/
  sha256 : Bytes → Bytes
  /-- `hmac.digest(key, data, "sha256")`. -/
  hmac : Bytes → Bytes → Bytes
  sha256_length : ∀ data, (sha256 data).length = 32
  hmac_length : ∀ key data, (hmac key data).length = 32

/-- SHA-256 and HMAC themselves. -/
def Crypto.standard : Crypto where
  sha256 := Sha256.sha256
  hmac := Sha256.hmac
  sha256_length := Sha256.length_sha256
  hmac_length := Sha256.length_hmac

/-- `bytes.hex()`. -/
def hexdigest (b : Bytes) : Str :=
  b.flatMap fun x => [Nat.digitChar (x.toNat / 16), Nat.digitChar (x.toNat % 16)]

theorem hexdigest_cons (x : UInt8) (b : Bytes) : hexdigest (x :: b) =
    Nat.digitChar (x.toNat / 16) :: Nat.digitChar (x.toNat % 16) :: hexdigest b := rfl

theorem length_hexdigest (b : Bytes) : (hexdigest b).length = 2 * b.length := by
  induction b with
  | nil => rfl
  | cons x b ih =>
    rw [hexdigest_cons, List.length_cons, List.length_cons, ih, List.length_cons]
    omega

/-- What holds of the sixteen digits holds of the characters of a digest. -/
theorem forall_mem_hexdigest {p : Char → Prop} (hp : ∀ n < 16, p (Nat.digitChar n)) (b : Bytes) :
    ∀ c ∈ hexdigest b, p c := by
  intro c hc
  obtain ⟨x, -, hx⟩ := List.mem_flatMap.1 hc
  have hlt : x.toNat < 256 := x.toNat_lt
  rcases List.mem_pair.1 hx with rfl | rfl
  · exact hp _ (by omega)
  · exact hp _ (by omega)

/-- Hexadecimal is injective. -/
theorem hexdigest_injective : Function.Injective hexdigest := by
  have hdigit : ∀ m < 16, ∀ n < 16, Nat.digitChar m = Nat.digitChar n → m = n := by decide
  intro a b h
  induction a generalizing b with
  | nil =>
    rcases b with _ | ⟨y, b⟩
    · rfl
    · cases h
  | cons x a ih =>
    rcases b with _ | ⟨y, b⟩
    · cases h
    · simp only [hexdigest_cons, List.cons.injEq] at h
      obtain ⟨hhigh, hlow, hrest⟩ := h
      have hx : x.toNat < 256 := x.toNat_lt
      have hy : y.toNat < 256 := y.toNat_lt
      have hhigh := hdigit _ (by omega) _ (by omega) hhigh
      have hlow := hdigit _ (by omega) _ (by omega) hlow
      have hxy : x = y := UInt8.toNat_inj.1 (by omega)
      rw [hxy, ih hrest]

/-- `re.fullmatch(r"[a-f0-9]{64}", s)`. -/
def isHex64 (s : Str) : Bool :=
  s.length == 64 && s.all fun c => ('a' ≤ c && c ≤ 'f') || ('0' ≤ c && c ≤ '9')

theorem length_of_isHex64 {s : Str} (h : isHex64 s = true) : s.length = 64 := by
  rw [isHex64, Bool.and_eq_true, beq_iff_eq] at h
  exact h.1

/-- `str.isascii`. -/
def isAscii (s : Str) : Bool := s.all fun c => c.toNat < 128

/-- `int(value)` and `str(value)` of a value that `json` has read. -/
structure Builtins (F : Type) where
  /-- `int(value)`, or nothing where it raises. -/
  int : Json F → Option ℤ
  /-- `str(value)`. -/
  str : Json F → Str
  int_int : ∀ i, int (.int i) = some i
  str_str : ∀ s, str (.str s) = s

/-- `int` and `str` on integers and strings. -/
def plainBuiltins : Builtins Literal where
  int
    | .int i => some i
    | _ => none
  str
    | .str s => s
    | _ => []
  int_int := Json.asInt_int (F := Literal)
  str_str := Json.asStr_str (F := Literal)

end Bulldog
