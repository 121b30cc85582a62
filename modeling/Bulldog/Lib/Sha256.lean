import Bulldog.Lib.Text

/-!
# SHA-256 and HMAC

FIPS 180-4 and RFC 2104 on byte strings.
-/

namespace Bulldog.Sha256

/-- The round constants. -/
def roundConstants : List UInt32 :=
  [0x428a2f98, 0x71374491, 0xb5c0fbcf, 0xe9b5dba5, 0x3956c25b, 0x59f111f1, 0x923f82a4, 0xab1c5ed5,
   0xd807aa98, 0x12835b01, 0x243185be, 0x550c7dc3, 0x72be5d74, 0x80deb1fe, 0x9bdc06a7, 0xc19bf174,
   0xe49b69c1, 0xefbe4786, 0x0fc19dc6, 0x240ca1cc, 0x2de92c6f, 0x4a7484aa, 0x5cb0a9dc, 0x76f988da,
   0x983e5152, 0xa831c66d, 0xb00327c8, 0xbf597fc7, 0xc6e00bf3, 0xd5a79147, 0x06ca6351, 0x14292967,
   0x27b70a85, 0x2e1b2138, 0x4d2c6dfc, 0x53380d13, 0x650a7354, 0x766a0abb, 0x81c2c92e, 0x92722c85,
   0xa2bfe8a1, 0xa81a664b, 0xc24b8b70, 0xc76c51a3, 0xd192e819, 0xd6990624, 0xf40e3585, 0x106aa070,
   0x19a4c116, 0x1e376c08, 0x2748774c, 0x34b0bcb5, 0x391c0cb3, 0x4ed8aa4a, 0x5b9cca4f, 0x682e6ff3,
   0x748f82ee, 0x78a5636f, 0x84c87814, 0x8cc70208, 0x90befffa, 0xa4506ceb, 0xbef9a3f7, 0xc67178f2]

/-- The eight working variables. -/
structure State where
  a : UInt32
  b : UInt32
  c : UInt32
  d : UInt32
  e : UInt32
  f : UInt32
  g : UInt32
  h : UInt32

/-- The initial hash value. -/
def initial : State :=
  ⟨0x6a09e667, 0xbb67ae85, 0x3c6ef372, 0xa54ff53a, 0x510e527f, 0x9b05688c, 0x1f83d9ab, 0x5be0cd19⟩

/-- Rotation to the right. -/
def rotr (x : UInt32) (n : UInt32) : UInt32 := x >>> n ||| x <<< (32 - n)

/-- One round, with its constant and its word of the schedule. -/
def round (s : State) (k w : UInt32) : State :=
  let t₁ := s.h + (rotr s.e 6 ^^^ rotr s.e 11 ^^^ rotr s.e 25) +
    (s.e &&& s.f ^^^ ~~~ s.e &&& s.g) + k + w
  let t₂ := (rotr s.a 2 ^^^ rotr s.a 13 ^^^ rotr s.a 22) +
    (s.a &&& s.b ^^^ s.a &&& s.c ^^^ s.b &&& s.c)
  ⟨t₁ + t₂, s.a, s.b, s.c, s.d + t₁, s.e, s.f, s.g⟩

/-- The words of a block, big-endian. -/
def words : Bytes → List UInt32
  | b₀ :: b₁ :: b₂ :: b₃ :: rest =>
    (b₀.toUInt32 <<< 24 ||| b₁.toUInt32 <<< 16 ||| b₂.toUInt32 <<< 8 ||| b₃.toUInt32) :: words rest
  | _ => []

/-- The message schedule with `n` more words, newest first. -/
def extend : ℕ → List UInt32 → List UInt32
  | 0, ws => ws
  | n + 1, ws =>
    let w₂ := ws.getD 1 0
    let w₁₅ := ws.getD 14 0
    let s₀ := rotr w₁₅ 7 ^^^ rotr w₁₅ 18 ^^^ w₁₅ >>> 3
    let s₁ := rotr w₂ 17 ^^^ rotr w₂ 19 ^^^ w₂ >>> 10
    extend n ((ws.getD 15 0 + s₀ + ws.getD 6 0 + s₁) :: ws)

/-- One block. -/
def compress (s : State) (block : Bytes) : State :=
  let schedule := (extend 48 (words block).reverse).reverse
  let t := (roundConstants.zip schedule).foldl (fun s kw => round s kw.1 kw.2) s
  ⟨s.a + t.a, s.b + t.b, s.c + t.c, s.d + t.d, s.e + t.e, s.f + t.f, s.g + t.g, s.h + t.h⟩

/-- The `i`-th byte of `n` from the right. -/
def byteAt (n i : ℕ) : UInt8 := UInt8.ofNat (n / 256 ^ i)

/-- The message with its padding. -/
def pad (message : Bytes) : Bytes :=
  message ++ 0x80 :: List.replicate ((119 - message.length % 64) % 64) 0 ++
    [7, 6, 5, 4, 3, 2, 1, 0].map (byteAt (8 * message.length))

/-- The blocks of a padded message of at most `n` blocks. -/
def blocks : ℕ → Bytes → List Bytes
  | 0, _ => []
  | n + 1, b => if b = [] then [] else b.take 64 :: blocks n (b.drop 64)

/-- A word as four bytes, big-endian. -/
def wordBytes (w : UInt32) : Bytes := [3, 2, 1, 0].map (byteAt w.toNat)

/-- `hashlib.sha256(message).digest()`. -/
def sha256 (message : Bytes) : Bytes :=
  let s := (blocks (message.length / 64 + 2) (pad message)).foldl compress initial
  [s.a, s.b, s.c, s.d, s.e, s.f, s.g, s.h].flatMap wordBytes

/-- `hmac.digest(key, message, "sha256")`. -/
def hmac (key message : Bytes) : Bytes :=
  let key := if key.length > 64 then sha256 key else key
  let key := key ++ List.replicate (64 - key.length) 0
  sha256 (key.map (· ^^^ 0x5c) ++ sha256 (key.map (· ^^^ 0x36) ++ message))

example : sha256 (encodeUtf8 "abc") =
    [0xba, 0x78, 0x16, 0xbf, 0x8f, 0x01, 0xcf, 0xea, 0x41, 0x41, 0x40, 0xde, 0x5d, 0xae, 0x22, 0x23,
     0xb0, 0x03, 0x61, 0xa3, 0x96, 0x17, 0x7a, 0x9c, 0xb4, 0x10, 0xff, 0x61, 0xf2, 0x00, 0x15, 0xad] := by
  decide +kernel

theorem length_sha256 (message : Bytes) : (sha256 message).length = 32 := rfl

theorem length_hmac (key message : Bytes) : (hmac key message).length = 32 := rfl

end Bulldog.Sha256
