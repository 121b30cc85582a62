import Bulldog.Lib.Text

/-!
# URLs and paths

`unquote` and `urlsplit` of `urllib.parse`, `posixpath.normpath`, and the part of `PurePosixPath` that
programs compare paths with. `unquote` decodes the bytes of every run of ASCII characters on its own
and replaces what is not UTF-8.
-/

namespace Bulldog

/-- The tables, on ASCII characters. -/
def Unicode.ascii : Unicode where
  lower s := s.map Char.toLower
  upper s := s.map Char.toUpper
  nfkc s := s

/-! ## Percent escapes -/

/-- The value of a hexadecimal digit. -/
def hexDigit (c : Char) : Option ℕ :=
  if '0' ≤ c && c ≤ '9' then some (c.toNat - 48)
  else if 'a' ≤ c && c ≤ 'f' then some (c.toNat - 87)
  else if 'A' ≤ c && c ≤ 'F' then some (c.toNat - 55)
  else none

/-- `unquote_to_bytes` on ASCII characters. -/
def unquoteToBytes : Str → Bytes
  | [] => []
  | c :: s =>
    if c = '%' then
      match s with
      | h :: l :: rest =>
        match hexDigit h, hexDigit l with
        | some x, some y => UInt8.ofNat (16 * x + y) :: unquoteToBytes rest
        | _, _ => 0x25 :: unquoteToBytes (h :: l :: rest)
      | rest => 0x25 :: unquoteToBytes rest
    else UInt8.ofNat c.toNat :: unquoteToBytes s

/-- A byte from `lo` to `hi` at the front, less its two top bits. -/
def continuation (lo hi : ℕ) (bs : Bytes) : Option ℕ :=
  bs.head?.bind fun b =>
    if lo ≤ b.toNat && b.toNat ≤ hi then some (b.toNat % 64) else none

/-- The first character of UTF-8 bytes and the number of bytes it takes, where bytes that start no
character are replaced up to the first one that does not belong to them. -/
def decodeFirst (b : UInt8) (bs : Bytes) : Char × ℕ :=
  let n := b.toNat
  let bad := Char.ofNat 0xfffd
  if n < 0x80 then (Char.ofNat n, 1)
  else if 0xc2 ≤ n && n ≤ 0xdf then
    match continuation 0x80 0xbf bs with
    | some x => (Char.ofNat (n % 32 * 64 + x), 2)
    | none => (bad, 1)
  else if 0xe0 ≤ n && n ≤ 0xef then
    match continuation (if n = 0xe0 then 0xa0 else 0x80) (if n = 0xed then 0x9f else 0xbf) bs,
      continuation 0x80 0xbf (bs.drop 1) with
    | some x, some y => (Char.ofNat (n % 16 * 4096 + x * 64 + y), 3)
    | some _, none => (bad, 2)
    | none, _ => (bad, 1)
  else if 0xf0 ≤ n && n ≤ 0xf4 then
    match continuation (if n = 0xf0 then 0x90 else 0x80) (if n = 0xf4 then 0x8f else 0xbf) bs,
      continuation 0x80 0xbf (bs.drop 1), continuation 0x80 0xbf (bs.drop 2) with
    | some x, some y, some z => (Char.ofNat (n % 8 * 262144 + x * 4096 + y * 64 + z), 4)
    | some _, some _, none => (bad, 3)
    | some _, none, _ => (bad, 2)
    | none, _, _ => (bad, 1)
  else (bad, 1)

/-- `bytes.decode("utf-8", "replace")`, of at most `fuel` characters. -/
def decodeReplace : ℕ → Bytes → Str
  | 0, _ | _, [] => []
  | fuel + 1, b :: bs =>
    (decodeFirst b bs).1 :: decodeReplace fuel ((b :: bs).drop (decodeFirst b bs).2)

/-- One run of `unquote`: the decoded ASCII characters read so far, then the rest. -/
def unquoteRuns : Str → Str → Str
  | run, [] => decodeReplace run.length (unquoteToBytes run.reverse)
  | run, c :: s =>
    if c.toNat < 128 then unquoteRuns (c :: run) s
    else decodeReplace run.length (unquoteToBytes run.reverse) ++ c :: unquoteRuns [] s

/-- `unquote(s)`. -/
def unquote (s : Str) : Str := if '%' ∈ s then unquoteRuns [] s else s

/-! ## URLs -/

/-- `SplitResult`. -/
structure SplitResult where
  scheme : Str
  netloc : Str
  path : Str
  query : Str
  fragment : Str
  deriving DecidableEq

/-- What `urlsplit` takes from other libraries. -/
structure Urllib where
  unicode : Unicode
  /-- `ipaddress.ip_address(host)` is an IPv6 address. -/
  isIPv6 : Str → Bool

namespace Urllib

variable (L : Urllib)

/-- `re.match(r"\\Av[a-fA-F0-9]+\\..+\\Z", host)`, on a host that starts with `v`. -/
def isIPvFuture (host : Str) : Bool :=
  match (host.drop 1).span fun c => (hexDigit c).isSome with
  | (_ :: _, '.' :: c :: rest) => (c :: rest).all (· ≠ '\n')
  | _ => false

/-- `_check_bracketed_netloc(netloc)`, or nothing where it raises. -/
def checkBracketed (netloc : Str) : Option Unit :=
  let hostinfo := (Str.rpartition '@' netloc).2.2
  let (before, bracket, bracketed) := Str.partition '[' hostinfo
  let (host, _, port) := if bracket then Str.partition ']' bracketed else Str.partition ':' hostinfo
  if bracket && (before ≠ [] || (port ≠ [] && port.head? ≠ some ':')) then none
  else if host.head? = some 'v' then if isIPvFuture host then some () else none
  else if L.isIPv6 host then some () else none

/-- `_checknetloc(netloc)`, or nothing where it raises. -/
def checkNetloc (netloc : Str) : Option Unit :=
  let n := netloc.filter fun c => !(c == '@' || c == ':' || c == '#' || c == '?')
  let folded := L.unicode.nfkc n
  if netloc.all (·.toNat < 128) || n = folded then some ()
  else if folded.any fun c => c == '/' || c == '?' || c == '#' || c == '@' || c == ':' then none
  else some ()

/-- A character of a scheme. -/
def isSchemeChar (c : Char) : Bool :=
  c.toNat < 128 && (c.isAlphanum || c == '+' || c == '-' || c == '.')

/-- The scheme of a URL and what follows it. -/
def splitScheme (url : Str) : Str × Str :=
  match Str.partition ':' url with
  | (c :: scheme, true, rest) =>
    if c.isAlpha && (c :: scheme).all isSchemeChar then (L.unicode.lower (c :: scheme), rest)
    else ([], url)
  | _ => ([], url)

/-- The bracket checks on a network location, and its check for Unicode look-alikes. -/
def checkAuthority (netloc : Str) : Option Unit := do
  if ('[' ∈ netloc) != (']' ∈ netloc) then none
  else
    if '[' ∈ netloc then L.checkBracketed netloc
    L.checkNetloc netloc

/-- `urlsplit(url)`, or nothing where it raises `ValueError`. -/
def urlsplit (url : Str) : Option SplitResult := do
  let url := (url.dropWhile (·.toNat ≤ 0x20)).filter fun c => !(c == '\t' || c == '\r' || c == '\n')
  let (scheme, rest) := L.splitScheme url
  let (netloc, rest) := match rest with
    | '/' :: '/' :: rest => rest.span fun c => !(c == '/' || c == '?' || c == '#')
    | rest => ([], rest)
  let (rest, _, fragment) := Str.partition '#' rest
  let (path, _, query) := Str.partition '?' rest
  L.checkAuthority netloc
  return ⟨scheme, netloc, path, query, fragment⟩

/-- `result.hostname or ""`. -/
def hostname (result : SplitResult) : Str :=
  let hostinfo := (Str.rpartition '@' result.netloc).2.2
  let (_, bracket, bracketed) := Str.partition '[' hostinfo
  let (host, _, _) := if bracket then Str.partition ']' bracketed else Str.partition ':' hostinfo
  let (name, percent, zone) := Str.partition '%' host
  if host = [] then [] else L.unicode.lower name ++ (if percent then '%' :: zone else [])

/-- The most digits that `int` reads. -/
def maxPortDigits : ℕ := 4300

/-- `result.port`, or nothing where it raises `ValueError`. -/
def port (result : SplitResult) : Option (Option ℕ) :=
  let hostinfo := (Str.rpartition '@' result.netloc).2.2
  let (_, bracket, bracketed) := Str.partition '[' hostinfo
  let (_, _, digits) :=
    if bracket then Str.partition ':' (Str.partition ']' bracketed).2.2 else Str.partition ':' hostinfo
  if digits = [] then some none
  else if digits.all Char.isDigit ∧ digits.length ≤ maxPortDigits ∧
      Nat.ofDigitChars 10 digits 0 ≤ 65535 then some (some (Nat.ofDigitChars 10 digits 0))
  else none

/-- `result.username or result.password` is a string that is not empty. -/
def hasCredentials (result : SplitResult) : Bool :=
  let (userinfo, _, _) := Str.rpartition '@' result.netloc
  let (username, _, password) := Str.partition ':' userinfo
  username ≠ [] || password ≠ []

end Urllib

/-! ## Paths -/

/-- The components of `posixpath.normpath`, after the components `done` in reverse. -/
def normComponents (absolute : Bool) : List Str → List Str → List Str
  | seen, [] => seen.reverse
  | seen, comp :: comps =>
    if comp = [] ∨ comp = ['.'] then normComponents absolute seen comps
    else if comp ≠ ['.', '.'] ∨ (absolute = false ∧ seen = []) ∨ seen.head? = some ['.', '.'] then
      normComponents absolute (comp :: seen) comps
    else normComponents absolute seen.tail comps

/-- The leading slashes of a path that count: none, one, or two where there are exactly two. -/
def leadingSlashes (path : Str) : Str :=
  match path.takeWhile (· == '/') with
  | [] => []
  | ['/', '/'] => ['/', '/']
  | _ => ['/']

/-- `posixpath.normpath(path)`. -/
def normpath (path : Str) : Str :=
  let slashes := leadingSlashes path
  match slashes ++ ['/'].intercalate (normComponents (slashes ≠ []) [] (Str.splitOn '/' path)) with
  | [] => ['.']
  | normalized => normalized

/-- The root of a `PurePosixPath` and its other parts. -/
def pathParts (path : Str) : Str × List Str :=
  (leadingSlashes path, (Str.splitOn '/' path).filter fun part => part ≠ [] ∧ part ≠ ['.'])

/-- `str(PurePosixPath(path))`. -/
def pathStr (path : Str) : Str :=
  match (pathParts path).1 ++ ['/'].intercalate (pathParts path).2 with
  | [] => ['.']
  | text => text

/-- `PurePosixPath(path).relative_to(PurePosixPath(base))` does not raise. -/
def isRelativeTo (path base : Str) : Bool :=
  (pathParts path).1 == (pathParts base).1 && (pathParts base).2.isPrefixOf (pathParts path).2

end Bulldog
