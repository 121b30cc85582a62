import Bulldog.Lib.Json.Value

/-!
# Writing and reading JSON text

`dumps` is `json.dumps` with `sort_keys=True`, in the two separator styles that Python code uses and
with or without `ensure_ascii`; `loads` is `json.loads` on text. The reader is the scanner of
`json.scanner`: it recurses with fuel, of which the length of the text is enough, and returns what
it read and the text after it. A lone surrogate escape, which Python reads as a code point that no
UTF-8 text holds, has no `Char` and is refused.
-/

namespace Bulldog

/-- The separators and escapes of `json.dumps`. -/
structure Style where
  /-- `(", ", ": ")`, Python's default, rather than `(",", ":")`. -/
  spaced : Bool
  /-- `ensure_ascii`. -/
  ascii : Bool
  deriving DecidableEq

/-- What follows each `,` and `:`. -/
def Style.pad (st : Style) : Str := if st.spaced then [' '] else []

/-! ## Writing -/

/-- `\uXXXX`. -/
def unicodeEscape (n : ℕ) : Str :=
  ['\\', 'u', Nat.digitChar (n / 4096 % 16), Nat.digitChar (n / 256 % 16),
    Nat.digitChar (n / 16 % 16), Nat.digitChar (n % 16)]

/-- One character of a string literal. -/
def escapeChar (ascii : Bool) (c : Char) : Str :=
  if c = '"' then ['\\', '"']
  else if c = '\\' then ['\\', '\\']
  else if c = '\n' then ['\\', 'n']
  else if c = '\r' then ['\\', 'r']
  else if c = '\t' then ['\\', 't']
  else if c = '\x0c' then ['\\', 'f']
  else if c = '\x08' then ['\\', 'b']
  else if c.toNat < 0x20 then unicodeEscape c.toNat
  else if ascii = false ∨ c.toNat < 0x7f then [c]
  else if c.toNat < 0x10000 then unicodeEscape c.toNat
  else unicodeEscape (0xd800 + (c.toNat - 0x10000) / 0x400) ++
    unicodeEscape (0xdc00 + (c.toNat - 0x10000) % 0x400)

/-- A string literal. -/
def renderStr (ascii : Bool) (s : Str) : Str := '"' :: s.flatMap (escapeChar ascii) ++ ['"']

/-- `int.__repr__`. -/
def renderInt (i : ℤ) : Str :=
  if i < 0 then '-' :: Nat.toDigits 10 i.natAbs else Nat.toDigits 10 i.natAbs

section Write

variable {F : Type} [PyFloat F]

mutual
/-- The text of a value, with members in the order in which they stand. -/
def Json.render (st : Style) : Json F → Str
  | .null => "null".toList
  | .bool true => "true".toList
  | .bool false => "false".toList
  | .int i => renderInt i
  | .float f => PyFloat.text f
  | .str s => renderStr st.ascii s
  | .arr [] => ['[', ']']
  | .arr (x :: xs) => '[' :: (x.render st ++ renderItems st xs)
  | .obj [] => ['{', '}']
  | .obj ((k, v) :: fs) =>
    '{' :: (renderStr st.ascii k ++ ':' :: (st.pad ++ (v.render st ++ renderFields st fs)))
/-- The items after the first, and the closing bracket. -/
def renderItems (st : Style) : List (Json F) → Str
  | [] => [']']
  | x :: xs => ',' :: (st.pad ++ (x.render st ++ renderItems st xs))
/-- The members after the first, and the closing brace. -/
def renderFields (st : Style) : Fields F → Str
  | [] => ['}']
  | (k, v) :: fs =>
    ',' :: (st.pad ++ (renderStr st.ascii k ++ ':' :: (st.pad ++ (v.render st ++
      renderFields st fs))))
end

/-- `json.dumps(value, sort_keys=True, ...)`, or nothing where it raises. `nan` is `allow_nan`. -/
def dumps (st : Style) (nan : Bool) (v : Json F) : Option Str :=
  if v.writable nan then some (v.norm.render st) else none

end Write

/-! ## Reading -/

/-- JSON white space. -/
def isWs (c : Char) : Bool := c == ' ' || c == '\t' || c == '\n' || c == '\r'

/-- `WHITESPACE.match`. -/
def skipWs (s : Str) : Str := s.dropWhile isWs

/-- The value of a hexadecimal digit. -/
def hexVal (c : Char) : Option ℕ :=
  if '0' ≤ c ∧ c ≤ '9' then some (c.toNat - 48)
  else if 'a' ≤ c ∧ c ≤ 'f' then some (c.toNat - 87)
  else if 'A' ≤ c ∧ c ≤ 'F' then some (c.toNat - 55)
  else none

/-- The four hexadecimal digits after `\u`. -/
def hex4 : Str → Option (ℕ × Str)
  | a :: b :: c :: d :: s => do
    let a ← hexVal a
    let b ← hexVal b
    let c ← hexVal c
    let d ← hexVal d
    some (a * 4096 + b * 256 + c * 16 + d, s)
  | _ => none

/-- The second half of a surrogate pair. -/
def lowSurrogate : Str → Option (ℕ × Str)
  | a :: b :: s =>
    if a = '\\' ∧ b = 'u' then
      (hex4 s).bind fun (m, r) => if 0xdc00 ≤ m ∧ m < 0xe000 then some (m, r) else none
    else none
  | _ => none

/-- The character that `\u` starts. -/
def unicodeChar (s : Str) : Option (Char × Str) :=
  (hex4 s).bind fun (n, r) =>
    if 0xd800 ≤ n ∧ n < 0xdc00 then
      (lowSurrogate r).map fun (m, r') =>
        (Char.ofNat (0x10000 + (n - 0xd800) * 0x400 + (m - 0xdc00)), r')
    else if 0xdc00 ≤ n ∧ n < 0xe000 then none
    else some (Char.ofNat n, r)

/-- The character that an escape other than `\u` stands for. -/
def simpleEscape (e : Char) : Option Char :=
  if e = '"' ∨ e = '\\' ∨ e = '/' then some e
  else if e = 'b' then some '\x08'
  else if e = 'f' then some '\x0c'
  else if e = 'n' then some '\n'
  else if e = 'r' then some '\r'
  else if e = 't' then some '\t'
  else none

/-- The next character of a string literal, or `none` at the closing quote. -/
def stringStep : Str → Option (Option Char × Str)
  | [] => none
  | c :: s =>
    if c = '"' then some (none, s)
    else if c = '\\' then
      match s with
      | [] => none
      | e :: r =>
        if e = 'u' then (unicodeChar r).map fun (d, r') => (some d, r')
        else (simpleEscape e).map fun d => (some d, r)
    else if c.toNat < 0x20 then none
    else some (some c, s)

/-- The rest of a string literal, after its opening quote. -/
def parseChars : ℕ → Str → Option (Str × Str)
  | 0, _ => none
  | n + 1, s =>
    match stringStep s with
    | none => none
    | some (none, r) => some ([], r)
    | some (some c, r) => (parseChars n r).map fun (cs, r') => (c :: cs, r')

/-- A string literal. -/
def parseString : Str → Option (Str × Str)
  | [] => none
  | c :: s => if c = '"' then parseChars (s.length + 1) s else none

/-- The text after the keyword `w`. -/
def keyword (w s : Str) : Option Str := if w.isPrefixOf s then some (s.drop w.length) else none

/-- The text after the character `c`. -/
def expect (c : Char) : Str → Option Str
  | [] => none
  | d :: s => if d = c then some s else none

section Read

variable {F : Type} [PyFloat F]

/-- `int(token)`, which refuses too many digits. -/
def intOfToken (sign ds : Str) : Option (Json F) :=
  if ds.length ≤ maxIntDigits then
    some (.int (if sign = [] then (Nat.ofDigitChars 10 ds 0 : ℤ)
      else -(Nat.ofDigitChars 10 ds 0 : ℤ)))
  else none

/-- The constants `NaN`, `Infinity`, and `-Infinity`. -/
def parseConstant (s : Str) : Option (Json F × Str) :=
  ((keyword "NaN".toList s).map fun r => (.float PyFloat.nan, r)) <|>
    ((keyword "Infinity".toList s).map fun r => (.float PyFloat.inf, r)) <|>
    ((keyword "-Infinity".toList s).map fun r => (.float PyFloat.negInf, r))

/-- A number, or, when `consts` is set, one of the constants. -/
def parseNumber (consts : Bool) (s : Str) : Option (Json F × Str) :=
  match scanNumber s with
  | some (sign, ds, [], r) => (intOfToken sign ds).map fun v => (v, r)
  | some (sign, ds, fe, r) => some (.float (PyFloat.ofToken (sign ++ ds ++ fe)), r)
  | none => if consts then parseConstant s else none

/-- A value that is not a string, an array, or an object. -/
def parseAtom (consts : Bool) (s : Str) : Option (Json F × Str) :=
  ((keyword "null".toList s).map fun r => (.null, r)) <|>
    ((keyword "true".toList s).map fun r => (.bool true, r)) <|>
    ((keyword "false".toList s).map fun r => (.bool false, r)) <|>
    parseNumber consts s

mutual
/-- `scan_once`: the value at the start of the text, and the text after it. -/
def parseValue (consts : Bool) : ℕ → Str → Option (Json F × Str)
  | 0, _ => none
  | _ + 1, [] => none
  | n + 1, c :: s =>
    if c = '"' then (parseString (c :: s)).map fun (t, r) => (.str t, r)
    else if c = '[' then
      match expect ']' (skipWs s) with
      | some r => some (.arr [], r)
      | none => (parseItems consts n (skipWs s)).map fun (xs, r) => (.arr xs, r)
    else if c = '{' then
      match expect '}' (skipWs s) with
      | some r => some (.obj [], r)
      | none => (parseMembers consts n (skipWs s)).map fun (fs, r) => (.obj fs, r)
    else parseAtom consts (c :: s)
/-- The items of a nonempty array, and its closing bracket. -/
def parseItems (consts : Bool) : ℕ → Str → Option (List (Json F) × Str)
  | 0, _ => none
  | n + 1, s =>
    (parseValue consts n s).bind fun (x, r) =>
      match expect ',' (skipWs r) with
      | some r' => (parseItems consts n (skipWs r')).map fun (xs, r'') => (x :: xs, r'')
      | none => (expect ']' (skipWs r)).map fun r' => ([x], r')
/-- The members of a nonempty object, and its closing brace. -/
def parseMembers (consts : Bool) : ℕ → Str → Option (Fields F × Str)
  | 0, _ => none
  | n + 1, s =>
    (parseString s).bind fun (k, r) =>
      (expect ':' (skipWs r)).bind fun r =>
        (parseValue consts n (skipWs r)).bind fun (v, r) =>
          match expect ',' (skipWs r) with
          | some r' => (parseMembers consts n (skipWs r')).map fun (fs, r'') => ((k, v) :: fs, r'')
          | none => (expect '}' (skipWs r)).map fun r' => ([(k, v)], r')
end

/-- `JSONDecoder.decode` with every object kept as the list of its pairs. -/
def parse (consts : Bool) (s : Str) : Option (Json F) :=
  (parseValue consts (s.length + 1) (skipWs s)).bind fun (v, r) =>
    if skipWs r = [] then some v else none

/-- `dict(pairs)`: a repeated key keeps its first place and its last value. -/
def Fields.dict (fs : Fields F) : Fields F := fs.foldl (fun acc kv => acc.set kv.1 kv.2) []

mutual
/-- The value with a `dict` at every object. -/
def Json.dict : Json F → Json F
  | .arr xs => .arr (dictItems xs)
  | .obj fs => .obj (Fields.dict (dictFields fs))
  | v => v
/-- `dict` on items. -/
def dictItems : List (Json F) → List (Json F)
  | [] => []
  | x :: xs => x.dict :: dictItems xs
/-- `dict` on the values of members. -/
def dictFields : Fields F → Fields F
  | [] => []
  | (k, v) :: fs => (k, v.dict) :: dictFields fs
end

/-- `json.loads`, or nothing where it raises. -/
def loads (s : Str) : Option (Json F) := (parse true s).map Json.dict

end Read

end Bulldog
