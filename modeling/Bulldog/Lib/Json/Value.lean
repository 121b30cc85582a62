import Mathlib
import Bulldog.Lib.Text

/-!
# JSON values

The values that Python's `json` reads and writes. An object is the list of its members in insertion
order, and `WF` says that its keys are distinct, as a `dict`'s are. `norm` is the value with every
object sorted by key, which is what `sort_keys=True` writes and the form in which two values are the
same Python value.

A finite float is known to `json` through `float.__repr__` and `float()` only, so floats are a
type with these two functions (`PyFloat`).
-/

namespace Bulldog

/-! ## Number tokens -/

/-- The integer part of a number token: `0`, or digits that do not start with `0`. -/
def scanInt : Str → Option (Str × Str)
  | [] => none
  | c :: s =>
    if c = '0' then some (['0'], s)
    else if c.isDigit then some (c :: s.takeWhile Char.isDigit, s.dropWhile Char.isDigit)
    else none

/-- The optional fraction of a number token, empty unless a digit follows the point. -/
def scanFrac : Str → Str × Str
  | [] => ([], [])
  | c :: s =>
    if c = '.' ∧ s.takeWhile Char.isDigit ≠ [] then
      (c :: s.takeWhile Char.isDigit, s.dropWhile Char.isDigit)
    else ([], c :: s)

/-- The optional sign of an exponent. -/
def scanSign : Str → Str × Str
  | [] => ([], [])
  | c :: s => if c = '+' ∨ c = '-' then ([c], s) else ([], c :: s)

/-- The optional exponent of a number token, empty unless it has a digit. -/
def scanExp : Str → Str × Str
  | [] => ([], [])
  | c :: s =>
    if (c = 'e' ∨ c = 'E') ∧ (scanSign s).2.takeWhile Char.isDigit ≠ [] then
      (c :: (scanSign s).1 ++ (scanSign s).2.takeWhile Char.isDigit,
        (scanSign s).2.dropWhile Char.isDigit)
    else ([], c :: s)

/-- The sign of a number token. -/
def scanMinus : Str → Str × Str
  | [] => ([], [])
  | c :: s => if c = '-' then ([c], s) else ([], c :: s)

/-- `NUMBER_RE.match`: the sign, the integer part, the fraction with the exponent, and the rest. -/
def scanNumber (s : Str) : Option (Str × Str × Str × Str) :=
  (scanInt (scanMinus s).2).map fun (ds, r) =>
    ((scanMinus s).1, ds, (scanFrac r).1 ++ (scanExp (scanFrac r).2).1, (scanExp (scanFrac r).2).2)

/-- The whole of `s` is a number token with a fraction or an exponent, which `json` reads as a
float. -/
def IsFloatToken (s : Str) : Prop :=
  ∃ sign ds fe, scanNumber s = some (sign, ds, fe, []) ∧ fe ≠ [] ∧ s = sign ++ ds ++ fe

/-- What the interpreter's `float` contributes to `json`. -/
class PyFloat (F : Type) where
  /-- `float.__repr__` of a finite value, and `NaN`, `Infinity`, or `-Infinity` of the others. -/
  text : F → Str
  /-- `math.isfinite`. -/
  finite : F → Bool
  /-- `float(token)`. -/
  ofToken : Str → F
  /-- The value of the constant `NaN`. -/
  nan : F
  /-- The value of the constant `Infinity`. -/
  inf : F
  /-- The value of the constant `-Infinity`. -/
  negInf : F
  /-- `repr` of a finite float is a token that `json` reads as a float. -/
  text_token : ∀ f, finite f = true → IsFloatToken (text f)
  /-- `float(repr(x)) == x`. -/
  ofToken_text : ∀ f, finite f = true → ofToken (text f) = f
  /-- There are no non-finite values besides the three constants. -/
  special : ∀ f, finite f = false → f = nan ∨ f = inf ∨ f = negInf
  text_nan : text nan = "NaN".toList
  text_inf : text inf = "Infinity".toList
  text_negInf : text negInf = "-Infinity".toList

instance (s : Str) : Decidable (IsFloatToken s) :=
  match h : scanNumber s with
  | some (sign, ds, fe, r) =>
    decidable_of_iff (r = [] ∧ fe ≠ [] ∧ s = sign ++ ds ++ fe) (by
      constructor
      · rintro ⟨rfl, hfe, hs⟩
        exact ⟨sign, ds, fe, h, hfe, hs⟩
      · rintro ⟨_, _, _, h', hfe, hs⟩
        cases h.symm.trans h'
        exact ⟨rfl, hfe, hs⟩)
  | none => isFalse fun ⟨_, _, _, h', _⟩ => by cases h.symm.trans h'

/-- Floats as the tokens that denote them, the simplest floats that `json` can tell apart. -/
inductive Literal where
  | finite (token : Str) (h : IsFloatToken token)
  | nan
  | inf
  | negInf

instance : PyFloat Literal where
  text
    | .finite token _ => token
    | .nan => "NaN".toList
    | .inf => "Infinity".toList
    | .negInf => "-Infinity".toList
  finite
    | .finite _ _ => true
    | _ => false
  ofToken token := if h : IsFloatToken token then .finite token h else .nan
  nan := .nan
  inf := .inf
  negInf := .negInf
  text_token
    | .finite _ h, _ => h
  ofToken_text
    | .finite _ h, _ => dif_pos h
  special
    | .nan, _ => .inl rfl
    | .inf, _ => .inr (.inl rfl)
    | .negInf, _ => .inr (.inr rfl)
  text_nan := rfl
  text_inf := rfl
  text_negInf := rfl

/-! ## Values -/

/-- A JSON value with floats in `F`. -/
inductive Json (F : Type) where
  | null
  | bool (b : Bool)
  | int (i : ℤ)
  | float (f : F)
  | str (s : Str)
  | arr (xs : List (Json F))
  | obj (fields : List (Str × Json F))

/-- The members of an object, in insertion order. -/
abbrev Fields (F : Type) := List (Str × Json F)

variable {F : Type}

-- what an interpreter's `int` and `str` give on their own values

theorem Json.asInt_int (i : ℤ) :
    (match (.int i : Json F) with
      | .int i => some i
      | _ => none) = some i := rfl

theorem Json.asStr_str (s : Str) :
    (match (.str s : Json F) with
      | .str s => s
      | _ => []) = s := rfl

/-- `d.get(key)`, with `None` for a missing key told apart from a null member. -/
def Fields.get (fs : Fields F) (k : Str) : Option (Json F) := fs.lookup k

/-- `set(d)`, as a list. -/
def Fields.keys (fs : Fields F) : List Str := fs.map Prod.fst

/-- `{k: v for k, v in d.items() if k != key}`. -/
def Fields.erase (fs : Fields F) (k : Str) : Fields F := fs.filter fun kv => kv.1 != k

/-- `d[key] = value`: in place when the key is there, and last otherwise. -/
def Fields.set (fs : Fields F) (k : Str) (v : Json F) : Fields F :=
  if k ∈ fs.keys then fs.map fun kv => if kv.1 = k then (k, v) else kv else fs ++ [(k, v)]

/-- Members sorted by key, as `sort_keys=True` writes them. -/
def Fields.sort (fs : Fields F) : Fields F := fs.insertionSort fun a b => a.1 ≤ b.1

mutual
/-- The value with every object sorted by key. -/
def Json.norm : Json F → Json F
  | .null => .null
  | .bool b => .bool b
  | .int i => .int i
  | .float f => .float f
  | .str s => .str s
  | .arr xs => .arr (normItems xs)
  | .obj fs => .obj (Fields.sort (normFields fs))
/-- `norm` on the items of an array. -/
def normItems : List (Json F) → List (Json F)
  | [] => []
  | x :: xs => x.norm :: normItems xs
/-- `norm` on the members of an object, which stay in place. -/
def normFields : Fields F → Fields F
  | [] => []
  | (k, v) :: fs => (k, v.norm) :: normFields fs
end

mutual
/-- The keys of every object are distinct. -/
def Json.WF : Json F → Prop
  | .arr xs => WFItems xs
  | .obj fs => (fs.map Prod.fst).Nodup ∧ WFFields fs
  | _ => True
/-- `WF` of every item. -/
def WFItems : List (Json F) → Prop
  | [] => True
  | x :: xs => x.WF ∧ WFItems xs
/-- `WF` of every member. -/
def WFFields : Fields F → Prop
  | [] => True
  | (_, v) :: fs => v.WF ∧ WFFields fs
end

/-- The interpreter's limit on the digits of an integer that it prints or reads. -/
def maxIntDigits : ℕ := 4300

mutual
/-- Whether `json.dumps` writes the value: no integer is too long, and unless `nan` is set no float
is non-finite (`allow_nan=False`). -/
def Json.writable [PyFloat F] (nan : Bool) : Json F → Bool
  | .int i => (Nat.toDigits 10 i.natAbs).length ≤ maxIntDigits
  | .float f => nan || PyFloat.finite f
  | .arr xs => writableItems nan xs
  | .obj fs => writableFields nan fs
  | _ => true
/-- `writable` of every item. -/
def writableItems [PyFloat F] (nan : Bool) : List (Json F) → Bool
  | [] => true
  | x :: xs => x.writable nan && writableItems nan xs
/-- `writable` of every member. -/
def writableFields [PyFloat F] (nan : Bool) : Fields F → Bool
  | [] => true
  | (_, v) :: fs => v.writable nan && writableFields nan fs
end

end Bulldog
