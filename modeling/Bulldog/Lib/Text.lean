import Mathlib

/-!
# Text and bytes

Strings are lists of characters and byte strings lists of bytes, so that programs on them are
structural recursions and proofs about them are inductions. The functions are the string methods
of Python's `str` under their names there, and UTF-8 is the core library's.
-/

namespace Bulldog

/-- A string, as the list of its characters. -/
abbrev Str := List Char

/-- A byte string. -/
abbrev Bytes := List UInt8

instance : Coe String Str := ⟨String.toList⟩

-- the classes of texts and of lists of codes that definitions rely on, each under one name

instance lawfulBEq_str : LawfulBEq Str := inferInstance

instance lawfulBEq_codes : LawfulBEq (List ℕ) := inferInstance

instance isTrans_str : IsTrans Str (· ≤ ·) := inferInstance

instance antisymm_str : Std.Antisymm ((· ≤ ·) : Str → Str → Prop) := inferInstance

instance total_str : Std.Total ((· ≤ ·) : Str → Str → Prop) := inferInstance

/-- The interpreter's tables of Unicode. -/
structure Unicode where
  /-- `str.lower`. -/
  lower : Str → Str
  /-- `str.upper`. -/
  upper : Str → Str
  /-- `unicodedata.normalize("NFKC", s)`. -/
  nfkc : Str → Str

namespace Str

/-- `str.isspace` on one character: the white space that `strip` and `split` remove. -/
def isSpace (c : Char) : Bool :=
  let n := c.toNat
  (9 ≤ n && n ≤ 13) || (28 ≤ n && n ≤ 32) || n == 0x85 || n == 0xa0 || n == 0x1680 ||
    (0x2000 ≤ n && n ≤ 0x200a) || n == 0x2028 || n == 0x2029 || n == 0x202f || n == 0x205f ||
    n == 0x3000

/-- `s.rstrip(chars)`, with the characters given by a test. -/
def rstrip (p : Char → Bool) (s : Str) : Str := s.rdropWhile p

/-- `s.strip()`. -/
def strip (s : Str) : Str := rstrip isSpace (s.dropWhile isSpace)

/-- `s.split()`: the maximal runs of characters that are not white space. -/
def words : Str → List Str
  | [] => []
  | c :: s =>
    if isSpace c then words s
    else match s, words s with
      | [], _ => [[c]]
      | d :: _, w :: ws => if isSpace d then [c] :: w :: ws else (c :: w) :: ws
      | _, [] => [[c]]

/-- `s.split(sep)` at every occurrence of one character. -/
def splitOn (sep : Char) : Str → List Str
  | [] => [[]]
  | c :: s =>
    if c = sep then [] :: splitOn sep s
    else match splitOn sep s with
      | [] => [[c]]
      | w :: ws => (c :: w) :: ws

/-- Text mode: `\r\n` and `\r` are read as `\n`. -/
def universalNewlines : Str → Str
  | [] => []
  | c :: s =>
    if c = '\r' then
      if s.head? = some '\n' then universalNewlines s else '\n' :: universalNewlines s
    else c :: universalNewlines s

/-- The lines of a text file, without their ends. -/
def lines (s : Str) : List Str :=
  match (splitOn '\n' (universalNewlines s)).reverse with
  | [] :: ls => ls.reverse
  | ls => ls.reverse

/-- `sep in s` for a string `sep`. -/
def contains (s sub : Str) : Bool := s.tails.any fun t => sub.isPrefixOf t

/-- `s.partition(sep)` at the first occurrence of one character: what stands before it, whether it
occurs, and what stands after it. -/
def partition (sep : Char) (s : Str) : Str × Bool × Str :=
  match s.dropWhile (· != sep) with
  | [] => (s, false, [])
  | _ :: after => (s.takeWhile (· != sep), true, after)

/-- `s.rpartition(sep)` at the last occurrence of one character. When it does not occur, Python
puts the whole string last. -/
def rpartition (sep : Char) (s : Str) : Str × Bool × Str :=
  match partition sep s.reverse with
  | (_, false, _) => ([], false, s)
  | (after, true, before) => (before.reverse, true, after.reverse)

/-! ## Lines -/

theorem universalNewlines_eq {s : Str} (h : '\r' ∉ s) : universalNewlines s = s := by
  induction s with
  | nil => rfl
  | cons c s ih =>
    obtain ⟨hc, hs⟩ := not_or.1 (mt List.mem_cons.2 h)
    rw [universalNewlines, if_neg (Ne.symm hc), ih hs]

theorem splitOn_append {sep : Char} {t : Str} (ht : sep ∉ t) (s : Str) :
    splitOn sep (t ++ sep :: s) = t :: splitOn sep s := by
  induction t with
  | nil => rw [List.nil_append, splitOn, if_pos rfl]
  | cons c t ih =>
    obtain ⟨hc, ht⟩ := not_or.1 (mt List.mem_cons.2 ht)
    rw [List.cons_append, splitOn, if_neg (Ne.symm hc), ih ht]

/-- A text file of whole lines has these lines. -/
theorem lines_flatMap {ts : List Str} (hn : ∀ t ∈ ts, '\n' ∉ t) (hr : ∀ t ∈ ts, '\r' ∉ t) :
    lines (ts.flatMap (· ++ ['\n'])) = ts := by
  have hsplit : splitOn '\n' (ts.flatMap (· ++ ['\n'])) = ts ++ [[]] := by
    induction ts with
    | nil => rfl
    | cons t ts ih =>
      rw [List.flatMap_cons, List.append_assoc, List.singleton_append,
        splitOn_append (hn t List.mem_cons_self),
        ih (fun x hx => hn x (List.mem_cons_of_mem _ hx)) fun x hx => hr x (List.mem_cons_of_mem _ hx)]
      rfl
  have hcr : '\r' ∉ ts.flatMap (· ++ ['\n']) := by
    simp only [List.mem_flatMap, List.mem_append, List.mem_singleton, not_exists, not_and, not_or]
    exact fun t ht => ⟨hr t ht, by decide⟩
  rw [lines, universalNewlines_eq hcr, hsplit, List.reverse_append]
  simp

/-- A string with no white space at its ends is its own `strip()`. -/
theorem strip_eq {c d : Char} {t : Str} (hc : isSpace c = false) (hd : isSpace d = false) :
    strip (c :: t ++ [d]) = c :: t ++ [d] := by
  rw [strip, rstrip, List.cons_append, List.dropWhile_cons_of_neg (by simp [hc]),
    ← List.cons_append, List.rdropWhile_concat_neg _ _ _ (by simp [hd])]

end Str

/-- `s.encode("utf-8")`. -/
def encodeUtf8 (s : Str) : Bytes := s.flatMap String.utf8EncodeChar

/-- `b.decode("utf-8")`, or nothing where Python raises `UnicodeDecodeError`. -/
def decodeUtf8 (b : Bytes) : Option Str := b.toByteArray.utf8Decode?.map Array.toList

/-- Decoding what was encoded gives the string back. -/
theorem decodeUtf8_encodeUtf8 (s : Str) : decodeUtf8 (encodeUtf8 s) = some s := by
  have h : (encodeUtf8 s).toByteArray = s.utf8Encode := rfl
  rw [decodeUtf8, h, List.utf8Decode?_utf8Encode]
  rfl

/-- UTF-8 is injective. -/
theorem encodeUtf8_injective : Function.Injective encodeUtf8 := by
  intro s t h
  have hd := congrArg decodeUtf8 h
  rw [decodeUtf8_encodeUtf8, decodeUtf8_encodeUtf8] at hd
  exact Option.some.inj hd

theorem encodeUtf8_append (s t : Str) : encodeUtf8 (s ++ t) = encodeUtf8 s ++ encodeUtf8 t := by
  simp [encodeUtf8]

theorem length_encodeUtf8_le (s : Str) : (encodeUtf8 s).length ≤ 4 * s.length := by
  induction s with
  | nil => simp [encodeUtf8]
  | cons c s ih =>
    have hc := c.utf8Size_le_four
    simp only [encodeUtf8, List.flatMap_cons, List.length_append, String.length_utf8EncodeChar,
      List.length_cons] at ih ⊢
    omega

end Bulldog
