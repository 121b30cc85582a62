import Bulldog.Lib.Json.Normal

/-!
# Writing Python values

`json.dumps(value, sort_keys=True)` of any Python value. A tuple is written as a list, and a key that
is a number, a boolean or `None` as a string; the members of a `dict` are sorted as Python sorts the
keys themselves, and only then are the keys turned into strings. What is written is read back as the
value that a second `dumps` writes alike exactly when the strings are in increasing order too
(`Json.dict_norm_eq_iff`). A string may hold the two surrogates of a character as two code points of
their own: they are sorted as these, and read back as the character.
-/

namespace Bulldog

/-! ## Values -/

/-- A character of a string, or the two surrogates that stand for one. -/
inductive PyChar where
  | char (c : Char)
  | surrogates (c : Char) (h : 0x10000 ≤ c.toNat)

/-- `ord` of the one or of the two. -/
def PyChar.codePoints : PyChar → List ℕ
  | .char c => [c.toNat]
  | .surrogates c _ => [0xd800 + (c.toNat - 0x10000) / 0x400, 0xdc00 + (c.toNat - 0x10000) % 0x400]

/-- The character that is read back. -/
def PyChar.read : PyChar → Char
  | .char c => c
  | .surrogates c _ => c

/-- `ensure_ascii` writes two surrogates as it writes their character. -/
theorem escapeChar_surrogates (c : Char) (h : 0x10000 ≤ c.toNat) :
    escapeChar true c = (PyChar.surrogates c h).codePoints.flatMap unicodeEscape := by
  have hne {d : Char} (hd : d.toNat < 0x10000) : c ≠ d := fun heq => absurd (heq ▸ hd) (not_lt.2 h)
  unfold escapeChar
  rw [if_neg (hne (by decide)), if_neg (hne (by decide)), if_neg (hne (by decide)), if_neg (hne (by decide)),
    if_neg (hne (by decide)), if_neg (hne (by decide)), if_neg (hne (by decide)), if_neg (by omega),
    if_neg (by simp; omega), if_neg (by omega)]
  simp [PyChar.codePoints]

/-- A string that has surrogates, none of them alone. -/
abbrev PyStr := List PyChar

/-- A key of a `dict`. -/
inductive PyKey (F : Type) where
  | none
  | bool (b : Bool)
  | int (i : ℤ)
  | float (f : F)
  | str (s : Str)
  | pyStr (s : PyStr)
  /-- A key of any other type. -/
  | object

/-- A Python value. -/
inductive PyValue (F : Type) where
  | none
  | bool (b : Bool)
  | int (i : ℤ)
  | float (f : F)
  | str (s : Str)
  | pyStr (s : PyStr)
  /-- A list or a tuple. -/
  | list (items : List (PyValue F))
  | dict (members : List (PyKey F × PyValue F))
  /-- A value of any other type. -/
  | object

/-- How the interpreter sorts the items of a `dict`, or nothing where it raises. -/
structure PySort (F : Type) where
  sort : List (PyKey F × Json F) → Option (List (PyKey F × Json F))
  /-- Strings are sorted by their code points. -/
  sort_str : ∀ fs : Fields F, fs.keys.Nodup →
    sort (fs.map fun kv => (.str kv.1, kv.2)) = some (fs.sort.map fun kv => (.str kv.1, kv.2))

section Write

variable {F : Type} [PyFloat F]

/-- The string that stands for a key, or nothing where `json` raises. -/
def PyKey.text : PyKey F → Option Str
  | .none => some "null".toList
  | .bool true => some "true".toList
  | .bool false => some "false".toList
  | .int i => some (renderInt i)
  | .float f => some (PyFloat.text f)
  | .str s => some s
  | .pyStr s => some (s.map PyChar.read)
  | .object => Option.none

/-- Members under the strings of their keys. -/
def nameMembers (members : List (PyKey F × Json F)) : Option (Fields F) :=
  members.mapM fun kv => kv.1.text.map fun name => (name, kv.2)

variable (P : PySort F)

mutual
/-- What `json.dumps` with `ensure_ascii` writes for a value, or nothing where it raises. -/
def PyValue.json : PyValue F → Option (Json F)
  | .none => some .null
  | .bool b => some (.bool b)
  | .int i => some (.int i)
  | .float f => some (.float f)
  | .str s => some (.str s)
  | .pyStr s => some (.str (s.map PyChar.read))
  | .list items => (jsonItems items).map .arr
  | .dict members => do
    let members ← jsonMembers members
    let sorted ← P.sort members
    (nameMembers sorted).map .obj
  | .object => Option.none
/-- `json` of every item. -/
def jsonItems : List (PyValue F) → Option (List (Json F))
  | [] => some []
  | x :: xs => do
    let x ← x.json
    let xs ← jsonItems xs
    return x :: xs
/-- `json` of the value of every member. -/
def jsonMembers : List (PyKey F × PyValue F) → Option (List (PyKey F × Json F))
  | [] => some []
  | (k, v) :: members => do
    let v ← v.json
    let members ← jsonMembers members
    return (k, v) :: members
end

/-- `json.dumps(value, sort_keys=True)`. -/
def PySort.dumps (st : Style) (value : PyValue F) : Option Str :=
  (value.json P).bind fun v => if v.writable true then some (v.render st) else none

/-- A `dict` with strings as keys. -/
abbrev PyFields (F : Type) := List (Str × PyValue F)

/-- `d[key] = value`: in place when the key is there, and last otherwise. -/
def PyFields.set (k : Str) (v : PyValue F) : PyFields F → PyFields F
  | [] => [(k, v)]
  | (k', v') :: fs => if k' = k then (k, v) :: fs else (k', v') :: PyFields.set k v fs

/-- `{k: v for k, v in d.items() if k != key}`. -/
def PyFields.erase (fs : PyFields F) (k : Str) : PyFields F := fs.filter fun kv => kv.1 != k

/-- The `dict` itself. -/
def PyFields.value (fs : PyFields F) : PyValue F := .dict (fs.map fun kv => (.str kv.1, kv.2))

/-- What `json.dumps` writes for the values of a `dict` with strings as keys. -/
def PyFields.fields : PyFields F → Option (Fields F)
  | [] => some []
  | (k, v) :: fs => (v.json P).bind fun j => (PyFields.fields fs).map ((k, j) :: ·)

variable {P}

theorem fields_cons {k : Str} {v : PyValue F} {fs : PyFields F} {J : Fields F} :
    PyFields.fields P ((k, v) :: fs) = some J ↔
      ∃ j J', v.json P = some j ∧ PyFields.fields P fs = some J' ∧ J = (k, j) :: J' := by
  simp only [PyFields.fields, Option.bind_eq_some_iff, Option.map_eq_some_iff]
  constructor
  · rintro ⟨j, hj, J', hJ', rfl⟩
    exact ⟨j, J', hj, hJ', rfl⟩
  · rintro ⟨j, J', hj, hJ', rfl⟩
    exact ⟨j, hj, J', hJ', rfl⟩

theorem jsonMembers_str (fs : PyFields F) :
    jsonMembers P (fs.map fun kv => (.str kv.1, kv.2)) =
      (fs.fields P).map fun J => J.map fun kv => (.str kv.1, kv.2) := by
  induction fs with
  | nil => rfl
  | cons kv fs ih =>
    obtain ⟨k, v⟩ := kv
    rw [List.map_cons, jsonMembers, ih, PyFields.fields]
    rcases v.json P with _ | j
    · rfl
    · rcases PyFields.fields P fs with _ | J <;> rfl

theorem nameMembers_str (fs : Fields F) :
    nameMembers (fs.map fun kv => (.str kv.1, kv.2)) = some fs := by
  induction fs with
  | nil => rfl
  | cons kv fs ih =>
    rw [List.map_cons, nameMembers, List.mapM_cons, ← nameMembers, ih]
    rfl

theorem keys_fields {fs : PyFields F} {J : Fields F} (h : fs.fields P = some J) :
    J.keys = fs.map Prod.fst := by
  induction fs generalizing J with
  | nil =>
    obtain rfl := Option.some.inj h
    rfl
  | cons kv fs ih =>
    obtain ⟨j, J', -, hJ', rfl⟩ := fields_cons.1 h
    rw [List.map_cons, ← ih hJ']
    rfl

/-- A `dict` with strings as keys is written with its members sorted by key. -/
theorem value_json {fs : PyFields F} (hnd : (fs.map Prod.fst).Nodup) {j : Json F} :
    fs.value.json P = some j ↔ ∃ J, fs.fields P = some J ∧ j = .obj J.sort := by
  rw [PyFields.value, PyValue.json, jsonMembers_str]
  rcases hJ : fs.fields P with _ | J
  · constructor
    · nofun
    · rintro ⟨J, hnone, -⟩
      cases hnone
  · have hsort := P.sort_str J ((keys_fields hJ).symm ▸ hnd)
    have hwritten : (do
        let members ← (some J).map fun J => J.map fun kv => (PyKey.str kv.1, kv.2)
        let sorted ← P.sort members
        (nameMembers sorted).map Json.obj : Option (Json F)) = some (.obj J.sort) := by
      simp only [Option.map_some, Option.bind_eq_bind, Option.bind_some, hsort, nameMembers_str]
    rw [hwritten]
    constructor
    · intro h
      exact ⟨J, rfl, (Option.some.inj h).symm⟩
    · rintro ⟨J', hJ', rfl⟩
      obtain rfl := Option.some.inj hJ'
      rfl

theorem PySort.dumps_eq_some {st : Style} {value : PyValue F} {t : Str} :
    P.dumps st value = some t ↔
      ∃ j, value.json P = some j ∧ j.writable true = true ∧ j.render st = t := by
  rw [PySort.dumps, Option.bind_eq_some_iff]
  refine exists_congr fun j => and_congr_right fun _ => ?_
  split_ifs with hw <;> simp [hw]

theorem fields_of_dumps {st : Style} {record : PyFields F} {t : Str}
    (hnd : (record.map Prod.fst).Nodup) (h : P.dumps st record.value = some t) :
    ∃ R, record.fields P = some R ∧ (Json.obj R.sort).writable true = true ∧
      (Json.obj R.sort).render st = t := by
  obtain ⟨j, hjson, hw, ht⟩ := PySort.dumps_eq_some.1 h
  obtain ⟨R, hR, rfl⟩ := (value_json hnd).1 hjson
  exact ⟨R, hR, hw, ht⟩

theorem fields_erase {fs : PyFields F} {J : Fields F} (h : fs.fields P = some J) (k : Str) :
    (fs.erase k).fields P = some (J.erase k) := by
  induction fs generalizing J with
  | nil =>
    obtain rfl := Option.some.inj h
    rfl
  | cons kv fs ih =>
    obtain ⟨j, J', hj, hJ', rfl⟩ := fields_cons.1 h
    obtain ⟨k', v⟩ := kv
    simp only [PyFields.erase, Fields.erase, List.filter_cons] at ih ⊢
    split_ifs
    · exact fields_cons.2 ⟨j, _, hj, ih hJ', rfl⟩
    · exact ih hJ'

theorem get_fields {fs : PyFields F} {J : Fields F} (h : fs.fields P = some J) (k : Str) :
    J.get k = (fs.lookup k).bind fun v => v.json P := by
  induction fs generalizing J with
  | nil =>
    obtain rfl := Option.some.inj h
    rfl
  | cons kv fs ih =>
    obtain ⟨j, J', hj, hJ', rfl⟩ := fields_cons.1 h
    obtain ⟨k', v⟩ := kv
    rw [Fields.get, List.lookup_cons, List.lookup_cons]
    rcases k == k' with _ | _
    · exact ih hJ'
    · exact hj.symm

end Write

section Plain

variable {F : Type}

/-- A key that is a string. -/
def PyKey.strOf : PyKey F → Option Str
  | .str s => some s
  | _ => Option.none

/-- A key that is an integer. -/
def PyKey.intOf : PyKey F → Option ℤ
  | .int i => some i
  | _ => Option.none

/-- The code points of a key that is a string, and the key. -/
def PyKey.pointsOf : PyKey F → Option (List ℕ × PyKey F)
  | .str s => some (s.map Char.toNat, .str s)
  | .pyStr s => some (s.flatMap PyChar.codePoints, .pyStr s)
  | _ => Option.none

/-- The members under keys of one type. -/
def membersOf {κ : Type} (key : PyKey F → Option κ) (members : List (PyKey F × Json F)) :
    Option (List (κ × Json F)) :=
  members.mapM fun kv => (key kv.1).map fun k => (k, kv.2)

theorem membersOf_str (fs : Fields F) :
    membersOf PyKey.strOf (fs.map fun kv => (.str kv.1, kv.2)) = some fs := by
  induction fs with
  | nil => rfl
  | cons kv fs ih =>
    rw [List.map_cons, membersOf, List.mapM_cons, ← membersOf, ih]
    rfl

/-- Sorting of strings among strings, and of integers among integers. Of the other keys only those
of a `dict` with at most one member are in order. -/
def PySort.plain : PySort F where
  sort members :=
    match membersOf PyKey.strOf members with
    | some fs => some ((Fields.sort fs).map fun kv => (.str kv.1, kv.2))
    | none =>
      match membersOf PyKey.intOf members with
      | some is => some ((is.insertionSort fun a b => a.1 ≤ b.1).map fun kv => (.int kv.1, kv.2))
      | none =>
        match membersOf PyKey.pointsOf members with
        | some ps => some ((ps.insertionSort fun a b => a.1.1 ≤ b.1.1).map fun kv => (kv.1.2, kv.2))
        | none => if members.length ≤ 1 then some members else none
  sort_str fs _ := by
    rw [membersOf_str]

end Plain

section Set

variable {F : Type}

theorem lookup_of_mem {fs : PyFields F} (h : (fs.map Prod.fst).Nodup) {kv : Str × PyValue F}
    (hkv : kv ∈ fs) : fs.lookup kv.1 = some kv.2 := by
  obtain ⟨l₁, l₂, rfl⟩ := List.append_of_mem hkv
  refine List.lookup_eq_some_iff.2 ⟨l₁, l₂, rfl, fun p hp => ?_⟩
  simp only [List.map_append, List.map_cons, List.nodup_append] at h
  simpa using (h.2.2 p.1 (List.mem_map_of_mem hp) kv.1 (by simp)).symm

theorem lookup_set_self (fs : PyFields F) (k : Str) (v : PyValue F) :
    (fs.set k v).lookup k = some v := by
  induction fs with
  | nil => simp [PyFields.set]
  | cons kv fs ih =>
    rw [PyFields.set]
    split_ifs with hk
    · rw [List.lookup_cons_self]
    · rw [List.lookup_cons, beq_eq_false_iff_ne.2 (Ne.symm hk)]
      exact ih

theorem lookup_set_of_ne (fs : PyFields F) {k k' : Str} (v : PyValue F) (h : k' ≠ k) :
    (fs.set k v).lookup k' = fs.lookup k' := by
  induction fs with
  | nil => simp [PyFields.set, h]
  | cons kv fs ih =>
    rw [PyFields.set]
    split_ifs with hk
    · rw [List.lookup_cons, List.lookup_cons, beq_eq_false_iff_ne.2 h, hk,
        beq_eq_false_iff_ne.2 h]
    · rw [List.lookup_cons, List.lookup_cons, ih]

theorem erase_set (fs : PyFields F) (k : Str) (v : PyValue F) :
    (fs.set k v).erase k = fs.erase k := by
  induction fs with
  | nil => simp [PyFields.set, PyFields.erase]
  | cons kv fs ih =>
    simp only [PyFields.erase] at ih ⊢
    rw [PyFields.set]
    split_ifs with hk
    · simp [hk]
    · rw [List.filter_cons, List.filter_cons, ih]

theorem mem_keys_set {fs : PyFields F} {k k' : Str} {v : PyValue F} :
    k' ∈ (fs.set k v).map Prod.fst ↔ k' = k ∨ k' ∈ fs.map Prod.fst := by
  induction fs with
  | nil => simp [PyFields.set]
  | cons kv fs ih =>
    rw [PyFields.set]
    split_ifs with hk
    · simp [hk]
    · rw [List.map_cons, List.mem_cons, ih, List.map_cons, List.mem_cons]
      exact or_left_comm

theorem nodup_keys_set {fs : PyFields F} (h : (fs.map Prod.fst).Nodup) (k : Str) (v : PyValue F) :
    ((fs.set k v).map Prod.fst).Nodup := by
  induction fs with
  | nil => simp [PyFields.set]
  | cons kv fs ih =>
    rw [List.map_cons, List.nodup_cons] at h
    rw [PyFields.set]
    split_ifs with hk
    · rw [List.map_cons, List.nodup_cons, ← hk]
      exact h
    · rw [List.map_cons, List.nodup_cons, mem_keys_set]
      exact ⟨fun hmem => hmem.elim hk h.1, ih h.2⟩

theorem nodup_keys_erase {fs : PyFields F} (h : (fs.map Prod.fst).Nodup) (k : Str) :
    ((fs.erase k).map Prod.fst).Nodup :=
  h.sublist (List.filter_sublist.map _)

end Set

/-! ## Reading back -/

section Increasing

variable {F : Type}

mutual
/-- The keys of every object are in increasing order. -/
def Json.Increasing : Json F → Prop
  | .arr xs => IncreasingItems xs
  | .obj fs => (fs.map Prod.fst).Pairwise (· < ·) ∧ IncreasingFields fs
  | _ => True
/-- `Increasing` of every item. -/
def IncreasingItems : List (Json F) → Prop
  | [] => True
  | x :: xs => x.Increasing ∧ IncreasingItems xs
/-- `Increasing` of every member. -/
def IncreasingFields : Fields F → Prop
  | [] => True
  | (_, v) :: fs => v.Increasing ∧ IncreasingFields fs
end

theorem Fields.nodup_dict (fs : Fields F) : fs.dict.keys.Nodup := by
  have hfold : ∀ (fs acc : Fields F), acc.keys.Nodup →
      (fs.foldl (fun acc kv => acc.set kv.1 kv.2) acc).keys.Nodup := by
    intro fs
    induction fs with
    | nil => exact fun _ h => h
    | cons kv fs ih => exact fun acc h => ih _ (Fields.nodup_set h kv.1 kv.2)
  exact hfold fs [] List.nodup_nil

theorem Fields.get_erase_of_ne (fs : Fields F) {k k' : Str} (h : k' ≠ k) :
    (fs.erase k).get k' = fs.get k' := by
  induction fs with
  | nil => rfl
  | cons kv fs ih =>
    simp only [Fields.get, Fields.erase, List.filter_cons] at ih ⊢
    split_ifs with hk
    · rw [List.lookup_cons, List.lookup_cons, ih]
    · have hkv : kv.1 = k := by simpa using hk
      rw [List.lookup_cons, hkv, beq_eq_false_iff_ne.2 h]
      exact ih

theorem Fields.mem_dict {fs : Fields F} {kv : Str × Json F} (h : kv ∈ fs.dict) : kv ∈ fs := by
  have hfold : ∀ (fs acc : Fields F), kv ∈ fs.foldl (fun acc kv => acc.set kv.1 kv.2) acc →
      kv ∈ acc ∨ kv ∈ fs := by
    intro fs
    induction fs with
    | nil => exact fun _ h => .inl h
    | cons x fs ih =>
      intro acc h
      rcases ih _ h with h | h
      · rcases Fields.mem_set h with rfl | h
        · exact .inr List.mem_cons_self
        · exact .inl (List.mem_of_mem_filter h)
      · exact .inr (List.mem_cons_of_mem _ h)
  exact (hfold fs [] h).resolve_left List.not_mem_nil

mutual
/-- What `json.loads` makes has distinct keys. -/
theorem Json.WF_dict : ∀ v : Json F, v.dict.WF
  | .null => trivial
  | .bool _ => trivial
  | .int _ => trivial
  | .float _ => trivial
  | .str _ => trivial
  | .arr xs => WFItems_dict xs
  | .obj fs => by
    refine ⟨Fields.nodup_dict _, (WFFields_iff _).2 fun kv hkv => ?_⟩
    exact (WFFields_iff _).1 (WFFields_dict fs) kv (Fields.mem_dict hkv)

theorem WFItems_dict : ∀ xs : List (Json F), WFItems (dictItems xs)
  | [] => trivial
  | x :: xs => ⟨Json.WF_dict x, WFItems_dict xs⟩

theorem WFFields_dict : ∀ fs : Fields F, WFFields (dictFields fs)
  | [] => trivial
  | (_, v) :: fs => ⟨Json.WF_dict v, WFFields_dict fs⟩
end

theorem dictFields_eq_map (fs : Fields F) : dictFields fs = fs.map fun kv => (kv.1, kv.2.dict) := by
  induction fs with
  | nil => rfl
  | cons kv fs ih => rw [dictFields, ih]; rfl

theorem keys_dictFields (fs : Fields F) : (dictFields fs).map Prod.fst = fs.map Prod.fst := by
  rw [dictFields_eq_map, List.map_map]
  rfl

theorem dictFields_erase (fs : Fields F) (k : Str) :
    dictFields (fs.erase k) = Fields.erase (dictFields fs) k := by
  rw [dictFields_eq_map, dictFields_eq_map, Fields.erase, Fields.erase, List.filter_map]
  rfl

theorem get_dictFields (fs : Fields F) (k : Str) :
    Fields.get (dictFields fs) k = (fs.get k).map Json.dict := by
  induction fs with
  | nil => rfl
  | cons kv fs ih =>
    obtain ⟨k', v⟩ := kv
    simp only [Fields.get, dictFields, List.lookup] at ih ⊢
    cases k == k' with
    | true => rfl
    | false => exact ih

theorem increasingFields_iff (fs : Fields F) :
    IncreasingFields fs ↔ ∀ kv ∈ fs, kv.2.Increasing := by
  induction fs with
  | nil => simp [IncreasingFields]
  | cons kv fs ih => simp [IncreasingFields, ih]

/-- Members in increasing order are as `dict` and `sort_keys` leave them. -/
theorem sort_dict_of_increasing {fs : Fields F} (h : (fs.map Prod.fst).Pairwise (· < ·)) :
    fs.dict = fs ∧ fs.sort = fs := by
  refine ⟨Fields.dict_of_nodup (h.imp fun hlt heq => ?_), Fields.sort_of_pairwise ?_⟩
  · exact lt_irrefl _ (heq ▸ hlt)
  · exact (List.pairwise_map.1 h).imp fun hlt => le_of_lt hlt

/-- Members in order and with distinct keys are in increasing order. -/
theorem increasing_of_sorted {fs : Fields F} (hsorted : fs.Pairwise Fields.le)
    (hnodup : (fs.map Prod.fst).Nodup) : (fs.map Prod.fst).Pairwise (· < ·) := by
  have hle : (fs.map Prod.fst).Pairwise (· ≤ ·) := List.pairwise_map.2 hsorted
  refine (hle.and hnodup).imp fun {a b} hab => ?_
  by_contra hnot
  exact hab.2 (le_antisymm hab.1 (not_lt.1 hnot))

/-- A sorted `dict` is in increasing order where its values are. -/
theorem increasing_sort {fs : Fields F} (hnd : fs.keys.Nodup) :
    (Json.obj fs.sort).Increasing ↔ ∀ kv ∈ fs, kv.2.Increasing := by
  rw [Json.Increasing, increasingFields_iff]
  have hnodup : (fs.sort.map Prod.fst).Nodup := (fs.sort_perm.map Prod.fst).nodup_iff.2 hnd
  constructor
  · exact fun h kv hkv => h.2 kv (fs.sort_perm.mem_iff.2 hkv)
  · exact fun h => ⟨increasing_of_sorted fs.sort_pairwise hnodup,
      fun kv hkv => h kv (fs.sort_perm.mem_iff.1 hkv)⟩

mutual
/-- What is read back is written alike exactly when every object is in increasing order. -/
theorem Json.dict_norm_eq_iff : ∀ v : Json F, v.dict.norm = v ↔ v.Increasing
  | .null => by simp [Json.dict, Json.norm, Json.Increasing]
  | .bool _ => by simp [Json.dict, Json.norm, Json.Increasing]
  | .int _ => by simp [Json.dict, Json.norm, Json.Increasing]
  | .float _ => by simp [Json.dict, Json.norm, Json.Increasing]
  | .str _ => by simp [Json.dict, Json.norm, Json.Increasing]
  | .arr xs => by
    rw [Json.dict, Json.norm, Json.Increasing, ← dictItems_norm_eq_iff xs, Json.arr.injEq]
  | .obj fs => by
    rw [Json.dict, Json.norm, Json.Increasing, ← dictFields_norm_eq_iff fs, Json.obj.injEq]
    constructor
    · intro h
      -- sorted and without repetitions, so strictly increasing
      have hsorted : fs.Pairwise Fields.le := h ▸ Fields.sort_pairwise _
      have hnodup : (fs.map Prod.fst).Nodup := by
        have hperm := (Fields.sort_perm (normFields (Fields.dict (dictFields fs)))).map Prod.fst
        rw [h, keys_normFields] at hperm
        exact hperm.nodup_iff.2 (Fields.nodup_dict _)
      have hlt := increasing_of_sorted hsorted hnodup
      have hdict : Fields.dict (dictFields fs) = dictFields fs :=
        (sort_dict_of_increasing (by rwa [keys_dictFields])).1
      have hsort : Fields.sort (normFields (dictFields fs)) = normFields (dictFields fs) :=
        (sort_dict_of_increasing (by rwa [keys_normFields, keys_dictFields])).2
      rw [hdict, hsort] at h
      exact ⟨hlt, h⟩
    · rintro ⟨hlt, hvalues⟩
      have hdict : Fields.dict (dictFields fs) = dictFields fs :=
        (sort_dict_of_increasing (by rwa [keys_dictFields])).1
      rw [hdict, hvalues, (sort_dict_of_increasing hlt).2]

theorem dictItems_norm_eq_iff : ∀ xs : List (Json F),
    normItems (dictItems xs) = xs ↔ IncreasingItems xs
  | [] => by simp [dictItems, normItems, IncreasingItems]
  | x :: xs => by
    rw [dictItems, normItems, IncreasingItems, ← Json.dict_norm_eq_iff x,
      ← dictItems_norm_eq_iff xs, List.cons.injEq]

theorem dictFields_norm_eq_iff : ∀ fs : Fields F,
    normFields (dictFields fs) = fs ↔ IncreasingFields fs
  | [] => by simp [dictFields, normFields, IncreasingFields]
  | (k, v) :: fs => by
    rw [dictFields, normFields, IncreasingFields, ← Json.dict_norm_eq_iff v,
      ← dictFields_norm_eq_iff fs, List.cons.injEq, Prod.mk.injEq]
    simp
end

end Increasing

end Bulldog
