import Bulldog.Lib.Json.RoundTrip

/-!
# Normal form

`norm` sorts the keys of every object. Sorting is stable and keys are distinct in a `dict`, so the
normal form keeps what a program reads: `get` and `erase` commute with it. `dumps` writes the normal
form, so two values have the same text exactly when they have the same normal form
(`dumps_eq_iff`), and reading a written value gives its normal form (`loads_dumps`).
-/

namespace Bulldog

section Sorting

variable {F : Type}

/-- The order of members: by key. -/
def Fields.le (a b : Str × Json F) : Prop := a.1 ≤ b.1

instance : DecidableRel (Fields.le (F := F)) := fun a b => inferInstanceAs (Decidable (a.1 ≤ b.1))

instance : Std.Total (Fields.le (F := F)) := ⟨fun a b => le_total a.1 b.1⟩

instance : IsTrans (Str × Json F) Fields.le := ⟨fun _ _ _ h k => le_trans (α := Str) h k⟩

theorem Fields.sort_eq (fs : Fields F) : fs.sort = fs.insertionSort Fields.le := rfl

theorem Fields.sort_perm (fs : Fields F) : fs.sort.Perm fs :=
  List.perm_insertionSort Fields.le fs

theorem Fields.sort_pairwise (fs : Fields F) : fs.sort.Pairwise Fields.le :=
  List.pairwise_insertionSort Fields.le fs

/-- Sorted members stay as they are. -/
theorem Fields.sort_of_pairwise {fs : Fields F} (h : fs.Pairwise Fields.le) : fs.sort = fs :=
  List.Pairwise.insertionSort_eq h

/-- An element that does not pass the test changes nothing under a filter, and one that does is
inserted at the same place. -/
theorem filter_orderedInsert (p : Str × Json F → Bool) (a : Str × Json F) {fs : Fields F}
    (h : fs.Pairwise Fields.le) :
    (fs.orderedInsert Fields.le a).filter p =
      if p a then (fs.filter p).orderedInsert Fields.le a else fs.filter p := by
  induction fs with
  | nil => cases hp : p a <;> simp [hp]
  | cons b fs ih =>
    obtain ⟨hb, hfs⟩ := List.pairwise_cons.1 h
    by_cases hab : Fields.le a b
    · rw [List.orderedInsert_cons_of_le _ _ hab]
      -- What is left of the list is above `a`, so `a` stays in front.
      have hall : ∀ x ∈ (b :: fs).filter p, Fields.le a x := by
        intro x hx
        rcases List.mem_cons.1 (List.mem_of_mem_filter hx) with rfl | hx'
        · exact hab
        · exact le_trans (α := Str) hab (hb x hx')
      cases hp : p a with
      | false => simp [hp]
      | true =>
        rw [List.filter_cons_of_pos hp, if_pos rfl]
        cases hf : (b :: fs).filter p with
        | nil => rfl
        | cons x xs =>
          rw [List.orderedInsert_cons_of_le _ _ (hall x (by simp [hf]))]
    · rw [List.orderedInsert_of_not_le _ _ hab]
      cases hq : p b with
      | false => rw [List.filter_cons_of_neg (by simp [hq]), ih hfs,
          List.filter_cons_of_neg (by simp [hq])]
      | true =>
        rw [List.filter_cons_of_pos hq, ih hfs, List.filter_cons_of_pos hq]
        split_ifs with hp
        · rw [List.orderedInsert_of_not_le _ _ hab]
        · rfl

/-- Filtering commutes with sorting. -/
theorem Fields.filter_sort (p : Str × Json F → Bool) (fs : Fields F) :
    fs.sort.filter p = Fields.sort (fs.filter p) := by
  induction fs with
  | nil => rfl
  | cons a fs ih =>
    have hstep : Fields.sort (a :: fs) = (Fields.sort fs).orderedInsert Fields.le a := rfl
    rw [hstep, filter_orderedInsert p a (Fields.sort_pairwise fs), ih]
    split_ifs with hp
    · rw [List.filter_cons_of_pos hp]; rfl
    · rw [List.filter_cons_of_neg hp]

theorem lookup_eq_filter (fs : Fields F) (k : Str) :
    fs.lookup k = ((fs.filter fun kv => kv.1 == k).head?).map Prod.snd := by
  induction fs with
  | nil => rfl
  | cons kv fs ih =>
    obtain ⟨k', v⟩ := kv
    by_cases hk : k' = k
    · subst hk; simp [List.lookup]
    · have hne : (k == k') = false := by simpa using fun h => hk h.symm
      have hne' : (k' == k) = false := by simpa using hk
      simp [List.lookup, hne, hne', ih]

/-- Members with one key are in order already. -/
theorem sort_filter_key (fs : Fields F) (k : Str) :
    Fields.sort (fs.filter fun kv => kv.1 == k) = fs.filter fun kv => kv.1 == k := by
  apply Fields.sort_of_pairwise
  rw [List.pairwise_iff_forall_sublist]
  intro a b hab
  have ha := List.of_mem_filter (hab.subset (List.mem_cons_self))
  have hb := List.of_mem_filter (hab.subset (List.mem_cons_of_mem _ List.mem_cons_self))
  simp only [beq_iff_eq] at ha hb
  simp [Fields.le, ha, hb]

/-- Sorting does not change what a key holds. -/
@[simp] theorem Fields.get_sort (fs : Fields F) (k : Str) : fs.sort.get k = fs.get k := by
  rw [Fields.get, Fields.get, lookup_eq_filter, lookup_eq_filter, Fields.filter_sort,
    sort_filter_key]

theorem Fields.erase_sort (fs : Fields F) (k : Str) : fs.sort.erase k = (fs.erase k).sort :=
  Fields.filter_sort _ fs

theorem Fields.mem_keys_sort (fs : Fields F) (k : Str) : k ∈ fs.sort.keys ↔ k ∈ fs.keys := by
  simp only [Fields.keys, List.mem_map]
  exact exists_congr fun kv => and_congr_left fun _ => fs.sort_perm.mem_iff

end Sorting

section Norm

variable {F : Type}

theorem normFields_eq_map (fs : Fields F) : normFields fs = fs.map fun kv => (kv.1, kv.2.norm) := by
  induction fs with
  | nil => rfl
  | cons kv fs ih => rw [normFields, ih]; rfl

theorem normItems_eq_map (xs : List (Json F)) : normItems xs = xs.map Json.norm := by
  induction xs with
  | nil => rfl
  | cons x xs ih => rw [normItems, ih]; rfl

theorem keys_normFields (fs : Fields F) : (normFields fs).map Prod.fst = fs.map Prod.fst := by
  rw [normFields_eq_map, List.map_map]
  rfl

theorem normFields_erase (fs : Fields F) (k : Str) :
    normFields (fs.erase k) = Fields.erase (normFields fs) k := by
  rw [normFields_eq_map, normFields_eq_map, Fields.erase, Fields.erase, List.filter_map]
  rfl

theorem get_normFields (fs : Fields F) (k : Str) :
    Fields.get (normFields fs) k = (fs.get k).map Json.norm := by
  induction fs with
  | nil => rfl
  | cons kv fs ih =>
    obtain ⟨k', v⟩ := kv
    simp only [Fields.get, normFields, List.lookup] at ih ⊢
    cases k == k' with
    | true => rfl
    | false => exact ih

/-- The members of the normal form. -/
def Fields.norm (fs : Fields F) : Fields F := Fields.sort (normFields fs)

theorem Json.norm_obj (fs : Fields F) : (Json.obj fs).norm = .obj fs.norm := rfl

/-- A key of the normal form holds the normal form of what it held. -/
@[simp] theorem Fields.get_norm (fs : Fields F) (k : Str) :
    fs.norm.get k = (fs.get k).map Json.norm := by
  rw [Fields.norm, Fields.get_sort, get_normFields]

theorem Fields.mem_keys_norm (fs : Fields F) (k : Str) : k ∈ fs.norm.keys ↔ k ∈ fs.keys := by
  rw [Fields.norm, Fields.mem_keys_sort, Fields.keys, Fields.keys, keys_normFields]

theorem Fields.erase_norm (fs : Fields F) (k : Str) : (fs.erase k).norm = fs.norm.erase k := by
  rw [Fields.norm, Fields.norm, normFields_erase, Fields.erase_sort]

theorem Fields.get_eq_none_iff {fs : Fields F} {k : Str} : fs.get k = none ↔ k ∉ fs.keys := by
  rw [Fields.get, List.lookup_eq_none_iff, Fields.keys, List.mem_map]
  simp only [bne_iff_ne, Prod.forall, Prod.exists, exists_and_right, exists_eq_right, not_exists]
  exact ⟨fun h v hv => h k v hv rfl, fun h k' v hv he => h v (he ▸ hv)⟩

theorem Fields.get_of_mem_keys {fs : Fields F} {k : Str} (h : k ∈ fs.keys) :
    ∃ v, fs.get k = some v := by
  rw [← Option.ne_none_iff_exists']
  exact fun hn => Fields.get_eq_none_iff.1 hn h

/-- The members with `v` under the key `k`. -/
def Fields.replace (fs : Fields F) (k : Str) (v : Json F) : Fields F :=
  fs.map fun kv => if kv.1 = k then (k, v) else kv

theorem Fields.set_eq (fs : Fields F) (k : Str) (v : Json F) :
    fs.set k v = if k ∈ fs.keys then fs.replace k v else fs ++ [(k, v)] := rfl

theorem Fields.keys_replace (fs : Fields F) (k : Str) (v : Json F) :
    (fs.replace k v).keys = fs.keys := by
  rw [Fields.keys, Fields.keys, Fields.replace, List.map_map]
  refine List.map_congr_left fun kv _ => ?_
  by_cases hk : kv.1 = k
  · simp [hk]
  · simp [hk]

theorem Fields.get_replace (fs : Fields F) {k k' : Str} (v : Json F) (h : k' ≠ k) :
    (fs.replace k v).get k' = fs.get k' := by
  induction fs with
  | nil => rfl
  | cons kv fs ih =>
    simp only [Fields.get, Fields.replace, List.map_cons] at ih ⊢
    by_cases hk : kv.1 = k
    · have hne : (k' == k) = false := by simpa using h
      rw [if_pos hk, List.lookup_cons, List.lookup_cons, ih, hk, hne]
    · rw [if_neg hk, List.lookup_cons, List.lookup_cons, ih]

theorem Fields.get_replace_self {fs : Fields F} {k : Str} (v : Json F) (h : k ∈ fs.keys) :
    (fs.replace k v).get k = some v := by
  induction fs with
  | nil => cases h
  | cons kv fs ih =>
    simp only [Fields.get, Fields.replace, List.map_cons] at ih ⊢
    by_cases hk : kv.1 = k
    · rw [if_pos hk, List.lookup_cons_self]
    · have hmem : k ∈ Fields.keys fs := by
        simp only [Fields.keys, List.map_cons, List.mem_cons] at h
        exact h.resolve_left (Ne.symm hk)
      have hne : (k == kv.1) = false := by simpa using Ne.symm hk
      rw [if_neg hk, List.lookup_cons, ih hmem, hne]

/-- Setting a key replaces its member or adds one. -/
theorem Fields.get_set_self (fs : Fields F) (k : Str) (v : Json F) : (fs.set k v).get k = some v := by
  rw [Fields.set_eq]
  split_ifs with h
  · exact Fields.get_replace_self v h
  · rw [Fields.get, List.lookup_append, ← Fields.get, Fields.get_eq_none_iff.2 h]
    simp

theorem Fields.get_set_of_ne (fs : Fields F) {k k' : Str} (v : Json F) (h : k' ≠ k) :
    (fs.set k v).get k' = fs.get k' := by
  rw [Fields.set_eq]
  split_ifs with hk
  · exact Fields.get_replace fs v h
  · have hne : (k' == k) = false := by simpa using h
    rw [Fields.get, List.lookup_append, List.lookup_cons, hne]
    simp [Fields.get]

theorem Fields.nodup_set {fs : Fields F} (h : fs.keys.Nodup) (k : Str) (v : Json F) :
    (fs.set k v).keys.Nodup := by
  rw [Fields.set_eq]
  split_ifs with hk
  · rwa [Fields.keys_replace]
  · rw [Fields.keys, List.map_append, ← Fields.keys]
    exact List.nodup_append.2 ⟨h, by simp, fun a ha b hb hab => by simp at hb; exact hk (hb ▸ hab ▸ ha)⟩

theorem Fields.erase_set (fs : Fields F) (k : Str) (v : Json F) :
    (fs.set k v).erase k = fs.erase k := by
  rw [Fields.set_eq]
  split_ifs with hk
  · rw [Fields.erase, Fields.erase, Fields.replace, List.filter_map]
    have hmap : ∀ kv ∈ fs.filter fun kv => kv.1 != k,
        (if kv.1 = k then (k, v) else kv) = id kv := fun kv hkv => by
      have hne : kv.1 ≠ k := by simpa using List.of_mem_filter hkv
      rw [if_neg hne]
      rfl
    have hfilter : (fs.filter ((fun kv => kv.1 != k) ∘ fun kv => if kv.1 = k then (k, v) else kv)) =
        fs.filter fun kv => kv.1 != k := by
      refine List.filter_congr fun kv _ => ?_
      by_cases hkv : kv.1 = k <;> simp [hkv]
    rw [hfilter, List.map_congr_left hmap, List.map_id]
  · rw [Fields.erase, Fields.erase, List.filter_append]
    simp

theorem Fields.mem_set {fs : Fields F} {k : Str} {v : Json F} {kv : Str × Json F}
    (h : kv ∈ fs.set k v) : kv = (k, v) ∨ kv ∈ fs.erase k := by
  by_cases hk : kv.1 = k
  · left
    rw [Fields.set_eq] at h
    split_ifs at h with hmem
    · obtain ⟨x, -, hx⟩ := List.mem_map.1 h
      split_ifs at hx with hxk
      · exact hx.symm
      · exact absurd (hx ▸ hk) hxk
    · rcases List.mem_append.1 h with h | h
      · exact absurd (hk ▸ List.mem_map_of_mem h) hmem
      · exact List.mem_singleton.1 h
  · right
    rw [← Fields.erase_set fs k v]
    exact List.mem_filter.2 ⟨h, by simpa using hk⟩

/-- In a `dict` the members are what the keys hold. -/
theorem Fields.get_eq_some_iff {fs : Fields F} (h : fs.keys.Nodup) {k : Str} {v : Json F} :
    fs.get k = some v ↔ (k, v) ∈ fs := by
  rw [Fields.get, List.lookup_eq_some_iff]
  constructor
  · rintro ⟨l₁, l₂, rfl, -⟩
    simp
  · intro hmem
    obtain ⟨l₁, l₂, rfl⟩ := List.append_of_mem hmem
    refine ⟨l₁, l₂, rfl, fun p hp => ?_⟩
    simp only [Fields.keys, List.map_append, List.map_cons, List.nodup_append] at h
    simpa using (h.2.2 p.1 (List.mem_map_of_mem hp) k (by simp)).symm

/-- Two `dict`s that hold the same under every key are the same. -/
theorem Fields.norm_ext {fs gs : Fields F} (hf : fs.keys.Nodup) (hg : gs.keys.Nodup)
    (h : ∀ k, fs.get k = gs.get k) : fs.norm = gs.norm := by
  have hperm : fs.Perm gs := by
    refine (List.perm_ext_iff_of_nodup (List.Nodup.of_map _ hf) (List.Nodup.of_map _ hg)).2 ?_
    rintro ⟨k, v⟩
    rw [← Fields.get_eq_some_iff hf, ← Fields.get_eq_some_iff hg, h]
  have hperm' : (Fields.norm fs).Perm (Fields.norm gs) := by
    refine (Fields.sort_perm _).trans (List.Perm.trans ?_ (Fields.sort_perm _).symm)
    rw [normFields_eq_map, normFields_eq_map]
    exact hperm.map _
  have hkeys : (Fields.norm fs).keys.Nodup := by
    refine (List.Perm.nodup_iff ((Fields.sort_perm (normFields fs)).map Prod.fst)).2 ?_
    rw [keys_normFields]
    exact hf
  refine List.Perm.eq_of_pairwise (fun a b ha hb hab hba => ?_) (Fields.sort_pairwise _)
    (Fields.sort_pairwise _) hperm'
  exact List.inj_on_of_nodup_map hkeys ha (hperm'.mem_iff.2 hb) (le_antisymm (α := Str) hab hba)

/-- Sorting commutes with a change of the members' values. -/
theorem sort_map_value (f : Json F → Json F) (fs : Fields F) :
    Fields.sort (fs.map fun kv => (kv.1, f kv.2)) = fs.sort.map fun kv => (kv.1, f kv.2) := by
  rw [Fields.sort_eq, Fields.sort_eq, List.map_insertionSort Fields.le Fields.le]
  intro a _ b _
  rfl

mutual
/-- Normal forms are their own normal form. -/
theorem Json.norm_norm : ∀ v : Json F, v.norm.norm = v.norm
  | .null => rfl
  | .bool _ => rfl
  | .int _ => rfl
  | .float _ => rfl
  | .str _ => rfl
  | .arr xs => by rw [Json.norm, Json.norm, normItems_normItems xs]
  | .obj fs => by
    have hfs := normFields_normFields fs
    rw [Json.norm, Json.norm, normFields_eq_map (Fields.sort (normFields fs)), ← sort_map_value,
      ← normFields_eq_map, hfs]
    exact congrArg Json.obj (Fields.sort_of_pairwise (Fields.sort_pairwise _))

theorem normItems_normItems : ∀ xs : List (Json F), normItems (normItems xs) = normItems xs
  | [] => rfl
  | x :: xs => by rw [normItems, normItems, Json.norm_norm x, normItems_normItems xs]

theorem normFields_normFields : ∀ fs : Fields F, normFields (normFields fs) = normFields fs
  | [] => rfl
  | (k, v) :: fs => by rw [normFields, normFields, Json.norm_norm v, normFields_normFields fs]
end

theorem Fields.norm_norm (fs : Fields F) : fs.norm.norm = fs.norm :=
  Json.obj.inj (Json.norm_norm (.obj fs))

theorem writableItems_eq_all [PyFloat F] (nan : Bool) (xs : List (Json F)) :
    writableItems nan xs = xs.all (Json.writable nan) := by
  induction xs with
  | nil => rfl
  | cons x xs ih => rw [writableItems, ih]; rfl

theorem writableFields_eq_all [PyFloat F] (nan : Bool) (fs : Fields F) :
    writableFields nan fs = fs.all fun kv => kv.2.writable nan := by
  induction fs with
  | nil => rfl
  | cons kv fs ih => rw [writableFields, ih]; rfl

mutual
/-- Sorting keys does not change whether a value is writable. -/
theorem Json.writable_norm [PyFloat F] (nan : Bool) : ∀ v : Json F,
    v.norm.writable nan = v.writable nan
  | .null => rfl
  | .bool _ => rfl
  | .int _ => rfl
  | .float _ => rfl
  | .str _ => rfl
  | .arr xs => by rw [Json.norm, Json.writable, Json.writable, writableItems_norm nan xs]
  | .obj fs => by
    rw [Json.norm, Json.writable, Json.writable, writableFields_eq_all,
      (Fields.sort_perm _).all_eq, ← writableFields_eq_all, writableFields_norm nan fs]

theorem writableItems_norm [PyFloat F] (nan : Bool) : ∀ xs : List (Json F),
    writableItems nan (normItems xs) = writableItems nan xs
  | [] => rfl
  | x :: xs => by
    rw [normItems, writableItems, writableItems, Json.writable_norm nan x, writableItems_norm nan xs]

theorem writableFields_norm [PyFloat F] (nan : Bool) : ∀ fs : Fields F,
    writableFields nan (normFields fs) = writableFields nan fs
  | [] => rfl
  | (k, v) :: fs => by
    rw [normFields, writableFields, writableFields, Json.writable_norm nan v,
      writableFields_norm nan fs]
end

theorem WFFields_iff (fs : Fields F) : WFFields fs ↔ ∀ kv ∈ fs, kv.2.WF := by
  induction fs with
  | nil => simp [WFFields]
  | cons kv fs ih => simp [WFFields, ih]

mutual
/-- Sorting keys keeps them distinct. -/
theorem Json.WF.norm : ∀ {v : Json F}, v.WF → v.norm.WF
  | .null, _ => trivial
  | .bool _, _ => trivial
  | .int _, _ => trivial
  | .float _, _ => trivial
  | .str _, _ => trivial
  | .arr xs, h => WFItems_norm xs h
  | .obj fs, h => by
    refine ⟨?_, ?_⟩
    · rw [((Fields.sort_perm (normFields fs)).map Prod.fst).nodup_iff, keys_normFields]
      exact h.1
    · have hfs := (WFFields_iff _).1 (WFFields_norm fs h.2)
      exact (WFFields_iff _).2 fun kv hkv => hfs kv ((Fields.sort_perm _).mem_iff.1 hkv)

theorem WFItems_norm : ∀ xs : List (Json F), WFItems xs → WFItems (normItems xs)
  | [], _ => trivial
  | _ :: xs, h => ⟨Json.WF.norm h.1, WFItems_norm xs h.2⟩

theorem WFFields_norm : ∀ fs : Fields F, WFFields fs → WFFields (normFields fs)
  | [], _ => trivial
  | _ :: fs, h => ⟨Json.WF.norm h.1, WFFields_norm fs h.2⟩
end

end Norm

section Loads

variable {F : Type}

/-- Members with distinct keys make the `dict` that they are. -/
theorem Fields.dict_of_nodup {fs : Fields F} (h : (fs.map Prod.fst).Nodup) : fs.dict = fs := by
  have key : ∀ (acc fs : Fields F), ((acc ++ fs).map Prod.fst).Nodup →
      fs.foldl (fun acc kv => acc.set kv.1 kv.2) acc = acc ++ fs := by
    intro acc fs
    induction fs generalizing acc with
    | nil => simp
    | cons kv fs ih =>
      intro hnd
      have hfresh : kv.1 ∉ Fields.keys acc := by
        intro hk
        rw [List.map_append, List.nodup_append] at hnd
        exact hnd.2.2 kv.1 hk kv.1 (by simp) rfl
      have hset : Fields.set acc kv.1 kv.2 = acc ++ [kv] := by simp [Fields.set, hfresh]
      rw [List.foldl_cons, hset, ih (acc ++ [kv]) (by simpa using hnd)]
      simp
  have h' := key [] fs (by simpa using h)
  rwa [List.nil_append] at h'

mutual
/-- A value with distinct keys is what `json.loads` makes of its pairs. -/
theorem Json.dict_of_WF : ∀ {v : Json F}, v.WF → v.dict = v
  | .null, _ => rfl
  | .bool _, _ => rfl
  | .int _, _ => rfl
  | .float _, _ => rfl
  | .str _, _ => rfl
  | .arr xs, h => by rw [Json.dict, dictItems_of_WF xs h]
  | .obj fs, h => by rw [Json.dict, dictFields_of_WF fs h.2, Fields.dict_of_nodup h.1]

theorem dictItems_of_WF : ∀ xs : List (Json F), WFItems xs → dictItems xs = xs
  | [], _ => rfl
  | x :: xs, h => by rw [dictItems, Json.dict_of_WF h.1, dictItems_of_WF xs h.2]

theorem dictFields_of_WF : ∀ fs : Fields F, WFFields fs → dictFields fs = fs
  | [], _ => rfl
  | (k, v) :: fs, h => by rw [dictFields, Json.dict_of_WF h.1, dictFields_of_WF fs h.2]
end

variable [PyFloat F]

/-- `dumps` succeeds exactly on the writable values. -/
theorem dumps_eq_some {st : Style} {nan : Bool} {v : Json F} {t : Str} :
    dumps st nan v = some t ↔ v.writable nan = true ∧ v.norm.render st = t := by
  unfold dumps
  split_ifs with h <;> simp [h]

/-- `dumps` sees the normal form only. -/
theorem dumps_norm (st : Style) (nan : Bool) (v : Json F) :
    dumps st nan v.norm = dumps st nan v := by
  rw [dumps, dumps, Json.writable_norm, Json.norm_norm]

/-- What is writable without the constants is writable with them. -/
theorem Json.writable_mono {nan : Bool} {v : Json F} (h : v.writable nan = true) :
    v.writable true = true := by
  cases nan with
  | true => exact h
  | false => exact go v h
where
  go : ∀ v : Json F, v.writable false = true → v.writable true = true
    | .null, _ => rfl
    | .bool _, _ => rfl
    | .int _, h => h
    | .float _, _ => rfl
    | .str _, _ => rfl
    | .arr xs, h => items xs h
    | .obj fs, h => fields fs h
  items : ∀ xs : List (Json F), writableItems false xs = true → writableItems true xs = true
    | [], _ => rfl
    | x :: xs, h => by
      simp only [writableItems, Bool.and_eq_true] at h ⊢
      exact ⟨go x h.1, items xs h.2⟩
  fields : ∀ fs : Fields F, writableFields false fs = true → writableFields true fs = true
    | [], _ => rfl
    | (_, v) :: fs, h => by
      simp only [writableFields, Bool.and_eq_true] at h ⊢
      exact ⟨go v h.1, fields fs h.2⟩

/-- Two values have the same text exactly when they are the same up to the order of keys. -/
theorem dumps_eq_iff {st : Style} {nan : Bool} {v w : Json F} {t : Str}
    (hv : dumps st nan v = some t) : dumps st nan w = some t ↔ w.norm = v.norm := by
  obtain ⟨hwv, rfl⟩ := dumps_eq_some.1 hv
  rw [dumps_eq_some]
  constructor
  · rintro ⟨hww, h⟩
    refine render_injective st ?_ ?_ h
    · rw [Json.writable_norm]; exact Json.writable_mono hww
    · rw [Json.writable_norm]; exact Json.writable_mono hwv
  · intro h
    refine ⟨?_, by rw [h]⟩
    rw [← Json.writable_norm, h, Json.writable_norm]
    exact hwv

/-- Reading a written value gives its normal form, also with white space after it. -/
theorem loads_dumps {st : Style} {nan : Bool} {v : Json F} {t ws : Str} (hwf : v.WF)
    (h : dumps st nan v = some t) (hws : ∀ c ∈ ws, isWs c = true) :
    loads (t ++ ws) = some v.norm := by
  obtain ⟨hw, rfl⟩ := dumps_eq_some.1 h
  rw [loads, parse_render_ws st true v.norm
    (by rw [Json.writable_norm]; exact Json.writable_mono hw) hws]
  simp [Json.dict_of_WF hwf.norm]

end Loads

end Bulldog
