import Bulldog.Lib.Json.Printable
import Bulldog.Workspace.Admission

/-!
# The content hash

`_content_hash` and `hash_tree` of `snapshot.py`, and what it means that a tree is hashed again with the
same result. The entries of a manifest are hashed as one text, in which nothing is escaped; no path has a
NUL in it, so the text is read back entry by entry.
-/

namespace Bulldog.Workspace

/-! ## Hashing -/

/-- `entry.kind`. -/
def Kind.text : Kind → Str
  | .directory => "directory"
  | .file => "file"

/-- The size that is hashed: that of a directory is left out. -/
def ManifestEntry.contentSize (entry : ManifestEntry) : ℕ := if entry.kind = .file then entry.size else 0

/-- What `_content_hash` hashes for an entry. -/
def ManifestEntry.contentBytes (entry : ManifestEntry) : Option Bytes := do
  let path ← entry.path.encode
  return path ++ 0 :: (encodeUtf8 entry.kind.text ++ 0 ::
    (encodeUtf8 (Nat.toDigits 10 entry.contentSize) ++ 0 ::
      ((entry.sha256.map encodeUtf8).getD [] ++ [10])))

/-- What `_content_hash` hashes for a manifest. -/
def FilesystemManifest.contentBytes (manifest : FilesystemManifest) : Option Bytes :=
  (manifest.entries.mapM ManifestEntry.contentBytes).map List.flatten

/-- `_content_hash(manifest)`. -/
def contentHash (C : Crypto) (manifest : FilesystemManifest) : Except Violation Str := do
  let data ← orRaise manifest.contentBytes .unicodeEncodeError
  return hexdigest (C.sha256 data)

/-- `hash_tree(root, budget=budget)`. -/
def hashTree (C : Crypto) (rootPath : Name) (root : Node) (budget : WorkspaceBudget) (frames : ℕ) :
    Except Violation Str := do
  contentHash C (← buildManifest C rootPath root true true budget frames)

/-- The check of `execute` after the malware scan: whether it goes on. -/
def snapshotUnchanged (C : Crypto) (rootPath : Name) (root : Node) (budget : WorkspaceBudget)
    (frames : ℕ) (snapshotHash : Str) : Except Violation Bool := do
  let current ← hashTree C rootPath root budget frames
  return current = snapshotHash

/-! ## Separators -/

/-- Where the separator is in neither, two texts end at the same place. -/
theorem append_sep_inj {α : Type} {x : α} {a b r s : List α} (ha : x ∉ a) (hb : x ∉ b)
    (h : a ++ x :: r = b ++ x :: s) : a = b ∧ r = s := by
  induction a generalizing b with
  | nil =>
    rcases b with _ | ⟨y, b⟩
    · exact ⟨rfl, (List.cons.inj h).2⟩
    · exact absurd (List.mem_cons.2 (.inl (List.cons.inj h).1)) hb
  | cons z a ih =>
    rcases b with _ | ⟨y, b⟩
    · exact absurd (List.mem_cons.2 (.inl (List.cons.inj h).1.symm)) ha
    · obtain ⟨rfl, htail⟩ := List.cons.inj h
      obtain ⟨rfl, rfl⟩ := ih (fun hx => ha (.tail _ hx)) (fun hx => hb (.tail _ hx)) htail
      exact ⟨rfl, rfl⟩

theorem zero_ne_ofNat {n : ℕ} (hpos : 0 < n) (hlt : n < 256) : (0 : UInt8) ≠ UInt8.ofNat n := by
  intro h
  have hnat := congrArg UInt8.toNat h
  rw [UInt8.toNat_ofNat_of_lt' hlt] at hnat
  exact hpos.ne hnat

theorem zero_not_mem_utf8EncodeChar {c : Char} (hc : c.toNat ≠ 0) :
    (0 : UInt8) ∉ String.utf8EncodeChar c := by
  have hpos : 0 < c.val.toNat := Nat.pos_of_ne_zero hc
  unfold String.utf8EncodeChar
  dsimp only
  have hbyte {n : ℕ} (h : 0 < n ∧ n < 256) := zero_ne_ofNat h.1 h.2
  split_ifs <;> simp only [List.mem_cons, List.not_mem_nil, or_false, not_or]
  · exact hbyte (by omega)
  · exact ⟨hbyte (by omega), hbyte (by omega)⟩
  · exact ⟨hbyte (by omega), hbyte (by omega), hbyte (by omega)⟩
  · exact ⟨hbyte (by omega), hbyte (by omega), hbyte (by omega), hbyte (by omega)⟩

/-- Text without a NUL has none in its bytes. -/
theorem zero_not_mem_encodeUtf8 {s : Str} (h : ∀ c ∈ s, c.toNat ≠ 0) : (0 : UInt8) ∉ encodeUtf8 s := by
  intro hmem
  obtain ⟨c, hc, hzero⟩ := List.mem_flatMap.1 hmem
  exact zero_not_mem_utf8EncodeChar (h c hc) hzero

theorem printable_hexdigest (b : Bytes) : Printable (hexdigest b) := by
  have hdigit : ∀ n < 16, 0x20 ≤ (Nat.digitChar n).toNat ∧ (Nat.digitChar n).toNat < 0x7f := by decide
  exact forall_mem_hexdigest hdigit b

theorem zero_not_mem_of_printable {s : Str} (h : Printable s) : (0 : UInt8) ∉ encodeUtf8 s :=
  zero_not_mem_encodeUtf8 fun c hc => by
    have := (h c hc).1
    omega

theorem printable_kind (kind : Kind) : Printable kind.text := by
  cases kind
  · exact printable_of_all rfl
  · exact printable_of_all rfl

theorem kindText_injective : Function.Injective Kind.text := by
  intro a b h
  cases a <;> cases b <;> first | rfl | cases h

theorem toDigits_injective : Function.Injective (Nat.toDigits 10) := by
  intro a b h
  have hvalue := congrArg (fun ds => Nat.ofDigitChars 10 ds 0) h
  simpa only [Nat.ofDigitChars_toDigits (b := 10) (by decide) (by decide)] using hvalue

theorem mapM_cons_eq_some {α β : Type} {f : α → Option β} {a : α} {as : List α} {bs : List β} :
    (a :: as).mapM f = some bs ↔ ∃ b, f a = some b ∧ ∃ bs', as.mapM f = some bs' ∧ b :: bs' = bs := by
  rw [List.mapM_cons]
  simp only [bind, Option.bind_eq_some_iff, pure, Option.some.injEq]

/-! ## Names -/

/-- The encoding of a name is that of its characters. -/
theorem Name.encode_eq_some {name : Name} {data : Bytes} (h : name.encode = some data) :
    ∃ s : Str, data = encodeUtf8 s ∧ s.map Char.toNat = name := by
  obtain ⟨s, hs, rfl⟩ := Option.map_eq_some_iff.1 h
  refine ⟨s, rfl, ?_⟩
  clear h
  induction name generalizing s with
  | nil =>
    cases hs
    rfl
  | cons n name ih =>
    rw [List.mapM_cons] at hs
    obtain ⟨c, hc, hs⟩ := Option.bind_eq_some_iff.1 hs
    obtain ⟨s', hs', hpure⟩ := Option.bind_eq_some_iff.1 hs
    cases hpure
    split_ifs at hc with hvalid
    cases hc
    rw [List.map_cons, ih s' hs']
    rw [Char.ofNat, dif_pos hvalid]
    rfl

theorem Name.encode_inj {a b : Name} {data : Bytes} (ha : a.encode = some data)
    (hb : b.encode = some data) : a = b := by
  obtain ⟨s, rfl, rfl⟩ := Name.encode_eq_some ha
  obtain ⟨t, hst, rfl⟩ := Name.encode_eq_some hb
  rw [encodeUtf8_injective hst]

theorem Name.zero_not_mem {name : Name} {data : Bytes} (h : name.encode = some data)
    (hnul : 0 ∉ name) : (0 : UInt8) ∉ data := by
  obtain ⟨s, rfl, rfl⟩ := Name.encode_eq_some h
  refine zero_not_mem_encodeUtf8 fun c hc hzero => hnul ?_
  rw [← hzero]
  exact List.mem_map_of_mem hc

/-! ## Reading the entries back -/

/-- What the content hash is about. -/
structure ContentKey where
  path : Name
  kind : Kind
  size : ℕ
  sha256 : Option Str

/-- What is hashed of an entry. -/
def ManifestEntry.key (entry : ManifestEntry) : ContentKey :=
  ⟨entry.path, entry.kind, entry.contentSize, entry.sha256⟩

/-- An entry as `build_manifest` makes it: a directory has no digest, and a file has one. -/
structure Listed (entry : ManifestEntry) : Prop where
  encodes : ∃ data, entry.path.encode = some data
  nul : 0 ∉ entry.path
  digest : entry.sha256 = none ∧ entry.kind = .directory ∨
    ∃ data, entry.sha256 = some (hexdigest data) ∧ entry.kind = .file

variable {entry entry' : ManifestEntry} {data data' rest rest' : Bytes}

theorem contentBytes_eq_some : entry.contentBytes = some data ↔ ∃ path, entry.path.encode = some path ∧
    path ++ 0 :: (encodeUtf8 entry.kind.text ++ 0 ::
      (encodeUtf8 (Nat.toDigits 10 entry.contentSize) ++ 0 ::
        ((entry.sha256.map encodeUtf8).getD [] ++ [10]))) = data := by
  unfold ManifestEntry.contentBytes
  simp only [bind, Option.bind_eq_some_iff, pure, Option.some.injEq]

theorem Listed.newline_not_mem (h : Listed entry) : (10 : UInt8) ∉ (entry.sha256.map encodeUtf8).getD [] := by
  rcases h.digest with ⟨hnone, -⟩ | ⟨digest, hsome, -⟩
  · rw [hnone]
    exact List.not_mem_nil
  · rw [hsome]
    exact not_mem_encodeUtf8 (printable_hexdigest digest)

/-- The entry that a text starts with is determined by the text, and so is what follows. -/
theorem contentBytes_append_inj (h : Listed entry) (h' : Listed entry')
    (hdata : entry.contentBytes = some data) (hdata' : entry'.contentBytes = some data')
    (heq : data ++ rest = data' ++ rest') : entry.key = entry'.key ∧ rest = rest' := by
  obtain ⟨path, hpath, rfl⟩ := contentBytes_eq_some.1 hdata
  obtain ⟨path', hpath', rfl⟩ := contentBytes_eq_some.1 hdata'
  simp only [List.append_assoc, List.cons_append, List.nil_append] at heq
  -- field by field, each up to its separator
  obtain ⟨hpaths, hafter⟩ :=
    append_sep_inj (Name.zero_not_mem hpath h.nul) (Name.zero_not_mem hpath' h'.nul) heq
  obtain ⟨hkinds, hafter⟩ := append_sep_inj (zero_not_mem_of_printable (printable_kind _))
    (zero_not_mem_of_printable (printable_kind _)) hafter
  obtain ⟨hsizes, hafter⟩ := append_sep_inj (zero_not_mem_of_printable (printable_digits _))
    (zero_not_mem_of_printable (printable_digits _)) hafter
  obtain ⟨hdigest, hrest⟩ := append_sep_inj h.newline_not_mem h'.newline_not_mem hafter
  subst hpaths
  have hpaths := Name.encode_inj hpath hpath'
  have hkinds := kindText_injective (encodeUtf8_injective hkinds)
  have hsizes := toDigits_injective (encodeUtf8_injective hsizes)
  have hdigests : entry.sha256 = entry'.sha256 := by
    rcases h.digest with ⟨hnone, hdir⟩ | ⟨digest, hsome, hfile⟩
    · rcases h'.digest with ⟨hnone', -⟩ | ⟨digest', -, hfile'⟩
      · rw [hnone, hnone']
      · exact nomatch hdir.symm.trans (hkinds.trans hfile')
    · rcases h'.digest with ⟨-, hdir'⟩ | ⟨digest', hsome', -⟩
      · exact nomatch hfile.symm.trans (hkinds.trans hdir')
      · rw [hsome, hsome'] at hdigest ⊢
        rw [encodeUtf8_injective hdigest]
  exact ⟨by simp only [ManifestEntry.key, hpaths, hkinds, hsizes, hdigests], hrest⟩

theorem contentBytes_ne_nil (hdata : entry.contentBytes = some data) : data ≠ [] := by
  obtain ⟨path, -, rfl⟩ := contentBytes_eq_some.1 hdata
  exact fun h => nomatch (List.append_eq_nil_iff.1 h).2

/-- The text of a list of entries determines what is hashed of them. -/
theorem flatten_contentBytes_inj {entries entries' : List ManifestEntry} {texts texts' : List Bytes}
    (h : ∀ entry ∈ entries, Listed entry) (h' : ∀ entry ∈ entries', Listed entry)
    (htexts : entries.mapM ManifestEntry.contentBytes = some texts)
    (htexts' : entries'.mapM ManifestEntry.contentBytes = some texts')
    (heq : texts.flatten = texts'.flatten) :
    entries.map ManifestEntry.key = entries'.map ManifestEntry.key := by
  induction entries generalizing entries' texts texts' with
  | nil =>
    cases htexts
    rcases entries' with _ | ⟨entry', entries'⟩
    · rfl
    · obtain ⟨data', hdata', texts'', -, rfl⟩ := mapM_cons_eq_some.1 htexts'
      exact absurd (List.append_eq_nil_iff.1 heq.symm).1 (contentBytes_ne_nil hdata')
  | cons entry entries ih =>
    obtain ⟨data, hdata, texts, hmap, rfl⟩ := mapM_cons_eq_some.1 htexts
    rcases entries' with _ | ⟨entry', entries'⟩
    · cases htexts'
      exact absurd (List.append_eq_nil_iff.1 heq).1 (contentBytes_ne_nil hdata)
    · obtain ⟨data', hdata', texts', hmap', rfl⟩ := mapM_cons_eq_some.1 htexts'
      obtain ⟨hkey, hrest⟩ := contentBytes_append_inj (h _ List.mem_cons_self) (h' _ List.mem_cons_self)
        hdata hdata' heq
      rw [List.map_cons, List.map_cons, hkey, ih (fun e he => h e (.tail _ he))
        (fun e he => h' e (.tail _ he)) hmap hmap' hrest]

/-! ## Manifests -/

/-- No name of an admitted node has a NUL in it. -/
def NulFree (root : Node) : Prop := ∀ item ∈ admittedNodes root.children, ∀ name ∈ item.1, 0 ∉ name

/-- What there is at a path: a directory, or a file with its size and its content. -/
def contentOf (item : List Name × Node) : Name × Option (ℕ × Bytes) :=
  (joinParts item.1, if isDir item.2.stat.mode then none else some (item.2.stat.size, item.2.content))

/-- The admitted content of a tree, in the order of the walk. -/
def contents (root : Node) : List (Name × Option (ℕ × Bytes)) :=
  (admittedNodes (listing root.children)).map contentOf

/-- What is hashed for a manifest of a tree: its text, and the files. -/
def Hashed (root : Node) (manifest : FilesystemManifest) : Set Bytes :=
  {data | manifest.contentBytes = some data ∨
    ∃ item ∈ admittedNodes root.children, isDir item.2.stat.mode = false ∧ item.2.content = data}

variable {C : Crypto} {path path' : Name} {root root' : Node} {device setid device' setid' : Bool}
  {budget budget' : WorkspaceBudget} {frames frames' : ℕ} {m m' : FilesystemManifest}

/-- A manifest lists the admitted nodes. -/
theorem buildManifest_entries (h : buildManifest C path root device setid budget frames = .ok m) :
    m.entries = (admittedNodes (listing root.children)).map
        (fun item => entryOf C (joinParts item.1) item.2) ∧
      ∀ item ∈ admittedNodes root.children, ∃ data, (joinParts item.1).encode = some data := by
  obtain ⟨-, hadmissible, -, rfl⟩ := buildManifest_admits h
  refine ⟨rfl, fun item hitem => ?_⟩
  obtain ⟨data, hdata, -⟩ := (hadmissible.nodes item hitem).path
  exact ⟨data, hdata⟩

theorem zero_not_mem_joinParts {parts : List Name} (h : ∀ name ∈ parts, 0 ∉ name) :
    0 ∉ joinParts parts := by
  induction parts with
  | nil => exact List.not_mem_nil
  | cons name parts ih =>
    rcases parts with _ | ⟨name', parts⟩
    · simpa [joinParts, List.intercalate] using h name List.mem_cons_self
    · have hrest := ih fun n hn => h n (.tail _ hn)
      have hname := h name List.mem_cons_self
      simp only [joinParts, List.intercalate, List.intersperse, List.flatten_cons, List.mem_append,
        List.mem_singleton, not_or] at hrest ⊢
      exact ⟨hname, by decide, hrest⟩

/-- What a node of the walk is a node of the tree of. -/
theorem mem_listing {item : List Name × Node} (h : item ∈ admittedNodes (listing root.children)) :
    ∃ item' ∈ admittedNodes root.children, item'.1 = item.1 ∧ item'.2.stat = item.2.stat ∧
      item'.2.content = item.2.content := by
  obtain ⟨item', hitem', rfl⟩ := List.mem_map.1 ((admittedNodes_listing_perm _).mem_iff.1 h)
  refine ⟨item', hitem', rfl, ?_⟩
  rw [asListed, Node.sorted_eq]
  exact ⟨rfl, rfl⟩

theorem listed_of_buildManifest (h : buildManifest C path root device setid budget frames = .ok m)
    (hnul : NulFree root) : ∀ entry ∈ m.entries, Listed entry := by
  obtain ⟨hentries, hencodes⟩ := buildManifest_entries h
  rw [hentries]
  intro entry hentry
  obtain ⟨item, hitem, rfl⟩ := List.mem_map.1 hentry
  obtain ⟨item', hitem', hparts, -⟩ := mem_listing hitem
  refine ⟨hparts ▸ hencodes item' hitem', zero_not_mem_joinParts (hparts ▸ hnul item' hitem'), ?_⟩
  rcases hdir : isDir item.2.stat.mode with _ | _
  · exact .inr ⟨C.sha256 item.2.content, by simp [entryOf, hdir]⟩
  · exact .inl (by simp [entryOf, hdir])

theorem contentBytes_of_listed (h : ∀ entry ∈ m.entries, Listed entry) :
    ∃ data, m.contentBytes = some data := by
  obtain ⟨texts, htexts⟩ : ∃ texts, m.entries.mapM ManifestEntry.contentBytes = some texts := by
    generalize m.entries = entries at h
    induction entries with
    | nil => exact ⟨[], rfl⟩
    | cons entry entries ih =>
      obtain ⟨texts, htexts⟩ := ih fun e he => h e (.tail _ he)
      obtain ⟨data, hdata⟩ := (h entry List.mem_cons_self).encodes
      exact ⟨_, mapM_cons_eq_some.2 ⟨_, contentBytes_eq_some.2 ⟨data, hdata, rfl⟩, texts, htexts, rfl⟩⟩
  exact ⟨texts.flatten, by rw [FilesystemManifest.contentBytes, htexts]; rfl⟩

theorem contentHash_eq_ok {hash : Str} : contentHash C m = .ok hash ↔
    ∃ data, m.contentBytes = some data ∧ hexdigest (C.sha256 data) = hash := by
  unfold contentHash
  simp only [bind_eq_ok, orRaise_eq_ok, pure, Except.pure, Except.ok.injEq]

/-- Two lists that agree on what determines something agree on that. -/
theorem map_eq_of_map_eq {α β γ : Type} {f : α → β} {g : α → γ} {as bs : List α}
    (h : ∀ a ∈ as, ∀ b ∈ bs, f a = f b → g a = g b) (hf : as.map f = bs.map f) : as.map g = bs.map g := by
  induction as generalizing bs with
  | nil => rw [List.map_eq_nil_iff.1 hf.symm]
  | cons a as ih =>
    rcases bs with _ | ⟨b, bs⟩
    · cases hf
    · rw [List.map_cons, List.map_cons, List.cons.injEq] at hf
      rw [List.map_cons, List.map_cons, h a List.mem_cons_self b List.mem_cons_self hf.1,
        ih (fun a ha b hb => h a (.tail _ ha) b (.tail _ hb)) hf.2]

/-- Where the hash is the same, without a collision, so is what it is about. -/
theorem keys_eq_of_contentHash_eq (hm : buildManifest C path root device setid budget frames = .ok m)
    (hm' : buildManifest C path' root' device' setid' budget' frames' = .ok m') (hnul : NulFree root)
    (hnul' : NulFree root') (hinj : Set.InjOn C.sha256 (Hashed root m ∪ Hashed root' m'))
    (heq : contentHash C m = contentHash C m') :
    m.entries.map ManifestEntry.key = m'.entries.map ManifestEntry.key := by
  have hlisted := listed_of_buildManifest hm hnul
  have hlisted' := listed_of_buildManifest hm' hnul'
  obtain ⟨data, hdata⟩ := contentBytes_of_listed hlisted
  obtain ⟨data', hdata', hhash⟩ :=
    contentHash_eq_ok.1 (heq.symm.trans (contentHash_eq_ok.2 ⟨data, hdata, rfl⟩))
  have hsame : data' = data := hinj (.inr (.inl hdata')) (.inl (.inl hdata)) (hexdigest_injective hhash)
  obtain ⟨texts, htexts, rfl⟩ := Option.map_eq_some_iff.1 hdata
  obtain ⟨texts', htexts', rfl⟩ := Option.map_eq_some_iff.1 hdata'
  exact flatten_contentBytes_inj hlisted hlisted' htexts htexts' hsame.symm

/-- So is the admitted content of the trees. -/
theorem contents_eq_of_keys_eq (hm : buildManifest C path root device setid budget frames = .ok m)
    (hm' : buildManifest C path' root' device' setid' budget' frames' = .ok m')
    (hinj : Set.InjOn C.sha256 (Hashed root m ∪ Hashed root' m'))
    (heq : m.entries.map ManifestEntry.key = m'.entries.map ManifestEntry.key) :
    contents root = contents root' := by
  rw [(buildManifest_entries hm).1, (buildManifest_entries hm').1, List.map_map, List.map_map] at heq
  refine map_eq_of_map_eq ?_ heq
  intro item hitem item' hitem' hkey
  simp only [Function.comp, ManifestEntry.key, ContentKey.mk.injEq] at hkey
  obtain ⟨hpath, hkind, hsize, hdigest⟩ := hkey
  simp only [contentOf, Prod.mk.injEq]
  refine ⟨hpath, ?_⟩
  rcases hdir : isDir item.2.stat.mode with _ | _ <;> rcases hdir' : isDir item'.2.stat.mode with _ | _ <;>
    simp only [entryOf, ManifestEntry.contentSize, hdir, hdir', if_true, if_false, Bool.false_eq_true,
      reduceCtorEq, Option.some.injEq] at hkind hsize hdigest ⊢
  obtain ⟨tree, htree, -, hstat, hcontent⟩ := mem_listing hitem
  obtain ⟨tree', htree', -, hstat', hcontent'⟩ := mem_listing hitem'
  have hsame := hinj (.inl (.inr ⟨tree, htree, hstat ▸ hdir, hcontent⟩))
    (.inr (.inr ⟨tree', htree', hstat' ▸ hdir', hcontent'⟩)) (hexdigest_injective hdigest)
  rw [hsize, hsame]

theorem hashTree_eq_ok {hash : Str} : hashTree C path root budget frames = .ok hash ↔
    ∃ m, buildManifest C path root true true budget frames = .ok m ∧ contentHash C m = .ok hash := by
  unfold hashTree
  rw [bind_eq_ok]

theorem snapshotUnchanged_eq_ok {hash : Str} :
    snapshotUnchanged C path root budget frames hash = .ok true ↔ hashTree C path root budget frames = .ok hash := by
  unfold snapshotUnchanged
  simp only [bind_eq_ok, pure, Except.pure, Except.ok.injEq, decide_eq_true_eq, exists_eq_right]

/-- What is hashed does not depend on how the manifest was built. -/
theorem hashed_eq (hm : buildManifest C path root device setid budget frames = .ok m)
    (hm' : buildManifest C path' root device' setid' budget' frames' = .ok m') : Hashed root m = Hashed root m' := by
  have hentries := (buildManifest_entries hm).1.trans (buildManifest_entries hm').1.symm
  unfold Hashed FilesystemManifest.contentBytes
  rw [hentries]

/-- Every manifest that is built has a content hash. Where two of them have the same one, they have the
same paths, kinds, file sizes and digests in the same order, and the trees the same admitted content; so a
tree that is found unchanged after the scan has the admitted content of the tree that was hashed. -/
theorem tree_hash_exact (C : Crypto) (path path' : Name) (root root' : Node)
    (device setid device' setid' : Bool) (budget budget' : WorkspaceBudget) (frames frames' : ℕ)
    (m m' : FilesystemManifest)
    (hm : buildManifest C path root device setid budget frames = .ok m)
    (hm' : buildManifest C path' root' device' setid' budget' frames' = .ok m')
    (hnul : NulFree root) (hnul' : NulFree root')
    (hinj : Set.InjOn C.sha256 (Hashed root m ∪ Hashed root' m')) :
    (∃ hash, contentHash C m = .ok hash) ∧
    (contentHash C m = contentHash C m' →
      m.entries.map ManifestEntry.key = m'.entries.map ManifestEntry.key ∧
        contents root = contents root') ∧
    ∀ hash, hashTree C path root budget frames = .ok hash →
      snapshotUnchanged C path' root' budget' frames' hash = .ok true → contents root = contents root' := by
  refine ⟨?_, fun heq => ?_, fun hash hhash hunchanged => ?_⟩
  · obtain ⟨data, hdata⟩ := contentBytes_of_listed (listed_of_buildManifest hm hnul)
    exact ⟨_, contentHash_eq_ok.2 ⟨data, hdata, rfl⟩⟩
  · have hkeys := keys_eq_of_contentHash_eq hm hm' hnul hnul' hinj heq
    exact ⟨hkeys, contents_eq_of_keys_eq hm hm' hinj hkeys⟩
  · obtain ⟨n, hn, hcontent⟩ := hashTree_eq_ok.1 hhash
    obtain ⟨n', hn', hcontent'⟩ := hashTree_eq_ok.1 (snapshotUnchanged_eq_ok.1 hunchanged)
    rw [hashed_eq hm hn, hashed_eq hm' hn'] at hinj
    exact contents_eq_of_keys_eq hn hn' hinj
      (keys_eq_of_contentHash_eq hn hn' hnul hnul' hinj (hcontent.trans hcontent'.symm))

/-- A directory of this name. -/
def sampleDirectory (name : String) (children : List Node) : Node :=
  .mk (Name.ofText name) ⟨1, 10, 0o040755, 1000, 1000, 4096, 2⟩ ⟨true, true, true, false⟩ [] children

/-- A project with a directory in it, and what is at `.git`. -/
def sampleProject (git : List Node) : Node :=
  sampleDirectory "project" (git ++ [sampleDirectory "src" []])

/-- A file in `.git`. -/
def sampleGit : Node := sampleDirectory ".git" [sampleFile true]

theorem sampleProject_nodes : admittedNodes (sampleProject []).children =
      [([Name.ofText "src"], sampleDirectory "src" [])] ∧
    admittedNodes (sampleProject [sampleGit]).children =
      [([Name.ofText "src"], sampleDirectory "src" [])] := ⟨rfl, rfl⟩

theorem sampleProject_admitted (git : List Node)
    (hnodes : admittedNodes (sampleProject git).children =
      [([Name.ofText "src"], sampleDirectory "src" [])]) (path : Name) :
    buildManifest Crypto.standard path (sampleProject git) true true defaultBudget 900 =
      .ok (manifestOf Crypto.standard path (sampleProject git)) := by
  have hdir : isDir (sampleProject git).stat.mode = true := show isDir 0o040755 = true by decide
  have hadmissible : Admissible ⟨true, true, defaultBudget, 1, 900⟩ (sampleProject git).children := by
    refine ⟨by decide, ?_, ?_, ?_, ?_⟩ <;> rw [hnodes]
    · intro item hitem
      rw [List.mem_singleton.1 hitem]
      refine ⟨?_, ⟨[115, 114, 99], ?_, ?_⟩, .inl ?_, ?_, ?_, ?_, ?_, ?_⟩ <;> decide
    · decide
    · decide
    · decide
  refine (buildManifest_eq_ok Crypto.standard path defaultBudget_valid hdir).2
    ⟨hadmissible, ⟨rfl, rfl, ?_⟩, rfl⟩
  rw [hnodes]
  intro item hitem
  rw [List.mem_singleton.1 hitem]
  exact ⟨rfl, rfl, (fun _ => rfl), fun h => by cases h⟩

theorem sampleProject_nulFree (git : List Node)
    (hnodes : admittedNodes (sampleProject git).children =
      [([Name.ofText "src"], sampleDirectory "src" [])]) : NulFree (sampleProject git) := by
  unfold NulFree
  rw [hnodes]
  decide

/-- What the file says before and after an edit. -/
def sampleContent (edited : Bool) : Bytes := [104, if edited then 106 else 105]

/-- The file. -/
def sampleMain (edited : Bool) : Node :=
  .mk (Name.ofText "main") ⟨1, 13, 0o100644, 1000, 1000, 2, 1⟩ ⟨true, true, false, true⟩ (sampleContent edited) []

/-- A project with the file in a directory. -/
def sampleSources (edited : Bool) : Node :=
  sampleDirectory "project" [sampleDirectory "src" [sampleMain edited]]

theorem sampleSources_nodes (edited : Bool) : admittedNodes (sampleSources edited).children =
    [([Name.ofText "src"], sampleDirectory "src" [sampleMain edited]),
      ([Name.ofText "src", Name.ofText "main"], sampleMain edited)] := rfl

theorem sampleSources_admitted (edited : Bool) (path : Name) :
    buildManifest Crypto.standard path (sampleSources edited) true true defaultBudget 900 =
      .ok (manifestOf Crypto.standard path (sampleSources edited)) := by
  have hdir : isDir (sampleSources edited).stat.mode = true := show isDir 0o040755 = true by decide
  have hadmissible : Admissible ⟨true, true, defaultBudget, 1, 900⟩ (sampleSources edited).children := by
    refine ⟨by decide, ?_, ?_, ?_, ?_⟩ <;> rw [sampleSources_nodes]
    · intro item hitem
      rcases List.mem_cons.1 hitem with rfl | hitem
      · refine ⟨?_, ⟨[115, 114, 99], ?_, ?_⟩, .inl ?_, ?_, ?_, ?_, ?_, ?_⟩ <;> cases edited <;> decide
      · rw [List.mem_singleton.1 hitem]
        refine ⟨?_, ⟨[115, 114, 99, 47, 109, 97, 105, 110], ?_, ?_⟩, .inr ?_, ?_, ?_, ?_, ?_, ?_⟩ <;>
          cases edited <;> decide
    · cases edited <;> decide
    · cases edited <;> decide
    · cases edited <;> decide
  refine (buildManifest_eq_ok Crypto.standard path defaultBudget_valid hdir).2
    ⟨hadmissible, ⟨rfl, rfl, ?_⟩, rfl⟩
  rw [sampleSources_nodes]
  intro item hitem
  rcases List.mem_cons.1 hitem with rfl | hitem
  · exact ⟨rfl, rfl, (fun _ => rfl), fun h => absurd h (by cases edited <;> decide)⟩
  · rw [List.mem_singleton.1 hitem]
    exact ⟨rfl, rfl, (fun h => absurd h (by cases edited <;> decide)), fun _ => rfl⟩

theorem sampleSources_nulFree (edited : Bool) : NulFree (sampleSources edited) := by
  unfold NulFree
  rw [sampleSources_nodes]
  simp only [List.forall_mem_cons, List.not_mem_nil, false_imp_iff, implies_true, and_true]
  cases edited <;> decide

/-- The manifest of such a project. -/
def sampleManifest (edited : Bool) : FilesystemManifest :=
  manifestOf Crypto.standard (Name.ofText "/project") (sampleSources edited)

/-- What is hashed of two such projects. -/
def sampleTexts : List Bytes :=
  [(sampleManifest false).contentBytes.getD [], (sampleManifest true).contentBytes.getD [], sampleContent false,
    sampleContent true]

theorem sampleTexts_nodup : (sampleTexts.map Crypto.standard.sha256).Nodup := by decide +kernel

theorem hashed_sampleSources {edited : Bool} {data : Bytes} (h : data ∈ Hashed (sampleSources edited) (sampleManifest edited)) :
    data = (sampleManifest edited).contentBytes.getD [] ∨ data = sampleContent edited := by
  rcases h with h | ⟨item, hitem, hfile, rfl⟩
  · rw [h]
    exact .inl rfl
  · rw [sampleSources_nodes] at hitem
    rcases List.mem_cons.1 hitem with rfl | hitem
    · exact absurd hfile (by cases edited <;> decide)
    · rw [List.mem_singleton.1 hitem]
      exact .inr rfl

/-- A file that is edited is found. -/
theorem edited_found : contentHash Crypto.standard (sampleManifest false) ≠ contentHash Crypto.standard (sampleManifest true) ∧
    ∃ hash, hashTree Crypto.standard (Name.ofText "/project") (sampleSources false) defaultBudget 900 = .ok hash ∧
      snapshotUnchanged Crypto.standard (Name.ofText "/project") (sampleSources true) defaultBudget 900 hash ≠ .ok true := by
  have hm := sampleSources_admitted false (Name.ofText "/project")
  have hm' := sampleSources_admitted true (Name.ofText "/project")
  have hinj : Set.InjOn Crypto.standard.sha256 (Hashed (sampleSources false) (sampleManifest false) ∪
      Hashed (sampleSources true) (sampleManifest true)) := by
    have hmem : ∀ data ∈ Hashed (sampleSources false) (sampleManifest false) ∪
        Hashed (sampleSources true) (sampleManifest true), data ∈ sampleTexts := by
      rintro data (hdata | hdata)
      · rcases hashed_sampleSources hdata with rfl | rfl <;> simp [sampleTexts]
      · rcases hashed_sampleSources hdata with rfl | rfl <;> simp [sampleTexts]
    exact fun a ha b hb heq => List.inj_on_of_nodup_map sampleTexts_nodup (hmem a ha) (hmem b hb) heq
  obtain ⟨⟨hash, hhash⟩, hsame, hscan⟩ := tree_hash_exact Crypto.standard (Name.ofText "/project")
    (Name.ofText "/project") (sampleSources false) (sampleSources true) true true true true defaultBudget defaultBudget
    900 900 _ _ hm hm' (sampleSources_nulFree false) (sampleSources_nulFree true) hinj
  have hdiffer : contents (sampleSources false) ≠ contents (sampleSources true) := by decide
  have htree := hashTree_eq_ok.2 ⟨_, hm, hhash⟩
  exact ⟨fun heq => hdiffer (hsame heq).2, hash, htree, fun hunchanged => hdiffer (hscan hash htree hunchanged)⟩

/-- A directory `.git` that is added with a file in it is not found. -/
theorem git_not_hashed : ∃ (root root' : Node) (hash : Str), NulFree root ∧ NulFree root' ∧
    hashTree Crypto.standard (Name.ofText "/project") root defaultBudget 900 = .ok hash ∧
    snapshotUnchanged Crypto.standard (Name.ofText "/project") root' defaultBudget 900 hash = .ok true ∧
    (nodesOf [] root.children).map Prod.fst ≠ (nodesOf [] root'.children).map Prod.fst := by
  obtain ⟨hnodes, hnodes'⟩ := sampleProject_nodes
  have hnul := sampleProject_nulFree _ hnodes
  have hm := sampleProject_admitted _ hnodes (Name.ofText "/project")
  obtain ⟨data, hdata⟩ := contentBytes_of_listed (listed_of_buildManifest hm hnul)
  have hhash := (contentHash_eq_ok (C := Crypto.standard)).2 ⟨data, hdata, rfl⟩
  refine ⟨sampleProject [], sampleProject [sampleGit], _, hnul, sampleProject_nulFree _ hnodes',
    hashTree_eq_ok.2 ⟨_, hm, hhash⟩, ?_, by decide⟩
  exact snapshotUnchanged_eq_ok.2 (hashTree_eq_ok.2 ⟨_, sampleProject_admitted _ hnodes' _, hhash⟩)

end Bulldog.Workspace
