import Bulldog.Anchor.Checkpoint
import Bulldog.Release.Checksums

/-!
# The round trip of the checksums

A checksum file is a line for each regular file, and a name is written as it is. So a file is read back as it was
written where no name has a character that ends a line, or a backslash, which the reader refuses. What is read back
is the map of the regular files to their digests, and a directory with another map is refused.
-/

namespace Bulldog.Release

variable {C : Crypto} {d : Directory} {checksumName : Str}

/-! ## Subjects -/

/-- A regular file other than the checksums. -/
def Subject (d : Directory) (checksumName name : Str) (content : Bytes) : Prop :=
  name ≠ checksumName ∧ ∃ i, d.entries.lookup name = some (.file i) ∧ d.contents i = content

theorem isSubject_iff {name : Str} : d.isSubject name = true ↔ ∃ i, d.entries.lookup name = some (.file i) := by
  unfold Directory.isSubject
  rcases d.entries.lookup name with _ | _ | _ | _ <;> simp

theorem mem_subjects {name : Str} :
    name ∈ d.subjects checksumName ↔ ∃ content, Subject d checksumName name content := by
  unfold Directory.subjects Subject
  rw [List.mem_filter, Bool.and_eq_true, isSubject_iff, decide_eq_true_eq]
  constructor
  · rintro ⟨-, ⟨i, hi⟩, hne⟩
    exact ⟨_, hne, i, hi, rfl⟩
  · rintro ⟨content, hne, i, hi, -⟩
    exact ⟨AList.lookup_isSome.1 (by rw [hi]; rfl), ⟨i, hi⟩, hne⟩

theorem isName_of_mem_subjects {name : Str} (h : name ∈ d.subjects checksumName) : IsName name :=
  d.names name (List.mem_of_mem_filter h)

theorem nodup_subjects (d : Directory) (checksumName : Str) : (d.subjects checksumName).Nodup :=
  d.entries.keys_nodup.filter _

/-- The digest of a regular file. -/
def digestOf (C : Crypto) (d : Directory) (name : Str) : Str :=
  hexdigest (C.sha256 (d.contents (((d.entries.lookup name).bind Entry.inode).getD 0)))

theorem sha256File_eq {name : Str} (h : d.isSubject name = true) : d.sha256File C name = .ok (digestOf C d name) := by
  obtain ⟨i, hi⟩ := isSubject_iff.1 h
  simp [Directory.sha256File, digestOf, hi, Entry.inode, orRaise, bind, Except.bind]
  rfl

theorem isHex64_digestOf (C : Crypto) (d : Directory) (name : Str) : isHex64 (digestOf C d name) = true :=
  Anchor.isHex64_hexdigest (C.sha256_length _)

/-- The lines that are written, as they stand in the map. -/
def listing (C : Crypto) (d : Directory) (checksumName : Str) : Checksums :=
  ((d.subjects checksumName).insertionSort (· ≤ ·)).map fun name => (name, digestOf C d name)

theorem map_fst_listing : (listing C d checksumName).map Prod.fst = (d.subjects checksumName).insertionSort (· ≤ ·) := by
  rw [listing, List.map_map]
  exact List.map_id _

theorem mem_listing {name digest : Str} : (name, digest) ∈ listing C d checksumName ↔
    ∃ content, Subject d checksumName name content ∧ digest = hexdigest (C.sha256 content) := by
  rw [listing, List.mem_map]
  constructor
  · rintro ⟨n, hn, heq⟩
    obtain ⟨rfl, rfl⟩ := Prod.mk.inj heq
    obtain ⟨content, hne, i, hi, hcontent⟩ := mem_subjects.1 ((List.mem_insertionSort _).1 hn)
    refine ⟨content, ⟨hne, i, hi, hcontent⟩, ?_⟩
    rw [digestOf, hi, ← hcontent]
    rfl
  · rintro ⟨content, hsubject, rfl⟩
    refine ⟨name, (List.mem_insertionSort _).2 (mem_subjects.2 ⟨content, hsubject⟩), ?_⟩
    obtain ⟨-, i, hi, rfl⟩ := hsubject
    rw [digestOf, hi]
    rfl

/-! ## Reading -/

theorem oneLine_of_isHex64 {s : Str} (h : isHex64 s = true) : Str.OneLine s := by
  rw [isHex64, Bool.and_eq_true, List.all_eq_true] at h
  intro c hc
  have hc := h.2 c hc
  rw [Bool.or_eq_true, Bool.and_eq_true, Bool.and_eq_true, decide_eq_true_eq, decide_eq_true_eq, decide_eq_true_eq,
    decide_eq_true_eq] at hc
  have hval : (97 ≤ c.toNat ∧ c.toNat ≤ 102) ∨ (48 ≤ c.toNat ∧ c.toNat ≤ 57) := hc
  simp only [Str.isLineBoundary, Bool.or_eq_false_iff, Bool.and_eq_false_iff, decide_eq_false_iff_not, beq_eq_false_iff_ne]
  omega

theorem oneLine_checksumLine {name digest : Str} (hdigest : isHex64 digest = true) (hname : Str.OneLine name) :
    Str.OneLine (checksumLine (name, digest)) := by
  refine (oneLine_of_isHex64 hdigest).append fun c hc => ?_
  rcases List.mem_cons.1 hc with rfl | hc
  · decide
  · rcases List.mem_cons.1 hc with rfl | hc
    · decide
    · exact hname c hc

/-- The reader takes a line that was written, unless there is a backslash in the name. -/
theorem readLine_checksumLine {name digest : Str} {result : Checksums} (hdigest : isHex64 digest = true)
    (hname : IsName name) (hnew : name ∉ result.map Prod.fst) :
    readLine result (checksumLine (name, digest)) =
      if '\\' ∈ name then .error (.evidence "invalid checksum filename") else .ok (result ++ [(name, digest)]) := by
  -- a digest has 64 characters, so the slices are the parts that were joined
  have hlength := length_of_isHex64 hdigest
  obtain ⟨hne, hslash, hdot, hdots⟩ := hname
  have hdrop : (checksumLine (name, digest)).drop 64 = ' ' :: ' ' :: name := by
    rw [checksumLine, List.drop_left' hlength]
  have htake : (checksumLine (name, digest)).take 64 = digest := by
    rw [checksumLine, List.take_left' hlength]
  have hrest : (checksumLine (name, digest)).drop 66 = name := by
    rw [show 66 = 64 + 2 from rfl, ← List.drop_drop, hdrop]
    rfl
  have hlong : ¬(checksumLine (name, digest)).length < 67 := by
    have hpos := List.length_pos_iff.2 hne
    rw [checksumLine, List.length_append, List.length_cons, List.length_cons, hlength]
    dsimp only
    omega
  have hnil : checksumLine (name, digest) ≠ [] := fun h => hlong (by rw [h]; decide)
  unfold readLine
  rw [if_neg hnil, hdrop, htake, hrest]
  simp only [hlong, List.take_succ_cons, List.take_zero, ne_eq, not_true_eq_false, or_self, raiseIf, if_false,
    hdigest, Bool.not_true, Bool.false_eq_true, hne, hnew, hslash, hdot, hdots, false_or, or_false, bind, Except.bind]
  split_ifs <;> rfl

/-- The reader takes the lines that were written, unless there is a backslash in a name. -/
theorem foldlM_readLine {entries result : Checksums} (hdigest : ∀ e ∈ entries, isHex64 e.2 = true)
    (hname : ∀ e ∈ entries, IsName e.1) (hnodup : ((result ++ entries).map Prod.fst).Nodup) :
    (entries.map checksumLine).foldlM readLine result =
      if ∃ e ∈ entries, '\\' ∈ e.1 then .error (.evidence "invalid checksum filename") else .ok (result ++ entries) := by
  induction entries generalizing result with
  | nil => simp; rfl
  | cons e entries ih =>
    obtain ⟨name, digest⟩ := e
    have hnew : name ∉ result.map Prod.fst := by
      rw [List.map_append, List.nodup_append] at hnodup
      exact fun h => hnodup.2.2 name h name (List.mem_map_of_mem List.mem_cons_self) rfl
    rw [List.map_cons, List.foldlM_cons, readLine_checksumLine (hdigest _ List.mem_cons_self)
      (hname _ List.mem_cons_self) hnew]
    by_cases hplain : '\\' ∈ name
    · -- the first name with a backslash ends the reading
      rw [if_pos hplain, if_pos ⟨_, List.mem_cons_self, hplain⟩]
      rfl
    · have hiff : (∃ e ∈ (name, digest) :: entries, '\\' ∈ e.1) ↔ ∃ e ∈ entries, '\\' ∈ e.1 := by
        simp [hplain]
      rw [if_neg hplain, if_congr hiff rfl rfl]
      refine (ih (fun e he => hdigest e (List.mem_cons_of_mem _ he))
        (fun e he => hname e (List.mem_cons_of_mem _ he)) ?_).trans ?_
      · rwa [List.append_assoc, List.singleton_append]
      · rw [List.append_assoc, List.singleton_append]

/-- What is written is read back, unless there is a backslash in a name. -/
theorem readChecksums_listing (hne : d.subjects checksumName ≠ [])
    (hlines : ∀ name ∈ d.subjects checksumName, Str.OneLine name) :
    readChecksums (Str.universalNewlines
      (List.intercalate ['\n'] ((listing C d checksumName).map checksumLine) ++ ['\n'])) =
      if ∃ name ∈ d.subjects checksumName, '\\' ∈ name then .error (.evidence "invalid checksum filename")
      else .ok (listing C d checksumName) := by
  have hmem : ∀ e ∈ listing C d checksumName, e.1 ∈ d.subjects checksumName ∧ isHex64 e.2 = true := by
    rintro e he
    obtain ⟨name, hname, rfl⟩ := List.mem_map.1 he
    exact ⟨(List.mem_insertionSort _).1 hname, isHex64_digestOf C d name⟩
  have hlisting : listing C d checksumName ≠ [] := by
    obtain ⟨name, hname⟩ := List.exists_mem_of_ne_nil _ hne
    exact List.ne_nil_of_mem (List.mem_map_of_mem ((List.mem_insertionSort _).2 hname))
  have hone : ∀ l ∈ (listing C d checksumName).map checksumLine, Str.OneLine l := by
    intro l hl
    obtain ⟨e, he, rfl⟩ := List.mem_map.1 hl
    exact oneLine_checksumLine (hmem e he).2 (hlines _ (hmem e he).1)
  rw [Str.intercalate_append (by simpa using hlisting)]
  -- a carriage return ends a line, so text mode leaves the text as it is
  have hreturn : '\r' ∉ ((listing C d checksumName).map checksumLine).flatMap (· ++ ['\n']) := by
    intro h
    obtain ⟨l, hl, hc⟩ := List.mem_flatMap.1 h
    rcases List.mem_append.1 hc with hc | hc
    · exact absurd (hone l hl _ hc) (by decide)
    · exact absurd (List.mem_singleton.1 hc) (by decide)
  have hnodup : (([] ++ listing C d checksumName).map Prod.fst).Nodup := by
    rw [List.nil_append, map_fst_listing]
    exact (List.perm_insertionSort _ _).nodup_iff.2 (nodup_subjects d checksumName)
  rw [Str.universalNewlines_eq hreturn, readChecksums, Str.splitlines_unlines hone,
    foldlM_readLine (fun e he => (hmem e he).2) (fun e he => isName_of_mem_subjects (hmem e he).1) hnodup]
  have hiff : (∃ e ∈ listing C d checksumName, '\\' ∈ e.1) ↔ ∃ name ∈ d.subjects checksumName, '\\' ∈ name := by
    rw [listing]
    simp only [List.mem_map, List.mem_insertionSort, exists_exists_and_eq_and]
  rw [if_congr hiff rfl rfl, List.nil_append]
  split_ifs
  · rfl
  · simp only [bind, Except.bind, raiseIf, if_neg hlisting]
    rfl

/-! ## Writing -/

/-- The checksum file is not there, or it is a regular file, by its own name or by a link, that no other name is
of. -/
def Apart (d : Directory) (checksumName : Str) : Prop :=
  ∀ entry, d.entries.lookup checksumName = some entry → ∃ i, entry.inode = some i ∧
    ∀ name, name ≠ checksumName → d.entries.lookup name ≠ some (.file i)

theorem lt_fresh {name : Str} {entry : Entry} {i : ℕ} (h : d.entries.lookup name = some entry)
    (hi : entry.inode = some i) : i < d.fresh := by
  have hmem : (⟨name, entry⟩ : Sigma fun _ : Str => Entry) ∈ d.entries.entries := AList.mem_lookup_iff.1 h
  have hi : i ∈ d.entries.entries.filterMap fun e => e.2.inode := List.mem_filterMap.2 ⟨_, hmem, hi⟩
  rw [Directory.fresh]
  generalize d.entries.entries.filterMap (fun e => e.2.inode) = is at hi
  induction is with
  | nil => cases hi
  | cons j is ih =>
    rw [List.foldr_cons]
    rcases List.mem_cons.1 hi with rfl | hi
    · omega
    · have := ih hi
      omega

/-- Writing the checksum file leaves the other names, and their contents. -/
theorem writeText_spec (hname : IsName checksumName) (hapart : Apart d checksumName) (text : Str) :
    ∃ d', d.writeText checksumName hname text = .ok d' ∧
      d'.readText checksumName = .ok (Str.universalNewlines text) ∧
      ∀ name content, Subject d' checksumName name content ↔ Subject d checksumName name content := by
  unfold Directory.writeText
  rcases hlookup : d.entries.lookup checksumName with _ | entry
  · -- a new file, whose number is no other name's
    refine ⟨_, rfl, ?_, fun name content => and_congr_right fun hne => exists_congr fun i => ?_⟩
    · simp [Directory.readText, Entry.inode, orRaise, decodeUtf8_encodeUtf8, bind, Except.bind]
      rfl
    · dsimp only
      rw [AList.lookup_insert_ne hne]
      refine and_congr_right fun hi => ?_
      rw [Function.update_of_ne (lt_fresh hi rfl).ne]
  · -- a file that is overwritten, and that no other name is of
    obtain ⟨i, hi, hother⟩ := hapart entry hlookup
    dsimp only
    rw [hi]
    refine ⟨_, rfl, ?_, fun name content => and_congr_right fun hne => exists_congr fun j => ?_⟩
    · simp [Directory.readText, hlookup, hi, orRaise, decodeUtf8_encodeUtf8, bind, Except.bind]
      rfl
    · refine and_congr_right fun hj => ?_
      have hne' : j ≠ i := by
        rintro rfl
        exact hother name hne hj
      dsimp only
      rw [Function.update_of_ne hne']

/-- What `write_checksums` writes, where nothing is excluded. -/
theorem writeChecksums_eq (hname : IsName checksumName) (hne : d.subjects checksumName ≠ []) :
    writeChecksums C (fun _ => false) checksumName hname d =
      d.writeText checksumName hname
        (List.intercalate ['\n'] ((listing C d checksumName).map checksumLine) ++ ['\n']) := by
  have hlines : ((d.subjects checksumName).insertionSort (· ≤ ·)).mapM
      (fun name => do return checksumLine (name, ← d.sha256File C name) : Str → Except Failure Str) =
      .ok ((listing C d checksumName).map checksumLine) := by
    rw [listing, List.map_map]
    refine mapM_eq_ok fun name hn => ?_
    obtain ⟨content, -, i, hi, -⟩ := mem_subjects.1 ((List.mem_insertionSort _).1 hn)
    rw [sha256File_eq (isSubject_iff.2 ⟨i, hi⟩)]
    rfl
  unfold writeChecksums
  simp only [Bool.not_false, List.filter_true]
  rw [raiseIf, if_neg hne, hlines]
  rfl

/-! ## Verifying -/

theorem verifySubject_eq_ok {name digest : Str} : verifySubject C d (name, digest) = .ok () ↔
    ∃ i, d.entries.lookup name = some (.file i) ∧ hexdigest (C.sha256 (d.contents i)) = digest := by
  unfold verifySubject
  by_cases hsubject : d.isSubject name = true
  · obtain ⟨i, hi⟩ := isSubject_iff.1 hsubject
    have hdigest : digestOf C d name = hexdigest (C.sha256 (d.contents i)) := by
      rw [digestOf, hi]
      rfl
    rw [sha256File_eq hsubject, hsubject, hdigest]
    simp only [raiseIf, Bool.not_true, Bool.false_eq_true, if_false, bind, Except.bind, hi, Option.some.injEq,
      Entry.file.injEq, exists_eq_left', ne_eq]
    by_cases heq : hexdigest (C.sha256 (d.contents i)) = digest
    · exact iff_of_true (if_neg (not_not.2 heq)) heq
    · rw [if_pos heq]
      exact iff_of_false (fun h => by cases h) heq
  · rw [Bool.not_eq_true] at hsubject
    rw [hsubject]
    refine iff_of_false (fun h => by cases h) ?_
    rintro ⟨i, hi, -⟩
    rw [isSubject_iff.2 ⟨i, hi⟩] at hsubject
    cases hsubject

/-- What a verification that returns has found: what the file lists are the regular files, with their digests. -/
theorem verifyChecksums_eq_ok {expected : Checksums} : verifyChecksums C checksumName true d = .ok expected ↔
    (∃ text, d.readText checksumName = .ok text ∧ readChecksums text = .ok expected) ∧
      (∀ e ∈ expected, verifySubject C d e = .ok ()) ∧
      ∀ name, name ∈ d.subjects checksumName ↔ name ∈ expected.map Prod.fst := by
  have hsets (e : Checksums) : (d.subjects checksumName).toFinset = (e.map Prod.fst).toFinset ↔
      ∀ name, name ∈ d.subjects checksumName ↔ name ∈ e.map Prod.fst := by
    rw [Finset.ext_iff]
    simp only [List.mem_toFinset]
  unfold verifyChecksums
  constructor
  · intro h
    obtain ⟨text, htext, h⟩ := bind_eq_ok.1 h
    obtain ⟨e, hread, h⟩ := bind_eq_ok.1 h
    obtain ⟨_, hsubjects, h⟩ := bind_eq_ok.1 h
    obtain ⟨_, hinventory, h⟩ := bind_eq_ok.1 h
    obtain rfl : e = expected := Except.ok.inj h
    refine ⟨⟨text, htext, hread⟩, forM_eq_ok.1 hsubjects, (hsets e).1 (not_not.1 fun hne => ?_)⟩
    exact raiseIf_eq_ok.1 hinventory ⟨rfl, hne⟩
  · rintro ⟨⟨text, htext, hread⟩, hsubjects, hinventory⟩
    refine bind_eq_ok.2 ⟨text, htext, bind_eq_ok.2 ⟨expected, hread, bind_eq_ok.2 ⟨(), forM_eq_ok.2 hsubjects,
      bind_eq_ok.2 ⟨(), raiseIf_eq_ok.2 fun h => h.2 ((hsets expected).2 hinventory), rfl⟩⟩⟩⟩

/-- A verification that returns the digests of one map of regular files is of a directory with that map. -/
theorem subject_of_verify {d₂ : Directory} {expected : Checksums}
    (hinj : Set.InjOn C.sha256 {content | ∃ name, Subject d checksumName name content ∨ Subject d₂ checksumName name content})
    (hlist : ∀ name digest, (name, digest) ∈ expected ↔
      ∃ content, Subject d checksumName name content ∧ digest = hexdigest (C.sha256 content))
    (hverify : verifyChecksums C checksumName true d₂ = .ok expected) (name : Str) (content : Bytes) :
    Subject d₂ checksumName name content ↔ Subject d checksumName name content := by
  obtain ⟨-, hsubjects, hinventory⟩ := verifyChecksums_eq_ok.1 hverify
  -- the digests of the two files of a name agree
  have hsame : ∀ c c', Subject d checksumName name c → Subject d₂ checksumName name c' → c' = c := by
    intro c c' hc hc'
    obtain ⟨i, hi, hdigest⟩ :=
      verifySubject_eq_ok.1 (hsubjects _ ((hlist name (hexdigest (C.sha256 c))).2 ⟨c, hc, rfl⟩))
    obtain ⟨-, j, hj, rfl⟩ := hc'
    obtain rfl : i = j := Entry.file.inj (Option.some.inj (hi.symm.trans hj))
    exact hinj ⟨name, .inr ⟨hc.1, i, hi, rfl⟩⟩ ⟨name, .inl hc⟩ (hexdigest_injective hdigest)
  constructor
  · intro h
    obtain ⟨⟨n, digest⟩, hmem, rfl⟩ := List.mem_map.1 ((hinventory name).1 (mem_subjects.2 ⟨content, h⟩))
    obtain ⟨c, hc, -⟩ := (hlist _ _).1 hmem
    rwa [hsame c content hc h]
  · intro h
    have hmem := (hlist name _).2 ⟨content, h, rfl⟩
    obtain ⟨c, hc⟩ := mem_subjects.1 ((hinventory name).2 (List.mem_map_of_mem hmem))
    rwa [← hsame content c h hc]

/-- Where there is a regular file, where the checksum file is apart, and where no name has a character that ends a
line, the checksums are written. A verification returns exactly where no name has a backslash, and then the map of
the regular files to their digests. And of a directory with another map of regular files and this checksum file, it
does not return. -/
theorem checksums_round_trip (C : Crypto) (d : Directory) (checksumName : Str) (hname : IsName checksumName)
    (hapart : Apart d checksumName) (hne : d.subjects checksumName ≠ [])
    (hlines : ∀ name ∈ d.subjects checksumName, Str.OneLine name) :
    ∃ d₁, writeChecksums C (fun _ => false) checksumName hname d = .ok d₁ ∧
      (∀ name content, Subject d₁ checksumName name content ↔ Subject d checksumName name content) ∧
      ((∃ expected, verifyChecksums C checksumName true d₁ = .ok expected) ↔
        ∀ name ∈ d.subjects checksumName, '\\' ∉ name) ∧
      (∀ expected, verifyChecksums C checksumName true d₁ = .ok expected →
        (expected.map Prod.fst).Nodup ∧ ∀ name digest, (name, digest) ∈ expected ↔
          ∃ content, Subject d checksumName name content ∧ digest = hexdigest (C.sha256 content)) ∧
      ∀ d₂, d₂.readText checksumName = d₁.readText checksumName →
        Set.InjOn C.sha256
          {content | ∃ name, Subject d checksumName name content ∨ Subject d₂ checksumName name content} →
        ¬(∀ name content, Subject d₂ checksumName name content ↔ Subject d checksumName name content) →
        ∀ expected, verifyChecksums C checksumName true d₂ ≠ .ok expected := by
  obtain ⟨d₁, hwrite, htext, hsubject⟩ := writeText_spec hname hapart
    (List.intercalate ['\n'] ((listing C d checksumName).map checksumLine) ++ ['\n'])
  have hread := readChecksums_listing (C := C) hne hlines
  -- whatever the directory, the file is read as it was written
  have hexpected : ∀ d₂ : Directory, d₂.readText checksumName = d₁.readText checksumName → ∀ expected,
      verifyChecksums C checksumName true d₂ = .ok expected →
        (∀ name ∈ d.subjects checksumName, '\\' ∉ name) ∧ expected = listing C d checksumName := by
    intro d₂ hsame expected hverify
    obtain ⟨⟨text, hread', hparse⟩, -, -⟩ := verifyChecksums_eq_ok.1 hverify
    obtain rfl := Except.ok.inj (htext.symm.trans (hsame.symm.trans hread'))
    rw [hread] at hparse
    split_ifs at hparse with hplain
    exact ⟨fun name hn hc => hplain ⟨name, hn, hc⟩, (Except.ok.inj hparse).symm⟩
  refine ⟨d₁, (writeChecksums_eq hname hne).trans hwrite, hsubject, ⟨?_, fun hplain => ?_⟩, ?_, ?_⟩
  · rintro ⟨expected, hverify⟩
    exact (hexpected d₁ rfl expected hverify).1
  · refine ⟨listing C d checksumName, verifyChecksums_eq_ok.2 ⟨⟨_, htext, ?_⟩, ?_, fun name => ?_⟩⟩
    · rw [hread, if_neg]
      rintro ⟨name, hn, hc⟩
      exact hplain name hn hc
    · rintro ⟨name, digest⟩ he
      obtain ⟨content, hc, rfl⟩ := mem_listing.1 he
      obtain ⟨-, i, hi, rfl⟩ := (hsubject name content).2 hc
      exact verifySubject_eq_ok.2 ⟨i, hi, rfl⟩
    · rw [map_fst_listing, List.mem_insertionSort, mem_subjects, mem_subjects]
      exact exists_congr fun content => hsubject name content
  · intro expected hverify
    obtain ⟨-, rfl⟩ := hexpected d₁ rfl expected hverify
    refine ⟨?_, fun name digest => mem_listing⟩
    rw [map_fst_listing]
    exact (List.perm_insertionSort _ _).nodup_iff.2 (nodup_subjects d checksumName)
  · intro d₂ hsame hinj hdiffers expected hverify
    obtain ⟨-, rfl⟩ := hexpected d₂ hsame expected hverify
    exact hdiffers (subject_of_verify hinj (fun name digest => mem_listing) hverify)

/-- A directory with one file, which is empty. -/
def oneFile (name : Str) (hname : IsName name) : Directory where
  entries := AList.insert name (.file 0) ∅
  contents _ := []
  names n hn := (AList.mem_insert _ |>.1 hn).elim (fun h => h ▸ hname) fun h => absurd h (AList.notMem_empty n)

/-- A directory with two files. -/
def twoFiles : Directory where
  entries := AList.insert "lib".toList (.file 1) (oneFile "app".toList (by decide)).entries
  contents i := if i = 0 then [1, 2] else [3]
  names n hn := (AList.mem_insert _ |>.1 hn).elim (fun h => h ▸ by decide) ((oneFile "app".toList (by decide)).names n)

theorem checksums_round_trip_app :
    ∃ d₁, writeChecksums .standard (fun _ => false) "SHA256SUMS".toList (by decide) twoFiles = .ok d₁ ∧
      ∃ expected, verifyChecksums .standard "SHA256SUMS".toList true d₁ = .ok expected ∧
        ("app".toList, hexdigest (Crypto.standard.sha256 [1, 2])) ∈ expected ∧
        ("lib".toList, hexdigest (Crypto.standard.sha256 [3])) ∈ expected := by
  have hapart : Apart twoFiles "SHA256SUMS".toList := by
    intro entry h
    have hnone : twoFiles.entries.lookup "SHA256SUMS".toList = none := by decide +kernel
    rw [hnone] at h
    cases h
  have hsubjects : twoFiles.subjects "SHA256SUMS".toList = ["lib".toList, "app".toList] := by decide +kernel
  obtain ⟨d₁, hwrite, -, hverify, hmap, -⟩ := checksums_round_trip .standard twoFiles "SHA256SUMS".toList (by decide)
    hapart (by rw [hsubjects]; exact List.cons_ne_nil _ _) (by rw [hsubjects]; decide +kernel)
  obtain ⟨expected, hexpected⟩ := hverify.2 (by rw [hsubjects]; decide +kernel)
  obtain ⟨-, hdigests⟩ := hmap expected hexpected
  have happ : Subject twoFiles "SHA256SUMS".toList "app".toList [1, 2] := ⟨by decide, 0, by decide +kernel, rfl⟩
  have hlib : Subject twoFiles "SHA256SUMS".toList "lib".toList [3] := ⟨by decide, 1, by decide +kernel, rfl⟩
  exact ⟨d₁, hwrite, expected, hexpected, (hdigests _ _).2 ⟨_, happ, rfl⟩, (hdigests _ _).2 ⟨_, hlib, rfl⟩⟩

/-- A directory in which the checksum file is another name of a file. -/
def linkedFile : Directory where
  entries := AList.insert "SHA256SUMS".toList (.file 0) (oneFile "app".toList (by decide)).entries
  contents _ := []
  names n hn := (AList.mem_insert _ |>.1 hn).elim (fun h => h ▸ by decide) ((oneFile "app".toList (by decide)).names n)

/-- A name with a backslash is written, and then it is refused. So is one with a line feed, as two lines. A file that
is the checksum file too is overwritten. And nothing is written where there is nothing but the checksum file. -/
theorem backslash_refused :
    (writeChecksums .standard (fun _ => false) "SHA256SUMS".toList (by decide)
      (oneFile "a\\b".toList (by decide)) >>= verifyChecksums .standard "SHA256SUMS".toList true) =
        .error (.evidence "invalid checksum filename") ∧
    (writeChecksums .standard (fun _ => false) "SHA256SUMS".toList (by decide)
      (oneFile "a\nb".toList (by decide)) >>= verifyChecksums .standard "SHA256SUMS".toList true) =
        .error (.evidence "invalid checksum line") ∧
    (writeChecksums .standard (fun _ => false) "SHA256SUMS".toList (by decide) linkedFile >>=
      verifyChecksums .standard "SHA256SUMS".toList true) =
        .error (.subject "checksum mismatch: " "app".toList) ∧
    writeChecksums .standard (fun _ => false) "SHA256SUMS".toList (by decide)
      (oneFile "SHA256SUMS".toList (by decide)) =
        .error (.evidence "no release subjects selected for checksums") := by
  refine ⟨?_, ?_, ?_, rfl⟩ <;> decide +kernel

end Bulldog.Release
