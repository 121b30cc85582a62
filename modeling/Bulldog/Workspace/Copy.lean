import Bulldog.Workspace.ContentHash
import Bulldog.Workspace.SecureFs

/-!
# Copies

`_copy_file` of `snapshot.py`, and the loop of `create_snapshot` over the files of a manifest. Other processes may
change the source between any two calls, so what a call reads of it is arbitrary; the snapshot is in a directory that
only this process has.
-/

namespace Bulldog.Workspace

open SecureFs

/-! ## The code -/

variable {File : Type}

/-- What the calls answer, by how many came before. `os.write` of something takes some of it. -/
structure CopyKernel (File : Type) where
  opening : OpenKernel File
  fstat : ℕ → File → Except OpenErrno Stat
  read : ℕ → File → Except OpenErrno Bytes
  mkdir : ℕ → Except OpenErrno Unit
  create : ℕ → Except OpenErrno Unit
  write : ℕ → Bytes → Except OpenErrno ℕ
  fsync : ℕ → Except OpenErrno Unit
  fchmod : ℕ → Except OpenErrno Unit
  expired : ℕ → Bool
  write_pos : ∀ n view written, write n view = .ok written → view ≠ [] → 0 < written

/-- What `_copy_file` raises. -/
inductive CopyError where
  /-- `SnapshotViolation(message + entry.path)`. -/
  | violation (message : String) (path : Name)
  /-- `SnapshotViolation(str(exc))` of what `open_beneath` raises, or its `OSError`. -/
  | path (exc : OpenError)
  /-- `SnapshotViolation("workspace snapshot exceeded wall-clock budget")`. -/
  | deadline
  /-- An `OSError` of `destination.parent.mkdir`. -/
  | mkdir (errno : OpenErrno)
  | os (errno : OpenErrno)

/-- The process, the files of the snapshot with their modes, and whether one of them is open. -/
structure Copying (File : Type) where
  process : OpenProcess File
  snapshot : Name → Option (Bytes × ℕ)
  destinationOpen : Bool

/-- The number of calls so far. -/
def Copying.calls (c : Copying File) : ℕ := c.process.calls

/-- After a call. -/
def Copying.tick (c : Copying File) : Copying File :=
  { c with process := { c.process with calls := c.process.calls + 1 } }

/-- With a file of the snapshot that is now this. -/
def Copying.put (c : Copying File) (path : Name) (content : Bytes) (mode : ℕ) : Copying File :=
  { c with snapshot := Function.update c.snapshot path (some (content, mode)) }

/-- With more at the end of a file of the snapshot. -/
def Copying.append (c : Copying File) (path : Name) (view : Bytes) : Copying File :=
  { c with snapshot := Function.update c.snapshot path ((c.snapshot path).map fun f => (f.1 ++ view, f.2)) }

/-- With another mode of a file of the snapshot. -/
def Copying.chmod (c : Copying File) (path : Name) (mode : ℕ) : Copying File :=
  { c with snapshot := Function.update c.snapshot path ((c.snapshot path).map fun f => (f.1, mode)) }

variable (K : CopyKernel File)

/-- A call whose answer is all that matters. -/
def ask {α : Type} (answer : ℕ → Except OpenErrno α) (inject : OpenErrno → CopyError) :
    Action (Copying File) CopyError α := fun c => ((answer c.calls).mapError inject, c.tick)

/-- `while view: ...`. -/
def writeView (path : Name) (view : Bytes) : Action (Copying File) CopyError Unit := fun c =>
  if _hview : view = [] then (.ok (), c)
  else
    match _hwrite : K.write c.calls view with
    | .error errno => (.error (.os errno), c.tick)
    | .ok written => writeView path (view.drop written) (c.tick.append path (view.take written))
termination_by view.length
decreasing_by
  have hpos := K.write_pos _ _ _ _hwrite _hview
  have hlength := List.length_pos_iff.2 _hview
  rw [List.length_drop]
  omega

/-- `while True: ...`, with what has been hashed so far. -/
def copyBlocks (entry : ManifestEntry) (source : File) (hashed : Bytes) : Action (Copying File) CopyError Bytes :=
  fun c =>
    if K.expired c.calls then (.error .deadline, c)
    else
      match K.read c.calls source with
      | .error errno => (.error (.os errno), c.tick)
      | .ok block =>
        if _hblock : block = [] then (.ok hashed, c.tick)
        else if _hgrew : entry.size < (hashed ++ block).length then
          (.error (.violation "source grew while snapshotting: " entry.path), c.tick)
        else
          match writeView K entry.path block c.tick with
          | (.error exc, c') => (.error exc, c')
          | (.ok _, c') => copyBlocks entry source (hashed ++ block) c'
termination_by entry.size - hashed.length
decreasing_by
  have hlength := List.length_pos_iff.2 _hblock
  rw [List.length_append] at _hgrew ⊢
  omega

/-- `os.open(destination, os.O_WRONLY | os.O_CREAT | os.O_EXCL | os.O_CLOEXEC, 0o600)`. -/
def createDestination (path : Name) : Action (Copying File) CopyError Unit := fun c =>
  if (c.snapshot path).isSome then (.error (.os .exist), c.tick)
  else
    match K.create c.calls with
    | .error errno => (.error (.os errno), c.tick)
    | .ok () => (.ok (), { c.tick.put path [] 0o600 with destinationOpen := true })

/-- `raise SnapshotViolation(f"{message}{entry.path}")` where the condition holds. -/
def violationIf (c : Prop) [Decidable c] (message : String) (entry : ManifestEntry) : Except CopyError Unit :=
  raiseIf c (.violation message entry.path)

/-- The `try` of `_copy_file`. -/
def copyContent (C : Crypto) (entry : ManifestEntry) (source : File) : Action (Copying File) CopyError Unit := do
  let st ← ask (fun n => K.fstat n source) .os
  violationIf (st.device ≠ entry.device ∨ st.inode ≠ entry.inode ∨ st.size ≠ entry.size ∨ st.nlink ≠ 1)
    "source changed before snapshot copy: " entry
  createDestination K entry.path
  let copied ← copyBlocks K entry source []
  violationIf (copied.length ≠ entry.size ∨ some (hexdigest (C.sha256 copied)) ≠ entry.sha256)
    "source changed while snapshotting: " entry
  let after ← ask (fun n => K.fstat n source) .os
  violationIf (after.device ≠ entry.device ∨ after.inode ≠ entry.inode ∨ after.size ≠ entry.size)
    "source changed after snapshot copy: " entry
  ask K.fsync .os
  ask K.fchmod .os
  .update fun c => c.chmod entry.path (0o444 ||| (entry.mode &&& 0o111))

variable [DecidableEq File]

/-- `finally: ...`. -/
def closeBoth (source : File) : Action (Copying File) CopyError Unit :=
  .update fun c => { c with
    process := { c.process with descriptors := c.process.descriptors.erase source }
    destinationOpen := false }

/-- `open_beneath(source_root_fd, entry.path, flags=os.O_RDONLY)`. -/
def openSource (root : File) (entry : ManifestEntry) : Action (OpenProcess File) OpenError File :=
  openBeneath K.opening root (entry.path.map Char.ofNat) ⟨false, false, false, 0⟩ false

/-- `_copy_file(source_root_fd=..., entry=..., destination=..., deadline=...)`. -/
def copyFile (C : Crypto) (root : File) (entry : ManifestEntry) : Action (Copying File) CopyError Unit := do
  let source ← reraise .path <| .zoom Copying.process (fun process c => { c with process }) (openSource K root entry)
  -- the `try` that closes the source comes only after this call
  ask K.mkdir .mkdir
  .ensuring (copyContent K C entry source) (closeBoth source)

/-- The loop of `create_snapshot` over the files. -/
def copyFiles (C : Crypto) (root : File) (entries : List ManifestEntry) : Action (Copying File) CopyError Unit :=
  entries.forM fun entry => if entry.kind = .file then copyFile K C root entry else pure ()

/-! ## What a copy leaves as it is -/

/-- Only this file of the snapshot has changed, and no descriptor. -/
structure Only (path : Name) (c c' : Copying File) : Prop where
  descriptors : c'.process.descriptors = c.process.descriptors
  others : ∀ other, other ≠ path → c'.snapshot other = c.snapshot other

variable {K : CopyKernel File} {path : Name} {c c' c'' : Copying File}

omit [DecidableEq File] in
theorem Only.refl (path : Name) (c : Copying File) : Only path c c := ⟨rfl, fun _ _ => rfl⟩

omit [DecidableEq File] in
theorem Only.trans (h : Only path c c') (h' : Only path c' c'') : Only path c c'' :=
  ⟨h'.descriptors.trans h.descriptors, fun other hother => (h'.others other hother).trans (h.others other hother)⟩

omit [DecidableEq File] in
theorem only_tick (path : Name) (c : Copying File) : Only path c c.tick := ⟨rfl, fun _ _ => rfl⟩

omit [DecidableEq File] in
theorem only_append (path : Name) (c : Copying File) (view : Bytes) : Only path c (c.tick.append path view) :=
  ⟨rfl, fun _ hother => Function.update_of_ne hother _ _⟩

omit [DecidableEq File] in
/-- The file of the snapshot at a path has this content. -/
theorem append_content {content view : Bytes} {mode : ℕ} (h : c.snapshot path = some (content, mode)) :
    (c.tick.append path view).snapshot path = some (content ++ view, mode) := by
  change Function.update c.snapshot path ((c.snapshot path).map _) path = _
  rw [Function.update_self, h]
  rfl

omit [DecidableEq File] in
theorem writeView_error {view : Bytes} {errno : OpenErrno} (hview : view ≠ [])
    (h : K.write c.calls view = .error errno) : writeView K path view c = (.error (.os errno), c.tick) := by
  rw [writeView, dif_neg hview]
  split
  · next errno' h' =>
    obtain rfl := Except.error.inj (h.symm.trans h')
    rfl
  · next written h' => cases h.symm.trans h'

omit [DecidableEq File] in
theorem writeView_ok {view : Bytes} {written : ℕ} (hview : view ≠ []) (h : K.write c.calls view = .ok written) :
    writeView K path view c = writeView K path (view.drop written) (c.tick.append path (view.take written)) := by
  rw [writeView, dif_neg hview]
  split
  · next errno h' => cases h.symm.trans h'
  · next written' h' =>
    obtain rfl := Except.ok.inj (h.symm.trans h')
    rfl

omit [DecidableEq File] in
/-- However much each call writes, all is written in the end, or a part of it from the start. -/
theorem wp_writeView (view : Bytes) : ∀ (c : Copying File) (content : Bytes) (mode : ℕ),
    c.snapshot path = some (content, mode) → (writeView K path view).wp
      (fun _ c' => Only path c c' ∧ c'.snapshot path = some (content ++ view, mode))
      (fun _ c' => Only path c c' ∧ ∃ part, part <+: view ∧
        c'.snapshot path = some (content ++ part, mode)) c := by
  induction hlength : view.length using Nat.strong_induction_on generalizing view with
  | h n ih =>
    intro c content mode hcontent
    by_cases hview : view = []
    · rw [hview]
      unfold Action.wp
      rw [writeView, dif_pos rfl, List.append_nil]
      exact ⟨.refl _ _, hcontent⟩
    · rcases hwrite : K.write c.calls view with errno | written
      · unfold Action.wp
        rw [writeView_error hview hwrite]
        exact ⟨only_tick _ _, [], List.nil_prefix, by rw [List.append_nil]; exact hcontent⟩
      · unfold Action.wp
        rw [writeView_ok hview hwrite]
        have hpos := K.write_pos _ _ _ hwrite hview
        have hrest := ih (view.drop written).length (by
          have hne := List.length_pos_iff.2 hview
          rw [← hlength, List.length_drop]
          omega) (view.drop written) rfl (c.tick.append path (view.take written)) _ mode (append_content hcontent)
        refine Action.wp_mono hrest (fun _ c' h => ?_) fun _ c' h => ?_
        · refine ⟨(only_append _ _ _).trans h.1, ?_⟩
          rw [h.2, List.append_assoc, List.take_append_drop]
        · obtain ⟨honly, part, ⟨rest, hpart⟩, hc'⟩ := h
          refine ⟨(only_append _ _ _).trans honly, view.take written ++ part, ⟨rest, ?_⟩, ?_⟩
          · rw [List.append_assoc, hpart, List.take_append_drop]
          · rw [hc', List.append_assoc]

omit [DecidableEq File] in
/-- What is copied is what is hashed, and never more than the manifest has. -/
theorem wp_copyBlocks (entry : ManifestEntry) (source : File) (hashed : Bytes) : ∀ (c : Copying File) (mode : ℕ),
    c.snapshot entry.path = some (hashed, mode) → hashed.length ≤ entry.size →
      (copyBlocks K entry source hashed).wp
        (fun copied c' => Only entry.path c c' ∧ c'.snapshot entry.path = some (copied, mode) ∧
          copied.length ≤ entry.size)
        (fun _ c' => Only entry.path c c' ∧ ∃ content, c'.snapshot entry.path = some (content, mode) ∧
          content.length ≤ entry.size) c := by
  induction hroom : entry.size - hashed.length using Nat.strong_induction_on generalizing hashed with
  | h n ih =>
    intro c mode hcontent hsize
    unfold Action.wp
    rw [copyBlocks]
    by_cases hexpired : K.expired c.calls = true
    · rw [if_pos hexpired]
      exact ⟨.refl _ _, hashed, hcontent, hsize⟩
    rw [if_neg hexpired]
    rcases K.read c.calls source with errno | block
    · exact ⟨only_tick _ _, hashed, hcontent, hsize⟩
    dsimp only
    by_cases hblock : block = []
    · rw [dif_pos hblock]
      exact ⟨only_tick _ _, hcontent, hsize⟩
    rw [dif_neg hblock]
    by_cases hgrew : entry.size < (hashed ++ block).length
    · rw [dif_pos hgrew]
      exact ⟨only_tick _ _, hashed, hcontent, hsize⟩
    rw [dif_neg hgrew]
    have hwritten := wp_writeView (K := K) block c.tick hashed mode hcontent
    unfold Action.wp at hwritten
    rcases hresult : writeView K entry.path block c.tick with ⟨exc | _, c'⟩
    · rw [hresult] at hwritten
      obtain ⟨honly, part, ⟨rest, rfl⟩, hpart⟩ := hwritten
      refine ⟨(only_tick _ _).trans honly, hashed ++ part, hpart, ?_⟩
      rw [List.length_append, List.length_append] at hgrew
      rw [List.length_append]
      omega
    · rw [hresult] at hwritten
      have hlength := List.length_pos_iff.2 hblock
      refine Action.wp_mono (ih (entry.size - (hashed ++ block).length) ?_ (hashed ++ block) rfl c' mode hwritten.2
        (not_lt.1 hgrew)) (fun copied c'' h => ⟨((only_tick _ _).trans hwritten.1).trans h.1, h.2⟩)
        fun _ c'' h => ⟨((only_tick _ _).trans hwritten.1).trans h.1, h.2⟩
      rw [List.length_append] at hgrew ⊢
      omega

/-! ## Copies of files -/

/-- The snapshot has at the path of an entry what the manifest says. -/
def Copied (C : Crypto) (entry : ManifestEntry) (c : Copying File) : Prop :=
  ∃ content, c.snapshot entry.path = some (content, 0o444 ||| (entry.mode &&& 0o111)) ∧
    content.length = entry.size ∧ some (hexdigest (C.sha256 content)) = entry.sha256

/-- No file of the snapshot is larger than the manifest has it, but for those that were there. -/
def Bounded (entries : List ManifestEntry) (c c' : Copying File) : Prop :=
  ∀ path, c'.snapshot path = c.snapshot path ∨
    ∃ entry ∈ entries, entry.path = path ∧ ∃ content mode, c'.snapshot path = some (content, mode) ∧
      content.length ≤ entry.size

omit [DecidableEq File] in
theorem bounded_of_only {entry : ManifestEntry} (honly : Only entry.path c c')
    (h : c'.snapshot entry.path = c.snapshot entry.path ∨
      ∃ content mode, c'.snapshot entry.path = some (content, mode) ∧ content.length ≤ entry.size) :
    Bounded [entry] c c' := fun path => by
  by_cases hpath : path = entry.path
  · rw [hpath]
    exact h.imp id fun h => ⟨entry, List.mem_singleton_self _, rfl, h⟩
  · exact .inl (honly.others path hpath)

omit [DecidableEq File] in
theorem wp_ask {α : Type} {answer : ℕ → Except OpenErrno α} {inject : OpenErrno → CopyError}
    {Q : α → Copying File → Prop} {E : CopyError → Copying File → Prop} (hok : ∀ a, Q a c.tick)
    (herror : ∀ errno, E (inject errno) c.tick) : (ask answer inject).wp Q E c := by
  unfold Action.wp ask
  rcases answer c.calls with errno | a
  · exact herror errno
  · exact hok a

omit [DecidableEq File] in
theorem wp_violationIf {p : Prop} [Decidable p] {message : String} {entry : ManifestEntry}
    {Q : Unit → Copying File → Prop} {E : CopyError → Copying File → Prop} (hok : ¬ p → Q () c)
    (herror : ∀ exc, E exc c) :
    (liftM (violationIf p message entry) : Action (Copying File) CopyError Unit).wp Q E c :=
  Action.wp_lift_intro (fun _ h => hok (raiseIf_eq_ok.1 h)) herror

/-- The destination, new and empty. -/
def Copying.created (c : Copying File) (path : Name) : Copying File :=
  { c.tick.put path [] 0o600 with destinationOpen := true }

omit [DecidableEq File] in
theorem created_content (c : Copying File) (path : Name) : (c.created path).snapshot path = some ([], 0o600) :=
  Function.update_self _ _ _

omit [DecidableEq File] in
theorem only_created (path : Name) (c : Copying File) : Only path c (c.created path) :=
  ⟨rfl, fun _ hother => Function.update_of_ne hother _ _⟩

omit [DecidableEq File] in
theorem wp_createDestination {Q : Unit → Copying File → Prop} {E : CopyError → Copying File → Prop}
    (hok : c.snapshot path = none → Q () (c.created path)) (herror : ∀ exc, E exc c.tick) :
    (createDestination K path).wp Q E c := by
  unfold Action.wp createDestination
  split_ifs with hexists
  · exact herror _
  rcases K.create c.calls with errno | _
  · exact herror _
  · exact hok (Option.not_isSome_iff_eq_none.1 hexists)

omit [DecidableEq File] in
theorem only_chmod (path : Name) (c : Copying File) (mode : ℕ) : Only path c (c.chmod path mode) :=
  ⟨rfl, fun _ hother => Function.update_of_ne hother _ _⟩

omit [DecidableEq File] in
theorem chmod_content {content : Bytes} {mode mode' : ℕ} (h : c.snapshot path = some (content, mode)) :
    (c.chmod path mode').snapshot path = some (content, mode') := by
  change Function.update c.snapshot path ((c.snapshot path).map _) path = _
  rw [Function.update_self, h]
  rfl

omit [DecidableEq File] in
/-- A copy that returns is of a file that was not there. -/
theorem wp_copyContent (C : Crypto) (entry : ManifestEntry) (source : File) (c : Copying File) :
    (copyContent K C entry source).wp
      (fun _ c' => Only entry.path c c' ∧ c.snapshot entry.path = none ∧ Copied C entry c')
      (fun _ c' => Only entry.path c c' ∧ Bounded [entry] c c') c := by
  have hsame {c' : Copying File} (honly : Only entry.path c c')
      (h : c'.snapshot entry.path = c.snapshot entry.path) : Only entry.path c c' ∧ Bounded [entry] c c' :=
    ⟨honly, bounded_of_only honly (.inl h)⟩
  have hmore {c' : Copying File} {content : Bytes} {mode : ℕ} (honly : Only entry.path c c')
      (h : c'.snapshot entry.path = some (content, mode)) (hsize : content.length ≤ entry.size) :
      Only entry.path c c' ∧ Bounded [entry] c c' :=
    ⟨honly, bounded_of_only honly (.inr ⟨content, mode, h, hsize⟩)⟩
  unfold copyContent
  simp only [Action.wp_bind]
  refine wp_ask (fun st => wp_violationIf (fun _ => ?_) fun _ => hsame (only_tick _ _) rfl)
    fun _ => hsame (only_tick _ _) rfl
  refine wp_createDestination (fun hnone => ?_) fun _ => hsame ((only_tick _ _).trans (only_tick _ _)) rfl
  have hcreated : Only entry.path c (c.tick.created entry.path) := (only_tick _ _).trans (only_created _ _)
  refine Action.wp_mono (wp_copyBlocks entry source [] _ _ (created_content _ _) (Nat.zero_le _))
    (fun copied c₁ h₁ => ?_) fun _ c₁ h₁ => ?_
  · obtain ⟨honly, hcontent, hsize⟩ := h₁
    have h₁ := hcreated.trans honly
    refine wp_violationIf (fun hsame' => ?_) fun _ => hmore h₁ hcontent hsize
    rw [not_or, not_not, not_not] at hsame'
    refine wp_ask (fun after => wp_violationIf (fun _ => ?_) fun _ => hmore (h₁.trans (only_tick _ _)) hcontent hsize)
      fun _ => hmore (h₁.trans (only_tick _ _)) hcontent hsize
    have h₂ := (h₁.trans (only_tick _ _)).trans (only_tick _ c₁.tick)
    refine wp_ask (fun _ => wp_ask (fun _ => ?_) fun _ => hmore (h₂.trans (only_tick _ _)) hcontent hsize)
      fun _ => hmore h₂ hcontent hsize
    exact ⟨(h₂.trans (only_tick _ _)).trans (only_chmod _ _ _), hnone, copied, chmod_content hcontent, hsame'⟩
  · -- the part that was written before the exception stays
    obtain ⟨honly, content, hcontent, hsize⟩ := h₁
    exact hmore (hcreated.trans honly) hcontent hsize

/-- What an exception leaves behind: files that are no larger than the manifest has them, and no open descriptor but
the one of a source for whose copy no directory could be made. -/
structure Broken (entries : List ManifestEntry) (exc : CopyError) (c c' : Copying File) : Prop where
  bounded : Bounded entries c c'
  closed : c.destinationOpen = false → c'.destinationOpen = false
  descriptors : c'.process.descriptors = c.process.descriptors ∨
    ∃ errno source, exc = .mkdir errno ∧ c'.process.descriptors = source :: c.process.descriptors

/-- `_copy_file` leaves no descriptor open, unless the directory of the destination cannot be made. -/
theorem wp_copyFile (C : Crypto) (root : File) (entry : ManifestEntry) (c : Copying File) :
    (copyFile K C root entry).wp
      (fun _ c' => Only entry.path c c' ∧ c'.destinationOpen = false ∧ c.snapshot entry.path = none ∧
        Copied C entry c')
      (fun exc c' => Broken [entry] exc c c') c := by
  unfold copyFile
  rw [Action.wp_bind, wp_reraise, Action.wp_zoom]
  refine Action.wp_mono (wp_openBeneath K.opening root _ _ _ c.process) (fun source p h => ?_)
    fun _ p h => ⟨fun _ => .inl rfl, id, .inl h⟩
  obtain ⟨parts, -, hbeneath⟩ := h
  rw [Action.wp_bind]
  refine wp_ask (fun _ => ?_) fun errno => ⟨fun _ => .inl rfl, id, .inr ⟨errno, source, rfl, hbeneath.descriptors⟩⟩
  rw [Action.wp_ensuring]
  have hclosed {c' : Copying File} (honly : Only entry.path (Copying.tick { c with process := p }) c') :
      c'.process.descriptors.erase source = c.process.descriptors := by
    rw [honly.descriptors]
    exact (congrArg (List.erase · source) hbeneath.descriptors).trans (List.erase_cons_head ..)
  refine Action.wp_mono (wp_copyContent C entry source _) (fun _ c' h => ?_) fun _ c' h => ?_
  · exact ⟨⟨hclosed h.1, h.1.others⟩, rfl, h.2⟩
  · exact ⟨h.2, fun _ => rfl, .inl (hclosed h.1)⟩

/-! ## The files of a manifest -/

omit [DecidableEq File] in
theorem Bounded.cons {entry : ManifestEntry} {entries : List ManifestEntry} (h : Bounded [entry] c c')
    (h' : Bounded entries c' c'') : Bounded (entry :: entries) c c'' := fun path => by
  rcases h' path with hsame | ⟨other, hother, hpath, hcontent⟩
  · rcases h path with hsame' | ⟨other, hother, hpath, hcontent⟩
    · exact .inl (hsame.trans hsame')
    · rw [List.mem_singleton] at hother
      refine .inr ⟨entry, List.mem_cons_self .., hother ▸ hpath, ?_⟩
      rw [hsame, ← hother]
      exact hcontent
  · exact .inr ⟨other, List.mem_cons_of_mem _ hother, hpath, hcontent⟩

omit [DecidableEq File] in
theorem Bounded.refl (entries : List ManifestEntry) (c : Copying File) : Bounded entries c c := fun _ => .inl rfl

omit [DecidableEq File] in
theorem Copied.bounded {C : Crypto} {entry : ManifestEntry} (h : Copied C entry c') (honly : Only entry.path c c') :
    Bounded [entry] c c' := by
  obtain ⟨content, hcontent, hsize, -⟩ := h
  exact bounded_of_only honly (.inr ⟨content, _, hcontent, hsize.le⟩)

/-- What the loop leaves in the snapshot, and what it does not touch. -/
structure Copies (C : Crypto) (entries : List ManifestEntry) (c c' : Copying File) : Prop where
  descriptors : c'.process.descriptors = c.process.descriptors
  closed : c.destinationOpen = false → c'.destinationOpen = false
  copied : ∀ entry ∈ entries, entry.kind = .file → Copied C entry c'
  existing : ∀ path, c.snapshot path ≠ none → c'.snapshot path = c.snapshot path
  others : ∀ path, (∀ entry ∈ entries, entry.kind = .file → entry.path ≠ path) →
    c'.snapshot path = c.snapshot path

omit [DecidableEq File] in
theorem Copies.cons {C : Crypto} {entry : ManifestEntry} {entries : List ManifestEntry} (hkind : entry.kind = .file)
    (honly : Only entry.path c c') (hclosed : c'.destinationOpen = false) (hnone : c.snapshot entry.path = none)
    (hcopied : Copied C entry c') (h : Copies C entries c' c'') : Copies C (entry :: entries) c c'' where
  descriptors := h.descriptors.trans honly.descriptors
  closed _ := h.closed hclosed
  copied other hother hkind' := by
    rcases List.mem_cons.1 hother with rfl | hother
    · -- a copy is not written again
      obtain ⟨content, hcontent, hrest⟩ := hcopied
      refine ⟨content, ?_, hrest⟩
      rw [h.existing _ (by rw [hcontent]; exact Option.some_ne_none _), hcontent]
    · exact h.copied other hother hkind'
  existing path hpath := by
    have hne : path ≠ entry.path := fun heq => hpath (heq ▸ hnone)
    have hsame := honly.others path hne
    rw [h.existing path (by rwa [hsame]), hsame]
  others path hpath := by
    have hne : path ≠ entry.path := fun heq => hpath entry (List.mem_cons_self ..) hkind heq.symm
    rw [h.others path fun other hother => hpath other (List.mem_cons_of_mem _ hother), honly.others path hne]

omit [DecidableEq File] in
theorem Copies.skip {C : Crypto} {entry : ManifestEntry} {entries : List ManifestEntry} (hkind : entry.kind ≠ .file)
    (h : Copies C entries c c') : Copies C (entry :: entries) c c' where
  descriptors := h.descriptors
  closed := h.closed
  copied other hother hkind' := by
    rcases List.mem_cons.1 hother with rfl | hother
    · exact absurd hkind' hkind
    · exact h.copied other hother hkind'
  existing := h.existing
  others path hpath := h.others path fun other hother => hpath other (List.mem_cons_of_mem _ hother)

/-- Whatever other processes do to the source in the meantime: where the loop over the files of a manifest returns, the
snapshot has at the path of each the size and the hash that were admitted, and is otherwise as it was; where it raises,
nothing in the snapshot is larger than the manifest says. No descriptor stays open, but for the one of a file for whose
copy no directory could be made. -/
theorem copies_admitted (K : CopyKernel File) (C : Crypto) (root : File) (entries : List ManifestEntry) :
    ∀ c : Copying File, (copyFiles K C root entries).wp (fun _ c' => Copies C entries c c')
      (fun exc c' => Broken entries exc c c') c := by
  induction entries with
  | nil => exact fun c => ⟨rfl, id, fun _ h => (by cases h), fun _ _ => rfl, fun _ _ => rfl⟩
  | cons entry entries ih =>
    intro c
    change ((if entry.kind = .file then copyFile K C root entry else pure ()) >>= fun _ =>
      copyFiles K C root entries).wp _ _ c
    rw [Action.wp_bind]
    split_ifs with hkind
    · refine Action.wp_mono (wp_copyFile C root entry c) (fun _ c' h => ?_) fun exc c' h => ?_
      · obtain ⟨honly, hclosed, hnone, hcopied⟩ := h
        refine Action.wp_mono (ih c') (fun _ c'' h' => .cons hkind honly hclosed hnone hcopied h') fun exc c'' h' => ?_
        exact ⟨(hcopied.bounded honly).cons h'.bounded, fun _ => h'.closed hclosed, honly.descriptors ▸ h'.descriptors⟩
      · exact ⟨h.bounded.cons (.refl _ _), h.closed, h.descriptors⟩
    · rw [Action.wp_pure]
      refine Action.wp_mono (ih c) (fun _ c' h => .skip hkind h) fun exc c' h => ⟨?_, h.closed, h.descriptors⟩
      exact (Bounded.refl [entry] c).cons h.bounded

/-- A kernel whose files nobody changes. A read takes two bytes at most, and a write takes one. -/
def sampleCopyKernel : CopyKernel String where
  opening := sampleOpenKernel
  fstat _ _ := .ok ⟨0, 1, 0o100755, 0, 0, 3, 1⟩
  read n _ := .ok (if n < 8 then [1, 2] else if n < 11 then [3] else [])
  mkdir _ := .ok ()
  create _ := .ok ()
  write _ view := .ok (min 1 view.length)
  fsync _ := .ok ()
  fchmod _ := .ok ()
  expired _ := false
  write_pos := fun _ view written hwritten hview => by
    obtain rfl := Except.ok.inj hwritten
    have := List.length_pos_iff.2 hview
    omega

/-- The manifest of a project with a file in a directory. -/
def sampleEntries : List ManifestEntry :=
  [⟨"src".toList.map Char.toNat, .directory, 0, 2, 0o40755, 0, 0, 0, none⟩,
    ⟨"src/main.py".toList.map Char.toNat, .file, 0, 1, 0o100755, 0, 0, 3,
      some (hexdigest (Crypto.standard.sha256 [1, 2, 3]))⟩]

/-- An empty snapshot. -/
def emptySnapshot : Copying String := ⟨sampleOpenProcess, fun _ => none, false⟩

theorem sampleEntries_copied : ∃ c', copyFiles sampleCopyKernel .standard "/" sampleEntries emptySnapshot =
    (.ok (), c') ∧ Copies .standard sampleEntries emptySnapshot c' ∧ c'.process.descriptors = [] ∧
      c'.destinationOpen = false := by
  have hreturns : (copyFiles sampleCopyKernel .standard "/" sampleEntries emptySnapshot).1.isOk = true := by
    decide +kernel
  have hcopies := copies_admitted sampleCopyKernel .standard "/" sampleEntries emptySnapshot
  unfold Action.wp at hcopies
  rcases hresult : copyFiles sampleCopyKernel .standard "/" sampleEntries emptySnapshot with ⟨exc | _, c'⟩
  · rw [hresult] at hreturns
    cases hreturns
  · rw [hresult] at hcopies
    exact ⟨c', rfl, hcopies, hcopies.descriptors, hcopies.closed rfl⟩

end Bulldog.Workspace
