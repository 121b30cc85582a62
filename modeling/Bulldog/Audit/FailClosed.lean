import Bulldog.Audit.Integrity
import Bulldog.Audit.Interpreter

/-!
# When a verification answers

A verification answers where nothing raises that it does not catch: each line that it comes to is no JSON or an
object, and each file that it comes to is UTF-8 with a MAC of ASCII, and a head that can be encoded. Where it does
not answer, an append does not either, and both leave the files as they are.
-/

namespace Bulldog.Audit

open Anchor

variable {F : Type} [PyFloat F]

variable {I : Interpreter F} {C : Crypto} {B : Builtins F} {ledger : LedgerOptions} {collector : Collector}
  {disk : Disk} {verifyHead verifyAnchor : Bool}

/-! ## Lines -/

/-- A line is a record with this hash, after a record with the hash `previous`. -/
def IsRecord (I : Interpreter F) (C : Crypto) (previous : Option Str) (raw hash : Str) : Prop :=
  Str.strip raw ≠ [] ∧ ∃ record, I.loads (Str.strip raw) = .ok (.obj record) ∧
    (Fields.get record "record_hash").bind strOf = some hash ∧
    previousHash ((Fields.get record "previous_hash").getD .null) = some previous ∧
    I.calculateHash C (Str.strip raw) record = .ok hash

/-- A line does not make the loop raise: it is blank, it is no JSON, or it is an object, whose hash can be
calculated where the record has a hash and the hash of the record before it. -/
def Harmless (I : Interpreter F) (C : Crypto) (previous : Option Str) (raw : Str) : Prop :=
  Str.strip raw ≠ [] → ∀ value, I.loads (Str.strip raw) = .ok value → ∃ record, value = .obj record ∧
    (((Fields.get record "record_hash").bind strOf).isSome →
      previousHash ((Fields.get record "previous_hash").getD .null) = some previous →
        ∃ hash, I.calculateHash C (Str.strip raw) record = .ok hash)

/-- The lines are blank, or records that follow one another: from the hash `previous` after some records to the
hash `last` after some more. -/
inductive Chain (I : Interpreter F) (C : Crypto) : Option Str → ℕ → List Str → Option Str → ℕ → Prop
  | nil (previous : Option Str) (records : ℕ) : Chain I C previous records [] previous records
  | blank {previous last : Option Str} {records n : ℕ} {raw : Str} {rest : List Str} (blank : Str.strip raw = [])
    (chain : Chain I C previous records rest last n) : Chain I C previous records (raw :: rest) last n
  | record {previous last : Option Str} {records n : ℕ} {raw hash : Str} {rest : List Str}
    (record : IsRecord I C previous raw hash) (chain : Chain I C (some hash) (records + 1) rest last n) :
    Chain I C previous records (raw :: rest) last n

/-- What a turn of the loop can do. -/
theorem checkLine_cases (I : Interpreter F) (C : Crypto) (previous : Option Str) (raw : Str) :
    Str.strip raw = [] ∧ I.checkLine C previous raw = .ok .blank ∨
    Str.strip raw ≠ [] ∧
      ((∃ e, I.loads (Str.strip raw) = .error e ∧ ∃ fault, I.checkLine C previous raw = .ok (.fault fault)) ∨
      (∃ value, I.loads (Str.strip raw) = .ok value ∧ (∀ record, value ≠ .obj record) ∧
        I.checkLine C previous raw = .error (.builtin .attributeError)) ∨
      ∃ record, I.loads (Str.strip raw) = .ok (.obj record) ∧
        ((∃ fault, ¬(((Fields.get record "record_hash").bind strOf).isSome ∧
            previousHash ((Fields.get record "previous_hash").getD .null) = some previous) ∧
          I.checkLine C previous raw = .ok (.fault fault)) ∨
        ∃ stored, (Fields.get record "record_hash").bind strOf = some stored ∧
          previousHash ((Fields.get record "previous_hash").getD .null) = some previous ∧
          ((∃ e, I.calculateHash C (Str.strip raw) record = .error e ∧ I.checkLine C previous raw = .error e) ∨
          ∃ hash, I.calculateHash C (Str.strip raw) record = .ok hash ∧
            (hash ≠ stored ∧ (∃ fault, I.checkLine C previous raw = .ok (.fault fault)) ∨
            hash = stored ∧ I.checkLine C previous raw = .ok (.record stored))))) := by
  unfold Interpreter.checkLine
  by_cases hblank : Str.strip raw = []
  · exact .inl ⟨hblank, if_pos hblank⟩
  · rw [if_neg hblank]
    refine .inr ⟨hblank, ?_⟩
    rcases hloads : I.loads (Str.strip raw) with e | (_ | _ | _ | _ | _ | _ | record)
    case ok.obj =>
      -- an object: the checks in the order of the loop
      refine .inr (.inr ⟨record, rfl, ?_⟩)
      dsimp only
      rcases hstored : (Fields.get record "record_hash").bind strOf with _ | stored
      · exact .inl ⟨_, fun h => Bool.false_ne_true h.1, rfl⟩
      · dsimp only
        by_cases hprevious : previousHash ((Fields.get record "previous_hash").getD .null) = some previous
        · rw [if_neg (not_not.2 hprevious)]
          refine .inr ⟨stored, rfl, hprevious, ?_⟩
          rcases hhash : I.calculateHash C (Str.strip raw) record with e | hash
          · exact .inl ⟨e, rfl, rfl⟩
          · refine .inr ⟨hash, rfl, ?_⟩
            by_cases heq : hash = stored
            · exact .inr ⟨heq, if_neg (not_not.2 heq)⟩
            · exact .inl ⟨heq, _, if_pos heq⟩
        · rw [if_pos hprevious]
          exact .inl ⟨_, fun h => hprevious h.2, rfl⟩
    case error => exact .inl ⟨e, rfl, _, rfl⟩
    -- the other kinds of value have no `get`
    all_goals exact .inr (.inl ⟨_, rfl, nofun, rfl⟩)

theorem checkLine_eq_blank {previous : Option Str} {raw : Str} :
    I.checkLine C previous raw = .ok .blank ↔ Str.strip raw = [] := by
  rcases checkLine_cases I C previous raw with ⟨hblank, h⟩ | ⟨hne, ⟨e, -, _, h⟩ | ⟨_, -, -, h⟩ | ⟨_, -, ⟨_, -, h⟩ |
    ⟨_, -, -, ⟨_, -, h⟩ | ⟨_, -, ⟨-, _, h⟩ | ⟨-, h⟩⟩⟩⟩⟩
  · exact iff_of_true h hblank
  all_goals
    rw [h]
    exact iff_of_false nofun hne

theorem checkLine_eq_record {previous : Option Str} {raw hash : Str} :
    I.checkLine C previous raw = .ok (.record hash) ↔ IsRecord I C previous raw hash := by
  have hunique {record record' : Fields F} (h : I.loads (Str.strip raw) = .ok (.obj record))
      (h' : I.loads (Str.strip raw) = .ok (.obj record')) : record' = record :=
    Json.obj.inj (Except.ok.inj (h'.symm.trans h))
  rcases checkLine_cases I C previous raw with ⟨hblank, h⟩ | ⟨hne, ⟨e, hloads, _, h⟩ | ⟨_, hloads, hobj, h⟩ |
    ⟨record, hloads, ⟨_, hnot, h⟩ | ⟨stored, hstored, hprevious, ⟨e, hhash, h⟩ |
    ⟨_, hhash, ⟨hdiff, _, h⟩ | ⟨rfl, h⟩⟩⟩⟩⟩
  · rw [h]
    exact iff_of_false nofun fun hr => hr.1 hblank
  · rw [h]
    refine iff_of_false nofun fun ⟨_, record, hr, _⟩ => ?_
    rw [hloads] at hr
    cases hr
  · rw [h]
    refine iff_of_false nofun fun ⟨_, record, hr, _⟩ => hobj record ?_
    exact Except.ok.inj (hloads.symm.trans hr)
  · rw [h]
    refine iff_of_false nofun fun ⟨_, record', hr, hs, hp, _⟩ => hnot ?_
    obtain rfl := hunique hloads hr
    exact ⟨by rw [hs]; rfl, hp⟩
  · rw [h]
    refine iff_of_false nofun fun ⟨_, record', hr, _, _, hc⟩ => ?_
    obtain rfl := hunique hloads hr
    rw [hhash] at hc
    cases hc
  · rw [h]
    refine iff_of_false nofun fun ⟨_, record', hr, hs, _, hc⟩ => hdiff ?_
    obtain rfl := hunique hloads hr
    exact (Except.ok.inj (hhash.symm.trans hc)).trans (Option.some.inj (hs.symm.trans hstored))
  · rw [h]
    constructor
    · rintro ⟨⟩
      exact ⟨hne, record, hloads, hstored, hprevious, hhash⟩
    · rintro ⟨-, record', hr, hs, -⟩
      obtain rfl := hunique hloads hr
      rw [Option.some.inj (hstored.symm.trans hs)]

theorem harmless_iff {previous : Option Str} {raw : Str} :
    Harmless I C previous raw ↔ ∃ outcome, I.checkLine C previous raw = .ok outcome := by
  unfold Harmless
  rcases checkLine_cases I C previous raw with ⟨hblank, h⟩ | ⟨hne, ⟨e, hloads, _, h⟩ | ⟨_, hloads, hobj, h⟩ |
    ⟨record, hloads, ⟨_, hnot, h⟩ | ⟨stored, hstored, hprevious, ⟨e, hhash, h⟩ | ⟨_, hhash, h⟩⟩⟩⟩
  · exact iff_of_true (fun hne => absurd hblank hne) ⟨_, h⟩
  · refine iff_of_true (fun _ value hv => ?_) ⟨_, h⟩
    rw [hloads] at hv
    cases hv
  · refine iff_of_false (fun hall => ?_) fun ⟨_, h'⟩ => by rw [h] at h'; cases h'
    obtain ⟨record, hr, -⟩ := hall hne _ hloads
    exact hobj record hr
  · refine iff_of_true (fun _ value hv => ?_) ⟨_, h⟩
    exact ⟨record, Except.ok.inj (hv.symm.trans hloads), fun hs hp => absurd ⟨hs, hp⟩ hnot⟩
  · refine iff_of_false (fun hall => ?_) fun ⟨_, h'⟩ => by rw [h] at h'; cases h'
    obtain ⟨record', hr, hcalculated⟩ := hall hne _ hloads
    obtain rfl := Json.obj.inj hr
    obtain ⟨hash, hc⟩ := hcalculated (by rw [hstored]; rfl) hprevious
    rw [hhash] at hc
    cases hc
  · refine iff_of_true (fun _ value hv => ?_) ?_
    · exact ⟨record, Except.ok.inj (hv.symm.trans hloads), fun _ _ => ⟨_, hhash⟩⟩
    · rcases h with ⟨-, _, h⟩ | ⟨-, h⟩ <;> exact ⟨_, h⟩

theorem scan_eq_inr {previous last : Option Str} {records index n : ℕ} {lines : List Str} :
    I.scan C previous records index lines = .ok (.inr (last, n)) ↔ Chain I C previous records lines last n := by
  induction lines generalizing previous records index with
  | nil =>
    constructor
    · intro h
      obtain ⟨rfl, rfl⟩ := Prod.mk.inj (Sum.inr.inj (Except.ok.inj h))
      exact .nil _ _
    · rintro ⟨⟩
      rfl
  | cons raw rest ih =>
    rw [Interpreter.scan, bind_eq_ok]
    constructor
    · rintro ⟨outcome, hline, hrest⟩
      cases outcome with
      | blank => exact .blank (checkLine_eq_blank.1 hline) (ih.1 hrest)
      | fault fault => cases hrest
      | record hash => exact .record (checkLine_eq_record.1 hline) (ih.1 hrest)
    · intro h
      cases h with
      | blank hblank hchain => exact ⟨_, checkLine_eq_blank.2 hblank, ih.2 hchain⟩
      | record hrecord hchain => exact ⟨_, checkLine_eq_record.2 hrecord, ih.2 hchain⟩

/-- The loop gets to its end, or returns, where every line that it comes to is harmless. -/
theorem exists_scan_iff {previous : Option Str} {records index : ℕ} {lines : List Str} :
    (∃ result, I.scan C previous records index lines = .ok result) ↔
      ∀ pre raw post, lines = pre ++ raw :: post → ∀ last n, Chain I C previous records pre last n →
        Harmless I C last raw := by
  induction lines generalizing previous records index with
  | nil => exact iff_of_true ⟨_, rfl⟩ fun pre raw post h => by simp at h
  | cons line rest ih =>
    rw [Interpreter.scan]
    simp only [bind_eq_ok]
    constructor
    · rintro ⟨result, outcome, hline, hrest⟩ pre raw post heq last n hchain
      -- the chain before `raw` is what the loop has gone through
      cases hchain with
      | nil =>
        obtain ⟨rfl, -⟩ := List.cons.inj heq
        exact harmless_iff.2 ⟨outcome, hline⟩
      | blank hblank hchain =>
        rw [List.cons_append, List.cons.injEq] at heq
        obtain ⟨rfl, heq⟩ := heq
        rw [checkLine_eq_blank.2 hblank] at hline
        cases hline
        exact ih.1 ⟨result, hrest⟩ _ raw post heq last n hchain
      | record hrecord hchain =>
        rw [List.cons_append, List.cons.injEq] at heq
        obtain ⟨rfl, heq⟩ := heq
        rw [checkLine_eq_record.2 hrecord] at hline
        cases hline
        exact ih.1 ⟨result, hrest⟩ _ raw post heq last n hchain
    · intro h
      obtain ⟨outcome, hline⟩ := harmless_iff.1 (h [] line rest rfl _ _ (.nil _ _))
      cases outcome with
      | blank =>
        obtain ⟨result, hrest⟩ := ih.2 fun pre raw post heq last n hchain =>
          h (line :: pre) raw post (by rw [heq, List.cons_append]) last n
            (.blank (checkLine_eq_blank.1 hline) hchain)
        exact ⟨result, _, hline, hrest⟩
      | fault fault => exact ⟨_, _, hline, rfl⟩
      | record hash =>
        obtain ⟨result, hrest⟩ := ih.2 fun pre raw post heq last n hchain =>
          h (line :: pre) raw post (by rw [heq, List.cons_append]) last n
            (.record (checkLine_eq_record.1 hline) hchain)
        exact ⟨result, _, hline, hrest⟩

/-! ## Checkpoints -/

/-- The head file is text, where it is to be verified and there is one. -/
def HeadReads (disk : Disk) (verifyHead : Bool) : Prop :=
  verifyHead = true → ∀ file, disk.head = some file → decodeUtf8 file ≠ none

/-- The MAC in a checkpoint is a text of ASCII, where the checkpoint parses. -/
def AsciiMac (I : Interpreter F) (B : Builtins F) (file : Bytes) : Prop :=
  ∀ sequence head supplied, I.parseCheckpoint B file = .ok (sequence, head, supplied) → isAscii supplied = true

/-- The head in a checkpoint has no lone surrogate, where the checkpoint parses. -/
def HeadEncodes (I : Interpreter F) (B : Builtins F) (file : Bytes) : Prop :=
  ∀ parsed, I.parseCheckpoint B file = .ok parsed → I.encodes file = true

/-- The head in the external anchor can be encoded and the MAC is a text of ASCII, where there is a key that it is
compared with one of. -/
def AnchorReads (I : Interpreter F) (B : Builtins F) (ledger : LedgerOptions) (disk : Disk) : Prop :=
  ∀ key file, key ≠ [] → ledger.anchorKey = some (some key) → disk.anchor = some file →
    HeadEncodes I B file ∧ AsciiMac I B file

/-- The external anchor, where there is one, is of these records. -/
def AnchorIs (I : Interpreter F) (C : Crypto) (B : Builtins F) (ledger : LedgerOptions) (disk : Disk)
    (records : ℕ) (head : Str) : Prop :=
  ∃ anchor, I.readAnchor C B ledger disk = .ok anchor ∧ ∀ a ∈ anchor, a.1 = (records : ℤ) ∧ a.2 = head

/-- The MAC in the remote checkpoint of a URL is a text of ASCII, where the head can be encoded. -/
def RemoteReads (I : Interpreter F) (B : Builtins F) (collector : Collector) (disk : Disk) : Prop :=
  ∀ key nonempty file, collector = .url key nonempty → disk.remote = some file → I.encodes file = true →
    AsciiMac I B file

/-- What a verification needs of the files beside the ledger: each one that it comes to is read without a raise
that nothing catches. -/
structure CheckpointsRead (I : Interpreter F) (C : Crypto) (B : Builtins F) (ledger : LedgerOptions)
    (collector : Collector) (disk : Disk) (verifyHead verifyAnchor : Bool) (previous : Option Str) (records : ℕ) :
    Prop where
  head : HeadReads disk verifyHead
  anchor : HeadIs disk verifyHead (previous.getD []) → verifyAnchor = true → AnchorReads I B ledger disk
  remote : HeadIs disk verifyHead (previous.getD []) → verifyAnchor = true →
    AnchorIs I C B ledger disk records (previous.getD []) → RemoteReads I B collector disk

/-- What reading the head can do. -/
theorem headText_cases (disk : Disk) (verifyHead : Bool) :
    HeadReads disk verifyHead ∧ (∃ checkpoint, disk.headText verifyHead = .ok checkpoint) ∨
    ¬HeadReads disk verifyHead ∧ disk.headText verifyHead = .error (.builtin .unicodeError) := by
  unfold HeadReads Disk.headText
  rcases verifyHead with _ | _
  · exact .inl ⟨fun h => (by cases h), _, rfl⟩
  · rcases disk.head with _ | file
    · exact .inl ⟨fun _ _ h => (by cases h), _, rfl⟩
    · rcases hdecode : decodeUtf8 file with _ | text
      · refine .inr ⟨fun h => h rfl file rfl hdecode, ?_⟩
        simp [readText, hdecode, orRaise, Except.map]
      · refine .inl ⟨fun _ _ hfile => ?_, some (Str.strip (Str.universalNewlines text)), ?_⟩
        · obtain rfl := Option.some.inj hfile
          rw [hdecode]
          exact Option.some_ne_none _
        · simp [readText, hdecode, orRaise, Except.map]

/-- What reading the external anchor can do. -/
theorem readAnchor_cases (I : Interpreter F) (C : Crypto) (B : Builtins F) (ledger : LedgerOptions) (disk : Disk) :
    AnchorReads I B ledger disk ∧ ((∃ anchor, I.readAnchor C B ledger disk = .ok anchor) ∨
      (∃ message, I.readAnchor C B ledger disk = .error (.raised .auditIntegrityError message)) ∨
      ∃ message cause, I.readAnchor C B ledger disk = .error (.wrapped .auditIntegrityError message cause)) ∨
    ¬AnchorReads I B ledger disk ∧ ∃ e, I.readAnchor C B ledger disk = .error (.builtin e) ∧
      e ≠ .auditIntegrityError := by
  unfold Interpreter.readAnchor AnchorReads
  rcases hkey : ledger.anchorKey with _ | key
  · exact .inl ⟨nofun, .inl ⟨_, rfl⟩⟩
  · rcases hfile : disk.anchor with _ | file
    · exact .inl ⟨nofun, .inl ⟨_, rfl⟩⟩
    · dsimp only
      rcases hparse : I.parseCheckpoint B file with e | ⟨sequence, head, supplied⟩
      · refine .inl ⟨?_, .inr (.inr ⟨_, _, rfl⟩)⟩
        rintro key' file' - - hfile'
        rw [Option.some.inj hfile'] at hparse
        refine ⟨fun parsed h => ?_, fun sequence head supplied h => ?_⟩ <;> cases h.symm.trans hparse
      · -- no key and an empty one are refused before the MACs are compared
        rcases key with _ | _ | ⟨b, key⟩
        · exact .inl ⟨nofun, .inr (.inl ⟨_, rfl⟩)⟩
        · refine .inl ⟨?_, .inr (.inl ⟨_, rfl⟩)⟩
          rintro key' file' hne hkey'
          exact absurd (Option.some.inj (Option.some.inj hkey')).symm hne
        · dsimp only [mac, bind, Except.bind]
          by_cases hencodes : I.encodes file = true
          · rw [hencodes]
            by_cases hascii : isAscii supplied = true
            · refine .inl ⟨?_, ?_⟩
              · rintro key' file' - - hfile'
                obtain rfl := Option.some.inj hfile'
                refine ⟨fun _ _ => hencodes, fun sequence' head' supplied' h => ?_⟩
                cases h.symm.trans hparse
                exact hascii
              · rw [hascii]
                by_cases heq :
                  supplied = hexdigest (C.hmac (b :: key) (encodeUtf8 (renderInt sequence ++ ':' :: head)))
                · exact .inl ⟨some (sequence, head), by simp [raiseIf, heq]; rfl⟩
                · exact .inr (.inl ⟨"external audit anchor signature mismatch", by simp [raiseIf, heq]; rfl⟩)
            · refine .inr ⟨fun h => hascii ?_, .typeError, ?_, by decide⟩
              · exact (h (b :: key) file (List.cons_ne_nil _ _) rfl rfl).2 sequence head supplied hparse
              · simp [raiseIf, hascii]
          · refine .inr ⟨fun h => hencodes ?_, .unicodeError, ?_, by decide⟩
            · exact (h (b :: key) file (List.cons_ne_nil _ _) rfl rfl).1 _ hparse
            · simp [raiseIf, hencodes]

/-- What reading the remote checkpoint can do. -/
theorem verifyRemote_cases (I : Interpreter F) (C : Crypto) (B : Builtins F) (collector : Collector) (disk : Disk)
    (records : ℕ) (head : Option Str) :
    RemoteReads I B collector disk ∧ (∃ fault, I.verifyRemote C B collector disk records head = .ok fault) ∨
    ¬RemoteReads I B collector disk ∧
      I.verifyRemote C B collector disk records head = .error (.builtin .typeError) := by
  unfold Interpreter.verifyRemote RemoteReads
  cases collector with
  | off => exact .inl ⟨nofun, _, rfl⟩
  | transport identity =>
    refine .inl ⟨nofun, ?_⟩
    dsimp only
    split_ifs
    · exact ⟨_, rfl⟩
    · rcases I.checkTransport C identity disk records head with e | _ <;> exact ⟨_, rfl⟩
  | url key nonempty =>
    rcases hfile : disk.remote with _ | file
    · exact .inl ⟨nofun, _, rfl⟩
    · dsimp only
      by_cases hencodes : I.encodes file = true
      case neg =>
        -- what `encode` raises is caught here
        refine .inl ⟨?_, ?_⟩
        · rintro key' nonempty' file' - hfile' hencodes'
          exact absurd (Option.some.inj hfile' ▸ hencodes') hencodes
        · have herror : ∃ e, I.checkUrl C B key file = .error e := by
            obtain ⟨b, rest, rfl⟩ := List.exists_cons_of_ne_nil nonempty
            unfold Interpreter.checkUrl
            rcases I.parseCheckpoint B file with e | ⟨_, _, _⟩
            · exact ⟨e, rfl⟩
            · exact ⟨.builtin .unicodeError, by simp [mac, raiseIf, hencodes, bind, Except.bind]⟩
          obtain ⟨e, herror⟩ := herror
          rw [herror]
          exact ⟨_, rfl⟩
      -- the key is not empty, so there is a MAC wherever the fields are
      have hmac : I.checkUrl C B key file = (I.parseCheckpoint B file).map fun parsed => (parsed,
          hexdigest (C.hmac key (encodeUtf8 (renderInt parsed.1 ++ ':' :: parsed.2.1)))) := by
        obtain ⟨b, rest, rfl⟩ := List.exists_cons_of_ne_nil nonempty
        unfold Interpreter.checkUrl
        rw [hencodes]
        rcases I.parseCheckpoint B file with e | ⟨_, _, _⟩ <;> rfl
      rw [hmac]
      rcases hparse : I.parseCheckpoint B file with e | ⟨sequence, remoteHead, supplied⟩
      · refine .inl ⟨?_, _, rfl⟩
        rintro key' nonempty' file' - hfile' - sequence head supplied h
        rw [Option.some.inj hfile', h] at hparse
        cases hparse
      · dsimp only [Except.map]
        by_cases hascii : isAscii supplied = true
        · refine .inl ⟨?_, ?_⟩
          · rintro key' nonempty' file' - hfile' - sequence' head' supplied' h
            rw [← Option.some.inj hfile', hparse] at h
            cases h
            exact hascii
          · rw [hascii]
            simp only [raiseIf, bind, Except.bind, Bool.not_true, Bool.false_eq_true, if_false]
            split_ifs <;> exact ⟨_, rfl⟩
        · refine .inr ⟨fun h => hascii ?_, ?_⟩
          · exact h key nonempty file rfl rfl hencodes sequence remoteHead supplied hparse
          · simp [raiseIf, hascii, bind, Except.bind]

/-- The head of a verification is the text that it is compared with, or something else. -/
theorem headIs_iff {checkpoint : Option Str} (h : disk.headText verifyHead = .ok checkpoint) (text : Str) :
    HeadIs disk verifyHead text ↔ checkpoint.any (· ≠ text) = false := by
  rw [any_ne_iff]
  constructor
  · rintro ⟨checkpoint', h', hall⟩
    rwa [Except.ok.inj (h.symm.trans h')]
  · exact fun hall => ⟨checkpoint, h, hall⟩

/-- Two checks of an anchor, where there is one. -/
theorem any_or_all {records : ℕ} {head : Str} (anchor : Option (ℤ × Str)) :
    (anchor.any (·.1 ≠ (records : ℤ)) = true ∨ anchor.any (·.2 ≠ head) = true) ↔
      ¬∀ a ∈ anchor, a.1 = (records : ℤ) ∧ a.2 = head := by
  rcases anchor with _ | ⟨sequence, text⟩
  · simp
  · simp only [Option.any_some, decide_eq_true_eq, Option.mem_def, Option.some.injEq, forall_eq', not_and_or]

/-- The part after the loop returns exactly where the files beside the ledger are read, and it never raises an
`AuditIntegrityError`. -/
theorem verifyCheckpoints_cases (I : Interpreter F) (C : Crypto) (B : Builtins F) (ledger : LedgerOptions)
    (collector : Collector) (disk : Disk) (verifyHead verifyAnchor : Bool) (previous : Option Str) (records : ℕ) :
    CheckpointsRead I C B ledger collector disk verifyHead verifyAnchor previous records ∧
      (∃ v, I.verifyCheckpoints C B ledger collector disk verifyHead verifyAnchor previous records = .ok v) ∨
    ¬CheckpointsRead I C B ledger collector disk verifyHead verifyAnchor previous records ∧
      ∃ e, I.verifyCheckpoints C B ledger collector disk verifyHead verifyAnchor previous records = .error e ∧
        e.cls ≠ .auditIntegrityError := by
  unfold Interpreter.verifyCheckpoints
  rcases headText_cases disk verifyHead with ⟨hreads, checkpoint, hhead⟩ | ⟨hreads, hhead⟩
  case inr =>
    rw [hhead]
    exact .inr ⟨fun h => hreads h.head, _, rfl, by decide⟩
  case inl =>
    rw [hhead]
    simp only [bind, Except.bind]
    by_cases hdiffers : checkpoint.any (· ≠ previous.getD []) = true
    · -- the head differs, so neither the anchor nor the remote checkpoint is looked at
      have hnot : ¬HeadIs disk verifyHead (previous.getD []) := fun h => by
        rw [(headIs_iff hhead _).1 h] at hdiffers
        cases hdiffers
      rw [if_pos hdiffers]
      exact .inl ⟨⟨hreads, fun h => absurd h hnot, fun h => absurd h hnot⟩, _, rfl⟩
    · rw [if_neg hdiffers]
      have his : HeadIs disk verifyHead (previous.getD []) :=
        (headIs_iff hhead _).2 (by simpa using hdiffers)
      cases verifyAnchor with
      | false => exact .inl ⟨⟨hreads, nofun, nofun⟩, _, rfl⟩
      | true =>
        simp only [Bool.not_true, Bool.false_eq_true, if_false]
        rcases readAnchor_cases I C B ledger disk with ⟨hanchor, ⟨anchor, h⟩ | ⟨_, h⟩ | ⟨_, _, h⟩⟩ | ⟨hanchor, _, h, hcls⟩
        · rw [h]
          dsimp only
          by_cases hseq : anchor.any (·.1 ≠ (records : ℤ)) = true
          · rw [if_pos hseq]
            refine .inl ⟨⟨hreads, fun _ _ => hanchor, fun _ _ ⟨a, ha, hall⟩ => ?_⟩, _, rfl⟩
            rw [← Except.ok.inj (h.symm.trans ha)] at hall
            exact absurd hall ((any_or_all anchor).1 (.inl hseq))
          · rw [if_neg hseq]
            by_cases hlast : anchor.any (·.2 ≠ previous.getD []) = true
            · rw [if_pos hlast]
              refine .inl ⟨⟨hreads, fun _ _ => hanchor, fun _ _ ⟨a, ha, hall⟩ => ?_⟩, _, rfl⟩
              rw [← Except.ok.inj (h.symm.trans ha)] at hall
              exact absurd hall ((any_or_all anchor).1 (.inr hlast))
            · rw [if_neg hlast]
              have hanchorIs : AnchorIs I C B ledger disk records (previous.getD []) :=
                ⟨anchor, h, not_not.1 fun hnot => ((any_or_all anchor).2 hnot).elim hseq hlast⟩
              rcases verifyRemote_cases I C B collector disk records previous with
                ⟨hremote, fault, h'⟩ | ⟨hremote, h'⟩
              · rw [h']
                refine .inl ⟨⟨hreads, fun _ _ => hanchor, fun _ _ _ => hremote⟩, ?_⟩
                rcases fault with _ | fault <;> exact ⟨_, rfl⟩
              · rw [h']
                exact .inr ⟨fun hread => hremote (hread.remote his rfl hanchorIs), _, rfl, by decide⟩
        · -- the anchor is refused, so the remote checkpoint is not looked at
          rw [h]
          refine .inl ⟨⟨hreads, fun _ _ => hanchor, fun _ _ ⟨a, ha, _⟩ => ?_⟩, _, rfl⟩
          rw [h] at ha
          cases ha
        · rw [h]
          refine .inl ⟨⟨hreads, fun _ _ => hanchor, fun _ _ ⟨a, ha, _⟩ => ?_⟩, _, rfl⟩
          rw [h] at ha
          cases ha
        · rw [h]
          exact .inr ⟨fun hread => hanchor (hread.anchor his rfl), _, rfl, hcls⟩

/-! ## Verifications -/

/-- What a verification needs of the files. Every line that it comes to is harmless. Where all lines are records
that follow one another, there is no byte that is wrong, and the files beside the ledger are read. Without a ledger
the head is read, and the remote checkpoint where the head is blank. -/
def Readable (I : Interpreter F) (C : Crypto) (B : Builtins F) (ledger : LedgerOptions) (collector : Collector)
    (disk : Disk) (verifyHead verifyAnchor : Bool) : Prop :=
  match disk.ledger with
  | none => HeadReads disk verifyHead ∧ (HeadIs disk verifyHead [] → RemoteReads I B collector disk)
  | some file => file.length ≤ ledger.maxLedgerBytes →
    (∀ pre raw post, I.lines file = pre ++ raw :: post → ∀ last n, Chain I C none 0 pre last n →
      Harmless I C last raw) ∧
    ∀ last n, Chain I C none 0 (I.lines file) last n → decodeUtf8 file ≠ none ∧
      CheckpointsRead I C B ledger collector disk verifyHead verifyAnchor last n

theorem calculateHash_error {text : Str} {payload : Fields F} {e : Exc}
    (h : I.calculateHash C text payload = .error e) : e.cls ≠ .auditIntegrityError := by
  unfold Interpreter.calculateHash raiseIf calculateHash at h
  split_ifs at h
  · cases h
    decide
  · dsimp only [bind, Except.bind] at h
    split at h
    · cases h
    · split at h
      · cases h
      · cases h
        decide

theorem checkLine_error {previous : Option Str} {raw : Str} {e : Exc} (h : I.checkLine C previous raw = .error e) :
    e.cls ≠ .auditIntegrityError := by
  rcases checkLine_cases I C previous raw with ⟨-, h'⟩ | ⟨-, ⟨_, -, _, h'⟩ | ⟨_, -, -, h'⟩ | ⟨record, -,
    ⟨_, -, h'⟩ | ⟨_, -, -, ⟨e', hhash, h'⟩ | ⟨_, -, ⟨-, _, h'⟩ | ⟨-, h'⟩⟩⟩⟩⟩
  case inr.inr.inl =>
    rw [h'] at h
    cases h
    decide
  case inr.inr.inr.inr.inl =>
    rw [h'] at h
    cases h
    exact calculateHash_error hhash
  all_goals
    rw [h'] at h
    cases h

theorem scan_error {previous : Option Str} {records index : ℕ} {lines : List Str} {e : Exc}
    (h : I.scan C previous records index lines = .error e) : e.cls ≠ .auditIntegrityError := by
  induction lines generalizing previous records index with
  | nil => cases h
  | cons raw rest ih =>
    rw [Interpreter.scan] at h
    rcases hline : I.checkLine C previous raw with e' | _ | _ | hash
    · rw [hline] at h
      cases h
      exact checkLine_error hline
    · rw [hline] at h
      exact ih h
    · rw [hline] at h
      cases h
    · rw [hline] at h
      exact ih h

/-- A verification returns exactly where the files can be read, and it never raises an `AuditIntegrityError`. -/
theorem verifyUnlocked_cases (I : Interpreter F) (C : Crypto) (B : Builtins F) (ledger : LedgerOptions)
    (collector : Collector) (disk : Disk) (verifyHead verifyAnchor : Bool) :
    Readable I C B ledger collector disk verifyHead verifyAnchor ∧
      (∃ v, I.verifyUnlocked C B ledger collector disk verifyHead verifyAnchor = .ok v) ∨
    ¬Readable I C B ledger collector disk verifyHead verifyAnchor ∧
      ∃ e, I.verifyUnlocked C B ledger collector disk verifyHead verifyAnchor = .error e ∧
        e.cls ≠ .auditIntegrityError := by
  unfold Readable Interpreter.verifyUnlocked
  rcases disk.ledger with _ | file
  · dsimp only
    rcases headText_cases disk verifyHead with ⟨hreads, checkpoint, hhead⟩ | ⟨hreads, hhead⟩
    case inr =>
      rw [hhead]
      exact .inr ⟨fun h => hreads h.1, _, rfl, by decide⟩
    case inl =>
      rw [hhead]
      simp only [bind, Except.bind]
      by_cases hblank : checkpoint.any (· ≠ []) = true
      · rw [if_pos hblank]
        refine .inl ⟨⟨hreads, fun h => ?_⟩, _, rfl⟩
        rw [(headIs_iff hhead _).1 h] at hblank
        cases hblank
      · rw [if_neg hblank]
        have his : HeadIs disk verifyHead [] := (headIs_iff hhead _).2 (by simpa using hblank)
        rcases verifyRemote_cases I C B collector disk 0 none with ⟨hremote, fault, h⟩ | ⟨hremote, h⟩
        · rw [h]
          refine .inl ⟨⟨hreads, fun _ => hremote⟩, ?_⟩
          rcases fault with _ | fault <;> exact ⟨_, rfl⟩
        · rw [h]
          exact .inr ⟨fun hread => hremote (hread.2 his), _, rfl, by decide⟩
  · dsimp only
    by_cases hbudget : file.length > ledger.maxLedgerBytes
    · rw [if_pos hbudget]
      exact .inl ⟨fun h => absurd h (not_le.2 hbudget), _, rfl⟩
    · rw [if_neg hbudget, imp_iff_right (not_lt.1 hbudget)]
      rcases hscan : I.scan C none 0 0 (I.lines file) with e | early | ⟨previous, records⟩
      · refine .inr ⟨fun h => ?_, e, rfl, scan_error hscan⟩
        obtain ⟨result, h⟩ := exists_scan_iff.2 h.1
        rw [hscan] at h
        cases h
      · -- the loop returns early, so the lines are no chain
        refine .inl ⟨⟨exists_scan_iff.1 ⟨_, hscan⟩, fun last n hchain => ?_⟩, _, rfl⟩
        rw [scan_eq_inr.2 hchain] at hscan
        cases hscan
      · have hchain := scan_eq_inr.1 hscan
        have hunique : ∀ last n, Chain I C none 0 (I.lines file) last n → last = previous ∧ n = records := by
          intro last n h
          rw [scan_eq_inr.2 h] at hscan
          cases hscan
          exact ⟨rfl, rfl⟩
        simp only [bind, Except.bind]
        by_cases hdecode : decodeUtf8 file = none
        · refine .inr ⟨fun h => (h.2 _ _ hchain).1 hdecode, .builtin .unicodeError, ?_, by decide⟩
          rw [raiseIf, if_pos hdecode]
        · rw [raiseIf, if_neg hdecode]
          rcases verifyCheckpoints_cases I C B ledger collector disk verifyHead verifyAnchor previous records with
            ⟨hread, v, h⟩ | ⟨hread, e, h, hcls⟩
          · refine .inl ⟨⟨exists_scan_iff.1 ⟨_, hscan⟩, fun last n hchain => ?_⟩, v, h⟩
            obtain ⟨rfl, rfl⟩ := hunique last n hchain
            exact ⟨hdecode, hread⟩
          · exact .inr ⟨fun hall => hread (hall.2 _ _ hchain).2, e, h, hcls⟩

theorem refusal_cls (fault : Option Fault) : (Setting.refusal fault).cls = .auditIntegrityError := by
  rcases fault with _ | ⟨text, _ | cause⟩ <;> rfl

/-- A verification returns exactly where the files can be read. Where it does not return a valid ledger, an append
raises and leaves the files as they are, and what it raises is an `AuditIntegrityError` exactly where the files can
be read. -/
theorem fail_closed_iff (I : Interpreter F) (C : Crypto) (B : Builtins F) (ledger : LedgerOptions)
    (collector : Collector) (disk : Disk) :
    (∀ verifyHead verifyAnchor,
      (∃ v, I.verifyUnlocked C B ledger collector disk verifyHead verifyAnchor = .ok v) ↔
        Readable I C B ledger collector disk verifyHead verifyAnchor) ∧
    ∀ write, (¬∃ v, I.verifyUnlocked C B ledger collector disk true true = .ok v ∧ v.valid = true) →
      ∃ e, I.appendPayload C B ledger collector write disk = (.error e, disk) ∧
        (e.cls = .auditIntegrityError ↔ Readable I C B ledger collector disk true true) := by
  constructor
  · intro verifyHead verifyAnchor
    rcases verifyUnlocked_cases I C B ledger collector disk verifyHead verifyAnchor with
      ⟨hread, h⟩ | ⟨hread, e, h, -⟩
    · exact iff_of_true h hread
    · refine iff_of_false ?_ hread
      rintro ⟨v, h'⟩
      rw [h] at h'
      cases h'
  · intro write hinvalid
    unfold Interpreter.appendPayload
    rw [Action.read_bind_apply, Action.bind_apply, Action.lift_apply]
    rcases verifyUnlocked_cases I C B ledger collector disk true true with ⟨hread, v, h⟩ | ⟨hread, e, h, hcls⟩
    · -- a verification that is returned is the one that the append refuses
      have hvalid : v.valid = false := by
        rw [← Bool.not_eq_true]
        exact fun hvalid => hinvalid ⟨v, h, hvalid⟩
      refine ⟨Setting.refusal v.error, ?_, iff_of_true (refusal_cls _) hread⟩
      rw [h]
      dsimp only
      rw [hvalid]
      rfl
    · refine ⟨e, ?_, iff_of_false hcls hread⟩
      rw [h]

/-- A checkpoint of no records whose MAC is a letter with an accent. -/
def accented : Bytes := encodeUtf8 "\x7b\"sequence\":0,\"head_hash\":\"\",\"mac\":\"é\"\x7d".toList

/-- A checkpoint of no records whose head is the escape of a lone surrogate. -/
def halved : Str := "\x7b\"sequence\":0,\"head_hash\":\"\\ud800\",\"mac\":\"m\"\x7d".toList

/-- Stack for everything, where the only text with a lone surrogate is that of the checkpoint. -/
def halvedInterpreter : Interpreter Literal :=
  { Interpreter.unbounded Literal with
    lone := fun text => if text = halved then some (.obj [("sequence".toList, .int 0),
      ("head_hash".toList, .str [Char.ofNat 0xfffd]), ("mac".toList, .str "m".toList)]) else none
    encodes := fun file => file ≠ encodeUtf8 halved }

/-- A line that is no object, a byte that is no UTF-8 in the ledger and in the head, a MAC with a letter that is
no ASCII, and a lone surrogate in the head of the anchor: none of these is called invalid. -/
theorem unreadable_raises :
    (Interpreter.unbounded Literal).verifyUnlocked .standard plainBuiltins ⟨4096, none⟩ .off
      ⟨some (encodeUtf8 "[]\n".toList), none, none, none⟩ true true = .error (.builtin .attributeError) ∧
    (Interpreter.unbounded Literal).verifyUnlocked .standard plainBuiltins ⟨4096, none⟩ .off
      ⟨some [0xff], none, none, none⟩ true true = .error (.builtin .unicodeError) ∧
    (Interpreter.unbounded Literal).verifyUnlocked .standard plainBuiltins ⟨4096, none⟩ .off
      ⟨none, some [0xff], none, none⟩ true true = .error (.builtin .unicodeError) ∧
    (Interpreter.unbounded Literal).verifyUnlocked .standard plainBuiltins ⟨4096, some (some [1])⟩ .off
      ⟨some [], none, some accented, none⟩ true true =
        .error (.builtin .typeError) ∧
    (Interpreter.unbounded Literal).verifyUnlocked .standard plainBuiltins ⟨4096, none⟩ (.url [1] (by decide))
      ⟨none, none, none, some accented⟩ true true =
        .error (.builtin .typeError) ∧
    halvedInterpreter.verifyUnlocked .standard plainBuiltins ⟨4096, some (some [1])⟩ .off
      ⟨some [], none, some (encodeUtf8 halved), none⟩ true true = .error (.builtin .unicodeError) := by
  refine ⟨?_, ?_, ?_, ?_, ?_, ?_⟩ <;> decide +kernel

end Bulldog.Audit
