import Bulldog.Audit.Ledger

/-!
# What a valid ledger is

`_verify_unlocked` has many exits. What it says of a ledger that it calls valid is that the file
parses to a list of records, that these are linked by their hashes, and that the checkpoints beside
the file agree with their number and with the last hash; or that there is no file, and no head to
contradict that.
-/

namespace Bulldog.Audit

open Anchor

variable {F : Type} [PyFloat F] {C : Crypto} {B : Builtins F}

/-! ## The records -/

/-- The JSON values of the lines that are not blank. -/
def recordsOf (F : Type) [PyFloat F] (lines : List Str) : Option (List (Json F)) :=
  (lines.filter fun raw => Str.strip raw ≠ []).mapM fun raw => loads (Str.strip raw)

/-- The JSON values of a ledger file. -/
def parseLedger (F : Type) [PyFloat F] (file : Bytes) : Option (List (Json F)) :=
  (decodeUtf8 file).bind fun text => recordsOf F (Str.lines text)

/-- A value is a record with this hash, after a record with hash `previous`. -/
def IsLink (C : Crypto) (previous : Option Str) (record : Json F) (hash : Str) : Prop :=
  ∃ fields, record = .obj fields ∧ (Fields.get fields "record_hash").bind strOf = some hash ∧
    previousHash ((Fields.get fields "previous_hash").getD .null) = some previous ∧
    calculateHash C fields = .ok hash

/-- The records are linked from the hash `previous` to the hash `last`. -/
def Linked (C : Crypto) (previous : Option Str) : List (Json F) → Option Str → Prop
  | [], last => last = previous
  | record :: records, last =>
    ∃ hash, IsLink C previous record hash ∧ Linked C (some hash) records last

theorem Linked.isObj {previous last : Option Str} {values : List (Json F)}
    (h : Linked C previous values last) : ∀ v ∈ values, ∃ fields, v = .obj fields := by
  induction values generalizing previous with
  | nil => simp
  | cons value values ih =>
    obtain ⟨hash, ⟨fields, hfields, -⟩, hrest⟩ := h
    rintro v hv
    rcases List.mem_cons.1 hv with rfl | hv
    · exact ⟨fields, hfields⟩
    · exact ih hrest v hv

/-- Links end in a link more. -/
theorem linked_concat {previous last : Option Str} {values : List (Json F)} {value : Json F} :
    Linked C previous (values ++ [value]) last ↔
      ∃ middle hash, Linked C previous values middle ∧ IsLink C middle value hash ∧
        last = some hash := by
  induction values generalizing previous with
  | nil =>
    constructor
    · rintro ⟨hash, hlink, hlast⟩
      exact ⟨previous, hash, rfl, hlink, hlast⟩
    · rintro ⟨_, hash, rfl, hlink, hlast⟩
      exact ⟨hash, hlink, hlast⟩
  | cons first values ih =>
    constructor
    · rintro ⟨h₁, hfirst, hrest⟩
      obtain ⟨middle, hash, hlinked, hlink, hlast⟩ := ih.1 hrest
      exact ⟨middle, hash, ⟨h₁, hfirst, hlinked⟩, hlink, hlast⟩
    · rintro ⟨middle, hash, ⟨h₁, hfirst, hlinked⟩, hlink, hlast⟩
      exact ⟨h₁, hfirst, ih.2 ⟨middle, hash, hlinked, hlink, hlast⟩⟩

theorem recordsOf_blank {raw : Str} (h : Str.strip raw = []) (lines : List Str) :
    recordsOf F (raw :: lines) = recordsOf F lines := by
  rw [recordsOf, List.filter_cons_of_neg (by simpa using h), recordsOf]

theorem recordsOf_cons {raw : Str} (h : Str.strip raw ≠ []) (lines : List Str) :
    recordsOf F (raw :: lines) =
      (loads (Str.strip raw)).bind fun v => (recordsOf F lines).map (v :: ·) := by
  rw [recordsOf, List.filter_cons_of_pos (by simpa using h), List.mapM_cons, recordsOf]
  rcases loads (F := F) (Str.strip raw) with _ | v
  · rfl
  · rcases (lines.filter fun raw => Str.strip raw ≠ []).mapM
      fun raw => loads (F := F) (Str.strip raw) with _ | vs <;> rfl

/-- The loop of `_verify_unlocked` gets through the lines that parse to linked records. -/
theorem verifyLines_eq_inr {previous last : Option Str} {records index n : ℕ} {lines : List Str} :
    verifyLines C F previous records index lines = .ok (.inr (last, n)) ↔
      ∃ values, recordsOf F lines = some values ∧ Linked C previous values last ∧
        n = records + values.length := by
  induction lines generalizing previous records index with
  | nil =>
    constructor
    · intro h
      obtain ⟨rfl, rfl⟩ := Prod.mk.inj (Sum.inr.inj (Except.ok.inj h))
      exact ⟨[], rfl, rfl, rfl⟩
    · rintro ⟨values, hvalues, hlinked, rfl⟩
      obtain rfl : [] = values := Option.some.inj hvalues
      obtain rfl : last = previous := hlinked
      rfl
  | cons raw lines ih =>
    rw [verifyLines]
    by_cases hblank : Str.strip raw = []
    · rw [if_pos hblank, recordsOf_blank hblank, ih]
    · rw [if_neg hblank, recordsOf_cons hblank]
      constructor
      · intro h
        split at h
        · cases h
        · next record hload =>
          split at h
          · cases h
          · next stored hstored =>
            split_ifs at h with hprevious
            · cases h
            · obtain ⟨hash, hhash, hrest⟩ := bind_eq_ok.1 h
              split_ifs at hrest with hsame
              · cases hrest
              · rw [not_not] at hprevious hsame
                subst hsame
                obtain ⟨values, hvalues, hlinked, rfl⟩ := ih.1 hrest
                refine ⟨.obj record :: values, by simp [hload, hvalues],
                  ⟨hash, ⟨record, rfl, hstored, hprevious, hhash⟩, hlinked⟩, ?_⟩
                rw [List.length_cons]
                omega
        · cases h
      · rintro ⟨values, hvalues, hlinked, rfl⟩
        obtain ⟨value, hload, hmap⟩ := Option.bind_eq_some_iff.1 hvalues
        obtain ⟨rest, hrest, rfl⟩ := Option.map_eq_some_iff.1 hmap
        obtain ⟨hash, ⟨record, rfl, hstored, hprevious, hhash⟩, hlinked⟩ := hlinked
        simp only [hload, hstored, hprevious, hhash, ne_eq, not_true_eq_false, if_false, bind,
          Except.bind]
        refine ih.2 ⟨rest, hrest, hlinked, ?_⟩
        rw [List.length_cons]
        omega

/-- What the loop returns early is not valid. -/
theorem verifyLines_early {previous : Option Str} {records index : ℕ} {lines : List Str}
    {v : AuditVerification} (h : verifyLines C F previous records index lines = .ok (.inl v)) :
    v.valid = false := by
  induction lines generalizing previous records index with
  | nil => cases h
  | cons raw lines ih =>
    rw [verifyLines] at h
    split_ifs at h with hblank
    · exact ih h
    · split at h
      · cases h
        rfl
      · split at h
        · cases h
          rfl
        · split_ifs at h with hprevious
          · cases h
            rfl
          · obtain ⟨hash, -, hrest⟩ := bind_eq_ok.1 h
            split_ifs at hrest with hsame
            · cases hrest
              rfl
            · exact ih hrest
      · cases h

/-! ## The checkpoints -/

variable {ledger : LedgerOptions} {remote : RemoteCheck} {disk : Disk}
  {verifyHead verifyAnchor : Bool}

/-- The head file, where it is to be verified and there is one, holds this text. -/
def HeadIs (disk : Disk) (verifyHead : Bool) (text : Str) : Prop :=
  ∃ checkpoint, disk.headText verifyHead = .ok checkpoint ∧ ∀ t ∈ checkpoint, t = text

/-- The checkpoints beside a ledger file agree with it. -/
structure Checked (C : Crypto) (B : Builtins F) (ledger : LedgerOptions) (remote : RemoteCheck)
    (disk : Disk) (verifyHead verifyAnchor : Bool) (previous : Option Str) (records : ℕ) : Prop where
  head : HeadIs disk verifyHead (previous.getD [])
  anchor : verifyAnchor = true → ∃ anchor, ledger.readAnchor C B disk = .ok anchor ∧
    ∀ a ∈ anchor, a.1 = (records : ℤ) ∧ a.2 = previous.getD []
  remote : verifyAnchor = true → remote records previous = none

theorem any_ne_iff {α : Type} [DecidableEq α] {o : Option α} {a : α} :
    (o.any (· ≠ a)) = false ↔ ∀ x ∈ o, x = a := by
  rcases o with _ | x <;> simp

theorem verifyCheckpoints_valid {previous : Option Str} {records : ℕ} {v : AuditVerification} :
    (ledger.verifyCheckpoints C B remote disk verifyHead verifyAnchor previous records = .ok v ∧
        v.valid = true) ↔
      v = ⟨true, records, none, none, previous⟩ ∧
        Checked C B ledger remote disk verifyHead verifyAnchor previous records := by
  constructor
  · rintro ⟨h, hv⟩
    unfold LedgerOptions.verifyCheckpoints at h
    obtain ⟨checkpoint, hcheckpoint, hrest⟩ := bind_eq_ok.1 h
    split_ifs at hrest with hhead hanchor
    · cases hrest
      cases hv
    · rw [Bool.not_eq_true, any_ne_iff] at hhead
      simp only [Bool.not_eq_true'] at hanchor
      subst hanchor
      exact ⟨(Except.ok.inj hrest).symm, ⟨checkpoint, hcheckpoint, hhead⟩, nofun, nofun⟩
    · rw [Bool.not_eq_true, any_ne_iff] at hhead
      split at hrest
      · cases hrest
        cases hv
      · cases hrest
        cases hv
      · cases hrest
      · next anchor hread =>
        split_ifs at hrest with hsequence hlast
        · cases hrest
          cases hv
        · cases hrest
          cases hv
        · split at hrest
          · cases hrest
            cases hv
          · next hremote =>
            refine ⟨(Except.ok.inj hrest).symm, ⟨checkpoint, hcheckpoint, hhead⟩, fun _ => ?_,
              fun _ => hremote⟩
            refine ⟨anchor, hread, fun a ha => ?_⟩
            obtain rfl : anchor = some a := ha
            simp only [Option.any_some, decide_eq_true_eq, not_not] at hsequence hlast
            exact ⟨hsequence, hlast⟩
  · rintro ⟨rfl, ⟨checkpoint, hcheckpoint, hhead⟩, hanchor, hremote⟩
    refine ⟨?_, rfl⟩
    unfold LedgerOptions.verifyCheckpoints
    simp only [hcheckpoint, any_ne_iff.2 hhead, bind, Except.bind]
    rcases verifyAnchor with _ | _
    · rfl
    · obtain ⟨anchor, hread, hagree⟩ := hanchor rfl
      have hsequence : anchor.any (·.1 ≠ (records : ℤ)) = false := by
        rcases anchor with _ | a
        · rfl
        · simpa using (hagree a rfl).1
      have hlast : anchor.any (·.2 ≠ previous.getD []) = false := by
        rcases anchor with _ | a
        · rfl
        · simpa using (hagree a rfl).2
      simp only [hread, hsequence, hlast, hremote rfl]
      rfl

/-- A ledger that is called valid has no file and no head, or a file of linked records and
checkpoints that agree with it. -/
theorem verifyWith_valid {v : AuditVerification} :
    (ledger.verifyWith C B remote disk verifyHead verifyAnchor = .ok v ∧ v.valid = true) ↔
      (disk.ledger = none ∧ HeadIs disk verifyHead [] ∧ remote 0 none = none ∧
          v = ⟨true, 0, none, none, none⟩) ∨
        ∃ file values last, disk.ledger = some file ∧ file.length ≤ ledger.maxLedgerBytes ∧
          parseLedger F file = some values ∧ Linked C none values last ∧
          Checked C B ledger remote disk verifyHead verifyAnchor last values.length ∧
          v = ⟨true, values.length, none, none, last⟩ := by
  rcases hledger : disk.ledger with _ | file
  · constructor
    · rintro ⟨h, hv⟩
      unfold LedgerOptions.verifyWith at h
      rw [hledger] at h
      obtain ⟨checkpoint, hcheckpoint, hrest⟩ := bind_eq_ok.1 h
      split_ifs at hrest with hhead
      · cases hrest
        cases hv
      · split at hrest
        · cases hrest
          cases hv
        · next hremote =>
          rw [Bool.not_eq_true, any_ne_iff] at hhead
          exact .inl ⟨rfl, ⟨checkpoint, hcheckpoint, hhead⟩, hremote, (Except.ok.inj hrest).symm⟩
    · rintro (⟨-, ⟨checkpoint, hcheckpoint, hhead⟩, hremote, rfl⟩ | ⟨_, _, _, hsome, _⟩)
      · refine ⟨?_, rfl⟩
        unfold LedgerOptions.verifyWith
        rw [hledger]
        simp only [hcheckpoint, any_ne_iff.2 hhead, bind, Except.bind, hremote]
        rfl
      · cases hsome
  · constructor
    · rintro ⟨h, hv⟩
      unfold LedgerOptions.verifyWith at h
      rw [hledger] at h
      dsimp only at h
      split_ifs at h with hsize
      · cases h
        cases hv
      · obtain ⟨text, htext, hlines⟩ := bind_eq_ok.1 h
        obtain ⟨result, hresult, hrest⟩ := bind_eq_ok.1 hlines
        rcases result with early | ⟨last, n⟩
        · obtain rfl : early = v := Except.ok.inj hrest
          rw [verifyLines_early hresult] at hv
          cases hv
        · obtain ⟨values, hvalues, hlinked, rfl⟩ := verifyLines_eq_inr.1 hresult
          rw [Nat.zero_add] at hrest
          obtain ⟨rfl, hchecked⟩ := verifyCheckpoints_valid.1 ⟨hrest, hv⟩
          refine .inr ⟨file, values, last, rfl, not_lt.1 hsize, ?_, hlinked, hchecked, rfl⟩
          rw [parseLedger, orRaise_eq_ok.1 htext, Option.bind_some, hvalues]
    · rintro (⟨hnone, -⟩ | ⟨file', values, last, hfile, hsize, hparse, hlinked, hchecked, rfl⟩)
      · cases hnone
      · obtain rfl := Option.some.inj hfile
        obtain ⟨text, htext, hvalues⟩ := Option.bind_eq_some_iff.1 hparse
        refine ⟨?_, rfl⟩
        have hlines : verifyLines C F none 0 0 (Str.lines text) =
            .ok (.inr (last, values.length)) :=
          verifyLines_eq_inr.2 ⟨values, hvalues, hlinked, (Nat.zero_add _).symm⟩
        unfold LedgerOptions.verifyWith
        rw [hledger]
        simp only [if_neg (not_lt.2 hsize), htext, orRaise, hlines, bind, Except.bind]
        exact (verifyCheckpoints_valid.2 ⟨rfl, hchecked⟩).1

end Bulldog.Audit
