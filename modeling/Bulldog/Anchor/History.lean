import Mathlib
import Bulldog.Anchor.Store

/-!
# The history that the anchor store keeps

A session's rows are the submissions that the store took, each the checkpoint after the one before
it. Every call keeps that, whatever the message, and so it holds of every database that messages
can lead to.
-/

namespace Bulldog.Anchor

variable {F : Type} [PyFloat F]

/-- A message given to the store, and the size of the database at that call. -/
structure Delivery (F : Type) where
  message : Fields F
  pageBytes : ℕ

/-- The rows after a sequence of messages, from an empty database. -/
def AnchorStore.rowsAfter (C : Crypto) (store : AnchorStore) (ds : List (Delivery F)) : List Row :=
  ds.foldl (fun rows d => (store.accept C d.message d.pageBytes rows).2) []

theorem AnchorStore.rowsAfter_concat (C : Crypto) (store : AnchorStore) (ds : List (Delivery F))
    (d : Delivery F) : store.rowsAfter C (ds ++ [d]) =
      (store.accept C d.message d.pageBytes (store.rowsAfter C ds)).2 := by
  simp [rowsAfter]

/-! ## Chains of submissions -/

/-- `b` is the checkpoint after `a`. -/
def Submission.Follows (a b : Submission) : Prop :=
  b.sequence = a.sequence + 1 ∧ b.previous = some (some a.head)

/-- The submissions of one session, from its first checkpoint on. -/
structure History (subs : List Submission) : Prop where
  first : ∀ sub ∈ subs.head?, sub.sequence = 1 ∧ sub.previous = some none
  chain : subs.IsChain Submission.Follows

theorem History.nil : History [] := ⟨by simp, .nil⟩

/-- A history grows by the checkpoint after its last one. -/
theorem history_concat {subs : List Submission} {sub : Submission} :
    History (subs ++ [sub]) ↔ History subs ∧ sub.Next (subs.getLast?.map Submission.row) := by
  rcases List.eq_nil_or_concat subs with rfl | ⟨subs, last, rfl⟩
  · constructor
    · exact fun h => ⟨.nil, h.first sub rfl⟩
    · exact fun h => ⟨by rintro _ ⟨⟩; exact h.2, .singleton _⟩
  · rw [List.concat_eq_append, List.getLast?_concat]
    constructor
    · intro h
      refine ⟨⟨fun x hx => h.first x ?_, (List.isChain_append.1 h.chain).1⟩,
        (List.isChain_append.1 h.chain).2.2 last (by simp) sub (by simp)⟩
      rw [List.head?_append, hx]
      rfl
    · rintro ⟨h, hnext⟩
      refine ⟨fun x hx => h.first x ?_, List.isChain_append.2 ⟨h.chain, .singleton _, ?_⟩⟩
      · rw [List.head?_append] at hx
        rcases hh : (subs ++ [last]).head? with _ | y
        · simp at hh
        · rwa [hh, Option.some_or] at hx
      · simp only [List.getLast?_concat, Option.mem_some_iff, List.head?_cons]
        rintro _ rfl _ rfl
        exact hnext

/-- A shorter history. -/
theorem History.take {subs : List Submission} (h : History subs) (k : ℕ) : History (subs.take k) := by
  refine ⟨fun sub hsub => h.first sub ?_, h.chain.take k⟩
  cases subs with
  | nil => simp at hsub
  | cons x subs =>
    cases k with
    | zero => simp at hsub
    | succ k => simpa using hsub

/-- The sequences of a history are 1, 2, 3 and so on. -/
theorem History.sequences {subs : List Submission} (h : History subs) :
    subs.map Submission.sequence = List.range' 1 subs.length := by
  induction subs using List.reverseRecOn with
  | nil => rfl
  | append_singleton subs sub ih =>
    obtain ⟨hs, hnext⟩ := history_concat.1 h
    have hseq : sub.sequence = 1 + subs.length := by
      rcases List.eq_nil_or_concat subs with rfl | ⟨init, last, rfl⟩
      · exact hnext.1
      · have hlast := congrArg List.getLast? (ih hs)
        rw [List.concat_eq_append] at hnext hlast ⊢
        simp only [List.map_append, List.map_cons, List.map_nil, List.getLast?_concat,
          List.length_append, List.length_singleton, List.range'_concat, Option.some.injEq] at hlast
        have hn := hnext.1
        simp only [List.getLast?_concat, Option.map_some, Submission.row] at hn
        simp only [List.length_append, List.length_singleton]
        omega
    rw [List.map_append, ih hs, List.length_append, List.length_singleton, List.range'_concat]
    simp [hseq]

theorem History.sequence_at {subs : List Submission} (h : History subs) {i : ℕ} {sub : Submission}
    (hsub : subs[i]? = some sub) : sub.sequence = i + 1 := by
  have hi := congrArg (·[i]?) h.sequences
  have hlt := (List.getElem?_eq_some_iff.1 hsub).1
  simp only [List.getElem?_map, hsub, Option.map_some, List.getElem?_range' hlt,
    Option.some.injEq] at hi
  omega

/-- The latest row of a history is its last. -/
theorem History.argmax {subs : List Submission} (h : History subs) :
    (subs.map Submission.row).argmax Row.sequence = subs.getLast?.map Submission.row := by
  induction subs using List.reverseRecOn with
  | nil => rfl
  | append_singleton subs sub ih =>
    obtain ⟨hs, hnext⟩ := history_concat.1 h
    rw [List.map_append, List.map_singleton, List.argmax_concat, ih hs, List.getLast?_concat]
    rcases hl : subs.getLast? with _ | last
    · rfl
    · have hlt : last.row.sequence < sub.row.sequence := by
        have hn := hnext.1
        rw [hl] at hn
        change sub.sequence = last.sequence + 1 at hn
        change last.sequence < sub.sequence
        omega
      simp [hlt]

/-! ## The rows are submissions of the run -/

/-- The rows are those of submissions that the messages made, each session's a history. -/
def Traced (C : Crypto) (store : AnchorStore) (ds : List (Delivery F)) (rows : List Row) : Prop :=
  ∃ subs : List Submission, rows = subs.map Submission.row ∧
    (∀ sub ∈ subs, ∃ d ∈ ds, store.examine C d.message = .ok sub) ∧
    ∀ s, History (subs.filter (·.session = s))

theorem sessionRows_map (subs : List Submission) (s : Str) :
    sessionRows (subs.map Submission.row) s =
      (subs.filter (·.session = s)).map Submission.row := by
  rw [sessionRows, List.filter_map]
  rfl

theorem latest_map {subs : List Submission} {s : Str} (h : History (subs.filter (·.session = s))) :
    latest (subs.map Submission.row) s =
      (subs.filter (·.session = s)).getLast?.map Submission.row := by
  rw [latest, sessionRows_map, h.argmax]

/-- A call adds at most the submission of its message. -/
theorem AnchorStore.accept_rows (C : Crypto) (store : AnchorStore) (message : Fields F)
    (pageBytes : ℕ) (rows : List Row) :
    (store.accept C message pageBytes rows).2 = rows ∨ ∃ sub,
      store.examine C message = .ok sub ∧ sub.Next (latest rows sub.session) ∧
        (store.accept C message pageBytes rows).2 = rows ++ [sub.row] := by
  rcases hex : store.examine C message with e | sub
  · exact .inl (by rw [accept_error hex])
  · rcases accept_cases hex pageBytes rows with ⟨-, h⟩ | ⟨-, hn, -, h⟩ | ⟨-, -, e, h⟩
    · exact .inl (by rw [h])
    · exact .inr ⟨sub, rfl, hn, by rw [h]⟩
    · exact .inl (by rw [h])

/-- A refused call changes nothing. -/
theorem AnchorStore.accept_error_rows (C : Crypto) (store : AnchorStore) (message : Fields F)
    (pageBytes : ℕ) (rows : List Row) (e : Exc)
    (h : (store.accept C message pageBytes rows).1 = .error e) :
    (store.accept C message pageBytes rows).2 = rows := by
  rcases hex : store.examine C message with e' | sub
  · rw [accept_error hex]
  · obtain ⟨v, -, hv⟩ := Option.bind_eq_some_iff.1 (examine_eq_ok.1 hex).sequence
    have hmac := acknowledge_ok (F := F) C sub.session sub.head sub.key (sequenceOf_lt hv)
    rcases accept_cases hex pageBytes rows with ⟨-, hc⟩ | ⟨-, -, -, hc⟩ | ⟨-, -, e', hc⟩
    · rw [hc]
    · rw [hc, hmac] at h
      cases h
    · rw [hc]

/-- Every call keeps the invariant. -/
theorem Traced.accept {C : Crypto} {store : AnchorStore} {ds : List (Delivery F)} {rows : List Row}
    (h : Traced C store ds rows) (d : Delivery F) :
    Traced C store (ds ++ [d]) (store.accept C d.message d.pageBytes rows).2 := by
  obtain ⟨subs, rfl, hfrom, hhist⟩ := h
  have hfrom' : ∀ sub ∈ subs, ∃ d' ∈ ds ++ [d], store.examine C d'.message = .ok sub := fun sub hs =>
    let ⟨d', hd', h'⟩ := hfrom sub hs
    ⟨d', List.mem_append_left _ hd', h'⟩
  rcases store.accept_rows C d.message d.pageBytes (subs.map Submission.row) with
    hrows | ⟨sub, hex, hnext, hrows⟩
  · exact ⟨subs, hrows, hfrom', hhist⟩
  · refine ⟨subs ++ [sub], by rw [hrows, List.map_append, List.map_singleton], ?_, fun s => ?_⟩
    · intro x hx
      rcases List.mem_append.1 hx with hx | hx
      · exact hfrom' x hx
      · exact ⟨d, by simp, List.mem_singleton.1 hx ▸ hex⟩
    · rw [List.filter_append]
      by_cases hs : sub.session = s
      · subst hs
        rw [List.filter_singleton, decide_eq_true rfl]
        rw [latest_map (hhist _)] at hnext
        exact history_concat.2 ⟨hhist _, hnext⟩
      · rw [List.filter_singleton, decide_eq_false hs]
        simpa using hhist s

/-- The invariant holds of every run. -/
theorem traced_rowsAfter (C : Crypto) (store : AnchorStore) (ds : List (Delivery F)) :
    Traced C store ds (store.rowsAfter C ds) := by
  induction ds using List.reverseRecOn with
  | nil => exact ⟨[], rfl, by simp, fun s => .nil⟩
  | append_singleton ds d ih =>
    rw [AnchorStore.rowsAfter_concat]
    exact ih.accept d

/-- Rows are only ever added, at the end. -/
theorem AnchorStore.rowsAfter_mono (C : Crypto) (store : AnchorStore)
    (ds later : List (Delivery F)) :
    store.rowsAfter C ds <+: store.rowsAfter C (ds ++ later) := by
  induction later using List.reverseRecOn with
  | nil => simp
  | append_singleton later d ih =>
    rw [← List.append_assoc, rowsAfter_concat]
    refine ih.trans ?_
    rcases store.accept_rows C d.message d.pageBytes (store.rowsAfter C (ds ++ later)) with
      h | ⟨sub, -, -, h⟩
    · simp only [h, List.prefix_rfl]
    · rw [h]
      exact List.prefix_append _ _

/-! ## Acknowledgements -/

/-- The outcome of a call is the acknowledgement of `(session, sequence, head)`. -/
def AnchorStore.Acknowledges (C : Crypto) (store : AnchorStore) (outcome : Except Exc (Fields F))
    (session : Str) (sequence : ℕ) (head : Str) : Prop :=
  ∃ key ack, sessionKey C store.master session = .ok key ∧
    acknowledge C session sequence head key = .ok ack ∧ outcome = .ok ack

theorem acknowledge_fields {C : Crypto} {session : Str} {sequence : ℕ} {head : Str} {key : Bytes}
    {ack : Fields F} (h : acknowledge C session sequence head key = .ok ack) :
    ∃ mac, ack = ackFields session sequence head ++ [("mac".toList, .str mac)] := by
  obtain ⟨mac, -, hmac⟩ := authenticate_eq_ok.1 h
  exact ⟨mac, hmac.symm⟩

/-- An acknowledgement says what it acknowledges. -/
theorem acknowledge_inj {C : Crypto} {s s' : Str} {q q' : ℕ} {h h' : Str} {key key' : Bytes}
    {ack : Fields F} (hack : acknowledge C s q h key = .ok ack)
    (hack' : acknowledge C s' q' h' key' = .ok ack) : s = s' ∧ q = q' ∧ h = h' := by
  obtain ⟨mac, rfl⟩ := acknowledge_fields hack
  obtain ⟨mac', heq⟩ := acknowledge_fields hack'
  simp only [ackFields, List.cons_append, List.cons.injEq, Prod.mk.injEq, Json.str.injEq,
    Json.int.injEq, true_and, Int.natCast_inj] at heq
  exact ⟨heq.1, heq.2.1, heq.2.2.1⟩

/-- The acknowledgement of a submission is one of its session, sequence and head, and of no
others. -/
theorem acknowledges_submission {C : Crypto} {store : AnchorStore} {message : Fields F}
    {sub : Submission} (hex : store.examine C message = .ok sub) {s : Str} {q : ℕ} {h : Str} :
    store.Acknowledges (F := F) C (acknowledge C sub.session sub.sequence sub.head sub.key) s q h ↔
      sub.session = s ∧ sub.sequence = q ∧ sub.head = h := by
  have hexamined := AnchorStore.examine_eq_ok.1 hex
  constructor
  · rintro ⟨key, ack, -, hack, hout⟩
    exact acknowledge_inj hout hack
  · rintro ⟨rfl, rfl, rfl⟩
    obtain ⟨v, -, hv⟩ := Option.bind_eq_some_iff.1 hexamined.sequence
    have hmac := acknowledge_ok (F := F) C sub.session sub.head sub.key (sequenceOf_lt hv)
    exact ⟨sub.key, _, hexamined.key, hmac, hmac⟩

theorem mem_of_latest {rows : List Row} {s : Str} {row : Row} (h : latest rows s = some row) :
    row ∈ rows ∧ row.session = s := by
  have hm := List.mem_filter.1 (List.argmax_mem h)
  exact ⟨hm.1, of_decide_eq_true hm.2⟩

/-- The checkpoint after the latest is the latest. -/
theorem latest_concat {rows : List Row} {sub : Submission}
    (hnext : sub.Next (latest rows sub.session)) :
    latest (rows ++ [sub.row]) sub.session = some sub.row := by
  have hrow : sessionRows (rows ++ [sub.row]) sub.session =
      sessionRows rows sub.session ++ [sub.row] := by
    simp [sessionRows, Submission.row]
  rw [latest, hrow, List.argmax_concat, ← latest]
  have hseq := hnext.1
  rcases hl : latest rows sub.session with _ | row
  · rfl
  · rw [hl] at hseq
    have hlt : row.sequence < sub.row.sequence := lt_of_lt_of_eq (Nat.lt_succ_self _) hseq.symm
    simp [hlt]

/-- A row with the canonical frame of a message is the row of that message's submission. -/
theorem Traced.of_frame {C : Crypto} {store : AnchorStore} {ds : List (Delivery F)}
    {rows : List Row} (h : Traced C store ds rows) {message : Fields F} {row : Row}
    (hrow : row ∈ rows) (hframe : canonical message = .ok row.frame) :
    ∃ sub, store.examine C message = .ok sub ∧ sub.row = row := by
  obtain ⟨subs, rfl, hfrom, -⟩ := h
  obtain ⟨sub, hsub, rfl⟩ := List.mem_map.1 hrow
  obtain ⟨d, -, hex⟩ := hfrom sub hsub
  have hcanonical := (AnchorStore.examine_eq_ok.1 hex).frame
  exact ⟨sub, (store.examine_congr C ((canonical_eq_iff hcanonical).1 hframe)).trans hex, rfl⟩

/-- A call acknowledges exactly what its message then is: the latest row of its session. -/
theorem Traced.acknowledges_iff {C : Crypto} {store : AnchorStore} {ds : List (Delivery F)}
    {rows : List Row} (h : Traced C store ds rows) (d : Delivery F) (s : Str) (q : ℕ) (hd : Str) :
    store.Acknowledges C (store.accept C d.message d.pageBytes rows).1 s q hd ↔
      ∃ frame, canonical d.message = .ok frame ∧
        latest (store.accept C d.message d.pageBytes rows).2 s = some ⟨s, q, hd, frame⟩ := by
  constructor
  · intro hack
    rcases hex : store.examine C d.message with e | sub
    · rw [AnchorStore.accept_error hex] at hack
      obtain ⟨_, _, -, -, ⟨⟩⟩ := hack
    have hframe := (AnchorStore.examine_eq_ok.1 hex).frame
    refine ⟨sub.frame, hframe, ?_⟩
    rcases AnchorStore.accept_cases hex d.pageBytes rows with
      ⟨⟨row, hrow, hseq, hfr⟩, hc⟩ | ⟨-, hnext, -, hc⟩ | ⟨-, -, e, hc⟩
    · rw [hc] at hack ⊢
      obtain ⟨rfl, rfl, rfl⟩ := (acknowledges_submission hex).1 hack
      obtain ⟨sub', hex', rfl⟩ := h.of_frame (mem_of_latest hrow).1 (hframe.trans (by rw [hfr]))
      cases hex.symm.trans hex'
      exact hrow
    · rw [hc] at hack ⊢
      obtain ⟨rfl, rfl, rfl⟩ := (acknowledges_submission hex).1 hack
      exact latest_concat hnext
    · rw [hc] at hack
      obtain ⟨_, _, -, -, ⟨⟩⟩ := hack
  · rintro ⟨frame, hframe, hlatest⟩
    obtain ⟨sub, hex, hsub⟩ := (h.accept d).of_frame (mem_of_latest hlatest).1 hframe
    simp only [Submission.row, Row.mk.injEq] at hsub
    obtain ⟨rfl, rfl, rfl, rfl⟩ := hsub
    have hown := (acknowledges_submission (s := sub.session) (q := sub.sequence) (h := sub.head)
      hex).2 ⟨rfl, rfl, rfl⟩
    rcases AnchorStore.accept_cases hex d.pageBytes rows with
      ⟨-, hc⟩ | ⟨-, -, -, hc⟩ | ⟨hretry, -, e, hc⟩
    · rw [hc]; exact hown
    · rw [hc]; exact hown
    · rw [hc] at hlatest
      exact absurd ⟨_, hlatest, rfl, rfl⟩ hretry

/-! ## Sessions do not interfere -/

/-- The session that a message names. -/
def sessionOf (message : Fields F) : Option Str := (message.get "session").bind strOf

/-- A message changes no rows but those of the session that it names. -/
theorem AnchorStore.accept_foreign (C : Crypto) (store : AnchorStore) {message : Fields F} {s : Str}
    (hs : sessionOf message ≠ some s) (pageBytes : ℕ) (rows : List Row) :
    sessionRows (store.accept C message pageBytes rows).2 s = sessionRows rows s := by
  rcases store.accept_rows C message pageBytes rows with h | ⟨sub, hex, -, h⟩
  · rw [h]
  · have hsession := (examine_eq_ok.1 hex).session
    have hne : sub.row.session ≠ s := fun he => hs (hsession.trans (congrArg some he))
    rw [h, sessionRows, List.filter_append, List.filter_singleton, decide_eq_false hne]
    exact List.append_nil _

/-- The outcome of a call, and what it does to the rows of the session that it names, depend on the
rows of that session only. -/
theorem AnchorStore.accept_local (C : Crypto) (store : AnchorStore) {message : Fields F} {s : Str}
    (hs : sessionOf message = some s) (pageBytes : ℕ) {rows rows' : List Row}
    (h : sessionRows rows s = sessionRows rows' s) :
    (store.accept C message pageBytes rows).1 = (store.accept C message pageBytes rows').1 ∧
      sessionRows (store.accept C message pageBytes rows).2 s =
        sessionRows (store.accept C message pageBytes rows').2 s := by
  rcases hex : store.examine C message with e | sub
  · rw [accept_error hex, accept_error hex]
    exact ⟨rfl, h⟩
  · have hsession := (examine_eq_ok.1 hex).session
    obtain rfl : sub.session = s := Option.some.inj (hsession.symm.trans hs)
    have hlatest : latest rows sub.session = latest rows' sub.session := by
      rw [latest, latest, h]
    have happend : sessionRows (rows ++ [sub.row]) sub.session =
        sessionRows (rows' ++ [sub.row]) sub.session := by
      simp only [sessionRows, List.filter_append] at h ⊢
      rw [h]
    rw [accept_apply hex, accept_apply hex, commit_apply, commit_apply, hlatest]
    split_ifs
    · exact ⟨rfl, h⟩
    · exact ⟨rfl, h⟩
    · exact ⟨rfl, happend⟩
    · exact ⟨rfl, h⟩

/-- The messages that name a session. -/
def ofSession (s : Str) (ds : List (Delivery F)) : List (Delivery F) :=
  ds.filter fun d => sessionOf d.message = some s

/-- The rows of a session are those that its own messages leave. -/
theorem AnchorStore.sessionRows_ofSession (C : Crypto) (store : AnchorStore)
    (ds : List (Delivery F)) (s : Str) : sessionRows (store.rowsAfter C ds) s =
      sessionRows (store.rowsAfter C (ofSession s ds)) s := by
  induction ds using List.reverseRecOn with
  | nil => rfl
  | append_singleton ds d ih =>
    rw [ofSession, List.filter_append, List.filter_singleton, rowsAfter_concat]
    by_cases hs : sessionOf d.message = some s
    · rw [decide_eq_true hs]
      change _ = sessionRows (store.rowsAfter C (ofSession s ds ++ [d])) s
      rw [rowsAfter_concat]
      exact (store.accept_local C hs d.pageBytes ih).2
    · rw [decide_eq_false hs, store.accept_foreign C hs, ih]
      exact congrArg (fun l => sessionRows (store.rowsAfter C l) s) (List.append_nil _).symm

/-- The store's history. After any messages whatever, each session's rows are a chain of
submissions of the run with sequences 1, 2, 3 and so on, the first with no previous hash and each
other with the head before it; later messages only add rows; a call acknowledges exactly the latest
row of its session, with its own frame; a refused call changes nothing; and a session's rows and
outcomes are those that its own messages alone lead to. -/
theorem AnchorStore.history_invariant (C : Crypto) (store : AnchorStore) (ds : List (Delivery F)) :
    (∀ s, ∃ subs : List Submission,
      sessionRows (store.rowsAfter C ds) s = subs.map Submission.row ∧
      (∀ sub ∈ subs, ∃ d ∈ ds, store.examine C d.message = .ok sub) ∧
      subs.map Submission.sequence = List.range' 1 subs.length ∧
      (∀ sub ∈ subs.head?, sub.previous = some none) ∧
      subs.IsChain fun a b => b.previous = some (some a.head)) ∧
    (∀ later, store.rowsAfter C ds <+: store.rowsAfter C (ds ++ later)) ∧
    (∀ (d : Delivery F) (s : Str) (q : ℕ) (h : Str),
      store.Acknowledges C (store.accept C d.message d.pageBytes (store.rowsAfter C ds)).1 s q h ↔
        ∃ frame, canonical d.message = .ok frame ∧
          latest (store.accept C d.message d.pageBytes (store.rowsAfter C ds)).2 s =
            some ⟨s, q, h, frame⟩) ∧
    (∀ (d : Delivery F) (e : Exc),
      (store.accept C d.message d.pageBytes (store.rowsAfter C ds)).1 = .error e →
        (store.accept C d.message d.pageBytes (store.rowsAfter C ds)).2 = store.rowsAfter C ds) ∧
    (∀ s, sessionRows (store.rowsAfter C ds) s =
        sessionRows (store.rowsAfter C (ofSession s ds)) s ∧
      ∀ d : Delivery F, sessionOf d.message = some s →
        (store.accept C d.message d.pageBytes (store.rowsAfter C ds)).1 =
          (store.accept C d.message d.pageBytes (store.rowsAfter C (ofSession s ds))).1) := by
  have htraced := traced_rowsAfter C store ds
  refine ⟨fun s => ?_, store.rowsAfter_mono C ds, htraced.acknowledges_iff, fun d e => ?_,
    fun s => ⟨store.sessionRows_ofSession C ds s, fun d hs =>
      (store.accept_local C hs d.pageBytes (store.sessionRows_ofSession C ds s)).1⟩⟩
  · obtain ⟨subs, hrows, hfrom, hhist⟩ := htraced
    refine ⟨subs.filter (·.session = s), by rw [hrows, sessionRows_map],
      fun sub hsub => hfrom sub (List.mem_of_mem_filter hsub), (hhist s).sequences,
      fun sub hsub => ((hhist s).first sub hsub).2, (hhist s).chain.imp fun a b hab => hab.2⟩
  · exact store.accept_error_rows C d.message d.pageBytes (store.rowsAfter C ds) e

end Bulldog.Anchor
