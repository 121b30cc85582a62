import Bulldog.MultiAgent.CanaryTrip

/-!
# Where the raw token is written

The guard looks through payloads and results. The fields of an envelope besides its payload are not
looked through, but the bus writes them into its trace and the guard into its findings. Where they hold
no token, no record holds one: a finding names a path, and every key of the path was looked at before
what stands under it.
-/

namespace Bulldog.MultiAgent

/-! ## Texts without a token -/

/-- The text does not hold the raw token. -/
def Free (token : Token) (s : Str) : Prop := ¬ token.text <:+: s

/-- A part of a text between two characters that are not in `t`. -/
theorem infix_of_separator {t a b : Str} {c : Char} (hc : c ∉ t) (h : t <:+: a ++ c :: b) :
    t <:+: a ∨ t <:+: b := by
  rcases List.infix_append_iff.1 h with ha | hb | ⟨t₁, t₂, rfl, hsuffix, hstart⟩
  · exact .inl ha
  · rcases List.infix_cons_iff.1 hb with hstart | hb
    · cases t with
      | nil => exact .inl (List.nil_infix)
      | cons x t =>
        obtain ⟨rfl, -⟩ := List.cons_prefix_cons.1 hstart
        exact absurd List.mem_cons_self hc
    · exact .inr hb
  · cases t₂ with
    | nil => exact .inl (by simpa using hsuffix.isInfix)
    | cons x t₂ =>
      obtain ⟨rfl, -⟩ := List.cons_prefix_cons.1 hstart
      exact absurd (List.mem_append_right _ List.mem_cons_self) hc

theorem Token.colon_mem (token : Token) : ':' ∈ token.text :=
  List.mem_append_left _ (by decide)

/-- A token has no other characters than letters, digits, and the three that `CANARY_PREFIX` and the
alphabet of its body have. -/
theorem Token.not_mem (token : Token) {c : Char} (hstart : c ∉ canaryPrefix)
    (halphabet : ¬ (c.isAlphanum = true ∨ c = '-' ∨ c = '_')) : c ∉ token.text := by
  intro hc
  rcases List.mem_append.1 hc with hc | hc
  · exact hstart hc
  · exact halphabet (token.alphabet c hc)

section Free

variable {token : Token} {a b : Str}

theorem free_of_colon (h : ':' ∉ a) : Free token a := fun hwithin =>
  h (hwithin.subset token.colon_mem)

theorem Free.mono (h : Free token b) (hwithin : a <:+: b) : Free token a := fun ht =>
  h (ht.trans hwithin)

theorem Free.cons_append {c : Char} (hc : c ∉ token.text) (ha : Free token a) (hb : Free token b) :
    Free token (a ++ c :: b) := fun h =>
  (infix_of_separator hc h).elim ha hb

/-- A labelled part of a detail. -/
theorem Free.labelled (ha : Free token a) (hb : Free token b) {label : Str} (hlabel : ':' ∉ label) :
    Free token (a ++ (' ' :: label ++ ['=']) ++ b) := by
  have hspace : ' ' ∉ token.text := token.not_mem (by decide) (by decide)
  have hequals : '=' ∉ token.text := token.not_mem (by decide) (by decide)
  have hinner : Free token (label ++ '=' :: b) := (free_of_colon hlabel).cons_append hequals hb
  rw [List.append_assoc, List.cons_append, List.cons_append, List.append_assoc]
  exact ha.cons_append hspace hinner

/-- A path with its parts. -/
theorem free_intercalate {path : List Str} (h : ∀ part ∈ path, Free token part) :
    Free token (List.intercalate ['/'] path) := by
  have hslash : '/' ∉ token.text := token.not_mem (by decide) (by decide)
  induction path with
  | nil => exact free_of_colon (by decide)
  | cons part path ih =>
    obtain ⟨hpart, hrest⟩ := List.forall_mem_cons.1 h
    cases path with
    | nil => simpa [List.intercalate] using hpart
    | cons part' path =>
      have heq : List.intercalate ['/'] (part :: part' :: path) =
          part ++ '/' :: List.intercalate ['/'] (part' :: path) := by
        simp [List.intercalate]
      rw [heq]
      exact hpart.cons_append hslash (ih hrest)

end Free

/-! ## Paths -/

/-- The text of a key. -/
def Entry.keyText : Entry → Option Str
  | .key _ text => some text
  | .leaf _ _ => none

/-- Every part of the path of an entry is a key that came before it, or has no colon. -/
def Traced (known : List Str) : List Entry → Prop
  | [] => True
  | e :: entries => (∀ part ∈ e.path, part ∈ known ∨ ':' ∉ part) ∧
      Traced (known ++ e.keyText.toList) entries

theorem Traced.mono {entries : List Entry} {known known' : List Str} (h : Traced known entries)
    (hknown : known ⊆ known') : Traced known' entries := by
  induction entries generalizing known known' with
  | nil => trivial
  | cons e entries ih =>
    refine ⟨fun part hpart => (h.1 part hpart).imp_left (hknown ·), ih h.2 ?_⟩
    intro text htext
    rcases List.mem_append.1 htext with htext | htext
    · exact List.mem_append_left _ (hknown htext)
    · exact List.mem_append_right _ htext

theorem Traced.append {xs ys : List Entry} {known : List Str} (hxs : Traced known xs)
    (hys : Traced known ys) : Traced known (xs ++ ys) := by
  induction xs generalizing known with
  | nil => exact hys
  | cons e xs ih =>
    exact ⟨hxs.1, ih hxs.2 (hys.mono (List.subset_append_left _ _))⟩

theorem Traced.unlessAt {entries : List Entry} {known : List Str} (h : Traced known entries)
    (allowed : Option Path) (path : Path) : Traced known (unlessAt allowed path entries) := by
  unfold MultiAgent.unlessAt
  split_ifs
  · trivial
  · exact h

theorem traced_leaf {path : Path} {known : List Str}
    (h : ∀ part ∈ path, part ∈ known ∨ ':' ∉ part) (text : Str) : Traced known [.leaf path text] :=
  ⟨h, trivial⟩

theorem colon_not_mem_toString (i : ℕ) : ':' ∉ (toString i).toList := by
  intro h
  have hdigit : (':' : Char).isDigit = true :=
    Nat.isDigit_of_mem_toDigits (b := 10) (n := i) (by decide) (by decide) (by simpa using h)
  exact absurd hdigit (by decide)

theorem colon_not_mem_toString_int (i : ℤ) : ':' ∉ (toString i).toList := by
  cases i with
  | ofNat n => exact colon_not_mem_toString n
  | negSucc n =>
    have hstring : (toString (Int.negSucc n)).toList = '-' :: (toString (n + 1)).toList := by
      have hminus : toString (Int.negSucc n) = "-" ++ toString (n + 1) := rfl
      rw [hminus, String.toList_append]
      rfl
    rw [hstring]
    intro h
    rcases List.mem_cons.1 h with h | h
    · exact absurd h (by decide)
    · exact colon_not_mem_toString _ h

mutual
/-- The walk comes to a key before it comes to what stands under it. -/
theorem walk_traced (allowed : Option Path) {path : Path} {known : List Str}
    (h : ∀ part ∈ path, part ∈ known ∨ ':' ∉ part) : ∀ v : Value, Traced known (walk allowed path v)
  | .scalar => trivial
  | .str _ => (traced_leaf h _).unlessAt allowed path
  | .bytes _ => (traced_leaf h _).unlessAt allowed path
  | .dict members => (walkMembers_traced allowed h members).unlessAt allowed path
  | .dataclass fields => (walkMembers_traced allowed h fields).unlessAt allowed path
  | .items xs => (walkItems_traced allowed h 0 xs).unlessAt allowed path
  | .failing _ => trivial
  | .object _ => (traced_leaf h _).unlessAt allowed path
/-- `walk_traced` for the members of a `dict`. -/
theorem walkMembers_traced (allowed : Option Path) {path : Path} {known : List Str}
    (h : ∀ part ∈ path, part ∈ known ∨ ':' ∉ part) :
    ∀ members : List (Str × Value), Traced known (walkMembers allowed path members)
  | [] => trivial
  | (k, v) :: members => by
    have hkey : ∀ part ∈ path ++ ["<key>".toList], part ∈ known ∨ ':' ∉ part := by
      intro part hpart
      rcases List.mem_append.1 hpart with hpart | hpart
      · exact h part hpart
      · rw [List.mem_singleton.1 hpart]
        exact .inr (by decide)
    have hchild : ∀ part ∈ path ++ [k], part ∈ known ++ [k] ∨ ':' ∉ part := by
      intro part hpart
      rcases List.mem_append.1 hpart with hpart | hpart
      · exact (h part hpart).imp_left (List.mem_append_left _ ·)
      · exact .inl (List.mem_append_right _ hpart)
    exact ⟨hkey, (walk_traced allowed hchild v).append
      ((walkMembers_traced allowed h members).mono (List.subset_append_left _ _))⟩
/-- `walk_traced` for the items of a sequence. -/
theorem walkItems_traced (allowed : Option Path) {path : Path} {known : List Str}
    (h : ∀ part ∈ path, part ∈ known ∨ ':' ∉ part) :
    ∀ (i : ℕ) (xs : List Value), Traced known (walkItems allowed path i xs)
  | _, [] => trivial
  | i, v :: xs => by
    have hchild : ∀ part ∈ path ++ [(toString i).toList], part ∈ known ∨ ':' ∉ part := by
      intro part hpart
      rcases List.mem_append.1 hpart with hpart | hpart
      · exact h part hpart
      · rw [List.mem_singleton.1 hpart]
        exact .inr (colon_not_mem_toString i)
    exact (walk_traced allowed hchild v).append (walkItems_traced allowed h (i + 1) xs)
end

/-- The parts of the path of an entry, by the entries before it. -/
theorem Traced.of_append {xs ys : List Entry} {e : Entry} {known : List Str}
    (h : Traced known (xs ++ e :: ys)) :
    ∀ part ∈ e.path, part ∈ known ∨ (∃ parent, .key parent part ∈ xs) ∨ ':' ∉ part := by
  induction xs generalizing known with
  | nil => exact fun part hpart => (h.1 part hpart).imp_right .inr
  | cons x xs ih =>
    intro part hpart
    rcases ih h.2 part hpart with hknown | ⟨parent, hparent⟩ | hcolon
    · rcases List.mem_append.1 hknown with hknown | hkey
      · exact .inl hknown
      · cases x with
        | key parent text =>
          obtain rfl := List.mem_singleton.1 hkey
          exact .inr (.inl ⟨parent, List.mem_cons_self⟩)
        | leaf path text => cases hkey
    · exact .inr (.inl ⟨parent, List.mem_cons_of_mem _ hparent⟩)
    · exact .inr (.inr hcolon)

/-! ## Findings -/

/-- A text of a finding. -/
def Finding.texts (finding : Finding) : List Str :=
  [finding.agentId, finding.code.toList, finding.summary, finding.detail]

namespace HoneyTokenAgent

theorem joinedCandidate_path {strings : List Entry} {c : Option Path × Str}
    (h : c ∈ joinedCandidate strings) : c.1 = none := by
  unfold joinedCandidate at h
  dsimp only at h
  split_ifs at h
  · cases h
  · rw [List.mem_singleton.1 h]

/-- The match is in the joined values, or the first one, at its path. -/
theorem firstMatch_first {states : States} {strings : List Entry} {path : Option Path}
    {owner : HoneyTokenState} {name : String}
    (h : firstMatch states (candidates strings) = some (path, owner, name)) :
    owner ∈ states ∧ (∃ r ∈ representations owner.token.text, r.1 = name) ∧
      (path = none ∨ ∃ xs e ys, strings = xs ++ e :: ys ∧ path = some e.path ∧
        ∀ x ∈ xs, ∀ st ∈ states, ¬ Holds st.token x.text) := by
  obtain ⟨l₁, c, l₂, hsplit, hc, hbefore⟩ := List.findSome?_eq_some_iff.1 h
  obtain ⟨st, hst, hmatch⟩ := List.exists_of_findSome?_eq_some hc
  obtain ⟨name', hname, heq⟩ := Option.map_eq_some_iff.1 hmatch
  cases heq
  refine ⟨hst, ?_, ?_⟩
  · obtain ⟨r, hr, hfirst⟩ := Option.map_eq_some_iff.1 hname
    exact ⟨r, List.mem_of_find?_eq_some hr, hfirst⟩
  · rcases List.append_eq_append_iff.1 hsplit with ⟨as, -, htail⟩ | ⟨as, hmap, htail⟩
    · exact .inl (joinedCandidate_path (by rw [htail]; simp))
    · cases as with
      | nil => exact .inl (joinedCandidate_path (htail ▸ List.mem_cons_self))
      | cons a as =>
        obtain ⟨rfl, -⟩ := List.cons.inj htail
        obtain ⟨xs, rest, rfl, rfl, hrest⟩ := List.map_eq_append_iff.1 hmap
        obtain ⟨e, ys, rfl, he, -⟩ := List.map_eq_cons_iff.1 hrest
        refine .inr ⟨xs, e, ys, rfl, by rw [← he], fun x hx st' hst' hholds => ?_⟩
        have hnone := hbefore _ (List.mem_map_of_mem hx)
        have hmatch := Option.map_eq_none_iff.1 (List.findSome?_eq_none_iff.1 hnone st' hst')
        have hsome := (matchingRepresentation_isSome _ _).2 hholds
        rw [hmatch] at hsome
        cases hsome

/-- The token is one that is tracked, or no key holds it. -/
def KeysFree (token : Token) (states : States) (strings : List Entry) : Prop :=
  (∃ st ∈ states, st.token = token) ∨ ∀ parent text, .key parent text ∈ strings → Free token text

theorem free_formatPath {token : Token} {states : States} {allowed : Option Path} {value : Value}
    {path : Option Path} {owner : HoneyTokenState} {name : String}
    (h : firstMatch states (candidates (walk allowed [] value)) = some (path, owner, name))
    (hkeys : KeysFree token states (walk allowed [] value)) : Free token (formatPath path) := by
  obtain ⟨-, -, rfl | ⟨xs, e, ys, hstrings, rfl, hbefore⟩⟩ := firstMatch_first h
  · exact free_of_colon (by decide)
  · have htraced : Traced [] (walk allowed [] value) :=
      walk_traced allowed (List.forall_mem_nil _) value
    rw [hstrings] at htraced hkeys
    -- a key of the path came before, and was clean
    have hparts : ∀ part ∈ e.path, Free token part := by
      intro part hpart
      rcases htraced.of_append part hpart with hknown | ⟨parent, hkey⟩ | hcolon
      · cases hknown
      · rcases hkeys with ⟨st, hst, rfl⟩ | hfree
        · exact fun hraw => hbefore _ hkey st hst ⟨("raw", _), List.mem_cons_self, hraw⟩
        · exact hfree parent part (List.mem_append_left _ hkey)
      · exact free_of_colon hcolon
    unfold formatPath
    split
    · exact free_of_colon (by decide)
    · exact free_of_colon (by decide)
    · next heq =>
      cases heq
      exact free_intercalate hparts

theorem colon_not_mem_name {token : Str} : ∀ r ∈ representations token, ':' ∉ r.1.toList := by
  unfold representations
  simp only [List.forall_mem_cons]
  exact ⟨by decide, by decide, by decide, by decide, by decide, by decide, by decide, by decide,
    by decide, List.forall_mem_nil _⟩

variable {agent : HoneyTokenAgent}

/-- A finding of a value holds no token that the trace, the stage and the keys do not hold. -/
theorem inspectValue_free {token : Token} {value : Value} {traceId stage : Str}
    {allowed : Option Path} {states : States} (hagent : Free token agent.agentId)
    (htrace : Free token traceId) (hstage : Free token stage)
    (hids : ∀ st ∈ states, Free token st.traceId) (hprints : ∀ st ∈ states, ':' ∉ st.fingerprint)
    (hkeys : KeysFree token states (walk allowed [] value)) {finding : Finding}
    (h : (agent.inspectValue value traceId stage allowed states).1 = .error (.leak finding)) :
    ∀ s ∈ finding.texts, Free token s := by
  have htraced : Free token ("trace=".toList ++ traceId) := by
    have hequals : '=' ∉ token.text := token.not_mem (by decide) (by decide)
    exact (free_of_colon (by decide : ':' ∉ "trace".toList)).cons_append hequals htrace
  unfold inspectValue collectStrings at h
  rcases herror : walkError allowed [] value with _ | errorType
  swap
  · rw [herror] at h
    cases h
  rw [herror] at h
  dsimp only at h
  split_ifs at h
  · cases h
    have hdetail := (htraced.labelled hstage (by decide : ':' ∉ "stage".toList)).labelled
      (free_of_colon (colon_not_mem_toString ((walk allowed [] value).map
        fun e => e.text.length).sum)) (by decide : ':' ∉ "chars".toList)
    simp only [Finding.texts, List.forall_mem_cons]
    exact ⟨hagent, free_of_colon (a := "honeytoken.scan-overflow".toList) (by decide),
      free_of_colon (a := "Boundary payload exceeded the canary inspection budget".toList)
        (by decide), hdetail, List.forall_mem_nil _⟩
  · split at h
    · cases h
    · next path owner name hmatch =>
      obtain ⟨howner, ⟨r, hr, rfl⟩, -⟩ := firstMatch_first hmatch
      cases h
      have hpath := free_formatPath hmatch hkeys
      have hprint : ':' ∉ owner.fingerprint.take 16 := fun hmem =>
        hprints owner howner (List.mem_of_mem_take hmem)
      have hdetail := ((((htraced.labelled (hids owner howner)
        (by decide : ':' ∉ "source_trace".toList)).labelled hstage
        (by decide : ':' ∉ "stage".toList)).labelled hpath
        (by decide : ':' ∉ "path".toList)).labelled (free_of_colon hprint)
        (by decide : ':' ∉ "token_fingerprint".toList)).labelled
        (free_of_colon (colon_not_mem_name r hr)) (by decide : ':' ∉ "representation".toList)
      simp only [Finding.texts, List.forall_mem_cons]
      exact ⟨hagent, free_of_colon (a := "honeytoken.leak".toList) (by decide),
        free_of_colon (a := "Host-owned canary escaped its trusted-context boundary".toList)
          (by decide), hdetail, List.forall_mem_nil _⟩

end HoneyTokenAgent

/-! ## Records -/

/-- The texts of an event of the trace. -/
def TraceEvent.texts (event : TraceEvent) : List Str :=
  [event.traceId, event.agentId, event.event.toList] ++
    event.detail.flatMap fun kv => [kv.1.toList, kv.2]

/-- What has been written, and the tokens that have been drawn. -/
structure Watch where
  states : States
  trace : List TraceEvent
  /-- The findings that have been raised. -/
  findings : List Finding
  tokens : List Token

/-- What the bus records where the guard raises. -/
def Call.dropped (e : Raised) : Call → List TraceEvent
  | .enters envelope => [⟨envelope.traceId, envelope.sender, "dropped.boundary-guard",
      [("stage", "envelope".toList), ("error_type", MessageBus.typeName e)]⟩]
  | .leaves envelope _ => [⟨envelope.traceId, envelope.sender, "dropped.boundary-guard",
      [("stage", "result".toList), ("error_type", MessageBus.typeName e)]⟩]
  | _ => []

/-- The token that a call draws. -/
def Call.drawn : Call → List Token
  | .mint _ _ _ token => [token]
  | _ => []

/-- What `deliver` records itself. -/
inductive Note where
  | loopGuard
  | deliver
  | handled

/-- The event that is recorded about an envelope. -/
def Note.event (envelope : Envelope) : Note → TraceEvent
  | .loopGuard => ⟨envelope.traceId, envelope.sender, "dropped.loop-guard",
      [("hops", (toString envelope.hops).toList)]⟩
  | .deliver => ⟨envelope.traceId, envelope.sender, "deliver",
      [("to", envelope.recipient), ("type", envelope.messageType)]⟩
  | .handled => ⟨envelope.traceId, envelope.recipient, "handled", [("type", envelope.messageType)]⟩

/-- What is done on the bus. -/
inductive Step where
  /-- A call of the agent, with the record of a refusal. -/
  | call (call : Call)
  /-- A record of `deliver` about an envelope. -/
  | record (envelope : Envelope) (note : Note)
  /-- The record of `register`. -/
  | register (identity : AgentIdentity)

namespace Watch

/-- A new bus. -/
def fresh : Watch := ⟨[], [], [], []⟩

/-- The finding of a leak. -/
def findingOf : Except Raised Unit → List Finding
  | .error (.leak finding) => [finding]
  | _ => []

/-- One step. -/
def step (agent : HoneyTokenAgent) (w : Watch) : Step → Watch
  | .call call =>
    let x := call.perform agent w.states
    { states := x.2
      trace := w.trace ++ match x.1 with
        | .error e => call.dropped e
        | .ok _ => []
      findings := w.findings ++ findingOf x.1
      tokens := w.tokens ++ call.drawn }
  | .record envelope note => { w with trace := w.trace ++ [note.event envelope] }
  | .register identity => { w with trace := w.trace ++ [MessageBus.registered identity] }

/-- A run. -/
def run (agent : HoneyTokenAgent) (steps : List Step) (w : Watch) : Watch :=
  steps.foldl (step agent) w

/-- Nothing that has been written holds the token. -/
structure FreeOf (agent : HoneyTokenAgent) (w : Watch) (token : Token) : Prop where
  agentId : Free token agent.agentId
  trace : ∀ event ∈ w.trace, ∀ s ∈ event.texts, Free token s
  findings : ∀ finding ∈ w.findings, ∀ s ∈ finding.texts, Free token s
  ids : ∀ st ∈ w.states, Free token st.traceId

/-- What holds in every run: the tracked tokens have been drawn, a fingerprint is hexadecimal, and a
finding of a state has been raised. -/
structure Kept (w : Watch) : Prop where
  tokens : ∀ st ∈ w.states, st.token ∈ w.tokens
  prints : ∀ st ∈ w.states, ':' ∉ st.fingerprint
  findings : ∀ st ∈ w.states, ∀ finding, st.finding = some finding → finding ∈ w.findings

/-- The fields of an envelope besides its payload, and the stages that the guard makes of them, do not
hold the token. -/
structure Header (token : Token) (envelope : Envelope) : Prop where
  traceId : Free token envelope.traceId
  entered : Free token (HoneyTokenAgent.envelopeStage envelope)
  left : Free token (HoneyTokenAgent.resultStage envelope)

/-- The value that is looked through: no key of it holds a token that is not tracked any more, and the
type of what the walk raises holds none. -/
structure CleanValue (w : Watch) (token : Token) (allowed : Option Path) (value : Value) : Prop where
  keys : HoneyTokenAgent.KeysFree token w.states (walk allowed [] value)
  error : ∀ errorType ∈ walkError allowed [] value, Free token errorType

/-- The call gives no token away outside of the values that are looked through. -/
def CleanFor (w : Watch) (token : Token) : Call → Prop
  | .mint traceId _ _ _ => Free token traceId
  | .complete _ => True
  | .enters envelope => Header token envelope ∧
      CleanValue w token (HoneyTokenAgent.allowedPath w.states envelope) envelope.payload
  | .leaves envelope value => Header token envelope ∧ CleanValue w token none value
  | .externalWrite traceId value channel => Free token traceId ∧
      Free token ("external:".toList ++ channel) ∧ CleanValue w token none value

/-- The step is clean for every token that has been drawn, and a token that it draws is new. -/
def Clean (agent : HoneyTokenAgent) (w : Watch) : Step → Prop
  | .call call => (∀ token ∈ w.tokens, CleanFor w token call) ∧
      ∀ token ∈ call.drawn, FreeOf agent w token ∧ CleanFor w token call
  | .record envelope _ => ∀ token ∈ w.tokens, Header token envelope
  | .register identity => ∀ token ∈ w.tokens, Free token identity.agentId ∧ Free token identity.name ∧
      ∀ name ∈ identity.capabilities, Free token name

/-- Every step of a run is clean. -/
def AllClean (agent : HoneyTokenAgent) : List Step → Watch → Prop
  | [], _ => True
  | s :: steps, w => Clean agent w s ∧ AllClean agent steps (step agent w s)

/-! ### One step -/

section Header

variable {token : Token} {envelope : Envelope} (h : Header token envelope)

include h

theorem Header.sender : Free token envelope.sender := by
  have hwithin : ∀ a s b c d e : Str, s <:+: a ++ s ++ b ++ c ++ d ++ e := by
    intro a s b c d e
    rw [List.append_assoc, List.append_assoc, List.append_assoc]
    exact List.infix_append a s _
  exact h.entered.mono (hwithin _ _ _ _ _ _)

theorem Header.recipient : Free token envelope.recipient := by
  have hwithin : ∀ a s b c : Str, s <:+: a ++ s ++ b ++ c := by
    intro a s b c
    rw [List.append_assoc]
    exact List.infix_append a s _
  exact h.left.mono (hwithin _ _ _ _)

theorem Header.messageType : Free token envelope.messageType :=
  h.left.mono (List.suffix_append _ _).isInfix

/-- What is recorded about an envelope holds no token that its fields do not hold. -/
theorem Header.event (note : Note) : ∀ s ∈ (note.event envelope).texts, Free token s := by
  have hevent : Free token "dropped.loop-guard".toList ∧ Free token "deliver".toList ∧
      Free token "handled".toList := ⟨free_of_colon (by decide), free_of_colon (by decide),
    free_of_colon (by decide)⟩
  cases note with
  | loopGuard =>
    simp only [Note.event, TraceEvent.texts, List.flatMap_cons, List.flatMap_nil, List.append_nil,
      List.cons_append, List.nil_append, List.forall_mem_cons]
    exact ⟨h.traceId, h.sender, hevent.1, free_of_colon (by decide),
      free_of_colon (colon_not_mem_toString_int _), List.forall_mem_nil _⟩
  | deliver =>
    simp only [Note.event, TraceEvent.texts, List.flatMap_cons, List.flatMap_nil, List.append_nil,
      List.cons_append, List.nil_append, List.forall_mem_cons]
    exact ⟨h.traceId, h.sender, hevent.2.1, free_of_colon (by decide), h.recipient,
      free_of_colon (by decide), h.messageType, List.forall_mem_nil _⟩
  | handled =>
    simp only [Note.event, TraceEvent.texts, List.flatMap_cons, List.flatMap_nil, List.append_nil,
      List.cons_append, List.nil_append, List.forall_mem_cons]
    exact ⟨h.traceId, h.recipient, hevent.2.2, free_of_colon (by decide), h.messageType,
      List.forall_mem_nil _⟩

end Header

/-- The record of a registration holds no token that the identity does not hold. -/
theorem registered_free {token : Token} {identity : AgentIdentity} (hid : Free token identity.agentId)
    (hname : Free token identity.name) (hcapabilities : ∀ name ∈ identity.capabilities, Free token name) :
    ∀ s ∈ (MessageBus.registered identity).texts, Free token s := by
  intro s hs
  simp only [MessageBus.registered, TraceEvent.texts, List.flatMap_cons, List.cons_append,
    List.nil_append, List.mem_cons, List.mem_flatMap, List.mem_map] at hs
  rcases hs with rfl | rfl | rfl | rfl | rfl | ⟨_, ⟨name, hmem, rfl⟩, hs⟩
  · exact free_of_colon List.not_mem_nil
  · exact hid
  · exact free_of_colon (by decide)
  · exact free_of_colon (by decide)
  · exact hname
  · rcases hs with rfl | rfl | hs
    · change Free token "capabilities".toList
      exact free_of_colon (by decide)
    · exact hcapabilities _ ((List.mergeSort_perm _ _).mem_iff.1 hmem)
    · exact absurd hs List.not_mem_nil

/-! ### What a call leaves in a state -/

/-- A state comes from one before, with the finding it had or the one that is raised. -/
def Stems (states : States) (r : Except Raised Unit) (st' : HoneyTokenState) : Prop :=
  ∃ st ∈ states, st'.traceId = st.traceId ∧ st'.token = st.token ∧
    st'.fingerprint = st.fingerprint ∧
    (st'.finding = st.finding ∨ ∃ finding, r = .error (.leak finding) ∧ st'.finding = some finding)

theorem stems_trip {states : States} {traceId : Str} {finding : Finding} {st' : HoneyTokenState}
    (h : st' ∈ states.trip traceId finding) : Stems states (.error (.leak finding)) st' := by
  obtain ⟨st, hst, rfl⟩ := States.mem_change.1 h
  refine ⟨st, hst, ?_⟩
  split_ifs
  · refine ⟨rfl, rfl, rfl, ?_⟩
    rw [HoneyTokenState.trip]
    cases st.finding with
    | none => exact .inr ⟨finding, rfl, rfl⟩
    | some old => exact .inl rfl
  · exact ⟨rfl, rfl, rfl, .inl rfl⟩

theorem Stems.trans {states states' : States} {r : Except Raised Unit} {st' : HoneyTokenState}
    (h : Stems states' r st') (hstates : ∀ st ∈ states', Stems states r st) : Stems states r st' := by
  obtain ⟨st₁, hst₁, hid₁, htoken₁, hprint₁, hfinding₁⟩ := h
  obtain ⟨st, hst, hid, htoken, hprint, hfinding⟩ := hstates st₁ hst₁
  refine ⟨st, hst, hid₁.trans hid, htoken₁.trans htoken, hprint₁.trans hprint, ?_⟩
  rcases hfinding₁ with hfinding₁ | hraised
  · rw [hfinding₁]
    exact hfinding
  · exact .inr hraised

theorem stems_inspected {agent : HoneyTokenAgent} {error : Option Str} {strings : List Entry}
    {traceId : Str} {states : States} {x : Except Raised Unit × States}
    (h : HoneyTokenAgent.Inspected agent error strings traceId states x) : ∀ st' ∈ x.2, Stems states x.1 st' := by
  intro st' hst'
  cases h with
  | stopped _ _ => exact ⟨st', hst', rfl, rfl, rfl, .inl rfl⟩
  | overflow finding _ => exact stems_trip hst'
  | clean _ _ => exact ⟨st', hst', rfl, rfl, rfl, .inl rfl⟩
  | leak owner finding _ _ _ =>
    dsimp only at hst'
    split_ifs at hst'
    · exact (stems_trip hst').trans fun _ => stems_trip
    · exact stems_trip hst'

theorem colon_not_mem_hexdigest (data : Bytes) : ':' ∉ hexdigest data := by
  have hdigit : ∀ n < 16, Nat.digitChar n ≠ ':' := by decide
  intro h
  obtain ⟨b, -, hb⟩ := List.mem_flatMap.1 h
  have hbyte := b.toNat_lt
  rcases List.mem_cons.1 hb with hb | hb
  · exact hdigit _ (by omega) hb.symm
  · exact hdigit _ (by omega) (List.mem_singleton.1 hb).symm

/-- What a call leaves: states that stem from those before, and one more where it mints. -/
theorem perform_stems (agent : HoneyTokenAgent) (call : Call) (states : States) :
    ∀ st' ∈ (call.perform agent states).2, Stems states (call.perform agent states).1 st' ∨
      ∃ traceId recipient id token, call = .mint traceId recipient id token ∧
        st'.traceId = traceId ∧ st'.token = token ∧ ':' ∉ st'.fingerprint ∧ st'.finding = none := by
  intro st' hst'
  rcases call.perform_cases agent states with ⟨i, -, hinspected⟩ | ⟨-, -, hrest⟩
  · refine .inl ((stems_inspected hinspected st' hst').trans fun st hst => ?_)
    obtain ⟨st₀, hst₀, hid, -, hfinding, htoken, hprint⟩ := Call.of_mem_exposed hst
    exact ⟨st₀, hst₀, hid.symm, htoken.symm, hprint.symm, .inl hfinding.symm⟩
  · rcases hrest with ⟨finding, heq⟩ | ⟨traceId, -, heq⟩ | ⟨traceId, recipient, id, token, rfl⟩
    · rw [heq] at hst' ⊢
      exact .inl ⟨st', hst', rfl, rfl, rfl, .inl rfl⟩
    · rw [heq] at hst' ⊢
      obtain ⟨st, hst, rfl⟩ := States.mem_change.1 hst'
      refine .inl ⟨st, hst, ?_⟩
      split_ifs <;> exact ⟨rfl, rfl, rfl, .inl rfl⟩
    · change st' ∈ (agent.mint traceId recipient id token states).2 at hst'
      rcases agent.mint_cases traceId recipient id token states with
        ⟨-, -, states', st, hpruned, hid, htoken, -, -, hfinding, hprint, heq⟩ |
        ⟨message, -, hpruned⟩
      · rw [heq] at hst'
        rcases List.mem_append.1 hst' with hst' | hst'
        · exact .inl ⟨st', hpruned.sublist.subset hst', rfl, rfl, rfl, .inl rfl⟩
        · obtain rfl := List.mem_singleton.1 hst'
          exact .inr ⟨traceId, recipient, id, token, rfl, hid, htoken,
            hprint ▸ colon_not_mem_hexdigest _, hfinding⟩
      · exact .inl ⟨st', hpruned.sublist.subset hst', rfl, rfl, rfl, .inl rfl⟩

theorem mem_findingOf {r : Except Raised Unit} {finding : Finding} :
    finding ∈ findingOf r ↔ r = .error (.leak finding) := by
  unfold findingOf
  split
  · next f =>
    rw [List.mem_singleton]
    constructor
    · rintro rfl
      rfl
    · intro h
      cases h
      rfl
  · next hnot =>
    constructor
    · nofun
    · intro h
      exact absurd h (hnot finding)

theorem kept_call (agent : HoneyTokenAgent) {w : Watch} (h : Kept w) (call : Call) :
    Kept (w.step agent (.call call)) := by
  have hstems := perform_stems agent call w.states
  refine ⟨fun st' hst' => ?_, fun st' hst' => ?_, fun st' hst' finding hfinding => ?_⟩
  · rcases hstems st' hst' with ⟨st, hst, -, htoken, -⟩ | ⟨t, r, id, token, rfl, -, htoken, -⟩
    · rw [htoken]
      exact List.mem_append_left _ (h.tokens st hst)
    · rw [htoken]
      exact List.mem_append_right _ (List.mem_singleton.2 rfl)
  · rcases hstems st' hst' with ⟨st, hst, -, -, hprint, -⟩ | ⟨t, r, id, token, rfl, -, -, hprint, -⟩
    · rw [hprint]
      exact h.prints st hst
    · exact hprint
  · rcases hstems st' hst' with ⟨st, hst, -, -, -, hold | ⟨f, hraised, hnew⟩⟩ |
      ⟨t, r, id, token, rfl, -, -, -, hnone⟩
    · exact List.mem_append_left _ (h.findings st hst finding (hold.symm.trans hfinding))
    · obtain rfl := Option.some.inj (hnew.symm.trans hfinding)
      exact List.mem_append_right _ (mem_findingOf.2 hraised)
    · exact nomatch hnone.symm.trans hfinding

/-! ### What a call writes -/

/-- The type of what the inspection of a clean call raises does not hold the token. -/
theorem inspection_error_free {w : Watch} {token : Token} {call : Call} {i : Inspection}
    (h : CleanFor w token call) (hi : call.inspection w.states = some i) {errorType : Str}
    (herror : i.error = some errorType) : Free token errorType := by
  cases call with
  | mint traceId recipient id newToken => cases hi
  | complete traceId => cases hi
  | enters envelope =>
    simp only [Call.inspection] at hi
    split_ifs at hi
    obtain rfl := Option.some.inj hi
    exact h.2.error errorType herror
  | leaves envelope value =>
    simp only [Call.inspection] at hi
    split_ifs at hi
    obtain rfl := Option.some.inj hi
    exact h.2.error errorType herror
  | externalWrite traceId value channel =>
    obtain rfl := Option.some.inj hi
    exact h.2.2.error errorType herror

/-- The type of what a clean call raises holds no token. -/
theorem typeName_free {agent : HoneyTokenAgent} {w : Watch} {token : Token} {call : Call}
    (h : CleanFor w token call) {e : Raised} (he : (call.perform agent w.states).1 = .error e) :
    Free token (MessageBus.typeName e) := by
  have hleak : ∀ finding, Free token (MessageBus.typeName (.leak finding)) := fun _ =>
    free_of_colon (a := "HoneyTokenLeak".toList) (by decide)
  rcases call.perform_cases agent w.states with ⟨i, hi, hinspected⟩ | ⟨-, -, hrest⟩
  · -- what the walk raised is what the value is clean of
    rcases hperform : call.perform agent w.states with ⟨r, states'⟩
    rw [hperform] at hinspected he
    cases hinspected with
    | stopped errorType herror =>
      obtain rfl := Except.error.inj he
      exact inspection_error_free h hi herror
    | overflow finding _ =>
      obtain rfl := Except.error.inj he
      exact hleak _
    | clean _ _ => cases he
    | leak owner finding _ _ _ =>
      obtain rfl := Except.error.inj he
      exact hleak _
  · rcases hrest with ⟨finding, heq⟩ | ⟨traceId, -, heq⟩ | ⟨traceId, recipient, id, newToken, rfl⟩
    · rw [heq] at he
      obtain rfl := Except.error.inj he
      exact hleak _
    · rw [heq] at he
      cases he
    · rcases agent.mint_cases traceId recipient id newToken w.states with
        ⟨hok, -⟩ | ⟨message, herror, -⟩
      · cases hok.symm.trans he
      · obtain rfl := Except.error.inj (herror.symm.trans he)
        exact free_of_colon (a := "RuntimeError".toList) (by decide)

/-- The record of a refusal holds no token that the envelope does not hold. -/
theorem dropped_free {token : Token} {w : Watch} {call : Call} (h : CleanFor w token call) {e : Raised}
    (he : Free token (MessageBus.typeName e)) :
    ∀ event ∈ call.dropped e, ∀ s ∈ event.texts, Free token s := by
  have hevent : ∀ {envelope : Envelope} (stage : Str), Header token envelope → ':' ∉ stage →
      ∀ s ∈ (⟨envelope.traceId, envelope.sender, "dropped.boundary-guard",
        [("stage", stage), ("error_type", MessageBus.typeName e)]⟩ : TraceEvent).texts,
        Free token s := by
    intro envelope stage hheader hstage
    simp only [TraceEvent.texts, List.flatMap_cons, List.flatMap_nil, List.append_nil,
      List.cons_append, List.nil_append, List.forall_mem_cons]
    exact ⟨hheader.traceId, hheader.sender, free_of_colon (by decide), free_of_colon (by decide),
      free_of_colon hstage, free_of_colon (by decide), he, List.forall_mem_nil _⟩
  intro event hmem
  cases call with
  | enters envelope =>
    rw [List.mem_singleton.1 hmem]
    exact hevent _ h.1 (by decide)
  | leaves envelope value =>
    rw [List.mem_singleton.1 hmem]
    exact hevent _ h.1 (by decide)
  | _ => cases hmem

theorem keysFree_exposed {token : Token} {states : States} {strings : List Entry} (call : Call)
    (h : HoneyTokenAgent.KeysFree token states strings) :
    HoneyTokenAgent.KeysFree token (call.exposed states) strings := by
  rcases h with ⟨st, hst, rfl⟩ | hfree
  · obtain ⟨st', hst', -, htoken⟩ := call.mem_exposed hst
    exact .inl ⟨st', hst', htoken⟩
  · exact .inr hfree

/-- The finding of a call holds no token. -/
theorem finding_free {agent : HoneyTokenAgent} {w : Watch} {token : Token} (hkept : Kept w)
    (hfree : FreeOf agent w token) {call : Call} (h : CleanFor w token call) {finding : Finding}
    (hleak : (call.perform agent w.states).1 = .error (.leak finding)) :
    ∀ s ∈ finding.texts, Free token s := by
  -- a trace that was refused has its old finding
  have hrefused : ∀ envelope result, HoneyTokenAgent.refusal w.states envelope.traceId ≠ none →
      (agent.boundaryGuard envelope result w.states).1 = .error (.leak finding) →
        ∀ s ∈ finding.texts, Free token s := by
    intro envelope result hrefusal hguard
    obtain ⟨old, hold⟩ := Option.ne_none_iff_exists'.1 hrefusal
    rw [Call.boundaryGuard_of_refusal agent result hold] at hguard
    cases hguard
    obtain ⟨st, hst, hfinding⟩ := Option.bind_eq_some_iff.1 hold
    split_ifs at hfinding
    exact hfree.findings finding (hkept.findings st (List.mem_of_find?_eq_some hst) finding hfinding)
  have hids : ∀ st ∈ call.exposed w.states, Free token st.traceId := by
    intro st hst
    obtain ⟨st₀, hst₀, hid, -⟩ := Call.of_mem_exposed hst
    rw [← hid]
    exact hfree.ids st₀ hst₀
  have hprints : ∀ st ∈ call.exposed w.states, ':' ∉ st.fingerprint := by
    intro st hst
    obtain ⟨st₀, hst₀, -, -, -, -, hprint⟩ := Call.of_mem_exposed hst
    rw [← hprint]
    exact hkept.prints st₀ hst₀
  cases call with
  | mint traceId recipient id newToken =>
    rcases agent.mint_cases traceId recipient id newToken w.states with ⟨hok, -⟩ | ⟨message, herror, -⟩
    · exact nomatch hok.symm.trans hleak
    · exact nomatch herror.symm.trans hleak
  | complete traceId => cases hleak
  | enters envelope =>
    by_cases hrefusal : HoneyTokenAgent.refusal w.states envelope.traceId = none
    · rw [Call.perform_enters hrefusal] at hleak
      exact HoneyTokenAgent.inspectValue_free hfree.agentId h.1.traceId h.1.entered hids hprints
        (keysFree_exposed _ h.2.keys) hleak
    · exact hrefused envelope none hrefusal hleak
  | leaves envelope value =>
    by_cases hrefusal : HoneyTokenAgent.refusal w.states envelope.traceId = none
    · rw [Call.perform_leaves hrefusal] at hleak
      exact HoneyTokenAgent.inspectValue_free hfree.agentId h.1.traceId h.1.left hfree.ids
        hkept.prints h.2.keys hleak
    · exact hrefused envelope (some value) hrefusal hleak
  | externalWrite traceId value channel =>
    exact HoneyTokenAgent.inspectValue_free hfree.agentId h.1 h.2.1 hfree.ids hkept.prints h.2.2.keys hleak

/-- A clean call leaves what has been written free of the token. -/
theorem freeOf_call {agent : HoneyTokenAgent} {w : Watch} {token : Token} (hkept : Kept w)
    (hfree : FreeOf agent w token) {call : Call} (h : CleanFor w token call) :
    FreeOf agent (w.step agent (.call call)) token := by
  refine ⟨hfree.agentId, fun event hevent => ?_, fun finding hfinding => ?_, fun st' hst' => ?_⟩
  · rcases List.mem_append.1 hevent with hevent | hevent
    · exact hfree.trace event hevent
    · split at hevent
      · next e he => exact dropped_free h (typeName_free h he) event hevent
      · cases hevent
  · rcases List.mem_append.1 hfinding with hfinding | hfinding
    · exact hfree.findings finding hfinding
    · exact finding_free hkept hfree h (mem_findingOf.1 hfinding)
  · rcases perform_stems agent call w.states st' hst' with
      ⟨st, hst, hid, -⟩ | ⟨t, r, id, token', rfl, hid, -⟩
    · rw [hid]
      exact hfree.ids st hst
    · rw [hid]
      exact h

/-! ## Runs -/

/-- The records hold none of the tokens. -/
structure Tidy (agent : HoneyTokenAgent) (w : Watch) : Prop where
  kept : Kept w
  free : ∀ token ∈ w.tokens, FreeOf agent w token

theorem tidy_step {agent : HoneyTokenAgent} {w : Watch} (h : Tidy agent w) {s : Step}
    (hclean : Clean agent w s) : Tidy agent (w.step agent s) := by
  cases s with
  | call call =>
    refine ⟨kept_call agent h.kept call, fun token htoken => ?_⟩
    rcases List.mem_append.1 htoken with htoken | htoken
    · exact freeOf_call h.kept (h.free token htoken) (hclean.1 token htoken)
    · obtain ⟨hfree, hcall⟩ := hclean.2 token htoken
      exact freeOf_call h.kept hfree hcall
  | record envelope note =>
    refine ⟨⟨h.kept.tokens, h.kept.prints, h.kept.findings⟩, fun token htoken => ?_⟩
    have hfree := h.free token htoken
    refine ⟨hfree.agentId, fun event hevent => ?_, hfree.findings, hfree.ids⟩
    rcases List.mem_append.1 hevent with hevent | hevent
    · exact hfree.trace event hevent
    · rw [List.mem_singleton.1 hevent]
      exact (hclean token htoken).event note
  | register identity =>
    refine ⟨⟨h.kept.tokens, h.kept.prints, h.kept.findings⟩, fun token htoken => ?_⟩
    have hfree := h.free token htoken
    refine ⟨hfree.agentId, fun event hevent => ?_, hfree.findings, hfree.ids⟩
    rcases List.mem_append.1 hevent with hevent | hevent
    · exact hfree.trace event hevent
    · rw [List.mem_singleton.1 hevent]
      obtain ⟨hid, hname, hcapabilities⟩ := hclean token htoken
      exact registered_free hid hname hcapabilities

theorem tidy_run {agent : HoneyTokenAgent} {steps : List Step} {w : Watch} (h : Tidy agent w)
    (hclean : AllClean agent steps w) : Tidy agent (run agent steps w) := by
  induction steps generalizing w with
  | nil => exact h
  | cons s steps ih => exact ih (tidy_step h hclean.1) hclean.2

theorem tidy_fresh (agent : HoneyTokenAgent) : Tidy agent fresh :=
  ⟨⟨List.forall_mem_nil _, List.forall_mem_nil _, List.forall_mem_nil _⟩, List.forall_mem_nil _⟩

/-! ## Deliveries -/

/-- Code whose effect on the bus is that of some steps. -/
def MadeOfSteps {α : Type} (agent : HoneyTokenAgent) (m : Action Bus Raised α) : Prop :=
  ∀ w : Watch, ∃ steps, (m ⟨w.states, w.trace⟩).2 =
    ⟨(run agent steps w).states, (run agent steps w).trace⟩

theorem MadeOfSteps.bind {α β : Type} {agent : HoneyTokenAgent} {m : Action Bus Raised β}
    {f : β → Action Bus Raised α} (hm : MadeOfSteps agent m) (hf : ∀ x, MadeOfSteps agent (f x)) :
    MadeOfSteps agent (m >>= f) := by
  intro w
  obtain ⟨steps, hsteps⟩ := hm w
  rw [Action.bind_apply]
  rcases hmw : m ⟨w.states, w.trace⟩ with ⟨_ | x, b⟩ <;> rw [hmw] at hsteps
  · exact ⟨steps, hsteps⟩
  · obtain ⟨steps', hsteps'⟩ := hf x (run agent steps w)
    refine ⟨steps ++ steps', ?_⟩
    obtain rfl : b = _ := hsteps
    have hrun : run agent (steps ++ steps') w = run agent steps' (run agent steps w) :=
      List.foldl_append
    rw [hrun]
    exact hsteps'

theorem madeOfSteps_of_eq {α : Type} {agent : HoneyTokenAgent} {m : Action Bus Raised α}
    (h : ∀ b, (m b).2 = b) : MadeOfSteps agent m := fun _ => ⟨[], h _⟩

theorem madeOfSteps_record {agent : HoneyTokenAgent} (envelope : Envelope) (note : Note) :
    MadeOfSteps agent (MessageBus.record (note.event envelope).agentId (note.event envelope).event
      (note.event envelope).detail (note.event envelope).traceId) :=
  fun _ => ⟨[.record envelope note], rfl⟩

theorem madeOfSteps_guard (bus : MessageBus) (envelope : Envelope) (result : Option Value) :
    MadeOfSteps bus.guard (bus.applyBoundaryGuard envelope result) := by
  intro w
  refine ⟨[.call (guardCall envelope result)], ?_⟩
  have hcall : (guardCall envelope result).perform bus.guard w.states =
      bus.guard.boundaryGuard envelope result w.states := by
    cases result <;> rfl
  change _ = (⟨(step bus.guard w (.call (guardCall envelope result))).states,
    (step bus.guard w (.call (guardCall envelope result))).trace⟩ : Bus)
  simp only [step, hcall]
  unfold MessageBus.applyBoundaryGuard Action.handle Action.zoom
  rcases bus.guard.boundaryGuard envelope result w.states with ⟨e | u, states⟩
  · cases result <;> rfl
  · simp

theorem madeOfSteps_register (bus : MessageBus) (identity : AgentIdentity) :
    MadeOfSteps bus.guard (bus.register identity) := by
  intro w
  unfold MessageBus.register
  by_cases htaken : (bus.handlers identity.agentId).isSome = true
  · refine ⟨[], ?_⟩
    simp only [Action.bind_apply, Action.lift_apply, raiseIf, htaken, if_true]
    rfl
  · refine ⟨[.register identity], ?_⟩
    simp only [Action.bind_apply, Action.lift_apply, raiseIf, htaken, if_false, Bool.false_eq_true]
    rfl

/-- A delivery is made of steps, where its handlers are. -/
theorem madeOfSteps_deliver (bus : MessageBus)
    (hhandlers : ∀ recipient handler, bus.handlers recipient = some handler →
      ∀ envelope, MadeOfSteps bus.guard (handler envelope)) (envelope : Envelope) :
    MadeOfSteps bus.guard (bus.deliver envelope) := by
  unfold MessageBus.deliver
  split_ifs
  · exact (madeOfSteps_record envelope .loopGuard).bind fun _ => madeOfSteps_of_eq fun _ => rfl
  · refine (madeOfSteps_guard bus envelope none).bind fun _ => ?_
    split
    · exact madeOfSteps_of_eq fun _ => rfl
    · next handler hhandler =>
      refine (madeOfSteps_record envelope .deliver).bind fun _ => ?_
      refine (hhandlers _ handler hhandler envelope).bind fun result => ?_
      refine (madeOfSteps_guard bus envelope (some result)).bind fun _ => ?_
      exact (madeOfSteps_record envelope .handled).bind fun _ => madeOfSteps_of_eq fun _ => rfl

/-- The envelope carries the raw token in a string besides its canary. -/
def Carries (token : Token) (states : States) (envelope : Envelope) : Prop :=
  (∃ field ∈ [envelope.messageId, envelope.traceId, envelope.sender, envelope.recipient,
    envelope.messageType], token.text <:+: field) ∨
  ∃ e ∈ walk (HoneyTokenAgent.allowedPath states envelope) [] envelope.payload,
    token.text <:+: e.text

/-- The delivery raises a leak, whatever the handlers are. -/
def LeaksBeforeHandler (bus : MessageBus) (envelope : Envelope) (b : Bus) : Prop :=
  ∃ finding b', ∀ handlers,
    ({ bus with handlers } : MessageBus).deliver envelope b = (.error (.leak finding), b')

theorem deliver_of_leak (bus : MessageBus) {envelope : Envelope} {b : Bus} {finding : Finding}
    (hhops : envelope.hops ≤ bus.maxHops)
    (h : (bus.guard.boundaryGuard envelope none b.states).1 = .error (.leak finding)) :
    LeaksBeforeHandler bus envelope b := by
  rcases hguard : bus.guard.boundaryGuard envelope none b.states with ⟨r, states⟩
  rw [hguard] at h
  obtain rfl : r = .error (.leak finding) := h
  refine ⟨finding, { states, trace := b.trace ++ [⟨envelope.traceId, envelope.sender,
    "dropped.boundary-guard", [("stage", "envelope".toList),
      ("error_type", "HoneyTokenLeak".toList)]⟩] }, fun handlers => ?_⟩
  unfold MessageBus.deliver
  rw [if_neg (not_lt.2 hhops), Action.bind_apply]
  unfold MessageBus.applyBoundaryGuard Action.handle Action.zoom
  rw [hguard]
  rfl

/-- A raw token in a payload is found. -/
theorem boundaryGuard_leaks (agent : HoneyTokenAgent) {envelope : Envelope} {states : States}
    {st : HoneyTokenState} (hst : st ∈ states) {e : Entry}
    (herror : walkError (HoneyTokenAgent.allowedPath states envelope) [] envelope.payload = none)
    (he : e ∈ walk (HoneyTokenAgent.allowedPath states envelope) [] envelope.payload)
    (hraw : st.token.text <:+: e.text) :
    ∃ finding, (agent.boundaryGuard envelope none states).1 = .error (.leak finding) := by
  by_cases hrefusal : HoneyTokenAgent.refusal states envelope.traceId = none
  · have hinspected := HoneyTokenAgent.inspectValue_inspected agent envelope.payload envelope.traceId
      (HoneyTokenAgent.envelopeStage envelope) (HoneyTokenAgent.allowedPath states envelope)
      ((Call.enters envelope).exposed states)
    rw [← Call.perform_enters hrefusal] at hinspected
    change ∃ finding, ((Call.enters envelope).perform agent states).1 = _
    rcases hperform : (Call.enters envelope).perform agent states with ⟨r, states'⟩
    rw [hperform] at hinspected
    cases hinspected with
    | stopped _ h => exact nomatch herror.symm.trans h
    | overflow finding _ => exact ⟨finding, rfl⟩
    | leak owner finding _ _ _ => exact ⟨finding, rfl⟩
    | clean _ hclean =>
      obtain ⟨st', hst', -, htoken⟩ := (Call.enters envelope).mem_exposed hst
      refine absurd ⟨("raw", _), List.mem_cons_self, ?_⟩ (hclean (some e.path, e.text)
        (List.mem_append_left _ (List.mem_map_of_mem he)) st' hst')
      rw [htoken]
      exact hraw
  · obtain ⟨finding, hfinding⟩ := Option.ne_none_iff_exists'.1 hrefusal
    exact ⟨finding, by rw [Call.boundaryGuard_of_refusal agent none hfinding]⟩

/-- In every run whose steps are clean, no record holds a token that has been drawn; and an envelope
whose fields besides the payload hold no tracked token, whose hops are within the limit, and in whose
payload the walk raises nothing, is a leak before its handler where it carries one. -/
theorem raw_tokens_unwritten (agent : HoneyTokenAgent) (steps : List Step)
    (h : AllClean agent steps fresh) :
    (∀ token ∈ (run agent steps fresh).tokens,
      (∀ event ∈ (run agent steps fresh).trace, ∀ s ∈ event.texts, Free token s) ∧
      ∀ finding ∈ (run agent steps fresh).findings, ∀ s ∈ finding.texts, Free token s) ∧
    ∀ (bus : MessageBus) (envelope : Envelope), bus.guard = agent →
      envelope.hops ≤ bus.maxHops →
      walkError (HoneyTokenAgent.allowedPath (run agent steps fresh).states envelope) []
        envelope.payload = none →
      (∀ st ∈ (run agent steps fresh).states, Header st.token envelope ∧
        Free st.token envelope.messageId) →
      (∃ st ∈ (run agent steps fresh).states,
        Carries st.token (run agent steps fresh).states envelope) →
      LeaksBeforeHandler bus envelope
        ⟨(run agent steps fresh).states, (run agent steps fresh).trace⟩ := by
  have htidy := tidy_run (tidy_fresh agent) h
  refine ⟨fun token htoken => ⟨(htidy.free token htoken).trace, (htidy.free token htoken).findings⟩,
    fun bus envelope hguard hhops herror hheader hcarries => ?_⟩
  subst hguard
  obtain ⟨st, hst, ⟨field, hfield, hraw⟩ | ⟨e, he, hraw⟩⟩ := hcarries
  · obtain ⟨hfields, hid⟩ := hheader st hst
    have hfree : ∀ field ∈ [envelope.messageId, envelope.traceId, envelope.sender,
        envelope.recipient, envelope.messageType], Free st.token field := by
      simp only [List.forall_mem_cons]
      exact ⟨hid, hfields.traceId, hfields.sender, hfields.recipient, hfields.messageType,
        List.forall_mem_nil _⟩
    exact absurd hraw (hfree field hfield)
  · obtain ⟨finding, hleak⟩ := boundaryGuard_leaks bus.guard hst herror he hraw
    exact deliver_of_leak bus hhops hleak

/-- An envelope without a payload. -/
def plainEnvelope (sender : Str) : Envelope :=
  ⟨"message".toList, "trace".toList, sender, "coordinator".toList, "note".toList, .dict [], 1⟩

/-- A token is drawn, and a handler returns it. -/
def leakSteps : List Step :=
  [.call (.mint "trace".toList "coordinator".toList none sampleToken),
    .call (.leaves (plainEnvelope "planner".toList) (.str sampleToken.text))]

/-- The finding of this leak does not hold the token. -/
theorem leakSteps_unwritten : AllClean sampleAgent leakSteps fresh ∧
    (run sampleAgent leakSteps fresh).findings.length = 1 ∧
    ∀ finding ∈ (run sampleAgent leakSteps fresh).findings, ∀ s ∈ finding.texts,
      Free sampleToken s := by
  have hclean : AllClean sampleAgent leakSteps fresh := by
    have htrace : Free sampleToken "trace".toList := free_of_colon (by decide)
    refine ⟨⟨List.forall_mem_nil _, fun token htoken => ?_⟩,
      ⟨fun token htoken => ?_, List.forall_mem_nil _⟩, trivial⟩
    · obtain rfl := List.mem_singleton.1 htoken
      exact ⟨⟨free_of_colon (by decide), List.forall_mem_nil _, List.forall_mem_nil _,
        List.forall_mem_nil _⟩, htrace⟩
    · obtain rfl := List.mem_singleton.1 htoken
      refine ⟨⟨htrace, ?_, ?_⟩, .inl ⟨_, List.mem_singleton.2 rfl, rfl⟩, fun errorType herror => ?_⟩
      · unfold Free
        decide +kernel
      · unfold Free
        decide +kernel
      · cases herror
  refine ⟨hclean, by decide +kernel, ?_⟩
  exact ((raw_tokens_unwritten sampleAgent leakSteps hclean).1 sampleToken
    (List.mem_append_left _ (List.mem_singleton.2 rfl))).2

/-- A bus on which everyone answers. -/
def sampleBus : MessageBus := ⟨sampleAgent, 8, fun _ => some fun _ => pure .scalar⟩

/-- An envelope with the token as its sender is delivered, and the token is in the trace. -/
theorem token_as_sender_delivered : ∃ b',
    Carries sampleToken
        (MultiAgent.run sampleAgent [.mint "trace".toList "coordinator".toList none sampleToken] [])
        (plainEnvelope sampleToken.text) ∧
      sampleBus.deliver (plainEnvelope sampleToken.text)
        ⟨MultiAgent.run sampleAgent [.mint "trace".toList "coordinator".toList none sampleToken] [],
          []⟩ = (.ok .scalar, b') ∧
      ∃ event ∈ b'.trace, ∃ s ∈ event.texts, sampleToken.text <:+: s :=
  ⟨_, .inl ⟨_, List.mem_cons_of_mem _ (List.mem_cons_of_mem _ List.mem_cons_self),
    List.infix_refl _⟩, rfl, _, List.mem_cons_self, _,
    List.mem_cons_of_mem _ List.mem_cons_self, List.infix_refl _⟩

end Watch

end Bulldog.MultiAgent
