import Bulldog.Secrets.Broker

/-!
# Accounting for secrets

A grant of `m` uses should serve the first `m` reads it allows. The broker's own counters do this.
But the broker also steps a trace verifier, which knows one grant and one returned secret at most,
and raises after the counter has moved. `accounted_of_ready` says that the books are right in every
run in which the verifier is ready whenever the broker's own checks pass.
-/

namespace Bulldog.Secrets

open Bulldog.Action

variable {F : Type}

/-- The verifier's state satisfies its invariants. -/
def TraceValid (broker : SecretBroker F) : Prop :=
  broker.trace.state.validateInvariants = .ok ()

/-! ## The verifier -/

theorem emit_of_ok {event : TraceEvent} {broker : SecretBroker F} {next : BullTraceState}
    (h : broker.trace.state.applyTransition event = .ok next) :
    emit event broker =
      (.ok (), { broker with trace := ⟨next, broker.trace.events ++ [event]⟩ }) := by
  simp [emit, Action.zoom, RuntimeTraceVerifier.emit, bind_apply, Action.read, lift_apply, h,
    Action.update]

theorem emit_of_error {event : TraceEvent} {broker : SecretBroker F} {e : Exc}
    (h : broker.trace.state.applyTransition event = .error e) :
    emit event broker = (.error e, broker) := by
  simp [emit, Action.zoom, RuntimeTraceVerifier.emit, bind_apply, Action.read, lift_apply, h]

/-- `emit` changes the verifier and nothing else. -/
theorem wp_emit {event : TraceEvent} {broker : SecretBroker F}
    {Q : Unit → SecretBroker F → Prop} {E : Exc → SecretBroker F → Prop}
    (hQ : ∀ trace, Q () { broker with trace }) (hE : ∀ e, E e broker) :
    wp (emit event) Q E broker := by
  unfold wp
  rcases h : broker.trace.state.applyTransition event with e | next
  · rw [emit_of_error h]
    exact hE e
  · rw [emit_of_ok h]
    exact hQ _

theorem valid_of_applyTransition {state next : BullTraceState} {event : TraceEvent}
    (h : state.applyTransition event = .ok next) : next.validateInvariants = .ok () := by
  simp only [BullTraceState.applyTransition, bind_eq_ok] at h
  obtain ⟨_, -, _, hvalid, hnext⟩ := h
  obtain rfl := Except.ok.inj hnext
  exact hvalid

theorem traceValid_emit {event : TraceEvent} {broker : SecretBroker F} (h : TraceValid broker) :
    TraceValid (emit event broker).2 := by
  rcases heq : broker.trace.state.applyTransition event with e | next
  · rw [emit_of_error heq]
    exact h
  · rw [emit_of_ok heq]
    exact valid_of_applyTransition heq

/-- The invariants say of secrets only that none is returned without a grant. -/
theorem valid_secrets {state : BullTraceState} (returned : Bool)
    (h : state.validateInvariants = .ok ()) :
    ({ state with secretGranted := true, secretReturned := returned } :
      BullTraceState).validateInvariants = .ok () := by
  simp only [BullTraceState.validateInvariants, bind_eq_ok, raiseIf_eq_ok, exists_const] at h ⊢
  obtain ⟨h₁, h₂, h₃, h₄, h₅, h₆, h₇, h₈, -, hrest⟩ := h
  exact ⟨h₁, h₂, h₃, h₄, h₅, h₆, h₇, h₈, by simp, hrest⟩

theorem emit_grantSecret {broker : SecretBroker F} (hvalid : TraceValid broker)
    (h : broker.trace.state.secretGranted = false) : (emit .grantSecret broker).1 = .ok () := by
  have hnext : broker.trace.state.applyTransition .grantSecret =
      .ok { broker.trace.state with secretGranted := true } := by
    simp only [BullTraceState.applyTransition, BullTraceState.transition, h, Bool.not_false]
    rw [valid_secrets _ hvalid]
    rfl
  rw [emit_of_ok hnext]

theorem emit_returnSecret {broker : SecretBroker F} (hvalid : TraceValid broker)
    (hgranted : broker.trace.state.secretGranted = true)
    (hreturned : broker.trace.state.secretReturned = false) :
    (emit .returnSecret broker).1 = .ok () := by
  have hnext : broker.trace.state.applyTransition .returnSecret =
      .ok { broker.trace.state with secretReturned := true } := by
    have hvalid' := valid_secrets true hvalid
    simp only [BullTraceState.applyTransition, BullTraceState.transition, hgranted, hreturned,
      Bool.not_false, Bool.and_true]
    rw [hvalid']
    rfl
  rw [emit_of_ok hnext]

/-! ## One grant -/

/-- The grant has uses left after `n`. -/
def SecretGrant.hasUses (grant : SecretGrant F) (n : ℕ) : Bool :=
  grant.maxUses.all fun m => decide ((n : ℤ) < m)

/-- The uses counted after `n` eligible accesses. -/
def SecretGrant.counted (grant : SecretGrant F) (n : ℕ) : ℕ :=
  match grant.maxUses with
  | none => n
  | some m => min n m.toNat

theorem counted_succ (grant : SecretGrant F) (n : ℕ) :
    grant.counted (n + 1) =
      if grant.hasUses (grant.counted n) then grant.counted n + 1 else grant.counted n := by
  unfold SecretGrant.counted SecretGrant.hasUses
  rcases grant.maxUses with _ | m
  · rfl
  · simp only [Option.all_some, decide_eq_true_eq]
    split_ifs <;> omega

theorem counted_zero (grant : SecretGrant F) : grant.counted 0 = 0 := by
  unfold SecretGrant.counted
  rcases grant.maxUses with _ | m
  · rfl
  · exact Nat.zero_min _

theorem hasUses_counted (grant : SecretGrant F) (n : ℕ) :
    grant.hasUses (grant.counted n) = grant.hasUses n := by
  unfold SecretGrant.counted SecretGrant.hasUses
  rcases grant.maxUses with _ | m
  · rfl
  · simp only [Option.all_some, decide_eq_decide]
    omega

/-- The broker holds this grant, with this many uses counted. -/
structure Holds (grant : SecretGrant F) (uses : ℕ) (broker : SecretBroker F) : Prop where
  stored : broker.grants.lookup grant.token = some grant
  counter : broker.grantUses.lookup grant.token = some uses
  secrets : ∀ name ∈ grant.allowedNames, name ∈ broker.secrets

/-- Every stored token is ASCII. -/
def AsciiTokens (broker : SecretBroker F) : Prop := ∀ token ∈ broker.grants, isAscii token = true

theorem findGrant_eq {token : Str} (htoken : isAscii token = true)
    {entries : List (Sigma fun _ : Str => SecretGrant F)}
    (h : ∀ entry ∈ entries, isAscii entry.1 = true) :
    findGrant token entries = .ok (entries.dlookup token) := by
  induction entries with
  | nil => rfl
  | cons entry entries ih =>
    obtain ⟨stored, grant⟩ := entry
    have hstored : isAscii stored = true := h _ List.mem_cons_self
    rw [findGrant, hstored, htoken, Bool.and_true, Bool.not_true, if_neg Bool.false_ne_true]
    by_cases heq : stored = token
    · subst heq
      rw [if_pos rfl, List.dlookup_cons_eq]
    · rw [if_neg heq, ih fun e he => h e (List.mem_cons_of_mem _ he),
        List.dlookup_cons_ne _ _ (Ne.symm heq)]

theorem findGrant_of_ascii {broker : SecretBroker F} (h : AsciiTokens broker) {token : Str}
    (htoken : isAscii token = true) :
    findGrant token broker.grants.entries = .ok (broker.grants.lookup token) :=
  findGrant_eq htoken fun entry hentry => h entry.1 (List.mem_keys_of_mem hentry)

/-- What the checks of an access say. -/
theorem checkAccess_eq_ok {access : Access F} {grant : SecretGrant F} {uses : ℕ} {u : Unit} :
    checkAccess access grant uses = .ok u ↔
      (grant.sandboxId = none ∨ access.sandboxId = grant.sandboxId) ∧
        access.name ∈ grant.allowedNames ∧ grant.hasUses uses = true := by
  simp only [checkAccess, bind_eq_ok, raiseIf_eq_ok, exists_const, not_not, not_and_or, ne_eq,
    SecretGrant.hasUses]
  refine and_congr_right fun _ => and_congr_right fun _ => ?_
  rcases grant.maxUses with _ | m <;> simp

/-- The broker after it has counted a use. -/
def counting (token : Str) (broker : SecretBroker F) : SecretBroker F :=
  { broker with grantUses := broker.grantUses.insert token (usesOf token broker + 1) }

theorem serve_of_ok {access : Access F} {grant : SecretGrant F} {broker : SecretBroker F}
    {value : Str} (h : checkAccess access grant (usesOf access.token broker) = .ok ())
    (hvalue : broker.secrets.lookup access.name = some value) :
    serve access grant broker = ((emit .returnSecret (counting access.token broker)).1.map
      fun _ => value, (emit .returnSecret (counting access.token broker)).2) := by
  simp only [serve, counting, bind_apply, Action.read, lift_apply, h, hvalue, orRaise,
    Action.update]
  rcases emit .returnSecret { broker with
    grantUses := broker.grantUses.insert access.token (usesOf access.token broker + 1) } with
    ⟨_ | _, b⟩ <;> rfl

theorem Holds.emit {grant : SecretGrant F} {uses : ℕ} {broker : SecretBroker F}
    (h : Holds grant uses broker) (event : TraceEvent) :
    Holds grant uses (emit event broker).2 := by
  rcases heq : broker.trace.state.applyTransition event with e | next
  · rw [emit_of_error heq]
    exact h
  · rw [emit_of_ok heq]
    exact ⟨h.stored, h.counter, h.secrets⟩

theorem Holds.counting {grant : SecretGrant F} {uses : ℕ} {broker : SecretBroker F}
    (h : Holds grant uses broker) : Holds grant (uses + 1) (counting grant.token broker) where
  stored := h.stored
  counter := by
    rw [Secrets.counting, usesOf, h.counter]
    exact AList.lookup_insert _
  secrets := h.secrets

theorem serve_of_error {access : Access F} {grant : SecretGrant F} {broker : SecretBroker F}
    {e : Exc} (h : checkAccess access grant (usesOf access.token broker) = .error e) :
    serve access grant broker = (.error e, broker) := by
  simp only [serve, bind_apply, Action.read, lift_apply, h]

/-- A change that concerns one token only, and no secret. The token is a new one where a grant is
`issued`. -/
structure OnlyToken (issued : Prop) (token : Str) (broker broker' : SecretBroker F) : Prop where
  grants : ∀ other ≠ token, broker'.grants.lookup other = broker.grants.lookup other
  uses : ∀ other ≠ token, broker'.grantUses.lookup other = broker.grantUses.lookup other
  secrets : broker'.secrets = broker.secrets
  new : token ∈ broker'.grants → token ∈ broker.grants ∨ issued

theorem OnlyToken.rfl {issued : Prop} {token : Str} {broker : SecretBroker F} :
    OnlyToken issued token broker broker :=
  ⟨fun _ _ => .refl _, fun _ _ => .refl _, .refl _, .inl⟩

theorem OnlyToken.withTrace {issued : Prop} {token : Str} {broker broker' : SecretBroker F}
    (h : OnlyToken issued token broker broker') (trace : RuntimeTraceVerifier) :
    OnlyToken issued token broker { broker' with trace } := ⟨h.grants, h.uses, h.secrets, h.new⟩

theorem onlyToken_counting {issued : Prop} (token : Str) (broker : SecretBroker F) :
    OnlyToken issued token broker (counting token broker) :=
  ⟨fun _ _ => rfl, fun _ hne => AList.lookup_insert_ne hne, rfl, .inl⟩

/-- The broker without a grant. -/
def erasing (token : Str) (broker : SecretBroker F) : SecretBroker F :=
  { broker with
    grants := broker.grants.erase token
    grantUses := broker.grantUses.erase token }

theorem onlyToken_erasing {issued : Prop} (token : Str) (broker : SecretBroker F) :
    OnlyToken issued token broker (erasing token broker) :=
  ⟨fun _ hne => AList.lookup_erase_ne hne, fun _ hne => AList.lookup_erase_ne hne, rfl,
    fun h => .inl (AList.mem_erase.1 h).2⟩

theorem onlyToken_serve {issued : Prop} (access : Access F) (grant : SecretGrant F)
    (broker : SecretBroker F) :
    OnlyToken issued access.token broker (serve access grant broker).2 := by
  rw [← wp_state (P := OnlyToken issued access.token broker)]
  unfold serve
  rw [wp_bind, wp_read, wp_bind]
  refine wp_lift_intro (fun _ _ => ?_) fun _ => .rfl
  rw [wp_bind]
  refine wp_lift_intro (fun _ _ => ?_) fun _ => .rfl
  rw [wp_bind, wp_update, wp_bind]
  have h : OnlyToken issued access.token broker _ := onlyToken_counting access.token broker
  exact wp_emit (fun trace => h.withTrace trace) fun _ => h

theorem onlyToken_revoke {issued : Prop} (token : Str) (audit : Except Exc Unit)
    (broker : SecretBroker F) : OnlyToken issued token broker (revoke token audit broker).2 := by
  have h : (revoke token audit broker).2 = erasing token broker := by
    rcases audit with _ | _ <;> rfl
  rw [h]
  exact onlyToken_erasing token broker

/-- The reply of a call, and what it leaves behind. -/
theorem reply_apply {α β : Type} (m : Action (SecretBroker F) Exc α) (f : α → β)
    (broker : SecretBroker F) :
    (m >>= fun a => pure (f a)) broker = ((m broker).1.map f, (m broker).2) := by
  rw [bind_apply]
  rcases m broker with ⟨_ | a, b⟩ <;> rfl

/-- The token that a call is about. -/
def Call.token : Call F → Option Str
  | .issueGrant issue => some issue.token
  | .revoke token _ => some token
  | .get access => some access.token
  | _ => none

/-- The token that a call issues a grant under. -/
def Call.issued : Call F → Option Str
  | .issueGrant issue => some issue.token
  | _ => none

/-- What a call can do. -/
inductive Effect (call : Call F) (broker broker' : SecretBroker F) : Prop where
  | token (token : Str) (htoken : call.token = some token)
      (h : OnlyToken (call.issued = some token) token broker broker')
  | other (htoken : call.token = none) (hgrants : broker'.grants = broker.grants)
      (huses : broker'.grantUses = broker.grantUses)
      (hsecrets : ∀ name ∈ broker.secrets, name ∈ broker'.secrets)

theorem Effect.holds {call : Call F} {broker broker' : SecretBroker F} {grant : SecretGrant F}
    {uses : ℕ} (h : Effect call broker broker') (htoken : call.token ≠ some grant.token)
    (hholds : Holds grant uses broker) : Holds grant uses broker' := by
  rcases h with ⟨token, hcall, h⟩ | ⟨-, hgrants, huses, hsecrets⟩
  · have hne : grant.token ≠ token := fun heq => htoken (heq ▸ hcall)
    exact ⟨(h.grants _ hne).trans hholds.stored, (h.uses _ hne).trans hholds.counter,
      fun name hname => h.secrets ▸ hholds.secrets name hname⟩
  · exact ⟨hgrants ▸ hholds.stored, huses ▸ hholds.counter,
      fun name hname => hsecrets name (hholds.secrets name hname)⟩

/-- Only issuing a grant brings a token into the broker. -/
theorem Effect.mem {call : Call F} {broker broker' : SecretBroker F}
    (h : Effect call broker broker') {token : Str} (hmem : token ∈ broker'.grants) :
    token ∈ broker.grants ∨ call.issued = some token := by
  rcases h with ⟨token', -, h⟩ | ⟨-, hgrants, -, -⟩
  · by_cases hne : token = token'
    · subst hne
      exact h.new hmem
    · rw [← AList.lookup_isSome, h.grants token hne, AList.lookup_isSome] at hmem
      exact .inl hmem
  · exact .inl (hgrants ▸ hmem)

theorem serve_traceValid (access : Access F) (grant : SecretGrant F) {broker : SecretBroker F}
    (h : TraceValid broker) : TraceValid (serve access grant broker).2 := by
  rw [← wp_state (P := TraceValid)]
  unfold serve
  rw [wp_bind, wp_read, wp_bind]
  refine wp_lift_intro (fun _ _ => ?_) fun _ => h
  rw [wp_bind]
  refine wp_lift_intro (fun _ _ => ?_) fun _ => h
  rw [wp_bind, wp_update, wp_bind]
  exact wp_state.2 (traceValid_emit h)

/-- The tokens are ASCII and the verifier is in its invariants. -/
structure Sound (broker : SecretBroker F) : Prop where
  ascii : AsciiTokens broker
  trace : TraceValid broker

theorem sound_created (parentHasCapability : Bool) : Sound (created parentHasCapability : SecretBroker F)
    where
  ascii token hmem := (AList.notMem_empty token hmem).elim
  trace := by cases parentHasCapability <;> rfl

section Issue

variable [Add F] [LE F] [DecidableLE F] [Zero F]

/-- The broker after it has stored a grant. -/
def storing (issue : Issue F) (broker : SecretBroker F) : SecretBroker F :=
  { broker with
    grants := broker.grants.insert issue.token issue.grant
    grantUses := broker.grantUses.insert issue.token 0 }

theorem onlyToken_issue {issued : Prop} (hissued : issued) (issue : Issue F)
    (broker : SecretBroker F) : OnlyToken issued issue.token broker (issueGrant issue broker).2 := by
  have h : OnlyToken issued issue.token broker (storing issue broker) :=
    ⟨fun _ hne => AList.lookup_insert_ne hne, fun _ hne => AList.lookup_insert_ne hne, rfl,
      fun _ => .inr hissued⟩
  rw [← wp_state (P := OnlyToken issued issue.token broker)]
  unfold issueGrant
  rw [wp_bind, wp_read, wp_bind]
  refine wp_lift_intro (fun _ _ => ?_) fun _ => .rfl
  rw [wp_bind, wp_update, wp_bind]
  refine wp_emit (fun trace => ?_) fun _ => h
  rw [wp_bind]
  exact wp_lift_intro (fun _ _ => h.withTrace trace) fun _ => h.withTrace trace

/-- A request that passes its checks is stored, and then the verifier decides. -/
theorem issueGrant_of_ok {issue : Issue F} {broker : SecretBroker F}
    (h : checkRequest issue.toGrantRequest broker = .ok ()) :
    issueGrant issue broker = ((do emit .grantSecret; issue.audit; return issue.grant :
      Action (SecretBroker F) Exc (SecretGrant F)) (storing issue broker)) := by
  simp only [issueGrant, bind_apply, Action.read, lift_apply, h, Action.update, storing]

end Issue

section Clock

variable [LT F] [DecidableLT F]

/-- An access to this grant past its expiry. -/
def Access.late (grant : SecretGrant F) (access : Access F) : Bool :=
  access.token = grant.token && grant.expiresAt < access.now

/-- An access with the token of this grant, before its expiry, with a matching sandbox id and a
granted name. -/
def Access.eligible (grant : SecretGrant F) (access : Access F) : Bool :=
  access.token = grant.token && !(decide (grant.expiresAt < access.now)) &&
    (grant.sandboxId = none || access.sandboxId = grant.sandboxId) &&
    access.name ∈ grant.allowedNames

theorem onlyToken_get {issued : Prop} (access : Access F) (broker : SecretBroker F) :
    OnlyToken issued access.token broker (authorizeAndGet access broker).2 := by
  rw [← wp_state (P := OnlyToken issued access.token broker)]
  unfold authorizeAndGet
  rw [wp_bind, wp_read, wp_bind]
  refine wp_lift_intro (fun found _ => ?_) fun _ => .rfl
  rcases found with _ | grant
  · exact .rfl
  · dsimp only
    split_ifs
    · exact onlyToken_erasing access.token broker
    · exact wp_state.2 (onlyToken_serve access grant broker)

variable {broker : SecretBroker F} {grant : SecretGrant F} {access : Access F} {uses : ℕ}

theorem get_of_lookup (hascii : AsciiTokens broker) (htoken : isAscii access.token = true)
    (h : broker.grants.lookup access.token = some grant) :
    authorizeAndGet access broker =
      if grant.expiresAt < access.now then expire access.token broker
      else serve access grant broker := by
  simp only [authorizeAndGet, bind_apply, Action.read, lift_apply, findGrant_of_ascii hascii htoken,
    h]
  split_ifs <;> rfl

/-- A grant that is gone serves nothing. -/
theorem get_of_gone (hascii : AsciiTokens broker) (htoken : isAscii access.token = true)
    (h : broker.grants.lookup access.token = none) :
    authorizeAndGet access broker = (.error (secretBrokerError "invalid secret grant"), broker) := by
  simp only [authorizeAndGet, bind_apply, Action.read, lift_apply, findGrant_of_ascii hascii htoken,
    h]
  rfl

/-- The checks on an access that is not late are those of eligibility and of the count. -/
theorem checkAccess_iff (htoken : access.token = grant.token)
    (hlate : access.late grant = false) {n : ℕ} :
    checkAccess access grant n = .ok () ↔
      access.eligible grant = true ∧ grant.hasUses n = true := by
  have hnow : ¬ grant.expiresAt < access.now := by simpa [Access.late, htoken] using hlate
  rw [checkAccess_eq_ok]
  simp [Access.eligible, htoken, hnow, and_assoc]

/-! ## Calls -/

variable [Add F] [LE F] [DecidableLE F] [Zero F]

theorem perform_effect (call : Call F) (broker : SecretBroker F) :
    Effect call broker (perform call broker).2 := by
  cases call with
  | putSecret name value =>
    rw [perform, reply_apply]
    refine .other rfl ?_ ?_ ?_
    all_goals
      unfold putSecret raiseIf
      split_ifs
    · rfl
    · rfl
    · rfl
    · rfl
    · exact fun _ h => h
    · exact fun _ h => (AList.mem_insert _).2 (.inr h)
  | issueGrant issue =>
    rw [perform, reply_apply]
    exact .token issue.token rfl (onlyToken_issue rfl issue broker)
  | revoke token audit =>
    rw [perform, reply_apply]
    exact .token token rfl (onlyToken_revoke token audit broker)
  | get access =>
    rw [perform, reply_apply]
    exact .token access.token rfl (onlyToken_get access broker)
  | emit event =>
    rw [perform, reply_apply]
    rcases h : broker.trace.state.applyTransition event with e | next
    · rw [emit_of_error h]
      exact .other rfl rfl rfl fun _ h => h
    · rw [emit_of_ok h]
      exact .other rfl rfl rfl fun _ h => h
  | reset parentHasCapability => exact .other rfl rfl rfl fun _ h => h

/-- No call takes the verifier out of its invariants. -/
theorem perform_traceValid (call : Call F) (h : TraceValid broker) :
    TraceValid (perform call broker).2 := by
  cases call with
  | putSecret name value =>
    rw [perform, reply_apply]
    unfold putSecret raiseIf
    split_ifs
    · exact h
    · exact h
  | issueGrant issue =>
    rw [perform, reply_apply, ← wp_state (P := TraceValid)]
    unfold issueGrant
    rw [wp_bind, wp_read, wp_bind]
    refine wp_lift_intro (fun _ _ => ?_) fun _ => h
    rw [wp_bind, wp_update, wp_bind]
    have hstoring : TraceValid (storing issue broker) := h
    refine wp_mono (wp_state.2 (traceValid_emit hstoring)) (fun _ b hb => ?_) fun _ _ hb => hb
    rw [wp_bind]
    exact wp_lift_intro (fun _ _ => hb) fun _ => hb
  | revoke token audit =>
    rw [perform, reply_apply]
    rcases audit with _ | _ <;> exact h
  | get access =>
    rw [perform, reply_apply, ← wp_state (P := TraceValid)]
    unfold authorizeAndGet
    rw [wp_bind, wp_read, wp_bind]
    refine wp_lift_intro (fun found _ => ?_) fun _ => h
    rcases found with _ | grant
    · exact h
    · dsimp only
      split_ifs
      · exact h
      · exact wp_state.2 (serve_traceValid access grant h)
  | emit event =>
    rw [perform, reply_apply]
    exact traceValid_emit h
  | reset parentHasCapability => cases parentHasCapability <;> rfl

/-! ## Runs -/

/-- The call is an access to this grant past its expiry. -/
def Call.late (grant : SecretGrant F) : Call F → Bool
  | .get access => access.late grant
  | _ => false

/-- The call is an eligible access to this grant. -/
def Call.eligible (grant : SecretGrant F) : Call F → Bool
  | .get access => access.eligible grant
  | _ => false

/-- The call revokes this token. -/
def Call.revokes (token : Str) : Call F → Bool
  | .revoke token' _ => token' = token
  | _ => false

/-- The books of a grant after a call that neither issues nor revokes its token. -/
theorem perform_books {n : ℕ} (hascii : AsciiTokens broker) (htoken : isAscii grant.token = true)
    (h : Holds grant (grant.counted n) broker) (call : Call F)
    (hissued : call.issued ≠ some grant.token) (hrevokes : call.revokes grant.token = false) :
    (call.late grant = true ∧ (perform call broker).2.grants.lookup grant.token = none) ∨
      (call.late grant = false ∧
        Holds grant (grant.counted (if call.eligible grant then n + 1 else n))
          (perform call broker).2) := by
  by_cases hown : call.token = some grant.token
  · cases call with
    | get access =>
      have haccess : access.token = grant.token := Option.some.inj hown
      have hget := get_of_lookup hascii (haccess ▸ htoken) (haccess ▸ h.stored)
      rw [perform, reply_apply, hget]
      by_cases hlate : access.late grant = true
      · have hnow : grant.expiresAt < access.now := by
          simpa [Access.late, haccess] using hlate
        refine .inl ⟨hlate, ?_⟩
        rw [if_pos hnow, ← haccess]
        exact AList.lookup_erase _ _
      · rw [Bool.not_eq_true] at hlate
        have hnow : ¬ grant.expiresAt < access.now := by
          simpa [Access.late, haccess] using hlate
        refine .inr ⟨hlate, ?_⟩
        rw [if_neg hnow]
        have huses : usesOf access.token broker = grant.counted n := by
          rw [usesOf, haccess, h.counter]
          rfl
        rcases hcheck : checkAccess access grant (usesOf access.token broker) with e | u
        · -- a refusal counts no use
          rw [serve_of_error hcheck]
          have hrefused : ¬ (access.eligible grant = true ∧
              grant.hasUses (grant.counted n) = true) := by
            rw [← checkAccess_iff haccess hlate, ← huses, hcheck]
            nofun
          have hsame : grant.counted (if access.eligible grant then n + 1 else n) =
              grant.counted n := by
            split_ifs with heligible
            · rw [counted_succ, if_neg fun huses' => hrefused ⟨heligible, huses'⟩]
            · rfl
          exact hsame ▸ h
        · -- a use is counted, whatever the verifier says
          rw [huses, checkAccess_iff haccess hlate] at hcheck
          obtain ⟨heligible, hleft⟩ := hcheck
          have hname : access.name ∈ grant.allowedNames := by
            simp only [Access.eligible, Bool.and_eq_true, decide_eq_true_eq] at heligible
            exact heligible.2
          obtain ⟨value, hvalue⟩ := Option.isSome_iff_exists.1
            (AList.lookup_isSome.2 (h.secrets _ hname))
          rw [serve_of_ok (huses ▸ (checkAccess_iff haccess hlate).2 ⟨heligible, hleft⟩) hvalue,
            Call.eligible, heligible, if_pos rfl, counted_succ, if_pos hleft, haccess]
          exact h.counting.emit _
    | issueGrant issue => exact (hissued hown).elim
    | revoke token audit =>
      have hrevoked : token = grant.token := Option.some.inj hown
      simp [Call.revokes, hrevoked] at hrevokes
    | _ => cases hown
  · refine .inr ?_
    have hother : call.late grant = false ∧ call.eligible grant = false := by
      cases call with
      | get access =>
        have hne : access.token ≠ grant.token := fun heq => hown (congrArg some heq)
        simp [Call.late, Access.late, Call.eligible, Access.eligible, hne]
      | _ => exact ⟨rfl, rfl⟩
    rw [hother.2]
    exact ⟨hother.1, (perform_effect call broker).holds hown h⟩

theorem run_append (broker : SecretBroker F) (xs ys : List (Call F)) :
    run broker (xs ++ ys) = run (run broker xs) ys := by
  induction xs generalizing broker with
  | nil => rfl
  | cons call xs ih => exact ih _

theorem Sound.perform (h : Sound broker) {call : Call F}
    (hcall : ∀ token, call.issued = some token → isAscii token = true) :
    Sound (perform call broker).2 where
  ascii token hmem := ((perform_effect call broker).mem hmem).elim (h.ascii token) (hcall token)
  trace := perform_traceValid call h.trace

theorem Sound.run (h : Sound broker) {calls : List (Call F)}
    (hcalls : ∀ call ∈ calls, ∀ token, call.issued = some token → isAscii token = true) :
    Sound (run broker calls) := by
  induction calls generalizing broker with
  | nil => exact h
  | cons call calls ih =>
    exact ih (h.perform (hcalls call List.mem_cons_self)) fun c hc =>
      hcalls c (List.mem_cons_of_mem _ hc)

theorem run_gone {token : Str} (h : broker.grants.lookup token = none) {calls : List (Call F)}
    (hissued : ∀ call ∈ calls, call.issued ≠ some token) :
    (run broker calls).grants.lookup token = none := by
  induction calls generalizing broker with
  | nil => exact h
  | cons call calls ih =>
    refine ih ?_ fun c hc => hissued c (List.mem_cons_of_mem _ hc)
    rw [AList.lookup_eq_none] at h ⊢
    intro hmem
    exact ((perform_effect call broker).mem hmem).elim h (hissued call List.mem_cons_self)

/-- The books of a grant after calls that neither issue nor revoke its token. -/
theorem run_books {n : ℕ} {calls : List (Call F)} (hsound : Sound broker)
    (htoken : isAscii grant.token = true) (h : Holds grant (grant.counted n) broker)
    (hascii : ∀ call ∈ calls, ∀ token, call.issued = some token → isAscii token = true)
    (hissued : ∀ call ∈ calls, call.issued ≠ some grant.token)
    (hrevokes : ∀ call ∈ calls, call.revokes grant.token = false) :
    (calls.any (Call.late grant) = true ∧ (run broker calls).grants.lookup grant.token = none) ∨
      (calls.any (Call.late grant) = false ∧
        Holds grant (grant.counted (n + calls.countP (Call.eligible grant)))
          (run broker calls)) := by
  induction calls generalizing broker n with
  | nil => exact .inr ⟨rfl, h⟩
  | cons call calls ih =>
    have hrest {P : Call F → Prop} (hP : ∀ c ∈ call :: calls, P c) : ∀ c ∈ calls, P c :=
      fun c hc => hP c (List.mem_cons_of_mem _ hc)
    have hsound' := hsound.perform (hascii call List.mem_cons_self)
    rw [List.any_cons, List.countP_cons]
    rcases perform_books hsound.ascii htoken h call (hissued call List.mem_cons_self)
      (hrevokes call List.mem_cons_self) with ⟨hlate, hgone⟩ | ⟨hlate, hholds⟩
    · rw [hlate, Bool.true_or]
      exact .inl ⟨rfl, run_gone hgone (hrest hissued)⟩
    · rw [hlate, Bool.false_or]
      have hcount : n + (calls.countP (Call.eligible grant) + if call.eligible grant then 1 else 0) =
          (if call.eligible grant then n + 1 else n) + calls.countP (Call.eligible grant) := by
        split_ifs <;> omega
      rw [hcount]
      exact ih hsound' hholds (hrest hascii) (hrest hissued) (hrest hrevokes)

/-! ## The books -/

/-- The broker's own checks let an access through. -/
def Admitted (broker : SecretBroker F) (access : Access F) : Prop :=
  ∃ grant, findGrant access.token broker.grants.entries = .ok (some grant) ∧
    ¬ grant.expiresAt < access.now ∧
    checkAccess access grant (usesOf access.token broker) = .ok () ∧ access.name ∈ broker.secrets

/-- The verifier is ready for a call that the broker's own checks let through: it knows of no grant
when one is issued, and of a grant and no returned secret when a secret is read. -/
def Ready (broker : SecretBroker F) : Call F → Prop
  | .issueGrant issue => checkRequest issue.toGrantRequest broker = .ok () →
      broker.trace.state.secretGranted = false
  | .get access => Admitted broker access →
      broker.trace.state.secretGranted = true ∧ broker.trace.state.secretReturned = false
  | _ => True

/-- The verifier is ready for every call of a run. -/
def AllReady (broker : SecretBroker F) : List (Call F) → Prop
  | [] => True
  | call :: calls => Ready broker call ∧ AllReady (perform call broker).2 calls

theorem AllReady.ready {pre post : List (Call F)} {call : Call F}
    (h : AllReady broker (pre ++ call :: post)) : Ready (run broker pre) call := by
  induction pre generalizing broker with
  | nil => exact h.1
  | cons c pre ih => exact ih h.2

/-- `token_urlsafe` gives ASCII texts, and never the same one twice. -/
structure FreshTokens (calls : List (Call F)) : Prop where
  ascii : ∀ call ∈ calls, ∀ token, call.issued = some token → isAscii token = true
  distinct : (calls.filterMap Call.issued).Nodup

/-- Every request that passes its checks gets its grant, and a grant that is not revoked serves the
eligible accesses while it has uses left after the eligible ones before, and nothing else. -/
structure Accounted (broker : SecretBroker F) (calls : List (Call F)) : Prop where
  issues : ∀ pre issue post, calls = pre ++ .issueGrant issue :: post →
    checkRequest issue.toGrantRequest (run broker pre) = .ok () →
    (perform (.issueGrant issue) (run broker pre)).1 = .ok (.grant issue.grant)
  reads : ∀ pre issue mid access post,
    calls = pre ++ .issueGrant issue :: (mid ++ .get access :: post) →
    checkRequest issue.toGrantRequest (run broker pre) = .ok () →
    access.token = issue.token → (∀ call ∈ mid, call.revokes issue.token = false) →
    ∀ value,
      (perform (.get access) (run broker (pre ++ .issueGrant issue :: mid))).1 = .ok (.value value) ↔
        access.eligible issue.grant = true ∧ mid.any (Call.late issue.grant) = false ∧
          issue.grant.hasUses (mid.countP (Call.eligible issue.grant)) = true ∧
          (run broker (pre ++ .issueGrant issue :: mid)).secrets.lookup access.name = some value

/-- A request that passes its checks is in the books. -/
theorem holds_issue {issue : Issue F} (h : checkRequest issue.toGrantRequest broker = .ok ()) :
    Holds issue.grant 0 (perform (.issueGrant issue) broker).2 := by
  have hstored : Holds issue.grant 0 (storing issue broker) := by
    refine ⟨AList.lookup_insert _, AList.lookup_insert _, fun name hname => ?_⟩
    simp only [checkRequest, bind_eq_ok, raiseIf_eq_ok, exists_const, not_not] at h
    by_contra hunknown
    exact Finset.notMem_empty name (h.2.2 ▸ Finset.mem_filter.2 ⟨hname, hunknown⟩)
  rw [perform, reply_apply, issueGrant_of_ok h, ← wp_state (P := Holds issue.grant 0)]
  rw [wp_bind]
  refine wp_mono (wp_state.2 (hstored.emit .grantSecret)) (fun _ b hb => ?_) fun _ _ hb => hb
  rw [wp_bind]
  exact wp_lift_intro (fun _ _ => hb) fun _ => hb

/-- A request that passes its checks gets its grant, where the verifier knows of none. -/
theorem issue_of_ready {issue : Issue F} (hvalid : TraceValid broker) (haudit : issue.audit = .ok ())
    (hready : Ready broker (.issueGrant issue))
    (h : checkRequest issue.toGrantRequest broker = .ok ()) :
    (perform (.issueGrant issue) broker).1 = .ok (.grant issue.grant) := by
  have hstoring : TraceValid (storing issue broker) := hvalid
  have hemit : (emit .grantSecret (storing issue broker)).1 = .ok () :=
    emit_grantSecret hstoring (hready h)
  rw [perform, reply_apply, issueGrant_of_ok h, bind_apply]
  rcases hresult : emit .grantSecret (storing issue broker) with ⟨result, b⟩
  rw [hresult] at hemit
  obtain rfl : result = .ok () := hemit
  rw [haudit]
  rfl

theorem reply_of_gone (hsound : Sound broker) (htoken : isAscii access.token = true)
    (h : broker.grants.lookup access.token = none) :
    (perform (.get access) broker).1 = .error (secretBrokerError "invalid secret grant") := by
  rw [perform, reply_apply, get_of_gone hsound.ascii htoken h]
  rfl

/-- What an access to a grant in the books returns, where the verifier is ready. -/
theorem get_of_ready {n : ℕ} (hsound : Sound broker) (htoken : isAscii grant.token = true)
    (hready : Ready broker (.get access)) (haccess : access.token = grant.token)
    (h : Holds grant (grant.counted n) broker) (value : Str) :
    (perform (.get access) broker).1 = .ok (.value value) ↔
      access.eligible grant = true ∧ grant.hasUses n = true ∧
        broker.secrets.lookup access.name = some value := by
  have huses : usesOf access.token broker = grant.counted n := by
    rw [usesOf, haccess, h.counter]
    rfl
  have hascii : isAscii access.token = true := haccess ▸ htoken
  have hlookup : broker.grants.lookup access.token = some grant := haccess ▸ h.stored
  rw [perform, reply_apply, get_of_lookup hsound.ascii hascii hlookup]
  by_cases hnow : grant.expiresAt < access.now
  · have hlate : access.eligible grant = false := by simp [Access.eligible, hnow]
    rw [if_pos hnow, hlate]
    simp [expire, bind_apply, Action.update, Action.raise, Except.map]
  · have hlate : access.late grant = false := by simp [Access.late, hnow]
    rw [if_neg hnow]
    have hcheck := checkAccess_iff haccess hlate (n := grant.counted n)
    rw [hasUses_counted, ← huses] at hcheck
    rcases hresult : checkAccess access grant (usesOf access.token broker) with e | u
    · rw [serve_of_error hresult]
      rw [hresult] at hcheck
      simp only [Except.map, reduceCtorEq, false_iff]
      rintro ⟨heligible, hleft, -⟩
      cases hcheck.2 ⟨heligible, hleft⟩
    · obtain ⟨heligible, hleft⟩ := hcheck.1 hresult
      have hname : access.name ∈ grant.allowedNames := by
        simp only [Access.eligible, Bool.and_eq_true, decide_eq_true_eq] at heligible
        exact heligible.2
      have hmem : access.name ∈ broker.secrets := h.secrets _ hname
      obtain ⟨stored, hstored⟩ := Option.isSome_iff_exists.1 (AList.lookup_isSome.2 hmem)
      have htrace := hready ⟨grant, (findGrant_of_ascii hsound.ascii hascii).trans
        (congrArg Except.ok hlookup), hnow, hresult, hmem⟩
      have hcounting : TraceValid (counting access.token broker) := hsound.trace
      have hemit : (emit .returnSecret (counting access.token broker)).1 = .ok () :=
        emit_returnSecret hcounting htrace.1 htrace.2
      rw [serve_of_ok hresult hstored, hemit, hstored]
      simp [Except.map, heligible, hleft]

/-- The books are right in every run in which the verifier is ready whenever the broker's own checks
pass. -/
theorem accounted_of_ready (parentHasCapability : Bool) (calls : List (Call F))
    (htokens : FreshTokens calls)
    (haudit : ∀ issue, .issueGrant issue ∈ calls → issue.audit = .ok ())
    (hready : AllReady (created parentHasCapability) calls) :
    Accounted (created parentHasCapability) calls where
  issues pre issue post hcalls hchecks := by
    subst hcalls
    have hsound := (sound_created (F := F) parentHasCapability).run fun c hc =>
      htokens.ascii c (List.mem_append_left _ hc)
    exact issue_of_ready hsound.trace (haudit issue (by simp)) hready.ready hchecks
  reads pre issue mid access post hcalls hchecks haccess hrevokes value := by
    subst hcalls
    have hpre := (sound_created (F := F) parentHasCapability).run fun c hc =>
      htokens.ascii c (List.mem_append_left _ hc)
    have htoken : isAscii issue.token = true :=
      htokens.ascii (.issueGrant issue) (by simp) issue.token rfl
    have hascii : ∀ call ∈ mid, ∀ token, call.issued = some token → isAscii token = true :=
      fun c hc => htokens.ascii c (by simp [hc])
    -- no other call issues a grant under this token
    have hissued : ∀ call ∈ mid, call.issued ≠ some issue.token := by
      intro c hc heq
      have hdistinct := htokens.distinct
      have hfirst : Call.issued (.issueGrant issue) = some issue.token := rfl
      rw [List.filterMap_append, List.filterMap_cons_some hfirst,
        List.filterMap_append] at hdistinct
      have hnodup := (List.nodup_cons.1 (List.nodup_append.1 hdistinct).2.1).1
      exact hnodup (List.mem_append_left _ (List.mem_filterMap.2 ⟨c, hc, heq⟩))
    have hready' : AllReady (created parentHasCapability)
        ((pre ++ .issueGrant issue :: mid) ++ .get access :: post) := by
      rwa [List.append_assoc, List.cons_append]
    have hget := hready'.ready
    have hissue : Sound (perform (.issueGrant issue) (run (created parentHasCapability) pre)).2 :=
      hpre.perform fun token heq => Option.some.inj heq ▸ htoken
    have hstored := holds_issue hchecks
    rw [← counted_zero issue.grant] at hstored
    rw [run_append, run] at hget ⊢
    rcases run_books hissue htoken hstored hascii hissued hrevokes with
      ⟨hlate, hgone⟩ | ⟨hlate, hholds⟩
    · -- the grant expired on the way
      have hlookup : (run (perform (.issueGrant issue) (run (created parentHasCapability) pre)).2
          mid).grants.lookup access.token = none := by
        rw [haccess]
        exact hgone
      rw [hlate, reply_of_gone (hissue.run hascii) (haccess.symm ▸ htoken) hlookup]
      simp
    · rw [hlate, get_of_ready (hissue.run hascii) htoken hget haccess hholds value, Nat.zero_add]
      simp

end Clock

/-- A request for a grant to one secret. -/
def smallIssue (maxUses : ℤ) : Issue ℕ where
  allowedNames := {"key".toList}
  ttlSeconds := 60
  sandboxId := none
  maxUses := some maxUses
  token := "token"
  now := 100
  audit := .ok ()

/-- A read of that secret. -/
def smallAccess : Access ℕ := ⟨"token", "key", none, 110⟩

/-- A secret, a grant, and a read. -/
def oneRead : List (Call ℕ) :=
  [.putSecret "key" "value", .issueGrant (smallIssue 1), .get smallAccess]

/-- The books of one read are right. -/
theorem oneRead_accounted : Accounted (created false) oneRead ∧
    (perform (.get smallAccess) (run (created false) (oneRead.take 2))).1 = .ok (.value "value") := by
  have hready : AllReady (created false) oneRead :=
    ⟨trivial, fun _ => by decide +kernel, fun _ => by decide +kernel, trivial⟩
  have htokens : FreshTokens oneRead := ⟨by decide +kernel, by decide +kernel⟩
  have haudit : ∀ issue, .issueGrant issue ∈ oneRead → issue.audit = .ok () := by
    simp [oneRead, smallIssue]
  exact ⟨accounted_of_ready false oneRead htokens haudit hready, by decide +kernel⟩

/-- A secret, a grant of two uses, and two reads. -/
def twoReads : List (Call ℕ) :=
  [.putSecret "key" "value", .issueGrant (smallIssue 2), .get smallAccess, .get smallAccess]

/-- The second use of a grant of two is refused by the verifier. -/
theorem twoReads_not_accounted : FreshTokens twoReads ∧ ¬ Accounted (created false) twoReads := by
  refine ⟨⟨by decide +kernel, by decide +kernel⟩, fun h => ?_⟩
  have hread := (h.reads [.putSecret "key" "value"] (smallIssue 2) [.get smallAccess] smallAccess []
    rfl (by decide +kernel) rfl (by simp [Call.revokes]) "value").2 (by decide +kernel)
  revert hread
  decide +kernel

end Bulldog.Secrets
