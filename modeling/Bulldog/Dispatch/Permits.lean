import Bulldog.Canonicalizer.Fixpoint
import Bulldog.Dispatch.Gate
import Bulldog.Lib.Json.RoundTrip

/-!
# What a permit is for

`_action_hash` joins six fields with NUL, and only the first of them, the actor, can hold one: the
others are the fields of an action that was canonicalised and bound to an executable. The join is
therefore read back from its end. The arguments are hashed as JSON, which determines them. So a
permit is good for the action and the command it was minted for, as far as the hash tells texts apart.
-/

namespace Bulldog.Dispatch

open Canonicalizer

/-! ## The text of an action -/

/-- Joined with a separator that only the first may hold, parts are recovered. -/
theorem intercalate_injective {sep : Char} {a b : Str} {as bs : List Str}
    (ha : ∀ part ∈ as, sep ∉ part) (hb : ∀ part ∈ bs, sep ∉ part) (hlen : as.length = bs.length)
    (h : [sep].intercalate (a :: as) = [sep].intercalate (b :: bs)) : a = b ∧ as = bs := by
  rcases as with _ | ⟨a', as⟩ <;> rcases bs with _ | ⟨b', bs⟩
  · simpa [List.intercalate] using h
  · cases hlen
  · cases hlen
  · have hsplit := congrArg (Str.splitOn sep) h
    rw [List.intercalate_cons_cons, List.intercalate_cons_cons, List.append_assoc,
      List.append_assoc, List.singleton_append, List.singleton_append, Str.splitOn_append_sep,
      Str.splitOn_append_sep, Str.splitOn_intercalate (List.cons_ne_nil _ _) ha,
      Str.splitOn_intercalate (List.cons_ne_nil _ _) hb] at hsplit
    obtain ⟨hfirst, hrest⟩ := List.append_inj' hsplit hlen
    have hjoin := congrArg [sep].intercalate hfirst
    rw [Str.intercalate_splitOn, Str.intercalate_splitOn] at hjoin
    exact ⟨hjoin, hrest⟩

/-- The fields of an action that its hash binds, after the actor. -/
def boundFields (action : ActionRequest) : List Str :=
  [action.operation, action.resource, action.capability.value.toList,
    (action.metadata.get "domain_id").getD [], (action.metadata.get "root_domain_id").getD []]

/-- The text that `_action_hash` hashes. -/
def actionText (action : ActionRequest) : Str :=
  ['\x00'].intercalate (action.actor :: boundFields action)

theorem actionHash_eq (C : Crypto) (action : ActionRequest) :
    actionHash C action = hexdigest (C.sha256 (encodeUtf8 (actionText action))) := rfl

theorem capability_value_injective : Function.Injective Capability.value := by
  intro a b h
  cases a <;> cases b <;> first | rfl | exact absurd h (by decide)

/-- The JSON text of a command determines it. -/
theorem commandText_injective : Function.Injective Domain.commandText := by
  have hwritable (command : List Str) :
      (Json.arr (command.map .str) : Json Literal).writable true = true := by
    rw [Json.writable]
    induction command with
    | nil => rfl
    | cons part command ih =>
      rw [List.map_cons, writableItems, ih, Bool.and_true]
      rfl
  intro c d h
  have harr := Json.arr.inj (render_injective ⟨false, false⟩ (hwritable c) (hwritable d) h)
  exact List.map_injective_iff.2 (fun _ _ => Json.str.inj) harr

/-! ## Actions that passed -/

/-- Only the shell operations have the capability to execute. -/
theorem operation_of_processExec {L : Urllib} {op resource : Str}
    (h : capabilityOf L op resource = .ok .processExec) :
    op ∈ ["execute".toList, "exec".toList, "run".toList, "shell".toList, "bash".toList] := by
  by_contra hop
  unfold capabilityOf at h
  rw [if_neg hop] at h
  split_ifs at h
  -- every other branch has another capability
  all_goals first
    | cases h
    | (unfold networkCapability at h
       obtain ⟨_, _, h⟩ := bind_eq_ok.1 h
       obtain ⟨_, _, h⟩ := bind_eq_ok.1 h
       cases h)

/-- An action that came out of `canonicalize` and `_bind_execution`. -/
def Passed (D : Dispatcher) (env : Env) (action : ActionRequest) : Prop :=
  ∃ (request : DispatchRequest) (command : List Str) (w w' : World) (canonical : ActionRequest),
    D.canonicalize env request w = (.ok canonical, w') ∧
      D.bindExecution canonical command request = .ok action

theorem passed_of_eq {D : Dispatcher} {env : Env} {action : ActionRequest}
    (request : DispatchRequest) (command : List Str) (w : World) (canonical : ActionRequest)
    (hcanonical : (D.canonicalize env request w).1 = .ok canonical)
    (hbind : D.bindExecution canonical command request = .ok action) : Passed D env action :=
  ⟨request, command, w, (D.canonicalize env request w).2, canonical, Prod.ext hcanonical rfl, hbind⟩

/-- What `token_urlsafe` returns. -/
def TokenUrlsafe (token : Str) : Prop := ∀ c ∈ token, c.isAlphanum = true ∨ c = '-' ∨ c = '_'

/-- The ids of the action's domains come from `token_urlsafe`, where it has any. -/
structure TokenIds (action : ActionRequest) : Prop where
  domain : ∀ id ∈ action.metadata.get "domain_id", TokenUrlsafe id
  root : ∀ id ∈ action.metadata.get "root_domain_id", TokenUrlsafe id

theorem tokenUrlsafe_of_all {token : Str}
    (h : token.all (fun c => c.isAlphanum || c == '-' || c == '_') = true) : TokenUrlsafe token := by
  intro c hc
  simpa only [Bool.or_eq_true, beq_iff_eq, or_assoc] using List.all_eq_true.1 h c hc

theorem TokenUrlsafe.nul {token : Str} (h : TokenUrlsafe token) : '\x00' ∉ token := by
  intro hmem
  rcases h _ hmem with h | h | h <;> exact absurd h (by decide)

theorem nul_of_tokens {id : Option Str} (h : ∀ token ∈ id, TokenUrlsafe token) :
    '\x00' ∉ id.getD [] := by
  rcases id with _ | token
  · exact List.not_mem_nil
  · exact (h token rfl).nul

variable {D : Dispatcher} {env : Env}

/-- Whatever the registry does, `canonicalize` returns what `canonicalize_action` returns. -/
theorem canonicalize_eq_ok {request : DispatchRequest} {w w' : World} {action : ActionRequest}
    (h : D.canonicalize env request w = (.ok action, w')) :
    ∃ trusted parent, canonicalizeAction D.runtime.engine.urllib request.proposal trusted
      request.grantedCapabilities parent = .ok action := by
  rw [Dispatcher.canonicalize, Action.bind_apply] at h
  rcases hcontext : D.trustedContextFor env request w with ⟨_ | context, w₁⟩ <;>
    rw [hcontext] at h
  · cases (Prod.mk.inj h).1
  · exact ⟨context.1, context.2, (Prod.mk.inj h).1⟩

/-- The second reading of an action's resource is accepted, and gives its capability. -/
theorem capabilityOf_canonical {L : Urllib} {proposal : Proposal} {trusted : TrustedExecutionContext}
    {granted : Finset Capability} {parent : Option (Finset Capability)} {action : ActionRequest}
    (h : canonicalizeAction L proposal trusted granted parent = .ok action) :
    ∃ result, canonicalizeResource L (normalOperation L action.operation) action.resource =
        .ok result ∧
      capabilityOf L (normalOperation L action.operation) result = .ok action.capability := by
  simp only [canonicalizeAction, bind_eq_ok] at h
  obtain ⟨-, -, resource, -, capability, hcapability, ⟨⟩⟩ := h
  exact bind_eq_ok.1 hcapability

/-- After the actor, no field of an action that passed holds a NUL. -/
theorem Passed.nul {action : ActionRequest} (hproduction : D.productionMode = true)
    (hlower : ∀ s, '\x00' ∈ s → '\x00' ∈ D.runtime.engine.urllib.unicode.lower s)
    (hids : TokenIds action) (h : Passed D env action) :
    ∀ part ∈ boundFields action, '\x00' ∉ part := by
  obtain ⟨request, command, w, w', canonical, hcanonicalize, hbind⟩ := h
  obtain ⟨trusted, parent, hcanonical⟩ := canonicalize_eq_ok hcanonicalize
  obtain ⟨hbound, metadata, rfl⟩ := bindExecution_eq_ok hproduction hbind
  obtain ⟨result, hread, hcapability⟩ := capabilityOf_canonical hcanonical
  rw [hbound.capability] at hcapability
  have hoperation : '\x00' ∉ canonical.operation := by
    intro hmem
    -- a NUL survives lower-casing and stripping, but the shell operations have none
    have hnormal : '\x00' ∈ normalOperation D.runtime.engine.urllib canonical.operation :=
      mem_strip (by decide) (hlower _ hmem)
    have hop := operation_of_processExec hcapability
    simp only [List.mem_cons, List.not_mem_nil, or_false] at hop
    rcases hop with hop | hop | hop | hop | hop <;>
    · rw [hop] at hnormal
      exact absurd hnormal (by decide)
  have hresource : '\x00' ∉ canonical.resource := nul_of_canonicalizeResource hread
  simp only [boundFields, List.forall_mem_cons]
  refine ⟨hoperation, hresource, ?_, nul_of_tokens hids.domain, nul_of_tokens hids.root,
    List.forall_mem_nil _⟩
  rw [hbound.capability]
  decide

/-! ## Permits -/

/-- The two actions agree on what `_action_hash` binds. -/
def SameAction (a b : ActionRequest) : Prop :=
  a.actor = b.actor ∧ a.operation = b.operation ∧ a.resource = b.resource ∧
    a.capability = b.capability ∧
    (a.metadata.get "domain_id").getD [] = (b.metadata.get "domain_id").getD [] ∧
    (a.metadata.get "root_domain_id").getD [] = (b.metadata.get "root_domain_id").getD []

theorem SameAction.text_eq {a b : ActionRequest} (h : SameAction a b) :
    actionText a = actionText b := by
  obtain ⟨hactor, hoperation, hresource, hcapability, hdomain, hroot⟩ := h
  rw [actionText, actionText, boundFields, boundFields, hactor, hoperation, hresource, hcapability,
    hdomain, hroot]

theorem sameAction_of_text {a b : ActionRequest} (ha : ∀ part ∈ boundFields a, '\x00' ∉ part)
    (hb : ∀ part ∈ boundFields b, '\x00' ∉ part) (h : actionText a = actionText b) :
    SameAction a b := by
  obtain ⟨hactor, hfields⟩ := intercalate_injective ha hb rfl h
  simp only [boundFields, List.cons.injEq, and_true] at hfields
  obtain ⟨hoperation, hresource, hcapability, hdomain, hroot⟩ := hfields
  exact ⟨hactor, hoperation, hresource,
    capability_value_injective (String.toList_injective hcapability), hdomain, hroot⟩

/-- The texts that are hashed for a permit. -/
def permitTexts (action : ActionRequest) (command : List Str) : Set Bytes :=
  {encodeUtf8 (actionText action), encodeUtf8 (Domain.commandText command)}

theorem validPermit_iff {C : Crypto} {key : Bytes} {action : ActionRequest} {command : List Str}
    {permit : ExecutionPermit} :
    validPermit C key action command permit = true ↔
      permit.argvHash = Domain.hashCommand C command ∧ permit.actionHash = actionHash C action ∧
        permit.token = permitToken C key (actionHash C action) (Domain.hashCommand C command) := by
  rw [validPermit, Bool.and_eq_true, Bool.and_eq_true, decide_eq_true_eq, decide_eq_true_eq,
    decide_eq_true_eq, and_assoc]

/-- The permit of one action and command is valid for another exactly when both are the same. -/
theorem permit_valid_iff {α : Type} (D : Dispatcher) (env : Env) (key : Bytes)
    (hkind : D.kind = .production key)
    (hlower : ∀ s, '\x00' ∈ s → '\x00' ∈ D.runtime.engine.urllib.unicode.lower s)
    (a b : ActionRequest) (ha : Passed D env a) (hb : Passed D env b) (hidsa : TokenIds a)
    (hidsb : TokenIds b) (str : α → Str) (c d : List α)
    (hinj : Set.InjOn D.runtime.crypto.sha256
      (permitTexts a (c.map str) ∪ permitTexts b (d.map str))) :
    validPermit D.runtime.crypto key b (d.map str)
        (mintDispatchPermit D.runtime.crypto key a (c.map str)) = true ↔
      c.map str = d.map str ∧ SameAction a b := by
  have hproduction : D.productionMode = true := by
    rw [Dispatcher.productionMode, hkind]
  have hnula := ha.nul hproduction hlower hidsa
  have hnulb := hb.nul hproduction hlower hidsb
  rw [validPermit_iff]
  constructor
  · rintro ⟨hargv, haction, -⟩
    have hcommand : encodeUtf8 (Domain.commandText (c.map str)) =
        encodeUtf8 (Domain.commandText (d.map str)) :=
      hinj (.inl (.inr rfl)) (.inr (.inr rfl)) (hexdigest_injective hargv)
    have htext : encodeUtf8 (actionText a) = encodeUtf8 (actionText b) :=
      hinj (.inl (.inl rfl)) (.inr (.inl rfl)) (hexdigest_injective haction)
    exact ⟨commandText_injective (encodeUtf8_injective hcommand),
      sameAction_of_text hnula hnulb (encodeUtf8_injective htext)⟩
  · rintro ⟨hcommand, hsame⟩
    have haction : actionHash D.runtime.crypto a = actionHash D.runtime.crypto b := by
      rw [actionHash_eq, actionHash_eq, hsame.text_eq]
    rw [hcommand, ← haction]
    exact ⟨rfl, rfl, rfl⟩

/-- A production dispatcher without a registry. -/
def plainDispatcher : Dispatcher := { smallDispatcher with registry := none }

/-- An agent of one domain of a family runs a command. -/
def plainRequest (command : List Str) : DispatchRequest :=
  { smallRequest with
    trusted := { smallRequest.trusted with domainId := some "d-1", rootDomainId := some "r_0" }
    domainId := none
    authorizedCommand := some command }

/-- What `_bind_execution` makes of its action. -/
def plainAction (command : List Str) : ActionRequest where
  actor := "agent"
  task := "task"
  operation := "execute"
  resource := "/bin/true"
  capability := .processExec
  grantedCapabilities := {.processExec}
  provenance := [.human]
  parentCapabilities := none
  irreversible := false
  externalSideEffect := false
  metadata := [("security_context_id", []), ("domain_id", "d-1"), ("root_domain_id", "r_0"),
    ("spawn_depth", "0"), ("authorized_argv_hash", Domain.hashCommand .standard command),
    ("actual_argv_hash", Domain.hashCommand .standard command)]

theorem plain_passed (command : List Str)
    (hcanonical : (plainDispatcher.canonicalize calmHost (plainRequest command) smallWorld).1 =
      .ok { plainAction command with metadata := (plainAction command).metadata.take 4 })
    (hbind : plainDispatcher.bindExecution
      { plainAction command with metadata := (plainAction command).metadata.take 4 } command
      (plainRequest command) = .ok (plainAction command)) :
    Passed plainDispatcher calmHost (plainAction command) ∧ TokenIds (plainAction command) := by
  refine ⟨passed_of_eq _ command smallWorld _ hcanonical hbind, fun id hid => ?_, fun id hid => ?_⟩
  · obtain rfl : "d-1".toList = id := Option.some.inj hid
    exact tokenUrlsafe_of_all (by decide)
  · obtain rfl : "r_0".toList = id := Option.some.inj hid
    exact tokenUrlsafe_of_all (by decide)

theorem injOn_triple {α β : Type} {f : α → β} {x y z : α} (hxy : f x ≠ f y) (hxz : f x ≠ f z)
    (hyz : f y ≠ f z) : Set.InjOn f {x, y, z} := by
  rintro _ (rfl | rfl | rfl) _ (rfl | rfl | rfl) h
  all_goals first
    | exact rfl
    | exact absurd h hxy
    | exact absurd h.symm hxy
    | exact absurd h hxz
    | exact absurd h.symm hxz
    | exact absurd h hyz
    | exact absurd h.symm hyz

/-- A command, and the same with an argument more. -/
def shortCommand : List Str := ["/bin/true"]

def longCommand : List Str := ["/bin/true", "x"]

theorem short_passed : Passed plainDispatcher calmHost (plainAction shortCommand) ∧
    TokenIds (plainAction shortCommand) :=
  plain_passed shortCommand (by decide +kernel) (by decide +kernel)

theorem long_passed : Passed plainDispatcher calmHost (plainAction longCommand) ∧
    TokenIds (plainAction longCommand) :=
  plain_passed longCommand (by decide +kernel) (by decide +kernel)

theorem plain_texts_injOn : Set.InjOn Crypto.standard.sha256
    {encodeUtf8 (actionText (plainAction shortCommand)),
      encodeUtf8 (Domain.commandText shortCommand), encodeUtf8 (Domain.commandText longCommand)} :=
  injOn_triple (by decide +kernel) (by decide +kernel) (by decide +kernel)

/-- A permit for one command is good for it, also where the action was bound to another, and not
good for the other. -/
theorem plain_permit_binds :
    validPermit .standard [1] (plainAction longCommand) shortCommand
        (mintDispatchPermit .standard [1] (plainAction shortCommand) shortCommand) = true ∧
      validPermit .standard [1] (plainAction longCommand) longCommand
        (mintDispatchPermit .standard [1] (plainAction shortCommand) shortCommand) ≠ true := by
  have hlower : ∀ s, '\x00' ∈ s → '\x00' ∈ Unicode.ascii.lower s := fun s hs =>
    List.mem_map.2 ⟨_, hs, rfl⟩
  have hsame : SameAction (plainAction shortCommand) (plainAction longCommand) := by
    unfold SameAction
    decide +kernel
  have hiff (command : List Str) (hcommand : command = shortCommand ∨ command = longCommand) :
      validPermit .standard [1] (plainAction longCommand) command
        (mintDispatchPermit .standard [1] (plainAction shortCommand) shortCommand) = true ↔
      shortCommand = command ∧ SameAction (plainAction shortCommand) (plainAction longCommand) := by
    have h := permit_valid_iff plainDispatcher calmHost [1] rfl hlower (plainAction shortCommand)
      (plainAction longCommand) short_passed.1 long_passed.1 short_passed.2 long_passed.2 id
      shortCommand command
    simp only [List.map_id] at h
    refine h (plain_texts_injOn.mono ?_)
    rw [permitTexts, permitTexts, ← hsame.text_eq]
    rcases hcommand with rfl | rfl
    · rw [Set.union_self]
      exact fun _ => Or.imp_right .inl
    · rintro _ ((h | h) | (h | h))
      · exact .inl h
      · exact .inr (.inl h)
      · exact .inl h
      · exact .inr (.inr h)
  exact ⟨(hiff shortCommand (.inl rfl)).2 ⟨rfl, hsame⟩,
    fun h => absurd ((hiff longCommand (.inr rfl)).1 h).1 (by decide)⟩

end Bulldog.Dispatch
