import Bulldog.Lib.Text

/-!
# The approval buttons

`state_machine.c` of the firmware: a request is pending until its deadline, and a person approves it by
letting go of both buttons and then holding one. The clock is a counter of milliseconds in 64 bits. The
functions are written over their arithmetic, which is that of the machine or one that stops where the
machine wraps.
-/

namespace Bulldog.Firmware

/-! ## Arithmetic -/

/-- Additions and subtractions of 64 bits. -/
structure Arith (M : Type → Type) where
  add : UInt64 → UInt64 → M UInt64
  sub : UInt64 → UInt64 → M UInt64

/-- Those of the machine. -/
def wrapping : Arith Id where
  add a b := a + b
  sub a b := a - b

/-- Those that stop where the machine wraps. -/
def checked : Arith Option where
  add a b := if a.toNat + b.toNat < 2 ^ 64 then some (a + b) else none
  sub a b := if b ≤ a then some (a - b) else none

theorem checked_add {a b : UInt64} (h : a.toNat + b.toNat < 2 ^ 64) :
    checked.add a b = some (wrapping.add a b) := if_pos h

theorem checked_sub {a b : UInt64} (h : b ≤ a) : checked.sub a b = some (wrapping.sub a b) := if_pos h

/-- What follows a step that does not wrap. -/
theorem bind_checked {α β : Type} {x : Option α} {a : α} {f : α → Option β} {g : α → Id β}
    (hx : x = some a) (hf : f a = some (g a)) : x >>= f = some (bind (m := Id) a g) := by
  rw [hx]
  exact hf

theorem wrapping_sub (a b : UInt64) : wrapping.sub a b = a - b := rfl

/-- A difference that does not wrap. -/
theorem toNat_sub_of_le {a b : UInt64} (h : b ≤ a) : (a - b).toNat = a.toNat - b.toNat :=
  UInt64.toNat_sub_of_le _ _ h

theorem ttl_le {ttl : UInt32} : ttl.toUInt64 ≤ 0xffffffffffffffff :=
  UInt64.le_iff_toNat_le.2 (Nat.le_pred_of_lt ttl.toUInt64.toNat_lt)

/-- No time that is a lifetime before the end wraps when it is added. -/
theorem toNat_add_ttl {now : UInt64} {ttl : UInt32}
    (h : now ≤ 0xffffffffffffffff - ttl.toUInt64) : (now + ttl.toUInt64).toNat = now.toNat + ttl.toNat := by
  have hlate := UInt64.le_iff_toNat_le.1 h
  have hle : ttl.toUInt64 ≤ 0xffffffffffffffff := ttl_le
  rw [toNat_sub_of_le hle] at hlate
  have httl : ttl.toUInt64.toNat = ttl.toNat := rfl
  have hmax : (0xffffffffffffffff : UInt64).toNat = 2 ^ 64 - 1 := rfl
  have := UInt64.le_iff_toNat_le.1 hle
  rw [UInt64.toNat_add, Nat.mod_eq_of_lt (by omega), httl]

/-! ## The machine -/

/-- `enum bull_state`. -/
inductive BullState where
  | error
  | idle
  | pending
  | decided
  deriving DecidableEq

/-- `enum bull_decision`. -/
inductive BullDecision where
  | none
  | deny
  | approve
  deriving DecidableEq

/-- `bull_machine`, with the first `request_len` bytes of its buffer. -/
structure BullMachine where
  state : BullState
  request : Bytes
  deadline : UInt64
  releasedSince : UInt64
  yesSince : UInt64
  noSince : UInt64
  armed : Bool
  releaseTracking : Bool
  yesTracking : Bool
  noTracking : Bool
  deriving DecidableEq

/-- `bull_clear(m, healthy)`. -/
def bullClear (healthy : Bool) : BullMachine :=
  ⟨if healthy then .idle else .error, [], 0, 0, 0, 0, false, false, false, false⟩

section

variable {M : Type → Type} [Monad M] (A : Arith M)

/-- What `bull_request` does at a time, with the latest it allows: it starts a request that needs a fresh
release of the buttons and then a new press. -/
def acceptRequest (m : BullMachine) (data : Bytes) (now : UInt64) (ttl : UInt32) (latest : UInt64) :
    M (Bool × BullMachine) :=
  if now > latest then pure (false, m)
  else do
    let deadline ← A.add now ttl.toUInt64
    return (true, { m with request := data, deadline, state := .pending, armed := false,
                           releaseTracking := false, yesTracking := false, noTracking := false })

/-- `bull_request(m, data, len, now, ttl_ms)`, where `data` may be null. -/
def bullRequest (m : BullMachine) (data : Option Bytes) (now : UInt64) (ttl : UInt32) :
    M (Bool × BullMachine) :=
  match data with
  | none => pure (false, m)
  | some data =>
    if m.state ≠ .idle ∨ data.length = 0 ∨ data.length > 512 ∨ ttl = 0 ∨ ttl > 30000 then
      pure (false, m)
    else do
      let latest ← A.sub 0xffffffffffffffff ttl.toUInt64
      acceptRequest A m data now ttl latest

/-- `if (!m->release_tracking) { ... }`. -/
def BullMachine.trackRelease (m : BullMachine) (now : UInt64) : BullMachine :=
  if m.releaseTracking then m else { m with releaseTracking := true, releasedSince := now }

/-- `if (!m->yes_tracking) { ... }`. -/
def BullMachine.trackYes (m : BullMachine) (now : UInt64) : BullMachine :=
  if m.yesTracking then m else { m with yesTracking := true, yesSince := now }

/-- `if (!m->no_tracking) { ... }`. -/
def BullMachine.trackNo (m : BullMachine) (now : UInt64) : BullMachine :=
  if m.noTracking then m else { m with noTracking := true, noSince := now }

/-- A sample while the machine is not armed. -/
def sampleRelease (m : BullMachine) (yes no : Bool) (now : UInt64) : M (BullDecision × BullMachine) :=
  if yes || no then pure (.none, { m with releaseTracking := false })
  else do
    let m := m.trackRelease now
    let released ← A.sub now m.releasedSince
    return (.none, if released ≥ 30 then { m with armed := true } else m)

/-- A sample while it is. -/
def sampleHold (m : BullMachine) (yes no : Bool) (now : UInt64) : M (BullDecision × BullMachine) :=
  if !yes || no then pure (.none, { m with yesTracking := false })
  else do
    let m := m.trackYes now
    let held ← A.sub now m.yesSince
    return if held ≥ 780 then (.approve, { m with state := .decided }) else (.none, m)

/-- What follows the button for no. -/
def sampleYes (m : BullMachine) (yes no : Bool) (now : UInt64) : M (BullDecision × BullMachine) :=
  if !m.armed then sampleRelease A m yes no now else sampleHold A m yes no now

/-- `bull_buttons(m, yes, no, connected, now)`. -/
def bullButtons (m : BullMachine) (yes no connected : Bool) (now : UInt64) :
    M (BullDecision × BullMachine) :=
  if !connected then pure (.none, bullClear (m.state ≠ .error))
  else if m.state ≠ .pending then pure (.none, m)
  else if now ≥ m.deadline || (yes && no) then pure (.deny, bullClear true)
  else if no then do
    let m := BullMachine.trackNo { m with yesTracking := false } now
    let held ← A.sub now m.noSince
    if held ≥ 30 then return (.deny, { m with state := .decided }) else sampleYes A m yes no now
  else sampleYes A { m with noTracking := false } yes no now

end

/-! ## Calls -/

/-- A sample of the buttons. -/
structure Sample where
  yes : Bool
  no : Bool
  connected : Bool
  now : UInt64
  deriving DecidableEq

/-- A call. -/
inductive Op where
  | clear (healthy : Bool)
  | request (data : Option Bytes) (now : UInt64) (ttl : UInt32)
  | buttons (sample : Sample)

/-- The time of a call. -/
def Op.time : Op → Option UInt64
  | .clear _ => none
  | .request _ now _ => some now
  | .buttons sample => some sample.now

/-- What a call returns: whether a request is accepted, or a decision. -/
inductive Returned where
  | nothing
  | accepted (yes : Bool)
  | decision (d : BullDecision)
  deriving DecidableEq

/-- A call. -/
def perform {M : Type → Type} [Monad M] (A : Arith M) (m : BullMachine) : Op → M (Returned × BullMachine)
  | .clear healthy => pure (.nothing, bullClear healthy)
  | .request data now ttl => do
    let (ok, m) ← bullRequest A m data now ttl
    return (.accepted ok, m)
  | .buttons s => do
    let (d, m) ← bullButtons A m s.yes s.no s.connected s.now
    return (.decision d, m)

/-- The last accepted request, with the samples since and the decisions on it. -/
structure Session where
  start : UInt64
  ttl : UInt32
  samples : List Sample
  decisions : ℕ

/-- The machine, and what happened since the last accepted request. -/
structure World where
  machine : BullMachine
  session : Option Session

/-- What a call adds to the session. -/
def Session.after (session : Option Session) : Op → Returned → Option Session
  | .request _ now ttl, .accepted true => some ⟨now, ttl, [], 0⟩
  | .buttons s, .decision d => session.map fun h => { h with
      samples := h.samples ++ [s], decisions := h.decisions + if d = .none then 0 else 1 }
  | _, _ => session

/-- A call on the machine. -/
def World.step (w : World) (op : Op) : World :=
  let r : Returned × BullMachine := perform wrapping w.machine op
  ⟨r.2, Session.after w.session op r.1⟩

/-- What a call returns. -/
def World.returns (w : World) (op : Op) : Returned :=
  (perform wrapping w.machine op : Returned × BullMachine).1

/-- The state after calls on a machine in static memory. -/
def run (ops : List Op) : World := ops.foldl World.step ⟨bullClear false, none⟩

/-- The times of the calls. -/
def times (ops : List Op) : List UInt64 := ops.filterMap Op.time

/-- Time does not decrease. -/
def Ordered (ops : List Op) : Prop := (times ops).Pairwise (· ≤ ·)

/-! ## Samples in a row -/

/-- Both buttons are let go. -/
def Sample.Released (s : Sample) : Prop := s.yes = false ∧ s.no = false ∧ s.connected = true

/-- Only the button for yes is held. -/
def Sample.Pressed (s : Sample) : Prop := s.yes = true ∧ s.no = false ∧ s.connected = true

/-- Samples in a row, all of a kind, that span some milliseconds. -/
def Held (p : Sample → Prop) (ms : ℕ) (seg : List Sample) : Prop :=
  (∀ s ∈ seg, p s) ∧ ∃ first last, seg.head? = some first ∧ seg.getLast? = some last ∧
    first.now.toNat + ms ≤ last.now.toNat

/-- Samples that end with ones of a kind, of which the first was at some time. -/
def Trailing (base : List Sample → Prop) (p : Sample → Prop) (since : UInt64)
    (samples : List Sample) : Prop :=
  ∃ before seg, samples = before ++ seg ∧ base before ∧ (∀ s ∈ seg, p s) ∧
    ∃ first, seg.head? = some first ∧ first.now = since

variable {base : List Sample → Prop} {p : Sample → Prop} {samples : List Sample} {s : Sample}

theorem Trailing.start (hbase : base samples) (hs : p s) : Trailing base p s.now (samples ++ [s]) :=
  ⟨samples, [s], rfl, hbase, by simpa using hs, s, rfl, rfl⟩

theorem Trailing.snoc {since : UInt64} (h : Trailing base p since samples) (hs : p s) :
    Trailing base p since (samples ++ [s]) := by
  obtain ⟨before, seg, rfl, hbase, hall, first, hfirst, hsince⟩ := h
  refine ⟨before, seg ++ [s], List.append_assoc _ _ _, hbase, ?_, first, ?_, hsince⟩
  · simp only [List.mem_append, List.mem_singleton]
    rintro x (hx | rfl)
    · exact hall x hx
    · exact hs
  · rw [List.head?_append, hfirst]
    rfl

/-- Where the last sample is late enough, they are held. -/
theorem Trailing.held {since : UInt64} {ms : ℕ} (h : Trailing base p since (samples ++ [s]))
    (hms : since.toNat + ms ≤ s.now.toNat) :
    ∃ before seg, samples ++ [s] = before ++ seg ∧ base before ∧ Held p ms seg := by
  obtain ⟨before, seg, heq, hbase, hall, first, hfirst, rfl⟩ := h
  refine ⟨before, seg, heq, hbase, hall, first, s, hfirst, ?_, hms⟩
  have hlast : (before ++ seg).getLast? = some s := by rw [← heq, List.getLast?_concat]
  rcases seg with _ | ⟨y, seg⟩
  · cases hfirst
  · rwa [List.getLast?_append_of_ne_nil _ (List.cons_ne_nil _ _)] at hlast

/-- Both buttons were let go for 30 milliseconds. -/
def LetGo (samples : List Sample) : Prop :=
  ∃ before seg after, samples = before ++ seg ++ after ∧ Held Sample.Released 30 seg

theorem LetGo.snoc (h : LetGo samples) (s : Sample) : LetGo (samples ++ [s]) := by
  obtain ⟨before, seg, after, rfl, hheld⟩ := h
  exact ⟨before, seg, after ++ [s], List.append_assoc _ _ _, hheld⟩

/-! ## The invariant -/

/-- What a pending machine knows of the samples since its request. -/
structure Open (seen : List UInt64) (m : BullMachine) (h : Session) : Prop where
  undecided : h.decisions = 0
  lifetime : h.ttl ≤ 30000
  deadline : m.deadline.toNat = h.start.toNat + h.ttl.toNat
  released : m.armed = false → m.releaseTracking = true →
    Trailing (fun _ => True) Sample.Released m.releasedSince h.samples
  armed : m.armed = true → LetGo h.samples
  yes : m.yesTracking = true → m.armed = true ∧ Trailing LetGo Sample.Pressed m.yesSince h.samples
  releasedSeen : m.releaseTracking = true → m.releasedSince ∈ seen
  yesSeen : m.yesTracking = true → m.yesSince ∈ seen
  noSeen : m.noTracking = true → m.noSince ∈ seen

/-- What holds between the calls. -/
structure Inv (seen : List UInt64) (w : World) : Prop where
  idle : w.machine.state = .idle → w.machine = bullClear true
  once : ∀ h ∈ w.session, h.decisions ≤ 1
  pending : w.machine.state = .pending → ∃ h, w.session = some h ∧ Open seen w.machine h

/-- The gesture that approves. -/
def Deliberate (h : Session) (s : Sample) : Prop :=
  s.now.toNat < h.start.toNat + h.ttl.toNat ∧ h.ttl ≤ 30000 ∧
    ∃ before hold, h.samples ++ [s] = before ++ hold ∧ LetGo before ∧ Held Sample.Pressed 780 hold

variable {seen seen' : List UInt64} {m : BullMachine} {h : Session}

/-- A difference that does not wrap, compared. -/
theorem sub_ge_iff {a b k : UInt64} (hle : b ≤ a) : a - b ≥ k ↔ b.toNat + k.toNat ≤ a.toNat := by
  have hba := UInt64.le_iff_toNat_le.1 hle
  rw [ge_iff_le, UInt64.le_iff_toNat_le, toNat_sub_of_le hle]
  omega

/-- A run of released samples goes on, or starts. -/
theorem Open.trackRelease (ho : Open seen m h) (harmed : m.armed = false) (hsub : seen ⊆ seen')
    (hs : s.now ∈ seen') (htime : ∀ t ∈ seen, t ≤ s.now) (hreleased : s.Released) :
    ∃ since, m.trackRelease s.now = { m with releaseTracking := true, releasedSince := since } ∧
      since ≤ s.now ∧ since ∈ seen' ∧
      Trailing (fun _ => True) Sample.Released since (h.samples ++ [s]) := by
  unfold BullMachine.trackRelease
  by_cases htracking : m.releaseTracking = true
  · refine ⟨m.releasedSince, ?_, htime _ (ho.releasedSeen htracking), hsub (ho.releasedSeen htracking),
      (ho.released harmed htracking).snoc hreleased⟩
    rw [if_pos htracking, ← htracking]
  · exact ⟨s.now, if_neg htracking, UInt64.le_refl _, hs, .start trivial hreleased⟩

/-- A run of samples with the button for yes goes on, or starts. -/
theorem Open.trackYes (ho : Open seen m h) (hgo : LetGo h.samples) (hsub : seen ⊆ seen')
    (hs : s.now ∈ seen') (htime : ∀ t ∈ seen, t ≤ s.now) (hpressed : s.Pressed) :
    ∃ since, m.trackYes s.now = { m with yesTracking := true, yesSince := since } ∧
      since ≤ s.now ∧ since ∈ seen' ∧ Trailing LetGo Sample.Pressed since (h.samples ++ [s]) := by
  unfold BullMachine.trackYes
  by_cases htracking : m.yesTracking = true
  · refine ⟨m.yesSince, ?_, htime _ (ho.yesSeen htracking), hsub (ho.yesSeen htracking),
      (ho.yes htracking).2.snoc hpressed⟩
    rw [if_pos htracking, ← htracking]
  · exact ⟨s.now, if_neg htracking, UInt64.le_refl _, hs, .start hgo hpressed⟩

/-- A sample of a machine that is not armed. -/
theorem Open.afterRelease (ho : Open seen m h) (harmed : m.armed = false) (hsub : seen ⊆ seen')
    (hs : s.now ∈ seen') (htime : ∀ t ∈ seen, t ≤ s.now) (hconnected : s.connected = true)
    {r : BullDecision × BullMachine} (hr : sampleRelease wrapping m s.yes s.no s.now = r) :
    r.1 = .none ∧ r.2.state = m.state ∧ Open seen' r.2 { h with samples := h.samples ++ [s] } := by
  have hyes : m.yesTracking ≠ true := fun hy => by
    have harmed' := (ho.yes hy).1
    rw [harmed] at harmed'
    cases harmed'
  unfold sampleRelease at hr
  by_cases hbutton : (s.yes || s.no) = true
  · rw [if_pos hbutton] at hr
    subst hr
    exact ⟨rfl, rfl, ho.undecided, ho.lifetime, ho.deadline, fun _ => nofun, fun ha => (ho.armed ha).snoc s,
      fun hy => absurd hy hyes, nofun, fun hy => absurd hy hyes, fun hn => hsub (ho.noSeen hn)⟩
  · rw [if_neg hbutton] at hr
    simp only [Bool.or_eq_true, not_or, Bool.not_eq_true] at hbutton
    obtain ⟨since, htrack, hle, hmem, htrailing⟩ :=
      ho.trackRelease harmed hsub hs htime ⟨hbutton.1, hbutton.2, hconnected⟩
    rw [htrack] at hr
    have hr : r = (.none, if s.now - since ≥ 30 then
        { m with releaseTracking := true, releasedSince := since, armed := true }
      else { m with releaseTracking := true, releasedSince := since }) := hr.symm
    have hgo (hspan : s.now - since ≥ 30) : LetGo (h.samples ++ [s]) := by
      have hms : since.toNat + 30 ≤ s.now.toNat := (sub_ge_iff hle).1 hspan
      obtain ⟨before, seg, heq, -, hheld⟩ := htrailing.held hms
      exact ⟨before, seg, [], by rw [heq, List.append_nil], hheld⟩
    by_cases hspan : s.now - since ≥ 30
    · rw [if_pos hspan] at hr
      subst hr
      exact ⟨rfl, rfl, ho.undecided, ho.lifetime, ho.deadline, nofun, fun _ => hgo hspan,
        fun hy => absurd hy hyes, fun _ => hmem, fun hy => absurd hy hyes, fun hn => hsub (ho.noSeen hn)⟩
    · rw [if_neg hspan] at hr
      subst hr
      exact ⟨rfl, rfl, ho.undecided, ho.lifetime, ho.deadline, fun _ _ => htrailing,
        fun ha => (ho.armed ha).snoc s, fun hy => absurd hy hyes, fun _ => hmem,
        fun hy => absurd hy hyes, fun hn => hsub (ho.noSeen hn)⟩

/-- A sample of a machine that is. -/
theorem Open.afterHold (ho : Open seen m h) (harmed : m.armed = true) (hsub : seen ⊆ seen')
    (hs : s.now ∈ seen') (htime : ∀ t ∈ seen, t ≤ s.now) (hconnected : s.connected = true)
    (hnow : s.now < m.deadline) {r : BullDecision × BullMachine}
    (hr : sampleHold wrapping m s.yes s.no s.now = r) :
    (r.1 = .none ∧ r.2.state = m.state ∧ Open seen' r.2 { h with samples := h.samples ++ [s] }) ∨
      (r.1 = .approve ∧ r.2.state = .decided ∧ Deliberate h s) := by
  have hgo := ho.armed harmed
  unfold sampleHold at hr
  by_cases hbutton : (!s.yes || s.no) = true
  · rw [if_pos hbutton] at hr
    subst hr
    exact .inl ⟨rfl, rfl, ho.undecided, ho.lifetime, ho.deadline,
      fun ha => Bool.noConfusion (harmed.symm.trans ha), fun _ => hgo.snoc s, nofun,
      fun hrel => hsub (ho.releasedSeen hrel), nofun, fun hn => hsub (ho.noSeen hn)⟩
  · rw [if_neg hbutton] at hr
    have hpressed : s.Pressed := by
      rcases hyes : s.yes with _ | _ <;> rcases hno : s.no with _ | _ <;> simp_all [Sample.Pressed]
    obtain ⟨since, htrack, hle, hmem, htrailing⟩ := ho.trackYes hgo hsub hs htime hpressed
    rw [htrack] at hr
    have hr : r = if s.now - since ≥ 780 then
        (.approve, { m with yesTracking := true, yesSince := since, state := .decided })
      else (.none, { m with yesTracking := true, yesSince := since }) := hr.symm
    by_cases hspan : s.now - since ≥ 780
    · rw [if_pos hspan] at hr
      subst hr
      refine .inr ⟨rfl, rfl, ?_, ho.lifetime, htrailing.held ((sub_ge_iff hle).1 hspan)⟩
      rw [← ho.deadline]
      exact UInt64.lt_iff_toNat_lt.1 hnow
    · rw [if_neg hspan] at hr
      subst hr
      exact .inl ⟨rfl, rfl, ho.undecided, ho.lifetime, ho.deadline,
        fun ha => Bool.noConfusion (harmed.symm.trans ha), fun _ => hgo.snoc s,
        fun _ => ⟨harmed, htrailing⟩, fun hrel => hsub (ho.releasedSeen hrel), fun _ => hmem,
        fun hn => hsub (ho.noSeen hn)⟩

/-- A sample that is not yet decided on. -/
theorem Open.afterYes (ho : Open seen m h) (hsub : seen ⊆ seen')
    (hs : s.now ∈ seen') (htime : ∀ t ∈ seen, t ≤ s.now) (hconnected : s.connected = true)
    (hnow : s.now < m.deadline) {r : BullDecision × BullMachine}
    (hr : sampleYes wrapping m s.yes s.no s.now = r) :
    (r.1 = .none ∧ r.2.state = m.state ∧ Open seen' r.2 { h with samples := h.samples ++ [s] }) ∨
      (r.1 = .approve ∧ r.2.state = .decided ∧ Deliberate h s) := by
  unfold sampleYes at hr
  rcases harmed : m.armed with _ | _
  · rw [harmed] at hr
    exact .inl (ho.afterRelease harmed hsub hs htime hconnected hr)
  · rw [harmed] at hr
    exact ho.afterHold harmed hsub hs htime hconnected hnow hr

/-! ## One call -/

theorem Inv.of_clear (healthy : Bool) {session : Option Session}
    (honce : ∀ h ∈ session, h.decisions ≤ 1) : Inv seen ⟨bullClear healthy, session⟩ := by
  cases healthy
  · exact ⟨nofun, honce, nofun⟩
  · exact ⟨fun _ => rfl, honce, nofun⟩

theorem Inv.of_decided (hdecided : m.state = .decided) {session : Option Session}
    (honce : ∀ h ∈ session, h.decisions ≤ 1) : Inv seen ⟨m, session⟩ where
  idle hidle := nomatch hdecided.symm.trans hidle
  once := honce
  pending hpending := nomatch hdecided.symm.trans hpending

theorem Inv.of_open (ho : Open seen m h) (hpending : m.state = .pending) : Inv seen ⟨m, some h⟩ where
  idle hidle := nomatch hpending.symm.trans hidle
  once := by
    rintro h' ⟨⟩
    exact ho.undecided.le.trans (Nat.zero_le 1)
  pending _ := ⟨h, rfl, ho⟩

/-- What a sample does to a pending machine that is connected. -/
theorem Open.sample (ho : Open seen m h) (hpending : m.state = .pending) (hsub : seen ⊆ seen')
    (hs : s.now ∈ seen') (htime : ∀ t ∈ seen', t ≤ s.now) (hconnected : s.connected = true)
    {r : BullDecision × BullMachine}
    (hr : bullButtons wrapping m s.yes s.no s.connected s.now = r) :
    Inv seen' ⟨r.2, Session.after (some h) (.buttons s) (.decision r.1)⟩ ∧
      (r.1 = .approve → Deliberate h s) := by
  -- A denial ends the session, whatever becomes of the machine.
  have hdenied : ∀ h' ∈ Session.after (some h) (.buttons s) (.decision .deny), h'.decisions ≤ 1 := by
    rintro h' ⟨⟩
    change h.decisions + 1 ≤ 1
    rw [ho.undecided]
  have hlater : ∀ m' : BullMachine, Open seen' m' h → m'.state = .pending → m'.deadline = m.deadline →
      ¬ s.now ≥ m.deadline → sampleYes wrapping m' s.yes s.no s.now = r →
      Inv seen' ⟨r.2, Session.after (some h) (.buttons s) (.decision r.1)⟩ ∧
        (r.1 = .approve → Deliberate h s) := by
    intro m' ho' hpending' hdeadline hnow hr
    have hlt : s.now < m'.deadline := by
      rw [hdeadline]
      exact UInt64.not_le.1 hnow
    rcases ho'.afterYes (List.Subset.refl _) hs htime hconnected hlt hr with
      ⟨hnone, hstate, hopen⟩ | ⟨happrove, hstate, hdeliberate⟩
    · refine ⟨?_, fun ha => nomatch hnone.symm.trans ha⟩
      rw [hnone]
      exact .of_open hopen (hstate.trans hpending')
    · refine ⟨?_, fun _ => hdeliberate⟩
      rw [happrove]
      refine .of_decided hstate ?_
      rintro h' ⟨⟩
      change h.decisions + 1 ≤ 1
      rw [ho.undecided]
  unfold bullButtons at hr
  rw [if_neg (by simp [hconnected]), if_neg (not_not.2 hpending)] at hr
  by_cases hdeny : (decide (s.now ≥ m.deadline) || (s.yes && s.no)) = true
  · rw [if_pos hdeny] at hr
    subst hr
    exact ⟨.of_clear true hdenied, nofun⟩
  · rw [if_neg hdeny] at hr
    have hnow : ¬ s.now ≥ m.deadline := fun hge => hdeny (by simp [hge])
    rcases hno : s.no with _ | _
    · rw [hno] at hr
      refine hlater { m with noTracking := false } ?_ hpending rfl hnow (by rw [hno]; exact hr)
      exact ⟨ho.undecided, ho.lifetime, ho.deadline, ho.released, ho.armed, ho.yes,
        fun hrel => hsub (ho.releasedSeen hrel), fun hyes => hsub (ho.yesSeen hyes), nofun⟩
    · rw [hno] at hr
      obtain ⟨since, htrack, hmem⟩ : ∃ since, BullMachine.trackNo { m with yesTracking := false } s.now =
          { m with yesTracking := false, noTracking := true, noSince := since } ∧ since ∈ seen' := by
        unfold BullMachine.trackNo
        by_cases htracking : m.noTracking = true
        · exact ⟨m.noSince, by rw [if_pos htracking, ← htracking], hsub (ho.noSeen htracking)⟩
        · exact ⟨s.now, if_neg htracking, hs⟩
      have hr : (if s.now - since ≥ 30 then
          (.deny, { m with yesTracking := false, noTracking := true, noSince := since, state := .decided })
        else sampleYes wrapping { m with yesTracking := false, noTracking := true, noSince := since }
          s.yes true s.now : BullDecision × BullMachine) = r := by
        rw [← hr, if_pos rfl, htrack]
        rfl
      by_cases hspan : s.now - since ≥ 30
      · rw [if_pos hspan] at hr
        subst hr
        exact ⟨.of_decided rfl hdenied, nofun⟩
      · rw [if_neg hspan] at hr
        refine hlater { m with yesTracking := false, noTracking := true, noSince := since }
          ?_ hpending rfl hnow (by rw [hno]; exact hr)
        exact ⟨ho.undecided, ho.lifetime, ho.deadline, ho.released, ho.armed, nofun,
          fun hrel => hsub (ho.releasedSeen hrel), nofun, fun _ => hmem⟩

/-- A request that is accepted. -/
theorem bullRequest_eq_true {data : Option Bytes} {now : UInt64} {ttl : UInt32} {m' : BullMachine}
    (hr : bullRequest wrapping m data now ttl = ((true, m') : Bool × BullMachine)) :
    m.state = .idle ∧ ttl ≤ 30000 ∧ m'.state = .pending ∧ m'.armed = false ∧ m'.releaseTracking = false ∧
      m'.yesTracking = false ∧ m'.noTracking = false ∧
      m'.deadline.toNat = now.toNat + ttl.toNat := by
  rcases data with _ | data
  · cases hr
  unfold bullRequest at hr
  dsimp only at hr
  split at hr
  · cases hr
  next hvalid =>
  simp only [not_or, not_not] at hvalid
  obtain ⟨hidle, -, -, -, httl⟩ := hvalid
  have hr : acceptRequest wrapping m data now ttl (0xffffffffffffffff - ttl.toUInt64) =
    ((true, m') : Bool × BullMachine) := hr
  unfold acceptRequest at hr
  split at hr
  · cases hr
  next hlate =>
  cases hr
  exact ⟨hidle, UInt32.not_lt.1 httl, rfl, rfl, rfl, rfl, rfl, toNat_add_ttl (UInt64.not_lt.1 hlate)⟩

/-- A request that is not leaves the machine as it is. -/
theorem bullRequest_eq_false {data : Option Bytes} {now : UInt64} {ttl : UInt32} {m' : BullMachine}
    (hr : bullRequest wrapping m data now ttl = ((false, m') : Bool × BullMachine)) : m' = m := by
  rcases data with _ | data
  · exact (Prod.ext_iff.1 hr).2.symm
  unfold bullRequest at hr
  dsimp only at hr
  split at hr
  · exact (Prod.ext_iff.1 hr).2.symm
  have hr : acceptRequest wrapping m data now ttl (0xffffffffffffffff - ttl.toUInt64) =
    ((false, m') : Bool × BullMachine) := hr
  unfold acceptRequest at hr
  split at hr
  · exact (Prod.ext_iff.1 hr).2.symm
  · cases hr

variable {w : World}

theorem Inv.mono (hi : Inv seen w) (hsub : seen ⊆ seen') : Inv seen' w := by
  refine ⟨hi.idle, hi.once, fun hpending => ?_⟩
  obtain ⟨h, hsession, ho⟩ := hi.pending hpending
  exact ⟨h, hsession, ho.undecided, ho.lifetime, ho.deadline, ho.released, ho.armed, ho.yes,
    fun hrel => hsub (ho.releasedSeen hrel), fun hyes => hsub (ho.yesSeen hyes),
    fun hno => hsub (ho.noSeen hno)⟩

/-- A request. -/
theorem Inv.request (hi : Inv seen w) (data : Option Bytes) (now : UInt64) (ttl : UInt32) :
    Inv seen (w.step (.request data now ttl)) ∧
      (w.returns (.request data now ttl) = .accepted true → w.machine = bullClear true) := by
  rcases hr : (bullRequest wrapping w.machine data now ttl : Bool × BullMachine) with ⟨_ | _, m'⟩
  · have hstep : w.step (.request data now ttl) = w := by
      obtain ⟨m, session⟩ := w
      have hm := bullRequest_eq_false hr
      subst hm
      exact congrArg (fun r : Bool × BullMachine => (⟨r.2, Session.after session
        (.request data now ttl) (.accepted r.1)⟩ : World)) hr
    have hreturns : w.returns (.request data now ttl) = .accepted false :=
      congrArg (fun r : Bool × BullMachine => Returned.accepted r.1) hr
    rw [hstep, hreturns]
    exact ⟨hi, nofun⟩
  · obtain ⟨hidle, httl, hpending, harmed, hrel, hyes, hno, hdeadline⟩ := bullRequest_eq_true hr
    have hstep : w.step (.request data now ttl) = ⟨m', some ⟨now, ttl, [], 0⟩⟩ :=
      congrArg (fun r : Bool × BullMachine => (⟨r.2, Session.after w.session
        (.request data now ttl) (.accepted r.1)⟩ : World)) hr
    rw [hstep]
    refine ⟨.of_open ⟨rfl, httl, hdeadline, ?_, ?_, ?_, ?_, ?_, ?_⟩ hpending, fun _ => hi.idle hidle⟩
    · exact fun _ h => nomatch hrel.symm.trans h
    · exact fun h => nomatch harmed.symm.trans h
    · exact fun h => nomatch hyes.symm.trans h
    · exact fun h => nomatch hrel.symm.trans h
    · exact fun h => nomatch hyes.symm.trans h
    · exact fun h => nomatch hno.symm.trans h

/-- What a machine answers to a sample that it does not look at. -/
theorem bullButtons_idle (hidle : ¬ (m.state = .pending ∧ s.connected = true)) :
    bullButtons wrapping m s.yes s.no s.connected s.now =
      ((.none, if s.connected then m else bullClear (m.state ≠ .error)) : BullDecision × BullMachine) := by
  unfold bullButtons
  rcases hconnected : s.connected with _ | _
  · rfl
  · rw [if_neg (by decide), if_pos fun hpending => hidle ⟨hpending, hconnected⟩]
    rfl

/-- A sample. -/
theorem Inv.buttons (hi : Inv seen w) (hsub : seen ⊆ seen') (hs : s.now ∈ seen')
    (htime : ∀ t ∈ seen', t ≤ s.now) :
    Inv seen' (w.step (.buttons s)) ∧
      (∀ d, d ≠ .none → w.returns (.buttons s) = .decision d →
        ∃ h, w.session = some h ∧ h.decisions = 0 ∧ (d = .approve → Deliberate h s)) := by
  by_cases hpending : w.machine.state = .pending ∧ s.connected = true
  · obtain ⟨h, hsession, ho⟩ := hi.pending hpending.1
    obtain ⟨hinv, hdeliberate⟩ := ho.sample hpending.1 hsub hs htime hpending.2 rfl
    rw [← hsession] at hinv
    refine ⟨hinv, fun d _ hd => ⟨h, hsession, ho.undecided, fun happrove => hdeliberate ?_⟩⟩
    exact (Returned.decision.inj hd).trans happrove
  · have hr := bullButtons_idle (s := s) hpending
    have hnone : w.returns (.buttons s) = .decision .none :=
      congrArg (fun r : BullDecision × BullMachine => Returned.decision r.1) hr
    refine ⟨?_, fun d hd hreturns => absurd (Returned.decision.inj (hreturns.symm.trans hnone)) hd⟩
    have hstep : w.step (.buttons s) = ⟨if s.connected then w.machine else
        bullClear (w.machine.state ≠ .error), Session.after w.session (.buttons s) (.decision .none)⟩ :=
      congrArg (fun r : BullDecision × BullMachine => (⟨r.2, Session.after w.session
        (.buttons s) (.decision r.1)⟩ : World)) hr
    have honce : ∀ h ∈ Session.after w.session (.buttons s) (.decision .none), h.decisions ≤ 1 := by
      intro h hh
      obtain ⟨h', hh', rfl⟩ := Option.map_eq_some_iff.1 hh
      exact hi.once h' hh'
    rw [hstep]
    rcases hconnected : s.connected with _ | _
    · exact .of_clear _ honce
    · exact ⟨hi.idle, honce, fun hp => absurd ⟨hp, hconnected⟩ hpending⟩

/-! ## Nothing wraps -/

/-- The times a machine goes by are not in the future. -/
structure Past (m : BullMachine) (now : UInt64) : Prop where
  released : m.releaseTracking = true → m.releasedSince ≤ now
  yes : m.yesTracking = true → m.yesSince ≤ now
  no : m.noTracking = true → m.noSince ≤ now

variable {now : UInt64} {yes no : Bool}

theorem sampleRelease_checked (hp : Past m now) :
    sampleRelease checked m yes no now = some (sampleRelease wrapping m yes no now) := by
  unfold sampleRelease
  split
  · rfl
  · have hle : (m.trackRelease now).releasedSince ≤ now := by
      unfold BullMachine.trackRelease
      split
      · exact hp.released ‹_›
      · exact UInt64.le_refl _
    simp only [checked_sub hle]
    rfl

theorem sampleHold_checked (hp : Past m now) :
    sampleHold checked m yes no now = some (sampleHold wrapping m yes no now) := by
  unfold sampleHold
  split
  · rfl
  · have hle : (m.trackYes now).yesSince ≤ now := by
      unfold BullMachine.trackYes
      split
      · exact hp.yes ‹_›
      · exact UInt64.le_refl _
    simp only [checked_sub hle]
    rfl

theorem sampleYes_checked (hp : Past m now) :
    sampleYes checked m yes no now = some (sampleYes wrapping m yes no now) := by
  unfold sampleYes
  split
  · exact sampleRelease_checked hp
  · exact sampleHold_checked hp

theorem bullButtons_checked {connected : Bool} (hp : m.state = .pending → Past m now) :
    bullButtons checked m yes no connected now = some (bullButtons wrapping m yes no connected now) := by
  unfold bullButtons
  split
  · rfl
  split
  · rfl
  next hpending =>
  have hp := hp (not_not.1 hpending)
  split
  · rfl
  split
  · have hle : (BullMachine.trackNo { m with yesTracking := false } now).noSince ≤ now ∧
        Past (BullMachine.trackNo { m with yesTracking := false } now) now := by
      unfold BullMachine.trackNo
      split
      next hno => exact ⟨hp.no hno, hp.released, nofun, hp.no⟩
      · exact ⟨UInt64.le_refl _, hp.released, nofun, fun _ => UInt64.le_refl _⟩
    simp only [checked_sub hle.1]
    change (if _ then _ else _) = some (if _ then _ else _)
    split
    · rfl
    · exact sampleYes_checked hle.2
  · exact sampleYes_checked ⟨hp.released, hp.yes, nofun⟩

/-- A sum that does not wrap, where the time is that long before the end. -/
theorem checked_add_ttl {ttl : UInt32} (h : ¬ now > 0xffffffffffffffff - ttl.toUInt64) :
    checked.add now ttl.toUInt64 = some (wrapping.add now ttl.toUInt64) := by
  have hlt := (now + ttl.toUInt64).toNat_lt
  rw [toNat_add_ttl (UInt64.not_lt.1 h)] at hlt
  exact checked_add hlt

theorem acceptRequest_checked {data : Bytes} {ttl : UInt32} {latest : UInt64}
    (hadd : ¬ now > latest → checked.add now ttl.toUInt64 = some (wrapping.add now ttl.toUInt64)) :
    acceptRequest checked m data now ttl latest = some (acceptRequest wrapping m data now ttl latest) := by
  unfold acceptRequest
  by_cases hlate : now > latest
  · rw [if_pos hlate, if_pos hlate]
    rfl
  · rw [if_neg hlate, if_neg hlate, hadd hlate]
    rfl

theorem bullRequest_checked {data : Option Bytes} {ttl : UInt32} :
    bullRequest checked m data now ttl = some (bullRequest wrapping m data now ttl) := by
  rcases data with _ | data
  · rfl
  unfold bullRequest
  dsimp only
  split
  · rfl
  · exact bind_checked ((checked_sub ttl_le).trans (congrArg some (wrapping_sub _ _)))
      (acceptRequest_checked checked_add_ttl)

theorem Open.past (ho : Open seen m h) (htime : ∀ t ∈ seen, t ≤ now) : Past m now where
  released hrel := htime _ (ho.releasedSeen hrel)
  yes hyes := htime _ (ho.yesSeen hyes)
  no hno := htime _ (ho.noSeen hno)

/-- No call wraps. -/
theorem Inv.perform_checked (hi : Inv seen w) {op : Op} (htime : ∀ t ∈ op.time, ∀ t' ∈ seen, t' ≤ t) :
    perform checked w.machine op = some (perform wrapping w.machine op) := by
  rcases op with healthy | ⟨data, now, ttl⟩ | s
  · rfl
  · simp only [perform, bullRequest_checked]
    rfl
  · have hp : w.machine.state = .pending → Past w.machine s.now := fun hpending => by
      obtain ⟨h, -, ho⟩ := hi.pending hpending
      exact ho.past (htime _ rfl)
    simp only [perform, bullButtons_checked hp]
    rfl

/-! ## Every run -/

/-- The times of calls, one call after the others. -/
theorem filterMap_concat {α β : Type} (time : α → Option β) (ops : List α) (op : α) :
    (ops ++ [op]).filterMap time = ops.filterMap time ++ (time op).toList := by
  rw [List.filterMap_append]
  rcases htime : time op with _ | t <;> simp [htime]

/-- Where times do not decrease, they do not before the last call, which is not before the others. -/
theorem ordered_concat {α : Type} {time : α → Option UInt64} {ops : List α} {op : α}
    (h : ((ops ++ [op]).filterMap time).Pairwise (· ≤ ·)) :
    (ops.filterMap time).Pairwise (· ≤ ·) ∧ ∀ now ∈ time op, ∀ t ∈ ops.filterMap time, t ≤ now := by
  rw [filterMap_concat, List.pairwise_append] at h
  exact ⟨h.1, fun now hnow t ht => h.2.2 t ht now (Option.mem_toList.2 hnow)⟩

theorem times_append (ops : List Op) (op : Op) : times (ops ++ [op]) = times ops ++ op.time.toList :=
  filterMap_concat Op.time ops op

theorem run_append (ops : List Op) (op : Op) : run (ops ++ [op]) = (run ops).step op := by
  rw [run, List.foldl_append]
  rfl

/-- A call is at the time of all before it, or later. -/
theorem Ordered.last {ops : List Op} {op : Op} (h : Ordered (ops ++ [op])) {now : UInt64}
    (hnow : op.time = some now) : ∀ t ∈ times (ops ++ [op]), t ≤ now := by
  intro t ht
  rw [times_append, hnow] at ht
  rcases List.mem_append.1 ht with ht | ht
  · exact (ordered_concat h).2 now hnow t ht
  · exact UInt64.le_of_eq (List.mem_singleton.1 ht)

theorem Ordered.init {ops : List Op} {op : Op} (h : Ordered (ops ++ [op])) : Ordered ops :=
  (ordered_concat h).1

/-- Where time does not decrease, the invariant holds after every call. -/
theorem run_inv (ops : List Op) (h : Ordered ops) : Inv (times ops) (run ops) := by
  induction ops using List.reverseRecOn with
  | nil => exact .of_clear false nofun
  | append_singleton ops op ih =>
    have hi := ih h.init
    have hsub : times ops ⊆ times (ops ++ [op]) := times_append ops op ▸ List.subset_append_left _ _
    rw [run_append]
    rcases op with healthy | ⟨data, now, ttl⟩ | s
    · exact .of_clear healthy hi.once
    · exact (hi.request data now ttl).1.mono hsub
    · refine (hi.buttons hsub ?_ (h.last rfl)).1
      rw [times_append]
      exact List.mem_append_right _ (List.mem_singleton_self _)

/-- In every run of calls whose time does not decrease, no arithmetic wraps; a decision is the first on the
last accepted request, and no other is accepted before the machine is cleared; an approval is a deliberate
gesture, made before the deadline. -/
theorem deliberate_gesture (ops : List Op) (op : Op) (h : Ordered (ops ++ [op])) :
    perform checked (run ops).machine op = some (perform wrapping (run ops).machine op) ∧
    (∀ session ∈ (run (ops ++ [op])).session, session.decisions ≤ 1) ∧
    ((run ops).returns op = .accepted true → (run ops).machine = bullClear true) ∧
    ∀ s, op = .buttons s → ∀ d, d ≠ .none → (run ops).returns op = .decision d →
      ∃ session, (run ops).session = some session ∧ session.decisions = 0 ∧
        (d = .approve → Deliberate session s) := by
  have hi := run_inv ops h.init
  have hsub : times ops ⊆ times (ops ++ [op]) := times_append ops op ▸ List.subset_append_left _ _
  refine ⟨hi.perform_checked fun now hnow t ht => h.last hnow t (hsub ht), (run_inv _ h).once, ?_, ?_⟩
  · rcases op with healthy | ⟨data, now, ttl⟩ | s
    · exact nofun
    · exact (hi.request data now ttl).2
    · exact nofun
  · rintro s rfl
    refine (hi.buttons hsub ?_ (h.last rfl)).2
    rw [times_append]
    exact List.mem_append_right _ (List.mem_singleton_self _)

/-- A request approved as in the test of the firmware. -/
def sampleOps : List Op :=
  [.clear true, .request (some [1]) 1000 30000, .buttons ⟨false, false, true, 1001⟩,
    .buttons ⟨false, false, true, 1031⟩, .buttons ⟨true, false, true, 1100⟩]

theorem sampleOps_approved : Ordered (sampleOps ++ [.buttons ⟨true, false, true, 1880⟩]) ∧
    ∃ session, (run sampleOps).session = some session ∧ session.decisions = 0 ∧
      Deliberate session ⟨true, false, true, 1880⟩ := by
  have hordered : Ordered (sampleOps ++ [.buttons ⟨true, false, true, 1880⟩]) := by
    unfold Ordered
    decide
  refine ⟨hordered, ?_⟩
  obtain ⟨session, hsession, hfirst, hdeliberate⟩ := (deliberate_gesture sampleOps
    (.buttons ⟨true, false, true, 1880⟩) hordered).2.2.2 _ rfl .approve (by decide) (by decide)
  exact ⟨session, hsession, hfirst, hdeliberate rfl⟩

end Bulldog.Firmware
