import Bulldog.Firmware.Buttons

/-!
# Clicks of the boot button

`boot_clicks.c` of the firmware: two clicks of a single button and a pause say yes, and three clicks no. What
the machine decides is compared with the debounced signal, which is a function of the samples alone: the level
that the last samples had for 30 milliseconds.
-/

namespace Bulldog.Firmware

/-! ## The machine -/

/-- `enum click_result`. -/
inductive ClickResult where
  | wait
  | no
  | yes
  | cancel
  deriving DecidableEq

/-- `boot_clicks`. The counter stays below three between calls. -/
structure BootClicks where
  pending : Bool
  armed : Bool
  raw : Bool
  stable : Bool
  pressing : Bool
  clicks : ℕ
  changed : UInt64
  pressedAt : UInt64
  deadline : UInt64
  deriving DecidableEq

/-- `clicks_clear(c)`. -/
def clicksClear : BootClicks := ⟨false, false, false, false, false, 0, 0, 0, 0⟩

/-- The machine of a request that is accepted. -/
def begun (pressed : Bool) (now : UInt64) : BootClicks :=
  { clicksClear with pending := true, raw := pressed, stable := pressed, changed := now, deadline := now + 30000 }

/-- `clicks_begin(c, pressed, now)`. -/
def clicksBegin (c : BootClicks) (pressed : Bool) (now : UInt64) : Bool × BootClicks :=
  if c.pending || now > 0xffffffffffffffff - 30000 then (false, c)
  else (true, begun pressed now)

/-- `finish(c, result)`. -/
def finish (result : ClickResult) : ClickResult × BootClicks := (result, clicksClear)

/-- `if (pressed != c->raw) { ... }`. -/
def BootClicks.sampled (c : BootClicks) (pressed : Bool) (now : UInt64) : BootClicks :=
  if pressed ≠ c.raw then { c with raw := pressed, changed := now } else c

/-- The part of `clicks_tick` before the machine is armed. A button that is held when the request arrives
cannot contribute a click. -/
def tickArming (c : BootClicks) (pressed : Bool) (now : UInt64) : ClickResult × BootClicks :=
  (.wait, if !pressed && now - c.changed ≥ 30 then { c with armed := true, stable := false } else c)

/-- The part after a change of level is recognised: a press that is held too long cancels, and a pause after
the clicks decides. -/
def tickQuiet (c : BootClicks) (now : UInt64) : ClickResult × BootClicks :=
  if c.pressing && now - c.pressedAt ≥ 1500 then finish .cancel
  else if c.clicks ≠ 0 && !c.raw && !c.stable && now - c.changed ≥ 600 then
    finish (if c.clicks = 2 then .yes else .cancel)
  else (.wait, c)

/-- The part of an armed machine. -/
def tickArmed (c : BootClicks) (now : UInt64) : ClickResult × BootClicks :=
  if c.stable ≠ c.raw && now - c.changed ≥ 30 then
    if c.raw then tickQuiet { c with stable := true, pressing := true, pressedAt := now } now
    else if c.pressing then
      if c.clicks + 1 ≥ 3 then finish .no
      else tickQuiet { c with stable := false, pressing := false, clicks := c.clicks + 1 } now
    else tickQuiet { c with stable := false } now
  else tickQuiet c now

/-- `clicks_tick(c, pressed, connected, now)`. -/
def clicksTick (c : BootClicks) (pressed connected : Bool) (now : UInt64) : ClickResult × BootClicks :=
  if !connected then finish .cancel
  else if !c.pending then (.wait, c)
  else if now ≥ c.deadline || now < c.changed then finish .cancel
  else
    let c := c.sampled pressed now
    if !c.armed then tickArming c pressed now else tickArmed c now

/-! ## The debounced signal -/

/-- A sample of the button. -/
structure ButtonSample where
  pressed : Bool
  connected : Bool
  now : UInt64
  deriving DecidableEq

/-- Samples, the last one first. -/
abbrev Samples := List ButtonSample

/-- When the samples that end a history with one level began. -/
def levelStart : Samples → UInt64
  | [] => 0
  | s :: past => ((s :: past.takeWhile (·.pressed = s.pressed)).getLast?.map (·.now)).getD 0

/-- The last samples have one level, for so many milliseconds. -/
def heldFor (ms : ℕ) (h : Samples) : Bool :=
  match h with
  | [] => false
  | s :: _ => (levelStart h).toNat + ms ≤ s.now.toNat

/-- The debounced signal. It starts with the first run of released samples of 30 milliseconds, and takes every
level that is held for as long. -/
def debounced : Samples → Option Bool
  | [] => none
  | s :: past =>
    if heldFor 30 (s :: past) && (debounced past ≠ none || !s.pressed) then some s.pressed
    else debounced past

/-- The complete press and release cycles of the signal. -/
def cycles : Samples → ℕ
  | [] => 0
  | s :: past =>
    cycles past + if debounced past = some true ∧ debounced (s :: past) = some false then 1 else 0

/-- When the last press was recognised. -/
def recognised : Samples → UInt64
  | [] => 0
  | s :: past => if debounced past = some true then recognised past else s.now

/-- No sample found a recognised press still unreleased after 1500 milliseconds. -/
def NoLongPress (h : Samples) : Prop := ∀ s past, s :: past <:+ h → debounced (s :: past) = some true →
  s.now.toNat < (recognised (s :: past)).toNat + 1500

theorem levelStart_single (s : ButtonSample) : levelStart [s] = s.now := rfl

theorem levelStart_cons (s s' : ButtonSample) (past : Samples) : levelStart (s :: s' :: past) =
    if s.pressed ≠ s'.pressed then s.now else levelStart (s' :: past) := by
  rw [levelStart, levelStart, List.takeWhile_cons]
  by_cases hlevel : s'.pressed = s.pressed
  · rw [if_neg (not_not.2 hlevel.symm), if_pos (decide_eq_true hlevel), hlevel, List.getLast?_cons_cons]
  · rw [if_pos (Ne.symm hlevel), if_neg (by simpa using hlevel)]
    rfl

variable {c : BootClicks} {s : ButtonSample} {h : Samples}

theorem debounced_cons (s : ButtonSample) (past : Samples) : debounced (s :: past) =
    if heldFor 30 (s :: past) && (debounced past ≠ none || !s.pressed) then some s.pressed
    else debounced past := by
  rw [debounced]

/-- A history without a signal has no cycle. -/
theorem cycles_of_none (hnone : debounced h = none) : cycles h = 0 := by
  induction h with
  | nil => rfl
  | cons s past ih =>
    have hpast : debounced past = none := by
      rw [debounced_cons] at hnone
      split_ifs at hnone
      exact hnone
    rw [cycles, ih hpast, hpast, if_neg (fun hedge => nomatch hedge.1)]

/-- A press that is not there is not too long. -/
theorem NoLongPress.cons (hlong : NoLongPress h) (hhead : debounced (s :: h) = some true →
    s.now.toNat < (recognised (s :: h)).toNat + 1500) : NoLongPress (s :: h) := by
  intro s' past hsuffix hpressed
  rcases List.suffix_cons_iff.1 hsuffix with heq | hsuffix
  · cases heq
    exact hhead hpressed
  · exact hlong s' past hsuffix hpressed

/-! ## The machine and the signal -/

/-- What the machine keeps of the samples since the request. -/
structure Tracks (c : BootClicks) (s : ButtonSample) (past : Samples) : Prop where
  pending : c.pending = true
  deadline : ∀ first ∈ (s :: past).getLast?, c.deadline.toNat = first.now.toNat + 30000
  raw : c.raw = s.pressed
  changed : c.changed = levelStart (s :: past)
  started : levelStart (s :: past) ≤ s.now
  signal : debounced (s :: past) = if c.armed then some c.stable else none
  pressing : c.pressing = (c.armed && c.stable)
  clicks : c.clicks = cycles (s :: past)
  few : cycles (s :: past) < 3
  pressedAt : debounced (s :: past) = some true → c.pressedAt = recognised (s :: past) ∧
    recognised (s :: past) ≤ s.now

/-- The pause and the long press. -/
theorem Tracks.quiet (ht : Tracks c s h) (hlong : NoLongPress h) (hsignal : c.armed = true) :
    ((tickQuiet c s.now).1 = .wait → (tickQuiet c s.now).2 = c ∧ NoLongPress (s :: h)) ∧
      ((tickQuiet c s.now).1 ≠ .wait → (tickQuiet c s.now).2 = clicksClear) ∧
      (tickQuiet c s.now).1 ≠ .no ∧
      ((tickQuiet c s.now).1 = .yes → cycles (s :: h) = 2 ∧ debounced (s :: h) = some false ∧
        s.pressed = false ∧ heldFor 600 (s :: h) = true ∧ NoLongPress (s :: h)) := by
  have hstable : debounced (s :: h) = some c.stable := by rw [ht.signal, if_pos hsignal]
  have hpressing : c.pressing = c.stable := by rw [ht.pressing, hsignal, Bool.true_and]
  have hspan : s.now - c.changed ≥ 600 ↔ heldFor 600 (s :: h) = true := by
    rw [ht.changed, sub_ge_iff ht.started, heldFor, decide_eq_true_eq]
    rfl
  unfold tickQuiet
  by_cases hpress : (c.pressing && decide (s.now - c.pressedAt ≥ 1500)) = true
  · rw [if_pos hpress]
    exact ⟨nofun, fun _ => rfl, nofun, nofun⟩
  · rw [if_neg hpress]
    -- the branch before this one is that of a press of 1500 milliseconds
    have hshort : NoLongPress (s :: h) := by
      refine hlong.cons fun hpressed => ?_
      obtain ⟨hat, hle⟩ := ht.pressedAt hpressed
      have htrue : c.pressing = true := hpressing.trans (Option.some.inj (hstable.symm.trans hpressed))
      rw [htrue, Bool.true_and, decide_eq_true_eq, hat, sub_ge_iff hle] at hpress
      exact Nat.not_le.1 hpress
    by_cases hquiet : (decide (c.clicks ≠ 0) && !c.raw && !c.stable && decide (s.now - c.changed ≥ 600)) = true
    · rw [if_pos hquiet]
      simp only [Bool.and_eq_true, decide_eq_true_eq, Bool.not_eq_true'] at hquiet
      obtain ⟨⟨⟨-, hraw⟩, hreleased⟩, hlasting⟩ := hquiet
      refine ⟨?_, fun _ => rfl, ?_, fun hyes => ?_⟩
      · unfold finish
        split_ifs <;> exact nofun
      · unfold finish
        split_ifs <;> exact nofun
      · -- a pause after another number of clicks cancels
        have htwo : c.clicks = 2 := by
          by_contra hne
          rw [if_neg hne] at hyes
          cases hyes
        exact ⟨ht.clicks.symm.trans htwo, hstable.trans (congrArg some hreleased), ht.raw.symm.trans hraw,
          hspan.1 hlasting, hshort⟩
    · rw [if_neg hquiet]
      exact ⟨fun _ => ⟨rfl, hshort⟩, fun hne => absurd rfl hne, nofun, nofun⟩

variable {s' : ButtonSample} {past : Samples}

/-- The raw level and its start after a sample. -/
theorem Tracks.sampled (ht : Tracks c s' past) : c.sampled s.pressed s.now =
    { c with raw := s.pressed, changed := levelStart (s :: s' :: past) } := by
  unfold BootClicks.sampled
  rw [ht.raw, levelStart_cons]
  split_ifs with hlevel
  · rfl
  · rw [not_not] at hlevel
    rw [← ht.changed, hlevel, ← ht.raw]

theorem Tracks.started_cons (ht : Tracks c s' past) (htime : s'.now ≤ s.now) :
    levelStart (s :: s' :: past) ≤ s.now := by
  rw [levelStart_cons]
  split_ifs
  · exact UInt64.le_refl _
  · exact UInt64.le_trans ht.started htime

/-- A sample of a machine that is not armed. -/
theorem Tracks.arming (ht : Tracks c s' past) (htime : s'.now ≤ s.now) (harmed : c.armed = false)
    (hlong : NoLongPress (s' :: past)) :
    (tickArming (c.sampled s.pressed s.now) s.pressed s.now).1 = .wait ∧
      Tracks (tickArming (c.sampled s.pressed s.now) s.pressed s.now).2 s (s' :: past) ∧
      NoLongPress (s :: s' :: past) := by
  have hnone : debounced (s' :: past) = none := by rw [ht.signal, harmed, if_neg Bool.false_ne_true]
  have hstart := ht.started_cons htime
  have hspan : s.now - levelStart (s :: s' :: past) ≥ 30 ↔ heldFor 30 (s :: s' :: past) = true := by
    rw [sub_ge_iff hstart, heldFor, decide_eq_true_eq]
    rfl
  have hsignal : debounced (s :: s' :: past) =
      if heldFor 30 (s :: s' :: past) && !s.pressed then some s.pressed else none := by
    rw [debounced_cons, hnone]
    simp
  have hclicks : cycles (s :: s' :: past) = 0 := by
    rw [cycles, cycles_of_none hnone, hnone, if_neg (fun hedge => nomatch hedge.1)]
  -- the first level of the signal is released, or there is none yet
  have hpressed : debounced (s :: s' :: past) ≠ some true := by
    rw [hsignal]
    split_ifs with hheld
    · rw [Bool.and_eq_true, Bool.not_eq_true'] at hheld
      rw [hheld.2]
      exact nofun
    · exact nofun
  have hzero : c.clicks = 0 := ht.clicks.trans (cycles_of_none hnone)
  have hloose : c.pressing = false := by rw [ht.pressing, harmed, Bool.false_and]
  rw [ht.sampled]
  unfold tickArming
  refine ⟨rfl, ?_, hlong.cons fun h => absurd h hpressed⟩
  by_cases hheld : (!s.pressed && decide (s.now - levelStart (s :: s' :: past) ≥ 30)) = true
  · rw [if_pos hheld]
    rw [Bool.and_eq_true, Bool.not_eq_true', decide_eq_true_eq, hspan] at hheld
    refine ⟨ht.pending, ht.deadline, rfl, rfl, hstart, ?_, hloose, hzero.trans hclicks.symm, by rw [hclicks]; decide,
      fun h => absurd h hpressed⟩
    rw [hsignal, hheld.1, hheld.2]
    rfl
  · rw [if_neg hheld]
    refine ⟨ht.pending, ht.deadline, rfl, rfl, hstart, ?_, ht.pressing, hzero.trans hclicks.symm,
      by rw [hclicks]; decide, fun h => absurd h hpressed⟩
    rw [Bool.and_comm, Bool.and_eq_true, Bool.not_eq_true', decide_eq_true_eq, hspan] at hheld
    rw [hsignal, if_neg (by rwa [Bool.and_eq_true, Bool.not_eq_true']), harmed, if_neg Bool.false_ne_true]

/-- What a sample decides, as the signal has it. -/
structure Decides (result : ClickResult) (h : Samples) : Prop where
  yes : result = .yes → cycles h = 2 ∧ debounced h = some false ∧ heldFor 600 h = true ∧
    (∀ s ∈ h.head?, s.pressed = false) ∧ NoLongPress h
  no : result = .no → cycles h = 3 ∧ debounced h = some false ∧ NoLongPress h

/-- What is kept after a sample, and what it decides. -/
structure After (r : ClickResult × BootClicks) (s : ButtonSample) (past : Samples) : Prop where
  wait : r.1 = .wait → Tracks r.2 s past ∧ NoLongPress (s :: past)
  cleared : r.1 ≠ .wait → r.2 = clicksClear
  decides : Decides r.1 (s :: past)

theorem Tracks.after_quiet (ht : Tracks c s h) (hlong : NoLongPress h) (harmed : c.armed = true) :
    After (tickQuiet c s.now) s h := by
  obtain ⟨hwait, hcleared, hno, hyes⟩ := ht.quiet hlong harmed
  refine ⟨fun hw => ?_, hcleared, fun hy => ?_, fun hn => absurd hn hno⟩
  · obtain ⟨hsame, hshort⟩ := hwait hw
    rw [hsame]
    exact ⟨ht, hshort⟩
  · obtain ⟨htwo, hreleased, hlevel, hheld, hshort⟩ := hyes hy
    refine ⟨htwo, hreleased, hheld, ?_, hshort⟩
    rintro _ ⟨⟩
    exact hlevel

/-- A sample of a machine that is. -/
theorem Tracks.armed_step (ht : Tracks c s' past) (htime : s'.now ≤ s.now) (harmed : c.armed = true)
    (hlong : NoLongPress (s' :: past)) :
    After (tickArmed (c.sampled s.pressed s.now) s.now) s (s' :: past) := by
  have hold : debounced (s' :: past) = some c.stable := by rw [ht.signal, if_pos harmed]
  have hpressing : c.pressing = c.stable := by rw [ht.pressing, harmed, Bool.true_and]
  have hstart := ht.started_cons htime
  have hspan : s.now - levelStart (s :: s' :: past) ≥ 30 ↔ heldFor 30 (s :: s' :: past) = true := by
    rw [sub_ge_iff hstart, heldFor, decide_eq_true_eq]
    rfl
  have hsignal : debounced (s :: s' :: past) =
      if heldFor 30 (s :: s' :: past) then some s.pressed else some c.stable := by
    rw [debounced_cons, hold]
    simp
  rw [ht.sampled]
  unfold tickArmed
  by_cases hchange : (decide (c.stable ≠ s.pressed) &&
      decide (s.now - levelStart (s :: s' :: past) ≥ 30)) = true
  · rw [if_pos hchange]
    rw [Bool.and_eq_true, decide_eq_true_eq, decide_eq_true_eq, hspan] at hchange
    obtain ⟨hdiffer, hheld⟩ := hchange
    rw [hheld, if_pos rfl] at hsignal
    rcases hlevel : s.pressed with _ | _
    · -- a release is recognised, of a press that was
      have hstable : c.stable = true := by
        rw [hlevel] at hdiffer
        exact Bool.not_eq_false _ ▸ hdiffer
      have hcycles : cycles (s :: s' :: past) = c.clicks + 1 := by
        rw [cycles, hold, hsignal, hstable, hlevel, ht.clicks]
        rfl
      rw [hpressing, hstable, if_neg Bool.false_ne_true, if_pos rfl]
      have hshort : NoLongPress (s :: s' :: past) := hlong.cons fun h => by
        rw [hsignal, hlevel] at h
        cases h
      by_cases hthree : c.clicks + 1 ≥ 3
      · rw [if_pos hthree]
        have hfew := ht.few
        rw [← ht.clicks] at hfew
        exact ⟨nofun, fun _ => rfl, nofun, fun _ => ⟨by omega, by rw [hsignal, hlevel], hshort⟩⟩
      · rw [if_neg hthree]
        refine Tracks.after_quiet ⟨ht.pending, ht.deadline, hlevel.symm, rfl, hstart, ?_, ?_, hcycles.symm, by omega, ?_⟩
          hlong harmed
        · rw [hsignal, hlevel]
          exact (if_pos harmed).symm
        · exact (Bool.and_false _).symm
        · rw [hsignal, hlevel]
          exact nofun
    · -- a press is recognised
      have hstable : c.stable = false := by
        rw [hlevel] at hdiffer
        exact Bool.not_eq_true _ ▸ hdiffer
      have hcycles : cycles (s :: s' :: past) = c.clicks := by
        rw [cycles, hold, hstable, ht.clicks]
        rfl
      rw [if_pos rfl]
      refine Tracks.after_quiet ⟨ht.pending, ht.deadline, hlevel.symm, rfl, hstart, ?_, ?_, hcycles.symm, ?_, fun _ => ?_⟩
        hlong harmed
      · rw [hsignal, hlevel]
        exact (if_pos harmed).symm
      · change true = (c.armed && true)
        rw [harmed]
        rfl
      · rw [hcycles, ht.clicks]
        exact ht.few
      · rw [recognised, hold, hstable, if_neg (fun h => nomatch h)]
        exact ⟨rfl, UInt64.le_refl _⟩
  · rw [if_neg hchange]
    -- the signal stays as it is
    have hsame : debounced (s :: s' :: past) = some c.stable := by
      rw [hsignal]
      split_ifs with hheld
      · rw [Bool.and_eq_true, decide_eq_true_eq, decide_eq_true_eq, hspan, not_and] at hchange
        by_contra hne
        exact hchange (fun heq => hne (congrArg some heq.symm)) hheld
      · rfl
    have hcycles : cycles (s :: s' :: past) = cycles (s' :: past) := by
      rw [cycles, hold, hsame]
      cases c.stable <;> rfl
    refine Tracks.after_quiet ⟨ht.pending, ht.deadline, rfl, rfl, hstart, ?_, ht.pressing, ht.clicks.trans hcycles.symm,
      by rw [hcycles]; exact ht.few, fun hpressed => ?_⟩ hlong harmed
    · rw [hsame]
      exact (if_pos harmed).symm
    · have hwas : debounced (s' :: past) = some true := hold.trans (hsame.symm.trans hpressed)
      rw [recognised, if_pos hwas]
      exact ⟨(ht.pressedAt hwas).1, UInt64.le_trans (ht.pressedAt hwas).2 htime⟩

/-- A sample that is connected. -/
theorem Tracks.tick (ht : Tracks c s' past) (htime : s'.now ≤ s.now) (hlong : NoLongPress (s' :: past))
    (hconnected : s.connected = true) :
    (clicksTick c s.pressed s.connected s.now = finish .cancel) ∨
      (∀ first ∈ (s' :: past).getLast?, s.now.toNat < first.now.toNat + 30000) ∧
        After (clicksTick c s.pressed s.connected s.now) s (s' :: past) := by
  unfold clicksTick
  rw [if_neg (by simp [hconnected]), if_neg (by simp [ht.pending])]
  by_cases hlate : (decide (s.now ≥ c.deadline) || decide (s.now < c.changed)) = true
  · exact .inl (if_pos hlate)
  · rw [if_neg hlate]
    rw [Bool.or_eq_true, decide_eq_true_eq, decide_eq_true_eq, not_or] at hlate
    refine .inr ⟨fun first hfirst => ?_, ?_⟩
    · rw [← ht.deadline first hfirst]
      exact UInt64.lt_iff_toNat_lt.1 (UInt64.not_le.1 hlate.1)
    · dsimp only
      have hsame : (c.sampled s.pressed s.now).armed = c.armed := by rw [ht.sampled]
      rcases harmed : c.armed with _ | _
      · rw [hsame, harmed, if_pos (by decide)]
        obtain ⟨hwait, htracks, hshort⟩ := ht.arming htime harmed hlong
        exact ⟨fun _ => ⟨htracks, hshort⟩, fun hne => absurd hwait hne,
          (fun hyes => nomatch hwait.symm.trans hyes), (fun hno => nomatch hwait.symm.trans hno)⟩
      · rw [hsame, harmed, if_neg (by decide)]
        exact ht.armed_step htime harmed hlong

/-! ## Runs -/

/-- A call. -/
inductive ClickOp where
  | clear
  | begin (pressed : Bool) (now : UInt64)
  | tick (s : ButtonSample)

/-- The time of a call. -/
def ClickOp.time : ClickOp → Option UInt64
  | .clear => none
  | .begin _ now => some now
  | .tick s => some s.now

/-- The machine, and the samples since the request that it decides on, of which the request is the first. -/
structure ClickWorld where
  machine : BootClicks
  session : Option Samples

/-- What a tick returns. -/
def ClickWorld.result (w : ClickWorld) (s : ButtonSample) : ClickResult :=
  (clicksTick w.machine s.pressed s.connected s.now).1

/-- A call on the machine. -/
def ClickWorld.step (w : ClickWorld) : ClickOp → ClickWorld
  | .clear => ⟨clicksClear, none⟩
  | .begin pressed now =>
    ⟨(clicksBegin w.machine pressed now).2,
      if (clicksBegin w.machine pressed now).1 then some [⟨pressed, true, now⟩] else w.session⟩
  | .tick s =>
    ⟨(clicksTick w.machine s.pressed s.connected s.now).2,
      if w.result s = .wait then w.session.map (s :: ·) else none⟩

/-- The state after calls on a machine in static memory. -/
def clickRun (ops : List ClickOp) : ClickWorld := ops.foldl ClickWorld.step ⟨clicksClear, none⟩

/-- The times of the calls. -/
def clickTimes (ops : List ClickOp) : List UInt64 := ops.filterMap ClickOp.time

/-- Time does not decrease. -/
def ClicksOrdered (ops : List ClickOp) : Prop := (clickTimes ops).Pairwise (· ≤ ·)

/-- What holds between the calls. -/
structure ClickInv (seen : List UInt64) (w : ClickWorld) : Prop where
  idle : w.session = none → w.machine = clicksClear
  session : ∀ h ∈ w.session, ∃ s past, h = s :: past ∧ Tracks w.machine s past ∧ NoLongPress h ∧
    (∀ x ∈ h, x.connected = true) ∧ s.now ∈ seen

variable {w : ClickWorld} {seen seen' : List UInt64}

theorem ClickInv.cleared : ClickInv seen ⟨clicksClear, none⟩ := ⟨fun _ => rfl, nofun⟩

theorem ClickInv.mono (hi : ClickInv seen w) (hsub : seen ⊆ seen') : ClickInv seen' w := by
  refine ⟨hi.idle, fun h hh => ?_⟩
  obtain ⟨s, past, heq, ht, hlong, hconnected, hmem⟩ := hi.session h hh
  exact ⟨s, past, heq, ht, hlong, hconnected, hsub hmem⟩

theorem toNat_latest : ((0xffffffffffffffff : UInt64) - 30000).toNat = 2 ^ 64 - 30001 := by decide

/-- A request that is accepted. -/
theorem tracks_begin {pressed : Bool} {now : UInt64} (h : ¬ now > 0xffffffffffffffff - 30000) :
    Tracks (begun pressed now) ⟨pressed, true, now⟩ [] := by
  have hle := UInt64.le_iff_toNat_le.1 (UInt64.not_lt.1 h)
  rw [toNat_latest] at hle
  have hnone : debounced [⟨pressed, true, now⟩] = none := by
    rw [debounced_cons, heldFor, levelStart_single, if_neg]
    · rfl
    · rw [Bool.and_eq_true, decide_eq_true_eq]
      exact fun hheld => absurd (show now.toNat + 30 ≤ now.toNat from hheld.1) (by omega)
  refine ⟨rfl, ?_, rfl, rfl, UInt64.le_refl _, hnone, rfl, (cycles_of_none hnone).symm, ?_, ?_⟩
  · rintro first ⟨⟩
    change (now + 30000).toNat = now.toNat + 30000
    rw [UInt64.toNat_add, Nat.mod_eq_of_lt]
    · rfl
    · change now.toNat + 30000 < 2 ^ 64
      omega
  · rw [cycles_of_none hnone]
    decide
  · rw [hnone]
    exact nofun

theorem step_begin (pressed : Bool) (now : UInt64) : w.step (.begin pressed now) =
    ⟨(clicksBegin w.machine pressed now).2,
      if (clicksBegin w.machine pressed now).1 then some [⟨pressed, true, now⟩] else w.session⟩ := rfl

theorem step_tick : w.step (.tick s) = ⟨(clicksTick w.machine s.pressed s.connected s.now).2,
    if w.result s = .wait then w.session.map (s :: ·) else none⟩ := rfl

theorem ClickInv.begin (hi : ClickInv seen w) (pressed : Bool) (now : UInt64) (hsub : seen ⊆ seen')
    (hmem : now ∈ seen') : ClickInv seen' (w.step (.begin pressed now)) := by
  have hrefused (h : w.machine.pending = true ∨ now > 0xffffffffffffffff - 30000) :
      w.step (.begin pressed now) = w := by
    rw [step_begin, clicksBegin, if_pos (by rwa [Bool.or_eq_true, decide_eq_true_eq])]
    rfl
  rcases hsession : w.session with _ | h
  · have hidle := hi.idle hsession
    by_cases hlate : now > 0xffffffffffffffff - 30000
    · rw [hrefused (.inr hlate)]
      exact hi.mono hsub
    · have hbegun : clicksBegin w.machine pressed now = (true, begun pressed now) := by
        rw [hidle, clicksBegin, if_neg]
        rw [Bool.or_eq_true, decide_eq_true_eq, not_or]
        exact ⟨nofun, hlate⟩
      rw [step_begin, hbegun]
      refine ⟨nofun, ?_⟩
      rintro _ ⟨⟩
      have htracks : Tracks (begun pressed now) ⟨pressed, true, now⟩ [] := tracks_begin hlate
      refine ⟨_, [], rfl, htracks, ?_, by simp, hmem⟩
      intro s past hsuffix hpressed
      rcases List.suffix_cons_iff.1 hsuffix with heq | hnil
      · cases heq
        rw [htracks.signal] at hpressed
        cases hpressed
      · cases List.suffix_nil.1 hnil
  · obtain ⟨s, past, -, ht, -⟩ := hi.session h hsession
    rw [hrefused (.inl ht.pending)]
    exact hi.mono hsub

/-- The samples, the last of which decides, show so many cycles after the signal was armed. -/
structure Clicked (n : ℕ) (h : Samples) : Prop where
  armed : ∃ later run, h = later ++ run ∧ cycles run = 0 ∧ heldFor 30 run = true ∧
    ∀ s ∈ run.head?, s.pressed = false
  cycles : cycles h = n
  released : debounced h = some false
  noLongPress : NoLongPress h
  connected : ∀ s ∈ h, s.connected = true
  inTime : ∀ first ∈ h.getLast?, ∀ last ∈ h.head?, last.now.toNat < first.now.toNat + 30000

/-- A signal starts with a run of released samples. -/
theorem armed_of_debounced (h : Samples) (hsignal : debounced h ≠ none) :
    ∃ later run, h = later ++ run ∧ Firmware.cycles run = 0 ∧ heldFor 30 run = true ∧
      ∀ s ∈ run.head?, s.pressed = false := by
  induction h with
  | nil => exact absurd rfl hsignal
  | cons s past ih =>
    by_cases hpast : debounced past = none
    · refine ⟨[], s :: past, rfl, ?_, ?_⟩
      · rw [Firmware.cycles, cycles_of_none hpast, hpast, if_neg (fun hedge => nomatch hedge.1)]
      · rw [debounced_cons, hpast] at hsignal
        by_cases hheld : (heldFor 30 (s :: past) && !s.pressed) = true
        · rw [Bool.and_eq_true, Bool.not_eq_true'] at hheld
          refine ⟨hheld.1, ?_⟩
          rintro _ ⟨⟩
          exact hheld.2
        · exact absurd (if_neg (by simpa using hheld)) hsignal
    · obtain ⟨later, run, rfl, hrun⟩ := ih hpast
      exact ⟨s :: later, run, rfl, hrun⟩

/-- What a tick does. -/
theorem ClickInv.tick (hi : ClickInv seen w) {s : ButtonSample} (hmem : s.now ∈ seen')
    (htime : ∀ t ∈ seen, t ≤ s.now) :
    ClickInv seen' (w.step (.tick s)) ∧
      (w.result s ≠ .wait → w.step (.tick s) = ⟨clicksClear, none⟩) ∧
      (w.result s = .yes → ∃ h, w.session = some h ∧ Clicked 2 (s :: h) ∧ heldFor 600 (s :: h) = true ∧
        s.pressed = false) ∧
      (w.result s = .no → ∃ h, w.session = some h ∧ Clicked 3 (s :: h)) := by
  have hcancel (hc : clicksTick w.machine s.pressed s.connected s.now = finish .cancel) :
      w.result s = .cancel ∧ w.step (.tick s) = ⟨clicksClear, none⟩ := by
    have hresult : w.result s = .cancel := congrArg Prod.fst hc
    refine ⟨hresult, ?_⟩
    rw [step_tick, hresult, hc]
    rfl
  have hcancelled (hc : clicksTick w.machine s.pressed s.connected s.now = finish .cancel) :
      ClickInv seen' (w.step (.tick s)) ∧
      (w.result s ≠ .wait → w.step (.tick s) = ⟨clicksClear, none⟩) ∧
      (w.result s = .yes → ∃ h, w.session = some h ∧ Clicked 2 (s :: h) ∧ heldFor 600 (s :: h) = true ∧
        s.pressed = false) ∧
      (w.result s = .no → ∃ h, w.session = some h ∧ Clicked 3 (s :: h)) := by
    obtain ⟨hresult, hstep⟩ := hcancel hc
    rw [hresult, hstep]
    exact ⟨.cleared, fun _ => rfl, nofun, nofun⟩
  rcases hconnected : s.connected with _ | _
  · exact hcancelled (by rw [clicksTick, hconnected, if_pos (by decide)])
  rcases hsession : w.session with _ | h
  · have hwait : clicksTick w.machine s.pressed s.connected s.now = (.wait, clicksClear) := by
      rw [hi.idle hsession, clicksTick, hconnected]
      rfl
    have hstep : w.step (.tick s) = ⟨clicksClear, none⟩ := by
      rw [step_tick, hwait, hsession]
      split_ifs <;> rfl
    have hresult : w.result s = .wait := congrArg Prod.fst hwait
    rw [hresult, hstep]
    exact ⟨.cleared, fun _ => rfl, nofun, nofun⟩
  obtain ⟨s', past, rfl, ht, hlong, hall, hlast⟩ := hi.session h hsession
  rcases ht.tick (htime _ hlast) hlong hconnected with hc | ⟨hintime, hafter⟩
  · exact hsession ▸ hcancelled hc
  have hclicked {n : ℕ} (hcycles : Firmware.cycles (s :: s' :: past) = n)
      (hreleased : debounced (s :: s' :: past) = some false) (hshort : NoLongPress (s :: s' :: past)) :
      Clicked n (s :: s' :: past) := by
    refine ⟨armed_of_debounced _ (by rw [hreleased]; exact nofun), hcycles, hreleased, hshort, ?_, ?_⟩
    · rintro x (_ | ⟨_, hx⟩)
      · exact hconnected
      · exact hall x hx
    · rintro first hfirst _ ⟨⟩
      exact hintime first hfirst
  refine ⟨?_, fun hne => ?_, fun hyes => ?_, fun hno => ?_⟩
  · rw [step_tick, hsession]
    by_cases hwait : w.result s = .wait
    · obtain ⟨htracks, hshort⟩ := hafter.wait hwait
      rw [if_pos hwait]
      refine ⟨nofun, ?_⟩
      rintro _ ⟨⟩
      refine ⟨s, s' :: past, rfl, htracks, hshort, ?_, hmem⟩
      rintro x (_ | ⟨_, hx⟩)
      · exact hconnected
      · exact hall x hx
    · rw [if_neg hwait, hafter.cleared hwait]
      exact .cleared
  · rw [step_tick, if_neg hne, hafter.cleared hne]
  · obtain ⟨hcycles, hreleased, hheld, hlevel, hshort⟩ := hafter.decides.yes hyes
    exact ⟨_, rfl, hclicked hcycles hreleased hshort, hheld, hlevel s rfl⟩
  · obtain ⟨hcycles, hreleased, hshort⟩ := hafter.decides.no hno
    exact ⟨_, rfl, hclicked hcycles hreleased hshort⟩

/-- The signal changes only to a level that is held for 30 milliseconds. -/
theorem debounced_change (s : ButtonSample) (past : Samples) (hchange : debounced (s :: past) ≠ debounced past) :
    debounced (s :: past) = some s.pressed ∧ heldFor 30 (s :: past) = true := by
  rw [debounced_cons] at hchange ⊢
  split_ifs at hchange ⊢ with hheld
  · exact ⟨rfl, (Bool.and_eq_true _ _ ▸ hheld).1⟩
  · exact absurd rfl hchange

theorem clickTimes_append (ops : List ClickOp) (op : ClickOp) :
    clickTimes (ops ++ [op]) = clickTimes ops ++ op.time.toList :=
  filterMap_concat ClickOp.time ops op

theorem clickRun_append (ops : List ClickOp) (op : ClickOp) :
    clickRun (ops ++ [op]) = (clickRun ops).step op := by
  rw [clickRun, List.foldl_append]
  rfl

theorem ClicksOrdered.init {ops : List ClickOp} {op : ClickOp} (h : ClicksOrdered (ops ++ [op])) :
    ClicksOrdered ops :=
  (ordered_concat h).1

/-- A call is not before those that came earlier. -/
theorem ClicksOrdered.last {ops : List ClickOp} {op : ClickOp} (h : ClicksOrdered (ops ++ [op])) {now : UInt64}
    (hnow : op.time = some now) : ∀ t ∈ clickTimes ops, t ≤ now :=
  (ordered_concat h).2 now hnow

/-- Where time does not decrease, the invariant holds after every call. -/
theorem clickRun_inv (ops : List ClickOp) (h : ClicksOrdered ops) : ClickInv (clickTimes ops) (clickRun ops) := by
  induction ops using List.reverseRecOn with
  | nil => exact .cleared
  | append_singleton ops op ih =>
    have hi := ih h.init
    have hlast {now : UInt64} (hnow : op.time = some now) : now ∈ clickTimes (ops ++ [op]) := by
      rw [clickTimes_append, hnow]
      exact List.mem_append_right _ (List.mem_singleton_self _)
    rw [clickRun_append]
    rcases op with _ | ⟨pressed, now⟩ | s
    · exact .cleared
    · refine hi.begin pressed now ?_ (hlast rfl)
      rw [clickTimes_append]
      exact List.subset_append_left _ _
    · exact (hi.tick (hlast rfl) (h.last rfl)).1

/-- In every run of calls whose time does not decrease, a tick says yes only after two cycles of the signal and a
pause of 600 milliseconds, and no only after three cycles; a level that is not held for 30 milliseconds does not
change the signal; and after any other result than `CLICK_WAIT` the machine is cleared, and returns nothing more
than `CLICK_CANCEL` for a sample that is not connected. -/
theorem click_decisions (ops : List ClickOp) (s : ButtonSample) (h : ClicksOrdered (ops ++ [.tick s])) :
    ((clickRun ops).result s = .yes → ∃ past, (clickRun ops).session = some past ∧ Clicked 2 (s :: past) ∧
      heldFor 600 (s :: past) = true ∧ s.pressed = false) ∧
    ((clickRun ops).result s = .no → ∃ past, (clickRun ops).session = some past ∧ Clicked 3 (s :: past)) ∧
    (∀ (s : ButtonSample) (past : Samples), debounced (s :: past) ≠ debounced past →
      debounced (s :: past) = some s.pressed ∧ heldFor 30 (s :: past) = true) ∧
    ((clickRun ops).result s ≠ .wait → clickRun (ops ++ [.tick s]) = ⟨clicksClear, none⟩) ∧
    ((clickRun ops).session = none → clickRun (ops ++ [.tick s]) = ⟨clicksClear, none⟩ ∧
      ((clickRun ops).result s = .wait ∨ (clickRun ops).result s = .cancel ∧ s.connected = false)) := by
  have hi := clickRun_inv ops h.init
  obtain ⟨-, hcleared, hyes, hno⟩ := hi.tick (List.mem_singleton_self s.now) (h.last rfl)
  refine ⟨hyes, hno, debounced_change, fun hne => (clickRun_append _ _).trans (hcleared hne), fun hnone => ?_⟩
  rw [clickRun_append, step_tick, hnone, ClickWorld.result, hi.idle hnone]
  rcases hconnected : s.connected with _ | _
  · exact ⟨rfl, .inr ⟨rfl, rfl⟩⟩
  · exact ⟨rfl, .inl rfl⟩

/-- Two clicks as in the test of the firmware. -/
def sampleClicks : List ClickOp :=
  .begin false 0 :: ([(false, 30), (true, 100), (true, 130), (false, 160), (false, 190), (true, 300), (true, 330),
    (false, 360), (false, 390)] : List (Bool × UInt64)).map fun x => .tick ⟨x.1, true, x.2⟩

theorem sampleClicks_yes : ∃ past, (clickRun sampleClicks).session = some past ∧
    Clicked 2 (⟨false, true, 960⟩ :: past) := by
  have hordered : ClicksOrdered (sampleClicks ++ [.tick ⟨false, true, 960⟩]) := by
    unfold ClicksOrdered
    decide
  obtain ⟨past, hsession, hclicked, -⟩ :=
    (click_decisions sampleClicks ⟨false, true, 960⟩ hordered).1 (by decide)
  exact ⟨past, hsession, hclicked⟩

/-- After a result another one is returned without a new request. -/
theorem cancelled_again : ClicksOrdered ([.begin false 0, .tick ⟨false, false, 1⟩] ++ [.tick ⟨false, false, 2⟩]) ∧
    (clickRun [.begin false 0]).result ⟨false, false, 1⟩ = .cancel ∧
    (clickRun [.begin false 0, .tick ⟨false, false, 1⟩]).result ⟨false, false, 2⟩ = .cancel := by
  refine ⟨?_, by decide, by decide⟩
  unfold ClicksOrdered
  decide

end Bulldog.Firmware
