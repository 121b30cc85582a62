import Bulldog.Lib.Action
import Bulldog.Lib.Pieces
import Bulldog.Lib.Urllib

/-!
# The output of a sandbox

`_run_bounded` of `namespace_sandbox.py`. The child's two pipes are read in rounds of ready pieces, in any order,
until both have ended; a buffer takes what still fits, and what does not fit sets a flag, at which the child is
terminated and a marker is put at the end of the error output.

What the child writes, also after it is terminated, is arbitrary, so terminating it does nothing here.
-/

namespace Bulldog.Sandbox

/-! ## Reading the pipes -/

/-- The two pipes. -/
inductive Pipe where
  | stdout
  | stderr
  deriving DecidableEq

/-- What `_run_bounded` knows while it reads. -/
structure Capture where
  buffers : Pipe → Bytes
  exceeded : Bool
  /-- The pipes that are registered with the selector. -/
  registered : List Pipe

/-- Before the first round. -/
def Capture.initial : Capture := ⟨fun _ => [], false, [.stdout, .stderr]⟩

/-- `buffer[:k]`, where a negative `k` counts from the end. -/
def sliceTo (buffer : Bytes) (k : ℤ) : Bytes :=
  if 0 ≤ k then buffer.take k.toNat else buffer.take (buffer.length + k).toNat

/-- What is done with a piece of a ready pipe, which has ended where the piece is empty. -/
def Capture.read (maxOutputBytes : ℤ) (c : Capture) (event : Pipe × Bytes) : Capture :=
  if event.2 = [] then { c with registered := c.registered.filter (· ≠ event.1) }
  else
    let remaining := maxOutputBytes - (c.buffers event.1).length
    let buffer := if remaining > 0 then c.buffers event.1 ++ sliceTo event.2 remaining else c.buffers event.1
    { c with
      buffers := Function.update c.buffers event.1 buffer
      exceeded := c.exceeded || decide ((event.2.length : ℤ) > remaining) }

/-- A turn of the loop: whether the deadline has passed, and what the ready pipes give. -/
structure Round where
  expired : Bool
  events : List (Pipe × Bytes)

/-- An exception. -/
inductive RunError where
  | valueError (message : String)
  | timeoutExpired
  deriving DecidableEq

/-- The loop, or nothing where it has not ended after these rounds. -/
def captureLoop (maxOutputBytes : ℤ) (c : Capture) : List Round → Option (Except RunError Capture)
  | [] => if c.registered = [] then some (.ok c) else none
  | round :: rounds =>
    if c.registered = [] then some (.ok c)
    else if round.expired then some (.error .timeoutExpired)
    else captureLoop maxOutputBytes (round.events.foldl (Capture.read maxOutputBytes) c) rounds

/-- `_OUTPUT_LIMIT_MARKER`. -/
def outputLimitMarker : Bytes :=
  encodeUtf8 "\n[BULL: output limit exceeded; sandbox process group terminated]\n".toList

/-- The bytes of `stdout` and `stderr` after the loop. -/
def Capture.output (maxOutputBytes : ℤ) (c : Capture) : Bytes × Bytes :=
  (c.buffers .stdout,
    if c.exceeded then
      sliceTo (c.buffers .stderr) (maxOutputBytes - outputLimitMarker.length) ++ outputLimitMarker
    else c.buffers .stderr)

/-- `bytes.decode("utf-8", errors="replace")`. -/
def decodeOutput (data : Bytes) : Str := decodeReplace data.length data

/-- `_run_bounded(..., max_output_bytes=max_output_bytes)`, for a child that ends with this code. -/
def runBounded (maxOutputBytes : ℤ) (returncode : ℤ) (rounds : List Round) :
    Option (Except RunError (ℤ × Str × Str)) :=
  if maxOutputBytes < 1 then some (.error (.valueError "max_output_bytes must be positive"))
  else (captureLoop maxOutputBytes .initial rounds).map fun result => result.map fun c =>
    (returncode, decodeOutput (c.output maxOutputBytes).1, decodeOutput (c.output maxOutputBytes).2)

/-! ## What is buffered -/

/-- What a pipe gave in some reads. -/
def given (pipe : Pipe) (events : List (Pipe × Bytes)) : Bytes :=
  (events.filter (·.1 = pipe)).flatMap Prod.snd

variable {max : ℕ} {c : Capture} {events : List (Pipe × Bytes)}

theorem given_concat (pipe : Pipe) (events : List (Pipe × Bytes)) (event : Pipe × Bytes) :
    given pipe (events ++ [event]) = given pipe events ++ if event.1 = pipe then event.2 else [] := by
  rw [given, List.filter_append, List.flatMap_append, given]
  split_ifs with h
  · rw [List.filter_cons_of_pos (by simpa using h)]
    simp
  · rw [List.filter_cons_of_neg (by simpa using h)]
    rfl

/-- After some reads, each buffer holds the first bytes of its pipe, and the flag says whether a pipe gave more
than the limit. -/
structure Holds (max : ℕ) (events : List (Pipe × Bytes)) (c : Capture) : Prop where
  buffers : ∀ pipe, c.buffers pipe = (given pipe events).take max
  exceeded : c.exceeded = true ↔ ∃ pipe, max < (given pipe events).length

theorem Holds.initial (max : ℕ) : Holds max [] .initial where
  buffers _ := (List.take_nil ..).symm
  exceeded := ⟨nofun, fun ⟨_, h⟩ => absurd h (Nat.not_lt_zero _)⟩

theorem Holds.length_le (h : Holds max events c) (pipe : Pipe) : (c.buffers pipe).length ≤ max := by
  rw [h.buffers, List.length_take]
  exact Nat.min_le_left _ _

/-- What still fits of a piece goes to the buffer. -/
theorem take_append_piece (data piece : Bytes) (max : ℕ) :
    (if (max : ℤ) - (data.take max).length > 0 then
        data.take max ++ sliceTo piece (max - (data.take max).length)
      else data.take max) = (data ++ piece).take max := by
  rw [take_append_fits, List.length_take]
  rcases Nat.lt_or_ge data.length max with hlt | hge
  · have hsub : ((max : ℤ) - (data.length : ℤ)).toNat = max - data.length := by omega
    rw [Nat.min_eq_right hlt.le, if_pos (by omega), sliceTo, if_pos (by omega), hsub]
  · rw [Nat.min_eq_left hge, if_neg (by omega), Nat.sub_self, List.take_zero, List.append_nil]

/-- A read keeps what the buffers and the flag say. -/
theorem Holds.read (h : Holds max events c) (event : Pipe × Bytes) :
    Holds max (events ++ [event]) (c.read max event) := by
  rcases event with ⟨pipe, piece⟩
  by_cases hend : piece = []
  · -- the end of a pipe adds nothing
    subst hend
    have hgiven (other : Pipe) : given other (events ++ [(pipe, [])]) = given other events := by
      rw [given_concat, ite_self, List.append_nil]
    rw [Capture.read, if_pos rfl]
    refine ⟨fun other => ?_, ?_⟩
    · rw [hgiven]
      exact h.buffers other
    · simp only [hgiven]
      exact h.exceeded
  · rw [Capture.read, if_neg hend]
    have hself : given pipe (events ++ [(pipe, piece)]) = given pipe events ++ piece := by
      rw [given_concat, if_pos rfl]
    have hother {other : Pipe} (hne : other ≠ pipe) :
        given other (events ++ [(pipe, piece)]) = given other events := by
      rw [given_concat, if_neg hne.symm, List.append_nil]
    refine ⟨fun other => ?_, ?_⟩
    · by_cases hsame : other = pipe
      · subst hsame
        dsimp only
        rw [Function.update_self, h.buffers, take_append_piece, hself]
      · dsimp only
        rw [Function.update_of_ne hsame, hother hsame, h.buffers]
    · have hlength : (c.buffers pipe).length = min max (given pipe events).length := by
        rw [h.buffers, List.length_take]
      dsimp only
      rw [Bool.or_eq_true, decide_eq_true_eq, h.exceeded, hlength]
      constructor
      · rintro (⟨other, hmore⟩ | hpiece)
        · refine ⟨other, hmore.trans_le ?_⟩
          rw [given_concat, List.length_append]
          exact Nat.le_add_right _ _
        · refine ⟨pipe, ?_⟩
          rw [hself, List.length_append]
          omega
      · rintro ⟨other, hmore⟩
        by_cases hsame : other = pipe
        · subst hsame
          rw [hself, List.length_append] at hmore
          -- the pipe was beyond the limit before, or this piece takes it there
          rcases Nat.lt_or_ge max (given other events).length with hbefore | hbefore
          · exact .inl ⟨other, hbefore⟩
          · exact .inr (by omega)
        · exact .inl ⟨other, hother hsame ▸ hmore⟩

theorem holds_foldl (max : ℕ) (events : List (Pipe × Bytes)) :
    Holds max events (events.foldl (Capture.read max) .initial) := by
  induction events using List.reverseRecOn with
  | nil => exact .initial max
  | append_singleton events event ih =>
    rw [List.foldl_append]
    exact ih.read event

/-! ## The loop -/

/-- Rounds in time in which the pipes give what a child writes, in any pieces and any order, until both have
ended. -/
structure Gives (child : Pipe → Bytes) (rounds : List Round) : Prop where
  inTime : ∀ round ∈ rounds, round.expired = false
  pieces : ∀ pipe, ∃ pieces : List Bytes, [] ∉ pieces ∧ pieces.flatten = child pipe ∧
    ((rounds.flatMap Round.events).filter (·.1 = pipe)).map Prod.snd = pieces ++ [[]]

theorem registered_foldl (max : ℤ) (c : Capture) (events : List (Pipe × Bytes)) :
    (events.foldl (Capture.read max) c).registered =
      c.registered.filter fun pipe => (pipe, []) ∉ events := by
  induction events generalizing c with
  | nil => simp
  | cons event events ih =>
    rw [List.foldl_cons, ih]
    rcases event with ⟨pipe, piece⟩
    rw [Capture.read]
    split_ifs with hend
    · subst hend
      rw [List.filter_filter]
      refine List.filter_congr fun other _ => ?_
      simp only [List.mem_cons, Prod.mk.injEq, and_true, not_or]
      by_cases h : other = pipe <;> simp [h]
    · refine List.filter_congr fun other _ => ?_
      have hne : (other, []) ≠ (pipe, piece) := fun h => hend (congrArg Prod.snd h).symm
      simp [hne]

variable {child : Pipe → Bytes} {rounds : List Round}

theorem Gives.given (h : Gives child rounds) (pipe : Pipe) :
    given pipe (rounds.flatMap Round.events) = child pipe := by
  obtain ⟨pieces, -, hflatten, hpieces⟩ := h.pieces pipe
  rw [Sandbox.given, List.flatMap_def, hpieces, List.flatten_append, hflatten]
  exact List.append_nil _

/-- A pipe that has ended gives nothing more. -/
theorem Gives.ended (h : Gives child rounds) {before after : List (Pipe × Bytes)}
    (hevents : rounds.flatMap Round.events = before ++ after) {pipe : Pipe} (hend : (pipe, []) ∈ before) :
    after.filter (·.1 = pipe) = [] := by
  obtain ⟨pieces, hpieces, -, heq⟩ := h.pieces pipe
  rw [hevents, List.filter_append, List.map_append] at heq
  refine List.map_eq_nil_iff.1 (eq_nil_of_mem_terminator hpieces ?_ heq)
  exact List.mem_map.2 ⟨(pipe, []), List.mem_filter.2 ⟨hend, by simp⟩, rfl⟩

/-- The loop takes all that the pipes give, and ends. -/
theorem captureLoop_eq (h : Gives child rounds) : captureLoop max .initial rounds =
    some (.ok ((rounds.flatMap Round.events).foldl (Capture.read max) .initial)) := by
  -- the loop after some of the rounds, whose reads are done
  suffices hloop : ∀ before after : List Round, rounds = before ++ after →
      captureLoop max ((before.flatMap Round.events).foldl (Capture.read max) .initial) after =
        some (.ok ((rounds.flatMap Round.events).foldl (Capture.read max) .initial)) from
    hloop [] rounds rfl
  intro before after
  induction after generalizing before with
  | nil =>
    rintro rfl
    rw [List.append_nil] at h ⊢
    have hnone : ((before.flatMap Round.events).foldl (Capture.read max) .initial).registered = [] := by
      rw [registered_foldl, List.filter_eq_nil_iff]
      intro pipe _ hopen
      obtain ⟨pieces, -, -, heq⟩ := h.pieces pipe
      have hmem : [] ∈ ((before.flatMap Round.events).filter (·.1 = pipe)).map Prod.snd := by
        rw [heq]
        exact List.mem_append_right _ (List.mem_singleton_self _)
      obtain ⟨⟨other, piece⟩, hevent, hpiece⟩ := List.mem_map.1 hmem
      obtain ⟨hread, hsame⟩ := List.mem_filter.1 hevent
      obtain rfl : other = pipe := of_decide_eq_true hsame
      obtain rfl : piece = [] := hpiece
      exact of_decide_eq_true hopen hread
    rw [captureLoop, if_pos hnone]
  | cons round after ih =>
    intro heq
    rw [captureLoop]
    split_ifs with hnone hexpired
    · -- both pipes have ended, so the other rounds are empty
      have hevents : rounds.flatMap Round.events =
          before.flatMap Round.events ++ (round :: after).flatMap Round.events := by
        rw [heq, List.flatMap_append]
      have hrest : (round :: after).flatMap Round.events = [] := by
        rw [registered_foldl, List.filter_eq_nil_iff] at hnone
        rw [List.eq_nil_iff_forall_not_mem]
        intro event hevent
        have hended : (event.1, []) ∈ before.flatMap Round.events := by
          have hclosed := hnone event.1 (by cases event.1 <;> decide)
          simpa using hclosed
        have hfilter := h.ended hevents hended
        exact List.not_mem_nil (hfilter ▸ List.mem_filter.2 ⟨hevent, by simp⟩)
      rw [hevents, hrest, List.append_nil]
    · have hmem : round ∈ rounds := heq ▸ List.mem_append_right _ List.mem_cons_self
      rw [h.inTime round hmem] at hexpired
      cases hexpired
    · have hnext := ih (before ++ [round]) (by rw [heq, List.append_assoc]; rfl)
      rw [List.flatMap_append, List.foldl_append] at hnext
      simpa using hnext

/-! ## What is returned -/

/-- What is to be returned of a child's output: its first bytes of `stdout`, and of `stderr` all of it where no
pipe is beyond the limit, and otherwise a part of its beginning and the marker, within the limit. -/
structure Returned (max : ℕ) (child : Pipe → Bytes) (output : Bytes × Bytes) : Prop where
  stdout : output.1 = (child .stdout).take max
  stderr : output.2.length ≤ max
  whole : (∀ pipe, (child pipe).length ≤ max) → output.2 = child .stderr
  marked : ∀ pipe, max < (child pipe).length →
    ∃ front, front <+: child .stderr ∧ output.2 = front ++ outputLimitMarker

theorem prefix_sliceTo (buffer : Bytes) (k : ℤ) : sliceTo buffer k <+: buffer := by
  unfold sliceTo
  split_ifs
  · exact List.take_prefix _ _
  · exact List.take_prefix _ _

theorem length_outputLimitMarker : outputLimitMarker.length = 65 := by decide

/-- The error output of a child beyond the limit is the marker after what fits in front of it, where the limit
leaves room for the marker, and longer than the limit elsewhere. -/
theorem length_marked (buffer : Bytes) (max : ℕ) :
    (sliceTo buffer (max - outputLimitMarker.length) ++ outputLimitMarker).length ≤ max ↔ 65 ≤ max := by
  rw [List.length_append, length_outputLimitMarker]
  unfold sliceTo
  split_ifs with h
  · rw [List.length_take]
    omega
  · rw [List.length_take]
    omega

/-- For a limit and a child that end the loop in time, what is buffered never exceeds the limit, the flag says
whether a pipe gave more, and what is returned is as it should be exactly where no pipe gave more or the limit
leaves room for the marker. -/
theorem capture_exact (max : ℕ) (hmax : 1 ≤ max) (returncode : ℤ) (child : Pipe → Bytes) (rounds : List Round)
    (h : Gives child rounds) :
    ∃ c, captureLoop max .initial rounds = some (.ok c) ∧
      runBounded max returncode rounds = some (.ok (returncode, decodeOutput (c.output max).1,
        decodeOutput (c.output max).2)) ∧
      (∀ events : List (Pipe × Bytes), events <+: rounds.flatMap Round.events → ∀ pipe,
        ((events.foldl (Capture.read max) .initial).buffers pipe).length ≤ max) ∧
      (c.exceeded = true ↔ ∃ pipe, max < (child pipe).length) ∧
      (Returned max child (c.output max) ↔ ((∀ pipe, (child pipe).length ≤ max) ∨ 65 ≤ max)) := by
  have hloop : captureLoop max .initial rounds = _ := captureLoop_eq h
  have hholds := holds_foldl max (rounds.flatMap Round.events)
  generalize (rounds.flatMap Round.events).foldl (Capture.read max) .initial = c at hloop hholds
  have hbuffers (pipe : Pipe) : c.buffers pipe = (child pipe).take max := by rw [hholds.buffers, h.given]
  have hexceeded : c.exceeded = true ↔ ∃ pipe, max < (child pipe).length := by
    simp only [hholds.exceeded, h.given]
  refine ⟨c, hloop, ?_, fun events _ pipe => (holds_foldl max events).length_le pipe, hexceeded, ?_⟩
  · rw [runBounded, if_neg (by omega), hloop]
    rfl
  by_cases hwithin : ∀ pipe, (child pipe).length ≤ max
  · -- no pipe is beyond the limit
    have hflag : ¬ c.exceeded = true := fun hflag => by
      obtain ⟨pipe, hmore⟩ := hexceeded.1 hflag
      exact absurd (hwithin pipe) (Nat.not_le.2 hmore)
    refine iff_of_true ?_ (.inl hwithin)
    have herr : (c.output max).2 = child .stderr := by
      rw [Capture.output, if_neg hflag]
      exact (hbuffers .stderr).trans (List.take_of_length_le (hwithin .stderr))
    refine ⟨hbuffers .stdout, herr ▸ hwithin .stderr, fun _ => herr, fun pipe hmore => ?_⟩
    exact absurd (hwithin pipe) (Nat.not_le.2 hmore)
  · -- the marker is added, for which there has to be room
    have hflag : c.exceeded = true := by
      rw [hexceeded]
      simpa using hwithin
    have herr : (c.output max).2 =
        sliceTo ((child .stderr).take max) (max - outputLimitMarker.length) ++ outputLimitMarker := by
      rw [Capture.output, if_pos hflag, ← hbuffers]
    rw [or_iff_right hwithin, ← length_marked ((child .stderr).take max) max, ← herr]
    refine ⟨fun hreturned => hreturned.stderr, fun hlength => ⟨hbuffers .stdout, hlength,
      fun hwithin' => absurd hwithin' hwithin, fun _ _ => ⟨_, ?_, herr⟩⟩⟩
    exact (prefix_sliceTo _ _).trans (List.take_prefix _ _)

/-- A child that writes two bytes to `stderr`, of which the limit is one. -/
def twoBytes : Pipe → Bytes
  | .stdout => []
  | .stderr => [97, 98]

/-- What the pipes give of it. -/
def twoBytesRounds : List Round := [⟨false, [(.stderr, [97, 98])]⟩, ⟨false, [(.stdout, []), (.stderr, [])]⟩]

theorem twoBytes_gives : Gives twoBytes twoBytesRounds where
  inTime := by simp [twoBytesRounds]
  pieces
    | .stdout => ⟨[], by simp, rfl, rfl⟩
    | .stderr => ⟨[[97, 98]], by simp, rfl, rfl⟩

/-- With room for the marker, the output is as it should be. -/
theorem twoBytes_returned : ∃ c, captureLoop (65 : ℕ) .initial twoBytesRounds = some (.ok c) ∧
    Returned 65 twoBytes (c.output (65 : ℕ)) := by
  obtain ⟨c, hloop, -, -, -, hreturned⟩ := capture_exact 65 (by decide) 0 twoBytes twoBytesRounds twoBytes_gives
  exact ⟨c, hloop, hreturned.2 (.inr le_rfl)⟩

/-- With a limit of one byte, 65 bytes of error output are returned. -/
theorem marker_beyond_limit : Gives twoBytes twoBytesRounds ∧
    ∃ c, captureLoop (1 : ℕ) .initial twoBytesRounds = some (.ok c) ∧
      1 < (c.output (1 : ℕ)).2.length ∧ ¬ Returned 1 twoBytes (c.output (1 : ℕ)) := by
  have hlong : 1 < (((twoBytesRounds.flatMap Round.events).foldl (Capture.read (1 : ℕ)) .initial).output
      (1 : ℕ)).2.length := by decide
  exact ⟨twoBytes_gives, _, captureLoop_eq twoBytes_gives, hlong,
    fun hreturned => absurd hreturned.stderr (Nat.not_le.2 hlong)⟩

end Bulldog.Sandbox
