import Bulldog.Secrets.Socket

/-!
# The line readers

`SecretBroker._read_line` and `EgressBroker._read_line` differ in the text of their exception. Both look for the
end of the line in the latest piece only, and at the length before each read and after the loop: what they
return depends on the line alone, and no peer makes them read more than a piece beyond the limit.
-/

namespace Bulldog.Sockets

variable {limit : ℕ} {data : Bytes} {stream : List Bytes}

/-! ## Every stream -/

/-- The loop reads on only below the limit, so the last piece is all that can be beyond it. -/
theorem length_receive_lt (hdata : data.length < limit + 4096)
    (hsizes : ∀ chunk ∈ stream, chunk.length ≤ 4096) :
    (receive limit data stream).length < limit + 4096 := by
  induction stream generalizing data with
  | nil => exact hdata
  | cons chunk stream ih =>
    have hchunk := hsizes chunk List.mem_cons_self
    have hrest := fun c hc => hsizes c (List.mem_cons_of_mem chunk hc)
    rw [receive]
    split_ifs with hlimit hempty hend
    · exact hdata
    · rw [List.length_append]
      omega
    · refine ih ?_ hrest
      rw [List.length_append]
      omega
    · exact hdata

/-- The loop over these pieces ends by itself: what would come next is not read. -/
def Stops (limit : ℕ) (data : Bytes) (stream : List Bytes) : Prop :=
  ∀ rest, receive limit data (stream ++ rest) = receive limit data stream

/-- Each read below the limit ends the loop or brings a byte nearer to the limit. -/
theorem exists_stops (limit : ℕ) (data : Bytes) (recv : ℕ → Bytes) :
    ∃ n ≤ limit - data.length, Stops limit data ((List.range n).map recv) := by
  induction hk : limit - data.length using Nat.strong_induction_on generalizing data recv with
  | _ k ih =>
    by_cases hlimit : data.length < limit
    · have hcons (n : ℕ) : (List.range (n + 1)).map recv =
          recv 0 :: (List.range n).map fun i => recv (i + 1) := by
        rw [List.range_succ_eq_map, List.map_cons, List.map_map]
        rfl
      by_cases hstop : recv 0 = [] ∨ 10 ∈ recv 0
      · -- the peer is done, or the line is
        refine ⟨1, by omega, fun rest => ?_⟩
        rw [hcons 0, List.cons_append, receive, receive, if_pos hlimit, if_pos hlimit]
        rcases hstop with hempty | hend
        · rw [if_pos hempty, if_pos hempty]
        · split_ifs <;> rfl
      · rw [not_or] at hstop
        have hlength : 0 < (recv 0).length := List.length_pos_iff.2 hstop.1
        obtain ⟨n, hle, hstops⟩ := ih (limit - (data ++ recv 0).length)
          (by rw [List.length_append]; omega) (data ++ recv 0) (fun i => recv (i + 1)) rfl
        rw [List.length_append] at hle
        refine ⟨n + 1, by omega, fun rest => ?_⟩
        rw [hcons n, List.cons_append, receive, receive, if_pos hlimit, if_neg hstop.1, if_neg hstop.2,
          if_pos hlimit, if_neg hstop.1, if_neg hstop.2]
        exact hstops rest
    · refine ⟨0, Nat.zero_le _, fun rest => ?_⟩
      rcases rest with _ | ⟨chunk, rest⟩
      · rfl
      · exact if_neg hlimit

/-- For both brokers, what the reader makes of a line does not depend on the pieces in which it comes: it is the
line's text where the line with its end is shorter than the limit, and an exception otherwise. Whatever the peer
sends, the reader is done after at most `limit` reads, with less than `limit + 4096` bytes. -/
theorem line_reader_exact (limit : ℕ) :
    (∀ (raw : Bytes) (s : Str) (stream : List Bytes), decodeUtf8 raw = some s → (10 : UInt8) ∉ raw →
      Chunking (raw ++ [10]) stream →
      secretReadLine limit stream =
          (if raw.length + 1 < limit then .ok s else .error (.tooLarge "request too large")) ∧
        egressReadLine limit stream =
          (if raw.length + 1 < limit then .ok s else .error (.tooLarge "broker request too large"))) ∧
    ∀ recv : ℕ → Bytes, (∀ i, (recv i).length ≤ 4096) →
      ∃ n ≤ limit, Stops limit [] ((List.range n).map recv) ∧
        (receive limit [] ((List.range n).map recv)).length < limit + 4096 := by
  refine ⟨fun raw s stream hdecode hraw h => ?_, fun recv hsizes => ?_⟩
  · exact ⟨readLineWith_exact "request too large" hdecode hraw h,
      readLineWith_exact "broker request too large" hdecode hraw h⟩
  · obtain ⟨n, hle, hstops⟩ := exists_stops limit [] recv
    refine ⟨n, hle, hstops, length_receive_lt (by rw [List.length_nil]; omega) fun chunk hchunk => ?_⟩
    obtain ⟨i, -, rfl⟩ := List.mem_map.1 hchunk
    exact hsizes i

end Bulldog.Sockets
