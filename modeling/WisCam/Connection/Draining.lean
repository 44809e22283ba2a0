import WisCam.Connection.SendRing

/-!
# The end of the loop over `write()`

`conn_write` and `tcp_conn_flush` call `write()` until the ring is empty or a call fails. The socket
does not block, and the answer `EAGAIN` is followed by the next call at once, so whether they return
is up to the peer. The results of all the calls they may ever make are an infinite sequence here,
and a call returns when its loop has ended after some number of them. Every other answer than
`EAGAIN` ends the loop or takes a byte out of the ring, so the loop goes on for ever exactly when
the peer stops reading while there are bytes left (`sendLoops_return_iff`).
-/

set_option autoImplicit false

namespace WisCam.Connection

open Foundations List

/-- The results of the first calls of `write()`. -/
def firstResults (results : ℕ → WriteResult) (calls : ℕ) : List WriteResult :=
  (List.range calls).map results

/-- `conn_write` returns after finitely many calls of `write()`. -/
def ConnWriteReturns (out : SendSide) (results : ℕ → WriteResult) : Prop :=
  ∃ calls, (connWrite out (firstResults results calls)).1 ≠ .looping

/-- `tcp_conn_flush` returns after finitely many calls of `write()`. -/
def TcpConnFlushReturns (out : SendSide) (results : ℕ → WriteResult) : Prop :=
  ∃ calls, (drain out.sendBuf (firstResults results calls)).ending ≠ .looping

/-- The peer stops reading: after some calls the loop has bytes left to write, and all later calls
answer `EAGAIN`. -/
def PeerStalls (out : SendSide) (results : ℕ → WriteResult) : Prop :=
  ∃ calls, (drain out.sendBuf (firstResults results calls)).ending = .looping ∧
    ∀ later ≥ calls, results later = .again

/-! ### One result -/

variable {ring : RingBuffer UInt8} {front back : List WriteResult} {results : ℕ → WriteResult}

theorem drain_of_empty (hempty : ring.read = ring.write) (calls : List WriteResult) :
    drain ring calls = ⟨ring, [], .emptied⟩ := by
  cases calls with
  | nil => rw [drain, if_pos hempty]
  | cons result rest => cases result <;> rw [drain, if_pos hempty]

theorem drain_again_cons (hbytes : ring.read ≠ ring.write) :
    drain ring (.again :: back) = drain ring back := by
  rw [drain, if_neg hbytes]

theorem drain_failed_cons (hbytes : ring.read ≠ ring.write) :
    drain ring (.failed :: back) = ⟨ring, [], .failed⟩ := by
  rw [drain, if_neg hbytes]

theorem drain_wrote_cons (hbytes : ring.read ≠ ring.write) (ret : ℕ) :
    drain ring (.wrote ret :: back) =
      if min ret (ring.span sendBufSize) = 0 then ⟨ring, [], .failed⟩
      else
        let after := drain (ring.skip sendBufSize (min ret (ring.span sendBufSize))) back
        { after with
          handed := ring.segment (min ret (ring.span sendBufSize)) ++ after.handed } := by
  rw [drain, if_neg hbytes]

/-! ### More results -/

/-- A loop that has ended makes no more calls. -/
theorem drain_append_of_ended (hended : (drain ring front).ending ≠ .looping) :
    drain ring (front ++ back) = drain ring front := by
  induction front generalizing ring with
  | nil =>
    by_cases hempty : ring.read = ring.write
    · rw [drain_of_empty hempty, drain_of_empty hempty]
    · rw [drain, if_neg hempty] at hended
      exact absurd rfl hended
  | cons result rest ih =>
    by_cases hempty : ring.read = ring.write
    · rw [drain_of_empty hempty, drain_of_empty hempty]
    rw [cons_append]
    cases result with
    | again =>
      rw [drain_again_cons hempty] at hended ⊢
      rw [drain_again_cons hempty, ih hended]
    | failed => rw [drain_failed_cons hempty, drain_failed_cons hempty]
    | wrote ret =>
      rw [drain_wrote_cons hempty] at hended ⊢
      rw [drain_wrote_cons hempty]
      split_ifs at hended ⊢
      · rfl
      · rw [ih hended]

/-- A loop that has not ended goes on from the ring it has come to. -/
theorem drain_append_of_looping (back : List WriteResult)
    (hlooping : (drain ring front).ending = .looping) :
    (drain ring (front ++ back)).ending = (drain (drain ring front).sendBuf back).ending ∧
      (drain ring (front ++ back)).sendBuf = (drain (drain ring front).sendBuf back).sendBuf := by
  induction front generalizing ring with
  | nil =>
    by_cases hempty : ring.read = ring.write
    · rw [drain_of_empty hempty] at hlooping
      cases hlooping
    · rw [drain, if_neg hempty]
      exact ⟨rfl, rfl⟩
  | cons result rest ih =>
    by_cases hempty : ring.read = ring.write
    · rw [drain_of_empty hempty] at hlooping
      cases hlooping
    rw [cons_append]
    cases result with
    | again =>
      rw [drain_again_cons hempty] at hlooping
      rw [drain_again_cons hempty, drain_again_cons hempty]
      exact ih hlooping
    | failed =>
      rw [drain_failed_cons hempty] at hlooping
      cases hlooping
    | wrote ret =>
      rw [drain_wrote_cons hempty] at hlooping
      rw [drain_wrote_cons hempty, drain_wrote_cons hempty]
      split_ifs at hlooping ⊢
      exact ih hlooping

theorem not_empty_of_looping (hlooping : (drain ring front).ending = .looping) :
    (drain ring front).sendBuf.read ≠ (drain ring front).sendBuf.write := by
  intro hempty
  have hnow := (drain_append_of_looping [] hlooping).1
  rw [append_nil, hlooping, drain_of_empty hempty] at hnow
  exact absurd hnow nofun

theorem drain_again (hbytes : ring.read ≠ ring.write) (count : ℕ) :
    (drain ring (List.replicate count .again)).ending = .looping := by
  induction count with
  | zero => rw [replicate_zero, drain, if_neg hbytes]
  | succ count ih => rw [replicate_succ, drain_again_cons hbytes, ih]

theorem firstResults_add (results : ℕ → WriteResult) (calls more : ℕ) :
    firstResults results (calls + more) =
      firstResults results calls ++ (List.range more).map fun i ↦ results (calls + i) := by
  rw [firstResults, range_add, map_append, map_map]
  rfl

/-! ### A peer that stalls -/

/-- A loop that is going on after some calls was going on after fewer. -/
theorem looping_of_le {calls fewer : ℕ} (hle : fewer ≤ calls)
    (hlooping : (drain ring (firstResults results calls)).ending = .looping) :
    (drain ring (firstResults results fewer)).ending = .looping := by
  by_contra hended
  obtain ⟨more, rfl⟩ := Nat.exists_eq_add_of_le hle
  rw [firstResults_add, drain_append_of_ended hended] at hlooping
  exact hended hlooping

/-- Once the peer has stopped reading, the loop does not end. -/
theorem looping_of_stalls {out : SendSide} (hstalls : PeerStalls out results) (calls : ℕ) :
    (drain out.sendBuf (firstResults results calls)).ending = .looping := by
  obtain ⟨start, hlooping, hagain⟩ := hstalls
  rcases Nat.le_total calls start with hle | hle
  · exact looping_of_le hle hlooping
  · obtain ⟨more, rfl⟩ := Nat.exists_eq_add_of_le hle
    have hlater : (List.range more).map (fun i ↦ results (start + i)) =
        List.replicate more .again := by
      refine eq_replicate_iff.mpr ⟨by rw [length_map, length_range], ?_⟩
      intro result hresult
      obtain ⟨i, -, rfl⟩ := mem_map.mp hresult
      exact hagain _ (Nat.le_add_right _ _)
    rw [firstResults_add, hlater, (drain_append_of_looping _ hlooping).1]
    exact drain_again (not_empty_of_looping hlooping) more

/-! ### A loop without end -/

/-- A call that does not end the loop answers `EAGAIN`, or takes bytes out of the ring. -/
theorem count_drain_singleton (hvalid : ring.Valid sendBufSize) {result : WriteResult}
    (hlooping : (drain ring [result]).ending = .looping) :
    result = .again ∧ (drain ring [result]).sendBuf = ring ∨
      (drain ring [result]).sendBuf.count sendBufSize < ring.count sendBufSize := by
  by_cases hempty : ring.read = ring.write
  · rw [drain_of_empty hempty] at hlooping
    cases hlooping
  cases result with
  | again =>
    rw [drain_again_cons hempty, drain, if_neg hempty]
    exact .inl ⟨rfl, rfl⟩
  | failed =>
    rw [drain_failed_cons hempty] at hlooping
    cases hlooping
  | wrote ret =>
    rw [drain_wrote_cons hempty] at hlooping ⊢
    set taken := min ret (ring.span sendBufSize) with htaken
    split_ifs at hlooping ⊢ with hzero
    have hspan : taken ≤ ring.span sendBufSize := Nat.min_le_right _ _
    have hcount := RingBuffer.span_le_count hvalid
    have hskip : (ring.skip sendBufSize taken).count sendBufSize < ring.count sendBufSize := by
      rw [RingBuffer.count_skip hvalid hspan]
      omega
    by_cases hrest : (ring.skip sendBufSize taken).read = (ring.skip sendBufSize taken).write
    · rw [drain_of_empty hrest] at hlooping
      cases hlooping
    · rw [drain, if_neg hrest]
      exact .inr hskip

/-- A loop that never ends has come to a peer that stalls. The induction is on the bytes that are
left: a call that does not answer `EAGAIN` takes some of them. -/
theorem stalls_of_looping {out : SendSide} (hvalid : out.sendBuf.Valid sendBufSize)
    (hlooping : ∀ calls, (drain out.sendBuf (firstResults results calls)).ending = .looping) :
    PeerStalls out results := by
  let left (calls : ℕ) : ℕ :=
    (drain out.sendBuf (firstResults results calls)).sendBuf.count sendBufSize
  have hstep (calls : ℕ) : results calls = .again ∧ left (calls + 1) = left calls ∨
      left (calls + 1) < left calls := by
    have hbuf := (drain_append_of_looping [results calls] (hlooping calls)).2
    have hnext := hlooping (calls + 1)
    rw [firstResults_add] at hnext
    rw [(drain_append_of_looping _ (hlooping calls)).1] at hnext
    have hcase := count_drain_singleton (drain_spec hvalid _).1 hnext
    change _ ∧ (drain out.sendBuf (firstResults results (calls + 1))).sendBuf.count _ = _ ∨
      (drain out.sendBuf (firstResults results (calls + 1))).sendBuf.count _ < _
    rw [firstResults_add]
    simp only [range_one, map_cons, map_nil, Nat.add_zero] at hcase ⊢
    rw [hbuf]
    exact hcase.imp_left fun h ↦ ⟨h.1, by rw [h.2]⟩
  have hmono (calls more : ℕ) : left (calls + more) ≤ left calls := by
    induction more with
    | zero => exact Nat.le_refl _
    | succ more ih =>
      rcases hstep (calls + more) with ⟨-, hsame⟩ | hless
      · exact (Nat.le_of_eq hsame).trans ih
      · exact (Nat.le_of_lt hless).trans ih
  have hfrom (bytes : ℕ) : ∀ calls, left calls = bytes → PeerStalls out results := by
    induction bytes using Nat.strongRecOn with
    | ind bytes ih =>
      intro calls hbytes
      by_cases hagain : ∀ later ≥ calls, results later = .again
      · exact ⟨calls, hlooping calls, hagain⟩
      · push Not at hagain
        obtain ⟨later, hlater, hother⟩ := hagain
        obtain ⟨more, rfl⟩ := Nat.exists_eq_add_of_le hlater
        have hless := (hstep (calls + more)).resolve_left fun h ↦ hother h.1
        have hbelow := Nat.lt_of_lt_of_le hless (hmono calls more)
        exact ih _ (hbytes ▸ hbelow) (calls + more + 1) rfl
  exact hfrom _ 0 rfl

/-! ### When the calls return -/

theorem connWrite_looping_iff (out : SendSide) (calls : List WriteResult) :
    (connWrite out calls).1 = .looping ↔ (drain out.sendBuf calls).ending = .looping := by
  unfold connWrite
  dsimp only
  split
  · exact iff_of_true rfl ‹_›
  · rename_i hfailed
    rw [hfailed]
    exact iff_of_false nofun nofun
  · rename_i hemptied
    rw [hemptied]
    split_ifs
    · exact iff_of_false nofun nofun
    · exact iff_of_false nofun nofun

/-- For every state of the send ring and every sequence of results of `write()`, the calls of
`conn_write` and of `tcp_conn_flush` return after finitely many calls of `write()` exactly when the
peer does not stop reading while there are bytes to write.

Assumes: the indices of the ring are in range, as they are after any sequence of calls. -/
theorem sendLoops_return_iff (out : SendSide) (results : ℕ → WriteResult)
    (hvalid : out.sendBuf.Valid sendBufSize) :
    (ConnWriteReturns out results ∧ TcpConnFlushReturns out results) ↔
      ¬ PeerStalls out results := by
  constructor
  · rintro ⟨-, calls, hended⟩ hstalls
    exact hended (looping_of_stalls hstalls calls)
  · intro hreads
    obtain ⟨calls, hended⟩ := not_forall.mp fun hlooping ↦
      hreads (stalls_of_looping hvalid hlooping)
    exact ⟨⟨calls, fun h ↦ hended ((connWrite_looping_iff out _).mp h)⟩, calls, hended⟩

def oneByteQueued : SendSide := (sendData (freshSendSide fun _ ↦ 0) [65]).2

theorem valid_oneByteQueued : oneByteQueued.sendBuf.Valid sendBufSize :=
  (wf_sendData (wf_freshSendSide _) [65]).1

/-- With a peer that takes a byte at every call, both functions return. -/
theorem sendLoops_return_sample :
    ConnWriteReturns oneByteQueued (fun _ ↦ .wrote 1) ∧
      TcpConnFlushReturns oneByteQueued fun _ ↦ .wrote 1 := by
  refine (sendLoops_return_iff oneByteQueued _ valid_oneByteQueued).mpr ?_
  rintro ⟨calls, -, hagain⟩
  exact absurd (hagain calls (Nat.le_refl _)) nofun

/-- A peer that stops reading with one byte in the ring keeps both functions from returning. -/
theorem stalled_peer_never_returns :
    oneByteQueued.sendBuf.Valid sendBufSize ∧
      ¬ ConnWriteReturns oneByteQueued (fun _ ↦ .again) ∧
      ¬ TcpConnFlushReturns oneByteQueued fun _ ↦ .again := by
  have hstalls : PeerStalls oneByteQueued fun _ ↦ .again :=
    ⟨0, by decide +kernel, fun _ _ ↦ rfl⟩
  refine ⟨valid_oneByteQueued, ?_, ?_⟩
  · rintro ⟨calls, hreturns⟩
    exact hreturns ((connWrite_looping_iff _ _).mpr (looping_of_stalls hstalls calls))
  · rintro ⟨calls, hreturns⟩
    exact hreturns (looping_of_stalls hstalls calls)

end WisCam.Connection
